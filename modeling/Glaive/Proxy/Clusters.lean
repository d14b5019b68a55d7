/-
  Glaive.Proxy.Clusters — the clusters the router is built of (`glaive/src/cluster.rs`:
  `build_cluster` and its validators; `glaive/src/config.rs`: `ClusterConfig`;
  `glaive/src/def.rs`: `MemoryCache::new_storage`).

  The validators, the builder and the router do not agree. A configuration without
  `upstream` is accepted, and unwrapped by the builder unless it has a discovery; the
  product of a cache size and a megabyte is not checked; and a prefix of more than one
  segment is accepted, where the router looks for the first segment only. Those are all
  the ways to fail (`accepted_reachable_iff`).
-/

import Glaive.Proxy.Path

namespace Glaive.Proxy

open Glaive.Lib

/-! ## Configuration -/

/-- `passing`: only the services that are alive. -/
structure ConsulType where
  name : Text
  passing : Bool

inductive DiscoveryType where
  | consul (consul : ConsulType)

/-- The sizes are in megabytes. -/
structure MemoryCache where
  cacheTtl : Nat
  maxSize : Nat
  maxCache : Nat
  lockTimeout : Nat

inductive CacheType where
  | memory (memory : MemoryCache)

structure ClusterConfig where
  name : Option Text
  /-- The prefix of the paths that are for the cluster. -/
  pfx : Option Text
  host : Option Text
  tls : Option Bool
  discovery : Option DiscoveryType
  rateLimit : Option Limiter
  cache : Option CacheType
  retry : Option Nat
  ip : Option IpWhitelist
  auth : Option AuthType
  consumers : Option (List Consumer)
  upstream : Option (List Text)
  routes : Option (List RouteConfig)

def validateClusterConfig (config : ClusterConfig) : Bool :=
  if config.name.isNone || config.pfx.isNone || config.host.isNone || config.tls.isNone then false
  else if config.pfx.any fun p => p.isEmpty || p.head? != some '/' || p.getLast? == some '/' then false
  -- the loop is over the `Option`
  else if config.upstream.any fun upstream => upstream.isEmpty then false
  else true

/-- `true` for a duplicate. -/
def validateDuplicatedPrefix (clusters : List ClusterConfig) : Bool := go [] clusters
where
  go (seen : List (Option Text)) : List ClusterConfig → Bool
    | [] => false
    | cluster :: rest => if cluster.pfx ∈ seen then true else go (cluster.pfx :: seen) rest

def hasDiscoveryEnabled (clusters : List ClusterConfig) : Bool := clusters.any fun cluster => cluster.discovery.isSome

/-! ## The builder -/

inductive LoadBalancer where
  | hardcoded (backends : List SocketAddr)
  | discovered (service : ConsulType)

structure CacheBucket where
  rejectEmptyBody : Bool
  maxFileSizeBytes : Option Nat
  /-- The weight the eviction manager holds. -/
  evictionLimit : Nat
  lockTimeout : Nat

structure Cluster extends ClusterMetadata where
  host : Text
  tls : Bool
  cacheStorage : Option CacheBucket
  cacheTtl : Option Nat
  upstream : LoadBalancer

structure BuiltClusters where
  clusters : List Cluster
  prefixMap : List (Text × Nat)
  clusterBgService : List LoadBalancer
  updaterBgService : List LoadBalancer

/-- `HashMap::insert`. -/
def insertPrefix (p : Text) (idx : Nat) : List (Text × Nat) → List (Text × Nat)
  | [] => [(p, idx)]
  | e :: es => if e.1 = p then (p, idx) :: es else e :: insertPrefix p idx es

def unwrap {σ α : Type} (o : Option α) : Async σ α :=
  match o with
  | some a => pure a
  | none => Async.stop (.panic "called `Option::unwrap()` on a `None` value")

def multiply {σ : Type} (a b : Nat) : Async σ Nat :=
  match umul a b with
  | some n => pure n
  | none => Async.stop (.panic "attempt to multiply with overflow")

/-- `to_socket_addrs` of the texts, of which each has some. -/
def buildClusterService (toSocketAddrs : Text → Option (List SocketAddr)) (upstreams : List Text) :
    Async BuiltClusters LoadBalancer :=
  match upstreams.mapM toSocketAddrs with
  | some addrs => pure (.hardcoded addrs.flatten)
  | none => Async.stop (.panic "called `Result::unwrap()` on an `Err` value")

def ConsulType.buildCluster (consul : ConsulType) : Async BuiltClusters LoadBalancer := do
  Async.modify fun b => { b with updaterBgService := b.updaterBgService ++ [.discovered consul] }
  return .discovered consul

def MemoryCache.newStorage (memory : MemoryCache) : Async BuiltClusters (Option CacheBucket × Option Nat) := do
  let maxFileSize ← multiply (1024 * 1024) memory.maxSize
  let limit ← multiply (1024 * 1024) memory.maxCache
  return (some ⟨true, some maxFileSize, limit, memory.lockTimeout⟩, some memory.cacheTtl)

/-- The upstream of a cluster; `discovery`: there is a connection. -/
def clusterService (toSocketAddrs : Text → Option (List SocketAddr)) (discovery : Bool) (conf : ClusterConfig) :
    Async BuiltClusters LoadBalancer :=
  match conf.discovery with
  | some (.consul consul) =>
    if discovery then consul.buildCluster else Async.stop (.panic "Error Consul Connection")
  | none => do
    let upstream ← unwrap conf.upstream
    buildClusterService toSocketAddrs upstream

def clusterStorage (conf : ClusterConfig) : Async BuiltClusters (Option CacheBucket × Option Nat) :=
  match conf.cache with
  | some (.memory memory) => memory.newStorage
  | none => pure (none, none)

def clusterMetadata (conf : ClusterConfig) (service : LoadBalancer) (storage : Option CacheBucket × Option Nat) :
    Cluster where
  name := conf.name.getD "unnamed-cluster".toList
  limiter := conf.rateLimit
  retry := conf.retry
  auth := conf.auth
  ip := conf.ip
  consumers := conf.consumers
  routes := conf.routes
  host := conf.host.getD "localhost".toList
  tls := conf.tls.getD false
  cacheStorage := storage.1
  cacheTtl := storage.2
  upstream := service

/-- The body of the loop. -/
def addCluster (toSocketAddrs : Text → Option (List SocketAddr)) (discovery : Bool) (idx : Nat) (conf : ClusterConfig) :
    Async BuiltClusters Unit := do
  if validateClusterConfig conf then
    let service ← clusterService toSocketAddrs discovery conf
    let storage ← clusterStorage conf
    Async.modify fun b => { b with
      clusters := b.clusters ++ [clusterMetadata conf service storage]
      clusterBgService := b.clusterBgService ++ [service] }
    let p ← unwrap conf.pfx
    Async.modify fun b => { b with prefixMap := insertPrefix p idx b.prefixMap }
  else Async.stop (.panic "invalid upstream configuration")

def addClusters (toSocketAddrs : Text → Option (List SocketAddr)) (discovery : Bool) : Nat → List ClusterConfig →
    Async BuiltClusters Unit
  | _, [] => pure ()
  | idx, conf :: confs => do
    addCluster toSocketAddrs discovery idx conf
    addClusters toSocketAddrs discovery (idx + 1) confs

def buildCluster (toSocketAddrs : Text → Option (List SocketAddr)) (configs : List ClusterConfig) : Out BuiltClusters :=
  if validateDuplicatedPrefix configs then .panic "found duplicated upstream prefix"
  else
    match addClusters toSocketAddrs (hasDiscoveryEnabled configs) 0 configs ⟨[], [], [], []⟩ with
    | (.ok (), built) => .ok built
    | (.err e, _) => .err e
    | (.pending, _) => .pending
    | (.panic text, _) => .panic text

/-! ## What the builder makes -/

/-- There is an upstream to build, and the sizes of a cache fit a `usize` in bytes. -/
def ClusterConfig.Complete (conf : ClusterConfig) : Prop :=
  (conf.upstream.isSome ∨ conf.discovery.isSome) ∧ ∀ memory, conf.cache = some (.memory memory) →
    1024 * 1024 * memory.maxSize < usizeEnd ∧ 1024 * 1024 * memory.maxCache < usizeEnd

/-- The upstreams of `conf` are addresses. -/
def ClusterConfig.Addressed (toSocketAddrs : Text → Option (List SocketAddr)) (conf : ClusterConfig) : Prop :=
  ∀ upstream, conf.upstream = some upstream → ∀ u ∈ upstream, (toSocketAddrs u).isSome

variable {toSocketAddrs : Text → Option (List SocketAddr)} {discovery : Bool} {conf : ClusterConfig}
  {b b' : BuiltClusters}

theorem unwrap_ok {σ α : Type} {o : Option α} {a : α} {s s' : σ} (h : unwrap o s = (.ok a, s')) : o = some a ∧ s' = s := by
  cases o with
  | none => cases h
  | some a => cases h; exact ⟨rfl, rfl⟩

theorem multiply_ok {σ : Type} {n m k : Nat} {s s' : σ} (h : multiply n m s = (.ok k, s')) :
    n * m < usizeEnd ∧ k = n * m ∧ s' = s := by
  unfold multiply umul at h
  by_cases hlt : n * m < usizeEnd
  · rw [if_pos hlt] at h
    cases h
    exact ⟨hlt, rfl, rfl⟩
  · rw [if_neg hlt] at h
    cases h

theorem multiply_of_lt {σ : Type} {n m : Nat} (h : n * m < usizeEnd) (s : σ) : multiply n m s = (.ok (n * m), s) := by
  unfold multiply umul
  rw [if_pos h]
  rfl

theorem mapM_some {α β : Type} {g : α → Option β} : ∀ {as : List α}, (∀ a ∈ as, (g a).isSome) →
    ∃ bs, as.mapM g = some bs := by
  intro as
  induction as with
  | nil => exact fun _ => ⟨[], rfl⟩
  | cons a as ih =>
    intro h
    obtain ⟨c, hc⟩ := Option.isSome_iff_exists.mp (h a (List.mem_cons_self ..))
    obtain ⟨bs, hbs⟩ := ih fun a' ha => h a' (List.mem_cons_of_mem _ ha)
    exact ⟨c :: bs, by rw [List.mapM_cons, hc, hbs]; rfl⟩

theorem clusterService_ok {service : LoadBalancer} (h : clusterService toSocketAddrs discovery conf b = (.ok service, b')) :
    (conf.upstream.isSome ∨ conf.discovery.isSome) ∧ b'.prefixMap = b.prefixMap := by
  unfold clusterService at h
  cases hd : conf.discovery with
  | some d =>
    cases d with
    | consul consul =>
      rw [hd] at h
      cases discovery with
      | false => cases h
      | true => cases h; exact ⟨.inr rfl, rfl⟩
  | none =>
    rw [hd] at h
    obtain ⟨upstream, b1, h1, h2⟩ := Async.of_bind_ok h
    obtain ⟨hu, rfl⟩ := unwrap_ok h1
    refine ⟨.inl (by rw [hu]; rfl), ?_⟩
    unfold buildClusterService at h2
    cases hm : upstream.mapM toSocketAddrs with
    | none => rw [hm] at h2; cases h2
    | some addrs => rw [hm] at h2; cases h2; rfl

theorem clusterService_complete (hd : conf.discovery.isSome → discovery = true) (ha : conf.Addressed toSocketAddrs)
    (hc : conf.upstream.isSome ∨ conf.discovery.isSome) (b : BuiltClusters) :
    ∃ service b', clusterService toSocketAddrs discovery conf b = (.ok service, b') := by
  unfold clusterService
  cases hdc : conf.discovery with
  | some d =>
    cases d with
    | consul consul => rw [hd (by rw [hdc]; rfl)]; exact ⟨_, _, rfl⟩
  | none =>
    rw [hdc] at hc
    obtain ⟨upstream, hu⟩ := Option.isSome_iff_exists.mp (hc.resolve_right (by simp))
    obtain ⟨addrs, haddrs⟩ := mapM_some (ha upstream hu)
    refine ⟨.hardcoded addrs.flatten, b, ?_⟩
    simp only
    rw [hu]
    show buildClusterService toSocketAddrs upstream b = _
    unfold buildClusterService
    rw [haddrs]
    rfl

/-- The storage of a cluster, and how long a response of it is fresh, by its cache. -/
def ClusterConfig.storage (conf : ClusterConfig) : Option CacheBucket × Option Nat :=
  match conf.cache with
  | some (.memory memory) =>
    (some ⟨true, some (1024 * 1024 * memory.maxSize), 1024 * 1024 * memory.maxCache, memory.lockTimeout⟩,
      some memory.cacheTtl)
  | none => (none, none)

theorem clusterStorage_ok {storage : Option CacheBucket × Option Nat}
    (h : clusterStorage conf b = (.ok storage, b')) :
    (∀ memory, conf.cache = some (.memory memory) →
      1024 * 1024 * memory.maxSize < usizeEnd ∧ 1024 * 1024 * memory.maxCache < usizeEnd) ∧
      storage = conf.storage ∧ b' = b := by
  unfold clusterStorage at h
  unfold ClusterConfig.storage
  cases hc : conf.cache with
  | none => rw [hc] at h; cases h; exact ⟨nofun, rfl, rfl⟩
  | some c =>
    cases c with
    | memory memory =>
      rw [hc] at h
      obtain ⟨_, b1, h1, h2⟩ := Async.of_bind_ok h
      obtain ⟨_, b2, h3, h4⟩ := Async.of_bind_ok h2
      obtain ⟨hsize, rfl, rfl⟩ := multiply_ok h1
      obtain ⟨hcache, rfl, rfl⟩ := multiply_ok h3
      cases h4
      refine ⟨?_, rfl, rfl⟩
      rintro _ ⟨⟩
      exact ⟨hsize, hcache⟩

theorem clusterStorage_complete (hc : ∀ memory, conf.cache = some (.memory memory) →
      1024 * 1024 * memory.maxSize < usizeEnd ∧ 1024 * 1024 * memory.maxCache < usizeEnd) (b : BuiltClusters) :
    ∃ storage, clusterStorage conf b = (.ok storage, b) := by
  unfold clusterStorage
  cases hcache : conf.cache with
  | none => exact ⟨_, rfl⟩
  | some c =>
    cases c with
    | memory memory =>
      obtain ⟨hsize, hlimit⟩ := hc memory hcache
      simp only [MemoryCache.newStorage]
      rw [Async.bind_ok (multiply_of_lt hsize b), Async.bind_ok (multiply_of_lt hlimit b)]
      exact ⟨_, rfl⟩

/-- A cluster that is built was complete, and its prefix is entered. -/
theorem addCluster_ok {idx : Nat} (h : addCluster toSocketAddrs discovery idx conf b = (.ok (), b')) :
    conf.Complete ∧ ∃ p, conf.pfx = some p ∧ b'.prefixMap = insertPrefix p idx b.prefixMap := by
  unfold addCluster at h
  by_cases hv : validateClusterConfig conf
  · rw [if_pos hv] at h
    obtain ⟨service, b1, h1, h2⟩ := Async.of_bind_ok h
    obtain ⟨storage, b2, h3, h4⟩ := Async.of_bind_ok h2
    rw [Async.modify_bind_apply] at h4
    obtain ⟨p, b3, h5, h6⟩ := Async.of_bind_ok h4
    obtain ⟨hservice, hmap⟩ := clusterService_ok h1
    obtain ⟨hstorage, -, rfl⟩ := clusterStorage_ok h3
    obtain ⟨hp, rfl⟩ := unwrap_ok h5
    cases h6
    exact ⟨⟨hservice, hstorage⟩, p, hp, congrArg (insertPrefix p idx) hmap⟩
  · rw [if_neg hv] at h
    cases h

theorem valid_pfx (hv : validateClusterConfig conf = true) :
    ∃ c b, conf.pfx = some ('/' :: c :: b) ∧ ('/' :: c :: b).getLast? ≠ some '/' := by
  unfold validateClusterConfig at hv
  cases hp : conf.pfx with
  | none => simp [hp] at hv
  | some p =>
    cases p with
    | nil => simp [hp] at hv
    | cons a p =>
      cases p with
      | nil =>
        by_cases ha : a = '/'
        · simp [hp, ha] at hv
        · simp [hp, ha] at hv
      | cons c b =>
        by_cases ha : a = '/'
        · refine ⟨c, b, by rw [ha], fun hlast => ?_⟩
          simp [hp, ha, hlast] at hv
        · simp [hp, ha] at hv

theorem addCluster_complete (idx : Nat) (hv : validateClusterConfig conf = true)
    (hd : conf.discovery.isSome → discovery = true) (ha : conf.Addressed toSocketAddrs) (hc : conf.Complete)
    (b : BuiltClusters) : ∃ b', addCluster toSocketAddrs discovery idx conf b = (.ok (), b') := by
  obtain ⟨service, b1, h1⟩ := clusterService_complete hd ha hc.1 b
  obtain ⟨storage, h2⟩ := clusterStorage_complete hc.2 b1
  obtain ⟨c, p, hp, -⟩ := valid_pfx hv
  unfold addCluster
  rw [if_pos hv, Async.bind_ok h1, Async.bind_ok h2, hp]
  exact ⟨_, rfl⟩

/-! ## The loop -/

def prefixEntry (m : List (Text × Nat)) (p : Text) : Option (Text × Nat) := m.find? fun e => e.1 = p

theorem prefixEntry_insert (p q : Text) (idx : Nat) (m : List (Text × Nat)) :
    prefixEntry (insertPrefix p idx m) q = if q = p then some (p, idx) else prefixEntry m q := by
  unfold prefixEntry
  induction m with
  | nil =>
    by_cases hq : q = p
    · simp [insertPrefix, hq]
    · simp [insertPrefix, hq, Ne.symm hq]
  | cons e m ih =>
    unfold insertPrefix
    by_cases he : e.1 = p
    · rw [if_pos he]
      by_cases hq : q = p
      · simp [hq]
      · have hne : e.1 ≠ q := fun h => hq (h.symm.trans he)
        simp [hq, Ne.symm hq, hne]
    · rw [if_neg he]
      by_cases hq : e.1 = q
      · have hne : q ≠ p := fun h => he (hq.trans h)
        simp [hq, hne]
      · simp [hq, ih]

theorem mem_insertPrefix {p : Text} {idx : Nat} {e : Text × Nat} : ∀ {m : List (Text × Nat)},
    e ∈ insertPrefix p idx m → e = (p, idx) ∨ e ∈ m := by
  intro m
  induction m with
  | nil => exact fun h => .inl (List.mem_singleton.mp h)
  | cons x m ih =>
    intro h
    unfold insertPrefix at h
    by_cases hx : x.1 = p
    · rw [if_pos hx, List.mem_cons] at h
      rcases h with h | h
      · exact .inl h
      · exact .inr (List.mem_cons_of_mem _ h)
    · rw [if_neg hx, List.mem_cons] at h
      rcases h with h | h
      · exact .inr (List.mem_cons.mpr (.inl h))
      · exact (ih h).imp_right (List.mem_cons_of_mem _)

/-- No prefix is given twice. -/
theorem validateDuplicatedPrefix_nodup {configs : List ClusterConfig} (h : validateDuplicatedPrefix configs = false) :
    (configs.map ClusterConfig.pfx).Nodup := by
  suffices hgo : ∀ (configs : List ClusterConfig) (seen : List (Option Text)),
      validateDuplicatedPrefix.go seen configs = false →
      (configs.map ClusterConfig.pfx).Nodup ∧ ∀ c ∈ configs, c.pfx ∉ seen from (hgo configs [] h).1
  intro configs
  induction configs with
  | nil =>
    intro _ _
    exact ⟨List.nodup_nil, fun _ hc => absurd hc List.not_mem_nil⟩
  | cons c configs ih =>
    intro seen h
    unfold validateDuplicatedPrefix.go at h
    by_cases hc : c.pfx ∈ seen
    · rw [if_pos hc] at h
      cases h
    · rw [if_neg hc] at h
      obtain ⟨hnodup, hseen⟩ := ih _ h
      refine ⟨List.nodup_cons.mpr ⟨fun hmem => ?_, hnodup⟩, fun d hd => ?_⟩
      · obtain ⟨d, hd, he⟩ := List.mem_map.mp hmem
        exact hseen d hd (he ▸ List.mem_cons_self ..)
      · rcases List.mem_cons.mp hd with rfl | hd
        · exact hc
        · exact fun hmem => hseen d hd (List.mem_cons_of_mem _ hmem)

/-- The prefixes of `configs`, numbered from `idx`, are entered over those of `m`. -/
structure Entered (idx : Nat) (configs : List ClusterConfig) (m m' : List (Text × Nat)) : Prop where
  found : ∀ i conf p, configs[i]? = some conf → conf.pfx = some p → prefixEntry m' p = some (p, idx + i)
  others : ∀ q, some q ∉ configs.map ClusterConfig.pfx → prefixEntry m' q = prefixEntry m q
  only : ∀ e ∈ m', e ∈ m ∨ ∃ i conf, configs[i]? = some conf ∧ conf.pfx = some e.1 ∧ e.2 = idx + i

theorem addClusters_ok {configs : List ClusterConfig} : ∀ {idx : Nat} {b b' : BuiltClusters},
    (configs.map ClusterConfig.pfx).Nodup → addClusters toSocketAddrs discovery idx configs b = (.ok (), b') →
    (∀ conf ∈ configs, conf.Complete) ∧ Entered idx configs b.prefixMap b'.prefixMap := by
  induction configs with
  | nil =>
    intro idx b b' _ h
    cases h
    refine ⟨fun _ hc => absurd hc List.not_mem_nil, fun i c p hi => ?_, fun _ _ => rfl, fun e he => .inl he⟩
    rw [List.getElem?_nil] at hi
    cases hi
  | cons conf configs ih =>
    intro idx b b' hnodup h
    obtain ⟨_, b1, h1, h2⟩ := Async.of_bind_ok h
    obtain ⟨hcomplete, p, hp, hmap⟩ := addCluster_ok h1
    rw [List.map_cons, List.nodup_cons] at hnodup
    obtain ⟨hall, hfound, hothers, honly⟩ := ih hnodup.2 h2
    refine ⟨List.forall_mem_cons.mpr ⟨hcomplete, hall⟩, ?_, ?_, ?_⟩
    · intro i c q hi hq
      cases i with
      | zero =>
        cases hi
        cases hp.symm.trans hq
        rw [hothers p (by rw [← hp]; exact hnodup.1), hmap, prefixEntry_insert, if_pos rfl]
        rfl
      | succ i =>
        rw [List.getElem?_cons_succ] at hi
        rw [hfound i c q hi hq, Nat.add_right_comm, Nat.add_assoc]
    · intro q hq
      rw [List.map_cons, List.mem_cons, not_or] at hq
      have hne : q ≠ p := fun h => hq.1 (by rw [hp, h])
      rw [hothers q hq.2, hmap, prefixEntry_insert, if_neg hne]
    · intro e he
      rcases honly e he with he | ⟨i, c, hi, hc, hidx⟩
      · rw [hmap] at he
        rcases mem_insertPrefix he with rfl | he
        · exact .inr ⟨0, conf, rfl, hp, rfl⟩
        · exact .inl he
      · exact .inr ⟨i + 1, c, hi, hc, by rw [hidx, Nat.add_right_comm, Nat.add_assoc]⟩

theorem addClusters_complete (discovery : Bool) (configs : List ClusterConfig) : ∀ (idx : Nat) (b : BuiltClusters),
    (∀ conf ∈ configs, validateClusterConfig conf = true ∧ (conf.discovery.isSome → discovery = true) ∧
      conf.Addressed toSocketAddrs ∧ conf.Complete) →
    ∃ b', addClusters toSocketAddrs discovery idx configs b = (.ok (), b') := by
  induction configs with
  | nil => exact fun _ b _ => ⟨b, rfl⟩
  | cons conf configs ih =>
    intro idx b h
    obtain ⟨⟨hv, hd, ha, hc⟩, hrest⟩ := List.forall_mem_cons.mp h
    obtain ⟨b1, h1⟩ := addCluster_complete idx hv hd ha hc b
    obtain ⟨b2, h2⟩ := ih (idx + 1) b1 hrest
    exact ⟨b2, (Async.bind_ok h1).trans h2⟩

/-- What the validators accept, with upstreams that are addresses. -/
structure Accepted (toSocketAddrs : Text → Option (List SocketAddr)) (configs : List ClusterConfig) : Prop where
  unique : validateDuplicatedPrefix configs = false
  valid : ∀ conf ∈ configs, validateClusterConfig conf = true
  addressed : ∀ conf ∈ configs, conf.Addressed toSocketAddrs

theorem buildCluster_ok {configs : List ClusterConfig} (hacc : Accepted toSocketAddrs configs) {built : BuiltClusters}
    (h : buildCluster toSocketAddrs configs = .ok built) :
    (∀ conf ∈ configs, conf.Complete) ∧ Entered 0 configs [] built.prefixMap := by
  unfold buildCluster at h
  rw [hacc.unique, if_neg (by simp)] at h
  split at h
  · rename_i b' hrun
    cases h
    exact addClusters_ok (validateDuplicatedPrefix_nodup hacc.unique) hrun
  all_goals cases h

theorem buildCluster_complete {configs : List ClusterConfig} (hacc : Accepted toSocketAddrs configs)
    (hc : ∀ conf ∈ configs, conf.Complete) : ∃ built, buildCluster toSocketAddrs configs = .ok built := by
  obtain ⟨built, hrun⟩ := addClusters_complete (hasDiscoveryEnabled configs) configs 0
    ⟨[], [], [], []⟩ fun conf hmem => ⟨hacc.valid conf hmem, fun hd => List.any_eq_true.mpr ⟨conf, hmem, hd⟩,
      hacc.addressed conf hmem, hc conf hmem⟩
  refine ⟨built, ?_⟩
  unfold buildCluster
  rw [hacc.unique, if_neg (by simp), hrun]

/-! ## The router over it -/

/-- `http::Uri` looks at a path one character at a time, and at its length: what is left
    of an accepted one when some go is accepted too. -/
structure PathLaws (parseUri : Text → Option Uri) : Prop extends UriLaws parseUri where
  shorter : ∀ {t t'}, '?' ∉ '/' :: t → '#' ∉ '/' :: t → (parseUri ('/' :: t)).isSome → t'.Sublist t →
    (parseUri ('/' :: t')).isSome

variable {R : Type}

def ValidPath (ex : Externals R) (path : Text) : Prop := ∃ u, ex.parseUri path = some u ∧ u.path = path

theorem ValidPath.sublist {ex : Externals R} (laws : PathLaws ex.parseUri) {t t' : Text}
    (h : ValidPath ex ('/' :: t)) (hs : t'.Sublist t) : ValidPath ex ('/' :: t') := by
  obtain ⟨u, hu, hpath⟩ := h
  obtain ⟨hq, hf⟩ := laws.clean hu
  rw [hpath] at hq hf
  obtain ⟨u', hu'⟩ := Option.isSome_iff_exists.mp (laws.shorter hq hf (Option.isSome_iff_exists.mpr ⟨u, hu⟩) hs)
  have hsub := hs.cons_cons '/'
  exact ⟨u', hu', (laws.origin hu' (fun h => hq (hsub.mem h)) (fun h => hf (hsub.mem h))).1⟩

theorem selectCluster_continues {ex : Externals R} {prefixMap : List (Text × Nat)} {uri : Text} {e : Text × Nat}
    (hparse : (ex.parseUri uri).isSome) (hfind : prefixMap.find? (fun e => e.1 = basePath uri) = some e)
    (hrest : (ex.parseUri (orRoot (removeFirst e.1 uri))).isSome) (f : Filter R) :
    ∃ f', selectCluster ex prefixMap uri f = (.ok false, f') ∧ f'.ctx.clusterAddress = e.2 := by
  obtain ⟨u, hu⟩ := Option.isSome_iff_exists.mp hparse
  obtain ⟨u', hu'⟩ := Option.isSome_iff_exists.mp hrest
  unfold selectCluster
  rw [hu, hfind]
  simp only [Async.modify_bind_apply]
  unfold orRoot at hu'
  by_cases hm : (removeFirst e.1 uri).isEmpty
  · rw [if_pos hm] at hu' ⊢
    rw [hu']
    exact ⟨_, rfl, rfl⟩
  · rw [if_neg hm] at hu' ⊢
    rw [hu']
    exact ⟨_, rfl, rfl⟩

/-- Every valid path that is a prefix of `configs`, or goes on after one with a slash, is
    sent to the cluster of the prefix. -/
def Reachable (ex : Externals R) (f : Filter R) (configs : List ClusterConfig) (built : BuiltClusters) : Prop :=
  ∀ i conf p suffix, configs[i]? = some conf → conf.pfx = some p → (suffix = [] ∨ ∃ t, suffix = '/' :: t) →
    ValidPath ex (p ++ suffix) →
    ∃ f', selectCluster ex built.prefixMap (p ++ suffix) f = (.ok false, f') ∧ f'.ctx.clusterAddress = i

theorem reachable_single {ex : Externals R} (laws : PathLaws ex.parseUri) (f : Filter R) {configs : List ClusterConfig}
    {built : BuiltClusters} (hacc : Accepted toSocketAddrs configs) (hent : Entered 0 configs [] built.prefixMap)
    (hsingle : ∀ conf ∈ configs, ∀ p, conf.pfx = some p → ValidPath ex p → '/' ∉ p.tail) :
    Reachable ex f configs built := by
  intro i conf p suffix hi hp hsuffix hvalid
  have hmem := List.mem_of_getElem? hi
  obtain ⟨c, b, hp', -⟩ := valid_pfx (hacc.valid conf hmem)
  cases hp.symm.trans hp'
  have hfront : ValidPath ex ('/' :: c :: b) :=
    ValidPath.sublist laws hvalid (List.sublist_append_left (c :: b) suffix)
  have hlead : Leads 0 (c :: b) suffix ('/' :: c :: b ++ suffix) :=
    ⟨rfl, List.cons_ne_nil c b, hsingle conf hmem _ hp hfront, hsuffix⟩
  have hrest : ValidPath ex (orRoot suffix) := by
    rcases hsuffix with rfl | ⟨t, rfl⟩
    · exact ValidPath.sublist laws hvalid (List.nil_sublist _)
    · exact ValidPath.sublist laws hvalid ((List.sublist_cons_self '/' t).trans (List.sublist_append_right _ _))
  obtain ⟨u, hu, -⟩ := hvalid
  obtain ⟨u', hu', -⟩ := hrest
  have hfind := hent.found i conf _ hi hp
  rw [Nat.zero_add] at hfind
  refine selectCluster_continues (Option.isSome_iff_exists.mpr ⟨u, hu⟩) (by rw [hlead.basePath]; exact hfind) ?_ f
  rw [removeFirst_leads hlead]
  exact Option.isSome_iff_exists.mpr ⟨u', hu'⟩

theorem single_of_reachable {ex : Externals R} {f : Filter R} {configs : List ClusterConfig} {built : BuiltClusters}
    (hent : Entered 0 configs [] built.prefixMap) (hreach : Reachable ex f configs built) :
    ∀ conf ∈ configs, ∀ p, conf.pfx = some p → ValidPath ex p → '/' ∉ p.tail := by
  intro conf hmem p hp hvalid
  obtain ⟨i, hi⟩ := List.mem_iff_getElem?.mp hmem
  obtain ⟨f', h, haddr⟩ := hreach i conf p [] hi hp (.inl rfl) (by rw [List.append_nil]; exact hvalid)
  rw [List.append_nil] at h
  obtain ⟨-, -, -, -, _, e, -, he, hidx, -⟩ := selectCluster_ok h
  -- the entry found is the cluster's own, and its prefix is the first segment
  have hbase : e.1 = basePath p := by simpa using List.find?_some he
  have hown : conf.pfx = some e.1 := by
    rcases hent.only e (List.mem_of_find?_eq_some he) with hnil | ⟨j, c, hj, hc, hj'⟩
    · exact absurd hnil List.not_mem_nil
    · have hij : j = i := by rw [← haddr, hidx, hj', Nat.zero_add]
      rw [hij, hi] at hj
      cases hj
      exact hc
  have hpe : p = e.1 := by
    rw [hp] at hown
    exact Option.some.inj hown
  obtain ⟨b, hb, hslash⟩ := basePath_single p
  rw [hpe, hbase, hb]
  exact hslash

/-- Of configurations that are accepted the builder makes a router that sends every valid
    path to the cluster of its prefix just if each has an upstream or a discovery and a
    cache whose sizes fit, and each prefix that is a path is of one segment. -/
theorem accepted_reachable_iff (ex : Externals R) (laws : PathLaws ex.parseUri)
    (toSocketAddrs : Text → Option (List SocketAddr)) (configs : List ClusterConfig) (f : Filter R)
    (hacc : Accepted toSocketAddrs configs) :
    (∃ built, buildCluster toSocketAddrs configs = .ok built ∧ Reachable ex f configs built) ↔
      ∀ conf ∈ configs, conf.Complete ∧ ∀ p, conf.pfx = some p → ValidPath ex p → '/' ∉ p.tail := by
  constructor
  · intro h
    rcases h with ⟨built, hbuilt, hreach⟩
    obtain ⟨hcomplete, hent⟩ := buildCluster_ok hacc hbuilt
    intro conf hmem
    exact ⟨hcomplete conf hmem, single_of_reachable hent hreach conf hmem⟩
  · intro h
    obtain ⟨built, hbuilt⟩ := buildCluster_complete hacc fun conf hmem => (h conf hmem).1
    obtain ⟨-, hent⟩ := buildCluster_ok hacc hbuilt
    exact ⟨built, hbuilt, reachable_single laws f hacc hent fun conf hmem => (h conf hmem).2⟩

theorem originForm_pathLaws : PathLaws originForm where
  toUriLaws := originForm_laws
  shorter := by
    intro t t' _ _ _ _
    unfold originForm
    rw [if_pos (by rfl)]
    rfl

/-- A cluster with a prefix and perhaps an upstream, and nothing else. -/
def plainConfig (pfx : String) (upstream : Option (List Text)) : ClusterConfig :=
  ⟨some "catalog".toList, some pfx.toList, some "localhost".toList, some false, none, none, none, none, none, none, none,
    upstream, none⟩

def anyAddress : Text → Option (List SocketAddr) := fun _ => some [.inet "127.0.0.1".toList 8001]

/-- A cluster that is discovered and cached, without a retry. -/
def discoveredConfig : ClusterConfig :=
  ⟨some "orders".toList, some "/b".toList, some "orders.local".toList, some true,
    some (.consul ⟨"orders".toList, true⟩), none, some (.memory ⟨60, 1, 64, 5⟩), some 0, none, none, none, none, none⟩

def pairConfigs : List ClusterConfig := [plainConfig "/a" (some ["127.0.0.1:8001".toList]), discoveredConfig]

theorem accepted_reachable_iff_pair :
    (∃ built, buildCluster anyAddress pairConfigs = .ok built ∧
      Reachable originExternals (requestFor "/b/c") pairConfigs built) ↔
      ∀ conf ∈ pairConfigs, conf.Complete ∧
        ∀ p, conf.pfx = some p → ValidPath originExternals p → '/' ∉ p.tail :=
  accepted_reachable_iff originExternals originForm_pathLaws anyAddress pairConfigs (requestFor "/b/c")
    ⟨by decide, by decide, fun _ _ _ _ _ _ => rfl⟩

/-- Both are accepted: a cluster that cannot be built, and one that no path reaches. -/
theorem accepted_unreachable :
    Accepted anyAddress [plainConfig "/a" none] ∧
      buildCluster anyAddress [plainConfig "/a" none] = .panic "called `Option::unwrap()` on a `None` value" ∧
      Accepted anyAddress [plainConfig "/a/b" (some ["127.0.0.1:8001".toList])] ∧
      ∃ built, buildCluster anyAddress [plainConfig "/a/b" (some ["127.0.0.1:8001".toList])] = .ok built ∧
        ValidPath originExternals "/a/b".toList ∧
        (selectCluster originExternals built.prefixMap "/a/b".toList (requestFor "/a/b")).1 = .ok true :=
  ⟨⟨by decide, by decide, fun _ _ _ _ _ _ => rfl⟩, rfl, ⟨by decide, by decide, fun _ _ _ _ _ _ => rfl⟩, _, rfl,
    ⟨_, rfl, by decide⟩, by decide⟩

end Glaive.Proxy
