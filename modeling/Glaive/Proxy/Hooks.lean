/-
  Glaive.Proxy.Hooks — what the gateway does with a request after `request_filter` let it
  on (`glaive/src/proxy.rs`: `upstream_peer`, `request_cache_filter`,
  `cache_key_callback`, `response_cache_filter` and the header filters;
  `glaive/src/cluster.rs`).

  Each hook takes the cluster by the index that `select_cluster` left in the context. The
  proxy that calls them is no part of the gateway: they are taken in any order and as
  often as it likes. `select` is the load balancer's, and the crates for headers those of
  `Glaive.Proxy.HeaderFilters`.

  Proved: whatever the hooks do is for one configuration, the one of the request's prefix,
  whose guards the request has passed: its upstreams or the service it is discovered as,
  its limit of retries, its storage, its edits (`forwarded_hooks`). Two requests with one
  cache key are for one path of one cluster (`same_key`).
-/

import Glaive.Proxy.Clusters
import Glaive.Proxy.HeaderFilters
import Glaive.Proxy.Retries

namespace Glaive.Proxy

open Glaive.Lib

/-! ## The router -/

/-- With what only the hooks read. -/
structure HookConfig extends ClusterConfig where
  timeout : Option Nat
  request : Option Def.Request
  response : Option Def.Response

structure HookCluster extends Cluster where
  timeout : Option Nat
  request : Option Def.Request
  response : Option Def.Response

structure HookRouter where
  clusters : List HookCluster
  prefixMap : List (Text × Nat)
  consumers : Option (List Consumer)

namespace HookRouter

def router (g : HookRouter) : ProxyRouter := ⟨g.clusters.map fun c => c.toClusterMetadata, g.prefixMap, g.consumers⟩

/-- The fields of a configuration that go to its cluster as they are. -/
def withRest (c : Cluster) (conf : HookConfig) : HookCluster := ⟨c, conf.timeout, conf.request, conf.response⟩

def build (toSocketAddrs : Text → Option (List SocketAddr)) (consumers : Option (List Consumer))
    (configs : List HookConfig) : Out HookRouter :=
  match buildCluster toSocketAddrs (configs.map HookConfig.toClusterConfig) with
  | .ok built => .ok ⟨List.zipWith withRest built.clusters configs, built.prefixMap, consumers⟩
  | .err e => .err e
  | .pending => .pending
  | .panic text => .panic text

end HookRouter

/-! ## The hooks -/

structure HttpPeer where
  address : SocketAddr
  tls : Bool
  sni : Text
  /-- In milliseconds. -/
  connectionTimeout : Nat
  deriving DecidableEq, Repr

structure CacheKey where
  namespace_ : Text
  primary : Text
  userTag : Text
  deriving DecidableEq, Repr

namespace HookRouter

variable {E R : Type}

/-- `self.clusters[ctx.cluster_address]`. -/
def selected (g : HookRouter) : Async RouterCtx HookCluster := do
  let ctx ← Async.get
  match g.clusters[ctx.clusterAddress]? with
  | none => Async.stop (.panic "index out of bounds")
  | some cluster => return cluster

/-- `turn`: how often the load balancer has been asked. -/
def upstreamPeer (select : LoadBalancer → Nat → Option SocketAddr) (g : HookRouter) (turn : Nat) :
    Async RouterCtx HttpPeer := do
  let cluster ← g.selected
  match select cluster.upstream turn with
  | none => Async.stop (.panic "called `Option::unwrap()` on a `None` value")
  | some upstream => return ⟨upstream, cluster.tls, cluster.host, cluster.timeout.getD 100⟩

/-- The storage that is enabled. -/
def requestCacheFilter (g : HookRouter) (method : Text) : Async RouterCtx (Option CacheBucket) := do
  let cluster ← g.selected
  return if method = "GET".toList then cluster.cacheStorage else none

/-- `default`: `CacheKey::default` of the request. -/
def cacheKeyCallback (g : HookRouter) (default : CacheKey) : Async RouterCtx CacheKey := do
  let cluster ← g.selected
  let ctx ← Async.get
  match ctx.uriOrigin with
  | some origin => return ⟨cluster.name, origin, []⟩
  | none => return default

/-- A `SystemTime` is seconds in an `i64`. -/
def maxTime : Nat := 2 ^ 63

/-- Until when a response is fresh. -/
def responseCacheFilter (g : HookRouter) (now : Nat) : Async RouterCtx Nat := do
  let cluster ← g.selected
  let ttl := cluster.cacheTtl.getD 2
  if now + ttl < maxTime then return now + ttl
  else Async.stop (.panic "overflow when adding duration to instant")

/-- A filter on headers, with what becomes of them. -/
def onHeaders (x : Async (HeaderMap Text Bytes) Unit) (m : HeaderMap Text Bytes) :
    Async RouterCtx (HeaderMap Text Bytes) := fun ctx =>
  match x m with
  | (.ok (), m') => (.ok m', ctx)
  | (.err e, _) => (.err e, ctx)
  | (.pending, _) => (.pending, ctx)
  | (.panic text, _) => (.panic text, ctx)

def upstreamRequestFilter (http : HttpCrate) (g : HookRouter) (m : HeaderMap Text Bytes) :
    Async RouterCtx (HeaderMap Text Bytes) := do
  let cluster ← g.selected
  onHeaders (Proxy.upstreamRequestFilter http cluster.request) m

def responseFilter (http : HttpCrate) (g : HookRouter) (cache : CacheState) (m : HeaderMap Text Bytes) :
    Async RouterCtx (HeaderMap Text Bytes) := do
  let cluster ← g.selected
  onHeaders (Proxy.responseFilter http cluster.response cache) m

end HookRouter

/-! ## Any order of hooks -/

inductive Hook (E : Type) where
  | requestCacheFilter (method : Text)
  | cacheKeyCallback (default : CacheKey)
  | upstreamPeer (turn : Nat)
  | failToConnect (cause : E)
  | upstreamRequestFilter (headers : HeaderMap Text Bytes)
  | responseCacheFilter (now : Nat)
  | responseFilter (cache : CacheState) (headers : HeaderMap Text Bytes)

/-- What a hook returned. -/
inductive Done (E : Type) where
  | storage (method : Text) (enabled : Option CacheBucket)
  | key (key : CacheKey)
  | peer (peer : HttpPeer)
  | failure (e : PingoraError E)
  | request (before after : HeaderMap Text Bytes)
  | freshUntil (now time : Nat)
  | response (cache : CacheState) (before after : HeaderMap Text Bytes)

/-- The crates the hooks call. -/
structure HookCrates where
  http : HttpCrate
  select : LoadBalancer → Nat → Option SocketAddr

variable {E R : Type}

def Hook.call (crates : HookCrates) (g : HookRouter) : Hook E → Async RouterCtx (Done E)
  | .requestCacheFilter method => do return .storage method (← g.requestCacheFilter method)
  | .cacheKeyCallback default => do return .key (← g.cacheKeyCallback default)
  | .upstreamPeer turn => do return .peer (← g.upstreamPeer crates.select turn)
  | .failToConnect cause => do return .failure (← Proxy.failToConnect g.router (.new cause))
  | .upstreamRequestFilter headers => do return .request headers (← g.upstreamRequestFilter crates.http headers)
  | .responseCacheFilter now => do return .freshUntil now (← g.responseCacheFilter now)
  | .responseFilter cache headers => do return .response cache headers (← g.responseFilter crates.http cache headers)

/-- A request on its way, with what its hooks returned. -/
structure Life (E : Type) where
  ctx : RouterCtx
  done : List (Done E)

/-- A hook that fails ends the request. -/
def Life.step (crates : HookCrates) (g : HookRouter) (hook : Hook E) (s : Life E) : Option (Life E) :=
  match hook.call crates g s.ctx with
  | (.ok d, ctx) => some ⟨ctx, s.done ++ [d]⟩
  | _ => none

/-! ## What the builder makes of a configuration -/

variable {toSocketAddrs : Text → Option (List SocketAddr)} {discovery : Bool}

/-- The address is one of the upstreams that are written in the configuration. -/
def Configured (toSocketAddrs : Text → Option (List SocketAddr)) (conf : ClusterConfig) (address : SocketAddr) : Prop :=
  ∃ upstream, conf.upstream = some upstream ∧ ∃ u ∈ upstream, ∃ addrs, toSocketAddrs u = some addrs ∧ address ∈ addrs

/-- What a cluster is served by: its upstreams, or the service it is discovered as. -/
def BalancerOf (toSocketAddrs : Text → Option (List SocketAddr)) (conf : ClusterConfig) : LoadBalancer → Prop
  | .hardcoded backends => conf.discovery = none ∧ ∀ address ∈ backends, Configured toSocketAddrs conf address
  | .discovered consul => conf.discovery = some (.consul consul)

def BuiltOf (toSocketAddrs : Text → Option (List SocketAddr)) (conf : ClusterConfig) (c : Cluster) : Prop :=
  ∃ service, c = clusterMetadata conf service conf.storage ∧ BalancerOf toSocketAddrs conf service

theorem mem_mapM {α β : Type} {f : α → Option (List β)} : ∀ {as : List α} {bs : List (List β)},
    as.mapM f = some bs → ∀ b ∈ bs.flatten, ∃ a ∈ as, ∃ l, f a = some l ∧ b ∈ l := by
  intro as
  induction as with
  | nil =>
    intro bs h b hb
    cases h
    cases hb
  | cons a as ih =>
    intro bs h b hb
    rw [List.mapM_cons] at h
    cases ha : f a with
    | none => rw [ha] at h; cases h
    | some l =>
      cases hrest : as.mapM f with
      | none => rw [ha, hrest] at h; cases h
      | some ls =>
        rw [ha, hrest] at h
        cases h
        rw [List.flatten_cons, List.mem_append] at hb
        rcases hb with hb | hb
        · exact ⟨a, List.mem_cons_self .., l, ha, hb⟩
        · obtain ⟨a', ha', l', hl', hb'⟩ := ih hrest b hb
          exact ⟨a', List.mem_cons_of_mem _ ha', l', hl', hb'⟩

theorem clusterService_built {conf : ClusterConfig} {service : LoadBalancer} {b b' : BuiltClusters}
    (h : clusterService toSocketAddrs discovery conf b = (.ok service, b')) :
    b'.clusters = b.clusters ∧ BalancerOf toSocketAddrs conf service := by
  unfold clusterService at h
  cases hd : conf.discovery with
  | some d =>
    cases d with
    | consul consul =>
      rw [hd] at h
      cases discovery with
      | false => cases h
      | true =>
        cases h
        exact ⟨rfl, hd⟩
  | none =>
    rw [hd] at h
    obtain ⟨upstream, b1, h1, h2⟩ := Async.of_bind_ok h
    obtain ⟨hu, rfl⟩ := unwrap_ok h1
    unfold buildClusterService at h2
    cases hm : upstream.mapM toSocketAddrs with
    | none => rw [hm] at h2; cases h2
    | some addrs =>
      rw [hm] at h2
      cases h2
      exact ⟨rfl, hd, fun address ha => ⟨upstream, hu, mem_mapM hm address ha⟩⟩

theorem addCluster_built {conf : ClusterConfig} {idx : Nat} {b b' : BuiltClusters}
    (h : addCluster toSocketAddrs discovery idx conf b = (.ok (), b')) :
    ∃ c, b'.clusters = b.clusters ++ [c] ∧ BuiltOf toSocketAddrs conf c := by
  unfold addCluster at h
  by_cases hv : validateClusterConfig conf
  · rw [if_pos hv] at h
    obtain ⟨service, b1, h1, h2⟩ := Async.of_bind_ok h
    obtain ⟨storage, b2, h3, h4⟩ := Async.of_bind_ok h2
    rw [Async.modify_bind_apply] at h4
    obtain ⟨p, b3, h5, h6⟩ := Async.of_bind_ok h4
    obtain ⟨hclusters, hbalancer⟩ := clusterService_built h1
    obtain ⟨-, rfl, rfl⟩ := clusterStorage_ok h3
    obtain ⟨-, rfl⟩ := unwrap_ok h5
    cases h6
    refine ⟨clusterMetadata conf service conf.storage, ?_, service, rfl, hbalancer⟩
    show b2.clusters ++ _ = _
    rw [hclusters]
  · rw [if_neg hv] at h
    cases h

theorem addClusters_built : ∀ {configs : List ClusterConfig} {idx : Nat} {b b' : BuiltClusters},
    addClusters toSocketAddrs discovery idx configs b = (.ok (), b') →
    ∃ cs, b'.clusters = b.clusters ++ cs ∧ List.Forall₂ (BuiltOf toSocketAddrs) configs cs := by
  intro configs
  induction configs with
  | nil =>
    intro idx b b' h
    cases h
    exact ⟨[], (List.append_nil _).symm, .nil⟩
  | cons conf configs ih =>
    intro idx b b' h
    obtain ⟨_, b1, h1, h2⟩ := Async.of_bind_ok h
    obtain ⟨c, hc, hbuilt⟩ := addCluster_built h1
    obtain ⟨cs, hcs, hall⟩ := ih h2
    refine ⟨c :: cs, ?_, .cons hbuilt hall⟩
    rw [hcs, hc, List.append_assoc]
    rfl

/-- What is known of a router that was built: its clusters are those of the configurations,
    in order, and its prefixes are theirs. -/
structure BuiltRouter (toSocketAddrs : Text → Option (List SocketAddr)) (configs : List HookConfig) (g : HookRouter) :
    Prop where
  cluster : ∀ (i : Nat) conf, configs[i]? = some conf →
    ∃ c, g.clusters[i]? = some (HookRouter.withRest c conf) ∧ BuiltOf toSocketAddrs conf.toClusterConfig c
  entry : ∀ e ∈ g.prefixMap, ∃ conf, configs[e.2]? = some conf ∧ conf.pfx = some e.1
  prefixes : (configs.map fun conf => conf.pfx).Nodup

theorem build_ok {consumers : Option (List Consumer)} {configs : List HookConfig} {g : HookRouter}
    (h : HookRouter.build toSocketAddrs consumers configs = .ok g) : BuiltRouter toSocketAddrs configs g := by
  unfold HookRouter.build at h
  cases hb : buildCluster toSocketAddrs (configs.map HookConfig.toClusterConfig) with
  | err e => rw [hb] at h; cases h
  | pending => rw [hb] at h; cases h
  | panic text => rw [hb] at h; cases h
  | ok built =>
    rw [hb] at h
    cases h
    unfold buildCluster at hb
    by_cases hdup : validateDuplicatedPrefix (configs.map HookConfig.toClusterConfig) = true
    · rw [if_pos hdup] at hb
      cases hb
    · rw [if_neg hdup] at hb
      have hnodup := validateDuplicatedPrefix_nodup (Bool.not_eq_true _ ▸ hdup)
      split at hb
      · rename_i b' hrun
        cases hb
        obtain ⟨-, hent⟩ := addClusters_ok hnodup hrun
        obtain ⟨cs, hcs, hall⟩ := addClusters_built hrun
        rw [List.map_map] at hnodup
        have hclusters : built.clusters = cs := hcs
        refine ⟨fun i conf hi => ?_, fun e he => ?_, hnodup⟩
        · have hlen : i < configs.length := (List.getElem?_eq_some_iff.mp hi).1
          have hlen' : i < cs.length := by
            rw [← hall.length_eq, List.length_map]
            exact hlen
          have hof := hall.get (i := i) (by rw [List.length_map]; exact hlen) hlen'
          obtain ⟨_, hconf⟩ := List.getElem?_eq_some_iff.mp hi
          refine ⟨cs[i], ?_, ?_⟩
          · show (List.zipWith HookRouter.withRest built.clusters configs)[i]? = _
            rw [hclusters, List.getElem?_zipWith_eq_some]
            exact ⟨cs[i], conf, List.getElem?_eq_getElem hlen', hi, rfl⟩
          · simpa [hconf] using hof
        · rcases hent.only e he with hnil | ⟨j, c, hj, hc, hj'⟩
          · cases hnil
          · rw [List.getElem?_map, Option.map_eq_some_iff] at hj
            obtain ⟨conf, hconf, rfl⟩ := hj
            refine ⟨conf, ?_, hc⟩
            rw [hj', Nat.zero_add]
            exact hconf
      all_goals cases hb

/-! ## One hook -/

/-- What the guards of a configuration's cluster read. -/
def ClusterConfig.metadata (conf : ClusterConfig) : ClusterMetadata :=
  (clusterMetadata conf (.hardcoded []) (none, none)).toClusterMetadata

/-- The cluster of a configuration. -/
def HookConfig.cluster (conf : HookConfig) (service : LoadBalancer) : HookCluster :=
  HookRouter.withRest (clusterMetadata conf.toClusterConfig service conf.storage) conf

def Done.failed : Done E → Bool
  | .failure _ => true
  | _ => false

/-- The failures among what hooks returned. -/
def failures (done : List (Done E)) : Nat := done.countP Done.failed

/-- The context is for the cluster of `conf`, has the URI `origin`, and counts `tried`
    failures as long as the limit is not exceeded. -/
structure On (toSocketAddrs : Text → Option (List SocketAddr)) (g : HookRouter) (conf : HookConfig) (origin : Text)
    (tried : Nat) (ctx : RouterCtx) : Prop where
  cluster : ∃ service, g.clusters[ctx.clusterAddress]? = some (conf.cluster service) ∧
    BalancerOf toSocketAddrs conf.toClusterConfig service
  origin : ctx.uriOrigin = some origin
  retries : ctx.proxyRetry = min tried (conf.retry.getD 1 + 1)

/-- What a hook returned is for `conf`, and for the URI `origin`, after `tried` failures. -/
def DoneFor (crates : HookCrates) (toSocketAddrs : Text → Option (List SocketAddr)) (conf : HookConfig)
    (origin : Text) (tried : Nat) : Done E → Prop
  | .storage method enabled => enabled = if method = "GET".toList then conf.storage.1 else none
  | .key key => key = ⟨conf.metadata.name, origin, []⟩
  | .peer peer => peer.sni = conf.host.getD "localhost".toList ∧ peer.tls = conf.tls.getD false ∧
      peer.connectionTimeout = conf.timeout.getD 100 ∧
      ∃ service turn, BalancerOf toSocketAddrs conf.toClusterConfig service ∧
        crates.select service turn = some peer.address
  -- the limit itself is still marked
  | .failure e => e.retry = decide (tried ≤ conf.retry.getD 1)
  | .request before after => ∀ name,
      after.getAll name = edited crates.http (conf.request.bind Def.Request.headers) before name
  | .freshUntil now time => time = now + conf.storage.2.getD 2
  | .response cache before after =>
      ResponseEdited crates.http (conf.response.bind Def.Response.headers) cache before after

section One

variable {g : HookRouter} {conf : HookConfig} {origin : Text} {tried : Nat} {ctx : RouterCtx} {crates : HookCrates}
  {service : LoadBalancer}

/-- What follows the choice of the cluster. -/
theorem selected_bind {α : Type} {cluster : HookCluster} (h : g.clusters[ctx.clusterAddress]? = some cluster)
    (y : HookCluster → Async RouterCtx α) : (g.selected >>= y) ctx = y cluster ctx := by
  refine Async.bind_ok ?_
  unfold HookRouter.selected
  rw [Async.get_bind_apply, h]
  rfl

theorem bind_panic {σ α β : Type} {x : Async σ α} {y : α → Async σ β} {s s' : σ} {text : String}
    (h : x s = (.panic text, s')) : (x >>= y) s = (.panic text, s') := by
  rw [Async.bind_apply, h]

theorem onHeaders_ok {x : Async (HeaderMap Text Bytes) Unit} {m m' : HeaderMap Text Bytes} (h : x m = (.ok (), m'))
    (ctx : RouterCtx) : HookRouter.onHeaders x m ctx = (.ok m', ctx) := by
  unfold HookRouter.onHeaders
  rw [h]

theorem onHeaders_panic {x : Async (HeaderMap Text Bytes) Unit} {m : HeaderMap Text Bytes} {text : String}
    (h : (x m).1 = .panic text) (ctx : RouterCtx) : HookRouter.onHeaders x m ctx = (.panic text, ctx) := by
  unfold HookRouter.onHeaders
  rcases hx : x m with ⟨o, m'⟩
  rw [hx] at h
  cases h
  rfl

theorem requestCacheFilter_apply (hc : g.clusters[ctx.clusterAddress]? = some (conf.cluster service)) (method : Text) :
    g.requestCacheFilter method ctx = (.ok (if method = "GET".toList then conf.storage.1 else none), ctx) := by
  unfold HookRouter.requestCacheFilter
  rw [selected_bind hc]
  rfl

theorem cacheKeyCallback_apply (hc : g.clusters[ctx.clusterAddress]? = some (conf.cluster service))
    (horigin : ctx.uriOrigin = some origin) (default : CacheKey) :
    g.cacheKeyCallback default ctx = (.ok ⟨conf.metadata.name, origin, []⟩, ctx) := by
  unfold HookRouter.cacheKeyCallback
  rw [selected_bind hc, Async.get_bind_apply, horigin]
  rfl

theorem upstreamPeer_apply (crates : HookCrates) (hc : g.clusters[ctx.clusterAddress]? = some (conf.cluster service)) (turn : Nat) :
    g.upstreamPeer crates.select turn ctx =
      match crates.select service turn with
      | none => (.panic "called `Option::unwrap()` on a `None` value", ctx)
      | some upstream =>
        (.ok ⟨upstream, conf.tls.getD false, conf.host.getD "localhost".toList, conf.timeout.getD 100⟩, ctx) := by
  unfold HookRouter.upstreamPeer
  rw [selected_bind hc]
  show (match crates.select service turn with
    | none => Async.stop (.panic "called `Option::unwrap()` on a `None` value")
    | some upstream => pure _ : Async RouterCtx HttpPeer) ctx = _
  cases crates.select service turn with
  | none => rfl
  | some upstream => rfl

theorem responseCacheFilter_apply (hc : g.clusters[ctx.clusterAddress]? = some (conf.cluster service)) (now : Nat) :
    g.responseCacheFilter now ctx = if now + conf.storage.2.getD 2 < HookRouter.maxTime then
      (.ok (now + conf.storage.2.getD 2), ctx) else (.panic "overflow when adding duration to instant", ctx) := by
  unfold HookRouter.responseCacheFilter
  rw [selected_bind hc]
  show (if now + conf.storage.2.getD 2 < HookRouter.maxTime then _ else _ : Async RouterCtx Nat) ctx = _
  split
  · rfl
  · rfl

/-- A hook returns what is for the configuration, and leaves the context for it; or it
    panics, but not for its index. -/
theorem call_on (h : On toSocketAddrs g conf origin tried ctx) (hook : Hook E) :
    (∃ d ctx', hook.call crates g ctx = (.ok d, ctx') ∧ DoneFor crates toSocketAddrs conf origin tried d ∧
        On toSocketAddrs g conf origin (tried + failures [d]) ctx') ∨
      ∃ text ctx', hook.call crates g ctx = (.panic text, ctx') ∧ text ≠ "index out of bounds" := by
  have hon := h
  obtain ⟨⟨service, hc, hbalancer⟩, horigin, hretries⟩ := h
  cases hook with
  | requestCacheFilter method =>
    exact .inl ⟨_, ctx, Async.bind_ok (requestCacheFilter_apply hc method), rfl, hon⟩
  | cacheKeyCallback default =>
    exact .inl ⟨_, ctx, Async.bind_ok (cacheKeyCallback_apply hc horigin default), rfl, hon⟩
  | upstreamPeer turn =>
    have hx := upstreamPeer_apply crates hc turn
    cases hs : crates.select service turn with
    | none =>
      rw [hs] at hx
      exact .inr ⟨_, ctx, bind_panic hx, by decide⟩
    | some upstream =>
      rw [hs] at hx
      exact .inl ⟨_, ctx, Async.bind_ok hx, ⟨rfl, rfl, rfl, service, turn, hbalancer, hs⟩, hon⟩
  | failToConnect cause =>
    have hrouter : g.router.clusters[ctx.clusterAddress]? = some (conf.cluster service).toClusterMetadata := by
      show (g.clusters.map _)[ctx.clusterAddress]? = _
      rw [List.getElem?_map, hc]
      rfl
    have hlimit : (conf.cluster service).toClusterMetadata.retry = conf.retry := rfl
    rcases failToConnect_cases hrouter (PingoraError.new cause) with ⟨hlt, hx⟩ | ⟨hle, hx⟩ | hx
    · rw [hlimit] at hlt
      refine .inl ⟨_, ctx, Async.bind_ok hx, ?_, ⟨service, hc, hbalancer⟩, horigin, ?_⟩
      · show false = decide (tried ≤ conf.retry.getD 1)
        rw [eq_comm, decide_eq_false_iff_not]
        omega
      · show ctx.proxyRetry = min (tried + 1) (conf.retry.getD 1 + 1)
        omega
    · rw [hlimit] at hle
      refine .inl ⟨_, _, Async.bind_ok hx, ?_, ⟨service, hc, hbalancer⟩, horigin, ?_⟩
      · show true = decide (tried ≤ conf.retry.getD 1)
        rw [eq_comm, decide_eq_true_iff]
        omega
      · show ctx.proxyRetry + 1 = min (tried + 1) (conf.retry.getD 1 + 1)
        omega
    · exact .inr ⟨_, ctx, bind_panic hx, by decide⟩
  | upstreamRequestFilter headers =>
    have hx : g.upstreamRequestFilter crates.http headers ctx =
        HookRouter.onHeaders (Proxy.upstreamRequestFilter crates.http conf.request) headers ctx := by
      unfold HookRouter.upstreamRequestFilter
      rw [selected_bind hc]
      rfl
    rcases editHeaders_spec crates.http (conf.request.bind Def.Request.headers) headers with
      ⟨m', hm, -, hall⟩ | ⟨hpanic, -⟩
    · rw [onHeaders_ok (x := Proxy.upstreamRequestFilter crates.http conf.request) hm] at hx
      exact .inl ⟨_, ctx, Async.bind_ok hx, hall, hon⟩
    · rw [onHeaders_panic (x := Proxy.upstreamRequestFilter crates.http conf.request) hpanic] at hx
      exact .inr ⟨_, ctx, bind_panic hx, by decide⟩
  | responseCacheFilter now =>
    have hx := responseCacheFilter_apply hc now
    by_cases htime : now + conf.storage.2.getD 2 < HookRouter.maxTime
    · rw [if_pos htime] at hx
      exact .inl ⟨_, ctx, Async.bind_ok hx, rfl, hon⟩
    · rw [if_neg htime] at hx
      exact .inr ⟨_, ctx, bind_panic hx, by decide⟩
  | responseFilter cache headers =>
    have hx : g.responseFilter crates.http cache headers ctx =
        HookRouter.onHeaders (Proxy.responseFilter crates.http conf.response cache) headers ctx := by
      unfold HookRouter.responseFilter
      rw [selected_bind hc]
      rfl
    have hfst := responseFilter_fst crates.http conf.response cache headers
    rcases editHeaders_spec crates.http (conf.response.bind Def.Response.headers) headers with
      ⟨m1, hm, -, -⟩ | ⟨hpanic, -⟩
    · rw [hm] at hfst
      rcases hr : Proxy.responseFilter crates.http conf.response cache headers with ⟨o, m'⟩
      rw [hr] at hfst
      cases hfst
      rw [onHeaders_ok hr] at hx
      exact .inl ⟨_, ctx, Async.bind_ok hx, responseFilter_edited hr, hon⟩
    · rw [hpanic] at hfst
      rw [onHeaders_panic hfst] at hx
      exact .inr ⟨_, ctx, bind_panic hx, by decide⟩

end One

/-! ## A request from its filter on -/

/-- Each hook that returned did so for `conf`, after the failures before it. -/
structure Life.For (crates : HookCrates) (toSocketAddrs : Text → Option (List SocketAddr)) (g : HookRouter)
    (conf : HookConfig) (origin : Text) (s : Life E) : Prop where
  context : On toSocketAddrs g conf origin (failures s.done) s.ctx
  each : ∀ before d after, s.done = before ++ d :: after →
    DoneFor crates toSocketAddrs conf origin (failures before) d

theorem Life.step_for {crates : HookCrates} {g : HookRouter} {conf : HookConfig} {origin : Text} {hook : Hook E}
    {s t : Life E} (hi : s.For crates toSocketAddrs g conf origin) (hs : Life.step crates g hook s = some t) :
    t.For crates toSocketAddrs g conf origin := by
  unfold Life.step at hs
  rcases call_on hi.context hook with ⟨d, ctx, hcall, hd, hon⟩ | ⟨text, ctx, hcall, -⟩
  · rw [hcall] at hs
    cases hs
    refine ⟨?_, fun before d' after heq => ?_⟩
    · unfold failures at hon ⊢
      rw [List.countP_append]
      exact hon
    · rcases List.eq_nil_or_concat after with rfl | ⟨rest, e, rfl⟩
      · obtain ⟨rfl, hsame⟩ := List.append_inj' heq rfl
        cases hsame
        exact hd
      · rw [List.concat_eq_append, ← List.cons_append, ← List.append_assoc] at heq
        exact hi.each before d' rest (List.append_inj' heq rfl).1
  · rw [hcall] at hs
    cases hs

theorem Life.run_for {crates : HookCrates} {g : HookRouter} {conf : HookConfig} {origin : Text} {hooks : List (Hook E)}
    {s t : Life E} (h : Run (Life.step crates g) (fun _ _ => True) s hooks t)
    (hs : s.For crates toSocketAddrs g conf origin) : t.For crates toSocketAddrs g conf origin :=
  Run.invariant (I := Life.For crates toSocketAddrs g conf origin) (fun _ _ _ hi _ hs => Life.step_for hi hs) h hs

theorem Life.For.key {crates : HookCrates} {g : HookRouter} {conf : HookConfig} {origin : Text} {s : Life E}
    (h : s.For crates toSocketAddrs g conf origin) {key : CacheKey} (hkey : .key key ∈ s.done) :
    key = ⟨conf.metadata.name, origin, []⟩ := by
  obtain ⟨before, after, heq⟩ := List.append_of_mem hkey
  exact h.each before _ after heq

/-- A request that is forwarded is on the cluster of the configuration of its prefix, and
    no hook has been called. -/
theorem BuiltRouter.forwarded {g : HookRouter} {configs : List HookConfig} (hg : BuiltRouter toSocketAddrs configs g)
    {ex : Externals R} {session : Session} {rate : R} {f : Filter R} (crates : HookCrates)
    (h : requestFilter ex g.router ⟨session, newCtx, rate⟩ = (.ok false, f)) :
    ∃ conf ∈ configs, conf.pfx = some (basePath session.uri.path) ∧
      Guarded ex g.router conf.metadata session rate ∧
      (⟨f.ctx, []⟩ : Life E).For crates toSocketAddrs g conf session.uri.text := by
  obtain ⟨e, cluster, he, haddress, hcluster, hguard, hretry, horigin⟩ := requestFilter_chosen h
  have hbase : e.1 = basePath session.uri.path := by simpa using List.find?_some he
  obtain ⟨conf, hconf, hpfx⟩ := hg.entry e (List.mem_of_find?_eq_some he)
  obtain ⟨c, hc, service, rfl, hbalancer⟩ := hg.cluster _ _ hconf
  have hrouter : g.router.clusters[e.2]? = some conf.metadata := by
    show (g.clusters.map _)[e.2]? = _
    rw [List.getElem?_map, hc]
    rfl
  cases hrouter.symm.trans hcluster
  refine ⟨conf, List.mem_of_getElem? hconf, by rw [hpfx, hbase], hguard,
    ⟨⟨service, by rw [haddress]; exact hc, hbalancer⟩, horigin, ?_⟩, fun before d after heq => ?_⟩
  · rw [hretry]
    exact (Nat.zero_min _).symm
  · exact absurd heq (by simp)

/-- A load balancer over fixed backends picks one of them. -/
def Selects (select : LoadBalancer → Nat → Option SocketAddr) : Prop :=
  ∀ backends turn address, select (.hardcoded backends) turn = some address → address ∈ backends

theorem peer_configured {crates : HookCrates} (hselect : Selects crates.select) {conf : HookConfig} {origin : Text}
    {tried : Nat} {peer : HttpPeer} (h : DoneFor crates toSocketAddrs conf origin tried (Done.peer (E := E) peer))
    (hd : conf.discovery = none) : Configured toSocketAddrs conf.toClusterConfig peer.address := by
  obtain ⟨-, -, -, service, turn, hbalancer, hs⟩ := h
  cases service with
  | hardcoded backends => exact hbalancer.2 _ (hselect backends turn _ hs)
  | discovered consul =>
    have hdc : conf.discovery = some (.consul consul) := hbalancer
    rw [hd] at hdc
    cases hdc

/-- Through a router that was built, a request that is forwarded has passed the guards of
    the configuration of its prefix, and in any order of hooks, each one that returns does
    so for that configuration; a peer that is not discovered is at one of its upstreams.
    No hook is out of bounds. -/
theorem forwarded_hooks (ex : Externals R) (crates : HookCrates) (hselect : Selects crates.select)
    (toSocketAddrs : Text → Option (List SocketAddr)) (consumers : Option (List Consumer)) {configs : List HookConfig}
    {g : HookRouter} (hg : HookRouter.build toSocketAddrs consumers configs = .ok g) (session : Session) (rate : R)
    (f : Filter R) (h : requestFilter ex g.router ⟨session, newCtx, rate⟩ = (.ok false, f)) (hooks : List (Hook E))
    {s : Life E} (hrun : Run (Life.step crates g) (fun _ _ => True) ⟨f.ctx, []⟩ hooks s) :
    ∃ conf ∈ configs, conf.pfx = some (basePath session.uri.path) ∧ Guarded ex g.router conf.metadata session rate ∧
      (∀ before d after, s.done = before ++ d :: after →
        DoneFor crates toSocketAddrs conf session.uri.text (failures before) d) ∧
      (∀ peer, .peer peer ∈ s.done → conf.discovery = none →
        Configured toSocketAddrs conf.toClusterConfig peer.address) ∧
      ∀ hook : Hook E, (hook.call crates g s.ctx).1 ≠ .panic "index out of bounds" := by
  obtain ⟨conf, hconf, hpfx, hguard, hstart⟩ := (build_ok hg).forwarded crates h
  obtain ⟨hon, heach⟩ := Life.run_for hrun hstart
  refine ⟨conf, hconf, hpfx, hguard, heach, fun peer hpeer hd => ?_, fun hook => ?_⟩
  · obtain ⟨before, after, heq⟩ := List.append_of_mem hpeer
    exact peer_configured hselect (heach before _ after heq) hd
  · rcases call_on hon hook with ⟨d, ctx, hcall, -, -⟩ | ⟨text, ctx, hcall, htext⟩
    · rw [hcall]
      intro he
      cases he
    · rw [hcall]
      exact fun he => htext (Out.panic.inj he)

/-- It picks the first backend, or the one address of a service. -/
def firstOf : LoadBalancer → Nat → Option SocketAddr
  | .hardcoded backends, _ => backends.head?
  | .discovered _, _ => some (.inet "10.0.0.7".toList 9000)

theorem firstOf_selects : Selects firstOf := fun _ _ _ h => List.mem_of_head? h

def plainCrates : HookCrates :=
  ⟨⟨fun key => some (key.map Char.toLower), fun value => some (value.map fun c => UInt8.ofNat c.toNat)⟩, firstOf⟩

/-- Of two clusters the second has a timeout, and a header put in. -/
def pairHookConfigs : List HookConfig :=
  [⟨plainConfig "/a" (some ["127.0.0.1:8001".toList]), none, none, none⟩,
    ⟨discoveredConfig, some 5, some ⟨some ⟨some [⟨"via".toList, "glaive".toList⟩], none⟩⟩, none⟩]

def pairRouter : HookRouter :=
  ⟨List.zipWith (fun conf service => conf.cluster service) pairHookConfigs
    [.hardcoded [.inet "127.0.0.1".toList 8001], .discovered ⟨"orders".toList, true⟩],
    [("/a".toList, 0), ("/b".toList, 1)], none⟩

/-- The first peer is not reached, nor is the second. -/
def pairHooks : List (Hook Unit) :=
  [.requestCacheFilter "GET".toList, .cacheKeyCallback ⟨[], [], []⟩, .upstreamPeer 0, .failToConnect (), .upstreamPeer 1,
    .failToConnect (), .upstreamRequestFilter HeaderMap.empty, .responseCacheFilter 100,
    .responseFilter ⟨true, .miss, none⟩ HeaderMap.empty]

/-- What the filter leaves of a request for `target`, and then the hooks. -/
def pairLife (target : String) : Option (Life Unit) :=
  stepAll (Life.step plainCrates pairRouter) (fun _ _ => True) pairHooks
    ⟨(requestFilter originExternals pairRouter.router (requestFor target)).2.ctx, []⟩

theorem forwarded_hooks_pair : ∃ conf ∈ pairHookConfigs, conf.pfx = some "/b".toList ∧
    Guarded originExternals pairRouter.router conf.metadata (requestFor "/b/c").session () ∧
    (∀ before d after, ((pairLife "/b/c").get (by decide)).done = before ++ d :: after →
      DoneFor plainCrates anyAddress conf "/b/c".toList (failures before) d) ∧
    (∀ peer, .peer peer ∈ ((pairLife "/b/c").get (by decide)).done → conf.discovery = none →
      Configured anyAddress conf.toClusterConfig peer.address) ∧
    ∀ hook : Hook Unit, (hook.call plainCrates pairRouter ((pairLife "/b/c").get (by decide)).ctx).1 ≠
      .panic "index out of bounds" :=
  forwarded_hooks originExternals plainCrates firstOf_selects anyAddress none (g := pairRouter) rfl
    (requestFor "/b/c").session () (requestFilter originExternals pairRouter.router (requestFor "/b/c")).2
    (Prod.ext (show (requestFilter originExternals pairRouter.router (requestFor "/b/c")).1 = .ok false by decide) rfl)
    pairHooks (run_get _ _ _ _ (by decide))

/-- A URI is known by its text. -/
def Shown (parseUri : Text → Option Uri) : Prop :=
  ∀ t t' u u', parseUri t = some u → parseUri t' = some u' → u.text = u'.text → u = u'

/-- Two requests that come to one cache key are for one URI, and for the cluster of one
    configuration. -/
theorem same_key (ex : Externals R) (hshown : Shown ex.parseUri) (crates : HookCrates)
    (toSocketAddrs : Text → Option (List SocketAddr)) (consumers : Option (List Consumer)) {configs : List HookConfig}
    {g : HookRouter} (hg : HookRouter.build toSocketAddrs consumers configs = .ok g) (session session' : Session)
    (rate rate' : R) (f f' : Filter R) (huri : ∃ t, ex.parseUri t = some session.uri)
    (huri' : ∃ t, ex.parseUri t = some session'.uri)
    (h : requestFilter ex g.router ⟨session, newCtx, rate⟩ = (.ok false, f))
    (h' : requestFilter ex g.router ⟨session', newCtx, rate'⟩ = (.ok false, f')) (hooks hooks' : List (Hook E))
    {s s' : Life E} (hrun : Run (Life.step crates g) (fun _ _ => True) ⟨f.ctx, []⟩ hooks s)
    (hrun' : Run (Life.step crates g) (fun _ _ => True) ⟨f'.ctx, []⟩ hooks' s') {key : CacheKey}
    (hkey : .key key ∈ s.done) (hkey' : .key key ∈ s'.done) :
    session.uri = session'.uri ∧ ∃ conf ∈ configs, conf.pfx = some (basePath session.uri.path) ∧
      Guarded ex g.router conf.metadata session rate ∧ Guarded ex g.router conf.metadata session' rate' := by
  have hbuilt := build_ok hg
  obtain ⟨conf, hconf, hpfx, hguard, hstart⟩ := hbuilt.forwarded crates h
  obtain ⟨conf', hconf', hpfx', hguard', hstart'⟩ := hbuilt.forwarded crates h'
  have hk : key = ⟨conf.metadata.name, session.uri.text, []⟩ := (Life.run_for hrun hstart).key hkey
  have hk' : key = ⟨conf'.metadata.name, session'.uri.text, []⟩ := (Life.run_for hrun' hstart').key hkey'
  obtain ⟨t, ht⟩ := huri
  obtain ⟨t', ht'⟩ := huri'
  have hsame : session.uri = session'.uri := by
    refine hshown t t' _ _ ht ht' ?_
    have hprimary := congrArg CacheKey.primary (hk.symm.trans hk')
    exact hprimary
  -- the prefixes of the configurations are distinct
  have hone : conf = conf' := by
    refine List.inj_on_of_nodup_map hbuilt.prefixes hconf hconf' ?_
    rw [hpfx, hpfx', hsame]
  rw [← hone] at hguard'
  exact ⟨hsame, conf, hconf, hpfx, hguard, hguard'⟩

theorem originForm_shown : Shown originForm := by
  intro t t' u u' h h' htext
  unfold originForm at h h'
  split at h
  · split at h'
    · cases h
      cases h'
      have htext : t.takeWhile (· ≠ '#') = t'.takeWhile (· ≠ '#') := htext
      simp only [htext]
    · cases h'
  · cases h

/-- The request for `/b/c`, from a client that also names an address and a host. -/
def otherRequest : Filter Unit :=
  { requestFor "/b/c" with session := { (requestFor "/b/c").session with
      headers := ((HeaderMap.empty.append (headerName "Host") (ascii "shop")).append (headerName "X-Real-Ip")
        (ascii "10.0.0.1")) } }

theorem same_key_pair : (requestFor "/b/c").session.uri = otherRequest.session.uri ∧
    ∃ conf ∈ pairHookConfigs, conf.pfx = some "/b".toList ∧
      Guarded originExternals pairRouter.router conf.metadata (requestFor "/b/c").session () ∧
      Guarded originExternals pairRouter.router conf.metadata otherRequest.session () :=
  have h : requestFilter originExternals pairRouter.router (requestFor "/b/c") =
      (.ok false, (requestFilter originExternals pairRouter.router (requestFor "/b/c")).2) :=
    Prod.ext (show (requestFilter originExternals pairRouter.router (requestFor "/b/c")).1 = .ok false by decide) rfl
  have h' : requestFilter originExternals pairRouter.router otherRequest =
      (.ok false, (requestFilter originExternals pairRouter.router otherRequest).2) :=
    Prod.ext (show (requestFilter originExternals pairRouter.router otherRequest).1 = .ok false by decide) rfl
  same_key (E := Unit) originExternals originForm_shown plainCrates anyAddress none (g := pairRouter) rfl
    (requestFor "/b/c").session otherRequest.session () () _ _ ⟨"/b/c".toList, by decide⟩ ⟨"/b/c".toList, by decide⟩
    h h' [.cacheKeyCallback ⟨[], [], []⟩, .upstreamPeer 0]
    [.requestCacheFilter "GET".toList, .cacheKeyCallback ⟨"default".toList, [], []⟩]
    (.cons trivial rfl (.cons trivial rfl (.nil _))) (.cons trivial rfl (.cons trivial rfl (.nil _)))
    (List.mem_cons_self ..) (List.mem_cons_of_mem _ (List.mem_cons_self ..))

end Glaive.Proxy
