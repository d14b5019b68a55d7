/-
  Glaive.Proxy.RequestFilter — `request_filter` of the router (`glaive/src/proxy.rs`):
  choose a cluster, then its guards in turn; `Ok(true)` is a request answered here,
  `Ok(false)` one that is forwarded.

  Proved: a request is forwarded only with every guard of its cluster passed
  (`forwarded_guarded`), where the address the whitelist is asked about is the one
  `get_client_ip` makes out. A client that sets X-Forwarded-For chooses that address
  (`forwarded_unlisted`).
-/

import Glaive.Proxy.Guards

namespace Glaive.Proxy

open Glaive.Lib

variable {R : Type}

/-- `match x.await { true => return Ok(true), false => () }`, then the rest. -/
def unlessStopped {σ : Type} (x rest : Async σ Bool) : Async σ Bool := do
  let stop ← x
  if stop then return true else rest

def checkAddress (cluster : ClusterMetadata) : Async (Filter R) Bool := do
  let f ← Async.get
  match getClientIp f.session with
  | none => return false
  | some address =>
    Async.modify fun f => { f with ctx := { f.ctx with clientAddress := some address } }
    match cluster.ip with
    | none => return false
    | some ip =>
      if ip.whitelist.any fun allowedIp => allowedIp = address then return false
      else reject 403 "restricted ip address"

def readCredentials : Async (Filter R) Unit := do
  let f ← Async.get
  match getReqHeaderValue f.session "Authorization" with
  | some credential => Async.modify fun f => { f with ctx := { f.ctx with clientCredentials := some credential } }
  | none => return

def checkLimits (ex : Externals R) (cluster : ClusterMetadata) : Async (Filter R) Bool :=
  match cluster.limiter with
  | none => pure false
  | some limiter =>
    unlessStopped
      (match limiter.globalLimit with
      | some basic => globalLimiter ex basic.limit
      | none => pure false)
      (match limiter.client with
      | some basic => clientLimiter ex basic.limit
      | none => pure false)

def checkAuth (ex : Externals R) (router : ProxyRouter) (cluster : ClusterMetadata) : Async (Filter R) Bool :=
  match cluster.auth with
  | some (.key key) => basicKey key
  | some (.jwt jwt) => basicJwt ex router cluster jwt
  | some .external => pure false
  | none => pure false

def enableRoutes (cluster : ClusterMetadata) : Async (Filter R) Unit :=
  match cluster.routes with
  | none => pure ()
  | some routes => Async.modify fun f =>
    { f with ctx := { f.ctx with enableEndpoint := routes.any fun route =>
      match route.paths with
      | some paths => paths.any fun path => f.session.uri.path = path
      | none => false } }

/-- The guards of the cluster chosen, and what comes after them. -/
def guardCluster (ex : Externals R) (router : ProxyRouter) (cluster : ClusterMetadata) : Async (Filter R) Bool := do
  Async.modify fun f => { f with ctx := { f.ctx with clusterIdentity := some cluster.name } }
  unlessStopped (checkAddress cluster) do
    readCredentials
    unlessStopped (checkLimits ex cluster) <|
      unlessStopped (checkAuth ex router cluster) do
        enableRoutes cluster
        return false

def requestFilter (ex : Externals R) (router : ProxyRouter) : Async (Filter R) Bool := do
  let f ← Async.get
  Async.modify fun f => { f with ctx := { f.ctx with uriOrigin := some f.session.uri.text } }
  unlessStopped (selectCluster ex router.prefixMap f.session.uri.path) do
    let f ← Async.get
    match router.clusters[f.ctx.clusterAddress]? with
    | none => Async.stop outOfBounds
    | some cluster => guardCluster ex router cluster
where
  outOfBounds : Out Bool := .panic "index out of bounds"

/-! ## What a forwarded request has passed -/

/-- The guards of a cluster, on a request and what the rate estimator knew when it came. -/
structure Guarded (ex : Externals R) (router : ProxyRouter) (cluster : ClusterMetadata) (session : Session) (rate : R) :
    Prop where
  address : ∀ ip a, cluster.ip = some ip → getClientIp session = some a → a ∈ ip.whitelist
  key : ∀ k, cluster.auth = some (.key k) → KeyAccepted k session.headers
  jwt : ∀ j, cluster.auth = some (.jwt j) → JwtAccepted ex router cluster j session.headers
  globalLimit : ∀ limiter basic, cluster.limiter = some limiter → limiter.globalLimit = some basic →
    overLimit ex basic.limit cluster.name rate = false
  /-- The client is known by its credential, else its address. The global limiter has
      counted the request by then. -/
  clientLimit : ∀ limiter basic id, cluster.limiter = some limiter → limiter.client = some basic →
    ((getReqHeaderValue session "Authorization").or (getClientIp session)) = some id →
    overLimit ex basic.limit id (if limiter.globalLimit.isSome then (ex.observe rate cluster.name).1 else rate) = false

variable {ex : Externals R} {router : ProxyRouter} {cluster : ClusterMetadata} {f f' : Filter R}

theorem unlessStopped_ok {σ : Type} {x rest : Async σ Bool} {s s' : σ} (h : unlessStopped x rest s = (.ok false, s')) :
    ∃ t, x s = (.ok false, t) ∧ rest t = (.ok false, s') := by
  obtain ⟨stop, t, hx, h⟩ := Async.of_bind_ok h
  cases stop with
  | true => cases h
  | false => exact ⟨t, hx, h⟩

theorem checkAddress_ok (h : checkAddress cluster f = (.ok false, f')) :
    f'.session = f.session ∧ f'.rate = f.rate ∧ f'.ctx.clusterIdentity = f.ctx.clusterIdentity ∧
      f'.ctx.clusterAddress = f.ctx.clusterAddress ∧ f'.ctx.clientCredentials = f.ctx.clientCredentials ∧
      f'.ctx.clientAddress = (getClientIp f.session).or f.ctx.clientAddress ∧
      ∀ ip a, cluster.ip = some ip → getClientIp f.session = some a → a ∈ ip.whitelist := by
  unfold checkAddress at h
  rw [Async.get_bind_apply] at h
  cases ha : getClientIp f.session with
  | none =>
    rw [ha] at h
    cases h
    exact ⟨rfl, rfl, rfl, rfl, rfl, rfl, nofun⟩
  | some address =>
    simp only [ha, Async.modify_bind_apply] at h
    cases hip : cluster.ip with
    | none =>
      rw [hip] at h
      cases h
      exact ⟨rfl, rfl, rfl, rfl, rfl, rfl, nofun⟩
    | some ip =>
      simp only [hip] at h
      by_cases hw : ip.whitelist.any fun allowedIp => allowedIp = address
      · rw [if_pos hw] at h
        cases h
        refine ⟨rfl, rfl, rfl, rfl, rfl, rfl, fun ip' a hi hadr => ?_⟩
        cases hi
        cases hadr
        obtain ⟨allowedIp, hmem, he⟩ := List.any_eq_true.mp hw
        rw [of_decide_eq_true he] at hmem
        exact hmem
      · rw [if_neg hw] at h
        exact absurd (reject_ok h) (by simp)

theorem readCredentials_ok {u : Unit} (h : readCredentials f = (.ok u, f')) :
    f'.session = f.session ∧ f'.rate = f.rate ∧ f'.ctx.clusterIdentity = f.ctx.clusterIdentity ∧
      f'.ctx.clientAddress = f.ctx.clientAddress ∧
      f'.ctx.clientCredentials = (getReqHeaderValue f.session "Authorization").or f.ctx.clientCredentials := by
  unfold readCredentials at h
  rw [Async.get_bind_apply] at h
  cases hc : getReqHeaderValue f.session "Authorization" with
  | none => rw [hc] at h; cases h; exact ⟨rfl, rfl, rfl, rfl, rfl⟩
  | some credential => rw [hc] at h; cases h; exact ⟨rfl, rfl, rfl, rfl, rfl⟩

theorem checkLimits_ok {name : Text} (hname : f.ctx.clusterIdentity = some name)
    (h : checkLimits ex cluster f = (.ok false, f')) :
    f'.session = f.session ∧
      (∀ limiter basic, cluster.limiter = some limiter → limiter.globalLimit = some basic →
        overLimit ex basic.limit name f.rate = false) ∧
      ∀ limiter basic id, cluster.limiter = some limiter → limiter.client = some basic →
        f.ctx.clientCredentials.or f.ctx.clientAddress = some id →
        overLimit ex basic.limit id (if limiter.globalLimit.isSome then (ex.observe f.rate name).1 else f.rate) = false := by
  unfold checkLimits at h
  cases hl : cluster.limiter with
  | none => rw [hl] at h; cases h; exact ⟨rfl, nofun, nofun⟩
  | some limiter =>
    rw [hl] at h
    obtain ⟨g, hg, hc⟩ := unlessStopped_ok h
    -- the global limiter counts under the name of the cluster
    have hglobal : g.session = f.session ∧ g.ctx = f.ctx ∧
        g.rate = (if limiter.globalLimit.isSome then (ex.observe f.rate name).1 else f.rate) ∧
        ∀ basic, limiter.globalLimit = some basic → overLimit ex basic.limit name f.rate = false := by
      cases hgl : limiter.globalLimit with
      | none => rw [hgl] at hg; cases hg; exact ⟨rfl, rfl, rfl, nofun⟩
      | some basic =>
        rw [hgl] at hg
        obtain ⟨h1, h2, h3⟩ := observeLimit_ok hg
        obtain ⟨h4, h5⟩ := h3 name hname
        refine ⟨h1, h2, h5, fun basic' hb => ?_⟩
        cases hb
        exact h4
    obtain ⟨h1, h2, h3, h4⟩ := hglobal
    cases hcl : limiter.client with
    | none =>
      rw [hcl] at hc
      cases hc
      refine ⟨h1, fun l b hl' hb => ?_, fun l b id hl' hb => ?_⟩
      · cases hl'; exact h4 b hb
      · cases hl'; rw [hcl] at hb; cases hb
    | some basic =>
      rw [hcl] at hc
      obtain ⟨h5, -, h6⟩ := observeLimit_ok hc
      refine ⟨h5.trans h1, fun l b hl' hb => ?_, fun l b id hl' hb hid => ?_⟩
      · cases hl'; exact h4 b hb
      · cases hl'
        rw [hcl] at hb
        cases hb
        rw [← h3]
        exact (h6 id (by rw [h2]; exact hid)).1

theorem checkAuth_ok (h : checkAuth ex router cluster f = (.ok false, f')) :
    (∀ k, cluster.auth = some (.key k) → KeyAccepted k f.session.headers) ∧
      ∀ j, cluster.auth = some (.jwt j) → JwtAccepted ex router cluster j f.session.headers := by
  unfold checkAuth at h
  refine ⟨fun k hk => ?_, fun j hj => ?_⟩
  · rw [hk] at h; exact basicKey_ok h
  · rw [hj] at h; exact basicJwt_ok h

theorem guardCluster_ok (hctx : f.ctx.clientAddress = none ∧ f.ctx.clientCredentials = none)
    (h : guardCluster ex router cluster f = (.ok false, f')) : Guarded ex router cluster f.session f.rate := by
  unfold guardCluster at h
  rw [Async.modify_bind_apply] at h
  obtain ⟨f1, h1, h⟩ := unlessStopped_ok h
  obtain ⟨s1, r1, n1, -, c1, a1, haddr⟩ := checkAddress_ok h1
  obtain ⟨_, f2, h2, h⟩ := Async.of_bind_ok h
  obtain ⟨s2, r2, n2, a2, c2⟩ := readCredentials_ok h2
  obtain ⟨f3, h3, h⟩ := unlessStopped_ok h
  obtain ⟨s3, hglobal, hclient⟩ := checkLimits_ok (n2.trans n1) h3
  obtain ⟨f4, h4, -⟩ := unlessStopped_ok h
  obtain ⟨hkey, hjwt⟩ := checkAuth_ok h4
  have hs : f3.session = f.session := s3.trans (s2.trans s1)
  have hr : f2.rate = f.rate := r2.trans r1
  have hid : f2.ctx.clientCredentials.or f2.ctx.clientAddress =
      (getReqHeaderValue f.session "Authorization").or (getClientIp f.session) := by
    rw [c2, a2, c1, a1, s1]
    show ((getReqHeaderValue f.session "Authorization").or f.ctx.clientCredentials).or
      ((getClientIp f.session).or f.ctx.clientAddress) = _
    rw [hctx.1, hctx.2, Option.or_none, Option.or_none]
  rw [hs] at hkey hjwt
  rw [hr] at hglobal
  rw [hr, hid] at hclient
  exact ⟨haddr, hkey, hjwt, hglobal, hclient⟩

/-- The cluster a request goes to, by the first segment of its path. -/
def ProxyRouter.selected (router : ProxyRouter) (session : Session) : Option ClusterMetadata :=
  (router.prefixMap.find? fun e => e.1 = basePath session.uri.path).bind fun e => router.clusters[e.2]?

theorem Guarded.of_facts {session session' : Session} {rate : R} (h : Guarded ex router cluster session' rate)
    (h1 : session'.headers = session.headers) (h2 : session'.clientAddr = session.clientAddr) :
    Guarded ex router cluster session rate := by
  obtain ⟨a, k, j, g, c⟩ := h
  rw [getClientIp_facts h1 h2] at a c
  rw [getReqHeaderValue_facts h1] at c
  rw [h1] at k j
  exact ⟨a, k, j, g, c⟩

/-! ## What the filter leaves alone -/

/-- Where the request goes, its retries, and the URI it came with. -/
def Filter.place (f : Filter R) : Nat × Nat × Option Text := (f.ctx.clusterAddress, f.ctx.proxyRetry, f.ctx.uriOrigin)

/-- What only the limiters and the choice of the cluster write. -/
def Filter.kept (f : Filter R) : R × Nat × Nat × Option Text := (f.rate, f.place)

theorem kept_rate {α : Type} {x : Async (Filter R) α} (h : Async.Keeps Filter.kept x) (f : Filter R) :
    (x f).2.rate = f.rate := congrArg Prod.fst (h f)

theorem errorResponse_keeps (statusCode : Nat) (message : String) (headers : List (Text × Text)) :
    Async.Keeps Filter.kept (errorResponse statusCode message headers : Async (Filter R) Unit) := by
  intro f
  unfold errorResponse
  split
  · rfl
  · rfl

theorem reject_keeps (statusCode : Nat) (message : String) :
    Async.Keeps Filter.kept (reject statusCode message : Async (Filter R) Bool) :=
  Async.Keeps.bind (errorResponse_keeps _ _ _) fun _ => Async.Keeps.pure _

theorem unlessStopped_keeps {σ τ : Type} {p : σ → τ} {x rest : Async σ Bool} (hx : Async.Keeps p x)
    (hrest : Async.Keeps p rest) : Async.Keeps p (unlessStopped x rest) := by
  refine Async.Keeps.bind hx fun stop => ?_
  cases stop
  · exact hrest
  · exact Async.Keeps.pure true

theorem selectCluster_keeps (ex : Externals R) (prefixMap : List (Text × Nat)) (uri : Text) :
    Async.Keeps (fun f => (f.rate, f.ctx.proxyRetry, f.ctx.uriOrigin)) (selectCluster ex prefixMap uri) := by
  unfold selectCluster
  cases ex.parseUri uri with
  | none => exact (reject_keeps _ _).comp fun k => (k.1, k.2.2)
  | some u =>
    cases prefixMap.find? fun e => e.1 = basePath uri with
    | none => exact (reject_keeps _ _).comp fun k => (k.1, k.2.2)
    | some e =>
      refine Async.Keeps.bind (.modify fun _ => rfl) fun _ => Async.Keeps.ite ?_ ?_
      · cases ex.parseUri ['/'] with
        | none => exact Async.Keeps.stop _
        | some root => exact Async.Keeps.bind (.modify fun _ => rfl) fun _ => Async.Keeps.pure _
      · cases ex.parseUri (removeFirst e.1 uri) with
        | none => exact (reject_keeps _ _).comp fun k => (k.1, k.2.2)
        | some modified => exact Async.Keeps.bind (.modify fun _ => rfl) fun _ => Async.Keeps.pure _

theorem selectCluster_rate (ex : Externals R) (prefixMap : List (Text × Nat)) (uri : Text) (f : Filter R) :
    (selectCluster ex prefixMap uri f).2.rate = f.rate := congrArg Prod.fst (selectCluster_keeps ex prefixMap uri f)

theorem checkAddress_keeps (cluster : ClusterMetadata) :
    Async.Keeps Filter.kept (checkAddress cluster : Async (Filter R) Bool) := by
  refine Async.Keeps.bind .get fun f => ?_
  cases getClientIp f.session with
  | none => exact Async.Keeps.pure _
  | some address =>
    refine Async.Keeps.bind (.modify fun _ => rfl) fun _ => ?_
    cases cluster.ip with
    | none => exact Async.Keeps.pure _
    | some ip => exact Async.Keeps.ite (.pure _) (reject_keeps _ _)

theorem authorize_keeps (router : ProxyRouter) (cluster : ClusterMetadata) (claims : Claims) :
    Async.Keeps Filter.kept (authorize router cluster claims : Async (Filter R) Bool) := by
  unfold authorize
  cases cluster.consumers with
  | none => exact Async.Keeps.pure _
  | some consumers =>
    simp only
    cases consumers.find? fun consumer => claims.consumer = consumer.name with
    | none => exact reject_keeps _ _
    | some consumer =>
      simp only
      cases router.consumers with
      | none => exact reject_keeps _ _
      | some defConsumer =>
        simp only
        cases defConsumer.find? fun owner => consumer.name = owner.name with
        | none => exact reject_keeps _ _
        | some owner => exact Async.Keeps.ite (.pure _) (reject_keeps _ _)

theorem checkAuth_keeps (ex : Externals R) (router : ProxyRouter) (cluster : ClusterMetadata) :
    Async.Keeps Filter.kept (checkAuth ex router cluster) := by
  unfold checkAuth
  cases cluster.auth with
  | none => exact Async.Keeps.pure _
  | some auth =>
    cases auth with
    | external => exact Async.Keeps.pure _
    | key key =>
      refine Async.Keeps.bind .get fun f => ?_
      cases f.session.headers.get (headerName "Authorization") with
      | none => exact reject_keeps _ _
      | some creds =>
        simp only
        cases fromUtf8 creds with
        | none => exact reject_keeps _ _
        | some text => exact Async.Keeps.ite (.pure _) (reject_keeps _ _)
    | jwt jwt =>
      refine Async.Keeps.bind .get fun f => ?_
      cases f.session.headers.get (headerName "Authorization") with
      | none => exact reject_keeps _ _
      | some token =>
        simp only
        cases fromUtf8 token with
        | none => exact reject_keeps _ _
        | some text =>
          simp only
          cases ex.decode jwt.secret (bearer text) with
          | error e => exact reject_keeps _ _
          | ok claims => exact authorize_keeps router cluster claims

theorem enableRoutes_keeps (cluster : ClusterMetadata) :
    Async.Keeps Filter.kept (enableRoutes cluster : Async (Filter R) Unit) := by
  unfold enableRoutes
  cases cluster.routes with
  | none => exact Async.Keeps.pure _
  | some routes => exact Async.Keeps.modify fun _ => rfl

theorem readCredentials_keeps : Async.Keeps Filter.kept (readCredentials : Async (Filter R) Unit) := by
  refine Async.Keeps.bind .get fun f => ?_
  cases getReqHeaderValue f.session "Authorization" with
  | none => exact Async.Keeps.pure _
  | some credential => exact Async.Keeps.modify fun _ => rfl

theorem observeLimit_keeps (ex : Externals R) (maxReqLimit : Int) (identity : Option Text) :
    Async.Keeps Filter.place (observeLimit ex maxReqLimit identity) := by
  unfold observeLimit
  cases identity with
  | none => exact Async.Keeps.pure _
  | some id =>
    refine Async.Keeps.bind .get fun f => Async.Keeps.bind (.modify fun _ => rfl) fun _ => Async.Keeps.ite ?_ (.pure _)
    exact Async.Keeps.bind ((errorResponse_keeps _ _ _).comp Prod.snd) fun _ => Async.Keeps.pure _

theorem checkLimits_keeps (ex : Externals R) (cluster : ClusterMetadata) :
    Async.Keeps Filter.place (checkLimits ex cluster) := by
  unfold checkLimits
  cases cluster.limiter with
  | none => exact Async.Keeps.pure _
  | some limiter =>
    apply unlessStopped_keeps
    · cases limiter.globalLimit with
      | none => exact Async.Keeps.pure _
      | some basic => exact Async.Keeps.bind .get fun f => observeLimit_keeps ex basic.limit _
    · cases limiter.client with
      | none => exact Async.Keeps.pure _
      | some basic => exact Async.Keeps.bind .get fun f => observeLimit_keeps ex basic.limit _

theorem guardCluster_keeps (ex : Externals R) (router : ProxyRouter) (cluster : ClusterMetadata) :
    Async.Keeps Filter.place (guardCluster ex router cluster) := by
  refine Async.Keeps.bind (.modify fun _ => rfl) fun _ => ?_
  apply unlessStopped_keeps ((checkAddress_keeps cluster).comp Prod.snd)
  refine Async.Keeps.bind (readCredentials_keeps.comp Prod.snd) fun _ => ?_
  apply unlessStopped_keeps (checkLimits_keeps ex cluster)
  apply unlessStopped_keeps ((checkAuth_keeps ex router cluster).comp Prod.snd)
  exact Async.Keeps.bind ((enableRoutes_keeps cluster).comp Prod.snd) fun _ => Async.Keeps.pure _

/-! ## Where a forwarded request goes -/

/-- A request is forwarded with the index its prefix has and past the guards of that
    cluster, with the URI it came with and without a retry. -/
theorem requestFilter_chosen {session : Session} {rate : R}
    (h : requestFilter ex router ⟨session, newCtx, rate⟩ = (.ok false, f)) :
    ∃ e cluster, router.prefixMap.find? (fun e => e.1 = basePath session.uri.path) = some e ∧
      f.ctx.clusterAddress = e.2 ∧ router.clusters[e.2]? = some cluster ∧ Guarded ex router cluster session rate ∧
      f.ctx.proxyRetry = 0 ∧ f.ctx.uriOrigin = some session.uri.text := by
  unfold requestFilter at h
  rw [Async.get_bind_apply, Async.modify_bind_apply] at h
  obtain ⟨f1, h1, h⟩ := unlessStopped_ok h
  have hkeeps := selectCluster_keeps ex router.prefixMap session.uri.path
    ⟨session, { newCtx with uriOrigin := some session.uri.text }, rate⟩
  rw [h1] at hkeeps
  obtain ⟨hrate, hretry, horigin⟩ : f1.rate = rate ∧ f1.ctx.proxyRetry = 0 ∧
      f1.ctx.uriOrigin = some session.uri.text := by simpa [newCtx] using hkeeps
  obtain ⟨hfacts, -, ha, hc, _, e, -, he, haddress, -⟩ := selectCluster_ok h1
  obtain ⟨hheaders, hclient⟩ := Prod.mk.injEq .. ▸ hfacts
  rw [Async.get_bind_apply] at h
  cases hcl : router.clusters[f1.ctx.clusterAddress]? with
  | none => rw [hcl] at h; cases h
  | some cluster =>
    rw [hcl] at h
    have hguard := (guardCluster_ok ⟨ha, hc⟩ h).of_facts hheaders hclient
    rw [hrate] at hguard
    have hplace := guardCluster_keeps ex router cluster f1
    rw [show guardCluster ex router cluster f1 = (.ok false, f) from h] at hplace
    obtain ⟨haddress', hretry', horigin'⟩ : f.ctx.clusterAddress = f1.ctx.clusterAddress ∧
        f.ctx.proxyRetry = f1.ctx.proxyRetry ∧ f.ctx.uriOrigin = f1.ctx.uriOrigin := by
      simpa [Filter.place] using hplace
    refine ⟨e, cluster, he, haddress'.trans haddress, ?_, hguard, hretry'.trans hretry, horigin'.trans horigin⟩
    rw [← haddress]
    exact hcl

/-- A request that is forwarded has passed the guards of the cluster it goes to. From a
    client that names no address in a header, the address in the whitelist is its own. -/
theorem forwarded_guarded (ex : Externals R) (router : ProxyRouter) (session : Session) (rate : R) (f' : Filter R)
    (h : requestFilter ex router ⟨session, newCtx, rate⟩ = (.ok false, f')) :
    ∃ cluster, router.selected session = some cluster ∧ Guarded ex router cluster session rate ∧
      (session.headers.get (headerName "X-Forwarded-For") = none → session.headers.get (headerName "X-Real-Ip") = none →
        ∀ ip peer port, cluster.ip = some ip → session.clientAddr = some (.inet peer port) → peer ∈ ip.whitelist) := by
  obtain ⟨e, cluster, he, -, hcl, hguard, -, -⟩ := requestFilter_chosen h
  refine ⟨cluster, ?_, hguard, fun hf hr ip peer port hip hpeer => ?_⟩
  · unfold ProxyRouter.selected
    rw [he, Option.bind_some]
    exact hcl
  · refine hguard.address ip peer hip ?_
    rw [getClientIp_remote hf hr, getRemoteAddr, hpeer]
    rfl

/-! ## A client that names its address -/

/-- Every path is a URI, no token is checked and nobody asks too often. -/
def plainExternals : Externals Unit where
  parseUri t := some ⟨t, none, t⟩
  decode _ _ := .ok ⟨0, []⟩
  observe _ _ := ((), 0)

def listedOnly : ClusterMetadata := ⟨"a".toList, none, none, none, some ⟨["10.0.0.1".toList]⟩, none, none⟩

def listedRouter : ProxyRouter := ⟨[listedOnly], [("/a".toList, 0)], none⟩

/-- A request for `/a` from `peer`, with `headers`. -/
def requestFrom (peer : String) (headers : HeaderMap Text Bytes) : Session :=
  ⟨⟨"/a".toList, none, "/a".toList⟩, headers, some (.inet peer.toList 4711), false, [], none⟩

/-- It remembers what it was shown. -/
def tallyExternals : Externals (List Text) where
  parseUri t := some ⟨t, none, t⟩
  decode _ _ := .ok ⟨0, []⟩
  observe seen k := (k :: seen, seen.count k + 1)

/-- Two requests to the cluster, one to a client, from 10.0.0.1 and with a key. -/
def keyedRouter : ProxyRouter :=
  ⟨[⟨"a".toList, some ⟨some ⟨2⟩, some ⟨1⟩⟩, none, some (.key ⟨["sesame".toList]⟩), some ⟨["10.0.0.1".toList]⟩, none,
    none⟩], [("/a".toList, 0)], none⟩

def keyedRequest : Session :=
  requestFrom "10.0.0.1" (HeaderMap.empty.append (headerName "Authorization") (ascii "sesame"))

/-- The second request to the cluster, and the first of its client. -/
theorem forwarded_guarded_keyed :
    ∃ cluster, keyedRouter.selected keyedRequest = some cluster ∧
      Guarded tallyExternals keyedRouter cluster keyedRequest ["a".toList] ∧
      (keyedRequest.headers.get (headerName "X-Forwarded-For") = none →
        keyedRequest.headers.get (headerName "X-Real-Ip") = none →
        ∀ ip peer port, cluster.ip = some ip → keyedRequest.clientAddr = some (.inet peer port) →
          peer ∈ ip.whitelist) :=
  forwarded_guarded tallyExternals keyedRouter keyedRequest ["a".toList]
    (requestFilter tallyExternals keyedRouter ⟨keyedRequest, newCtx, ["a".toList]⟩).2
    (Prod.ext (show (requestFilter tallyExternals keyedRouter ⟨keyedRequest, newCtx, ["a".toList]⟩).1 = .ok false by
      decide) rfl)

/-- From 6.6.6.6 with `X-Forwarded-For: 10.0.0.1`, past a whitelist of 10.0.0.1. -/
theorem forwarded_unlisted :
    ∃ session f', requestFilter plainExternals listedRouter ⟨session, newCtx, ()⟩ = (.ok false, f') ∧
      session.headers.get (headerName "X-Forwarded-For") = some (ascii "10.0.0.1") ∧
      listedRouter.selected session = some listedOnly ∧ listedOnly.ip = some ⟨["10.0.0.1".toList]⟩ ∧
      session.clientAddr = some (.inet "6.6.6.6".toList 4711) ∧ "6.6.6.6".toList ∉ ["10.0.0.1".toList] :=
  ⟨requestFrom "6.6.6.6" (HeaderMap.empty.append (headerName "X-Forwarded-For") (ascii "10.0.0.1")), _,
    Prod.ext (show (requestFilter plainExternals listedRouter
      ⟨requestFrom "6.6.6.6" (HeaderMap.empty.append (headerName "X-Forwarded-For") (ascii "10.0.0.1")), newCtx,
        ()⟩).1 = .ok false by decide) rfl, by decide, rfl, rfl, rfl, by decide⟩

end Glaive.Proxy
