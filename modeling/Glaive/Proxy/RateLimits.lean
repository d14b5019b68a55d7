/-
  Glaive.Proxy.RateLimits — the limiters over a window of requests
  (`glaive/src/limiter.rs`: `RATE_LIMITER`; `glaive/src/proxy.rs`: `request_filter`).

  One estimator counts for every limiter of every cluster, under plain strings: the name
  of a cluster, an Authorization value, an address. A limiter keeps to its own budget as
  long as no string of the window stands for two of them (`limits_fair`). A client can
  name a cluster in its credential, and so use up what the cluster may serve
  (`limits_unfair`).
-/

import Glaive.Lib.Runs
import Glaive.Proxy.Path

namespace Glaive.Proxy

open Glaive.Lib

variable {R : Type}

/-! ## Who asks whom -/

inductive Client where
  | credential (value : Text)
  | address (value : Text)
  deriving DecidableEq

def Client.text : Client → Text
  | .credential value => value
  | .address value => value

/-- A client is known by its credential, else its address. -/
def clientOf (session : Session) : Option Client :=
  match getReqHeaderValue session "Authorization" with
  | some value => some (.credential value)
  | none => (getClientIp session).map .address

/-- The cluster that a request is sent to. -/
def chosen (ex : Externals R) (router : ProxyRouter) (session : Session) : Option Nat := do
  let _ ← ex.parseUri session.uri.path
  let e ← router.prefixMap.find? fun e => e.1 = basePath session.uri.path
  let _ ← ex.parseUri (orRoot (removeFirst e.1 session.uri.path))
  return e.2

def madeTo (ex : Externals R) (router : ProxyRouter) (c : Nat) (session : Session) : Bool :=
  chosen ex router session == some c

def madeBy (ex : Externals R) (router : ProxyRouter) (c : Nat) (who : Client) (session : Session) : Bool :=
  chosen ex router session == some c && clientOf session == some who

/-- What a limiter has to share out: the requests to a cluster, or those of one client
    to it. -/
inductive Budget where
  | cluster (c : Nat)
  | client (c : Nat) (who : Client)
  deriving DecidableEq

/-- The limiters a request can come to, with the string each counts it under. -/
def limiterUses (limiter : Limiter) (c : Nat) (name : Text) (client : Option Client) : List (Budget × Text) :=
  (if limiter.globalLimit.isSome then [(.cluster c, name)] else []) ++
    (if limiter.client.isSome then client.toList.map fun who => (.client c who, who.text) else [])

def uses (ex : Externals R) (router : ProxyRouter) (session : Session) : List (Budget × Text) :=
  match chosen ex router session with
  | none => []
  | some c =>
    match router.clusters[c]? with
    | none => []
    | some cluster =>
      match cluster.limiter with
      | none => []
      | some limiter => limiterUses limiter c cluster.name (clientOf session)

/-! ## A window -/

/-- `Rate::observe` in one window: `count` has what was observed under each string. -/
structure ExactRate (ex : Externals R) (count : R → Text → Int) : Prop where
  seen : ∀ r k, (ex.observe r k).2 = count r k + 1
  after : ∀ r k k', count (ex.observe r k).1 k' = if k' = k then count r k + 1 else count r k'

structure Window (R : Type) where
  rate : R
  /-- The requests of the window so far. -/
  past : List Session

def serve (ex : Externals R) (router : ProxyRouter) (session : Session) (w : Window R) : Option (Window R) :=
  some ⟨(requestFilter ex router ⟨session, newCtx, w.rate⟩).2.rate, w.past ++ [session]⟩

/-- A request comes to the limiters of `cluster`, number `c`, in the state `g`. -/
structure ComesTo (ex : Externals R) (router : ProxyRouter) (session : Session) (rate : R) (c : Nat)
    (cluster : ClusterMetadata) (limiter : Limiter) (g : Filter R) : Prop where
  here : router.clusters[c]? = some cluster
  limited : cluster.limiter = some limiter
  path : ∃ f1 f2, selectCluster ex router.prefixMap session.uri.path
      ⟨session, { newCtx with uriOrigin := some session.uri.text }, rate⟩ = (.ok false, f1) ∧ f1.ctx.clusterAddress = c ∧
    checkAddress cluster { f1 with ctx := { f1.ctx with clusterIdentity := some cluster.name } } = (.ok false, f2) ∧
    readCredentials f2 = (.ok (), g)

/-- The request is not let on by the global limiter of its cluster. -/
def GlobalRejects (ex : Externals R) (router : ProxyRouter) (session : Session) (rate : R) (c : Nat) (limit : Int) : Prop :=
  ∃ cluster limiter g, ComesTo ex router session rate c cluster limiter g ∧ limiter.globalLimit = some ⟨limit⟩ ∧
    (globalLimiter ex limit g).1 ≠ .ok false

/-- The request is not let on by the client limiter of its cluster. -/
def ClientRejects (ex : Externals R) (router : ProxyRouter) (session : Session) (rate : R) (c : Nat) (limit : Int) : Prop :=
  ∃ cluster limiter g g', ComesTo ex router session rate c cluster limiter g ∧ limiter.client = some ⟨limit⟩ ∧
    (match limiter.globalLimit with
      | some basic => globalLimiter ex basic.limit g
      | none => (.ok false, g)) = (.ok false, g') ∧
    (clientLimiter ex limit g').1 ≠ .ok false

/-- A limiter turns a request away only when its own budget is used up. -/
structure Fair (ex : Externals R) (router : ProxyRouter) (session : Session) (w : Window R) : Prop where
  global : ∀ c limit, GlobalRejects ex router session w.rate c limit →
    limit < (w.past ++ [session]).countP (madeTo ex router c)
  client : ∀ c limit, ClientRejects ex router session w.rate c limit → ∃ who, clientOf session = some who ∧
    limit < (w.past ++ [session]).countP (madeBy ex router c who)

/-- The strings a request is counted under stand for nothing else in the window. -/
def Unshared (ex : Externals R) (router : ProxyRouter) (session : Session) (w : Window R) : Prop :=
  ∀ u ∈ uses ex router session, ∀ other ∈ w.past ++ [session], ∀ u' ∈ uses ex router other, u'.2 = u.2 → u'.1 = u.1

/-! ## What a request comes to the limiters with -/

variable {ex : Externals R} {count : R → Text → Int} {router : ProxyRouter} {session : Session} {rate : R} {c : Nat}
  {cluster : ClusterMetadata} {limiter : Limiter} {f g g' : Filter R} {limit : Int}

theorem selectCluster_chosen (h : selectCluster ex router.prefixMap session.uri.path f = (.ok false, g)) :
    chosen ex router session = some g.ctx.clusterAddress := by
  obtain ⟨-, -, -, -, uri, e, hu, he, haddr, hr⟩ := selectCluster_ok h
  unfold chosen
  rw [hu, Option.bind_eq_bind, Option.bind_some, he, Option.bind_eq_bind, Option.bind_some, hr, haddr]
  rfl

/-- The limiters know a request by the name of its cluster and the text of its client. -/
structure Known (name : Text) (client : Option Client) (rate : R) (g : Filter R) : Prop where
  cluster : g.ctx.clusterIdentity = some name
  client : g.ctx.clientCredentials.or g.ctx.clientAddress = client.map Client.text
  rate : g.rate = rate

theorem clientOf_text (session : Session) : (clientOf session).map Client.text =
    (getReqHeaderValue session "Authorization").or (getClientIp session) := by
  unfold clientOf
  cases getReqHeaderValue session "Authorization" with
  | some value => rfl
  | none => cases getClientIp session <;> rfl

theorem known_after {f1 f2 : Filter R} (h1 : selectCluster ex router.prefixMap session.uri.path
      ⟨session, { newCtx with uriOrigin := some session.uri.text }, rate⟩ = (.ok false, f1))
    (h2 : checkAddress cluster { f1 with ctx := { f1.ctx with clusterIdentity := some cluster.name } } = (.ok false, f2))
    (h3 : readCredentials f2 = (.ok (), g)) : Known cluster.name (clientOf session) rate g := by
  obtain ⟨hfacts, hrate, haddr, hcred, -⟩ := selectCluster_ok h1
  obtain ⟨hheaders, hpeer⟩ := Prod.mk.injEq .. ▸ hfacts
  obtain ⟨s2, r2, n2, -, c2, a2, -⟩ := checkAddress_ok h2
  obtain ⟨s3, r3, n3, a3, c3⟩ := readCredentials_ok h3
  refine ⟨n3.trans n2, ?_, r3.trans (r2.trans hrate)⟩
  rw [clientOf_text, c3, a3, a2, c2, s2]
  show ((getReqHeaderValue f1.session "Authorization").or f1.ctx.clientCredentials).or
    ((getClientIp f1.session).or f1.ctx.clientAddress) = _
  rw [hcred, haddr, getReqHeaderValue_facts hheaders, getClientIp_facts hheaders hpeer]
  show ((getReqHeaderValue session "Authorization").or none).or ((getClientIp session).or none) = _
  rw [Option.or_none, Option.or_none]

theorem ComesTo.known (h : ComesTo ex router session rate c cluster limiter g) :
    Known cluster.name (clientOf session) rate g ∧ chosen ex router session = some c ∧
      uses ex router session = limiterUses limiter c cluster.name (clientOf session) := by
  obtain ⟨hhere, hlim, f1, f2, h1, haddr, h2, h3⟩ := h
  have hc : chosen ex router session = some c := haddr ▸ selectCluster_chosen h1
  refine ⟨known_after h1 h2 h3, hc, ?_⟩
  unfold uses
  rw [hc]
  simp only [hhere, hlim]

/-! ## What a limiter counts -/

theorem observeLimit_rate (ex : Externals R) (m : Int) (identity : Option Text) (f : Filter R) :
    (observeLimit ex m identity f).2.rate = match identity with
      | some id => (ex.observe f.rate id).1
      | none => f.rate := by
  unfold observeLimit
  cases identity with
  | none => rfl
  | some id =>
    simp only [Async.get_bind_apply, Async.modify_bind_apply]
    by_cases ho : overLimit ex m id f.rate = true
    · rw [if_pos ho]
      unfold tooManyRequest errorResponse
      rw [Async.bind_apply]
      by_cases hb : f.session.broken = true
      · simp [hb]
      · simp [hb]
    · rw [if_neg ho]
      rfl

/-- A limiter stops a request only when the count under its string is over the limit. -/
theorem observeLimit_stops {m : Int} {identity : Option Text} (exact : ExactRate ex count)
    (h : (observeLimit ex m identity f).1 ≠ .ok false) : ∃ id, identity = some id ∧ m < count f.rate id + 1 := by
  unfold observeLimit at h
  cases identity with
  | none => exact absurd rfl h
  | some id =>
    refine ⟨id, rfl, ?_⟩
    simp only [Async.get_bind_apply, Async.modify_bind_apply] at h
    by_cases ho : overLimit ex m id f.rate = true
    · rw [← exact.seen]
      exact of_decide_eq_true ho
    · rw [if_neg ho] at h
      exact absurd rfl h

def used (us : List (Budget × Text)) (k : Text) : Nat := us.countP fun u => u.2 = k

theorem used_append (us vs : List (Budget × Text)) (k : Text) : used (us ++ vs) k = used us k + used vs k :=
  List.countP_append

theorem used_singleton (b : Budget) (t k : Text) : used [(b, t)] k = if k = t then 1 else 0 := by
  unfold used
  by_cases hk : k = t
  · simp [hk]
  · simp [hk, Ne.symm hk]

/-- Counting one identity adds at most its own use. -/
theorem observeLimit_count (exact : ExactRate ex count) (m : Int) (identity : Option Text) (b : Budget) (f : Filter R)
    (k : Text) : count (observeLimit ex m identity f).2.rate k ≤
      count f.rate k + used (identity.toList.map fun t => (b, t)) k := by
  rw [observeLimit_rate]
  cases identity with
  | none => simp [used]
  | some id =>
    simp only [Option.toList_some, List.map_cons, List.map_nil]
    rw [exact.after, used_singleton]
    by_cases hk : k = id
    · simp [hk]
    · simp [hk]

/-! ## What a request leaves of the counts -/

/-- A code that stops here, or goes on after a part that lets the request on. -/
theorem unlessStopped_cases {σ : Type} (x rest : Async σ Bool) (s : σ) :
    (unlessStopped x rest s).2 = (x s).2 ∨ ∃ t, x s = (.ok false, t) ∧ unlessStopped x rest s = rest t := by
  unfold unlessStopped
  rw [Async.bind_apply]
  rcases hx : x s with ⟨o, t⟩
  cases o with
  | ok stop =>
    cases stop with
    | true => exact .inl rfl
    | false => exact .inr ⟨t, rfl, rfl⟩
  | err e => exact .inl rfl
  | pending => exact .inl rfl
  | panic text => exact .inl rfl

/-- What a part adds to a count, and what the rest adds when it is reached. -/
theorem unlessStopped_count {x rest : Async (Filter R) Bool} {a : Int} {n m : Nat} {k : Text} (s : Filter R)
    (hx : count (x s).2.rate k ≤ a + n)
    (hrest : ∀ t, x s = (.ok false, t) → count (rest t).2.rate k ≤ count t.rate k + m) :
    count (unlessStopped x rest s).2.rate k ≤ a + (n + m : Nat) := by
  rcases unlessStopped_cases x rest s with h | ⟨t, ht, h⟩
  · rw [h]
    omega
  · rw [h]
    have := hrest t ht
    rw [ht] at hx
    simp only at hx
    omega

theorem limiterUses_used (limiter : Limiter) (c : Nat) (name : Text) (client : Option Client) (k : Text) :
    used (limiterUses limiter c name client) k =
      (if limiter.globalLimit.isSome then used [(.cluster c, name)] k else 0) +
        if limiter.client.isSome then used (client.toList.map fun who => (.client c who, who.text)) k else 0 := by
  unfold limiterUses
  rw [used_append]
  cases limiter.globalLimit.isSome <;> cases limiter.client.isSome <;> rfl

theorem used_client (c : Nat) (client : Option Client) (b : Budget) (k : Text) :
    used ((client.map Client.text).toList.map fun t => (b, t)) k =
      used (client.toList.map fun who => (.client c who, who.text)) k := by
  cases client with
  | none => rfl
  | some who =>
    simp only [Option.map_some, Option.toList_some, List.map_cons, List.map_nil]
    rw [used_singleton, used_singleton]

theorem globalLimiter_count (exact : ExactRate ex count) {name : Text} {client : Option Client}
    (hg : Known name client rate g) (m : Int) (c : Nat) (k : Text) :
    count (globalLimiter ex m g).2.rate k ≤ count rate k + used [(.cluster c, name)] k := by
  have h := observeLimit_count exact m g.ctx.clusterIdentity (.cluster c) g k
  rw [hg.cluster, hg.rate] at h
  unfold globalLimiter
  rw [Async.get_bind_apply, hg.cluster]
  exact h

theorem clientLimiter_count (exact : ExactRate ex count) {client : Option Client}
    (hclient : g.ctx.clientCredentials.or g.ctx.clientAddress = client.map Client.text) (m : Int) (c : Nat) (k : Text) :
    count (clientLimiter ex m g).2.rate k ≤
      count g.rate k + used (client.toList.map fun who => (.client c who, who.text)) k := by
  have h := observeLimit_count exact m (g.ctx.clientCredentials.or g.ctx.clientAddress) (.cluster c) g k
  rw [hclient, used_client c] at h
  unfold clientLimiter
  rw [Async.get_bind_apply, hclient]
  exact h

theorem checkLimits_count (exact : ExactRate ex count) (hlim : cluster.limiter = some limiter) {client : Option Client}
    (hg : Known cluster.name client rate g) (c : Nat) (k : Text) : count (checkLimits ex cluster g).2.rate k ≤
      count rate k + used (limiterUses limiter c cluster.name client) k := by
  rw [limiterUses_used]
  unfold checkLimits
  rw [hlim]
  apply unlessStopped_count
  · cases limiter.globalLimit with
    | none => simp [hg.rate]
    | some basic => exact globalLimiter_count exact hg basic.limit c k
  · intro t ht
    have hctx : t.ctx = g.ctx := by
      cases hgl : limiter.globalLimit with
      | none => rw [hgl] at ht; cases ht; rfl
      | some basic =>
        rw [hgl] at ht
        exact (observeLimit_ok ht).2.1
    cases limiter.client with
    | none => simp
    | some basic => exact clientLimiter_count exact (by rw [hctx, hg.client]) basic.limit c k

/-! ## A window of requests -/

theorem readCredentials_total (f : Filter R) : ∃ g, readCredentials f = (.ok (), g) := by
  unfold readCredentials
  rw [Async.get_bind_apply]
  cases getReqHeaderValue f.session "Authorization" with
  | none => exact ⟨_, rfl⟩
  | some credential => exact ⟨_, rfl⟩

/-- A request is counted at most under its own strings. -/
theorem requestFilter_count (exact : ExactRate ex count) (router : ProxyRouter) (session : Session) (rate : R) (k : Text) :
    count (requestFilter ex router ⟨session, newCtx, rate⟩).2.rate k ≤
      count rate k + used (uses ex router session) k := by
  unfold requestFilter
  rw [Async.get_bind_apply, Async.modify_bind_apply]
  rw [show used (uses ex router session) k = 0 + used (uses ex router session) k by omega]
  apply unlessStopped_count
  · rw [selectCluster_rate]
    simp
  · intro f1 h1
    have hrate : f1.rate = rate := (selectCluster_ok h1).2.1
    rw [Async.get_bind_apply]
    cases hcl : router.clusters[f1.ctx.clusterAddress]? with
    | none => exact Int.le_add_of_nonneg_right (Int.natCast_nonneg _)
    | some cluster =>
      simp only
      unfold guardCluster
      rw [Async.modify_bind_apply]
      rw [show used (uses ex router session) k = 0 + used (uses ex router session) k by omega]
      apply unlessStopped_count
      · rw [kept_rate (checkAddress_keeps cluster)]
        simp
      · intro f2 h2
        obtain ⟨g, h3⟩ := readCredentials_total f2
        rw [Async.bind_ok h3]
        have hknown := known_after h1 h2 h3
        have hr2 : f2.rate = rate := (checkAddress_ok h2).2.1.trans hrate
        rw [show used (uses ex router session) k = used (uses ex router session) k + 0 by omega]
        apply unlessStopped_count
        · cases hlim : cluster.limiter with
          | none =>
            unfold checkLimits
            rw [hlim]
            show count g.rate k ≤ count f2.rate k + used (uses ex router session) k
            rw [hknown.rate, hr2]
            exact Int.le_add_of_nonneg_right (Int.natCast_nonneg _)
          | some limiter =>
            have huses : uses ex router session = limiterUses limiter f1.ctx.clusterAddress cluster.name (clientOf session) := by
              unfold uses
              rw [selectCluster_chosen h1]
              simp only [hcl, hlim]
            rw [huses, hr2]
            exact checkLimits_count exact hlim hknown _ k
        · intro t _
          rw [kept_rate (unlessStopped_keeps (checkAuth_keeps ex router cluster)
            (Async.Keeps.bind (enableRoutes_keeps cluster) fun _ => Async.Keeps.pure _))]
          simp

/-- A request that draws on a budget. -/
def draws (ex : Externals R) (router : ProxyRouter) : Budget → Session → Bool
  | .cluster c => madeTo ex router c
  | .client c who => madeBy ex router c who

theorem mem_limiterUses {u : Budget × Text} {client : Option Client} {name : Text} :
    u ∈ limiterUses limiter c name client ↔ limiter.globalLimit.isSome ∧ u = (.cluster c, name) ∨
      limiter.client.isSome ∧ ∃ who, client = some who ∧ u = (.client c who, who.text) := by
  unfold limiterUses
  rw [List.mem_append]
  apply or_congr
  · by_cases hg : limiter.globalLimit.isSome = true
    · simp [hg]
    · simp [hg]
  · by_cases hc : limiter.client.isSome = true
    · simp [hc, eq_comm]
    · simp [hc]

theorem uses_eq (ex : Externals R) (router : ProxyRouter) (session : Session) :
    uses ex router session = [] ∨ ∃ c name limiter, chosen ex router session = some c ∧
      uses ex router session = limiterUses limiter c name (clientOf session) := by
  unfold uses
  cases chosen ex router session with
  | none => exact .inl rfl
  | some c =>
    simp only
    cases router.clusters[c]? with
    | none => exact .inl rfl
    | some cluster =>
      simp only
      cases cluster.limiter with
      | none => exact .inl rfl
      | some limiter => exact .inr ⟨c, cluster.name, limiter, rfl, rfl⟩

/-- A string that stands for one budget counts at most the requests that draw on it. -/
theorem used_le {k : Text} {budget : Budget} (h : ∀ u ∈ uses ex router session, u.2 = k → u.1 = budget) :
    used (uses ex router session) k ≤ if draws ex router budget session then 1 else 0 := by
  rcases uses_eq ex router session with hnil | ⟨c, name, limiter, hc, huses⟩
  · rw [hnil]
    exact Nat.zero_le _
  · rw [huses] at h ⊢
    by_cases hg : limiter.globalLimit.isSome ∧ name = k
    · have hb : Budget.cluster c = budget := h _ (mem_limiterUses.mpr (.inl ⟨hg.1, rfl⟩)) hg.2
      have hno : ¬ ∃ who, limiter.client.isSome ∧ clientOf session = some who ∧ who.text = k := by
        intro h
        rcases h with ⟨who, hcl, hwho, ht⟩
        have := h _ (mem_limiterUses.mpr (.inr ⟨hcl, who, hwho, rfl⟩)) ht
        rw [← hb] at this
        cases this
      have hdraw : draws ex router budget session = true := by
        rw [← hb]
        simp [draws, madeTo, hc]
      rw [limiterUses_used, if_pos hg.1, if_pos hdraw, used_singleton, if_pos hg.2.symm]
      by_cases hcl : limiter.client.isSome = true
      · rw [if_pos hcl]
        cases hwho : clientOf session with
        | none => exact Nat.le_refl _
        | some who =>
          have : ¬ k = who.text := fun ht => hno ⟨who, hcl, hwho, ht.symm⟩
          simp only [Option.toList_some, List.map_cons, List.map_nil]
          rw [used_singleton, if_neg this]
      · rw [if_neg hcl]
    · have hzero : (if limiter.globalLimit.isSome then used [(Budget.cluster c, name)] k else 0) = 0 := by
        by_cases hgl : limiter.globalLimit.isSome = true
        · rw [if_pos hgl, used_singleton, if_neg fun hk => hg ⟨hgl, hk.symm⟩]
        · rw [if_neg hgl]
      rw [limiterUses_used, hzero, Nat.zero_add]
      by_cases hcl : limiter.client.isSome = true
      · rw [if_pos hcl]
        cases hwho : clientOf session with
        | none => exact Nat.zero_le _
        | some who =>
          simp only [Option.toList_some, List.map_cons, List.map_nil]
          rw [used_singleton]
          by_cases hk : k = who.text
          · have hb : Budget.client c who = budget :=
              h _ (mem_limiterUses.mpr (.inr ⟨hcl, who, hwho, rfl⟩)) hk.symm
            have hdraw : draws ex router budget session = true := by
              rw [← hb]
              simp [draws, madeBy, hc, hwho]
            rw [if_pos hk, if_pos hdraw]
          · rw [if_neg hk]
            exact Nat.zero_le _
      · rw [if_neg hcl]
        exact Nat.zero_le _

/-- What the requests so far can have added under `k`. -/
def charged (ex : Externals R) (router : ProxyRouter) (past : List Session) (k : Text) : Nat :=
  (past.map fun session => used (uses ex router session) k).sum

theorem charged_le {k : Text} {budget : Budget} : ∀ {past : List Session},
    (∀ session ∈ past, ∀ u ∈ uses ex router session, u.2 = k → u.1 = budget) →
    charged ex router past k ≤ past.countP (draws ex router budget) := by
  intro past
  induction past with
  | nil => exact fun _ => Nat.le_refl _
  | cons session past ih =>
    intro h
    obtain ⟨hfirst, hrest⟩ := List.forall_mem_cons.mp h
    have h1 := used_le hfirst
    have h2 := ih hrest
    unfold charged at h2 ⊢
    rw [List.map_cons, List.sum_cons, List.countP_cons]
    omega

/-- No string is counted more often than the requests of the window have used it. -/
def Counted (ex : Externals R) (count : R → Text → Int) (router : ProxyRouter) (w : Window R) : Prop :=
  ∀ k, count w.rate k ≤ charged ex router w.past k

theorem serve_counted (exact : ExactRate ex count) {w w' : Window R} (hw : Counted ex count router w)
    (h : serve ex router session w = some w') : Counted ex count router w' := by
  cases h
  intro k
  have h1 := requestFilter_count exact router session w.rate k
  have h2 := hw k
  unfold charged at h2 ⊢
  rw [List.map_append, List.sum_append, List.map_singleton, List.sum_singleton]
  simp only
  omega

/-- A string of this request, when it stands for one budget, has counted no more than
    the requests that draw on it. -/
theorem Counted.budget {w : Window R} (hw : Counted ex count router w) (hun : Unshared ex router session w)
    {u : Budget × Text} (hu : u ∈ uses ex router session) (hdraw : draws ex router u.1 session = true) :
    count w.rate u.2 + 1 ≤ (w.past ++ [session]).countP (draws ex router u.1) := by
  have h1 := hw u.2
  have h2 : charged ex router w.past u.2 ≤ w.past.countP (draws ex router u.1) := charged_le
    fun other hmem u' hu' ht => hun u hu other (List.mem_append_left _ hmem) u' hu' ht
  rw [List.countP_append, List.countP_singleton, if_pos hdraw]
  omega

theorem fair_of_unshared (exact : ExactRate ex count) {w : Window R} (hw : Counted ex count router w)
    (hun : Unshared ex router session w) : Fair ex router session w := by
  constructor
  · intro c limit h
    rcases h with ⟨cluster, limiter, g, hcomes, hgl, hstop⟩
    obtain ⟨hknown, hc, huses⟩ := hcomes.known
    unfold globalLimiter at hstop
    rw [Async.get_bind_apply] at hstop
    obtain ⟨id, hid, hlt⟩ := observeLimit_stops exact hstop
    cases hknown.cluster.symm.trans hid
    rw [hknown.rate] at hlt
    have hmem : ((.cluster c, cluster.name) : Budget × Text) ∈ uses ex router session := by
      rw [huses]
      exact mem_limiterUses.mpr (.inl ⟨by rw [hgl]; rfl, rfl⟩)
    have := hw.budget hun hmem (by simp [draws, madeTo, hc])
    exact Int.lt_of_lt_of_le hlt this
  · intro c limit h
    rcases h with ⟨cluster, limiter, g, g', hcomes, hcl, hpass, hstop⟩
    obtain ⟨hknown, hc, huses⟩ := hcomes.known
    unfold clientLimiter at hstop
    rw [Async.get_bind_apply] at hstop
    obtain ⟨id, hid, hlt⟩ := observeLimit_stops exact hstop
    -- the global limiter has counted under the name of the cluster only
    have hg' : g'.ctx = g.ctx ∧ ∀ k, (limiter.globalLimit.isSome → k ≠ cluster.name) →
        count g'.rate k = count w.rate k := by
      cases hgl : limiter.globalLimit with
      | none =>
        rw [hgl] at hpass
        cases hpass
        exact ⟨rfl, fun k _ => by rw [hknown.rate]⟩
      | some basic =>
        rw [hgl] at hpass
        obtain ⟨-, hctx, hseen⟩ := observeLimit_ok hpass
        obtain ⟨-, hrate⟩ := hseen cluster.name hknown.cluster
        refine ⟨hctx, fun k hk => ?_⟩
        rw [hrate, exact.after, if_neg (hk rfl), hknown.rate]
    rw [hg'.1, hknown.client] at hid
    obtain ⟨who, hwho, ht⟩ := Option.map_eq_some_iff.mp hid
    refine ⟨who, hwho, ?_⟩
    have hmem : ((.client c who, who.text) : Budget × Text) ∈ uses ex router session := by
      rw [huses]
      exact mem_limiterUses.mpr (.inr ⟨by rw [hcl]; rfl, who, hwho, rfl⟩)
    have hne : limiter.globalLimit.isSome → who.text ≠ cluster.name := by
      intro hgl htext
      have hmem' : ((.cluster c, cluster.name) : Budget × Text) ∈ uses ex router session := by
        rw [huses]
        exact mem_limiterUses.mpr (.inl ⟨hgl, rfl⟩)
      have := hun _ hmem' session (List.mem_append_right _ (List.mem_singleton_self _)) _ hmem htext
      cases this
    rw [← ht, hg'.2 _ hne] at hlt
    have := hw.budget hun hmem (by simp [draws, madeBy, hc, hwho])
    exact Int.lt_of_lt_of_le hlt this

/-- In a window in which no string stands for two budgets, whatever the requests, the
    clusters and the limits, a limiter turns a request away only when its budget is used
    up. -/
theorem limits_fair (ex : Externals R) (count : R → Text → Int) (exact : ExactRate ex count) (router : ProxyRouter)
    (rate : R) (hfresh : ∀ k, count rate k = 0) (sessions : List Session) (w : Window R)
    (h : Run (serve ex router) (Unshared ex router) ⟨rate, []⟩ sessions w) :
    Run (serve ex router) (Fair ex router) ⟨rate, []⟩ sessions w := by
  apply Run.imp (I := Counted ex count router) (P := Unshared ex router)
  · intro session w w' hw hs
    exact serve_counted exact hw hs
  · intro session w w' hw _ hun
    exact fair_of_unshared exact hw hun
  · exact h
  · intro k
    show count rate k ≤ _
    rw [hfresh]
    exact Int.natCast_nonneg _

instance (session : Session) (w : Window R) : Decidable (Unshared ex router session w) :=
  inferInstanceAs (Decidable (∀ u ∈ uses ex router session, ∀ other ∈ w.past ++ [session],
    ∀ u' ∈ uses ex router other, u'.2 = u.2 → u'.1 = u.1))

/-! ## A client that names a cluster -/

/-- The estimator of a window, which remembers what it was shown. -/
def countingExternals : Externals (List Text) where
  parseUri := originForm
  decode _ _ := .ok ⟨0, []⟩
  observe seen k := (k :: seen, seen.count k + 1)

theorem countingExternals_exact : ExactRate countingExternals fun seen k => seen.count k where
  seen _ _ := rfl
  after seen k k' := by
    show ((k :: seen).count k' : Int) = _
    rw [List.count_cons]
    by_cases hk : k' = k
    · simp [hk]
    · simp [hk, Ne.symm hk]

/-- Cluster `a` serves one request, cluster `b` ten to a client. -/
def limitedRouter : ProxyRouter :=
  ⟨[⟨"a".toList, some ⟨some ⟨1⟩, none⟩, none, none, none, none, none⟩,
    ⟨"b".toList, some ⟨none, some ⟨10⟩⟩, none, none, none, none, none⟩], [("/a".toList, 0), ("/b".toList, 1)], none⟩

/-- A request for `path`, with `credential` as Authorization. -/
def credentialled (path : String) (credential : String) : Session :=
  ⟨⟨path.toList, none, path.toList⟩, HeaderMap.empty.append (headerName "Authorization") (ascii credential),
    some (.inet "10.0.0.1".toList 4711), false, [], none⟩

theorem limits_fair_apart : Run (serve countingExternals limitedRouter) (Fair countingExternals limitedRouter) ⟨[], []⟩
    [credentialled "/b" "key", credentialled "/a" "key"]
    ((stepAll (serve countingExternals limitedRouter) (Unshared countingExternals limitedRouter)
      [credentialled "/b" "key", credentialled "/a" "key"] ⟨[], []⟩).get (by decide)) :=
  limits_fair countingExternals (fun seen k => seen.count k) countingExternals_exact limitedRouter [] (fun _ => rfl) _ _
    (run_get _ _ _ _ (by decide))

/-- A request to `b` with the credential `a`, and the first request to `a` is turned away. -/
theorem limits_unfair :
    ∃ w, Run (serve countingExternals limitedRouter) (fun _ _ => True) ⟨[], []⟩ [credentialled "/b" "a"] w ∧
      GlobalRejects countingExternals limitedRouter (credentialled "/a" "key") w.rate 0 1 ∧
      (w.past ++ [credentialled "/a" "key"]).countP (madeTo countingExternals limitedRouter 0) = 1 ∧
      ¬ Fair countingExternals limitedRouter (credentialled "/a" "key") w := by
  have hrej : GlobalRejects countingExternals limitedRouter (credentialled "/a" "key") ["a".toList] 0 1 :=
    ⟨_, _, _, ⟨rfl, rfl, _, _, rfl, rfl, rfl, rfl⟩, rfl, by decide⟩
  have hrun : (serve countingExternals limitedRouter (credentialled "/b" "a") ⟨[], []⟩) =
      some ⟨["a".toList], [credentialled "/b" "a"]⟩ :=
    congrArg (fun rate => some (Window.mk rate [credentialled "/b" "a"])) (by decide)
  refine ⟨⟨["a".toList], [credentialled "/b" "a"]⟩, .cons trivial hrun (.nil _), hrej, by decide, ?_⟩
  intro hfair
  have := hfair.global 0 1 hrej
  exact absurd this (by decide)

end Glaive.Proxy
