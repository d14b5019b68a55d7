/-
  Glaive.Proxy.Retries — the connection failures of one request (`glaive/src/proxy.rs`:
  `fail_to_connect`).

  The context counts the failures that were marked for a retry. The count is compared with
  the limit before it goes up, and with `>`: at the limit it goes up once more. So of any
  number of failures one more than the limit are marked, when there are as many
  (`retries_bounded_iff`).
-/

import Glaive.Proxy.RequestFilter
import Glaive.Lib.Runs

namespace Glaive.Proxy

open Glaive.Lib

variable {E : Type}

/-- `pingora::Error`, with what it says of a retry. -/
structure PingoraError (E : Type) where
  cause : E
  retry : Bool

/-- The error of a connection that was not made: nobody has decided to retry yet. -/
def PingoraError.new (cause : E) : PingoraError E := ⟨cause, false⟩

def getRetry (cluster : ClusterMetadata) : Option Nat := cluster.retry

def failToConnect (router : ProxyRouter) (e : PingoraError E) : Async RouterCtx (PingoraError E) := do
  let ctx ← Async.get
  match router.clusters[ctx.clusterAddress]? with
  | none => Async.stop (.panic "index out of bounds")
  | some cluster =>
    let maxTry := (getRetry cluster).getD 1
    if maxTry < ctx.proxyRetry then return e
    else
      match uadd ctx.proxyRetry 1 with
      | none => Async.stop (.panic "attempt to add with overflow")
      | some proxyRetry =>
        Async.modify fun ctx => { ctx with proxyRetry := proxyRetry }
        return { e with retry := true }

/-! ## A run of failures -/

/-- A request on its way to an upstream, with the answers to its failures. -/
structure Connecting (E : Type) where
  ctx : RouterCtx
  answers : List (PingoraError E)

namespace Connecting

/-- Another connection is not made. -/
def step (router : ProxyRouter) (cause : E) (s : Connecting E) : Option (Connecting E) :=
  match failToConnect router (.new cause) s.ctx with
  | (.ok e, ctx) => some ⟨ctx, s.answers ++ [e]⟩
  | _ => none

def marked (s : Connecting E) : Nat := s.answers.countP (·.retry)

/-- The connections that are tried: the first, and one for each failure that is marked. -/
def attempts (s : Connecting E) : Nat := s.marked + 1

end Connecting

open Connecting

/-- A failure is answered by what was counted of the ones before, unless the count runs
    over. -/
theorem failToConnect_cases {router : ProxyRouter} {cluster : ClusterMetadata} {ctx : RouterCtx}
    (hc : router.clusters[ctx.clusterAddress]? = some cluster) (e : PingoraError E) :
    (cluster.retry.getD 1 < ctx.proxyRetry ∧ failToConnect router e ctx = (.ok e, ctx)) ∨
      (ctx.proxyRetry ≤ cluster.retry.getD 1 ∧ failToConnect router e ctx =
        (.ok { e with retry := true }, { ctx with proxyRetry := ctx.proxyRetry + 1 })) ∨
      failToConnect router e ctx = (.panic "attempt to add with overflow", ctx) := by
  unfold failToConnect getRetry
  rw [Async.get_bind_apply, hc]
  simp only
  by_cases hmax : cluster.retry.getD 1 < ctx.proxyRetry
  · rw [if_pos hmax]
    exact .inl ⟨hmax, rfl⟩
  · rw [if_neg hmax]
    cases ha : uadd ctx.proxyRetry 1 with
    | none => exact .inr (.inr rfl)
    | some n =>
      obtain ⟨rfl, -⟩ := uadd_eq_some ha
      exact .inr (.inl ⟨Nat.le_of_not_lt hmax, rfl⟩)

theorem failToConnect_ok {router : ProxyRouter} {cluster : ClusterMetadata} {ctx ctx' : RouterCtx}
    {e e' : PingoraError E} (hc : router.clusters[ctx.clusterAddress]? = some cluster)
    (h : failToConnect router e ctx = (.ok e', ctx')) :
    (cluster.retry.getD 1 < ctx.proxyRetry ∧ e' = e ∧ ctx' = ctx) ∨
      (ctx.proxyRetry ≤ cluster.retry.getD 1 ∧ e' = { e with retry := true } ∧
        ctx' = { ctx with proxyRetry := ctx.proxyRetry + 1 }) := by
  rcases failToConnect_cases hc e with ⟨hlt, hx⟩ | ⟨hle, hx⟩ | hx
  · cases hx.symm.trans h
    exact .inl ⟨hlt, rfl, rfl⟩
  · cases hx.symm.trans h
    exact .inr ⟨hle, rfl, rfl⟩
  · cases hx.symm.trans h

/-- What is known after some failures, of a cluster that allows `limit` retries. -/
structure Tried (router : ProxyRouter) (cluster : ClusterMetadata) (s : Connecting E) (failures : Nat) : Prop where
  chosen : router.clusters[s.ctx.clusterAddress]? = some cluster
  marked : s.marked = s.ctx.proxyRetry
  count : s.ctx.proxyRetry = min failures (cluster.retry.getD 1 + 1)

theorem tried_step {router : ProxyRouter} {cluster : ClusterMetadata} {s t : Connecting E} {failures : Nat} {cause : E}
    (h : Tried router cluster s failures) (hs : step router cause s = some t) :
    Tried router cluster t (failures + 1) := by
  obtain ⟨hc, hmarked, hcount⟩ := h
  unfold Connecting.step at hs
  split at hs
  · rename_i e ctx he
    cases hs
    rcases failToConnect_ok hc he with ⟨hlt, rfl, rfl⟩ | ⟨hle, rfl, rfl⟩
    · refine ⟨hc, ?_, by show s.ctx.proxyRetry = _; omega⟩
      show List.countP _ (s.answers ++ _) = _
      rw [List.countP_append, ← hmarked]
      rfl
    · refine ⟨hc, ?_, by show s.ctx.proxyRetry + 1 = _; omega⟩
      show List.countP _ (s.answers ++ _) = s.ctx.proxyRetry + 1
      rw [List.countP_append, ← hmarked]
      rfl
  · cases hs

theorem tried_run {router : ProxyRouter} {cluster : ClusterMetadata} {s t : Connecting E} {causes : List E}
    (h : Run (step router) (fun _ _ => True) s causes t) : ∀ {failures : Nat}, Tried router cluster s failures →
    Tried router cluster t (failures + causes.length) := by
  induction h with
  | nil s => exact id
  | @cons s t u cause causes _ hs _ ih =>
    intro failures hcount
    rw [List.length_cons, Nat.add_comm causes.length, ← Nat.add_assoc]
    exact ih (tried_step hcount hs)

/-- Of the failures of a request that the filter lets through, the limit of its cluster
    bounds those marked, and the connections tried, just if there are no more failures. -/
theorem retries_bounded_iff {R : Type} (ex : Externals R) (router : ProxyRouter) (session : Session) (rate : R)
    (f : Filter R) (hf : requestFilter ex router ⟨session, newCtx, rate⟩ = (.ok false, f)) (causes : List E)
    (s : Connecting E) (h : Run (step router) (fun _ _ => True) ⟨f.ctx, []⟩ causes s) :
    ∃ cluster, router.clusters[f.ctx.clusterAddress]? = some cluster ∧
      s.marked = min causes.length (cluster.retry.getD 1 + 1) ∧
      (s.marked ≤ cluster.retry.getD 1 ∧ s.attempts ≤ cluster.retry.getD 1 + 1 ↔
        causes.length ≤ cluster.retry.getD 1) := by
  obtain ⟨_, cluster, -, haddress, hc, -, hretry, -⟩ := requestFilter_chosen hf
  rw [← haddress] at hc
  have hstart : Tried router cluster (⟨f.ctx, []⟩ : Connecting E) 0 := ⟨hc, hretry.symm, by simp [hretry]⟩
  obtain ⟨-, hmarked, hcount⟩ := tried_run h hstart
  rw [Nat.zero_add] at hcount
  refine ⟨cluster, hc, hmarked.trans hcount, ?_⟩
  unfold attempts
  omega

/-! ## A cluster without a limit of its own -/

/-- What the filter leaves of a request for `/a`. -/
def forwarded : Filter Unit :=
  (requestFilter plainExternals listedRouter ⟨requestFrom "10.0.0.1" HeaderMap.empty, newCtx, ()⟩).2

theorem requestFilter_forwarded :
    requestFilter plainExternals listedRouter ⟨requestFrom "10.0.0.1" HeaderMap.empty, newCtx, ()⟩ =
      (.ok false, forwarded) :=
  Prod.ext (show (requestFilter plainExternals listedRouter
    ⟨requestFrom "10.0.0.1" HeaderMap.empty, newCtx, ()⟩).1 = .ok false by decide) rfl

/-- That request after a failure for each of `causes`. -/
def afterFailures (causes : List Unit) : Option (Connecting Unit) :=
  stepAll (step listedRouter) (fun _ _ => True) causes ⟨forwarded.ctx, []⟩

theorem retries_bounded_iff_once :
    ∃ cluster, listedRouter.clusters[forwarded.ctx.clusterAddress]? = some cluster ∧
      ((afterFailures [()]).get (by rfl)).marked = min 1 (cluster.retry.getD 1 + 1) ∧
      (((afterFailures [()]).get (by rfl)).marked ≤ cluster.retry.getD 1 ∧
          ((afterFailures [()]).get (by rfl)).attempts ≤ cluster.retry.getD 1 + 1 ↔
        1 ≤ cluster.retry.getD 1) :=
  retries_bounded_iff plainExternals listedRouter (requestFrom "10.0.0.1" HeaderMap.empty) () forwarded
    requestFilter_forwarded [()] _ (run_get _ _ _ _ (by rfl))

/-- With no limit configured, which is taken as 1, two of two failures are marked, and the
    request is tried a third time. -/
theorem retries_not_bounded :
    ∃ f s, requestFilter plainExternals listedRouter ⟨requestFrom "10.0.0.1" HeaderMap.empty, newCtx, ()⟩ =
        (.ok false, f) ∧ Run (step listedRouter) (fun _ _ => True) ⟨f.ctx, []⟩ [(), ()] s ∧
      listedRouter.clusters[f.ctx.clusterAddress]? = some listedOnly ∧ listedOnly.retry.getD 1 = 1 ∧
      ¬ s.marked ≤ 1 ∧ ¬ s.attempts ≤ 2 :=
  ⟨forwarded, (afterFailures [(), ()]).get (by rfl), requestFilter_forwarded, run_get _ _ _ _ (by rfl), rfl, rfl,
    by decide, by decide⟩

end Glaive.Proxy
