/-
  Glaive.Service.ResponseChannel — from `handle_upstream` to the client: what is sent on
  the response channel when both loops return `Ok(())` has been handed on.

  A read of the client that fails, or that comes to `Task::Done`, ends the response on
  the client's side before it is written; `handle_downstream` still returns `Ok(())`.
  `delivered_iff`: in the runs that end well this is all that loses a task.
-/

import Glaive.Service.RequestChannel

namespace Glaive.Service

open Glaive.Lib
open Glaive.Session

variable {crates : Crates}

/-! ## Tasks of a response -/

/-- None of the tasks ends the response. -/
def NoEnd (ts : List Task) : Prop := ∀ t ∈ ts, t.isEnd = false

/-- The last of the tasks, and no other, ends the response. -/
def Ended (ts : List Task) : Prop := ∃ init last, ts = init ++ [last] ∧ NoEnd init ∧ last.isEnd = true

/-- They end the response, and not with a failure. -/
def Complete (ts : List Task) : Prop := Ended ts ∧ ∀ t ∈ ts, t.isFailed = false

theorem noEnd_append {ts ts' : List Task} : NoEnd (ts ++ ts') ↔ NoEnd ts ∧ NoEnd ts' := List.forall_mem_append

theorem noEnd_singleton {t : Task} : NoEnd [t] ↔ t.isEnd = false := by simp [NoEnd]

theorem Ended.not_noEnd {ts : List Task} (h : Ended ts) : ¬ NoEnd ts := by
  obtain ⟨init, last, rfl, -, hl⟩ := h
  intro hn
  have := hn last (List.mem_append_right _ (List.mem_cons_self ..))
  simp [hl] at this

theorem NoEnd.snoc {ts : List Task} (h : NoEnd ts) (t : Task) :
    NoEnd (ts ++ [t]) ∧ t.isEnd = false ∨ Ended (ts ++ [t]) ∧ t.isEnd = true := by
  cases ht : t.isEnd with
  | false => exact Or.inl ⟨noEnd_append.mpr ⟨h, noEnd_singleton.mpr ht⟩, rfl⟩
  | true => exact Or.inr ⟨⟨ts, t, rfl, h, ht⟩, rfl⟩

theorem NoEnd.not_failed {ts : List Task} (h : NoEnd ts) : ∀ t ∈ ts, t.isFailed = false := by
  intro t ht
  have := h t ht
  cases t with
  | failed e => cases this
  | _ => rfl

theorem lastEnd_snoc (e : Bool) (ts : List Task) (t : Task) : lastEnd e (ts ++ [t]) = t.isEnd := by
  simp [lastEnd]

/-- Nothing follows the end. -/
theorem Ended.of_append {ts rest : List Task} (h : Ended ts) (h' : Ended (ts ++ rest)) : rest = [] := by
  rcases List.eq_nil_or_concat' rest with rfl | ⟨rest, t, rfl⟩
  · rfl
  · obtain ⟨init, last, he, hn, -⟩ := h'
    rw [← List.append_assoc] at he
    obtain ⟨rfl, -⟩ := List.append_inj' he rfl
    exact absurd (noEnd_append.mp hn).1 h.not_noEnd

/-- A batch from the front of the tasks not handed on yet ends the response or does not,
    as its last task does. -/
theorem NoEnd.batch {ts batch rest : List Task} (h : NoEnd ts) (hne : batch ≠ [])
    (hs : NoEnd (ts ++ (batch ++ rest)) ∨ Ended (ts ++ (batch ++ rest))) :
    NoEnd (ts ++ batch) ∧ lastEnd false batch = false ∨ Ended (ts ++ batch) ∧ lastEnd false batch = true := by
  obtain ⟨batch, t, rfl⟩ := (List.eq_nil_or_concat' batch).resolve_left hne
  have hbatch : NoEnd batch := by
    rcases hs with hs | ⟨init, last, he, hn, -⟩
    · exact (noEnd_append.mp (noEnd_append.mp (noEnd_append.mp hs).2).1).1
    · rcases List.eq_nil_or_concat' rest with rfl | ⟨rest, t', rfl⟩
      · rw [List.append_nil, ← List.append_assoc] at he
        obtain ⟨rfl, -⟩ := List.append_inj' he rfl
        exact (noEnd_append.mp hn).2
      · rw [← List.append_assoc, ← List.append_assoc] at he
        obtain ⟨rfl, -⟩ := List.append_inj' he rfl
        exact (noEnd_append.mp (noEnd_append.mp (noEnd_append.mp hn).1).2).1
  rw [lastEnd_snoc, ← List.append_assoc]
  exact (noEnd_append.mpr ⟨h, hbatch⟩).snoc t

/-! ## The invariant -/

/-- What `handle_upstream` has sent, by where it is. -/
def UpLoop.Sends (l : UpLoop) (sent : List Task) : Prop :=
  match l.place with
  | .sending t => NoEnd sent ∧ l.responseDone = t.isEnd
  | .failing _ => NoEnd sent
  | .returned => Ended sent
  | _ => NoEnd sent ∧ l.responseDone = false ∨ Ended sent ∧ l.responseDone = true

/-- What `handle_downstream` has handed on, by where it is. -/
def DownLoop.Hands (l : DownLoop) (handed : List Task) : Prop :=
  match l.place with
  | .failing _ => False
  | .returned => Complete handed
  | _ => NoEnd handed ∧ l.responseDone = false ∨ Complete handed ∧ l.responseDone = true ∧ l.requestDone = true

theorem UpLoop.Sends.cases {l : UpLoop} {sent : List Task} (h : l.Sends sent) : NoEnd sent ∨ Ended sent := by
  unfold UpLoop.Sends at h
  split at h
  · exact Or.inl h.1
  · exact Or.inl h
  · exact Or.inr h
  · exact h.imp And.left And.left

namespace Duplex

structure Delivering (x : Duplex) : Prop where
  queued : x.sent = x.handed ++ x.responses
  up : x.up.Sends x.sent
  down : x.down.Hands x.handed

/-- A read of the client goes on: it neither fails nor comes to `Task::Done`. -/
def goesOn : Out Task → Bool
  | .err _ => false
  | .ok .done => false
  | _ => true

def ReadsOn (crates : Crates) (e : Event) (x : Duplex) : Prop :=
  e = .downRead → goesOn (Downstream.readDownstreamRequest crates x.down.session).1 = true

instance (e : Event) (x : Duplex) : Decidable (ReadsOn crates e x) := inferInstanceAs (Decidable (_ → _))

/-- All that was sent was handed on, and it ends the response. -/
def Delivered (x : Duplex) : Prop := x.handed = x.sent ∧ Complete x.sent

theorem delivering_new (d : Downstream) (u : Upstream) : (Duplex.new d u).Delivering :=
  ⟨rfl, Or.inl ⟨by simp [NoEnd, Duplex.new], rfl⟩, Or.inl ⟨by simp [NoEnd, Duplex.new], rfl⟩⟩

variable {x x' : Duplex}

/-- While the client's side is at work, it has handed on no end or is done with both. -/
theorem Delivering.hands (hx : x.Delivering) {permit : Bool} (hp : x.down.place = .select permit) :
    NoEnd x.handed ∧ x.down.responseDone = false ∨
      Complete x.handed ∧ x.down.responseDone = true ∧ x.down.requestDone = true := by
  have := hx.down
  unfold DownLoop.Hands at this
  rwa [hp] at this

theorem Delivering.down_step (hx : x.Delivering) {e : Event} (hp : ReadsOn crates e x) (h : DownMoves crates x e x')
    (hs : x'.stopped = none) : x'.Delivering := by
  have hdown := hx.down
  cases h with
  | begin hplace => exact ⟨hx.queued, hx.up, by rw [DownLoop.Hands, hplace] at hdown; exact hdown⟩
  | beginClosed => cases hs
  | beginRetry buffer hplace => exact ⟨hx.queued, hx.up, by rw [DownLoop.Hands, hplace] at hdown; exact hdown⟩
  | finish hplace hreq hresp =>
    refine ⟨hx.queued, hx.up, ?_⟩
    rw [DownLoop.Hands, hplace] at hdown
    rcases hdown with ⟨-, hf⟩ | ⟨hc, -⟩
    · exact absurd (hf.symm.trans hresp) (by simp)
    · exact hc
  | select permit hplace => exact ⟨hx.queued, hx.up, by rw [DownLoop.Hands, hplace] at hdown; exact hdown⟩
  | readBody b e d hplace hreq hread =>
    refine ⟨hx.queued, hx.up, ?_⟩
    rcases hx.hands hplace with hn | ⟨-, -, hr⟩
    · exact Or.inl hn
    · exact absurd (hreq.symm.trans hr) (by simp)
  | readDone d hplace hreq hread =>
    have := hp rfl
    rw [hread] at this; cases this
  | readFails err d hplace hreq hread =>
    have := hp rfl
    rw [hread] at this; cases this
  | readPanics => cases hs
  | failClosed err hplace => rw [DownLoop.Hands, hplace] at hdown; exact hdown.elim
  | fail err hplace => rw [DownLoop.Hands, hplace] at hdown; exact hdown.elim
  | write permit drop more d d' e hplace hresp hmore hdrop hwrite =>
    have hne := take_ne_nil hmore
    have hn : NoEnd x.handed := by
      rcases hx.hands hplace with ⟨hn, -⟩ | ⟨-, hr, -⟩
      · exact hn
      · exact absurd (hresp.symm.trans hr) (by simp)
    have hq : x.sent = x.handed ++ (x.responses.take (more + 1) ++ x.responses.drop (more + 1)) := by
      rw [List.take_append_drop]; exact hx.queued
    obtain ⟨rfl, hnf⟩ := Downstream.writeDownstreamResponse_ok hne hwrite
    refine ⟨hq.trans (List.append_assoc ..).symm, hx.up, ?_⟩
    rcases hn.batch hne (hq ▸ hx.up.cases) with ⟨h1, h2⟩ | ⟨h1, h2⟩
    · exact Or.inl ⟨h1, h2⟩
    · exact Or.inr ⟨⟨h1, List.forall_mem_append.mpr ⟨hn.not_failed, hnf⟩⟩, h2, h2⟩
  | writeStops => cases hs
  | closed permit drop d hplace hresp hnil hret =>
    -- the end was sent and is not in the channel, so it was handed on
    exfalso
    have hq := hx.queued
    rw [hnil, List.append_nil] at hq
    have hup := hx.up
    unfold UpLoop.Sends at hup
    cases hpl : x.up.place with
    | returned =>
      rw [hpl, hq] at hup
      rcases hx.hands hplace with ⟨hn, -⟩ | ⟨-, hr, -⟩
      · exact hup.not_noEnd hn
      · exact absurd (hresp.symm.trans hr) (by simp)
    | _ => rw [hpl] at hret; cases hret
  | idle permit hplace hresp =>
    refine ⟨hx.queued, hx.up, ?_⟩
    rcases hx.hands hplace with ⟨-, hf⟩ | ⟨hc, -⟩
    · exact absurd (hf.symm.trans hresp) (by simp)
    · exact hc

/-- The client's side does not return before the end was sent. -/
theorem Delivering.not_returned (hx : x.Delivering) (hn : NoEnd x.sent) : x.down.place ≠ .returned := by
  intro hp
  have hdown := hx.down
  rw [DownLoop.Hands, hp] at hdown
  rw [hx.queued] at hn
  exact hdown.1.not_noEnd (noEnd_append.mp hn).1

theorem Delivering.up_step (hx : x.Delivering) {e : Event} (h : UpMoves crates x e x') (hs : x'.stopped = none) :
    x'.Delivering := by
  have hup := hx.up
  cases h with
  | finish hplace hreq hresp =>
    refine ⟨hx.queued, ?_, hx.down⟩
    rw [UpLoop.Sends, hplace] at hup
    rcases hup with ⟨-, hf⟩ | ⟨he, -⟩
    · exact absurd (hf.symm.trans hresp) (by simp)
    · exact he
  | select hplace => exact ⟨hx.queued, by rw [UpLoop.Sends, hplace] at hup; exact hup, hx.down⟩
  | read t u hplace hresp hread =>
    refine ⟨hx.queued, ?_, hx.down⟩
    rw [UpLoop.Sends, hplace] at hup
    rcases hup with ⟨hn, -⟩ | ⟨-, ht⟩
    · exact ⟨hn, rfl⟩
    · exact absurd (hresp.symm.trans ht) (by simp)
  | readFails err u hplace hresp hread =>
    refine ⟨hx.queued, ?_, hx.down⟩
    rw [UpLoop.Sends, hplace] at hup
    rcases hup with ⟨hn, -⟩ | ⟨-, ht⟩
    · exact hn
    · exact absurd (hresp.symm.trans ht) (by simp)
  | readPanics => cases hs
  | sendClosed t hplace hret =>
    rw [UpLoop.Sends, hplace] at hup
    exact absurd hret (hx.not_returned hup.1)
  | sendStops => cases hs
  | send t hplace =>
    rw [UpLoop.Sends, hplace] at hup
    refine ⟨?_, ?_, hx.down⟩
    · show x.sent ++ [t] = x.handed ++ (x.responses ++ [t])
      rw [hx.queued, List.append_assoc]
    · rcases hup.1.snoc t with ⟨h1, h2⟩ | ⟨h1, h2⟩
      · exact Or.inl ⟨h1, hup.2.trans h2⟩
      · exact Or.inr ⟨h1, hup.2.trans h2⟩
  | failClosed err hplace hret =>
    rw [UpLoop.Sends, hplace] at hup
    exact absurd hret (hx.not_returned hup)
  | fail err hplace =>
    rw [UpLoop.Sends, hplace] at hup
    refine ⟨?_, ⟨_, _, rfl, hup, rfl⟩, hx.down⟩
    show x.sent ++ [.failed err] = x.handed ++ (x.responses ++ [.failed err])
    rw [hx.queued, List.append_assoc]
  | write drop t rest u u' e hplace =>
    exact ⟨hx.queued, by rw [UpLoop.Sends, hplace] at hup; exact hup, hx.down⟩
  | writeStops => cases hs
  | closed drop u hplace => exact ⟨hx.queued, by rw [UpLoop.Sends, hplace] at hup; exact hup, hx.down⟩

theorem Delivering.step (hx : x.Delivering) {e : Event} (hp : ReadsOn crates e x) (h : step crates e x = some x')
    (hs : x'.stopped = none) : x'.Delivering := by
  rcases (step_moves h).2 with hd | hu
  · exact hx.down_step hp hd hs
  · exact hx.up_step hu hs

theorem isOk_iff : x.isOk = true ↔ x.stopped = none ∧ x.down.place = .returned ∧ x.up.place = .returned := by
  unfold isOk UpAt.isReturned
  cases x.stopped <;> cases x.up.place <;> simp

theorem Delivering.delivered (hx : x.Delivering) (hok : x.isOk = true) : x.Delivered := by
  obtain ⟨-, hdown, hup⟩ := isOk_iff.mp hok
  have h1 := hx.down
  rw [DownLoop.Hands, hdown] at h1
  have h2 := hx.up
  rw [UpLoop.Sends, hup] at h2
  have hnil : x.responses = [] := h1.1.of_append (hx.queued ▸ h2)
  have hq := hx.queued
  rw [hnil, List.append_nil] at hq
  exact ⟨hq.symm, hq ▸ h1⟩

/-! ## A response cut off -/

/-- The client's side hands nothing more on, and has handed on no end. -/
structure CutOff (x : Duplex) : Prop where
  handed : NoEnd x.handed
  ended : x.down.place = .returned ∨ (∃ e, x.down.place = .failing e) ∨ x.down.responseDone = true

theorem Delivering.cutOff (hx : x.Delivering) {e : Event} (hp : ¬ ReadsOn crates e x)
    (h : Duplex.step crates e x = some x') (hs : x'.stopped = none) : x'.CutOff := by
  have he : e = .downRead := by
    by_contra hne
    exact hp fun he => absurd he hne
  subst he
  have hsel : ∀ {permit}, x.down.place = .select permit → x.down.requestDone = false → NoEnd x.handed := by
    intro permit hplace hreq
    rcases hx.hands hplace with ⟨hn, -⟩ | ⟨-, -, hr⟩
    · exact hn
    · exact absurd (hreq.symm.trans hr) (by simp)
  rcases (step_moves h).2 with hd | hu
  · cases hd with
    | readBody b e d hplace hreq hread => exact absurd (fun _ => by rw [hread]; rfl) hp
    | readDone d hplace hreq hread => exact ⟨hsel hplace hreq, Or.inr (Or.inr rfl)⟩
    | readFails err d hplace hreq hread => exact ⟨hsel hplace hreq, Or.inr (Or.inl ⟨err, rfl⟩)⟩
    | readPanics => cases hs
  · cases hu

theorem CutOff.responseDone (hx : x.CutOff) (h1 : x.down.place ≠ .returned) (h2 : ∀ e, x.down.place ≠ .failing e) :
    x.down.responseDone = true := by
  rcases hx.ended with h | ⟨e, h⟩ | h
  · exact absurd h h1
  · exact absurd h (h2 e)
  · exact h

theorem CutOff.step (hx : x.CutOff) {e : Event} (h : Duplex.step crates e x = some x') (hs : x'.stopped = none) :
    x'.CutOff := by
  have hdone : ∀ {p : DownAt}, x.down.place = p → p ≠ .returned → (∀ e, p ≠ .failing e) →
      x.down.responseDone = true := by
    intro p hp h1 h2
    exact hx.responseDone (hp ▸ h1) (hp ▸ h2)
  rcases (step_moves h).2 with hd | hu
  · cases hd with
    | begin hp => exact ⟨hx.handed, Or.inr (Or.inr (hdone hp (by simp) (by simp)))⟩
    | beginClosed => cases hs
    | beginRetry buffer hp => exact ⟨hx.handed, Or.inr (Or.inr (hdone hp (by simp) (by simp)))⟩
    | finish => exact ⟨hx.handed, Or.inl rfl⟩
    | select permit hp => exact ⟨hx.handed, Or.inr (Or.inr (hdone hp (by simp) (by simp)))⟩
    | readBody b e d hp => exact ⟨hx.handed, Or.inr (Or.inr (hdone hp (by simp) (by simp)))⟩
    | readDone => exact ⟨hx.handed, Or.inr (Or.inr rfl)⟩
    | readFails err => exact ⟨hx.handed, Or.inr (Or.inl ⟨err, rfl⟩)⟩
    | readPanics => cases hs
    | failClosed => exact ⟨hx.handed, Or.inl rfl⟩
    | fail => exact ⟨hx.handed, Or.inl rfl⟩
    | write permit drop more d d' e hp hresp =>
      exact absurd (hresp.symm.trans (hdone hp (by simp) (by simp))) (by simp)
    | writeStops => cases hs
    | closed permit drop d hp hresp => exact absurd (hresp.symm.trans (hdone hp (by simp) (by simp))) (by simp)
    | idle => exact ⟨hx.handed, Or.inl rfl⟩
  · cases hu <;> exact ⟨hx.handed, hx.ended⟩

/-- A run keeps what its steps keep until one stops both loops. -/
theorem run_unstopped {P : Event → Duplex → Prop} {I : Duplex → Prop} {evs : List Event}
    (hstep : ∀ e x x', I x → P e x → Duplex.step crates e x = some x' → x'.stopped = none → I x') (hx : I x)
    (h : Run (Duplex.step crates) P x evs x') (hs : x'.stopped = none) : I x' := by
  have hkeep : ∀ e s t, (s.stopped = none → I s) → P e s → Duplex.step crates e s = some t → t.stopped = none → I t :=
    fun e s t hi hp ht => hstep e s t (hi (step_moves ht).1) hp ht
  exact h.invariant (fun e s t => hkeep e s t) (fun _ => hx) hs

/-- A run either reads on at each step, or one of its reads cuts the response off. -/
theorem readsOn_or_cutOff {P : Event → Duplex → Prop} {evs : List Event} (h : Run (Duplex.step crates) P x evs x')
    (hs : x'.stopped = none) : x.Delivering → Run (Duplex.step crates) (ReadsOn crates) x evs x' ∨ x'.CutOff := by
  induction h with
  | nil => exact fun _ => Or.inl (.nil _)
  | @cons s t u e evs hp ht hrest ih =>
    intro hx
    have hst : t.stopped = none := by
      cases hrest with
      | nil => exact hs
      | cons _ h' _ => exact (step_moves h').1
    by_cases hr : ReadsOn crates e s
    · exact (ih hs (hx.step hr ht hst)).imp (.cons hr ht) id
    · exact Or.inr (run_unstopped (fun _ _ _ hc _ => hc.step) (hx.cutOff hr ht hst) hrest hs)

/-- In a run that ends well, all that was sent was handed on exactly when no read of the
    client failed or came to `Task::Done`. -/
theorem delivered_iff (crates : Crates) (d : Downstream) (u : Upstream) (evs : List Event) (x : Duplex)
    (h : Run (Duplex.step crates) (fun _ _ => True) (.new d u) evs x) (hok : x.isOk = true) :
    x.Delivered ↔ Run (Duplex.step crates) (ReadsOn crates) (.new d u) evs x := by
  have hs := (isOk_iff.mp hok).1
  constructor
  · intro hd
    rcases readsOn_or_cutOff h hs (delivering_new d u) with hr | hc
    · exact hr
    · exact absurd (hd.1 ▸ hc.handed) hd.2.1.not_noEnd
  · intro hr
    exact (run_unstopped (fun _ _ _ hx => hx.step) (delivering_new d u) hr hs).delivered hok

end Duplex

/-- The response is all read and written before the client's side is looked at again. -/
def answersFirst : List Event :=
  [.downStart, .downTurn, .upTurn, .upRead, .upSend, .upTurn, .downWrite none 0, .downTurn]

theorem delivered_answersFirst :
    ∃ x, x.isOk = true ∧ (x.Delivered ↔ Run (Duplex.step getCrates) (Duplex.ReadsOn getCrates)
      (closedDuplex [.data noContentHead.1]) answersFirst x) := by
  have h := run_get (Duplex.step getCrates) (fun _ _ => True) answersFirst (closedDuplex [.data noContentHead.1])
    (by decide)
  exact ⟨_, by decide, Duplex.delivered_iff getCrates _ _ answersFirst _ h (by decide)⟩

/-- The client closed its side: success, and the head never handed on. -/
theorem undelivered_failsLate :
    (closedExchange [.data noContentHead.1]).1 = .ok () ∧
    ∃ x, Run (Duplex.step getCrates) (fun _ _ => True) (closedDuplex [.data noContentHead.1]) failsLate x ∧
      x.isOk = true ∧ x.sent.length = 1 ∧ x.handed = [] ∧ ¬ x.Delivered := by
  have h := run_get (Duplex.step getCrates) (fun _ _ => True) failsLate (closedDuplex [.data noContentHead.1])
    (by decide)
  refine ⟨by decide, _, h, by decide, rfl, rfl, fun hd => ?_⟩
  exact absurd (congrArg List.length hd.1) (by decide)

end Glaive.Service
