/-
  Glaive.Service.DuplexSteps — all that an event of `Glaive.Service.Duplex` can do, each
  outcome with its guards. What every run keeps is shown over these.
-/

import Glaive.Service.Duplex

namespace Glaive.Service

open Glaive.Lib
open Glaive.Session

variable {crates : Crates}

/-- A batch of tasks is not empty. -/
theorem take_ne_nil {ts : List Task} {more : Nat} (h : more < ts.length) : ts.take (more + 1) ≠ [] := by
  intro hnil
  have := congrArg List.length hnil
  simp only [List.length_take, List.length_nil] at this
  omega

/-- The outcomes of `handle_downstream`'s events. -/
inductive DownMoves (crates : Crates) (x : Duplex) : Event → Duplex → Prop
  | begin : x.down.place = .start → x.down.session.getRetryBuffer = none →
      DownMoves crates x .downStart { x with down.place := .turn }
  | beginClosed : x.down.place = .start →
      DownMoves crates x .downStart { x with stopped := some (.err channelClosed) }
  | beginRetry (buffer : Bytes) : x.down.place = .start → x.down.session.getRetryBuffer = some buffer →
      DownMoves crates x .downStart
        { x with requests := x.requests ++ [.body (some buffer) x.down.requestDone], down.place := .turn }
  | finish : x.down.place = .turn → x.down.requestDone = true → x.down.responseDone = true →
      DownMoves crates x .downTurn { x with down.place := .returned }
  | select (permit : Bool) : x.down.place = .turn → ¬ (x.down.requestDone = true ∧ x.down.responseDone = true) →
      (permit = true → x.up.place.isReturned = false) →
      DownMoves crates x .downTurn { x with down.place := .select permit }
  | readBody (b : Option Bytes) (e : Bool) (d : Downstream) : x.down.place = .select true →
      x.down.requestDone = false →
      Downstream.readDownstreamRequest crates x.down.session = (.ok (.body b e), d) →
      DownMoves crates x .downRead
        { x with requests := x.requests ++ [.body b e], down := ⟨d, e, x.down.responseDone, .turn⟩ }
  | readDone (d : Downstream) : x.down.place = .select true → x.down.requestDone = false →
      Downstream.readDownstreamRequest crates x.down.session = (.ok .done, d) →
      DownMoves crates x .downRead { x with down := ⟨d, x.down.requestDone, true, .turn⟩ }
  | readFails (e : IoError) (d : Downstream) : x.down.place = .select true → x.down.requestDone = false →
      Downstream.readDownstreamRequest crates x.down.session = (.err e, d) →
      DownMoves crates x .downRead { x with down := ⟨d, x.down.requestDone, x.down.responseDone, .failing e⟩ }
  | readPanics (t : String) (d : Downstream) :
      DownMoves crates x .downRead { x with down.session := d, stopped := some (.panic t) }
  | failClosed (e : IoError) : x.down.place = .failing e → x.up.place.isReturned = true →
      DownMoves crates x .downFail { x with down.place := .returned }
  | fail (e : IoError) : x.down.place = .failing e → x.up.place.isReturned = false →
      DownMoves crates x .downFail { x with requests := x.requests ++ [.failed e], down.place := .returned }
  | write (permit : Bool) (drop : Option Nat) (more : Nat) (d d' : Downstream) (e : Bool) :
      x.down.place = .select permit → x.down.responseDone = false → more < x.responses.length →
      x.down.dropped crates permit drop = some d →
      Downstream.writeDownstreamResponse crates (x.responses.take (more + 1)) d = (.ok e, d') →
      DownMoves crates x (.downWrite drop more)
        { x with responses := x.responses.drop (more + 1), handed := x.handed ++ x.responses.take (more + 1),
                 down := ⟨d', e, e, .turn⟩ }
  | writeStops (drop : Option Nat) (more : Nat) (d : Downstream) (o : Out Unit) :
      DownMoves crates x (.downWrite drop more)
        { x with responses := x.responses.drop (more + 1), handed := x.handed ++ x.responses.take (more + 1),
                 down.session := d, stopped := some o }
  | closed (permit : Bool) (drop : Option Nat) (d : Downstream) : x.down.place = .select permit →
      x.down.responseDone = false → x.responses = [] → x.up.place.isReturned = true →
      x.down.dropped crates permit drop = some d →
      DownMoves crates x (.downClosed drop) { x with down := ⟨d, x.down.requestDone, true, .turn⟩ }
  | idle (permit : Bool) : x.down.place = .select permit → x.down.responseDone = true →
      DownMoves crates x .downElse { x with down.place := .returned }

/-- The outcomes of `handle_upstream`'s events. -/
inductive UpMoves (crates : Crates) (x : Duplex) : Event → Duplex → Prop
  | finish : x.up.place = .turn → x.up.requestDone = true → x.up.responseDone = true →
      UpMoves crates x .upTurn { x with up.place := .returned }
  | select : x.up.place = .turn → UpMoves crates x .upTurn { x with up.place := .select }
  | read (t : Task) (u : Upstream) : x.up.place = .select → x.up.responseDone = false →
      Upstream.readUpstreamResponse crates x.up.session = (.ok t, u) →
      UpMoves crates x .upRead { x with up := ⟨u, t.isEnd, t.isEnd, .sending t⟩ }
  | readFails (e : IoError) (u : Upstream) : x.up.place = .select → x.up.responseDone = false →
      Upstream.readUpstreamResponse crates x.up.session = (.err e, u) →
      UpMoves crates x .upRead { x with up := ⟨u, x.up.requestDone, x.up.responseDone, .failing e⟩ }
  | readPanics (t : String) (u : Upstream) :
      UpMoves crates x .upRead { x with up.session := u, stopped := some (.panic t) }
  | sendClosed (t : Task) : x.up.place = .sending t → x.down.place = .returned →
      Upstream.isRequestUpgrade x.up.session = (.ok true, x.up.session) →
      UpMoves crates x .upSend { x with up.place := .turn }
  | sendStops (o : Out Unit) : x.down.place = .returned → UpMoves crates x .upSend { x with stopped := some o }
  | send (t : Task) : x.up.place = .sending t →
      UpMoves crates x .upSend { x with responses := x.responses ++ [t], sent := x.sent ++ [t], up.place := .turn }
  | failClosed (e : IoError) : x.up.place = .failing e → x.down.place = .returned →
      UpMoves crates x .upFail { x with up.place := .returned }
  | fail (e : IoError) : x.up.place = .failing e →
      UpMoves crates x .upFail
        { x with responses := x.responses ++ [.failed e], sent := x.sent ++ [.failed e], up.place := .returned }
  | write (drop : Option Nat) (t : Task) (rest : List Task) (u u' : Upstream) (e : Bool) : x.up.place = .select →
      x.requests = t :: rest → x.up.requestDone = false → x.up.dropped crates drop = some u →
      Upstream.writeUpstreamRequest t u = (.ok e, u') →
      UpMoves crates x (.upWrite drop) { x with requests := rest, up := ⟨u', e, x.up.responseDone, .turn⟩ }
  | writeStops (drop : Option Nat) (t : Task) (rest : List Task) (u : Upstream) (o : Out Unit) :
      x.requests = t :: rest →
      UpMoves crates x (.upWrite drop) { x with requests := rest, up.session := u, stopped := some o }
  | closed (drop : Option Nat) (u : Upstream) : x.up.place = .select → x.requests = [] →
      x.down.place = .returned → x.up.dropped crates drop = some u →
      UpMoves crates x (.upClosed drop) { x with up := ⟨u, true, x.up.responseDone, .turn⟩ }

namespace Duplex

variable {x x' : Duplex}

theorem downStart_moves (h : x.downStart = some x') : DownMoves crates x .downStart x' := by
  unfold downStart at h
  split at h
  · rename_i hp
    split at h
    · cases h; exact .begin hp ‹_›
    · split at h
      · cases h; exact .beginClosed hp
      · split at h
        · cases h; exact .beginRetry _ hp ‹_›
        · cases h
  · cases h

theorem downTurn_moves (h : x.downTurn = some x') : DownMoves crates x .downTurn x' := by
  unfold downTurn at h
  split at h
  · rename_i hp
    split at h
    · rename_i hd
      rw [Bool.and_eq_true] at hd
      cases h; exact .finish hp hd.1 hd.2
    · rename_i hd
      cases h
      refine .select _ hp (by simpa using hd) fun hperm => ?_
      rw [Bool.and_eq_true, Bool.not_eq_true'] at hperm
      exact hperm.1
  · cases h

theorem downRead_moves (h : x.downRead crates = some x') : DownMoves crates x .downRead x' := by
  unfold downRead at h
  split at h
  · rename_i permit hp
    split at h
    · rename_i hc
      rw [Bool.and_eq_true, Bool.not_eq_true'] at hc
      obtain ⟨hc, rfl⟩ := hc
      split at h
      · cases h; exact .readBody _ _ _ hp hc ‹_›
      · cases h; exact .readDone _ hp hc ‹_›
      · cases h; exact .readPanics _ _
      · cases h; exact .readFails _ _ hp hc ‹_›
      · cases h
      · cases h; exact .readPanics _ _
    · cases h
  · cases h

theorem downFail_moves (h : x.downFail = some x') : DownMoves crates x .downFail x' := by
  unfold downFail at h
  split at h
  · rename_i e hp
    split at h
    · cases h; exact .failClosed e hp ‹_›
    · rename_i hr
      split at h
      · cases h; exact .fail e hp (by simpa using hr)
      · cases h
  · cases h

theorem downWrite_moves {drop : Option Nat} {more : Nat} (h : x.downWrite crates drop more = some x') :
    DownMoves crates x (.downWrite drop more) x' := by
  unfold downWrite at h
  split at h
  · rename_i permit hp
    split at h
    · rename_i hc
      rw [Bool.and_eq_true, Bool.not_eq_true', decide_eq_true_eq] at hc
      split at h
      · cases h
      · simp only at h
        split at h
        · cases h; exact .write permit drop more _ _ _ hp hc.1 hc.2 ‹_› ‹_›
        · cases h; exact .writeStops ..
        · cases h
        · cases h; exact .writeStops ..
    · cases h
  · cases h

theorem downClosed_moves {drop : Option Nat} (h : x.downClosed crates drop = some x') :
    DownMoves crates x (.downClosed drop) x' := by
  unfold downClosed at h
  split at h
  · rename_i permit hp
    split at h
    · rename_i hc
      simp only [Bool.and_eq_true, Bool.not_eq_true', List.isEmpty_iff] at hc
      split at h
      · cases h
      · cases h; exact .closed permit drop _ hp hc.1.1 hc.1.2 hc.2 ‹_›
    · cases h
  · cases h

theorem downElse_moves (h : x.downElse = some x') : DownMoves crates x .downElse x' := by
  unfold downElse at h
  split at h
  · rename_i permit hp
    split at h
    · rename_i hc
      rw [Bool.and_eq_true] at hc
      cases h; exact .idle permit hp hc.2
    · cases h
  · cases h

theorem upTurn_moves (h : x.upTurn = some x') : UpMoves crates x .upTurn x' := by
  unfold upTurn at h
  split at h
  · rename_i hp
    split at h
    · rename_i hd
      rw [Bool.and_eq_true] at hd
      cases h; exact .finish hp hd.1 hd.2
    · cases h; exact .select hp
  · cases h

theorem upRead_moves (h : x.upRead crates = some x') : UpMoves crates x .upRead x' := by
  unfold upRead at h
  split at h
  · rename_i hp
    split at h
    · rename_i hc
      rw [Bool.not_eq_true'] at hc
      split at h
      · cases h; exact .read _ _ hp hc ‹_›
      · cases h; exact .readFails _ _ hp hc ‹_›
      · cases h
      · cases h; exact .readPanics _ _
    · cases h
  · cases h

theorem isRequestUpgrade_keeps {u u' : Upstream} {o : Out Bool} (h : Upstream.isRequestUpgrade u = (o, u')) : u' = u := by
  unfold Upstream.isRequestUpgrade at h
  split at h <;> cases h <;> rfl

theorem upSend_moves (h : x.upSend = some x') : UpMoves crates x .upSend x' := by
  unfold upSend at h
  split at h
  · rename_i t hp
    split at h
    · rename_i hd
      split at h
      · rename_i heq
        rw [isRequestUpgrade_keeps heq] at heq
        cases h; exact .sendClosed t hp hd heq
      · cases h; exact .sendStops _ hd
      · cases h; exact .sendStops _ hd
      · cases h
    · split at h
      · cases h; exact .send t hp
      · cases h
  · cases h

theorem upFail_moves (h : x.upFail = some x') : UpMoves crates x .upFail x' := by
  unfold upFail at h
  split at h
  · rename_i e hp
    split at h
    · cases h; exact .failClosed e hp ‹_›
    · split at h
      · cases h; exact .fail e hp
      · cases h
  · cases h

theorem upWrite_moves {drop : Option Nat} (h : x.upWrite crates drop = some x') :
    UpMoves crates x (.upWrite drop) x' := by
  unfold upWrite at h
  split at h
  · rename_i t rest hp hr
    split at h
    · rename_i hc
      rw [Bool.not_eq_true'] at hc
      split at h
      · cases h
      · simp only at h
        split at h
        · cases h; exact .write drop t rest _ _ _ hp hr hc ‹_› ‹_›
        · cases h; exact .writeStops drop t rest _ _ hr
        · cases h
        · cases h; exact .writeStops drop t rest _ _ hr
    · cases h
  · cases h

theorem upClosed_moves {drop : Option Nat} (h : x.upClosed crates drop = some x') :
    UpMoves crates x (.upClosed drop) x' := by
  unfold upClosed at h
  split at h
  · rename_i hp
    split at h
    · rename_i hc
      simp only [Bool.and_eq_true, Bool.not_eq_true', List.isEmpty_iff, beq_iff_eq] at hc
      split at h
      · cases h
      · cases h; exact .closed drop _ hp hc.1.2 hc.2 ‹_›
    · cases h
  · cases h

/-- All that a step can do. -/
theorem step_moves {e : Event} (h : step crates e x = some x') :
    x.stopped = none ∧ (DownMoves crates x e x' ∨ UpMoves crates x e x') := by
  unfold step at h
  split at h
  · cases h
  · rename_i hs
    refine ⟨by simpa using hs, ?_⟩
    cases e with
    | downStart => exact Or.inl (downStart_moves h)
    | downTurn => exact Or.inl (downTurn_moves h)
    | downRead => exact Or.inl (downRead_moves h)
    | downFail => exact Or.inl (downFail_moves h)
    | downWrite drop more => exact Or.inl (downWrite_moves h)
    | downClosed drop => exact Or.inl (downClosed_moves h)
    | downElse => exact Or.inl (downElse_moves h)
    | upTurn => exact Or.inr (upTurn_moves h)
    | upRead => exact Or.inr (upRead_moves h)
    | upSend => exact Or.inr (upSend_moves h)
    | upFail => exact Or.inr (upFail_moves h)
    | upWrite drop => exact Or.inr (upWrite_moves h)
    | upClosed drop => exact Or.inr (upClosed_moves h)

end Duplex

end Glaive.Service
