/-
  Glaive.Lib.TimedStore — a store whose entries may have a deadline, from which on they
  are no longer there. Setting an entry takes its deadline away; altering one keeps it.
-/

import Mathlib.Order.Lattice

namespace Glaive.Lib

variable {κ ν τ : Type}

structure Timed (ν τ : Type) where
  value : ν
  deadline : Option τ
  deriving DecidableEq, Repr

/-- What was put under each key, and is there until its deadline. -/
structure TimedStore (κ ν τ : Type) where
  entries : κ → Option (Timed ν τ)

namespace TimedStore

variable [DecidableEq κ] [LinearOrder τ]

def empty : TimedStore κ ν τ := ⟨fun _ => none⟩

/-- The entry that is there at `now`. -/
def find (s : TimedStore κ ν τ) (now : τ) (k : κ) : Option (Timed ν τ) :=
  (s.entries k).filter fun e => e.deadline.all fun d => decide (now < d)

def get (s : TimedStore κ ν τ) (now : τ) (k : κ) : Option ν := (s.find now k).map (·.value)

def put (s : TimedStore κ ν τ) (k : κ) (e : Timed ν τ) : TimedStore κ ν τ :=
  ⟨fun k' => if k' = k then some e else s.entries k'⟩

def set (s : TimedStore κ ν τ) (k : κ) (v : ν) : TimedStore κ ν τ := s.put k ⟨v, none⟩

/-- A new value, under the deadline of the old one. -/
def alter (s : TimedStore κ ν τ) (now : τ) (k : κ) (v : ν) : TimedStore κ ν τ :=
  s.put k ⟨v, (s.find now k).bind (·.deadline)⟩

/-- A deadline for an entry that is there. -/
def expireAt (s : TimedStore κ ν τ) (now : τ) (k : κ) (deadline : τ) : TimedStore κ ν τ :=
  match s.find now k with
  | some e => s.put k ⟨e.value, some deadline⟩
  | none => s

variable {s : TimedStore κ ν τ} {now later : τ} {k k' : κ} {e : Timed ν τ}

omit [DecidableEq κ] in
theorem find_eq_some : s.find now k = some e ↔ s.entries k = some e ∧ ∀ d, e.deadline = some d → now < d := by
  unfold find
  rw [Option.filter_eq_some_iff, Option.all_eq_true]
  simp

omit [DecidableEq κ] in
theorem find_of_entries (h : s.entries k = some e) (hd : ∀ d, e.deadline = some d → now < d) :
    s.find now k = some e := find_eq_some.mpr ⟨h, hd⟩

omit [DecidableEq κ] in
theorem find_none (h : s.entries k = none) : s.find now k = none := by
  unfold find
  rw [h]
  rfl

omit [DecidableEq κ] in
/-- An entry is gone from its deadline on. -/
theorem find_expired {d : τ} (h : s.entries k = some e) (hd : e.deadline = some d) (hnow : d ≤ now) :
    s.find now k = none := by
  unfold find
  rw [h]
  apply Option.filter_eq_none_iff.mpr
  intro e' he' hall
  cases he'
  rw [hd] at hall
  exact absurd (of_decide_eq_true hall) (not_lt.mpr hnow)

omit [LinearOrder τ] in
theorem entries_put : (s.put k e).entries k = some e := if_pos rfl

omit [LinearOrder τ] in
theorem entries_put_ne (h : k' ≠ k) : (s.put k e).entries k' = s.entries k' := if_neg h

theorem find_put_ne (h : k' ≠ k) : (s.put k e).find now k' = s.find now k' := by
  unfold find
  rw [entries_put_ne h]

theorem find_set (v : ν) : (s.set k v).find now k = some ⟨v, none⟩ :=
  find_of_entries entries_put fun d hd => by cases hd

theorem expireAt_of_find (h : s.find now k = some e) (d : τ) :
    s.expireAt now k d = s.put k ⟨e.value, some d⟩ := by
  unfold expireAt
  rw [h]

theorem alter_of_find (h : s.find now k = some e) (v : ν) : s.alter now k v = s.put k ⟨v, e.deadline⟩ := by
  unfold alter
  rw [h]
  rfl

theorem alter_of_none (h : s.find now k = none) (v : ν) : s.alter now k v = s.put k ⟨v, none⟩ := by
  unfold alter
  rw [h]
  rfl

end TimedStore

end Glaive.Lib
