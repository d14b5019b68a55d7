/-
  Glaive.Lib.Bytes — bytes as lists, the slices and moves Rust makes on a buffer,
  and 64-bit `usize` arithmetic.

  A partial operation returns `none` where the Rust one panics: a slice out of range,
  an addition past `2^64`, a subtraction below 0.
-/

import Mathlib.Algebra.Ring.Int.Defs
import Mathlib.Algebra.Ring.Nat
import Mathlib.Data.List.Infix
import Mathlib.Data.List.TakeDrop
import Mathlib.Tactic.ByContra

namespace Glaive.Lib

abbrev Byte := UInt8

abbrev Bytes := List UInt8

/-- The bytes of an ASCII text. -/
def ascii (s : String) : Bytes := s.toList.map fun c => c.toNat.toUInt8

def cr : Byte := 13

def lf : Byte := 10

def crlf : Bytes := [cr, lf]

/-! ## Comparisons that ignore case -/

def lowerByte (b : Byte) : Byte := if 65 ≤ b ∧ b ≤ 90 then b + 32 else b

/-- `eq_ignore_ascii_case`. -/
def eqIgnoreCase (a b : Bytes) : Bool := a.map lowerByte == b.map lowerByte

/-! ## Pieces -/

/-- How far each of the pieces reaches, from 0 on. -/
def cuts : List Bytes → List Nat
  | [] => [0]
  | x :: xs => 0 :: (cuts xs).map (x.length + ·)

theorem zero_mem_cuts (l : List Bytes) : 0 ∈ cuts l := by
  cases l <;> exact List.mem_cons_self ..

theorem forall_cuts_cons (x : Bytes) (xs : List Bytes) (P : Nat → Prop) :
    (∀ k ∈ cuts (x :: xs), P k) ↔ P 0 ∧ ∀ k ∈ cuts xs, P (x.length + k) := by
  simp [cuts]

theorem mem_cuts_cons {x : Bytes} {xs : List Bytes} {n : Nat} :
    n ∈ cuts (x :: xs) ↔ n = 0 ∨ ∃ k ∈ cuts xs, x.length + k = n := by
  simp [cuts]

/-- Two ways to cut one list: the first piece of one ends inside the first of the
    other, or holds it. -/
theorem append_split {a b c d : Bytes} (h : a ++ b = c ++ d) :
    (∃ m, m ≠ [] ∧ c = a ++ m ∧ b = m ++ d) ∨ ∃ m, a = c ++ m ∧ d = m ++ b := by
  rcases List.append_eq_append_iff.mp h with ⟨m, hc, hb⟩ | ⟨m, ha, hd⟩
  · by_cases hm : m = []
    · subst hm
      exact Or.inr ⟨[], by simpa using hc.symm, by simpa using hb.symm⟩
    · exact Or.inl ⟨m, hm, hc, hb⟩
  · exact Or.inr ⟨m, ha, hd⟩

/-! ## Slices -/

/-- `&l[start..stop]`. -/
def slice (start stop : Nat) (l : Bytes) : Option Bytes :=
  if start ≤ stop ∧ stop ≤ l.length then some ((l.take stop).drop start) else none

/-- What a read of `bs` into `l` at `at_` leaves there. -/
def overwrite (l : Bytes) (at_ : Nat) (bs : Bytes) : Bytes := l.take at_ ++ bs ++ l.drop (at_ + bs.length)

theorem slice_of_le {start stop : Nat} {l : Bytes} (h1 : start ≤ stop) (h2 : stop ≤ l.length) :
    slice start stop l = some ((l.take stop).drop start) := if_pos ⟨h1, h2⟩

theorem slice_zero {stop : Nat} {l : Bytes} (h : stop ≤ l.length) : slice 0 stop l = some (l.take stop) := by
  rw [slice_of_le (Nat.zero_le _) h, List.drop_zero]

theorem slice_eq_some {start stop : Nat} {l x : Bytes} (h : slice start stop l = some x) :
    start ≤ stop ∧ stop ≤ l.length ∧ x = (l.take stop).drop start := by
  unfold slice at h
  split at h
  · rename_i hc; exact ⟨hc.1, hc.2, (Option.some.inj h).symm⟩
  · cases h

theorem length_of_slice {start stop : Nat} {l x : Bytes} (h : slice start stop l = some x) :
    x.length = stop - start := by
  obtain ⟨_, h2, rfl⟩ := slice_eq_some h
  rw [List.length_drop, List.length_take]; omega

/-- A slice of a slice. -/
theorem slice_slice {a b i j : Nat} {l x y : Bytes} (hx : slice a b l = some x) (hy : slice i j x = some y) :
    slice (a + i) (a + j) l = some y := by
  obtain ⟨h1, h2, rfl⟩ := slice_eq_some hx
  obtain ⟨h3, h4, rfl⟩ := slice_eq_some hy
  rw [List.length_drop, List.length_take] at h4
  rw [slice_of_le (by omega) (by omega)]
  congr 1
  rw [List.take_drop, List.drop_drop, List.take_take]
  congr 2; omega

/-- Of bytes that stand at the front, so do the first few. -/
theorem slice_zero_take {buf y : Bytes} (h : slice 0 y.length buf = some y) {k : Nat} (hk : k ≤ y.length) :
    slice 0 k buf = some (y.take k) := by
  simpa only [Nat.zero_add] using slice_slice (y := y.take k) h (i := 0) (j := k) (slice_zero hk)

@[simp] theorem length_overwrite {l bs : Bytes} {i : Nat} (h : i + bs.length ≤ l.length) :
    (overwrite l i bs).length = l.length := by
  simp only [overwrite, List.length_append, List.length_take, List.length_drop]; omega

/-- Reading `bs` at the end of a kept prefix `p` leaves `p ++ bs` at the front. -/
theorem take_overwrite {l p bs : Bytes} (hp : l.take p.length = p) :
    (overwrite l p.length bs).take (p.length + bs.length) = p ++ bs := by
  unfold overwrite
  rw [hp, ← List.length_append, List.take_left]

/-! ## `usize` -/

def usizeEnd : Nat := 2 ^ 64

/-- `a + b`. -/
def uadd (a b : Nat) : Option Nat := if a + b < usizeEnd then some (a + b) else none

/-- `a - b`. -/
def usub (a b : Nat) : Option Nat := if b ≤ a then some (a - b) else none

/-- `a * b`. -/
def umul (a b : Nat) : Option Nat := if a * b < usizeEnd then some (a * b) else none

theorem uadd_of_lt {a b : Nat} (h : a + b < usizeEnd) : uadd a b = some (a + b) := if_pos h

theorem usub_of_le {a b : Nat} (h : b ≤ a) : usub a b = some (a - b) := if_pos h

theorem uadd_eq_some {a b c : Nat} (h : uadd a b = some c) : c = a + b ∧ a + b < usizeEnd := by
  unfold uadd at h
  split at h
  · exact ⟨(Option.some.inj h).symm, ‹_›⟩
  · cases h

end Glaive.Lib
