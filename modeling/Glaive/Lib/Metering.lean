/-
  Glaive.Lib.Metering — what a level that falls at a rate bounds. Each answer is found at
  a level, and one that lets something through leaves the level higher by one. As long as
  the level is at least what falling would leave, and never above the capacity, what is
  let through in any interval is at most the capacity and what falls in it.
-/

import Mathlib.Algebra.Order.Field.Basic
import Mathlib.Algebra.Order.Ring.Cast
import Mathlib.Data.List.Count
import Mathlib.Tactic.Linarith
import Mathlib.Tactic.Ring

namespace Glaive.Lib

variable {α : Type} [Field α] [LinearOrder α] [IsStrictOrderedRing α]

/-- How many answers let something through, from `a` on. -/
def letSince (answers : List (α × Bool)) (a : α) : ℕ := answers.countP fun x => x.2 ∧ a ≤ x.1

/-- How many did from `a` to `b`. -/
def letWithin (answers : List (α × Bool)) (a b : α) : ℕ := answers.countP fun x => x.2 ∧ a ≤ x.1 ∧ x.1 ≤ b

/-- In any interval at most `cap` are let through, and `rate` more for its length. -/
def Bounded (rate cap : α) (answers : List (α × Bool)) : Prop :=
  ∀ a b, a ≤ b → (letWithin answers a b : α) ≤ cap + rate * (b - a)

/-- The level after some answers, of which the last was at `last`. -/
structure Metered (rate cap : α) (answers : List (α × Bool)) (level last : α) : Prop where
  times : ∀ x ∈ answers, x.1 ≤ last
  since : ∀ a, a ≤ last → (letSince answers a : α) ≤ level + rate * (last - a)
  bounded : Bounded rate cap answers

omit [Field α] [IsStrictOrderedRing α] in
theorem letWithin_le_since (answers : List (α × Bool)) (a b : α) : letWithin answers a b ≤ letSince answers a := by
  apply List.countP_mono_left
  intro x _ hx
  have hx := of_decide_eq_true hx
  exact decide_eq_true ⟨hx.1, hx.2.1⟩

omit [Field α] [IsStrictOrderedRing α] in
theorem letSince_later {answers : List (α × Bool)} {last a : α} (h : ∀ x ∈ answers, x.1 ≤ last) (ha : last < a) :
    letSince answers a = 0 := by
  apply List.countP_eq_zero.mpr
  intro x hx hlet
  exact absurd (of_decide_eq_true hlet).2 (not_le.mpr (lt_of_le_of_lt (h x hx) ha))

omit [Field α] [IsStrictOrderedRing α] in
theorem times_concat {answers : List (α × Bool)} {last t : α} (h : ∀ x ∈ answers, x.1 ≤ last) (ht : last ≤ t)
    (allowed : Bool) : ∀ x ∈ answers ++ [(t, allowed)], x.1 ≤ t := by
  intro x hx
  rcases List.mem_append.mp hx with hx | hx
  · exact (h x hx).trans ht
  · cases List.mem_singleton.mp hx
    exact le_refl t

omit [IsStrictOrderedRing α] in
theorem letSince_concat (answers : List (α × Bool)) {t a : α} (ha : a ≤ t) (allowed : Bool) :
    (letSince (answers ++ [(t, allowed)]) a : α) = letSince answers a + (if allowed then 1 else 0) := by
  unfold letSince
  rw [List.countP_append, List.countP_singleton, Nat.cast_add]
  cases allowed <;> simp [ha]

omit [Field α] [IsStrictOrderedRing α] in
theorem letWithin_concat (answers : List (α × Bool)) {t b : α} (hb : b < t) (a : α) (allowed : Bool) :
    letWithin (answers ++ [(t, allowed)]) a b = letWithin answers a b := by
  unfold letWithin
  rw [List.countP_append, List.countP_singleton]
  simp [not_le.mpr hb]

omit [Field α] [IsStrictOrderedRing α] in
theorem letWithin_append (answers later : List (α × Bool)) (a b : α) :
    letWithin (answers ++ later) a b = letWithin answers a b + letWithin later a b := List.countP_append

omit [Field α] [IsStrictOrderedRing α] in
/-- Answers at one time, within an interval that holds it. -/
theorem letWithin_replicate (n : ℕ) {t a b : α} (ha : a ≤ t) (hb : t ≤ b) (allowed : Bool) :
    letWithin (List.replicate n (t, allowed)) a b = if allowed then n else 0 := by
  unfold letWithin
  rw [List.countP_replicate]
  cases allowed <;> simp [ha, hb]

namespace Metered

theorem start {rate cap : α} (hrate : 0 ≤ rate) (hcap : 0 ≤ cap) (last : α) : Metered rate cap [] 0 last := by
  constructor
  · intro x hx
    cases hx
  · intro a ha
    have hfalls := mul_nonneg hrate (sub_nonneg.mpr ha)
    simpa [letSince] using hfalls
  · intro a b hab
    have hfalls := mul_nonneg hrate (sub_nonneg.mpr hab)
    simp only [letWithin, List.countP_nil, Nat.cast_zero]
    linarith

variable {rate cap level last t before after : α} {answers : List (α × Bool)} {allowed : Bool}

/-- What is let through since some time, with an answer at `t`: found at the level
    `before`, which is what falling has left, or more. -/
theorem since_answer (h : Metered rate cap answers level last) (hrate : 0 ≤ rate)
    (hfall : level - rate * (t - last) ≤ before) (hbefore : 0 ≤ before)
    (hafter : before + (if allowed then 1 else 0) ≤ after) {a : α} (ha : a ≤ t) :
    (letSince (answers ++ [(t, allowed)]) a : α) ≤ after + rate * (t - a) := by
  rw [letSince_concat answers ha]
  rcases le_or_gt a last with hal | hal
  · have hold := h.since a hal
    have hsplit : rate * (t - a) = rate * (t - last) + rate * (last - a) := by ring
    linarith
  · have hfalls := mul_nonneg hrate (sub_nonneg.mpr ha)
    rw [letSince_later h.times hal, Nat.cast_zero]
    linarith

/-- An answer keeps the account, as long as the level it leaves is within the capacity. -/
theorem answer (h : Metered rate cap answers level last) (hrate : 0 ≤ rate) (ht : last ≤ t)
    (hfall : level - rate * (t - last) ≤ before) (hbefore : 0 ≤ before)
    (hafter : before + (if allowed then 1 else 0) ≤ after) (hcap : after ≤ cap) :
    Metered rate cap (answers ++ [(t, allowed)]) after t := by
  have htimes := times_concat h.times ht allowed
  refine ⟨htimes, fun a ha => h.since_answer hrate hfall hbefore hafter ha, fun a b hab => ?_⟩
  rcases lt_or_ge b t with htb | htb
  · rw [letWithin_concat answers htb]
    exact h.bounded a b hab
  · have hle : (letWithin (answers ++ [(t, allowed)]) a b : α) ≤ letSince (answers ++ [(t, allowed)]) a :=
      Nat.cast_le.mpr (letWithin_le_since _ a b)
    rcases le_or_gt a t with hat | hat
    · have hsince := h.since_answer hrate hfall hbefore hafter hat
      have hlonger := mul_le_mul_of_nonneg_left (sub_le_sub_right htb a) hrate
      linarith
    · have hone : (0 : α) ≤ if allowed then 1 else 0 := by split <;> simp
      have hfalls := mul_nonneg hrate (sub_nonneg.mpr hab)
      rw [letSince_later htimes hat, Nat.cast_zero] at hle
      linarith

end Metered

end Glaive.Lib
