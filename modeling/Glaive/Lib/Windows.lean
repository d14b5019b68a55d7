/-
  Glaive.Lib.Windows — what counting in windows bounds. Each time that is let through
  falls in the window that was opened last, and a window lets `limit` through at most.
  Then in any interval `limit` are let through for each window opened in it, and `limit`
  more for the one it begins in; and windows a period apart are few in an interval.
-/

import Mathlib.Data.List.Count
import Mathlib.Order.Lattice
import Mathlib.Tactic.Linarith

namespace Glaive.Lib

variable {α : Type} [LinearOrder α]

def countSince (l : List α) (a : α) : ℕ := l.countP fun x => a ≤ x

def countIn (l : List α) (a b : α) : ℕ := l.countP fun x => a ≤ x ∧ x ≤ b

theorem countIn_eq_since {l : List α} {a b : α} (h : ∀ x ∈ l, x ≤ b) : countIn l a b = countSince l a := by
  apply List.countP_congr
  intro x hx
  simp [h x hx]

theorem countSince_later {l : List α} {last a : α} (h : ∀ x ∈ l, x ≤ last) (ha : last < a) : countSince l a = 0 := by
  apply List.countP_eq_zero.mpr
  intro x hx hle
  exact absurd (of_decide_eq_true hle) (not_le.mpr (lt_of_le_of_lt (h x hx) ha))

theorem countSince_concat (l : List α) (t a : α) : countSince (l ++ [t]) a = countSince l a + if a ≤ t then 1 else 0 := by
  unfold countSince
  rw [List.countP_append, List.countP_singleton]
  simp

theorem countIn_concat {l : List α} {t b : α} (hb : b < t) (a : α) : countIn (l ++ [t]) a b = countIn l a b := by
  unfold countIn
  rw [List.countP_append, List.countP_singleton]
  simp [not_le.mpr hb]

theorem le_concat {l : List α} {last t : α} (h : ∀ x ∈ l, x ≤ last) (ht : last ≤ t) : ∀ x ∈ l ++ [t], x ≤ t := by
  intro x hx
  rcases List.mem_append.mp hx with hx | hx
  · exact (h x hx).trans ht
  · rw [List.mem_singleton.mp hx]

/-- What was let through by `last`, `current` of it in the window opened last. -/
structure Windowed (limit : ℕ) (opened times : List α) (current : ℕ) (last : α) : Prop where
  opened_le : ∀ x ∈ opened, x ≤ last
  times_le : ∀ x ∈ times, x ≤ last
  current_le : current ≤ limit
  since : ∀ a, countSince times a ≤ limit * countSince opened a + current
  within : ∀ a b, countIn times a b ≤ limit * (countIn opened a b + 1)

namespace Windowed

variable {limit current : ℕ} {opened times : List α} {last t : α}

theorem start (limit : ℕ) (last : α) : Windowed limit [] [] 0 last :=
  ⟨nofun, nofun, Nat.zero_le _, fun _ => Nat.zero_le _, fun _ _ => Nat.zero_le _⟩

theorem later (h : Windowed limit opened times current last) (ht : last ≤ t) : Windowed limit opened times current t :=
  ⟨fun x hx => (h.opened_le x hx).trans ht, fun x hx => (h.times_le x hx).trans ht, h.current_le, h.since, h.within⟩

/-- An interval that takes in all there is. -/
theorem within_of_since (hopened : ∀ x ∈ opened, x ≤ last) (htimes : ∀ x ∈ times, x ≤ last) (hcurrent : current ≤ limit)
    (hsince : ∀ a, countSince times a ≤ limit * countSince opened a + current) (a : α) {b : α} (hb : last ≤ b) :
    countIn times a b ≤ limit * (countIn opened a b + 1) := by
  rw [countIn_eq_since fun x hx => (htimes x hx).trans hb, countIn_eq_since fun x hx => (hopened x hx).trans hb,
    Nat.mul_succ]
  exact (hsince a).trans (Nat.add_le_add_left hcurrent _)

/-- One more is let through in the window. -/
theorem letThrough (h : Windowed limit opened times current last) (ht : last ≤ t) (hroom : current + 1 ≤ limit) :
    Windowed limit opened (times ++ [t]) (current + 1) t := by
  have hopened : ∀ x ∈ opened, x ≤ t := fun x hx => (h.opened_le x hx).trans ht
  have htimes := le_concat h.times_le ht
  have hsince : ∀ a, countSince (times ++ [t]) a ≤ limit * countSince opened a + (current + 1) := by
    intro a
    rw [countSince_concat]
    have hold := h.since a
    split
    · omega
    · omega
  refine ⟨hopened, htimes, hroom, hsince, fun a b => ?_⟩
  rcases lt_or_ge b t with hb | hb
  · rw [countIn_concat hb]
    exact h.within a b
  · exact within_of_since hopened htimes hroom hsince a hb

/-- A window is opened. -/
theorem opens (h : Windowed limit opened times current last) (ht : last ≤ t) :
    Windowed limit (opened ++ [t]) times 0 t := by
  have hopened := le_concat h.opened_le ht
  have htimes : ∀ x ∈ times, x ≤ t := fun x hx => (h.times_le x hx).trans ht
  have hsince : ∀ a, countSince times a ≤ limit * countSince (opened ++ [t]) a + 0 := by
    intro a
    rw [countSince_concat, Nat.add_zero]
    rcases le_or_gt a t with ha | ha
    · rw [if_pos ha, Nat.mul_succ]
      exact (h.since a).trans (Nat.add_le_add_left h.current_le _)
    · rw [countSince_later htimes ha]
      exact Nat.zero_le _
  refine ⟨hopened, htimes, Nat.zero_le _, hsince, fun a b => ?_⟩
  rcases lt_or_ge b t with hb | hb
  · rw [countIn_concat hb]
    exact h.within a b
  · exact within_of_since hopened htimes (Nat.zero_le _) hsince a hb

end Windowed

/-! ## Windows a period apart -/

/-- Each a period or more after those before it. -/
def Spaced (period : ℤ) (opened : List ℤ) : Prop := opened.Pairwise fun x y => x + period ≤ y

theorem Spaced.concat {period t : ℤ} {opened : List ℤ} (h : Spaced period opened) (ht : ∀ x ∈ opened, x + period ≤ t) :
    Spaced period (opened ++ [t]) := by
  apply List.pairwise_append.mpr
  refine ⟨h, List.pairwise_singleton _ _, fun x hx y hy => ?_⟩
  rw [List.mem_singleton.mp hy]
  exact ht x hx

/-- So many are that many periods long. -/
theorem Spaced.length_le {period : ℤ} {l : List ℤ} (h : Spaced period l) : ∀ {a b : ℤ}, (∀ x ∈ l, a ≤ x ∧ x ≤ b) →
    ∀ n : ℕ, l.length = n + 1 → a + n * period ≤ b := by
  induction l with
  | nil =>
    intro a b _ n hn
    cases hn
  | cons x l ih =>
    intro a b hin n hn
    obtain ⟨hx, hrest⟩ := List.pairwise_cons.mp h
    obtain ⟨hax, hxb⟩ := hin x (List.mem_cons_self ..)
    cases n with
    | zero =>
      push_cast
      linarith
    | succ n =>
      have hlen : l.length = n + 1 := by simpa using hn
      have hle := ih hrest (a := a + period) (fun y hy =>
        ⟨(add_le_add_left hax period).trans (hx y hy), (hin y (List.mem_cons_of_mem _ hy)).2⟩) n hlen
      push_cast
      linarith

/-- In an interval shorter than `k` periods at most `k` windows are opened. -/
theorem Spaced.countIn_le {period : ℤ} {opened : List ℤ} (h : Spaced period opened) {a b : ℤ} {k : ℕ}
    (hab : b - a < k * period) : countIn opened a b ≤ k := by
  by_contra hmore
  have hin : ∀ x ∈ opened.filter fun x => a ≤ x ∧ x ≤ b, a ≤ x ∧ x ≤ b := fun x hx =>
    of_decide_eq_true (List.mem_filter.mp hx).2
  have hlen : (opened.filter fun x => a ≤ x ∧ x ≤ b).length = countIn opened a b := (List.countP_eq_length_filter).symm
  obtain ⟨n, hn⟩ : ∃ n, countIn opened a b = n + 1 := ⟨countIn opened a b - 1, by omega⟩
  have hspan := Spaced.length_le (List.Pairwise.filter _ h) hin n (hlen.trans hn)
  have hkn : (k : ℤ) ≤ n := by omega
  -- there is one in the interval, so the period is positive
  obtain ⟨x, hx⟩ : ∃ x, x ∈ opened.filter fun x => a ≤ x ∧ x ≤ b :=
    List.exists_mem_of_length_pos (by rw [hlen]; omega)
  have hab' : a ≤ b := (hin x hx).1.trans (hin x hx).2
  have hperiod : 0 ≤ period := by
    by_contra hneg
    have hprod : (k : ℤ) * period ≤ 0 := mul_nonpos_of_nonneg_of_nonpos (by omega) (by omega)
    linarith
  have hmono := mul_le_mul_of_nonneg_right hkn hperiod
  linarith

/-- What windows a period apart let through in less than `k` periods. -/
theorem Windowed.countIn_le {limit current : ℕ} {opened times : List ℤ} {last period : ℤ}
    (h : Windowed limit opened times current last) (hs : Spaced period opened) {a b : ℤ} {k : ℕ}
    (hab : b - a < k * period) : countIn times a b ≤ limit * (k + 1) :=
  (h.within a b).trans (Nat.mul_le_mul_left _ (Nat.succ_le_succ (hs.countIn_le hab)))

end Glaive.Lib
