/-
  Glaive.Lib.Numeral — numbers as bytes: upper-case hexadecimal as `{:X}` writes it,
  and decimal as `str::parse::<i64>` reads it.
-/

import Glaive.Lib.ChunkedCoding

namespace Glaive.Lib

open Glaive.Lib.Chunked (isHexDigit hexValue hexNumber)

/-! ## Hexadecimal -/

def hexDigit (d : Nat) : Byte := if d < 10 then 48 + d.toUInt8 else 55 + d.toUInt8

/-- The digits of `n`, with fuel past `n`. -/
def hexDigits : Nat → Nat → Bytes
  | 0, _ => []
  | fuel + 1, n => if n < 16 then [hexDigit n] else hexDigits fuel (n / 16) ++ [hexDigit (n % 16)]

/-- `format!("{:X}", n)`. -/
def toHex (n : Nat) : Bytes := hexDigits (n + 1) n

theorem hexDigit_spec : ∀ d < 16, isHexDigit (hexDigit d) = true ∧ hexValue (hexDigit d) = d := by decide

theorem hexDigits_hex : ∀ (fuel n : Nat), ∀ b ∈ hexDigits fuel n, isHexDigit b = true := by
  intro fuel
  induction fuel with
  | zero => intro n b hb; cases hb
  | succ fuel ih =>
    intro n b hb
    unfold hexDigits at hb
    split at hb
    · rw [List.mem_singleton] at hb
      rw [hb]; exact (hexDigit_spec n ‹_›).1
    · rcases List.mem_append.mp hb with hb | hb
      · exact ih _ b hb
      · rw [List.mem_singleton] at hb
        rw [hb]; exact (hexDigit_spec _ (Nat.mod_lt _ (by omega))).1

theorem hexNumber_append (a : Bytes) (b : Byte) : hexNumber (a ++ [b]) = 16 * hexNumber a + hexValue b := by
  simp [hexNumber]

theorem hexNumber_hexDigits : ∀ (fuel n : Nat), n < fuel → hexNumber (hexDigits fuel n) = n := by
  intro fuel
  induction fuel with
  | zero => intro n h; omega
  | succ fuel ih =>
    intro n h
    unfold hexDigits
    split
    · simp [hexNumber, (hexDigit_spec n ‹_›).2]
    · rw [hexNumber_append, ih _ (by omega), (hexDigit_spec _ (Nat.mod_lt _ (by omega))).2]; omega

theorem hexDigits_ne_nil (fuel n : Nat) : hexDigits (fuel + 1) n ≠ [] := by
  unfold hexDigits
  split <;> simp

/-- A number below `16 ^ k` has at most `k` digits. -/
theorem length_hexDigits_le : ∀ (fuel n k : Nat), 0 < k → n < 16 ^ k → (hexDigits fuel n).length ≤ k := by
  intro fuel
  induction fuel with
  | zero => intro n k _ _; exact Nat.zero_le _
  | succ fuel ih =>
    intro n k hk hn
    unfold hexDigits
    split
    · exact hk
    · obtain ⟨k, rfl⟩ : ∃ j, k = j + 1 := ⟨k - 1, by omega⟩
      rw [Nat.pow_succ] at hn
      have hk0 : 0 < k := by
        rcases Nat.eq_zero_or_pos k with rfl | h
        · omega
        · exact h
      have := ih (n / 16) k hk0 (by omega)
      rw [List.length_append, List.length_singleton]; omega

theorem toHex_hex (n : Nat) : ∀ b ∈ toHex n, isHexDigit b = true := hexDigits_hex _ n

theorem hexNumber_toHex (n : Nat) : hexNumber (toHex n) = n := hexNumber_hexDigits _ n (Nat.lt_succ_self n)

theorem toHex_ne_nil (n : Nat) : toHex n ≠ [] := hexDigits_ne_nil _ n

theorem length_toHex_le {n : Nat} (h : n < usizeEnd) : (toHex n).length ≤ 16 :=
  length_hexDigits_le _ n 16 (by omega) (by unfold usizeEnd at h; omega)

/-! ## Decimal -/

def isDigit (b : Byte) : Bool := 48 ≤ b && b ≤ 57

def decNumber (ds : Bytes) : Nat := ds.foldl (fun n b => 10 * n + (b.toNat - 48)) 0

def isNumeral (s : Bytes) : Bool := !s.isEmpty && s.all isDigit

def fitI64 (n : Int) : Option Int := if -2 ^ 63 ≤ n ∧ n < 2 ^ 63 then some n else none

theorem fitI64_of_lt {n : Nat} (h : n < 2 ^ 63) : fitI64 n = some n := by
  have : (n : Int) < 2 ^ 63 := by exact_mod_cast h
  exact if_pos ⟨by omega, this⟩

theorem fitI64_of_not_lt {n : Nat} (h : ¬ n < 2 ^ 63) : fitI64 n = none := by
  have : ¬ (n : Int) < 2 ^ 63 := by exact_mod_cast h
  exact if_neg fun hc => this hc.2

/-- `str::parse::<i64>`: a sign or none, then digits, and the number fits. A text that
    is not UTF-8 is no numeral either. -/
def parseI64 (s : Bytes) : Option Int :=
  match s with
  | [] => none
  | b :: ds =>
    if b = 43 then (if isNumeral ds then fitI64 (decNumber ds) else none)
    else if b = 45 then (if isNumeral ds then fitI64 (-decNumber ds) else none)
    else if isNumeral (b :: ds) then fitI64 (decNumber (b :: ds))
    else none

theorem fitI64_lt {n m : Int} (h : fitI64 n = some m) : m < 2 ^ 63 := by
  unfold fitI64 at h
  split at h
  · rename_i hc; cases h; exact hc.2
  · cases h

theorem parseI64_lt {s : Bytes} {m : Int} (h : parseI64 s = some m) : m < 2 ^ 63 := by
  unfold parseI64 at h
  split at h
  · cases h
  · repeat' split at h
    all_goals first | exact fitI64_lt h | cases h

theorem isNumeral_digits {s : Bytes} (h : isNumeral s = true) : s ≠ [] ∧ ∀ b ∈ s, isDigit b = true := by
  unfold isNumeral at h
  rw [Bool.and_eq_true, List.all_eq_true] at h
  exact ⟨by simpa using h.1, h.2⟩

theorem parseI64_of_isNumeral {s : Bytes} (h : isNumeral s = true) : parseI64 s = fitI64 (decNumber s) := by
  cases s with
  | nil => cases h
  | cons b ds =>
    have hb := (isNumeral_digits h).2 b (List.mem_cons_self ..)
    have h1 : b ≠ 43 := by rintro rfl; exact absurd hb (by decide)
    have h2 : b ≠ 45 := by rintro rfl; exact absurd hb (by decide)
    rw [parseI64, if_neg h1, if_neg h2, if_pos h]

/-- What parses is a sign or none before digits. -/
theorem parseI64_bytes {s : Bytes} {n : Int} (h : parseI64 s = some n) :
    s ≠ [] ∧ ∀ b ∈ s, isDigit b = true ∨ b = 43 ∨ b = 45 := by
  cases s with
  | nil => cases h
  | cons b ds =>
    refine ⟨by simp, ?_⟩
    have tail : isNumeral ds = true → (b = 43 ∨ b = 45) → ∀ c ∈ b :: ds, isDigit c = true ∨ c = 43 ∨ c = 45 := by
      intro hd hs c hc
      rcases List.mem_cons.mp hc with rfl | hc
      · exact Or.inr hs
      · exact Or.inl ((isNumeral_digits hd).2 c hc)
    rw [parseI64] at h
    by_cases h43 : b = 43
    · rw [if_pos h43] at h
      by_cases hd : isNumeral ds = true
      · exact tail hd (Or.inl h43)
      · rw [if_neg hd] at h; cases h
    · rw [if_neg h43] at h
      by_cases h45 : b = 45
      · rw [if_pos h45] at h
        by_cases hd : isNumeral ds = true
        · exact tail hd (Or.inr h45)
        · rw [if_neg hd] at h; cases h
      · rw [if_neg h45] at h
        by_cases hd : isNumeral (b :: ds) = true
        · intro c hc
          exact Or.inl ((isNumeral_digits hd).2 c hc)
        · rw [if_neg hd] at h; cases h

/-- The three digits of a status code. -/
def threeDigits (n : Nat) : Bytes := [hexDigit (n / 100), hexDigit (n / 10 % 10), hexDigit (n % 10)]

theorem hexDigit_decimal : ∀ d < 10, isDigit (hexDigit d) = true ∧ (hexDigit d).toNat - 48 = d := by decide

theorem threeDigits_digits {n : Nat} (h : n < 1000) : (threeDigits n).all isDigit = true := by
  simp [threeDigits, (hexDigit_decimal (n / 100) (by omega)).1, (hexDigit_decimal (n / 10 % 10) (by omega)).1,
    (hexDigit_decimal (n % 10) (by omega)).1]

theorem decNumber_threeDigits {n : Nat} (h : n < 1000) : decNumber (threeDigits n) = n := by
  simp only [decNumber, threeDigits, List.foldl_cons, List.foldl_nil, (hexDigit_decimal (n / 100) (by omega)).2,
    (hexDigit_decimal (n / 10 % 10) (by omega)).2, (hexDigit_decimal (n % 10) (by omega)).2]
  omega

end Glaive.Lib
