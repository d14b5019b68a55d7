/-
  Glaive.Redis.LeakyBucket — calls of the leaky bucket on one key.

  A call that finds room raises the level by one, which may take it above the capacity by
  a fraction. A call that finds none sets the level to the capacity, and so lets out what
  is above it. The calls allowed in any interval are bounded by the capacity, one more,
  and what leaks in it, as long as no call finds the level above the capacity; and they
  are for every sequence of calls just if the leak rate is a whole number or empties the
  bucket in a second (`leaky_bucket_bounded_iff`).
-/

import Glaive.Lib.Metering
import Glaive.Redis.Client
import Mathlib.Algebra.Order.Archimedean.Basic
import Mathlib.Algebra.Order.Floor.Semiring
import Mathlib.Data.Rat.Floor

namespace Glaive.Redis.LeakyBucket

open Glaive.Lib

/-- The level, and the time of the last call. -/
abbrev Bucket : Type := Option (ℚ × ℕ)

variable {key : Key} {capacity : ℤ} {leakRate : ℚ}

/-- The keys hold the bucket. -/
def Holds (key : Key) : Bucket → Keys ℤ → Prop
  | none, s => s.entries key = none ∧ s.entries (lastCheckKey key) = none
  | some (level, last), s =>
    s.entries key = some ⟨.number level, none⟩ ∧ s.entries (lastCheckKey key) = some ⟨.number last, none⟩

/-- What has not leaked by `now`. -/
def leaked (leakRate : ℚ) (now : ℕ) : Bucket → ℚ
  | none => 0
  | some (level, last) => max 0 (level - (now - last) * leakRate)

/-- The level after a call. -/
def raised (capacity : ℤ) (leakRate : ℚ) (now : ℕ) (b : Bucket) : ℚ :=
  if leaked leakRate now b < capacity then leaked leakRate now b + 1 else capacity

theorem lastCheckKey_ne (key : Key) : lastCheckKey key ≠ key := suffixed_ne key (by decide)

theorem leaked_nonneg (leakRate : ℚ) (now : ℕ) (b : Bucket) : 0 ≤ leaked leakRate now b := by
  match b with
  | none => exact le_refl 0
  | some (level, last) => exact le_max_left ..

/-- At the time of the last call nothing has leaked since. -/
theorem leaked_at_once {level : ℚ} (h : 0 ≤ level) (now : ℕ) : leaked leakRate now (some (level, now)) = level := by
  rw [leaked, sub_self, zero_mul, sub_zero]
  exact max_eq_right h

/-! ## One call -/

/-- What the script reads is what it takes the bucket to hold. -/
theorem reads_leaked {b : Bucket} {s : Keys ℤ} (now : ℕ) (h : Holds key b s) :
    ∃ last level : Option ℚ, get (now : ℤ) (lastCheckKey key) s = (.ok last, s) ∧ get (now : ℤ) key s = (.ok level, s) ∧
      max 0 (level.getD 0 - (now - last.getD now) * leakRate) = leaked leakRate now b := by
  have hlive : ∀ d : ℤ, none = some d → (now : ℤ) < d := fun d hd => by cases hd
  match b with
  | none =>
    obtain ⟨hlevel, hlast⟩ := h
    refine ⟨none, none, Keys.get_none (TimedStore.find_none hlast), Keys.get_none (TimedStore.find_none hlevel), ?_⟩
    rw [Option.getD_none, Option.getD_none, sub_self, zero_mul, sub_zero, max_self]
    rfl
  | some (level, last) =>
    obtain ⟨hlevel, hlast⟩ := h
    exact ⟨some last, some level, Keys.get_number (TimedStore.find_of_entries hlast hlive),
      Keys.get_number (TimedStore.find_of_entries hlevel hlive), rfl⟩

/-- What the script writes, whether it allows the call or not. -/
theorem writes_bucket (s : Keys ℤ) (now : ℕ) (level : ℚ) (allowed : Bool) :
    ∃ s', (do
        set key level
        set (lastCheckKey key) now
        return allowed : Async (Keys ℤ) Bool) s = (.ok allowed, s') ∧ Holds key (some (level, now)) s' := by
  have hset : ∀ (key : Key) (q : ℚ) (s : Keys ℤ), set key q s = (.ok (), TimedStore.set s key (.number q)) :=
    fun _ _ _ => rfl
  rw [Async.bind_ok (hset ..), Async.bind_ok (hset ..)]
  refine ⟨_, rfl, ?_, TimedStore.entries_put⟩
  exact (TimedStore.entries_put_ne (lastCheckKey_ne key).symm).trans TimedStore.entries_put

theorem keys_call_eq {b : Bucket} {s : Keys ℤ} (now : ℕ) (h : Holds key b s) :
    ∃ s', leakyBucketRateLimit key capacity leakRate now s = (.ok (decide (leaked leakRate now b < capacity)), s') ∧
      Holds key (some (raised capacity leakRate now b, now)) s' := by
  obtain ⟨last, level, hlast, hlevel, hleaked⟩ := @reads_leaked key leakRate b s now h
  unfold leakyBucketRateLimit raised
  rw [Async.bind_ok hlast, Async.bind_ok hlevel]
  simp only [hleaked]
  by_cases hroom : leaked leakRate now b < capacity
  · simp only [if_pos hroom, decide_eq_true hroom]
    exact writes_bucket s now _ true
  · simp only [if_neg hroom, decide_eq_false hroom]
    exact writes_bucket s now _ false

variable {S : Type} [RedisServer S ℤ]

theorem call_eq {b : Bucket} {s : S} (now : ℕ) (h : Holds key b (keys s)) :
    ∃ s', leakyBucketRateLimit key capacity leakRate now s = (.ok (decide (leaked leakRate now b < capacity)), s') ∧
      Holds key (some (raised capacity leakRate now b, now)) (keys s') := by
  obtain ⟨k, hkeys, hholds⟩ := @keys_call_eq key capacity leakRate b (keys s) now h
  obtain ⟨s', hcall, rfl⟩ := (leakyBucketRateLimit_seen key capacity leakRate now).lift hkeys
  exact ⟨s', hcall, hholds⟩

/-! ## A run of calls -/

/-- The calls in order on one bucket. -/
abbrev step (key : Key) (capacity : ℤ) (leakRate : ℚ) : ℕ → Calls S ℕ → Option (Calls S ℕ) :=
  Calls.step (leakyBucketRateLimit key capacity leakRate)

theorem step_holds {b : Bucket} {c c' : Calls S ℕ} {now : ℕ} (h : Holds key b (keys c.store))
    (hs : step key capacity leakRate now c = some c') :
    Holds key (some (raised capacity leakRate now b, now)) (keys c'.store) ∧
      c'.answers = c.answers ++ [(now, decide (leaked leakRate now b < capacity))] := by
  obtain ⟨s', hcall, hraised⟩ := call_eq now h
  obtain ⟨rfl, hanswers⟩ := Calls.step_answer hcall hs
  exact ⟨hraised, hanswers⟩

/-- The level is not found above the capacity. -/
def WithinCapacity (key : Key) (capacity : ℤ) (leakRate : ℚ) (now : ℕ) (c : Calls S ℕ) : Prop :=
  ∀ level last, (keys c.store).entries key = some ⟨.number level, none⟩ →
    (keys c.store).entries (lastCheckKey key) = some ⟨.number last, none⟩ → level - (now - last) * leakRate ≤ capacity

theorem leaked_le {b : Bucket} {c : Calls S ℕ} {now : ℕ} (hc : 0 ≤ capacity) (hb : Holds key b (keys c.store))
    (h : WithinCapacity key capacity leakRate now c) : leaked leakRate now b ≤ capacity := by
  have hcap : (0 : ℚ) ≤ capacity := by exact_mod_cast hc
  match b with
  | none => exact hcap
  | some (level, last) => exact max_le hcap (h level last hb.1 hb.2)

/-- The level accounts for what was allowed. -/
structure Accounted (key : Key) (capacity : ℤ) (leakRate : ℚ) (c : Calls S ℕ) (b : Bucket) (last : ℕ) : Prop where
  holds : Holds key b (keys c.store)
  order : ∀ now, c.InOrder now → last ≤ now
  metered : Metered leakRate (capacity + 1) c.timed (leaked leakRate last b) last
  latest : ∀ level since, b = some (level, since) → since = last

theorem holds_none (key : Key) : Holds key none (keys (Calls.none : Calls S ℕ).store) :=
  ⟨Calls.none_entries key, Calls.none_entries _⟩

theorem accounted_none (hc : 0 ≤ capacity) (hr : 0 ≤ leakRate) :
    Accounted key capacity leakRate (Calls.none : Calls S ℕ) none 0 := by
  have hcap : (0 : ℚ) ≤ capacity := by exact_mod_cast hc
  refine ⟨holds_none key, fun now _ => Nat.zero_le now, .start hr (by linarith) _, fun _ _ h => ?_⟩
  cases h

/-- No more leaks than the rate lets. -/
theorem leaked_later {b : Bucket} {last now : ℕ} (h : ∀ level since, b = some (level, since) → since = last)
    (hr : 0 ≤ leakRate) (hle : last ≤ now) :
    leaked leakRate last b - leakRate * (now - last) ≤ leaked leakRate now b := by
  have hleaks := mul_nonneg hr (sub_nonneg.mpr (Nat.cast_le (α := ℚ).mpr hle))
  match b with
  | none =>
    rw [leaked, leaked]
    linarith
  | some (level, since) =>
    cases h level since rfl
    rw [leaked, leaked, sub_self, zero_mul, sub_zero, mul_comm ((now : ℚ) - last)]
    rcases max_choice 0 level with hmax | hmax
    · rw [hmax]
      exact (by linarith : (0 : ℚ) - leakRate * (now - last) ≤ 0).trans (le_max_left ..)
    · rw [hmax]
      exact le_max_right ..

theorem step_accounted {c c' : Calls S ℕ} {b : Bucket} {last now : ℕ} (hc : 0 ≤ capacity) (hr : 0 ≤ leakRate)
    (h : Accounted key capacity leakRate c b last) (horder : c.InOrder now)
    (hwithin : WithinCapacity key capacity leakRate now c) (hs : step key capacity leakRate now c = some c') :
    Accounted key capacity leakRate c' (some (raised capacity leakRate now b, now)) now := by
  obtain ⟨hholds, hlast, hmetered, hlatest⟩ := h
  obtain ⟨hholds', hanswers⟩ := step_holds hholds hs
  have hle := hlast now horder
  have hcap := leaked_le hc hholds hwithin
  have hnonneg := leaked_nonneg leakRate now b
  -- a call that is denied finds the bucket full, and leaves it so
  have hraised : leaked leakRate now b + (if decide (leaked leakRate now b < capacity) = true then 1 else 0) =
      raised capacity leakRate now b := by
    unfold raised
    by_cases hroom : leaked leakRate now b < capacity
    · rw [if_pos hroom, decide_eq_true hroom, if_pos rfl]
    · rw [if_neg hroom, decide_eq_false hroom]
      have hfull := le_antisymm hcap (not_lt.mp hroom)
      simpa using hfull
  have hmost : raised capacity leakRate now b ≤ capacity + 1 := by
    unfold raised
    split <;> linarith
  have hlevel : 0 ≤ raised capacity leakRate now b := by
    rw [← hraised]
    split <;> linarith
  refine ⟨hholds', fun t ht => Calls.le_of_inOrder hanswers ht, ?_, fun level since h => ?_⟩
  · rw [Calls.timed_append hanswers, leaked_at_once hlevel]
    exact hmetered.answer hr (Nat.cast_le.mpr hle) (leaked_later hlatest hr hle) hnonneg (le_of_eq hraised) hmost
  · cases h
    rfl

/-- In a run that never finds the level above the capacity, the calls allowed are bounded. -/
theorem run_accounted {times : List ℕ} {c c' : Calls S ℕ} (hc : 0 ≤ capacity) (hr : 0 ≤ leakRate)
    (h : Run (step key capacity leakRate)
      (fun now c => c.InOrder now ∧ WithinCapacity key capacity leakRate now c) c times c') :
    (∃ b last, Accounted key capacity leakRate c b last) → ∃ b last, Accounted key capacity leakRate c' b last := by
  refine Run.invariant (I := fun c => ∃ b last, Accounted key capacity leakRate c b last) ?_ h
  intro now c c' hi hp hs
  obtain ⟨b, last, hacc⟩ := hi
  exact ⟨_, _, step_accounted hc hr hacc hp.1 hp.2 hs⟩

/-! ## A rate that leaks whole levels -/

/-- A whole level within the capacity, of a call that is not later than the next. -/
def Whole (key : Key) (capacity : ℤ) (c : Calls S ℕ) : Prop :=
  ∃ b, Holds key b (keys c.store) ∧ ∀ level last, b = some (level, last) →
    (∃ n : ℕ, level = n ∧ n ≤ capacity) ∧ ∀ now, c.InOrder now → last ≤ now

theorem whole_none : Whole key capacity (Calls.none : Calls S ℕ) := ⟨none, holds_none key, fun _ _ h => by cases h⟩

/-- What is left of a whole level is whole. -/
theorem leaked_whole {b : Bucket} {now : ℕ} (hr : 0 ≤ leakRate)
    (hrate : (∃ k : ℕ, leakRate = k) ∨ (capacity : ℚ) ≤ leakRate) (hc : 0 ≤ capacity)
    (h : ∀ level last, b = some (level, last) → (∃ n : ℕ, level = n ∧ n ≤ capacity) ∧ last ≤ now) :
    ∃ n : ℕ, leaked leakRate now b = n ∧ n ≤ capacity := by
  match b with
  | none => exact ⟨0, Nat.cast_zero.symm, hc⟩
  | some (level, last) =>
    obtain ⟨⟨n, rfl, hn⟩, hlast⟩ := h level last rfl
    obtain ⟨d, rfl⟩ := Nat.exists_eq_add_of_le hlast
    have helapsed : ((last + d : ℕ) : ℚ) - last = d := by
      push_cast
      ring
    rw [leaked, helapsed]
    rcases hrate with ⟨k, rfl⟩ | hrate
    · refine ⟨n - d * k, ?_, by omega⟩
      rcases Nat.le_total (d * k) n with hle | hle
      · rw [Nat.cast_sub hle, Nat.cast_mul, max_eq_right (sub_nonneg.mpr (by exact_mod_cast hle))]
      · rw [Nat.sub_eq_zero_of_le hle, Nat.cast_zero, max_eq_left (sub_nonpos.mpr (by exact_mod_cast hle))]
    · -- nothing is left after a second
      rcases Nat.eq_zero_or_pos d with rfl | hd
      · refine ⟨n, ?_, hn⟩
        rw [Nat.cast_zero, zero_mul, sub_zero]
        exact max_eq_right (Nat.cast_nonneg n)
      · refine ⟨0, ?_, hc⟩
        have hd1 : (1 : ℚ) ≤ d := by exact_mod_cast hd
        have hleaks := mul_le_mul_of_nonneg_right hd1 hr
        have hn' : (n : ℚ) ≤ capacity := by exact_mod_cast hn
        rw [Nat.cast_zero]
        exact max_eq_left (by linarith)

theorem raised_whole {b : Bucket} {now : ℕ} (hc : 0 ≤ capacity)
    (h : ∃ n : ℕ, leaked leakRate now b = n ∧ n ≤ capacity) :
    ∃ n : ℕ, raised capacity leakRate now b = n ∧ n ≤ capacity := by
  obtain ⟨n, hn, hle⟩ := h
  unfold raised
  split
  · rename_i hroom
    rw [hn] at hroom ⊢
    have hlt : (n : ℤ) < capacity := by exact_mod_cast hroom
    exact ⟨n + 1, (Nat.cast_succ n).symm, by push_cast; omega⟩
  · obtain ⟨m, rfl⟩ := Int.eq_ofNat_of_zero_le hc
    exact ⟨m, rfl, le_refl _⟩

theorem step_whole {c c' : Calls S ℕ} {now : ℕ} (hr : 0 ≤ leakRate)
    (hrate : (∃ k : ℕ, leakRate = k) ∨ (capacity : ℚ) ≤ leakRate) (hc : 0 ≤ capacity) (horder : c.InOrder now)
    (h : Whole key capacity c) (hs : step key capacity leakRate now c = some c') : Whole key capacity c' := by
  obtain ⟨b, hb, hwhole⟩ := h
  obtain ⟨hb', hanswers⟩ := step_holds hb hs
  refine ⟨_, hb', fun level last hlevel => ?_⟩
  cases hlevel
  refine ⟨raised_whole hc (leaked_whole hr hrate hc fun level last hlevel => ?_),
    fun later hlater => Calls.le_of_inOrder hanswers hlater⟩
  obtain ⟨hn, hlast⟩ := hwhole level last hlevel
  exact ⟨hn, hlast now horder⟩

theorem within_of_whole {c : Calls S ℕ} {now : ℕ} (hr : 0 ≤ leakRate) (horder : c.InOrder now) (h : Whole key capacity c) :
    WithinCapacity key capacity leakRate now c := by
  obtain ⟨b, hb, hwhole⟩ := h
  intro level last hlevel hlast
  match b with
  | none => cases hb.1.symm.trans hlevel
  | some (x, t) =>
    obtain ⟨⟨n, rfl, hn⟩, ht⟩ := hwhole x t rfl
    rw [← (Keys.number_inj hb.1 hlevel).1, ← (Keys.number_inj hb.2 hlast).1]
    have hleaks := mul_nonneg (sub_nonneg.mpr (Nat.cast_le (α := ℚ).mpr (ht now horder))) hr
    have hn' : (n : ℚ) ≤ capacity := by exact_mod_cast hn
    linarith

theorem run_within {times : List ℕ} {c c' : Calls S ℕ} (hr : 0 ≤ leakRate)
    (hrate : (∃ k : ℕ, leakRate = k) ∨ (capacity : ℚ) ≤ leakRate) (hc : 0 ≤ capacity)
    (h : Run (step key capacity leakRate) Calls.InOrder c times c') : Whole key capacity c →
    Run (step key capacity leakRate) (fun now c => c.InOrder now ∧ WithinCapacity key capacity leakRate now c) c times
      c' := by
  induction h with
  | nil c => exact fun _ => .nil c
  | cons horder hs _ ih =>
    intro hwhole
    exact .cons ⟨horder, within_of_whole hr horder hwhole⟩ hs (ih (step_whole hr hrate hc horder hwhole hs))

/-! ## A rate that does not -/

/-- As many calls at one time as find room are allowed. -/
theorem burst {t : ℕ} : ∀ (k : ℕ) {c : Calls S ℕ} {b : Bucket}, Holds key b (keys c.store) → c.InOrder t →
    leaked leakRate t b + k < capacity + 1 →
    ∃ c' b', Run (step key capacity leakRate) Calls.InOrder c (List.replicate k t) c' ∧ Holds key b' (keys c'.store) ∧
      leaked leakRate t b' = leaked leakRate t b + k ∧ c'.InOrder t ∧
      c'.answers = c.answers ++ List.replicate k (t, true) := by
  intro k
  induction k with
  | zero =>
    intro c b hb horder _
    exact ⟨c, b, .nil c, hb, by simp, horder, (List.append_nil _).symm⟩
  | succ k ih =>
    intro c b hb horder hk
    rw [Nat.cast_succ] at hk
    have hk0 : (0 : ℚ) ≤ k := Nat.cast_nonneg k
    have hroom : leaked leakRate t b < capacity := by linarith
    obtain ⟨s', hcall, hraised⟩ := @call_eq key capacity leakRate S _ b c.store t hb
    rw [decide_eq_true hroom] at hcall
    rw [raised, if_pos hroom] at hraised
    have hnonneg := leaked_nonneg leakRate t b
    have hlevel := @leaked_at_once leakRate (leaked leakRate t b + 1) (by linarith) t
    obtain ⟨c', b', hrun, hb', hleaked, horder', hanswers⟩ := ih (c := ⟨s', c.answers ++ [(t, true)]⟩) hraised
      (Calls.inOrder_concat horder (le_refl t) true s') (by linarith)
    refine ⟨c', b', .cons horder (Calls.step_of_call hcall) hrun, hb', ?_, horder', ?_⟩
    · rw [hleaked, hlevel, Nat.cast_succ]
      ring
    · rw [hanswers, List.append_assoc]
      rfl

/-- Calls until one is denied, which sets the level to the capacity. -/
theorem round {t k : ℕ} {c : Calls S ℕ} {b : Bucket} (hb : Holds key b (keys c.store)) (horder : c.InOrder t)
    (hroom : leaked leakRate t b + k < capacity + 1) (hfull : capacity ≤ leaked leakRate t b + k) :
    ∃ times c', Run (step key capacity leakRate) Calls.InOrder c times c' ∧
      Holds key (some (capacity, t)) (keys c'.store) ∧ (∀ later, t ≤ later → c'.InOrder later) ∧
      c'.answers = c.answers ++ (List.replicate k (t, true) ++ List.replicate 1 (t, false)) := by
  obtain ⟨c1, b1, hrun, hb1, hleaked, horder1, hanswers⟩ := burst k hb horder hroom
  rw [← hleaked] at hfull
  obtain ⟨s', hcall, hraised⟩ := @call_eq key capacity leakRate S _ b1 c1.store t hb1
  rw [decide_eq_false (not_lt.mpr hfull)] at hcall
  rw [raised, if_neg (not_lt.mpr hfull)] at hraised
  refine ⟨_, _, hrun.append (.cons horder1 (Calls.step_of_call hcall) (.nil _)), hraised,
    fun later hlater => Calls.inOrder_concat horder1 hlater false s', ?_⟩
  rw [hanswers, List.append_assoc]
  rfl

variable (S) in
/-- Each second that leaks a fraction lets through the next whole number of calls. -/
theorem rounds (key : Key) (hc : 1 ≤ capacity) (hr : 0 < leakRate) (hlt : leakRate < capacity) : ∀ n : ℕ,
    ∃ times, ∃ c : Calls S ℕ, Run (step key capacity leakRate) Calls.InOrder Calls.none times c ∧
      Holds key (some (capacity, n)) (keys c.store) ∧ (∀ later, n ≤ later → c.InOrder later) ∧
      ∀ later : ℚ, n ≤ later → (letWithin c.timed 0 later : ℚ) = capacity + n * ⌈leakRate⌉₊ := by
  have hc0 : 0 ≤ capacity := by omega
  intro n
  induction n with
  | zero =>
    obtain ⟨m, rfl⟩ := Int.eq_ofNat_of_zero_le hc0
    obtain ⟨times, c, hrun, hb, horder, hanswers⟩ := @round key m leakRate S _ 0 m Calls.none none (holds_none key)
      (fun a ha => by cases ha) (by rw [leaked]; push_cast; linarith) (by rw [leaked]; push_cast; linarith)
    refine ⟨times, c, hrun, hb, horder, fun later hlater => ?_⟩
    rw [Calls.timed_append hanswers, List.map_append, List.map_replicate, List.map_replicate, letWithin_append,
      letWithin_append, letWithin_replicate m (by simp) hlater, letWithin_replicate 1 (by simp) hlater]
    show (((0 + (m + 0)) : ℕ) : ℚ) = _
    push_cast
    ring
  | succ n ih =>
    obtain ⟨times, c, hrun, hb, horder, hlet⟩ := ih
    have hleft : leaked leakRate (n + 1) (some (capacity, n)) = capacity - leakRate := by
      rw [leaked, Nat.cast_succ, add_sub_cancel_left, one_mul]
      exact max_eq_right (by linarith)
    obtain ⟨times', c', hrun', hb', horder', hanswers⟩ := round (k := ⌈leakRate⌉₊) hb (horder (n + 1) (by omega))
      (by rw [hleft]; linarith [Nat.ceil_lt_add_one hr.le]) (by rw [hleft]; linarith [Nat.le_ceil leakRate])
    refine ⟨_, c', hrun.append hrun', hb', horder', fun later hlater => ?_⟩
    have hstart : (0 : ℚ) ≤ (n + 1 : ℕ) := Nat.cast_nonneg _
    have hsooner : (n : ℚ) ≤ later := by
      push_cast at hlater
      linarith
    have hbefore := hlet later hsooner
    rw [Calls.timed_append hanswers, List.map_append, List.map_replicate, List.map_replicate, letWithin_append,
      letWithin_append, letWithin_replicate _ hstart hlater, letWithin_replicate 1 hstart hlater, Nat.cast_add, hbefore]
    push_cast
    simp
    ring

variable (S) in
/-- A rate that leaves a fraction lets through, in the end, more than it leaks. -/
theorem unbounded (key : Key) (hc : 1 ≤ capacity) (hr : 0 < leakRate) (hfraction : ∀ k : ℕ, leakRate ≠ k)
    (hlt : leakRate < capacity) :
    ∃ times, ∃ c : Calls S ℕ, Run (step key capacity leakRate) Calls.InOrder Calls.none times c ∧
      ¬ Bounded leakRate (capacity + 1) c.timed := by
  have hmore : leakRate < ⌈leakRate⌉₊ := lt_of_le_of_ne (Nat.le_ceil leakRate) (hfraction _)
  have hgap : 0 < (⌈leakRate⌉₊ : ℚ) - leakRate := sub_pos.mpr hmore
  obtain ⟨n, hn⟩ := exists_nat_gt (1 / ((⌈leakRate⌉₊ : ℚ) - leakRate))
  obtain ⟨times, c, hrun, -, -, hlet⟩ := rounds S key hc hr hlt n
  refine ⟨times, c, hrun, fun h => ?_⟩
  have hbound := h 0 n (Nat.cast_nonneg n)
  rw [hlet n (le_refl _), sub_zero] at hbound
  have hgained := (div_lt_iff₀ hgap).mp hn
  have hsplit : (n : ℚ) * (⌈leakRate⌉₊ - leakRate) = n * ⌈leakRate⌉₊ - leakRate * n := by ring
  linarith

variable (S) in
/-- In every run that never finds the level above the capacity, the calls allowed in any
    interval are at most the capacity, one more, and what leaks in it. They are so in every
    run just if the rate is a whole number or empties the bucket in a second. -/
theorem leaky_bucket_bounded_iff (key : Key) (capacity : ℤ) (hc : 1 ≤ capacity) (leakRate : ℚ) (hr : 0 < leakRate) :
    (∀ times, ∀ c : Calls S ℕ, Run (step key capacity leakRate)
        (fun now c => c.InOrder now ∧ WithinCapacity key capacity leakRate now c) Calls.none times c →
      Bounded leakRate (capacity + 1) c.timed) ∧
    ((∀ times, ∀ c : Calls S ℕ, Run (step key capacity leakRate) Calls.InOrder Calls.none times c →
        Bounded leakRate (capacity + 1) c.timed) ↔ (∃ k : ℕ, leakRate = k) ∨ (capacity : ℚ) ≤ leakRate) := by
  have hc0 : 0 ≤ capacity := by omega
  have hall : ∀ times, ∀ c : Calls S ℕ, Run (step key capacity leakRate)
      (fun now c => c.InOrder now ∧ WithinCapacity key capacity leakRate now c) Calls.none times c →
      Bounded leakRate (capacity + 1) c.timed := by
    intro times c h
    obtain ⟨_, _, hacc⟩ := run_accounted hc0 hr.le h ⟨none, 0, accounted_none hc0 hr.le⟩
    exact hacc.metered.bounded
  refine ⟨hall, fun h => ?_, fun hrate times c h => ?_⟩
  · by_contra hrate
    rw [not_or, not_exists] at hrate
    obtain ⟨times, c, hrun, hnot⟩ := unbounded S key hc hr hrate.1 (not_le.mp hrate.2)
    exact hnot (h times c hrun)
  · exact hall times c (run_within hr.le hrate hc0 h whole_none)

theorem leaky_bucket_bounded_iff_whole :
    (∀ times, ∀ c : Calls (Keys ℤ) ℕ,
      Run (step ['k'] 2 1) (fun now c => c.InOrder now ∧ WithinCapacity ['k'] 2 1 now c) Calls.none times c →
      Bounded 1 (((2 : ℤ) : ℚ) + 1) c.timed) ∧
    ((∀ times, ∀ c : Calls (Keys ℤ) ℕ, Run (step ['k'] 2 1) Calls.InOrder Calls.none times c →
        Bounded 1 (((2 : ℤ) : ℚ) + 1) c.timed) ↔
      (∃ k : ℕ, (1 : ℚ) = k) ∨ ((2 : ℤ) : ℚ) ≤ 1) :=
  leaky_bucket_bounded_iff (Keys ℤ) ['k'] 2 (by decide) 1 zero_lt_one

/-- Two calls in each second, on a bucket of one call that leaks half a call: one of them
    is allowed. -/
theorem leaky_bucket_not_bounded :
    ∃ c : Calls (Keys ℤ) ℕ, Run (step ['k'] 1 (1 / 2)) Calls.InOrder Calls.none [0, 0, 1, 1, 2, 2, 3, 3] c ∧
      ¬ Bounded (1 / 2) (((1 : ℤ) : ℚ) + 1) c.timed := by
  obtain ⟨c, hrun, hlet⟩ : ∃ c : Calls (Keys ℤ) ℕ,
      Run (step ['k'] 1 (1 / 2)) Calls.InOrder Calls.none [0, 0, 1, 1, 2, 2, 3, 3] c ∧
      letWithin c.timed 0 3 = 4 := ⟨_, run_get _ _ _ _ (by decide +kernel), by decide +kernel⟩
  refine ⟨c, hrun, fun h => ?_⟩
  have hbound := h 0 3 (by norm_num)
  rw [hlet] at hbound
  norm_num at hbound

end Glaive.Redis.LeakyBucket
