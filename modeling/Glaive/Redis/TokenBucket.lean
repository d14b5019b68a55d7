/-
  Glaive.Redis.TokenBucket — calls of the token bucket on one key.

  The script keeps the tokens and the second of the last call that was allowed, under one
  time to live. It may find more tokens than that call left and the time since has
  refilled: a bucket whose keys have expired is full again, whatever the refill rate, and
  a call that is earlier in its second than the last one was is credited a second that is
  not over. The calls allowed in any interval are bounded by the capacity and what is
  refilled in it as long as no call finds more (`KeepsPace`). Of calls on the second that
  is so for every sequence just if the period refills the whole capacity; of calls at any
  time, for no configuration (`token_bucket_bounded_iff`).
-/

import Glaive.Lib.Metering
import Glaive.Redis.Client
import Mathlib.Algebra.Order.Archimedean.Basic
import Mathlib.Algebra.Order.Floor.Semiring

namespace Glaive.Redis.TokenBucket

open Glaive.Lib

/-- The tokens left, and the time of the last call that was allowed. -/
abbrev Bucket : Type := Option (ℚ × ℚ)

variable {key : Key} {capacity : ℤ} {refillRate : ℚ} {periodSeconds : ℕ}

/-- The keys hold the bucket, or held it before they expired. -/
def Holds (key : Key) (periodSeconds : ℕ) : Bucket → Keys ℚ → Prop
  | none, s => s.entries key = none ∧ s.entries (lastRefillKey key) = none
  | some (tokens, since), s =>
    s.entries key = some ⟨.number tokens, some (since + periodSeconds)⟩ ∧
      s.entries (lastRefillKey key) = some ⟨.number ⌊since⌋₊, some (since + periodSeconds)⟩

/-- The tokens there would be at `time`, refilled since the last call that was allowed. -/
def filled (capacity : ℤ) (refillRate : ℚ) (time : ℚ) : Bucket → ℚ
  | none => capacity
  | some (tokens, since) => min capacity (tokens + (time - since) * refillRate)

/-- The tokens the script finds at `time`. -/
def refilled (capacity : ℤ) (refillRate : ℚ) (periodSeconds : ℕ) (time : ℚ) : Bucket → ℚ
  | none => capacity
  | some (tokens, since) =>
    if since + periodSeconds ≤ time then capacity
    else min capacity (tokens + ((⌊time⌋₊ : ℚ) - ⌊since⌋₊) * refillRate)

/-- The bucket after a call. -/
def after (capacity : ℤ) (refillRate : ℚ) (periodSeconds : ℕ) (time : ℚ) (b : Bucket) : Bucket :=
  if 1 ≤ refilled capacity refillRate periodSeconds time b then
    some (refilled capacity refillRate periodSeconds time b - 1, time)
  else b

theorem lastRefillKey_ne (key : Key) : lastRefillKey key ≠ key := suffixed_ne key (by decide)

/-! ## One call -/

variable {b : Bucket} {s : Keys ℚ} {time : ℚ}

/-- What the script reads is what it takes the bucket to hold. -/
theorem reads_refilled (hr : 0 ≤ refillRate) (h : Holds key periodSeconds b s) :
    ∃ last tokens : Option ℚ, get time (lastRefillKey key) s = (.ok last, s) ∧ get time key s = (.ok tokens, s) ∧
      min (capacity : ℚ) (tokens.getD capacity + ((⌊time⌋₊ : ℚ) - last.getD 0) * refillRate) =
        refilled capacity refillRate periodSeconds time b := by
  -- keys that are not there are a full bucket since the start of the clock
  have hfull : min (capacity : ℚ) (capacity + ((⌊time⌋₊ : ℚ) - 0) * refillRate) = capacity := by
    apply min_eq_left
    have := mul_nonneg (Nat.cast_nonneg (α := ℚ) ⌊time⌋₊) hr
    linarith
  match b with
  | none =>
    obtain ⟨htokens, hlast⟩ := h
    exact ⟨none, none, Keys.get_none (TimedStore.find_none hlast), Keys.get_none (TimedStore.find_none htokens), hfull⟩
  | some (tokens, since) =>
    obtain ⟨htokens, hlast⟩ := h
    by_cases hexp : since + periodSeconds ≤ time
    · refine ⟨none, none, Keys.get_none (TimedStore.find_expired hlast rfl hexp),
        Keys.get_none (TimedStore.find_expired htokens rfl hexp), ?_⟩
      rw [refilled, if_pos hexp]
      exact hfull
    · have hlive : ∀ d, some (since + (periodSeconds : ℚ)) = some d → time < d := by
        intro d hd
        cases hd
        exact not_le.mp hexp
      refine ⟨some ⌊since⌋₊, some tokens, Keys.get_number (TimedStore.find_of_entries hlast hlive),
        Keys.get_number (TimedStore.find_of_entries htokens hlive), ?_⟩
      rw [refilled, if_neg hexp]
      rfl

/-- What the script writes when it allows a call. -/
theorem writes_bucket (s : Keys ℚ) (time : ℚ) (tokens : ℚ) :
    ∃ s', (do
        set key tokens
        set (lastRefillKey key) ⌊time⌋₊
        expire time key periodSeconds
        expire time (lastRefillKey key) periodSeconds
        return true : Async (Keys ℚ) Bool) s = (.ok true, s') ∧
      Holds key periodSeconds (some (tokens, time)) s' := by
  have hne := lastRefillKey_ne key
  have hset : ∀ (key : Key) (q : ℚ) (s : Keys ℚ), set key q s = (.ok (), TimedStore.set s key (.number q)) :=
    fun _ _ _ => rfl
  have hexpire : ∀ {key : Key} {s : Keys ℚ} {e : Timed Value ℚ}, s.find time key = some e →
      expire time key (periodSeconds : ℚ) s = (.ok (), s.put key ⟨e.value, some (time + periodSeconds)⟩) := by
    intro key s e hfind
    show Keys.expire time key (periodSeconds : ℚ) s = _
    unfold Keys.expire
    rw [Async.modify_apply, TimedStore.expireAt_of_find hfind]
  have htokens : (TimedStore.set (TimedStore.set s key (.number tokens)) (lastRefillKey key) (.number ⌊time⌋₊)).find time
      key = some ⟨.number tokens, none⟩ := (TimedStore.find_put_ne hne.symm).trans (TimedStore.find_set _)
  have hlast : ((TimedStore.set (TimedStore.set s key (.number tokens)) (lastRefillKey key) (.number ⌊time⌋₊)).put key
      ⟨.number tokens, some (time + periodSeconds)⟩).find time (lastRefillKey key) = some ⟨.number ⌊time⌋₊, none⟩ :=
    (TimedStore.find_put_ne hne).trans (TimedStore.find_set _)
  rw [Async.bind_ok (hset ..), Async.bind_ok (hset ..), Async.bind_ok (hexpire htokens), Async.bind_ok (hexpire hlast)]
  refine ⟨_, rfl, ?_, TimedStore.entries_put⟩
  rw [TimedStore.entries_put_ne hne.symm]
  exact TimedStore.entries_put

theorem asSecs_eq {σ : Type} (ht : 0 ≤ time) (s : σ) : asSecs time s = (.ok ⌊time⌋₊, s) := by
  unfold asSecs
  rw [if_neg (not_lt.mpr ht)]

theorem keys_call_eq (ht : 0 ≤ time) (hr : 0 ≤ refillRate) (h : Holds key periodSeconds b s) :
    ∃ s', tokenBucketRateLimit key capacity refillRate periodSeconds time s =
        (.ok (decide (1 ≤ refilled capacity refillRate periodSeconds time b)), s') ∧
      Holds key periodSeconds (after capacity refillRate periodSeconds time b) s' := by
  obtain ⟨last, tokens, hlast, htokens, hrefill⟩ :=
    @reads_refilled key capacity refillRate periodSeconds b s time hr h
  unfold tokenBucketRateLimit after
  rw [Async.bind_ok (asSecs_eq ht s), Async.bind_ok hlast, Async.bind_ok htokens]
  simp only [hrefill]
  by_cases hone : 1 ≤ refilled capacity refillRate periodSeconds time b
  · simp only [if_pos hone, decide_eq_true hone]
    exact writes_bucket s time _
  · simp only [if_neg hone, decide_eq_false hone]
    exact ⟨s, rfl, h⟩

variable {S : Type} [RedisServer S ℚ]

theorem call_eq {s : S} (ht : 0 ≤ time) (hr : 0 ≤ refillRate) (h : Holds key periodSeconds b (keys s)) :
    ∃ s', tokenBucketRateLimit key capacity refillRate periodSeconds time s =
        (.ok (decide (1 ≤ refilled capacity refillRate periodSeconds time b)), s') ∧
      Holds key periodSeconds (after capacity refillRate periodSeconds time b) (keys s') := by
  obtain ⟨k, hkeys, hholds⟩ := @keys_call_eq key capacity refillRate periodSeconds b (keys s) time ht hr h
  obtain ⟨s', hcall, rfl⟩ := (tokenBucketRateLimit_seen key capacity refillRate periodSeconds time).lift hkeys
  exact ⟨s', hcall, hholds⟩

/-! ## A run of calls -/

/-- The calls in order on one bucket. -/
abbrev step (key : Key) (capacity : ℤ) (refillRate : ℚ) (periodSeconds : ℕ) :
    ℚ → Calls S ℚ → Option (Calls S ℚ) :=
  Calls.step (tokenBucketRateLimit key capacity refillRate periodSeconds)

variable {c c' : Calls S ℚ}

/-- Before the epoch there are no calls. -/
theorem step_time (hs : step key capacity refillRate periodSeconds time c = some c') : 0 ≤ time := by
  by_contra ht
  have hpanic : tokenBucketRateLimit key capacity refillRate periodSeconds time c.store =
      (.panic "Time went backwards", c.store) := by
    unfold tokenBucketRateLimit asSecs
    rw [Async.bind_apply, if_pos (not_le.mp ht)]
  unfold step Calls.step at hs
  rw [hpanic] at hs
  cases hs

/-- The bucket holds no debt. -/
def Stocked (b : Bucket) : Prop := ∀ tokens since, b = some (tokens, since) → 0 ≤ tokens

theorem stocked_after (h : Stocked b) : Stocked (after capacity refillRate periodSeconds time b) := by
  unfold after
  split
  · rename_i hone
    intro tokens since hb
    cases hb
    exact sub_nonneg.mpr hone
  · exact h

theorem step_holds (hr : 0 ≤ refillRate) (h : Holds key periodSeconds b (keys c.store))
    (hs : step key capacity refillRate periodSeconds time c = some c') :
    Holds key periodSeconds (after capacity refillRate periodSeconds time b) (keys c'.store) ∧
      c'.answers = c.answers ++ [(time, decide (1 ≤ refilled capacity refillRate periodSeconds time b))] := by
  obtain ⟨s', hcall, hafter⟩ := call_eq (step_time hs) hr h
  obtain ⟨rfl, hanswers⟩ := Calls.step_answer hcall hs
  exact ⟨hafter, hanswers⟩

/-- The bucket would be full by `time`, or its keys have not expired and no more seconds
    are read than have gone by (with a rate of zero that is all one). -/
def KeepsPace (key : Key) (capacity : ℤ) (refillRate : ℚ) (periodSeconds : ℕ) (time : ℚ)
    (c : Calls S ℚ) : Prop :=
  ∀ tokens since, (keys c.store).entries key = some ⟨.number tokens, some (since + periodSeconds)⟩ →
    (capacity : ℚ) ≤ tokens + (time - since) * refillRate ∨
      time < since + periodSeconds ∧ ((⌊time⌋₊ : ℚ) - ⌊since⌋₊) * refillRate ≤ (time - since) * refillRate

/-- That is, the script finds no more tokens than there would be. -/
theorem keepsPace_iff (h : Holds key periodSeconds b (keys c.store)) :
    KeepsPace key capacity refillRate periodSeconds time c ↔
      refilled capacity refillRate periodSeconds time b ≤ filled capacity refillRate time b := by
  match b with
  | none =>
    refine ⟨fun _ => le_refl _, fun _ tokens since htokens => ?_⟩
    cases h.1.symm.trans htokens
  | some (tokens, since) =>
    have hsame : KeepsPace key capacity refillRate periodSeconds time c ↔
        (capacity : ℚ) ≤ tokens + (time - since) * refillRate ∨ time < since + periodSeconds ∧
          ((⌊time⌋₊ : ℚ) - ⌊since⌋₊) * refillRate ≤ (time - since) * refillRate := by
      refine ⟨fun hk => hk tokens since h.1, fun hk x t hx => ?_⟩
      obtain ⟨rfl, hdeadline⟩ := Keys.number_inj h.1 hx
      obtain rfl : since = t := add_right_cancel (Option.some.inj hdeadline)
      exact hk
    rw [hsame, refilled, filled]
    by_cases hexp : since + periodSeconds ≤ time
    · rw [if_pos hexp, le_min_iff]
      exact ⟨fun hk => ⟨le_refl _, hk.resolve_right fun hlive => absurd hexp (not_le.mpr hlive.1)⟩, fun hk => .inl hk.2⟩
    · rw [if_neg hexp, le_min_iff]
      constructor
      · intro hk
        refine ⟨min_le_left .., min_le_iff.mpr ?_⟩
        rcases hk with hfull | ⟨-, hread⟩
        · exact .inl hfull
        · exact .inr (by linarith)
      · intro hk
        rcases min_le_iff.mp hk.2 with hfull | hread
        · exact .inl hfull
        · exact .inr ⟨not_le.mp hexp, by linarith⟩

/-- What is missing in the bucket accounts for what was allowed. -/
structure Accounted (key : Key) (capacity : ℤ) (refillRate : ℚ) (periodSeconds : ℕ)
    (c : Calls S ℚ) (b : Bucket) (last : ℚ) : Prop where
  holds : Holds key periodSeconds b (keys c.store)
  stocked : Stocked b
  before : ∀ tokens since, b = some (tokens, since) → since ≤ last
  order : ∀ time, 0 ≤ time → c.InOrder time → last ≤ time
  metered : Metered refillRate capacity c.answers (capacity - filled capacity refillRate last b) last

theorem filled_le (b : Bucket) (time : ℚ) : filled capacity refillRate time b ≤ capacity := by
  match b with
  | none => exact le_refl _
  | some (tokens, since) => exact min_le_left ..

/-- No more is refilled than the rate gives. -/
theorem filled_later (b : Bucket) {last : ℚ} (hr : 0 ≤ refillRate) (h : last ≤ time) :
    filled capacity refillRate time b ≤ filled capacity refillRate last b + refillRate * (time - last) := by
  have hmore := mul_nonneg hr (sub_nonneg.mpr h)
  match b with
  | none =>
    rw [filled, filled]
    linarith
  | some (tokens, since) =>
    rw [filled, filled]
    rcases min_choice (capacity : ℚ) (tokens + (last - since) * refillRate) with hmin | hmin
    · rw [hmin]
      have := min_le_left (capacity : ℚ) (tokens + (time - since) * refillRate)
      linarith
    · rw [hmin]
      have := min_le_right (capacity : ℚ) (tokens + (time - since) * refillRate)
      linarith

theorem filled_nonneg (hc : 0 ≤ capacity) (hr : 0 ≤ refillRate) (h : Stocked b)
    (hbefore : ∀ tokens since, b = some (tokens, since) → since ≤ time) : 0 ≤ filled capacity refillRate time b := by
  have hcap : (0 : ℚ) ≤ capacity := by exact_mod_cast hc
  match b with
  | none => exact hcap
  | some (tokens, since) =>
    have hmore := mul_nonneg (sub_nonneg.mpr (hbefore tokens since rfl)) hr
    exact le_min hcap (add_nonneg (h tokens since rfl) hmore)

theorem holds_none (key : Key) (periodSeconds : ℕ) :
    Holds key periodSeconds none (keys (Calls.none : Calls S ℚ).store) :=
  ⟨Calls.none_entries key, Calls.none_entries _⟩

theorem accounted_none (hc : 0 ≤ capacity) (hr : 0 ≤ refillRate) :
    Accounted key capacity refillRate periodSeconds (Calls.none : Calls S ℚ) none 0 := by
  refine ⟨holds_none key periodSeconds, fun _ _ h => ?_, fun _ _ h => ?_, fun time ht _ => ht, ?_⟩
  · cases h
  · cases h
  · rw [filled, sub_self]
    exact .start hr (by exact_mod_cast hc) _

theorem step_accounted {last : ℚ} (hc : 0 ≤ capacity) (hr : 0 ≤ refillRate)
    (h : Accounted key capacity refillRate periodSeconds c b last) (horder : c.InOrder time)
    (hpace : KeepsPace key capacity refillRate periodSeconds time c)
    (hs : step key capacity refillRate periodSeconds time c = some c') :
    Accounted key capacity refillRate periodSeconds c' (after capacity refillRate periodSeconds time b) time := by
  obtain ⟨hholds, hstocked, hbefore, hlast, hmetered⟩ := h
  obtain ⟨hholds', hanswers⟩ := step_holds hr hholds hs
  have hle := hlast time (step_time hs) horder
  have hrefilled := (keepsPace_iff hholds).mp hpace
  have hsince : ∀ tokens since, after capacity refillRate periodSeconds time b = some (tokens, since) → since ≤ time := by
    intro tokens since hb
    unfold after at hb
    split at hb
    · cases hb
      exact le_refl _
    · exact (hbefore tokens since hb).trans hle
  have hcap := @filled_le capacity refillRate b time
  have hlater := @filled_later capacity refillRate time b last hr hle
  have hleft : capacity - filled capacity refillRate time b +
      (if decide (1 ≤ refilled capacity refillRate periodSeconds time b) = true then 1 else 0) ≤
      capacity - filled capacity refillRate time (after capacity refillRate periodSeconds time b) := by
    unfold after
    by_cases hone : 1 ≤ refilled capacity refillRate periodSeconds time b
    · have hsame : filled capacity refillRate time (some (refilled capacity refillRate periodSeconds time b - 1, time)) =
          refilled capacity refillRate periodSeconds time b - 1 := by
        rw [filled, sub_self, zero_mul, add_zero]
        exact min_eq_right (by linarith)
      rw [if_pos hone, decide_eq_true hone, hsame, if_pos rfl]
      linarith
    · rw [if_neg hone, decide_eq_false hone]
      simp
  have hstocked' : Stocked (after capacity refillRate periodSeconds time b) := stocked_after hstocked
  have hnonneg := filled_nonneg hc hr hstocked' hsince
  refine ⟨hholds', hstocked', hsince, fun t _ ht => Calls.le_of_inOrder hanswers ht, ?_⟩
  rw [hanswers]
  exact hmetered.answer hr hle (by linarith) (by linarith) hleft (by linarith)

/-- In a run whose calls find no more than is refilled, those allowed are bounded. -/
theorem run_bounded {times : List ℚ} (hc : 0 ≤ capacity) (hr : 0 ≤ refillRate)
    (h : Run (step key capacity refillRate periodSeconds)
      (fun time c => c.InOrder time ∧ KeepsPace key capacity refillRate periodSeconds time c) c times c') :
    (∃ b last, Accounted key capacity refillRate periodSeconds c b last) →
      ∃ b last, Accounted key capacity refillRate periodSeconds c' b last := by
  refine Run.invariant (I := fun c => ∃ b last, Accounted key capacity refillRate periodSeconds c b last) ?_ h
  intro time c c' hi hp hs
  obtain ⟨b, last, hacc⟩ := hi
  exact ⟨_, _, step_accounted hc hr hacc hp.1 hp.2 hs⟩

/-! ## Calls on the second -/

def OnSecond (time : ℚ) : Prop := ∃ n : ℕ, time = n

/-- The store holds a bucket that was never in debt, of a call on the second. -/
def Kept (key : Key) (periodSeconds : ℕ) (c : Calls S ℚ) : Prop :=
  ∃ b, Holds key periodSeconds b (keys c.store) ∧ Stocked b ∧ ∀ tokens since, b = some (tokens, since) → OnSecond since

theorem kept_none : Kept key periodSeconds (Calls.none : Calls S ℚ) := by
  refine ⟨none, holds_none key periodSeconds, fun _ _ h => ?_, fun _ _ h => ?_⟩ <;> cases h

theorem step_kept (hr : 0 ≤ refillRate) (h : Kept key periodSeconds c) (ht : OnSecond time)
    (hs : step key capacity refillRate periodSeconds time c = some c') : Kept key periodSeconds c' := by
  obtain ⟨b, hb, hstocked, hsecond⟩ := h
  refine ⟨_, (step_holds hr hb hs).1, stocked_after hstocked, fun tokens since hafter => ?_⟩
  unfold after at hafter
  split at hafter
  · cases hafter
    exact ht
  · exact hsecond tokens since hafter

/-- A period that refills the whole capacity has refilled any bucket that has expired. -/
theorem keepsPace_of_period (hr : 0 ≤ refillRate) (h : Kept key periodSeconds c) (ht : OnSecond time)
    (hperiod : (capacity : ℚ) ≤ refillRate * periodSeconds) :
    KeepsPace key capacity refillRate periodSeconds time c := by
  obtain ⟨b, hb, hstocked, hsecond⟩ := h
  rw [keepsPace_iff hb]
  match b with
  | none => exact le_refl _
  | some (tokens, since) =>
    have hnonneg := hstocked tokens since rfl
    obtain ⟨m, rfl⟩ := hsecond tokens since rfl
    obtain ⟨n, rfl⟩ := ht
    rw [refilled, filled, Nat.floor_natCast, Nat.floor_natCast]
    split
    · rename_i hexp
      have hmore := mul_le_mul_of_nonneg_left (show (periodSeconds : ℚ) ≤ n - m by linarith) hr
      exact le_min (le_refl _) (by linarith)
    · exact le_refl _

/-- As many calls at one time as the bucket has tokens are allowed. -/
theorem burst {t : ℚ} (ht : 0 ≤ t) (hr : 0 ≤ refillRate) {Q : ℚ → Prop} (hQ : Q t) :
    ∀ (k : ℕ) {c : Calls S ℚ} {b : Bucket}, Holds key periodSeconds b (keys c.store) → Stocked b →
    c.InOrder t → (k : ℚ) ≤ refilled capacity refillRate periodSeconds t b →
    refilled capacity refillRate periodSeconds t b ≤ capacity →
    ∃ c' b', Run (step key capacity refillRate periodSeconds) (fun time c => c.InOrder time ∧ Q time) c
        (List.replicate k t) c' ∧
      Holds key periodSeconds b' (keys c'.store) ∧ Stocked b' ∧ c'.answers = c.answers ++ List.replicate k (t, true) ∧
      ((0 < k ∨ ∃ tokens, b = some (tokens, t)) → ∃ tokens, b' = some (tokens, t)) := by
  intro k
  induction k with
  | zero =>
    intro c b hb hstocked _ _ _
    refine ⟨c, b, .nil c, hb, hstocked, (List.append_nil _).symm, fun h => ?_⟩
    rcases h with h | h
    · exact absurd h (Nat.lt_irrefl 0)
    · exact h
  | succ k ih =>
    intro c b hb hstocked horder hk hcap
    rw [Nat.cast_succ] at hk
    have hk0 : (0 : ℚ) ≤ k := Nat.cast_nonneg k
    have hone : 1 ≤ refilled capacity refillRate periodSeconds t b := by linarith
    obtain ⟨s', hcall, hafter⟩ := @call_eq key capacity refillRate periodSeconds b t S _ c.store ht hr hb
    rw [decide_eq_true hone] at hcall
    have hs : step key capacity refillRate periodSeconds t c = some ⟨s', c.answers ++ [(t, true)]⟩ :=
      Calls.step_of_call hcall
    have hstocked' := @stocked_after capacity refillRate periodSeconds b t hstocked
    rw [after, if_pos hone] at hafter hstocked'
    -- what is left is enough for the others, also when the keys expire at once
    have hleft : (k : ℚ) ≤ refilled capacity refillRate periodSeconds t
        (some (refilled capacity refillRate periodSeconds t b - 1, t)) ∧
        refilled capacity refillRate periodSeconds t (some (refilled capacity refillRate periodSeconds t b - 1, t)) ≤
          capacity := by
      conv =>
        congr
        · rw [refilled, sub_self, zero_mul, add_zero]
        · rw [refilled, sub_self, zero_mul, add_zero]
      split
      · exact ⟨by linarith, le_refl _⟩
      · exact ⟨le_min (by linarith) (by linarith), min_le_left ..⟩
    have horder' := Calls.inOrder_concat horder (le_refl t) true s'
    obtain ⟨c', b', hrun, hb', hst', hanswers, hlast⟩ := ih (c := ⟨s', c.answers ++ [(t, true)]⟩) hafter hstocked' horder'
      hleft.1 hleft.2
    refine ⟨c', b', .cons ⟨horder, hQ⟩ hs hrun, hb', hst', ?_, fun _ => hlast (.inr ⟨_, rfl⟩)⟩
    rw [hanswers, List.append_assoc]
    rfl

variable (S) in
/-- The whole capacity at once, of a bucket that was never used. -/
theorem first_burst (key : Key) {n : ℕ} (hn : 0 < n) {t : ℚ} (ht : 0 ≤ t) (hr : 0 ≤ refillRate) (periodSeconds : ℕ)
    {Q : ℚ → Prop} (hQ : Q t) :
    ∃ c : Calls S ℚ, ∃ tokens, Run (step key n refillRate periodSeconds) (fun time c => c.InOrder time ∧ Q time) Calls.none
        (List.replicate n t) c ∧
      Holds key periodSeconds (some (tokens, t)) (keys c.store) ∧ Stocked (some (tokens, t)) ∧
      c.answers = List.replicate n (t, true) ∧ ∀ later, t ≤ later → c.InOrder later := by
  obtain ⟨c, b, hrun, hb, hstocked, hanswers, hlast⟩ := @burst key n refillRate periodSeconds S _ t ht hr Q hQ n Calls.none
    none (holds_none key periodSeconds) (fun _ _ h => by cases h) (fun a ha => by cases ha) (by rw [refilled]; simp) (le_refl _)
  obtain ⟨tokens, rfl⟩ := hlast (.inl hn)
  have hall : c.answers = List.replicate n (t, true) := hanswers.trans (List.nil_append _)
  refine ⟨c, tokens, hrun, hb, hstocked, hall, fun later hle a ha => ?_⟩
  rw [hall] at ha
  rw [List.eq_of_mem_replicate ha]
  exact hle

variable (S) in
/-- Two bursts of the whole capacity, a period apart. -/
theorem two_bursts (key : Key) (hc : 1 ≤ capacity) (hr : 0 ≤ refillRate) (periodSeconds : ℕ) :
    ∃ times, ∃ c : Calls S ℚ,
      Run (step key capacity refillRate periodSeconds) (fun time c => c.InOrder time ∧ OnSecond time) Calls.none
        times c ∧ (letWithin c.answers 0 periodSeconds : ℚ) = 2 * capacity := by
  obtain ⟨n, rfl⟩ := Int.eq_ofNat_of_zero_le (show 0 ≤ capacity by omega)
  have hlater : (0 : ℚ) ≤ periodSeconds := Nat.cast_nonneg _
  obtain ⟨c1, tokens, hrun1, hb1, hstocked1, hanswers1, horder⟩ := first_burst S key (show 0 < n by omega) (le_refl 0) hr
    periodSeconds (Q := OnSecond) ⟨0, Nat.cast_zero.symm⟩
  have hfull : refilled n refillRate periodSeconds periodSeconds (some (tokens, 0)) = ((n : ℤ) : ℚ) := by
    rw [refilled, if_pos (by rw [zero_add])]
  obtain ⟨c2, b2, hrun2, -, -, hanswers2, -⟩ := burst hlater hr (Q := OnSecond) ⟨periodSeconds, rfl⟩ n hb1 hstocked1
    (horder _ hlater) (by rw [hfull]; simp) (le_of_eq hfull)
  refine ⟨_, c2, hrun1.append hrun2, ?_⟩
  rw [hanswers2, hanswers1, letWithin_append, letWithin_replicate n (le_refl _) hlater,
    letWithin_replicate n hlater (le_refl _)]
  show ((n + n : ℕ) : ℚ) = _
  push_cast
  ring

/-! ## Calls at any time -/

/-- A second before a time, but for a fraction, that refills less than a token. -/
theorem exists_fraction {rate : ℚ} (h : 0 < rate) :
    ∃ (k : ℕ) (a : ℚ), 0 ≤ a ∧ a < 1 ∧ a ≤ k ∧ 1 ≤ k * rate ∧ rate * (k - a) < 1 := by
  have hpos : 0 < 1 / rate := one_div_pos.mpr h
  have hle := Nat.le_ceil (1 / rate)
  have hlt := Nat.ceil_lt_add_one hpos.le
  have hk : (1 : ℚ) ≤ ⌈1 / rate⌉₊ := by exact_mod_cast Nat.ceil_pos.mpr hpos
  -- halfway between the second and what is left of it
  have hmax : max 0 ((⌈1 / rate⌉₊ : ℚ) - 1 / rate) < 1 := max_lt one_pos (by linarith)
  have h0 := le_max_left 0 ((⌈1 / rate⌉₊ : ℚ) - 1 / rate)
  have h1 := le_max_right 0 ((⌈1 / rate⌉₊ : ℚ) - 1 / rate)
  refine ⟨⌈1 / rate⌉₊, (1 + max 0 ((⌈1 / rate⌉₊ : ℚ) - 1 / rate)) / 2, by linarith, by linarith, by linarith, ?_, ?_⟩
  · exact (div_le_iff₀ h).mp hle
  · have hless : (⌈1 / rate⌉₊ : ℚ) - (1 + max 0 ((⌈1 / rate⌉₊ : ℚ) - 1 / rate)) / 2 < 1 / rate := by linarith
    rw [mul_comm]
    exact (lt_div_iff₀ h).mp hless

variable (S) in
/-- A burst late in a second, and a call at the start of another. -/
theorem runs_ahead (key : Key) (hc : 1 ≤ capacity) (hr : 0 < refillRate) (periodSeconds : ℕ) :
    ∃ times, ∃ c : Calls S ℚ, Run (step key capacity refillRate periodSeconds) Calls.InOrder Calls.none times c ∧
      ¬ Bounded refillRate capacity c.answers := by
  obtain ⟨n, rfl⟩ := Int.eq_ofNat_of_zero_le (show 0 ≤ capacity by omega)
  obtain ⟨k, a, ha, ha1, hak, hrefills, hshort⟩ := exists_fraction hr
  obtain ⟨c1, tokens, hrun1, hb1, hstocked1, hanswers1, horder⟩ := first_burst S key (show 0 < n by omega) ha hr.le
    periodSeconds (Q := fun _ => True) trivial
  have hn : (1 : ℚ) ≤ ((n : ℤ) : ℚ) := by exact_mod_cast hc
  have hone : 1 ≤ refilled n refillRate periodSeconds k (some (tokens, a)) := by
    have htokens := hstocked1 tokens a rfl
    rw [refilled, Nat.floor_natCast, Nat.floor_eq_zero.mpr ha1, Nat.cast_zero, sub_zero]
    split
    · exact hn
    · exact le_min hn (by linarith)
  obtain ⟨s', hcall, -⟩ := @call_eq key n refillRate periodSeconds _ k S _ c1.store (Nat.cast_nonneg k) hr.le hb1
  rw [decide_eq_true hone] at hcall
  have hrun := (hrun1.imp (I := fun _ => True) (fun _ _ _ _ _ => trivial) (fun _ _ _ _ _ h => h.1) trivial).append
    (.cons (horder k hak) (Calls.step_of_call hcall) (.nil _))
  refine ⟨_, _, hrun, fun h => ?_⟩
  have hbound := h a k hak
  have hlast := letWithin_replicate 1 hak (le_refl (k : ℚ)) true
  rw [hanswers1, letWithin_append, letWithin_replicate n (le_refl a) hak true, ← List.replicate_one, hlast] at hbound
  push_cast at hbound
  simp only [if_true] at hbound
  linarith

variable (S) in
/-- In every run whose calls find no more tokens than the time since the last one allowed
    has refilled, those allowed in any interval are at most the capacity and what is
    refilled in it. Of calls on the second they are so in every run just if a period
    refills the whole capacity; of calls at any time they are not. -/
theorem token_bucket_bounded_iff (key : Key) (capacity : ℤ) (hc : 1 ≤ capacity) (refillRate : ℚ) (hr : 0 ≤ refillRate)
    (periodSeconds : ℕ) :
    (∀ times, ∀ c : Calls S ℚ, Run (step key capacity refillRate periodSeconds)
        (fun time c => c.InOrder time ∧ KeepsPace key capacity refillRate periodSeconds time c) Calls.none times c →
      Bounded refillRate capacity c.answers) ∧
    ((∀ times, ∀ c : Calls S ℚ,
        Run (step key capacity refillRate periodSeconds) (fun time c => c.InOrder time ∧ OnSecond time)
        Calls.none times c → Bounded refillRate capacity c.answers) ↔ (capacity : ℚ) ≤ refillRate * periodSeconds) ∧
    ∃ times, ∃ c : Calls S ℚ, Run (step key capacity refillRate periodSeconds) Calls.InOrder Calls.none times c ∧
      ¬ Bounded refillRate capacity c.answers := by
  have hc0 : 0 ≤ capacity := by omega
  have hall : ∀ times, ∀ c : Calls S ℚ, Run (step key capacity refillRate periodSeconds)
      (fun time c => c.InOrder time ∧ KeepsPace key capacity refillRate periodSeconds time c) Calls.none times c →
      Bounded refillRate capacity c.answers := by
    intro times c h
    obtain ⟨_, _, hacc⟩ := run_bounded hc0 hr h ⟨none, 0, accounted_none hc0 hr⟩
    exact hacc.metered.bounded
  refine ⟨hall, ⟨fun h => ?_, fun hperiod times c h => ?_⟩, ?_⟩
  · obtain ⟨times, c, hrun, hlet⟩ := two_bursts S key hc hr periodSeconds
    have hbound := h times c hrun 0 periodSeconds (Nat.cast_nonneg _)
    rw [hlet, sub_zero] at hbound
    linarith
  · apply hall times c
    have hkept := h.carry (I := Kept key periodSeconds) (fun _ _ _ hk hp hs => step_kept hr hk hp.2 hs) kept_none
    exact hkept.imp (I := fun _ => True) (fun _ _ _ _ _ => trivial)
      (fun _ _ _ _ _ hp => ⟨hp.2.1, keepsPace_of_period hr hp.1 hp.2.2 hperiod⟩) trivial
  · rcases hr.eq_or_lt with rfl | hpos
    · -- nothing is refilled, and an expired bucket is full
      obtain ⟨times, c, hrun, hlet⟩ := two_bursts S key hc (le_refl 0) periodSeconds
      refine ⟨times, c, hrun.imp (I := fun _ => True) (fun _ _ _ _ _ => trivial) (fun _ _ _ _ _ h => h.1) trivial,
        fun h => ?_⟩
      have hbound := h 0 periodSeconds (Nat.cast_nonneg _)
      have hcap : (1 : ℚ) ≤ capacity := by exact_mod_cast hc
      rw [hlet, zero_mul] at hbound
      linarith
    · exact runs_ahead S key hc hpos periodSeconds

theorem token_bucket_bounded_iff_refilled :
    (∀ times, ∀ c : Calls (Keys ℚ) ℚ,
      Run (step ['k'] 1 1 1) (fun time c => c.InOrder time ∧ KeepsPace ['k'] 1 1 1 time c) Calls.none times c →
      Bounded 1 ((1 : ℤ) : ℚ) c.answers) ∧
    ((∀ times, ∀ c : Calls (Keys ℚ) ℚ,
        Run (step ['k'] 1 1 1) (fun time c => c.InOrder time ∧ OnSecond time) Calls.none times c →
        Bounded 1 ((1 : ℤ) : ℚ) c.answers) ↔ ((1 : ℤ) : ℚ) ≤ 1 * ((1 : ℕ) : ℚ)) ∧
    ∃ times, ∃ c : Calls (Keys ℚ) ℚ, Run (step ['k'] 1 1 1) Calls.InOrder Calls.none times c ∧
      ¬ Bounded 1 ((1 : ℤ) : ℚ) c.answers :=
  token_bucket_bounded_iff (Keys ℚ) ['k'] 1 (by decide) 1 zero_le_one 1

/-- One token that is never refilled, and keys that live a second: of two calls two
    seconds apart both are allowed. And so are two calls in a tenth of a second, of a
    bucket of one token that is refilled once a second. -/
theorem token_bucket_not_bounded :
    (∃ c : Calls (Keys ℚ) ℚ, Run (step ['k'] 1 0 1) Calls.InOrder Calls.none [0, 2] c ∧ ¬ Bounded 0 ((1 : ℤ) : ℚ) c.answers) ∧
    ∃ c : Calls (Keys ℚ) ℚ, Run (step ['k'] 1 1 60) Calls.InOrder Calls.none [9 / 10, 1] c ∧
      ¬ Bounded 1 ((1 : ℤ) : ℚ) c.answers := by
  constructor
  · obtain ⟨c, hrun, hlet⟩ : ∃ c : Calls (Keys ℚ) ℚ, Run (step ['k'] 1 0 1) Calls.InOrder Calls.none [0, 2] c ∧
        letWithin c.answers 0 2 = 2 := ⟨_, run_get _ _ _ _ (by decide +kernel), by decide +kernel⟩
    refine ⟨c, hrun, fun h => ?_⟩
    have hbound := h 0 2 (by norm_num)
    rw [hlet] at hbound
    norm_num at hbound
  · obtain ⟨c, hrun, hlet⟩ : ∃ c : Calls (Keys ℚ) ℚ, Run (step ['k'] 1 1 60) Calls.InOrder Calls.none [9 / 10, 1] c ∧
        letWithin c.answers (9 / 10) 1 = 2 := ⟨_, run_get _ _ _ _ (by decide +kernel), by decide +kernel⟩
    refine ⟨c, hrun, fun h => ?_⟩
    have hbound := h (9 / 10) 1 (by norm_num)
    rw [hlet] at hbound
    norm_num at hbound

end Glaive.Redis.TokenBucket
