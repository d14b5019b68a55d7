/-
  Glaive.Redis.SlidingWindow — calls of the sliding window on one key.

  The set's members are clock readings, so the calls of one second are one member; and no
  member is removed before the key expires, at a pause of a whole window. What a call is
  answered by is the number of different seconds since the last such pause
  (`seconds`), where it should be the number of calls in the window (`inWindow`). The
  answer is right just when both are within the limit, or neither
  (`sliding_window_right_iff`), as they are where those calls are in different seconds, all
  in the window (`answered_rightly_of_apart`).
-/

import Glaive.Redis.Client
import Mathlib.Data.Finset.Card
import Mathlib.Data.List.Basic

namespace Glaive.Redis.SlidingWindow

open Glaive.Lib

/-! ## The two counts -/

/-- The calls before `now` back to a pause of a whole window; `past` has the last first. -/
def sincePause (windowSeconds : ℤ) : ℕ → List ℕ → List ℕ
  | _, [] => []
  | now, last :: earlier =>
    if (now : ℤ) < last + windowSeconds then last :: sincePause windowSeconds last earlier else []

/-- The seconds of the calls since the pause, that of `now` included. -/
def seconds (windowSeconds : ℤ) (now : ℕ) (past : List ℕ) : Finset ℕ :=
  (now :: sincePause windowSeconds now past).toFinset

/-- The calls in the window up to `now`, that at `now` included. -/
def inWindow (windowSeconds : ℤ) (now : ℕ) (past : List ℕ) : ℕ :=
  1 + past.countP fun t : ℕ => (now : ℤ) - windowSeconds < t ∧ t ≤ now

/-! ## The set -/

theorem addMember_members (l : List (ℤ × ℤ)) (m score : ℤ) (x : ℤ) :
    x ∈ (addMember l m score).map Prod.fst ↔ x = m ∨ x ∈ l.map Prod.fst := by
  unfold addMember
  split
  · rename_i hany
    obtain ⟨e, he, hem⟩ := List.any_eq_true.mp hany
    have hfst : (l.map fun e => if e.1 = m then (m, score) else e).map Prod.fst = l.map Prod.fst := by
      rw [List.map_map]
      apply List.map_congr_left
      intro e _
      by_cases h : e.1 = m <;> simp [h]
    rw [hfst]
    constructor
    · exact .inr
    · intro h
      rcases h with rfl | h
      · exact List.mem_map.mpr ⟨e, he, of_decide_eq_true hem⟩
      · exact h
  · rw [List.map_append, List.mem_append, or_comm]
    simp

theorem addMember_nodup {l : List (ℤ × ℤ)} (h : (l.map Prod.fst).Nodup) (m score : ℤ) :
    ((addMember l m score).map Prod.fst).Nodup := by
  unfold addMember
  split
  · have hfst : (l.map fun e => if e.1 = m then (m, score) else e).map Prod.fst = l.map Prod.fst := by
      rw [List.map_map]
      apply List.map_congr_left
      intro e _
      by_cases h : e.1 = m <;> simp [h]
    rwa [hfst]
  · rename_i hany
    rw [List.map_append]
    apply List.Nodup.append h (List.nodup_singleton _)
    intro x hx hx'
    cases List.mem_singleton.mp hx'
    obtain ⟨e, he, hem⟩ := List.mem_map.mp hx
    exact hany (List.any_eq_true.mpr ⟨e, he, decide_eq_true hem⟩)

/-- What a call does to a key whose members that are there are `l`. -/
theorem call_eq {key : Key} {now : ℕ} {s : Keys ℤ} {l : List (ℤ × ℤ)} (limit : ℕ) (windowSeconds : ℤ)
    (h : (s.find now key = none ∧ l = []) ∨ ∃ d, s.find now key = some ⟨.sortedSet l, d⟩) :
    ∃ s', slidingWindowLogRateLimit key limit windowSeconds now s =
        (.ok (decide ((addMember l now now).length ≤ limit)), s') ∧
      s'.entries key = some ⟨.sortedSet (addMember l now now), some (now + windowSeconds)⟩ := by
  have hmembers : Keys.members (now : ℤ) key s = (.ok l, s) := by
    rcases h with ⟨hfind, rfl⟩ | ⟨d, hfind⟩
    · exact Keys.members_none hfind
    · exact Keys.members_some hfind
  obtain ⟨d, halter, hlive⟩ : ∃ d, s.alter now key (.sortedSet (addMember l now now)) =
      s.put key ⟨.sortedSet (addMember l now now), d⟩ ∧ ∀ t, d = some t → (now : ℤ) < t := by
    rcases h with ⟨hfind, -⟩ | ⟨d, hfind⟩
    · exact ⟨none, TimedStore.alter_of_none hfind _, fun t ht => by cases ht⟩
    · exact ⟨d, TimedStore.alter_of_find hfind _, (TimedStore.find_eq_some.mp hfind).2⟩
  have hfind : (s.put key ⟨.sortedSet (addMember l now now), d⟩).find (now : ℤ) key =
      some ⟨.sortedSet (addMember l now now), d⟩ := TimedStore.find_of_entries TimedStore.entries_put hlive
  refine ⟨(s.put key ⟨.sortedSet (addMember l now now), d⟩).put key
    ⟨.sortedSet (addMember l now now), some (now + windowSeconds)⟩, ?_, TimedStore.entries_put⟩
  have hread : ∃ r, zrevrangebyscore (now : ℤ) key none (now - windowSeconds) s = (.ok r, s) := by
    show ∃ r, Keys.zrevrangebyscore (now : ℤ) key none (now - windowSeconds) s = (.ok r, s)
    unfold Keys.zrevrangebyscore
    rw [Async.bind_ok hmembers]
    exact ⟨_, rfl⟩
  obtain ⟨r, hread⟩ := hread
  have hadd : zadd (now : ℤ) key now now s = (.ok (), s.put key ⟨.sortedSet (addMember l now now), d⟩) := by
    show Keys.zadd (now : ℤ) key now now s = _
    unfold Keys.zadd
    rw [Async.bind_ok hmembers, Async.modify_apply, halter]
  have hcard : zcard (now : ℤ) key (s.put key ⟨.sortedSet (addMember l now now), d⟩) =
      (.ok (addMember l now now).length, s.put key ⟨.sortedSet (addMember l now now), d⟩) := by
    show Keys.zcard (now : ℤ) key _ = _
    unfold Keys.zcard
    rw [Async.bind_ok (Keys.members_some hfind)]
    rfl
  have hexpire : expire (now : ℤ) key windowSeconds (s.put key ⟨.sortedSet (addMember l now now), d⟩) =
      (.ok (), (s.put key ⟨.sortedSet (addMember l now now), d⟩).put key
        ⟨.sortedSet (addMember l now now), some (now + windowSeconds)⟩) := by
    show Keys.expire (now : ℤ) key windowSeconds _ = _
    unfold Keys.expire
    rw [Async.modify_apply, TimedStore.expireAt_of_find hfind]
  unfold slidingWindowLogRateLimit
  rw [Async.bind_ok hread, Async.bind_ok hadd, Async.bind_ok hcard, Async.bind_ok hexpire]
  rfl

/-! ## A run of calls -/

/-- The key holds the seconds of the last call, and those since the pause before it, until
    a window after it. -/
inductive Logged (windowSeconds : ℤ) (key : Key) : List ℕ → Keys ℤ → Prop
  | nothing {s : Keys ℤ} : s.entries key = none → Logged windowSeconds key [] s
  | log {s : Keys ℤ} {last : ℕ} {earlier : List ℕ} {l : List (ℤ × ℤ)} :
      s.entries key = some ⟨.sortedSet l, some (last + windowSeconds)⟩ → (l.map Prod.fst).Nodup →
      (∀ x : ℤ, x ∈ l.map Prod.fst ↔ ∃ t ∈ seconds windowSeconds last earlier, (t : ℤ) = x) →
      Logged windowSeconds key (last :: earlier) s

/-- The members are as many as the seconds they stand for. -/
theorem length_of_seconds {l : List (ℤ × ℤ)} (hl : (l.map Prod.fst).Nodup) {ts : Finset ℕ}
    (h : ∀ x : ℤ, x ∈ l.map Prod.fst ↔ ∃ t ∈ ts, (t : ℤ) = x) : l.length = ts.card := by
  have himage : (l.map Prod.fst).toFinset = ts.image Nat.cast := by
    ext x
    rw [List.mem_toFinset, h, Finset.mem_image]
  have hcard := congrArg Finset.card himage
  rw [List.toFinset_card_of_nodup hl, List.length_map, Finset.card_image_of_injective _ Nat.cast_injective] at hcard
  exact hcard

variable {S : Type} [RedisServer S ℤ]

theorem call_logged {key : Key} {windowSeconds : ℤ} {past : List ℕ} {s : S} (now limit : ℕ)
    (h : Logged windowSeconds key past (keys s)) :
    ∃ s', slidingWindowLogRateLimit key limit windowSeconds now s =
        (.ok (decide ((seconds windowSeconds now past).card ≤ limit)), s') ∧
      Logged windowSeconds key (now :: past) (keys s') := by
  -- the members that are there, and what they stand for
  obtain ⟨l, hl, hnodup, hmem⟩ : ∃ l : List (ℤ × ℤ),
      (((keys s).find now key = none ∧ l = []) ∨ ∃ d, (keys s).find now key = some ⟨.sortedSet l, d⟩) ∧ (l.map Prod.fst).Nodup ∧
      ∀ x : ℤ, x ∈ l.map Prod.fst ↔ ∃ t ∈ sincePause windowSeconds now past, (t : ℤ) = x := by
    cases h with
    | nothing hnone => exact ⟨[], .inl ⟨TimedStore.find_none hnone, rfl⟩, List.nodup_nil, by simp [sincePause]⟩
    | @log _ last earlier l hentry hnodup hmem =>
      by_cases hpause : (now : ℤ) < last + windowSeconds
      · refine ⟨l, .inr ⟨_, TimedStore.find_of_entries hentry fun d hd => ?_⟩, hnodup, fun x => ?_⟩
        · cases hd
          exact hpause
        · rw [hmem, sincePause, if_pos hpause]
          simp [seconds]
      · refine ⟨[], .inl ⟨TimedStore.find_expired hentry rfl (not_lt.mp hpause), rfl⟩, List.nodup_nil, ?_⟩
        rw [sincePause, if_neg hpause]
        simp
  obtain ⟨k, hkeys, hentry⟩ := call_eq limit windowSeconds hl
  obtain ⟨s', hcall, rfl⟩ := (slidingWindowLogRateLimit_seen key limit windowSeconds now).lift hkeys
  have hmem' : ∀ x : ℤ, x ∈ (addMember l now now).map Prod.fst ↔
      ∃ t ∈ seconds windowSeconds now past, (t : ℤ) = x := by
    intro x
    rw [addMember_members, hmem]
    simp [seconds, eq_comm]
  have hnodup' := addMember_nodup hnodup now now
  refine ⟨s', ?_, .log hentry hnodup' hmem'⟩
  rw [hcall, length_of_seconds hnodup' hmem']

theorem run_logged {key : Key} {windowSeconds : ℤ} {limit : ℕ} {c c' : Calls S ℕ} {times : List ℕ}
    (h : Run (Calls.step (slidingWindowLogRateLimit key limit windowSeconds)) Calls.InOrder c times c') :
    ∀ {past : List ℕ}, Logged windowSeconds key past (keys c.store) →
      Logged windowSeconds key (times.reverse ++ past) (keys c'.store) := by
  induction h with
  | nil c => exact id
  | @cons c c1 c2 now times _ hs _ ih =>
    intro past hpast
    obtain ⟨s', hcall, hlogged⟩ := call_logged now limit hpast
    obtain ⟨rfl, -⟩ := Calls.step_answer hcall hs
    rw [List.reverse_cons, List.append_assoc]
    exact ih hlogged

/-- Any call after any others is answered, and rightly so just if the calls in its window
    and the different seconds since the last pause are both within the limit, or neither. -/
theorem sliding_window_right_iff (key : Key) (limit : ℕ) (windowSeconds : ℤ) (times : List ℕ) (c : Calls S ℕ)
    (h : Run (Calls.step (slidingWindowLogRateLimit key limit windowSeconds)) Calls.InOrder Calls.none times c)
    (now : ℕ) :
    ∃ allowed store, slidingWindowLogRateLimit key limit windowSeconds now c.store = (.ok allowed, store) ∧
      ((allowed = true ↔ inWindow windowSeconds now times ≤ limit) ↔
        (inWindow windowSeconds now times ≤ limit ↔ (seconds windowSeconds now times.reverse).card ≤ limit)) := by
  have hlogged := run_logged h (.nothing (Calls.none_entries key))
  rw [List.append_nil] at hlogged
  obtain ⟨store, hcall, -⟩ := call_logged now limit hlogged
  refine ⟨_, store, hcall, ?_⟩
  rw [decide_eq_true_iff]
  exact ⟨fun h => h.symm, fun h => h.symm⟩

/-! ## Calls in different seconds, with no pause to tell -/

/-- Behind the calls since the last pause are those of before it, which are out of the
    window; `past` has the last first. -/
theorem sincePause_append (windowSeconds : ℤ) : ∀ {past : List ℕ} {now : ℕ}, (now :: past).Pairwise (· ≥ ·) →
    ∃ before, past = sincePause windowSeconds now past ++ before ∧ ∀ t ∈ before, (t : ℤ) ≤ now - windowSeconds := by
  intro past
  induction past with
  | nil => exact fun _ => ⟨[], rfl, fun t ht => by cases ht⟩
  | cons last earlier ih =>
    intro now horder
    rw [sincePause]
    rw [List.pairwise_cons] at horder
    have hlast : last ≤ now := horder.1 last List.mem_cons_self
    by_cases hpause : (now : ℤ) < last + windowSeconds
    · obtain ⟨before, hsplit, hout⟩ := ih horder.2
      rw [if_pos hpause]
      refine ⟨before, congrArg (last :: ·) hsplit, fun t ht => ?_⟩
      have := hout t ht
      omega
    · rw [if_neg hpause]
      refine ⟨last :: earlier, rfl, fun t ht => ?_⟩
      have hle : t ≤ last := by
        rcases List.mem_cons.mp ht with rfl | ht
        · exact le_refl _
        · exact (List.pairwise_cons.mp horder.2).1 t ht
      omega

/-- The two counts are one where the calls since the last pause are in different seconds
    and in the window. -/
theorem inWindow_eq_seconds {windowSeconds : ℤ} {now : ℕ} {past : List ℕ} (horder : (now :: past).Pairwise (· ≥ ·))
    (happart : (now :: sincePause windowSeconds now past).Nodup)
    (hin : ∀ t ∈ sincePause windowSeconds now past, (now : ℤ) - windowSeconds < t) :
    inWindow windowSeconds now past = (seconds windowSeconds now past).card := by
  obtain ⟨before, hsplit, hout⟩ := sincePause_append windowSeconds horder
  have hcard : (seconds windowSeconds now past).card = 1 + (sincePause windowSeconds now past).length := by
    rw [seconds, List.toFinset_card_of_nodup happart, List.length_cons, Nat.add_comm]
  have hall : (sincePause windowSeconds now past).countP (fun t : ℕ => (now : ℤ) - windowSeconds < t ∧ t ≤ now) =
      (sincePause windowSeconds now past).length := by
    apply List.countP_eq_length.mpr
    intro t ht
    have hmem : t ∈ past := by
      rw [hsplit]
      exact List.mem_append_left _ ht
    exact decide_eq_true ⟨hin t ht, (List.pairwise_cons.mp horder).1 t hmem⟩
  have hnone : before.countP (fun t : ℕ => (now : ℤ) - windowSeconds < t ∧ t ≤ now) = 0 := by
    apply List.countP_eq_zero.mpr
    intro t ht hwin
    exact absurd (of_decide_eq_true hwin).1 (not_lt.mpr (hout t ht))
  unfold inWindow
  rw [hcard]
  conv => lhs; rw [hsplit]
  rw [List.countP_append, hall, hnone, Nat.add_zero]

theorem run_pairwise {key : Key} {windowSeconds : ℤ} {limit : ℕ} {c c' : Calls S ℕ} {times : List ℕ}
    (h : Run (Calls.step (slidingWindowLogRateLimit key limit windowSeconds)) Calls.InOrder c times c') :
    ∀ {past : List ℕ}, c.answers.map Prod.fst = past.reverse → past.Pairwise (· ≥ ·) →
      c'.answers.map Prod.fst = (times.reverse ++ past).reverse ∧ (times.reverse ++ past).Pairwise (· ≥ ·) := by
  induction h with
  | nil c => exact fun hanswers horder => ⟨hanswers, horder⟩
  | @cons c c1 c2 now times hnow hs _ ih =>
    intro past hanswers horder
    rw [List.reverse_cons, List.append_assoc]
    unfold Calls.step at hs
    split at hs
    · cases hs
      refine @ih (now :: past) (by simp [hanswers]) (List.pairwise_cons.mpr ⟨fun t ht => ?_, horder⟩)
      have hmem : t ∈ c.answers.map Prod.fst := by rw [hanswers, List.mem_reverse]; exact ht
      obtain ⟨a, ha, rfl⟩ := List.mem_map.mp hmem
      exact hnow a ha
    · cases hs

/-- A call is answered rightly where the calls since the last pause of a window and it are
    in different seconds, all of them in its window. -/
theorem answered_rightly_of_apart (key : Key) (limit : ℕ) (windowSeconds : ℤ) (times : List ℕ) (c : Calls S ℕ)
    (h : Run (Calls.step (slidingWindowLogRateLimit key limit windowSeconds)) Calls.InOrder Calls.none times c)
    (now : ℕ) (hnow : c.InOrder now) (happart : (now :: sincePause windowSeconds now times.reverse).Nodup)
    (hin : ∀ t ∈ sincePause windowSeconds now times.reverse, (now : ℤ) - windowSeconds < t) :
    ∃ allowed store, slidingWindowLogRateLimit key limit windowSeconds now c.store = (.ok allowed, store) ∧
      (allowed = true ↔ inWindow windowSeconds now times ≤ limit) := by
  have hlogged := run_logged h (.nothing (Calls.none_entries key))
  obtain ⟨hanswers, horder⟩ := @run_pairwise _ _ _ _ _ _ _ _ h [] rfl List.Pairwise.nil
  rw [List.append_nil] at hlogged hanswers horder
  obtain ⟨store, hcall, -⟩ := call_logged now limit hlogged
  have hlater : (now :: times.reverse).Pairwise (· ≥ ·) := by
    refine List.pairwise_cons.mpr ⟨fun t ht => ?_, horder⟩
    have hmem : t ∈ c.answers.map Prod.fst := by rw [hanswers, List.mem_reverse]; exact ht
    obtain ⟨a, ha, rfl⟩ := List.mem_map.mp hmem
    exact hnow a ha
  have hreverse : inWindow windowSeconds now times = inWindow windowSeconds now times.reverse := by
    unfold inWindow
    rw [List.countP_reverse]
  refine ⟨_, store, hcall, ?_⟩
  rw [decide_eq_true_iff, hreverse, inWindow_eq_seconds hlater happart hin]

/-- Calls at some times, at most `limit` in ten seconds. -/
def tenSeconds (limit : ℕ) (times : List ℕ) : Option (Calls (Keys ℤ) ℕ) :=
  stepAll (Calls.step (slidingWindowLogRateLimit ['k'] limit 10)) Calls.InOrder times Calls.none

theorem sliding_window_right_iff_apart :
    ∃ allowed store, slidingWindowLogRateLimit ['k'] 2 10 9 ((tenSeconds 2 [0, 4]).get (by rfl)).store =
        (.ok allowed, store) ∧
      ((allowed = true ↔ inWindow 10 9 [0, 4] ≤ 2) ↔ (inWindow 10 9 [0, 4] ≤ 2 ↔ (seconds 10 9 [0, 4].reverse).card ≤ 2)) :=
  sliding_window_right_iff ['k'] 2 10 [0, 4] _ (run_get _ _ _ _ (by rfl)) 9

/-- The second call of a second is allowed where one is the limit; and with a call every
    six seconds, the third is denied, though only two are in its window. -/
theorem sliding_window_wrong :
    (∃ (c : Calls (Keys ℤ) ℕ) (store : Keys ℤ),
      Run (Calls.step (slidingWindowLogRateLimit ['k'] 1 10)) Calls.InOrder Calls.none [0] c ∧
      slidingWindowLogRateLimit ['k'] 1 10 0 c.store = (.ok true, store) ∧ ¬ inWindow 10 0 [0] ≤ 1) ∧
    ∃ (c : Calls (Keys ℤ) ℕ) (store : Keys ℤ),
      Run (Calls.step (slidingWindowLogRateLimit ['k'] 2 10)) Calls.InOrder Calls.none [0, 6] c ∧
      slidingWindowLogRateLimit ['k'] 2 10 12 c.store = (.ok false, store) ∧ inWindow 10 12 [0, 6] ≤ 2 :=
  ⟨⟨_, _, run_get _ _ _ _ (by rfl), rfl, by decide⟩, ⟨_, _, run_get _ _ _ _ (by rfl), rfl, by decide⟩⟩

end Glaive.Redis.SlidingWindow
