/-
  Glaive.Redis.WindowBound — how many calls the fixed window lets through, in any order of
  the commands of any callers and whichever of these fail (see `Glaive.Redis.FixedWindow`).

  A call is let through by the reply to its `INCR`. The window it falls in was opened by
  the `INCR` that made the counter, and lasts until the counter expires. A command that
  fails may leave a counter that does not expire; none makes a window short of a period.
  So in any interval shorter than `k` periods at most `k + 1` limits are let through
  (`fixed_window_bounded`).
-/

import Glaive.Lib.Windows
import Glaive.Redis.FixedWindow
import Mathlib.Data.List.Nodup

namespace Glaive.Redis.FixedWindow

open Glaive.Lib
open Glaive.Lib.Interleaved (Event)

variable {S : Type} [RedisServer S ℤ] {key : Key} {periodSeconds : ℤ} {s t : Clients S}

/-- The call an event lets through, and when: the reply to its `INCR` is within its limit. -/
def letThrough (key : Key) (e : Event ℤ (ℤ × Outcome)) (s : Clients S) : Option (ℕ × ℤ) :=
  match e with
  | .take i (now, .replied) =>
    match s.threads[i]? with
    | some (.incr limit) =>
      match (incr now key 1 s.shared.store).1 with
      | .ok currentCount => if currentCount ≤ limit then some (i, now) else none
      | _ => none
    | _ => none
  | _ => none

/-- Those the events let through one after the other, from `s` on. -/
def allLetThrough (key : Key) (periodSeconds : ℤ) : List (Event ℤ (ℤ × Outcome)) → Clients S → List (ℕ × ℤ)
  | [], _ => []
  | e :: evs, s => (letThrough key e s).toList ++
      match step key periodSeconds e s with
      | some t => allLetThrough key periodSeconds evs t
      | none => []

/-- All limits are within `L`. -/
def Within (L : ℕ) (e : Event ℤ (ℤ × Outcome)) (_ : Clients S) : Prop := ∀ limit : ℤ, e = .enter limit → limit ≤ L

/-! ## Windows -/

/-- The counter there is has counted what the window opened last has let through, and
    expires a period after the window was opened, or later. -/
def Covers (key : Key) (periodSeconds : ℤ) (opened : List ℤ) (current : ℕ) (x : Keys ℤ) : Prop :=
  (x.entries key = none ∧ opened = []) ∨
    ∃ (n : ℕ) (deadline : Option ℤ), x.entries key = some ⟨.number (n + 1 : ℕ), deadline⟩ ∧ current ≤ n + 1 ∧
      ∀ d, deadline = some d → ∀ b ∈ opened, b + periodSeconds ≤ d

/-- What has been let through falls in windows. -/
structure Account (key : Key) (periodSeconds : ℤ) (L : ℕ) (times : List ℤ) (opened : List ℤ) (current : ℕ)
    (s : Clients S) : Prop where
  windowed : Windowed L opened times current s.shared.clock
  spaced : Spaced periodSeconds opened
  covers : Covers key periodSeconds opened current (keys s.shared.store)
  limits : ∀ p ∈ s.threads, ∀ limit, p = .incr limit → limit ≤ (L : ℤ)

/-- A window that is over was opened a period ago. -/
theorem Covers.over {opened : List ℤ} {current : ℕ} {x : Keys ℤ} {now : ℤ} (h : Covers key periodSeconds opened current x)
    (hnone : x.find now key = none) : ∀ b ∈ opened, b + periodSeconds ≤ now := by
  rcases h with ⟨-, rfl⟩ | ⟨n, deadline, hn, -, hd⟩
  · intro b hb
    cases hb
  · intro b hb
    by_contra hlive
    cases hdead : deadline with
    | none =>
      rw [TimedStore.find_of_entries hn fun d hd' => by rw [hdead] at hd'; cases hd'] at hnone
      cases hnone
    | some d =>
      have hle := hd d hdead b hb
      rw [TimedStore.find_of_entries hn fun d' hd' => by rw [hdead] at hd'; cases hd'; omega] at hnone
      cases hnone

/-- A counter that is there is the one of the account. -/
theorem Covers.find {opened : List ℤ} {current : ℕ} {x : Keys ℤ} {now : ℤ} (h : Covers key periodSeconds opened current x)
    {e : Timed Value ℤ} (he : x.find now key = some e) :
    ∃ (n : ℕ) (deadline : Option ℤ), e = ⟨.number (n + 1 : ℕ), deadline⟩ ∧ current ≤ n + 1 ∧
      ∀ d, deadline = some d → ∀ b ∈ opened, b + periodSeconds ≤ d := by
  obtain ⟨hentry, -⟩ := TimedStore.find_eq_some.mp he
  rcases h with ⟨hnone, -⟩ | ⟨n, deadline, hn, hcurrent, hd⟩
  · cases hnone.symm.trans hentry
  · cases hn.symm.trans hentry
    exact ⟨n, deadline, rfl, hcurrent, hd⟩

omit [RedisServer S ℤ] in
theorem receive_fst {α : Type} (now : ℤ) (next : α → Place) (r : Out α × S) :
    (receive now next r).1 = ⟨r.2, now⟩ := by
  obtain ⟨reply, store⟩ := r
  cases reply with
  | ok a => rfl
  | err e => rfl
  | pending => rfl
  | panic text => rfl

/-- A step goes on, or returns: it does not begin again. -/
theorem act_ne_incr {p p' : Place} {e : ℤ × Outcome} {x x' : Server S} (h : act key periodSeconds p e x = some (x', p'))
    (limit : ℤ) : p' ≠ .incr limit := by
  rintro rfl
  unfold act at h
  split at h
  · cases h
  cases p with
  | incr limit' =>
    simp only [Option.some.injEq] at h
    generalize send e.2 (incr e.1 key 1) x.store = r at h
    obtain ⟨reply, store⟩ := r
    cases reply with
    | ok currentCount =>
      simp only [receive, Prod.mk.injEq] at h
      split at h
      · cases h.2
      · cases h.2
    | err e => cases h
    | pending => cases h
    | panic text => cases h
  | expire limit' currentCount =>
    simp only [Option.some.injEq] at h
    generalize send e.2 (expire e.1 key periodSeconds) x.store = r at h
    obtain ⟨reply, store⟩ := r
    cases reply with
    | ok a => cases h
    | err e => cases h
    | pending => cases h
    | panic text => cases h
  | returned allowed => cases h

variable {L current : ℕ} {times opened : List ℤ}

theorem limits_set (h : Account key periodSeconds L times opened current s) {i : ℕ} {p' : Place}
    (hp' : ∀ limit, p' ≠ .incr limit) : ∀ p ∈ s.threads.set i p', ∀ limit, p = .incr limit → limit ≤ (L : ℤ) := by
  intro p hp limit he
  rcases List.mem_or_eq_of_mem_set hp with hp | rfl
  · exact h.limits p hp limit he
  · exact absurd he (hp' limit)

/-- Time passes, and the keys are as they were. -/
theorem Account.idle (h : Account key periodSeconds L times opened current s) {now : ℤ} (hnow : s.shared.clock ≤ now)
    {store : S} (hsame : keys store = keys s.shared.store) {i : ℕ} {p' : Place} (hp' : ∀ limit, p' ≠ .incr limit) :
    Account key periodSeconds L times opened current ⟨⟨store, now⟩, s.threads.set i p'⟩ :=
  ⟨h.windowed.later hnow, h.spaced, hsame ▸ h.covers, limits_set h hp'⟩

/-- `INCR` is executed: it opens a window, or counts in the last one. -/
theorem Account.counted (h : Account key periodSeconds L times opened current s) {now limit : ℤ} {i : ℕ}
    (hp : s.threads[i]? = some (.incr limit)) (hnow : s.shared.clock ≤ now) {p' : Place} (hp' : ∀ limit, p' ≠ .incr limit)
    (replied : Bool) :
    ∃ opened' current',
      Account key periodSeconds L (times ++ ((if replied then letThrough key (.take i (now, .replied)) s
        else none).toList.map Prod.snd)) opened' current' ⟨⟨(incr now key 1 s.shared.store).2, now⟩, s.threads.set i p'⟩ := by
  have hlimit := h.limits _ (List.mem_of_getElem? hp) limit rfl
  cases hfind : (keys s.shared.store).find now key with
  | none =>
    have hspaced := h.spaced.concat (h.covers.over hfind)
    have hopens := h.windowed.opens hnow
    obtain ⟨store, hincr, n, hn⟩ := @incr_first S _ key s.shared now hfind
    have hthrough : letThrough key (.take i (now, .replied)) s = if (1 : ℤ) ≤ limit then some (i, now) else none := by
      simp only [letThrough, hp, hincr]
    rw [hincr, hthrough]
    by_cases hadmits : replied = true ∧ (1 : ℤ) ≤ limit
    · rw [if_pos hadmits.1, if_pos hadmits.2]
      have hroom : 0 + 1 ≤ L := by omega
      exact ⟨_, _, ⟨hopens.letThrough (le_refl now) hroom, hspaced, .inr ⟨n, none, hn, by omega, nofun⟩, limits_set h hp'⟩⟩
    · have hnone : (if replied then if (1 : ℤ) ≤ limit then some (i, now) else none else none) = none := by
        split
        · exact if_neg fun hle => hadmits ⟨‹_›, hle⟩
        · rfl
      rw [hnone, Option.toList_none, List.map_nil, List.append_nil]
      exact ⟨_, _, ⟨hopens, hspaced, .inr ⟨n, none, hn, Nat.zero_le _, nofun⟩, limits_set h hp'⟩⟩
  | some e =>
    obtain ⟨n, deadline, rfl, hcurrent, hd⟩ := h.covers.find hfind
    rcases incr_counts hfind with ⟨store, hincr, hn⟩ | ⟨store, hincr, hsame, -⟩
    · have hthrough : letThrough key (.take i (now, .replied)) s =
          if ((n + 1 : ℕ) + 1 : ℤ) ≤ limit then some (i, now) else none := by
        simp only [letThrough, hp, hincr]
      rw [hincr, hthrough]
      by_cases hadmits : replied = true ∧ ((n + 1 : ℕ) + 1 : ℤ) ≤ limit
      · rw [if_pos hadmits.1, if_pos hadmits.2]
        have hroom : current + 1 ≤ L := by omega
        exact ⟨_, _, ⟨h.windowed.letThrough hnow hroom, h.spaced, .inr ⟨n + 1, deadline, hn, by omega, hd⟩, limits_set h hp'⟩⟩
      · have hnone : (if replied then if ((n + 1 : ℕ) + 1 : ℤ) ≤ limit then some (i, now) else none else none) = none := by
          split
          · exact if_neg fun hle => hadmits ⟨‹_›, hle⟩
          · rfl
        rw [hnone, Option.toList_none, List.map_nil, List.append_nil]
        exact ⟨_, _, ⟨h.windowed.later hnow, h.spaced, .inr ⟨n + 1, deadline, hn, by omega, hd⟩, limits_set h hp'⟩⟩
    · have hthrough : letThrough key (.take i (now, .replied)) s = none := by
        simp only [letThrough, hp, hincr]
      rw [hincr, hthrough, ite_self, Option.toList_none, List.map_nil, List.append_nil]
      exact ⟨_, _, h.idle hnow hsame hp'⟩

/-- `EXPIRE` is executed: the window lasts for a period from then on. -/
theorem Account.expires (h : Account key periodSeconds L times opened current s) {now : ℤ}
    (hnow : s.shared.clock ≤ now) {i : ℕ} {p' : Place} (hp' : ∀ limit, p' ≠ .incr limit) :
    Account key periodSeconds L times opened current
      ⟨⟨(expire now key periodSeconds s.shared.store).2, now⟩, s.threads.set i p'⟩ := by
  cases hfind : (keys s.shared.store).find now key with
  | none =>
    obtain ⟨store, hexpire, hsame⟩ := expire_gone hfind periodSeconds
    rw [hexpire]
    exact h.idle hnow hsame hp'
  | some e =>
    obtain ⟨n, deadline, rfl, hcurrent, hd⟩ := h.covers.find hfind
    obtain ⟨store, hexpire, hentry⟩ := expire_there hfind periodSeconds
    rw [hexpire]
    refine ⟨h.windowed.later hnow, h.spaced, .inr ⟨n, some (now + periodSeconds), hentry, hcurrent, fun d hd' b hb => ?_⟩,
      limits_set h hp'⟩
    cases hd'
    have hle := h.windowed.opened_le b hb
    omega

theorem Account.step (h : Account key periodSeconds L times opened current s) {e : Event ℤ (ℤ × Outcome)}
    (he : Within L e s) (hs : FixedWindow.step key periodSeconds e s = some t) :
    ∃ opened' current', Account key periodSeconds L (times ++ ((letThrough key e s).toList.map Prod.snd)) opened' current' t := by
  cases e with
  | enter limit =>
    cases hs
    refine ⟨opened, current, ?_⟩
    have hthrough : letThrough key (.enter limit) s = none := rfl
    rw [hthrough, Option.toList_none, List.map_nil, List.append_nil]
    refine ⟨h.windowed, h.spaced, h.covers, fun p hp limit' hlimit => ?_⟩
    rcases List.mem_append.mp hp with hp | hp
    · exact h.limits p hp limit' hlimit
    · rw [List.mem_singleton.mp hp] at hlimit
      cases hlimit
      exact he limit rfl
  | take i e =>
    obtain ⟨p, shared, p', hp, ha, rfl⟩ := Interleaved.step_take hs
    obtain ⟨now, outcome⟩ := e
    have hp' := act_ne_incr ha
    unfold act at ha
    split at ha
    · cases ha
    rename_i hclock
    have hnow := not_lt.mp hclock
    have hthrough : outcome ≠ .replied ∨ (∀ limit, p ≠ .incr limit) → letThrough key (.take i (now, outcome)) s = none := by
      intro hno
      cases outcome with
      | replied =>
        have hno := hno.resolve_left fun hne => hne rfl
        simp only [letThrough, hp]
        cases p with
        | incr limit => exact absurd rfl (hno limit)
        | expire limit currentCount => rfl
        | returned allowed => rfl
      | failed => rfl
      | lost => rfl
    cases p with
    | incr limit =>
      simp only [Option.some.injEq] at ha
      have hshared := congrArg Prod.fst ha
      rw [receive_fst] at hshared
      subst hshared
      cases outcome with
      | failed =>
        rw [hthrough (.inl nofun), Option.toList_none, List.map_nil, List.append_nil]
        exact ⟨_, _, h.idle hnow rfl hp'⟩
      | replied =>
        exact h.counted hp hnow hp' true
      | lost =>
        rw [hthrough (.inl nofun)]
        exact h.counted hp hnow hp' false
    | expire limit currentCount =>
      simp only [Option.some.injEq] at ha
      have hshared := congrArg Prod.fst ha
      rw [receive_fst] at hshared
      subst hshared
      rw [hthrough (.inr nofun), Option.toList_none, List.map_nil, List.append_nil]
      cases outcome with
      | failed => exact ⟨_, _, h.idle hnow rfl hp'⟩
      | replied => exact ⟨_, _, h.expires hnow hp'⟩
      | lost => exact ⟨_, _, h.expires hnow hp'⟩
    | returned allowed => cases ha

/-! ## Who is let through -/

/-- What a call was told, or will be, where its `EXPIRE` does not fail. -/
def isAllowed : Place → Bool
  | .expire limit currentCount => decide (currentCount ≤ limit)
  | .returned (.ok allowed) => allowed
  | _ => false

/-- Each call that was let through has its entry, and only one. -/
structure Logged (log : List (ℕ × ℤ)) (s : Clients S) : Prop where
  logged : ∀ i p, s.threads[i]? = some p → isAllowed p = true → ∃ now, (i, now) ∈ log
  began : ∀ x ∈ log, ∃ p, s.threads[x.1]? = some p ∧ ∀ limit, p ≠ .incr limit
  once : (log.map Prod.fst).Nodup

/-- A call is let through by the step that gives it an allowing count, and by no other. -/
theorem letThrough_of_allowed {i : ℕ} {e : ℤ × Outcome} {p p' : Place} {shared : Server S}
    (hp : s.threads[i]? = some p) (ha : act key periodSeconds p e s.shared = some (shared, p'))
    (hallowed : isAllowed p' = true) : isAllowed p = true ∨ letThrough key (.take i e) s = some (i, e.1) := by
  obtain ⟨now, outcome⟩ := e
  unfold act at ha
  split at ha
  · cases ha
  cases p with
  | incr limit =>
    right
    simp only [Option.some.injEq] at ha
    cases outcome with
    | failed =>
      cases ha
      cases hallowed
    | lost =>
      cases ha
      cases hallowed
    | replied =>
      simp only [send] at ha
      cases hincr : incr now key 1 s.shared.store with
      | mk reply store =>
      rw [hincr] at ha
      cases reply with
      | ok currentCount =>
        simp only [receive, Prod.mk.injEq] at ha
        have hle : currentCount ≤ limit := by
          rw [← ha.2] at hallowed
          split at hallowed
          · exact of_decide_eq_true hallowed
          · exact of_decide_eq_true hallowed
        simp only [letThrough, hp, hincr, if_pos hle]
      | err err =>
        cases ha
        cases hallowed
      | pending =>
        cases ha
        cases hallowed
      | panic text =>
        cases ha
        cases hallowed
  | expire limit currentCount =>
    left
    simp only [Option.some.injEq] at ha
    generalize send outcome (expire now key periodSeconds) s.shared.store = r at ha
    obtain ⟨reply, store⟩ := r
    cases reply with
    | ok a =>
      cases ha
      exact hallowed
    | err e =>
      cases ha
      cases hallowed
    | pending =>
      cases ha
      cases hallowed
    | panic text =>
      cases ha
      cases hallowed
  | returned allowed => cases ha

/-- What an event lets through is the call whose step it is, and that call began. -/
theorem letThrough_eq {e : Event ℤ (ℤ × Outcome)} {x : ℕ × ℤ} (h : letThrough key e s = some x) :
    ∃ i e' limit, e = .take i e' ∧ x.1 = i ∧ s.threads[i]? = some (.incr limit) := by
  unfold letThrough at h
  split at h
  · split at h
    · rename_i i now _ limit hp
      split at h
      · split at h
        · cases h
          exact ⟨i, _, limit, rfl, rfl, hp⟩
        · cases h
      · cases h
    · cases h
  · cases h

theorem Logged.step {log : List (ℕ × ℤ)} (h : Logged log s) {e : Event ℤ (ℤ × Outcome)}
    (hs : FixedWindow.step key periodSeconds e s = some t) : Logged (log ++ (letThrough key e s).toList) t := by
  cases e with
  | enter limit =>
    cases hs
    have hthrough : letThrough key (.enter limit) s = none := rfl
    rw [hthrough, Option.toList_none, List.append_nil]
    refine ⟨fun i p hp hallowed => ?_, fun x hx => ?_, h.once⟩
    · rcases Nat.lt_or_ge i s.threads.length with hi | hi
      · rw [List.getElem?_append_left hi] at hp
        exact h.logged i p hp hallowed
      · rw [List.getElem?_append_right hi] at hp
        rw [List.mem_singleton.mp (List.mem_of_getElem? hp)] at hallowed
        cases hallowed
    · obtain ⟨p, hp, hne⟩ := h.began x hx
      exact ⟨p, by rw [List.getElem?_append_left (List.getElem?_eq_some_iff.mp hp).1]; exact hp, hne⟩
  | take i e =>
    obtain ⟨p, shared, p', hp, ha, rfl⟩ := Interleaved.step_take hs
    have hi := (List.getElem?_eq_some_iff.mp hp).1
    refine ⟨fun j q hq hallowed => ?_, fun x hx => ?_, ?_⟩
    · rcases Interleaved.getElem_set hq with ⟨rfl, rfl⟩ | ⟨-, hq⟩
      · rcases letThrough_of_allowed hp ha hallowed with hold | hnew
        · obtain ⟨now, hlog⟩ := h.logged j p hp hold
          exact ⟨now, List.mem_append_left _ hlog⟩
        · exact ⟨e.1, List.mem_append_right _ (by rw [hnew]; exact List.mem_singleton_self _)⟩
      · obtain ⟨now, hlog⟩ := h.logged j q hq hallowed
        exact ⟨now, List.mem_append_left _ hlog⟩
    · rcases List.mem_append.mp hx with hx | hx
      · obtain ⟨q, hq, hne⟩ := h.began x hx
        by_cases hxi : x.1 = i
        · rw [hxi]
          exact ⟨p', List.getElem?_set_self hi, act_ne_incr ha⟩
        · exact ⟨q, by rw [List.getElem?_set_ne (Ne.symm hxi)]; exact hq, hne⟩
      · obtain ⟨j, e', limit, he, hxj, -⟩ := letThrough_eq (Option.mem_toList.mp hx)
        cases he
        rw [hxj]
        exact ⟨p', List.getElem?_set_self hi, act_ne_incr ha⟩
    · rw [List.map_append, List.nodup_append]
      refine ⟨h.once, ?_, fun a ha' b hb => ?_⟩
      · cases letThrough key (.take i e) s with
        | none => exact List.nodup_nil
        | some x => exact List.nodup_singleton _
      · obtain ⟨x, hx, rfl⟩ := List.mem_map.mp hb
        obtain ⟨j, e', limit, he, hxj, hpj⟩ := letThrough_eq (Option.mem_toList.mp hx)
        obtain ⟨y, hy, rfl⟩ := List.mem_map.mp ha'
        obtain ⟨q, hq, hne⟩ := h.began y hy
        intro heq
        rw [heq, hxj] at hq
        exact hne limit (Option.some.inj (hq.symm.trans hpj))

/-- What holds of a run's start with an account and a log holds of its end. -/
theorem run_bounded {evs : List (Event ℤ (ℤ × Outcome))}
    (h : Run (FixedWindow.step key periodSeconds) (Within L) s evs t) :
    ∀ {log : List (ℕ × ℤ)} {opened : List ℤ} {current : ℕ},
      Account key periodSeconds L (log.map Prod.snd) opened current s → Logged log s →
      (∃ opened' current', Account key periodSeconds L
        ((log ++ allLetThrough key periodSeconds evs s).map Prod.snd) opened' current' t) ∧
      Logged (log ++ allLetThrough key periodSeconds evs s) t := by
  induction h with
  | nil s =>
    intro log opened current ha hl
    rw [allLetThrough, List.append_nil]
    exact ⟨⟨opened, current, ha⟩, hl⟩
  | cons he hs _ ih =>
    intro log opened current ha hl
    obtain ⟨opened', current', ha'⟩ := ha.step he hs
    rw [← List.map_append] at ha'
    have hrest := ih ha' (hl.step hs)
    simp only [allLetThrough, hs]
    rw [← List.append_assoc]
    exact hrest

/-- Whatever the commands of any calls do to each other, and whichever fail: in less than
    `k` periods at most `k + 1` limits are let through; and a call that is allowed was let
    through, once. -/
theorem fixed_window_bounded (key : Key) (periodSeconds clock : ℤ) {L : ℕ} {evs : List (Event ℤ (ℤ × Outcome))}
    {s : Clients S} (h : Run (step key periodSeconds) (Within L) (init clock) evs s) :
    (∀ (a b : ℤ) (k : ℕ), b - a < k * periodSeconds →
      countIn ((allLetThrough key periodSeconds evs (init clock : Clients S)).map Prod.snd) a b ≤ L * (k + 1)) ∧
    (∀ i, s.threads[i]? = some (.returned (.ok true)) →
      ∃ now, (i, now) ∈ allLetThrough key periodSeconds evs (init clock : Clients S)) ∧
    ((allLetThrough key periodSeconds evs (init clock : Clients S)).map Prod.fst).Nodup := by
  have hstart : Account key periodSeconds L (([] : List (ℕ × ℤ)).map Prod.snd) [] 0 (init clock : Clients S) :=
    ⟨.start L clock, List.Pairwise.nil, .inl ⟨empty_entries key, rfl⟩, fun p hp => (by cases hp)⟩
  have hlogged : Logged [] (init clock : Clients S) :=
    ⟨fun i p hp => (by cases hp), fun x hx => (List.not_mem_nil hx).elim, List.nodup_nil⟩
  obtain ⟨⟨opened, current, ha⟩, hl⟩ := run_bounded h hstart hlogged
  rw [List.nil_append] at ha hl
  exact ⟨fun a b k hab => ha.windowed.countIn_le ha.spaced hab, fun i hi => hl.logged i _ hi rfl, hl.once⟩

/-- Two calls with a limit of one, a window apart. -/
def twoWindows : List (Event ℤ (ℤ × Outcome)) :=
  [.enter 1, .take 0 (0, .replied), .take 0 (0, .replied), .enter 1, .take 1 (60, .replied)]

theorem fixed_window_bounded_twice :
    ∃ s : Clients (Keys ℤ), Run (step ['k'] 60) (Within 1) (init 0) twoWindows s ∧
      countIn ((allLetThrough ['k'] 60 twoWindows (init 0 : Clients (Keys ℤ))).map Prod.snd) 0 60 ≤ 1 * (2 + 1) := by
  have h : Run (step ['k'] 60) (Within 1) (init 0 : Clients (Keys ℤ)) twoWindows _ :=
    .cons (fun _ he => by cases he; decide) rfl (.cons (fun _ he => by cases he) rfl
      (.cons (fun _ he => by cases he) rfl (.cons (fun _ he => by cases he; decide) rfl
        (.cons (fun _ he => by cases he) rfl (.nil _)))))
  exact ⟨_, h, (fixed_window_bounded ['k'] 60 0 h).1 0 60 2 (by decide)⟩

end Glaive.Redis.FixedWindow
