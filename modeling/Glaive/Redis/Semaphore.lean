/-
  Glaive.Redis.Semaphore — the concurrency limit kept in Redis (`glaive/src/redis.rs`:
  `semaphore_rate_limit`, `release_semaphore`), used by any number of callers at once.

  A caller asks, and where it is let in, releases what it has once. The script and the
  command are one step each at the server; either may fail before the server has executed
  it, or after, its reply lost. What is counted then and never released is leaked.

  Proved: the counter is what callers have and what is leaked, so no more callers are let
  in at once than the limit, and one is let in just if there are fewer (`semaphore_held`).
-/

import Glaive.Redis.FixedWindow

namespace Glaive.Redis.Semaphore

open Glaive.Lib
open Glaive.Lib.Interleaved (Event)
open FixedWindow (Outcome send)

/-- Where a caller is. -/
inductive Place where
  | ask (maxConcurrency : ℤ)
  /-- It was let in. -/
  | inside
  | returned (allowed : Out Bool)
  deriving DecidableEq, Repr

/-- `clock`: when the server executed its last command. `leaked`: how often it counted a
    caller that was not told, or was not told of a release; no code reads it. -/
structure Server (S : Type) where
  store : S
  clock : ℤ
  leaked : ℕ

/-- What is leaked when the command ends so. -/
def leak (outcome : Outcome) (p : Place) (counted : Bool) : ℕ :=
  match outcome, p with
  | .lost, .ask _ => if counted then 1 else 0
  | .failed, .inside => 1
  | _, _ => 0

variable {S : Type} [RedisServer S ℤ]

/-- The clock does not go back. -/
def act (key : Key) (p : Place) (e : ℤ × Outcome) (s : Server S) : Option (Server S × Place) :=
  if e.1 < s.clock then none
  else
    match p with
    | .ask maxConcurrency =>
      let (reply, store) := send e.2 (semaphoreRateLimit key maxConcurrency e.1) s.store
      let counted := decide ((semaphoreRateLimit key maxConcurrency e.1 s.store).1 = .ok true)
      some (⟨store, e.1, s.leaked + leak e.2 p counted⟩, if reply = .ok true then .inside else .returned reply)
    | .inside =>
      let (reply, store) := send e.2 (releaseSemaphore key e.1) s.store
      some (⟨store, e.1, s.leaked + leak e.2 p false⟩, .returned (match reply with
        | .ok _ => .ok true
        | .err e => .err e
        | .pending => .pending
        | .panic text => .panic text))
    | .returned _ => none

/-- A caller asks, with its limit. -/
def start (_ : ℕ) (maxConcurrency : ℤ) : Place := .ask maxConcurrency

abbrev Callers (S : Type) : Type := Threads (Server S) Place

abbrev step (key : Key) : Event ℤ (ℤ × Outcome) → Callers S → Option (Callers S) := Interleaved.step start (act key)

/-- No key, and no callers. -/
def init (clock : ℤ) : Callers S := ⟨⟨RedisServer.empty, clock, 0⟩, []⟩

def isInside : Place → Bool
  | .inside => true
  | _ => false

/-- How many callers are let in and have not released. -/
def held (s : Callers S) : ℕ := s.threads.countP isInside

variable {key : Key} {s t : Callers S}

/-! ## The counter -/

/-- It counts `n`. -/
def Counts (key : Key) (x : S) (n : ℕ) : Prop :=
  ((keys x).entries key = none ∧ n = 0) ∨ (keys x).entries key = some ⟨.number n, none⟩

/-- The keys are all that counts. -/
theorem Counts.same {x x' : S} {n : ℕ} (h : Counts key x n) (hsame : keys x' = keys x) : Counts key x' n := by
  unfold Counts
  rw [hsame]
  exact h

theorem Counts.get {x : S} {n : ℕ} (h : Counts key x n) (now : ℤ) :
    ∃ reply x', get now key x = (.ok reply, x') ∧ reply.getD 0 = n ∧ Counts key x' n := by
  have hold := h
  rcases h with ⟨hnone, rfl⟩ | hn
  · obtain ⟨x', hget, hsame⟩ := get_gone (TimedStore.find_none hnone)
    exact ⟨none, x', hget, rfl, hold.same hsame⟩
  · obtain ⟨x', hget, hsame⟩ := get_there (TimedStore.find_of_entries hn fun d hd => by cases hd)
    exact ⟨_, x', hget, rfl, hold.same hsame⟩

/-- An increment counts one more, where the counter has room. -/
theorem Counts.incr {x : S} {n : ℕ} (h : Counts key x n) (now : ℤ) (hroom : (n : ℤ) + 1 ≤ maxInteger) :
    ∃ reply x', incr now key 1 x = (.ok reply, x') ∧ Counts key x' (n + 1) := by
  rcases h with ⟨hnone, rfl⟩ | hn
  · obtain ⟨x', hincr, hentry⟩ := incr_makes (TimedStore.find_none hnone)
    exact ⟨1, x', hincr, .inr hentry⟩
  · rcases incr_counts (TimedStore.find_of_entries hn fun d hd => by cases hd) with
      ⟨x', hincr, hentry⟩ | ⟨x', -, -, hfull⟩
    · exact ⟨_, x', hincr, .inr hentry⟩
    · exact absurd hfull (not_lt.mpr hroom)

/-- A decrement of what is counted counts one less. -/
theorem Counts.decr {x : S} {n : ℕ} (h : Counts key x (n + 1)) (now : ℤ) :
    ∃ reply x', decr now key 1 x = (.ok reply, x') ∧ Counts key x' n := by
  rcases h with ⟨-, hn⟩ | hn
  · cases hn
  · obtain ⟨x', hdecr, hentry⟩ := decr_counts (TimedStore.find_of_entries hn fun d hd => by cases hd)
    exact ⟨_, x', hdecr, .inr hentry⟩

/-- The script lets in just where fewer are counted than its limit, and counts whom it
    lets in. -/
theorem Counts.ask {x : S} {n : ℕ} (h : Counts key x n) {maxConcurrency : ℤ} (hmax : maxConcurrency ≤ maxInteger)
    (now : ℤ) :
    ∃ store, semaphoreRateLimit key maxConcurrency now x = (.ok (decide ((n : ℤ) < maxConcurrency)), store) ∧
      Counts key store (if (n : ℤ) < maxConcurrency then n + 1 else n) := by
  obtain ⟨reply, x', hget, hreply, h'⟩ := h.get now
  unfold semaphoreRateLimit
  rw [Async.bind_ok hget, hreply]
  by_cases hlt : (n : ℤ) < maxConcurrency
  · rw [if_pos (by exact_mod_cast hlt), if_pos hlt, decide_eq_true hlt]
    obtain ⟨count, store, hincr, hcounts⟩ := h'.incr now (by omega)
    exact ⟨store, by rw [Async.bind_ok hincr]; rfl, hcounts⟩
  · rw [if_neg (by exact_mod_cast hlt), if_neg hlt, decide_eq_false hlt]
    exact ⟨x', rfl, h'⟩

/-! ## Any order of commands -/

/-- All limits asked with are within `M`. -/
def Within (M : ℤ) (e : Event ℤ (ℤ × Outcome)) (_ : Callers S) : Prop :=
  ∀ maxConcurrency, e = .enter maxConcurrency → maxConcurrency ≤ M

structure Inv (key : Key) (M : ℤ) (s : Callers S) : Prop where
  counts : Counts key s.shared.store (held s + s.shared.leaked)
  bounded : (held s + s.shared.leaked : ℕ) ≤ max M 0
  limits : ∀ p ∈ s.threads, ∀ maxConcurrency, p = .ask maxConcurrency → maxConcurrency ≤ M

theorem inv_init (key : Key) (M clock : ℤ) : Inv key M (init clock : Callers S) :=
  ⟨.inl ⟨empty_entries key, rfl⟩, le_max_right _ _, fun p hp => by cases hp⟩

variable {M : ℤ}

omit [RedisServer S ℤ] in
theorem held_set {i : ℕ} {p : Place} (hp : s.threads[i]? = some p) (shared : Server S) (p' : Place) :
    held ⟨shared, s.threads.set i p'⟩ + (if isInside p then 1 else 0) = held s + (if isInside p' then 1 else 0) :=
  Interleaved.countP_set isInside hp p'

theorem limits_set (h : Inv key M s) {i : ℕ} {p' : Place} (hp' : ∀ maxConcurrency, p' ≠ .ask maxConcurrency) :
    ∀ p ∈ s.threads.set i p', ∀ maxConcurrency, p = .ask maxConcurrency → maxConcurrency ≤ M := by
  intro p hp maxConcurrency he
  rcases List.mem_or_eq_of_mem_set hp with hp | rfl
  · exact h.limits p hp maxConcurrency he
  · exact absurd he (hp' maxConcurrency)

theorem Inv.ask (h : Inv key M s) (hM : M ≤ maxInteger) {i : ℕ} {now maxConcurrency : ℤ} {outcome : Outcome}
    (hp : s.threads[i]? = some (.ask maxConcurrency)) {shared : Server S} {p' : Place}
    (ha : act key (.ask maxConcurrency) (now, outcome) s.shared = some (shared, p')) :
    Inv key M ⟨shared, s.threads.set i p'⟩ ∧ s.shared.leaked ≤ shared.leaked := by
  have hlimit := h.limits _ (List.mem_of_getElem? hp) maxConcurrency rfl
  obtain ⟨store, hask, hcounts⟩ := h.counts.ask (hlimit.trans hM) now
  unfold act at ha
  split at ha
  · cases ha
  have hb := h.bounded
  cases outcome with
  | failed =>
    simp only [send, leak, reduceCtorEq, if_false, Nat.add_zero] at ha
    cases ha
    have hheld := held_set hp ⟨s.shared.store, now, s.shared.leaked⟩ (.returned (.err FixedWindow.ioFailed))
    simp only [isInside, Bool.false_eq_true, if_false, Nat.add_zero] at hheld
    exact ⟨⟨by rw [hheld]; exact h.counts, by rw [hheld]; exact hb, limits_set h fun _ hno => by cases hno⟩, le_refl _⟩
  | replied =>
    simp only [send, leak, hask, Out.ok.injEq, Nat.add_zero] at ha
    cases ha
    by_cases hlt : ((held s + s.shared.leaked : ℕ) : ℤ) < maxConcurrency
    · simp only [hlt, decide_true, if_true] at hcounts ⊢
      have hheld := held_set hp ⟨store, now, s.shared.leaked⟩ .inside
      simp only [isInside, Bool.false_eq_true, if_false, Nat.add_zero, if_true] at hheld
      refine ⟨⟨?_, ?_, limits_set h fun _ hno => by cases hno⟩, le_refl _⟩
      · rw [hheld]
        rw [Nat.add_right_comm]
        exact hcounts
      · rw [hheld]
        show ((held s + 1 + s.shared.leaked : ℕ) : ℤ) ≤ _
        omega
    · simp only [hlt, decide_false, Bool.false_eq_true, if_false] at hcounts ⊢
      have hheld := held_set hp ⟨store, now, s.shared.leaked⟩ (.returned (.ok false))
      simp only [isInside, Bool.false_eq_true, if_false, Nat.add_zero] at hheld
      exact ⟨⟨by rw [hheld]; exact hcounts, by rw [hheld]; exact hb, limits_set h fun _ hno => by cases hno⟩, le_refl _⟩
  | lost =>
    simp only [send, leak, hask, reduceCtorEq, if_false, Out.ok.injEq, decide_eq_true_eq] at ha
    cases ha
    by_cases hlt : ((held s + s.shared.leaked : ℕ) : ℤ) < maxConcurrency
    · simp only [hlt, if_true] at hcounts ⊢
      have hheld := held_set hp ⟨store, now, s.shared.leaked + 1⟩ (.returned (.err FixedWindow.ioFailed))
      simp only [isInside, Bool.false_eq_true, if_false, Nat.add_zero] at hheld
      refine ⟨⟨by rw [hheld]; exact hcounts, ?_, limits_set h fun _ hno => by cases hno⟩, Nat.le_succ _⟩
      rw [hheld]
      show ((held s + (s.shared.leaked + 1) : ℕ) : ℤ) ≤ _
      omega
    · simp only [hlt, if_false, Nat.add_zero] at hcounts ⊢
      have hheld := held_set hp ⟨store, now, s.shared.leaked⟩ (.returned (.err FixedWindow.ioFailed))
      simp only [isInside, Bool.false_eq_true, if_false, Nat.add_zero] at hheld
      exact ⟨⟨by rw [hheld]; exact hcounts, by rw [hheld]; exact hb, limits_set h fun _ hno => by cases hno⟩, le_refl _⟩

theorem Inv.release (h : Inv key M s) {i : ℕ} {now : ℤ} {outcome : Outcome} (hp : s.threads[i]? = some .inside)
    {shared : Server S} {p' : Place} (ha : act key .inside (now, outcome) s.shared = some (shared, p')) :
    Inv key M ⟨shared, s.threads.set i p'⟩ ∧ s.shared.leaked ≤ shared.leaked := by
  have hb := h.bounded
  have hheld : ∀ (shared : Server S) allowed, held ⟨shared, s.threads.set i (.returned allowed)⟩ + 1 = held s := by
    intro shared allowed
    have hset := held_set hp shared (.returned allowed)
    simpa [isInside] using hset
  obtain ⟨n, hn⟩ : ∃ n, held s = n + 1 := ⟨_, (hheld s.shared (.ok true)).symm⟩
  have hcounts := h.counts
  rw [hn, Nat.add_right_comm] at hcounts
  obtain ⟨reply, store, hdecr, hless⟩ := hcounts.decr now
  have hrelease : releaseSemaphore key now s.shared.store = (.ok (), store) := by
    unfold releaseSemaphore
    rw [Async.bind_ok hdecr]
    rfl
  unfold act at ha
  split at ha
  · cases ha
  cases outcome with
  | failed =>
    simp only [send, leak] at ha
    cases ha
    have hset := hheld ⟨s.shared.store, now, s.shared.leaked + 1⟩ (.err FixedWindow.ioFailed)
    have hsame : held ⟨⟨s.shared.store, now, s.shared.leaked + 1⟩,
        s.threads.set i (.returned (.err FixedWindow.ioFailed))⟩ + (s.shared.leaked + 1) = held s + s.shared.leaked := by
      omega
    exact ⟨⟨by rw [hsame]; exact h.counts, by rw [hsame]; exact hb, limits_set h fun _ hno => by cases hno⟩, Nat.le_succ _⟩
  | replied =>
    simp only [send, leak, hrelease, Nat.add_zero] at ha
    cases ha
    have hset := hheld ⟨store, now, s.shared.leaked⟩ (.ok true)
    have hsame : held ⟨⟨store, now, s.shared.leaked⟩, s.threads.set i (.returned (.ok true))⟩ = n := by omega
    refine ⟨⟨by rw [hsame]; exact hless, ?_, limits_set h fun _ hno => by cases hno⟩, le_refl _⟩
    rw [hsame]
    show ((n + s.shared.leaked : ℕ) : ℤ) ≤ _
    omega
  | lost =>
    simp only [send, leak, hrelease, Nat.add_zero] at ha
    cases ha
    have hset := hheld ⟨store, now, s.shared.leaked⟩ (.err FixedWindow.ioFailed)
    have hsame : held ⟨⟨store, now, s.shared.leaked⟩, s.threads.set i (.returned (.err FixedWindow.ioFailed))⟩ = n := by
      omega
    refine ⟨⟨by rw [hsame]; exact hless, ?_, limits_set h fun _ hno => by cases hno⟩, le_refl _⟩
    rw [hsame]
    show ((n + s.shared.leaked : ℕ) : ℤ) ≤ _
    omega

theorem Inv.step (h : Inv key M s) (hM : M ≤ maxInteger) {e : Event ℤ (ℤ × Outcome)} (he : Within M e s)
    (hs : Semaphore.step key e s = some t) : Inv key M t ∧ s.shared.leaked ≤ t.shared.leaked := by
  cases e with
  | enter maxConcurrency =>
    cases hs
    have hheld : held ⟨s.shared, s.threads ++ [start s.threads.length maxConcurrency]⟩ = held s := by
      unfold held
      rw [List.countP_append]
      rfl
    refine ⟨⟨by rw [hheld]; exact h.counts, by rw [hheld]; exact h.bounded, fun p hp m hm => ?_⟩, le_refl _⟩
    rcases List.mem_append.mp hp with hp | hp
    · exact h.limits p hp m hm
    · rw [List.mem_singleton.mp hp] at hm
      cases hm
      exact he _ rfl
  | take i e =>
    obtain ⟨p, shared, p', hp, ha, rfl⟩ := Interleaved.step_take hs
    obtain ⟨now, outcome⟩ := e
    cases p with
    | ask maxConcurrency => exact h.ask hM hp ha
    | inside => exact h.release hp ha
    | returned allowed =>
      unfold act at ha
      split at ha
      · cases ha
      · cases ha

/-- Any number of callers ask, are let in and release, in any order of their commands,
    whichever of these fail: those inside and what is leaked are together within the
    limit, and one more is let in just if they are fewer. What is leaked is lost to the
    limit for good. -/
theorem semaphore_held (key : Key) {M clock : ℤ} (hM : M ≤ maxInteger) {evs : List (Event ℤ (ℤ × Outcome))}
    {s : Callers S}
    (h : Run (step key) (Within M) (init clock) evs s) :
    (held s + s.shared.leaked : ℕ) ≤ max M 0 ∧
      (∀ maxConcurrency ≤ M, ∀ now, ∃ store, semaphoreRateLimit key maxConcurrency now s.shared.store =
        (.ok (decide (((held s + s.shared.leaked : ℕ) : ℤ) < maxConcurrency)), store)) ∧
      ∀ evs' t, Run (step key) (Within M) s evs' t → M ≤ s.shared.leaked →
        ∀ maxConcurrency ≤ M, ∀ now, (semaphoreRateLimit key maxConcurrency now t.shared.store).1 = .ok false := by
  have hi : Inv key M s := h.invariant (fun _ _ _ hi he hs => (hi.step hM he hs).1) (inv_init key M clock)
  refine ⟨hi.bounded, fun m hm now => ?_, fun evs' t h' hleaked m hm now => ?_⟩
  · obtain ⟨store, hask, -⟩ := hi.counts.ask (hm.trans hM) now
    exact ⟨store, hask⟩
  · obtain ⟨ht, hle⟩ : Inv key M t ∧ M ≤ t.shared.leaked := by
      refine h'.invariant (I := fun x => Inv key M x ∧ M ≤ x.shared.leaked) ?_ ⟨hi, hleaked⟩
      rintro e a b ⟨ha, hle⟩ he hs
      obtain ⟨hb, hmore⟩ := ha.step hM he hs
      exact ⟨hb, hle.trans (by exact_mod_cast hmore)⟩
    obtain ⟨store, hask, -⟩ := ht.counts.ask (hm.trans hM) now
    rw [hask]
    have hno : ¬ ((held t + t.shared.leaked : ℕ) : ℤ) < m := by omega
    rw [decide_eq_false hno]

/-- A caller is let in, and its release fails; another asks. -/
theorem semaphore_held_once :
    ∃ s : Callers (Keys ℤ), Run (step ['k']) (Within 1) (init 0)
        [.enter 1, .take 0 (0, .replied), .take 0 (5, .failed), .enter 1] s ∧
      (held s + s.shared.leaked : ℕ) ≤ max (1 : ℤ) 0 := by
  have h : Run (step ['k']) (Within 1) (init 0 : Callers (Keys ℤ))
      [.enter 1, .take 0 (0, .replied), .take 0 (5, .failed), .enter 1] _ :=
    .cons (fun _ he => by cases he; decide) rfl (.cons (fun _ he => by cases he) rfl
      (.cons (fun _ he => by cases he) rfl (.cons (fun _ he => by cases he; decide) rfl (.nil _))))
  exact ⟨_, h, (semaphore_held ['k'] (by decide) h).1⟩

end Glaive.Redis.Semaphore
