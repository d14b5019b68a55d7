/-
  Glaive.Redis.FixedWindow — calls of the fixed window on one key, by any number of
  clients.

  A call sends `INCR`, and `EXPIRE` when it was the first to count. The commands of the
  calls reach the server in any order; any of them may fail, before the server has
  executed it or after. While no call is between its two commands, the counter has a time
  to live within the period, just if no `INCR` that made the counter loses its reply, and
  no `EXPIRE` fails to be executed (`fixed_window_expires_iff`). Otherwise the counter is
  there for good (`lockedOut_stays`).
-/

import Glaive.Lib.Interleaved
import Glaive.Redis.Client

namespace Glaive.Redis.FixedWindow

open Glaive.Lib
open Glaive.Lib.Interleaved (Event)

/-- How a command ends. One that is `lost` is executed, and its reply does not arrive. -/
inductive Outcome where
  | replied
  | failed
  | lost
  deriving DecidableEq, Repr

/-- The command a call is to send next, or what the call returned. -/
inductive Place where
  | incr (limit : ℤ)
  | expire (limit currentCount : ℤ)
  | returned (allowed : Out Bool)
  deriving DecidableEq, Repr

/-- `clock`: when the server executed its last command. -/
structure Server (S : Type) where
  store : S
  clock : ℤ

def ioFailed : IoError := .other "Connection error"

def send {S α : Type} (outcome : Outcome) (command : Async S α) (s : S) : Out α × S :=
  match outcome with
  | .replied => command s
  | .failed => (.err ioFailed, s)
  | .lost => (.err ioFailed, (command s).2)

/-- The call goes on with a reply, and returns an error. -/
def receive {S α : Type} (now : ℤ) (next : α → Place) : Out α × S → Server S × Place
  | (.ok a, store) => (⟨store, now⟩, next a)
  | (.err e, store) => (⟨store, now⟩, .returned (.err e))
  | (.pending, store) => (⟨store, now⟩, .returned .pending)
  | (.panic text, store) => (⟨store, now⟩, .returned (.panic text))

variable {S : Type} [RedisServer S ℤ]

/-- The commands of `fixedWindowRateLimit`, each at its own time. The clock does not go
    back. -/
def act (key : Key) (periodSeconds : ℤ) (p : Place) (e : ℤ × Outcome) (s : Server S) : Option (Server S × Place) :=
  if e.1 < s.clock then none
  else
    match p with
    | .incr limit => some (receive e.1
        (fun currentCount => if currentCount = 1 then .expire limit currentCount
          else .returned (.ok (decide (currentCount ≤ limit))))
        (send e.2 (incr e.1 key 1) s.store))
    | .expire limit currentCount => some (receive e.1 (fun _ => .returned (.ok (decide (currentCount ≤ limit))))
        (send e.2 (expire e.1 key periodSeconds) s.store))
    | .returned _ => none

/-- A call with its limit begins with `INCR`. -/
def start (_ : ℕ) (limit : ℤ) : Place := .incr limit

abbrev Clients (S : Type) : Type := Threads (Server S) Place

abbrev step (key : Key) (periodSeconds : ℤ) : Event ℤ (ℤ × Outcome) → Clients S → Option (Clients S) :=
  Interleaved.step start (act key periodSeconds)

/-- No key, and no calls. -/
def init (clock : ℤ) : Clients S := ⟨⟨RedisServer.empty, clock⟩, []⟩

def between : Place → Bool
  | .expire _ _ => true
  | _ => false

/-- No call is between its two commands. -/
def Quiet (s : Clients S) : Prop := ∀ p ∈ s.threads, between p = false

/-- No call is between its two commands, and there is a counter that does not expire
    within the period. -/
def LockedOut (key : Key) (periodSeconds : ℤ) (s : Clients S) : Prop :=
  Quiet s ∧ ∃ e, (keys s.shared.store).find s.shared.clock key = some e ∧
    ∀ d, e.deadline = some d → s.shared.clock + periodSeconds < d

/-- A command that counts the first call is executed and its reply lost, or one that is
    to set the time to live is not executed. -/
def Misses (key : Key) : Event ℤ (ℤ × Outcome) → Clients S → Prop
  | .enter _, _ => False
  | .take i (now, outcome), s =>
    (outcome = .lost ∧ (∃ limit, s.threads[i]? = some (.incr limit)) ∧ (keys s.shared.store).find now key = none) ∨
      (outcome = .failed ∧ ∃ limit currentCount, s.threads[i]? = some (.expire limit currentCount))

variable {key : Key} {periodSeconds : ℤ} {s t : Clients S}

/-! ## A call that no other comes between -/

/-- Its commands, one after the other, are the function. -/
theorem alone_eq (limit : ℤ) {now : ℤ} {x : Server S} (h : x.clock ≤ now) :
    ∃ n, Interleaved.alone (act key periodSeconds) (List.replicate n (now, .replied)) (.incr limit) x =
      some (⟨(fixedWindowRateLimit key limit periodSeconds now x.store).2, now⟩,
        .returned (fixedWindowRateLimit key limit periodSeconds now x.store).1) := by
  have hincr : act key periodSeconds (.incr limit) (now, .replied) x = some (receive now
      (fun currentCount => if currentCount = 1 then .expire limit currentCount
        else .returned (.ok (decide (currentCount ≤ limit)))) (incr now key 1 x.store)) := by
    rw [act, if_neg (not_lt.mpr h)]
    rfl
  unfold fixedWindowRateLimit
  rw [Async.bind_apply]
  cases hreply : incr now key 1 x.store with
  | mk reply store =>
  rw [hreply] at hincr
  cases reply with
  | ok currentCount =>
    by_cases hone : currentCount = 1
    · refine ⟨2, ?_⟩
      have hexpire : act key periodSeconds (.expire limit currentCount) (now, .replied) ⟨store, now⟩ =
          some (receive now (fun _ => .returned (.ok (decide (currentCount ≤ limit))))
            (expire now key periodSeconds store)) := by
        rw [act, if_neg (lt_irrefl now)]
        rfl
      simp only [List.replicate, Interleaved.alone, hincr, receive, if_pos hone, Option.bind_some, hexpire]
      rw [Async.bind_apply]
      rcases expire now key periodSeconds store with ⟨reply, store⟩
      cases reply with
      | ok a => rfl
      | err e => rfl
      | pending => rfl
      | panic text => rfl
    · refine ⟨1, ?_⟩
      simp only [List.replicate, Interleaved.alone, hincr, receive, if_neg hone, Option.bind_some]
      rfl
  | err e =>
    refine ⟨1, ?_⟩
    simp only [List.replicate, Interleaved.alone, hincr, receive, Option.bind_some]
  | pending =>
    refine ⟨1, ?_⟩
    simp only [List.replicate, Interleaved.alone, hincr, receive, Option.bind_some]
  | panic text =>
    refine ⟨1, ?_⟩
    simp only [List.replicate, Interleaved.alone, hincr, receive, Option.bind_some]

/-! ## The counter -/

/-- A counter without a time to live. -/
def Lasting (key : Key) (x : Server S) : Prop := ∃ n : ℕ, (keys x.store).entries key = some ⟨.number (n + 1 : ℕ), none⟩

/-- No counter, or one with a time to live within the period, or that had one. -/
def Expiring (key : Key) (periodSeconds : ℤ) (x : Server S) : Prop :=
  (keys x.store).entries key = none ∨
    ∃ (n : ℕ) (d : ℤ), (keys x.store).entries key = some ⟨.number (n + 1 : ℕ), some d⟩ ∧ d ≤ x.clock + periodSeconds

theorem not_both {x : Server S} (h : Lasting key x) (h' : Expiring key periodSeconds x) : False := by
  obtain ⟨n, hn⟩ := h
  rcases h' with hnone | ⟨m, d, hm, -⟩
  · cases hn.symm.trans hnone
  · cases (Keys.number_inj hn hm).2

/-- The keys are all that counts. -/
theorem Lasting.same {store store' : S} {clock : ℤ} (h : Lasting key ⟨store, clock⟩) (hsame : keys store' = keys store) :
    Lasting key ⟨store', clock⟩ := by
  unfold Lasting
  rw [hsame]
  exact h

theorem Expiring.same {store store' : S} {clock : ℤ} (h : Expiring key periodSeconds ⟨store, clock⟩)
    (hsame : keys store' = keys store) : Expiring key periodSeconds ⟨store', clock⟩ := by
  unfold Expiring
  rw [hsame]
  exact h

theorem Lasting.find {x : Server S} (h : Lasting key x) (now : ℤ) :
    ∃ n : ℕ, (keys x.store).find now key = some ⟨.number (n + 1 : ℕ), none⟩ := by
  obtain ⟨n, hn⟩ := h
  exact ⟨n, TimedStore.find_of_entries hn fun d hd => by cases hd⟩

/-- The counter is gone, or expires within the period. -/
theorem Expiring.find {x : Server S} (h : Expiring key periodSeconds x) (now : ℤ) :
    (keys x.store).find now key = none ∨
      ∃ (n : ℕ) (d : ℤ), (keys x.store).find now key = some ⟨.number (n + 1 : ℕ), some d⟩ ∧
        (keys x.store).entries key = some ⟨.number (n + 1 : ℕ), some d⟩ ∧ now < d ∧ d ≤ x.clock + periodSeconds := by
  rcases h with hnone | ⟨n, d, hn, hd⟩
  · exact .inl (TimedStore.find_none hnone)
  · by_cases hnow : now < d
    · refine .inr ⟨n, d, TimedStore.find_of_entries hn fun d' hd' => ?_, hn, hnow, hd⟩
      cases hd'
      exact hnow
    · exact .inl (TimedStore.find_expired hn rfl (not_lt.mp hnow))

/-- The first to count makes a counter without a time to live. -/
theorem incr_first {x : Server S} {now : ℤ} (h : (keys x.store).find now key = none) :
    ∃ store, incr now key 1 x.store = (.ok 1, store) ∧ Lasting key ⟨store, now⟩ := by
  obtain ⟨store, hincr, hentry⟩ := incr_makes h
  exact ⟨store, hincr, 0, hentry⟩

/-- Later ones keep its time to live. -/
theorem incr_later {x : Server S} {now : ℤ} {n : ℕ} {deadline : Option ℤ}
    (h : (keys x.store).find now key = some ⟨.number (n + 1 : ℕ), deadline⟩) :
    ∃ reply store, incr now key 1 x.store = (reply, store) ∧ (∀ currentCount, reply = .ok currentCount → currentCount ≠ 1) ∧
      (keys store = keys x.store ∨ (keys store).entries key = some ⟨.number (n + 1 + 1 : ℕ), deadline⟩) := by
  rcases incr_counts h with ⟨store, hincr, hentry⟩ | ⟨store, hincr, hsame, -⟩
  · refine ⟨_, store, hincr, fun c hc => ?_, .inr hentry⟩
    cases hc
    omega
  · exact ⟨_, store, hincr, (fun c hc => by cases hc), .inl hsame⟩

theorem Expiring.later {x : Server S} (h : Expiring key periodSeconds x) {now : ℤ} (hnow : x.clock ≤ now) :
    Expiring key periodSeconds ⟨x.store, now⟩ := by
  rcases h with hnone | ⟨n, d, hn, hd⟩
  · exact .inl hnone
  · refine .inr ⟨n, d, hn, ?_⟩
    show d ≤ now + periodSeconds
    omega

/-- `INCR` is the first to count, or keeps what there is of a time to live. -/
theorem incr_cases {x : Server S} {now : ℤ} (hnow : x.clock ≤ now) (h : Lasting key x ∨ Expiring key periodSeconds x) :
    ∃ reply store, incr now key 1 x.store = (reply, store) ∧
      (((keys x.store).find now key = none ∧ reply = .ok 1 ∧ Expiring key periodSeconds x ∧ Lasting key ⟨store, now⟩) ∨
        ((keys x.store).find now key ≠ none ∧ (∀ currentCount, reply = .ok currentCount → currentCount ≠ 1) ∧
          (Lasting key x → Lasting key ⟨store, now⟩) ∧
          (Expiring key periodSeconds x → Expiring key periodSeconds ⟨store, now⟩))) := by
  rcases h with h | h
  · obtain ⟨n, hn⟩ := h.find now
    obtain ⟨reply, store, hincr, hreply, hstore⟩ := incr_later hn
    refine ⟨reply, store, hincr, .inr ⟨by rw [hn]; exact Option.some_ne_none _, hreply, fun _ => ?_, fun h' => ?_⟩⟩
    · rcases hstore with hsame | hstore
      · exact h.same hsame
      · exact ⟨n + 1, hstore⟩
    · exact (not_both h h').elim
  · rcases h.find now with hnone | ⟨n, d, hn, hentry, hlive, hd⟩
    · obtain ⟨store, hincr, hlasting⟩ := incr_first hnone
      exact ⟨_, store, hincr, .inl ⟨hnone, rfl, h, hlasting⟩⟩
    · obtain ⟨reply, store, hincr, hreply, hstore⟩ := incr_later hn
      refine ⟨reply, store, hincr, .inr ⟨by rw [hn]; exact Option.some_ne_none _, hreply, fun h' => ?_, fun _ => ?_⟩⟩
      · exact (not_both h' h).elim
      · rcases hstore with hsame | hstore
        · exact (h.later hnow).same hsame
        · refine .inr ⟨n + 1, d, hstore, ?_⟩
          show d ≤ now + periodSeconds
          omega

/-- `EXPIRE` gives a counter without a time to live the period. -/
theorem expire_lasting {x : Server S} (h : Lasting key x) (now : ℤ) :
    ∃ store, expire now key periodSeconds x.store = (.ok (), store) ∧ Expiring key periodSeconds ⟨store, now⟩ := by
  obtain ⟨n, hn⟩ := h.find now
  obtain ⟨store, hexpire, hentry⟩ := expire_there hn periodSeconds
  exact ⟨store, hexpire, .inr ⟨n, now + periodSeconds, hentry, le_refl _⟩⟩

omit [RedisServer S ℤ] in
theorem receive_returned {now : ℤ} {limit : ℤ} {reply : Out ℤ} (store : S)
    (h : ∀ currentCount, reply = .ok currentCount → currentCount ≠ 1) :
    ∃ allowed, receive now (fun currentCount => if currentCount = 1 then Place.expire limit currentCount
      else .returned (.ok (decide (currentCount ≤ limit)))) (reply, store) = (⟨store, now⟩, .returned allowed) := by
  cases reply with
  | ok currentCount => exact ⟨_, by rw [receive, if_neg (h currentCount rfl)]⟩
  | err e => exact ⟨_, rfl⟩
  | pending => exact ⟨_, rfl⟩
  | panic text => exact ⟨_, rfl⟩

/-! ## Any order of commands -/

/-- How many calls are between their commands. -/
def waiting (s : Clients S) : ℕ := s.threads.countP between

/-- One call at most is to set the time to live, and the counter waits for it. -/
structure Inv (key : Key) (periodSeconds : ℤ) (s : Clients S) : Prop where
  one : waiting s ≤ 1
  lasting : 0 < waiting s → Lasting key s.shared
  either : Lasting key s.shared ∨ Expiring key periodSeconds s.shared

theorem inv_init (key : Key) (periodSeconds clock : ℤ) : Inv key periodSeconds (init clock : Clients S) :=
  ⟨Nat.zero_le 1, fun h => absurd h (Nat.lt_irrefl 0), .inr (.inl (empty_entries key))⟩

omit [RedisServer S ℤ] in
theorem quiet_iff : Quiet s ↔ waiting s = 0 := by
  unfold Quiet waiting
  rw [List.countP_eq_zero]
  simp

theorem Inv.lockedOut_iff (h : Inv key periodSeconds s) :
    LockedOut key periodSeconds s ↔ waiting s = 0 ∧ Lasting key s.shared := by
  unfold LockedOut
  rw [quiet_iff]
  refine and_congr_right fun _ => ⟨fun hlate => ?_, fun hlasting => ?_⟩
  · obtain ⟨e, he, hlate⟩ := hlate
    rcases h.either with hlasting | hexp
    · exact hlasting
    · rcases hexp.find s.shared.clock with hnone | ⟨n, d, hn, -, -, hd⟩
      · cases hnone.symm.trans he
      · cases hn.symm.trans he
        exact absurd (hlate d rfl) (not_lt.mpr hd)
  · obtain ⟨n, hn⟩ := hlasting.find s.shared.clock
    exact ⟨_, hn, fun d hd => by cases hd⟩

/-- What a step does to the counter, and to how many calls are to set its time to live. -/
inductive Stepped (key : Key) (periodSeconds : ℤ) (e : Event ℤ (ℤ × Outcome)) (s t : Clients S) : Prop
  | keeps : ¬ Misses key e s → waiting t = waiting s → (Lasting key s.shared → Lasting key t.shared) →
      (Expiring key periodSeconds s.shared → Expiring key periodSeconds t.shared) → Stepped key periodSeconds e s t
  | counts : ¬ Misses key e s → waiting t = waiting s + 1 → Expiring key periodSeconds s.shared →
      Lasting key t.shared → Stepped key periodSeconds e s t
  | expires : ¬ Misses key e s → waiting t + 1 = waiting s → Expiring key periodSeconds t.shared →
      Stepped key periodSeconds e s t
  | misses : Misses key e s → (waiting t = waiting s ∧ Expiring key periodSeconds s.shared ∨ waiting t + 1 = waiting s) →
      Lasting key t.shared → Stepped key periodSeconds e s t

theorem not_misses_incr {i : ℕ} {now limit : ℤ} {outcome : Outcome} (hl : s.threads[i]? = some (.incr limit))
    (h : outcome = .lost → (keys s.shared.store).find now key ≠ none) : ¬ Misses key (.take i (now, outcome)) s := by
  rintro (⟨hlost, -, hnone⟩ | ⟨-, _, _, hexpire⟩)
  · exact h hlost hnone
  · cases hl.symm.trans hexpire

omit [RedisServer S ℤ] in
/-- What is left of a call after `INCR` is not waiting, unless it is the first to count. -/
theorem waiting_returned {i : ℕ} {l : Place} {allowed : Out Bool} {shared : Server S} (hl : s.threads[i]? = some l)
    (hb : between l = false) : waiting ⟨shared, s.threads.set i (.returned allowed)⟩ = waiting s := by
  have hcount := Interleaved.countP_set between hl (.returned allowed)
  rw [hb] at hcount
  simpa [between, waiting] using hcount

theorem incr_stepped (h : Inv key periodSeconds s) {i : ℕ} {now limit : ℤ} {outcome : Outcome}
    (hl : s.threads[i]? = some (.incr limit)) (hnow : s.shared.clock ≤ now) {shared : Server S} {l' : Place}
    (ha : receive now (fun currentCount => if currentCount = 1 then Place.expire limit currentCount
      else .returned (.ok (decide (currentCount ≤ limit)))) (send outcome (incr now key 1) s.shared.store) = (shared, l')) :
    Stepped key periodSeconds (.take i (now, outcome)) s ⟨shared, s.threads.set i l'⟩ := by
  obtain ⟨reply, store, hincr, hcases⟩ := incr_cases hnow h.either
  cases outcome with
  | failed =>
    cases ha
    refine .keeps (not_misses_incr hl fun hlost => by cases hlost) (waiting_returned hl rfl) (fun h' => h') fun h' => ?_
    exact h'.later hnow
  | replied =>
    rw [send, hincr] at ha
    rcases hcases with ⟨-, rfl, hexp, hlasting⟩ | ⟨hthere, hreply, hkeeps, hkeeps'⟩
    · cases ha
      refine .counts (not_misses_incr hl fun hlost => by cases hlost) ?_ hexp hlasting
      have hcount := Interleaved.countP_set between hl (.expire limit 1)
      simpa [between, waiting] using hcount
    · obtain ⟨allowed, hreceive⟩ := @receive_returned S now limit reply store hreply
      cases hreceive.symm.trans ha
      exact .keeps (not_misses_incr hl fun hlost => by cases hlost) (waiting_returned hl rfl) hkeeps hkeeps'
  | lost =>
    rw [send, hincr] at ha
    cases ha
    rcases hcases with ⟨hnone, -, hexp, hlasting⟩ | ⟨hthere, -, hkeeps, hkeeps'⟩
    · exact .misses (.inl ⟨rfl, ⟨limit, hl⟩, hnone⟩) (.inl ⟨waiting_returned hl rfl, hexp⟩) hlasting
    · exact .keeps (not_misses_incr hl fun _ => hthere) (waiting_returned hl rfl) hkeeps hkeeps'

theorem expire_stepped (h : Inv key periodSeconds s) {i : ℕ} {now limit currentCount : ℤ} {outcome : Outcome}
    (hl : s.threads[i]? = some (.expire limit currentCount)) {shared : Server S} {l' : Place}
    (ha : receive now (fun _ => Place.returned (.ok (decide (currentCount ≤ limit))))
      (send outcome (expire now key periodSeconds) s.shared.store) = (shared, l')) :
    Stepped key periodSeconds (.take i (now, outcome)) s ⟨shared, s.threads.set i l'⟩ := by
  have hwaits : 0 < waiting s := List.countP_pos_iff.mpr ⟨_, List.mem_of_getElem? hl, rfl⟩
  have hlasting := h.lasting hwaits
  obtain ⟨store, hexpire, hexp⟩ := @expire_lasting S _ key periodSeconds s.shared hlasting now
  have hless : ∀ (allowed : Out Bool) (shared : Server S),
      waiting ⟨shared, s.threads.set i (.returned allowed)⟩ + 1 = waiting s := by
    intro allowed shared
    have hcount := Interleaved.countP_set between hl (.returned allowed)
    simpa [between, waiting] using hcount
  have hnot : outcome ≠ .failed → ¬ Misses key (.take i (now, outcome)) s := by
    rintro hne (⟨-, ⟨_, hincr⟩, -⟩ | ⟨hfailed, -⟩)
    · cases hl.symm.trans hincr
    · exact hne hfailed
  cases outcome with
  | failed =>
    cases ha
    exact .misses (.inr ⟨rfl, limit, currentCount, hl⟩) (.inr (hless _ _)) hlasting
  | replied =>
    rw [send, hexpire] at ha
    cases ha
    exact .expires (hnot fun h => by cases h) (hless _ _) hexp
  | lost =>
    rw [send, hexpire] at ha
    cases ha
    exact .expires (hnot fun h => by cases h) (hless _ _) hexp

theorem Inv.stepped (h : Inv key periodSeconds s) {e : Event ℤ (ℤ × Outcome)} (hs : step key periodSeconds e s = some t) :
    Stepped key periodSeconds e s t := by
  cases e with
  | enter limit =>
    cases hs
    refine .keeps id ?_ id id
    unfold waiting
    rw [List.countP_append]
    rfl
  | take i e =>
    obtain ⟨l, shared, l', hl, ha, rfl⟩ := Interleaved.step_take hs
    obtain ⟨now, outcome⟩ := e
    unfold act at ha
    split at ha
    · cases ha
    · rename_i hnow
      cases l with
      | incr limit => exact incr_stepped h hl (not_lt.mp hnow) (Option.some.inj ha)
      | expire limit currentCount => exact expire_stepped h hl (Option.some.inj ha)
      | returned allowed => cases ha

theorem Inv.step (h : Inv key periodSeconds s) {e : Event ℤ (ℤ × Outcome)} (hs : step key periodSeconds e s = some t) :
    Inv key periodSeconds t := by
  cases h.stepped hs with
  | keeps _ hw hl he =>
    exact ⟨hw ▸ h.one, fun h' => hl (h.lasting (hw ▸ h')), h.either.imp hl he⟩
  | counts _ hw he hl =>
    have hnone : waiting s = 0 := by
      by_contra hpos
      exact not_both (h.lasting (Nat.pos_of_ne_zero hpos)) he
    exact ⟨by omega, fun _ => hl, .inl hl⟩
  | expires _ hw he =>
    have hone := h.one
    exact ⟨by omega, fun h' => by omega, .inr he⟩
  | misses _ hw hl =>
    have hone := h.one
    exact ⟨by omega, fun _ => hl, .inl hl⟩

/-- A step that misses locks out, and no other does. -/
theorem Inv.lockedOut_step (h : Inv key periodSeconds s) (hno : ¬ LockedOut key periodSeconds s)
    {e : Event ℤ (ℤ × Outcome)} (hs : FixedWindow.step key periodSeconds e s = some t) :
    ¬ LockedOut key periodSeconds t ↔ ¬ Misses key e s := by
  rw [(h.step hs).lockedOut_iff]
  rw [h.lockedOut_iff] at hno
  cases h.stepped hs with
  | keeps hmiss hw hl he =>
    refine ⟨fun _ => hmiss, fun _ hlocked => ?_⟩
    rcases h.either with hlasting | hexp
    · exact hno ⟨hw ▸ hlocked.1, hlasting⟩
    · exact not_both hlocked.2 (he hexp)
  | counts hmiss hw _ _ => exact ⟨fun _ => hmiss, fun _ hlocked => by omega⟩
  | expires hmiss _ he => exact ⟨fun _ => hmiss, fun _ hlocked => not_both hlocked.2 he⟩
  | misses hmiss hw hl =>
    have hone := h.one
    have hnone : waiting t = 0 := by
      rcases hw with ⟨hw, hexp⟩ | hw
      · by_contra hpos
        exact not_both (h.lasting (by omega)) hexp
      · omega
    exact ⟨fun hopen => absurd ⟨hnone, hl⟩ hopen, fun hnot => absurd hmiss hnot⟩

/-- Once locked out, for good: no later step sets a time to live. -/
theorem lockedOut_stays {P : Event ℤ (ℤ × Outcome) → Clients S → Prop} {evs : List (Event ℤ (ℤ × Outcome))}
    (h : Run (FixedWindow.step key periodSeconds) P s evs t) (hi : Inv key periodSeconds s)
    (hlocked : LockedOut key periodSeconds s) : LockedOut key periodSeconds t := by
  have hboth : Inv key periodSeconds t ∧ waiting t = 0 ∧ Lasting key t.shared := by
    refine Run.invariant (I := fun s => Inv key periodSeconds s ∧ waiting s = 0 ∧ Lasting key s.shared) ?_ h
      ⟨hi, hi.lockedOut_iff.mp hlocked⟩
    rintro e s t ⟨hi, hw, hl⟩ - hs
    refine ⟨hi.step hs, ?_⟩
    cases hi.stepped hs with
    | keeps _ hw' hl' _ => exact ⟨hw'.trans hw, hl' hl⟩
    | counts _ _ he _ => exact (not_both hl he).elim
    | expires _ hw' _ => omega
    | misses _ hw' hl' => exact ⟨by omega, hl'⟩
  exact hboth.1.lockedOut_iff.mpr hboth.2

/-- A call a period later finds no counter, where none is locked out. -/
theorem Inv.admits (h : Inv key periodSeconds s) (hq : Quiet s) (hopen : ¬ LockedOut key periodSeconds s) {limit now : ℤ}
    (hlimit : 1 ≤ limit) (hnow : s.shared.clock + periodSeconds ≤ now) :
    ∃ store, fixedWindowRateLimit key limit periodSeconds now s.shared.store = (.ok true, store) := by
  rw [h.lockedOut_iff, ← quiet_iff] at hopen
  have hexp := h.either.resolve_left fun hl => hopen ⟨hq, hl⟩
  rcases hexp.find now with hnone | ⟨n, d, -, -, hlive, hd⟩
  · obtain ⟨store, hincr, hlasting⟩ := incr_first hnone
    obtain ⟨store', hexpire, -⟩ := @expire_lasting S _ key periodSeconds ⟨store, now⟩ hlasting now
    refine ⟨store', ?_⟩
    unfold fixedWindowRateLimit
    rw [Async.bind_ok hincr, if_pos rfl, Async.bind_ok hexpire, decide_eq_true hlimit]
    rfl
  · omega

/-- In any order of the commands of any calls, every state with no call between its two
    commands has a counter that expires within the period, or none, just if no command
    misses; and then a call a period later is allowed. -/
theorem fixed_window_expires_iff (key : Key) (periodSeconds clock : ℤ) (evs : List (Event ℤ (ℤ × Outcome)))
    (s : Clients S) :
    (Run (step key periodSeconds) (fun _ s => ¬ LockedOut key periodSeconds s) (init clock) evs s ∧
        ¬ LockedOut key periodSeconds s ↔
      Run (step key periodSeconds) (fun e s => ¬ Misses key e s) (init clock) evs s) ∧
    (Run (step key periodSeconds) (fun e s => ¬ Misses key e s) (init clock) evs s → Quiet s →
      ∀ limit now, 1 ≤ limit → s.shared.clock + periodSeconds ≤ now →
        ∃ store, fixedWindowRateLimit key limit periodSeconds now s.shared.store = (.ok true, store)) := by
  have hstart : Inv key periodSeconds (init clock : Clients S) := inv_init key periodSeconds clock
  have hiff : Run (step key periodSeconds) (fun _ s => ¬ LockedOut key periodSeconds s) (init clock) evs s ∧
      ¬ LockedOut key periodSeconds s ↔
      Run (step key periodSeconds) (fun e s => ¬ Misses key e s) (init clock) evs s := by
    refine Run.avoids_iff (fun _ _ _ hi hs => hi.step hs) (fun _ _ _ hi hno hs => hi.lockedOut_step hno hs) hstart ?_
    rw [hstart.lockedOut_iff]
    exact fun h => @not_both S _ key periodSeconds _ h.2 (.inl (empty_entries key))
  refine ⟨hiff, fun h hq limit now hlimit hnow => ?_⟩
  have hinv := Run.invariant (fun _ _ _ hi _ hs => Inv.step hi hs) h hstart
  exact hinv.admits hq (hiff.mpr h).2 hlimit hnow

/-- A client counts the first call, and its `EXPIRE` fails. -/
def expireFails : List (Event ℤ (ℤ × Outcome)) := [.enter 5, .take 0 (0, .replied), .take 0 (0, .failed)]

theorem fixed_window_not_expiring :
    ∃ s : Clients (Keys ℤ), Run (step ['k'] 60) (fun _ _ => True) (init 0) expireFails s ∧ LockedOut ['k'] 60 s := by
  refine ⟨_, run_get _ _ _ _ (by rfl), ?_, ⟨_, rfl, fun d hd => by cases hd⟩⟩
  intro p hp
  cases List.mem_singleton.mp hp
  rfl

end Glaive.Redis.FixedWindow
