/-
  Glaive.Redis.Client — the rate limits kept in Redis (`glaive/src/redis.rs`:
  `RedisClient`), and the commands they are made of.

  The server is a parameter: its commands answer, and change what is under its keys, as
  their documentation has it (`RedisServer`). A key holds a number or a sorted set, and is
  gone when its time to live is over, by the clock of the server (`Keys`). The code takes
  the time of a call from its own clock, in whole seconds. The two show one time: in
  `tokenBucketRateLimit` that of the server with its fraction, where the code drops it
  (`asSecs`); elsewhere a call takes place in a whole second. The numbers of the scripts
  are exact.
-/

import Glaive.Lib.Io
import Glaive.Lib.Runs
import Glaive.Lib.TimedStore
import Mathlib.Algebra.Order.Field.Rat
import Mathlib.Algebra.Order.Ring.Int
import Mathlib.Data.Rat.Floor
import Mathlib.Data.Rat.Cast.Order

namespace Glaive.Redis

open Glaive.Lib

abbrev Key : Type := List Char

/-- `sortedSet`: each member with its score. -/
inductive Value where
  | number (q : ℚ)
  | sortedSet (members : List (ℤ × ℤ))
  deriving DecidableEq

/-- The keys of a server. -/
abbrev Keys (τ : Type) : Type := TimedStore Key Value τ

/-! ## Commands -/

def wrongType : IoError := .other "WRONGTYPE Operation against a key holding the wrong kind of value"

def notInteger : IoError := .other "ERR value is not an integer or out of range"

def overflow : IoError := .other "ERR increment or decrement would overflow"

def maxInteger : ℤ := 2 ^ 63 - 1

def minInteger : ℤ := -2 ^ 63

/-- A member that is there has its score changed. -/
def addMember (members : List (ℤ × ℤ)) (member score : ℤ) : List (ℤ × ℤ) :=
  if members.any fun m => m.1 = member then members.map fun m => if m.1 = member then (member, score) else m
  else members ++ [(member, score)]

/-! What the commands do to the keys, as their documentation has it. -/

namespace Keys

variable {τ : Type} [LinearOrder τ] [Add τ]

omit [Add τ] in
def get (now : τ) (key : Key) : Async (Keys τ) (Option ℚ) := fun s =>
  match TimedStore.get s now key with
  | none => (.ok none, s)
  | some (.number q) => (.ok (some q), s)
  | some (.sortedSet _) => (.err wrongType, s)

omit [LinearOrder τ] [Add τ] in
def set (key : Key) (q : ℚ) : Async (Keys τ) Unit := Async.modify fun s => TimedStore.set s key (.number q)

/-- A time to live that is not positive ends the key at once. The key is gone from its
    deadline on; a server that counts milliseconds keeps it for the one of the deadline. -/
def expire (now : τ) (key : Key) (seconds : τ) : Async (Keys τ) Unit :=
  Async.modify fun s => s.expireAt now key (now + seconds)

/-- `INCRBY`: a key that is not there counts from 0. -/
def incr (now : τ) (key : Key) (by_ : ℤ) : Async (Keys τ) ℤ := fun s =>
  match TimedStore.get s now key with
  | none => (.ok by_, TimedStore.set s key (.number by_))
  | some (.number q) =>
    if q.den ≠ 1 then (.err notInteger, s)
    else if maxInteger < q.num + by_ then (.err overflow, s)
    else (.ok (q.num + by_), s.alter now key (.number (q.num + by_)))
  | some (.sortedSet _) => (.err wrongType, s)

/-- `DECRBY`: a key that is not there counts from 0. -/
def decr (now : τ) (key : Key) (by_ : ℤ) : Async (Keys τ) ℤ := fun s =>
  match TimedStore.get s now key with
  | none => (.ok (-by_), TimedStore.set s key (.number (-by_ : ℤ)))
  | some (.number q) =>
    if q.den ≠ 1 then (.err notInteger, s)
    else if q.num - by_ < minInteger then (.err overflow, s)
    else (.ok (q.num - by_), s.alter now key (.number (q.num - by_ : ℤ)))
  | some (.sortedSet _) => (.err wrongType, s)

/-- The members that are there. -/
def members (now : τ) (key : Key) : Async (Keys τ) (List (ℤ × ℤ)) := fun s =>
  match TimedStore.get s now key with
  | none => (.ok [], s)
  | some (.sortedSet members) => (.ok members, s)
  | some (.number _) => (.err wrongType, s)

/-- The members with a score from `min` to `max`, where `none` is `-inf`. -/
def zrevrangebyscore (now : τ) (key : Key) (max : Option ℤ) (min : ℤ) : Async (Keys τ) (List ℤ) := do
  let members ← members now key
  return ((members.filter fun m => min ≤ m.2 ∧ max.any fun max => m.2 ≤ max).map (·.1)).reverse

def zadd (now : τ) (key : Key) (member score : ℤ) : Async (Keys τ) Unit := do
  let members ← members now key
  Async.modify fun s => s.alter now key (.sortedSet (addMember members member score))

def zcard (now : τ) (key : Key) : Async (Keys τ) Nat := do
  let members ← members now key
  return members.length

end Keys

/-- A server, and its clock at each command: what it answers and what becomes of its keys
    is what the documentation says. -/
class RedisServer (S : Type) (τ : outParam Type) [LinearOrder τ] [Add τ] where
  empty : S
  keys : S → Keys τ
  get (now : τ) (key : Key) : Async S (Option ℚ)
  set (key : Key) (q : ℚ) : Async S Unit
  expire (now : τ) (key : Key) (seconds : τ) : Async S Unit
  incr (now : τ) (key : Key) (by_ : ℤ) : Async S ℤ
  decr (now : τ) (key : Key) (by_ : ℤ) : Async S ℤ
  zrevrangebyscore (now : τ) (key : Key) (max : Option ℤ) (min : ℤ) : Async S (List ℤ)
  zadd (now : τ) (key : Key) (member score : ℤ) : Async S Unit
  zcard (now : τ) (key : Key) : Async S Nat
  keys_empty : keys empty = .empty
  get_seen (now : τ) (key : Key) : Async.Seen keys (get now key) (Keys.get now key)
  set_seen (key : Key) (q : ℚ) : Async.Seen keys (set key q) (Keys.set key q)
  expire_seen (now : τ) (key : Key) (seconds : τ) :
    Async.Seen keys (expire now key seconds) (Keys.expire now key seconds)
  incr_seen (now : τ) (key : Key) (by_ : ℤ) : Async.Seen keys (incr now key by_) (Keys.incr now key by_)
  decr_seen (now : τ) (key : Key) (by_ : ℤ) : Async.Seen keys (decr now key by_) (Keys.decr now key by_)
  zrevrangebyscore_seen (now : τ) (key : Key) (max : Option ℤ) (min : ℤ) :
    Async.Seen keys (zrevrangebyscore now key max min) (Keys.zrevrangebyscore now key max min)
  zadd_seen (now : τ) (key : Key) (member score : ℤ) :
    Async.Seen keys (zadd now key member score) (Keys.zadd now key member score)
  zcard_seen (now : τ) (key : Key) : Async.Seen keys (zcard now key) (Keys.zcard now key)

export RedisServer (keys get set expire incr decr zrevrangebyscore zadd zcard)

/-- A server that is its keys. -/
instance {τ : Type} [LinearOrder τ] [Add τ] : RedisServer (Keys τ) τ where
  empty := .empty
  keys := id
  get := Keys.get
  set := Keys.set
  expire := Keys.expire
  incr := Keys.incr
  decr := Keys.decr
  zrevrangebyscore := Keys.zrevrangebyscore
  zadd := Keys.zadd
  zcard := Keys.zcard
  keys_empty := rfl
  get_seen _ _ := .refl _
  set_seen _ _ := .refl _
  expire_seen _ _ _ := .refl _
  incr_seen _ _ _ := .refl _
  decr_seen _ _ _ := .refl _
  zrevrangebyscore_seen _ _ _ _ := .refl _
  zadd_seen _ _ _ _ := .refl _
  zcard_seen _ _ := .refl _

/-! ## The limits -/

section Limits

variable {S : Type} [RedisServer S ℤ]

def fixedWindowRateLimit (key : Key) (limit periodSeconds : ℤ) (now : ℤ) : Async S Bool := do
  let currentCount ← incr now key 1
  (if currentCount = 1 then expire now key periodSeconds else pure ())
  return currentCount ≤ limit

/-- The pipeline reads a range where its name would remove one. -/
def slidingWindowLogRateLimit (key : Key) (limit : Nat) (windowSeconds : ℤ) (now : ℕ) : Async S Bool := do
  let windowStart := (now : ℤ) - windowSeconds
  let _ ← zrevrangebyscore (now : ℤ) key none windowStart
  zadd (now : ℤ) key now now
  let count ← zcard (now : ℤ) key
  expire (now : ℤ) key windowSeconds
  return count ≤ limit

def lastRefillKey (key : Key) : Key := key ++ ":last_refill".toList

/-- `duration_since(UNIX_EPOCH)`, and `as_secs`. -/
def asSecs {σ : Type} (time : ℚ) : Async σ ℕ := fun s =>
  if time < 0 then (.panic "Time went backwards", s) else (.ok ⌊time⌋₊, s)

def tokenBucketRateLimit {S : Type} [RedisServer S ℚ] (key : Key) (capacity : ℤ) (refillRate : ℚ) (periodSeconds : ℕ)
    (time : ℚ) : Async S Bool := do
  let now ← asSecs time
  let lastRefill ← get time (lastRefillKey key)
  let lastRefill := lastRefill.getD 0
  let tokens ← get time key
  let tokens := tokens.getD capacity
  let elapsed := now - lastRefill
  let refill := min (capacity : ℚ) (tokens + elapsed * refillRate)
  if 1 ≤ refill then
    set key (refill - 1)
    set (lastRefillKey key) now
    expire time key periodSeconds
    expire time (lastRefillKey key) periodSeconds
    return true
  else return false

def lastCheckKey (key : Key) : Key := key ++ ":last_check".toList

def leakyBucketRateLimit (key : Key) (capacity : ℤ) (leakRate : ℚ) (now : ℕ) : Async S Bool := do
  let lastCheck ← get (now : ℤ) (lastCheckKey key)
  let lastCheck := lastCheck.getD now
  let level ← get (now : ℤ) key
  let level := level.getD 0
  let elapsed := now - lastCheck
  let leaked := max 0 (level - elapsed * leakRate)
  if leaked < capacity then
    set key (leaked + 1)
    set (lastCheckKey key) now
    return true
  else
    set key capacity
    set (lastCheckKey key) now
    return false

def semaphoreRateLimit (key : Key) (maxConcurrency : ℤ) (now : ℤ) : Async S Bool := do
  let current ← get now key
  let current := current.getD 0
  if current < maxConcurrency then
    let _ ← incr now key 1
    return true
  else return false

def releaseSemaphore (key : Key) (now : ℤ) : Async S Unit := do
  let _ ← decr now key 1
  return ()

end Limits

/-! ## Calls one after the other -/

/-- The keys, and the calls so far: when each was, and what it answered. -/
structure Calls (σ τ : Type) where
  store : σ
  answers : List (τ × Bool)

namespace Calls

variable {σ τ : Type}

def none {τ' : Type} [LinearOrder τ'] [Add τ'] [RedisServer σ τ'] : Calls σ τ := ⟨RedisServer.empty, []⟩

theorem none_entries {τ' : Type} [LinearOrder τ'] [Add τ'] [RedisServer σ τ'] (key : Key) :
    (keys (none : Calls σ τ).store).entries key = Option.none := by
  show (keys (RedisServer.empty : σ)).entries key = _
  rw [RedisServer.keys_empty]
  rfl

/-- A call of one of the limits, which is a function of the clock. -/
def step (call : τ → Async σ Bool) (now : τ) (c : Calls σ τ) : Option (Calls σ τ) :=
  match call now c.store with
  | (.ok allowed, store) => some ⟨store, c.answers ++ [(now, allowed)]⟩
  | _ => .none

theorem step_of_call {call : τ → Async σ Bool} {now : τ} {c : Calls σ τ} {allowed : Bool} {store : σ}
    (h : call now c.store = (.ok allowed, store)) : step call now c = some ⟨store, c.answers ++ [(now, allowed)]⟩ := by
  unfold step
  rw [h]

theorem step_answer {call : τ → Async σ Bool} {now : τ} {c c' : Calls σ τ} {allowed : Bool} {store : σ}
    (hcall : call now c.store = (.ok allowed, store)) (h : step call now c = some c') :
    c'.store = store ∧ c'.answers = c.answers ++ [(now, allowed)] := by
  rw [step_of_call hcall] at h
  cases h
  exact ⟨rfl, rfl⟩

section Order

variable [LinearOrder τ]

/-- The clock does not go back. -/
def InOrder (now : τ) (c : Calls σ τ) : Prop := ∀ a ∈ c.answers, a.1 ≤ now

instance (now : τ) (c : Calls σ τ) : Decidable (InOrder now c) :=
  inferInstanceAs (Decidable (∀ a ∈ c.answers, a.1 ≤ now))

theorem inOrder_concat {c : Calls σ τ} {now later : τ} (h : c.InOrder now) (hle : now ≤ later) (allowed : Bool)
    (store : σ) : InOrder later ⟨store, c.answers ++ [(now, allowed)]⟩ := by
  intro a ha
  rcases List.mem_append.mp ha with ha | ha
  · exact (h a ha).trans hle
  · cases List.mem_singleton.mp ha
    exact hle

/-- A call that was answered is not later than the next. -/
theorem le_of_inOrder {c c' : Calls σ τ} {now later : τ} {allowed : Bool}
    (hanswers : c'.answers = c.answers ++ [(now, allowed)]) (h : c'.InOrder later) : now ≤ later := by
  apply h (now, allowed)
  rw [hanswers]
  exact List.mem_append_right _ (List.mem_singleton_self _)

end Order

/-- The answers at their times. -/
def timed (c : Calls σ ℕ) : List (ℚ × Bool) := c.answers.map fun a => ((a.1 : ℚ), a.2)

theorem timed_append {c c' : Calls σ ℕ} {answers : List (ℕ × Bool)} (h : c'.answers = c.answers ++ answers) :
    c'.timed = c.timed ++ answers.map fun a => ((a.1 : ℚ), a.2) := by
  unfold timed
  rw [h, List.map_append]

end Calls

/-! ## What the commands do -/

/-- A key with a suffix is another key. -/
theorem suffixed_ne (key : Key) {suffix : Key} (h : suffix ≠ []) : key ++ suffix ≠ key := by
  intro heq
  exact h (List.append_right_eq_self.mp heq)

namespace Keys

variable {τ : Type} {s : Keys τ} {now : τ} {key : Key}

theorem number_inj {q q' : ℚ} {deadline deadline' : Option τ} (h : s.entries key = some ⟨.number q, deadline⟩)
    (h' : s.entries key = some ⟨.number q', deadline'⟩) : q = q' ∧ deadline = deadline' := by
  have heq := h.symm.trans h'
  simp only [Option.some.injEq, Timed.mk.injEq, Value.number.injEq] at heq
  exact heq

variable [LinearOrder τ]

theorem get_none (h : s.find now key = none) : get now key s = (.ok none, s) := by
  unfold get TimedStore.get
  rw [h]
  rfl

theorem get_number {q : ℚ} {deadline : Option τ} (h : s.find now key = some ⟨.number q, deadline⟩) :
    get now key s = (.ok (some q), s) := by
  unfold get TimedStore.get
  rw [h]
  rfl

theorem members_none (h : s.find now key = none) : members now key s = (.ok [], s) := by
  unfold members TimedStore.get
  rw [h]
  rfl

theorem members_some {l : List (ℤ × ℤ)} {deadline : Option τ} (h : s.find now key = some ⟨.sortedSet l, deadline⟩) :
    members now key s = (.ok l, s) := by
  unfold members TimedStore.get
  rw [h]
  rfl

theorem incr_none (h : s.find now key = none) :
    incr now key 1 s = (.ok 1, TimedStore.set s key (.number (0 + 1 : ℕ))) := by
  unfold incr TimedStore.get
  rw [h]
  norm_num

theorem incr_number {n : ℕ} {deadline : Option τ} (h : s.find now key = some ⟨.number n, deadline⟩) :
    incr now key 1 s =
      if maxInteger < n + 1 then (.err overflow, s) else (.ok (n + 1), s.put key ⟨.number (n + 1 : ℕ), deadline⟩) := by
  unfold incr TimedStore.get
  rw [h]
  have hnum : (n : ℚ).num = n := rfl
  have hden : (n : ℚ).den = 1 := rfl
  simp only [Option.map_some, hnum, hden, ne_eq, not_true_eq_false, if_false]
  rw [TimedStore.alter_of_find h]
  push_cast
  rfl

theorem decr_number {n : ℕ} {deadline : Option τ} (h : s.find now key = some ⟨.number (n + 1 : ℕ), deadline⟩) :
    decr now key 1 s = (.ok n, s.put key ⟨.number n, deadline⟩) := by
  unfold decr TimedStore.get
  rw [h]
  have hnum : ((n + 1 : ℕ) : ℚ).num = (n + 1 : ℕ) := rfl
  have hden : ((n + 1 : ℕ) : ℚ).den = 1 := rfl
  simp only [Option.map_some, hnum, hden, ne_eq, not_true_eq_false, if_false]
  rw [if_neg (by unfold minInteger; omega), TimedStore.alter_of_find h]
  push_cast
  simp

end Keys

/-! ## The commands, seen through the keys -/

section

variable {S τ : Type} [LinearOrder τ] [Add τ] [RedisServer S τ] {x : S} {now : τ} {key : Key}

theorem empty_entries (key : Key) : (keys (RedisServer.empty : S)).entries key = none := by
  rw [RedisServer.keys_empty]
  rfl

theorem get_gone (h : (keys x).find now key = none) : ∃ x', get now key x = (.ok none, x') ∧ keys x' = keys x :=
  (RedisServer.get_seen now key).lift (Keys.get_none h)

theorem get_there {q : ℚ} {deadline : Option τ} (h : (keys x).find now key = some ⟨.number q, deadline⟩) :
    ∃ x', get now key x = (.ok (some q), x') ∧ keys x' = keys x :=
  (RedisServer.get_seen now key).lift (Keys.get_number h)

/-- The first to count makes the counter. -/
theorem incr_makes (h : (keys x).find now key = none) :
    ∃ x', incr now key 1 x = (.ok 1, x') ∧ (keys x').entries key = some ⟨.number (0 + 1 : ℕ), none⟩ := by
  obtain ⟨x', hincr, hkeys⟩ := (RedisServer.incr_seen now key 1).lift (Keys.incr_none h)
  refine ⟨x', hincr, ?_⟩
  rw [hkeys]
  exact TimedStore.entries_put ..

/-- Later ones count one more and keep its time to live, while there is room. -/
theorem incr_counts {n : ℕ} {deadline : Option τ} (h : (keys x).find now key = some ⟨.number n, deadline⟩) :
    (∃ x', incr now key 1 x = (.ok (n + 1), x') ∧ (keys x').entries key = some ⟨.number (n + 1 : ℕ), deadline⟩) ∨
      ∃ x', incr now key 1 x = (.err overflow, x') ∧ keys x' = keys x ∧ maxInteger < n + 1 := by
  have hkeys := Keys.incr_number h
  split at hkeys
  · obtain ⟨x', hincr, hsame⟩ := (RedisServer.incr_seen now key 1).lift hkeys
    exact .inr ⟨x', hincr, hsame, ‹_›⟩
  · obtain ⟨x', hincr, hput⟩ := (RedisServer.incr_seen now key 1).lift hkeys
    refine .inl ⟨x', hincr, ?_⟩
    rw [hput]
    exact TimedStore.entries_put ..

theorem decr_counts {n : ℕ} {deadline : Option τ} (h : (keys x).find now key = some ⟨.number (n + 1 : ℕ), deadline⟩) :
    ∃ x', decr now key 1 x = (.ok n, x') ∧ (keys x').entries key = some ⟨.number n, deadline⟩ := by
  obtain ⟨x', hdecr, hput⟩ := (RedisServer.decr_seen now key 1).lift (Keys.decr_number h)
  refine ⟨x', hdecr, ?_⟩
  rw [hput]
  exact TimedStore.entries_put ..

theorem expire_gone (h : (keys x).find now key = none) (seconds : τ) :
    ∃ x', expire now key seconds x = (.ok (), x') ∧ keys x' = keys x := by
  have hkeys : Keys.expire now key seconds (keys x) = (.ok (), keys x) := by
    unfold Keys.expire TimedStore.expireAt
    rw [Async.modify_apply, h]
  exact (RedisServer.expire_seen now key seconds).lift hkeys

theorem expire_there {v : Value} {deadline : Option τ} (h : (keys x).find now key = some ⟨v, deadline⟩) (seconds : τ) :
    ∃ x', expire now key seconds x = (.ok (), x') ∧ (keys x').entries key = some ⟨v, some (now + seconds)⟩ := by
  have hkeys : Keys.expire now key seconds (keys x) = (.ok (), (keys x).put key ⟨v, some (now + seconds)⟩) := by
    unfold Keys.expire
    rw [Async.modify_apply, TimedStore.expireAt_of_find h]
  obtain ⟨x', hexpire, hput⟩ := (RedisServer.expire_seen now key seconds).lift hkeys
  refine ⟨x', hexpire, ?_⟩
  rw [hput]
  exact TimedStore.entries_put ..

end

/-! ## The limits, seen through the keys -/

section

variable {S : Type}

theorem slidingWindowLogRateLimit_seen [RedisServer S ℤ] (key : Key) (limit : Nat) (windowSeconds : ℤ) (now : ℕ) :
    Async.Seen (keys : S → Keys ℤ) (slidingWindowLogRateLimit key limit windowSeconds now)
      (slidingWindowLogRateLimit key limit windowSeconds now) :=
  .bind (RedisServer.zrevrangebyscore_seen _ _ _ _) fun _ => .bind (RedisServer.zadd_seen _ _ _ _) fun _ =>
    .bind (RedisServer.zcard_seen _ _) fun _ => .bind (RedisServer.expire_seen _ _ _) fun _ => .pure _

theorem asSecs_seen {σ σ' : Type} (f : σ → σ') (time : ℚ) : Async.Seen f (asSecs time) (asSecs time) := by
  intro s
  unfold asSecs
  split
  · rfl
  · rfl

theorem tokenBucketRateLimit_seen [RedisServer S ℚ] (key : Key) (capacity : ℤ) (refillRate : ℚ) (periodSeconds : ℕ)
    (time : ℚ) :
    Async.Seen (keys : S → Keys ℚ) (tokenBucketRateLimit key capacity refillRate periodSeconds time)
      (tokenBucketRateLimit key capacity refillRate periodSeconds time) :=
  .bind (asSecs_seen _ _) fun _ => .bind (RedisServer.get_seen _ _) fun _ => .bind (RedisServer.get_seen _ _) fun _ =>
    .ite (.bind (RedisServer.set_seen _ _) fun _ => .bind (RedisServer.set_seen _ _) fun _ =>
      .bind (RedisServer.expire_seen _ _ _) fun _ => .bind (RedisServer.expire_seen _ _ _) fun _ => .pure _) (.pure _)

theorem leakyBucketRateLimit_seen [RedisServer S ℤ] (key : Key) (capacity : ℤ) (leakRate : ℚ) (now : ℕ) :
    Async.Seen (keys : S → Keys ℤ) (leakyBucketRateLimit key capacity leakRate now)
      (leakyBucketRateLimit key capacity leakRate now) :=
  .bind (RedisServer.get_seen _ _) fun _ => .bind (RedisServer.get_seen _ _) fun _ =>
    .ite (.bind (RedisServer.set_seen _ _) fun _ => .bind (RedisServer.set_seen _ _) fun _ => .pure _)
      (.bind (RedisServer.set_seen _ _) fun _ => .bind (RedisServer.set_seen _ _) fun _ => .pure _)

end

end Glaive.Redis
