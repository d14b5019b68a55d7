/-
  Glaive.Pool.Locking — the functions of `ConnectionNode` under many threads: each push
  or pop of the hot queue, and each taking or releasing of the mutex of the map, is one
  step (`core/src/pool/pool.rs`; see `Glaive.Pool.Node` for the functions run whole).

  `Place` says where a thread is in the code. `remove_connection` holds the mutex from
  `search` to `release`; its loop calls `add_new_connection`, which takes the mutex
  (`lockToPutBack`) when the queue is full. The mutex is not re-entrant.

  Proved: no thread waits for the mutex it holds in exactly the runs where the queue
  has room whenever the loop pushes back (`no_self_wait_iff`). Calls that no other
  thread interrupts do what the whole functions do (`add_alone`, `get_alone`,
  `remove_alone`).
-/

import Glaive.Lib.Runs
import Glaive.Pool.Node

namespace Glaive.Pool

open Glaive.Lib
open Glaive.Lib.BoundedQueue (push pop len items capacity)

inductive Place (T : Type) where
  | idle
  -- `add_new_connection`
  | push (e : ConnectionId × T)
  | lockToInsert (e : ConnectionId × T)
  | insert (e : ConnectionId × T)
  -- `get_available_connection`
  | popHot
  | lockToTake
  | take
  -- `remove_connection`, with `k` rounds of its loop to go
  | lockToRemove (id : ConnectionId)
  | search (id : ConnectionId)
  | count (id : ConnectionId)
  | pop (id : ConnectionId) (k : Nat)
  | pushBack (id : ConnectionId) (k : Nat) (e : ConnectionId × T)
  | lockToPutBack (id : ConnectionId) (k : Nat) (e : ConnectionId × T)
  | putBack (id : ConnectionId) (k : Nat) (e : ConnectionId × T)
  -- the guard is dropped
  | release
  deriving DecidableEq, Repr

/-- The thread is to take the mutex next. -/
def Place.waits {T : Type} : Place T → Bool
  | .lockToInsert _ | .lockToTake | .lockToRemove _ | .lockToPutBack _ _ _ => true
  | _ => false

/-- The thread has taken the mutex and not released it. -/
def Place.holds {T : Type} : Place T → Bool
  | .insert _ | .take | .search _ | .count _ | .pop _ _ | .pushBack _ _ _ | .lockToPutBack _ _ _ | .putBack _ _ _
  | .release => true
  | _ => false

inductive NodeCall (T : Type) where
  | add (e : ConnectionId × T)
  | get
  | remove (id : ConnectionId)

def NodeCall.entry {T : Type} : NodeCall T → Place T
  | .add e => .push e
  | .get => .popHot
  | .remove id => .lockToRemove id

structure Threads (Q : Type → Type) (T : Type) where
  node : ConnectionNode Q T
  holder : Option Nat
  places : Nat → Place T

/-- A thread starts a call, or takes the next step of the one it is in. -/
inductive Move (T : Type) where
  | call (t : Nat) (c : NodeCall T)
  | run (t : Nat) (first : Nat)

namespace Threads

variable {Q : Type → Type} {T : Type}

def goto (s : Threads Q T) (t : Nat) (p : Place T) : Threads Q T := { s with places := Function.update s.places t p }

/-- The thread `t` at `p`, and the node `n`. -/
def at_ (s : Threads Q T) (t : Nat) (n : ConnectionNode Q T) (p : Place T) : Threads Q T := { s with node := n }.goto t p

@[simp] theorem at_places (s : Threads Q T) (t : Nat) (n : ConnectionNode Q T) (p : Place T) :
    (s.at_ t n p).places t = p := Function.update_self ..

@[simp] theorem at_node (s : Threads Q T) (t : Nat) (n : ConnectionNode Q T) (p : Place T) :
    (s.at_ t n p).node = n := rfl

@[simp] theorem at_holder (s : Threads Q T) (t : Nat) (n : ConnectionNode Q T) (p : Place T) :
    (s.at_ t n p).holder = s.holder := rfl

@[simp] theorem at_goto (s : Threads Q T) (t : Nat) (n : ConnectionNode Q T) (p p' : Place T) :
    (s.at_ t n p).goto t p' = s.at_ t n p' := by simp [at_, goto]

@[simp] theorem at_with (s : Threads Q T) (t : Nat) (n n' : ConnectionNode Q T) (p p' : Place T) :
    ({ s.at_ t n p with node := n' } : Threads Q T).goto t p' = s.at_ t n' p' := by simp [at_, goto]

def heldBy (s : Threads Q T) (t : Nat) : Threads Q T := { s with holder := some t }

/-- Take the mutex and go on at `p`; not while a thread has it. -/
def lock (s : Threads Q T) (t : Nat) (p : Place T) : Option (Threads Q T) :=
  match s.holder with
  | none => some ((s.heldBy t).goto t p)
  | some _ => none

/-- With the mutex free, a thread takes it at once. -/
theorem lock_free {x : Threads Q T} (hx : x.holder = none) (t : Nat) (n : ConnectionNode Q T) (p p' : Place T) :
    (x.at_ t n p).lock t p' = some ((x.heldBy t).at_ t n p') := by
  simp [lock, hx, at_, goto, heldBy]

/-! ## Who holds the mutex -/

structure Inv (s : Threads Q T) : Prop where
  mutex : ∀ t, (s.places t).holds = true ↔ s.holder = some t
  noPutBack : ∀ t id k e, s.places t ≠ .putBack id k e

/-- Some thread waits for the mutex it holds. -/
def SelfWait (s : Threads Q T) : Prop := ∃ t, s.holder = some t ∧ (s.places t).waits = true

variable {s s' : Threads Q T}

theorem Inv.selfWait_iff (h : s.Inv) : s.SelfWait ↔ ∃ t id k e, s.places t = .lockToPutBack id k e := by
  constructor
  · intro h
    rcases h with ⟨t, hh, hw⟩
    have hin := (h.mutex t).mpr hh
    cases hp : s.places t with
    | lockToPutBack id k e => exact ⟨t, id, k, e, hp⟩
    | lockToInsert e => rw [hp] at hin; cases hin
    | lockToTake => rw [hp] at hin; cases hin
    | lockToRemove id => rw [hp] at hin; cases hin
    | _ => rw [hp] at hw; cases hw
  · intro h
    rcases h with ⟨t, id, k, e, hp⟩
    exact ⟨t, (h.mutex t).mp (by rw [hp]; rfl), by rw [hp]; rfl⟩

theorem entry_holds (c : NodeCall T) : c.entry.holds = false := by cases c <;> rfl

theorem Inv.call (h : s.Inv) {t : Nat} (ht : s.places t = .idle) (c : NodeCall T) : (s.goto t c.entry).Inv := by
  refine ⟨fun u => ?_, fun u id k e => ?_⟩
  · show (Function.update s.places t c.entry u).holds = true ↔ s.holder = some u
    by_cases hu : u = t
    · subst hu
      rw [Function.update_self, entry_holds, ← h.mutex u, ht]; rfl
    · rw [Function.update_of_ne hu]; exact h.mutex u
  · show Function.update s.places t c.entry u ≠ _
    by_cases hu : u = t
    · subst hu
      rw [Function.update_self]
      cases c <;> simp [NodeCall.entry]
    · rw [Function.update_of_ne hu]; exact h.noPutBack u id k e

/-! ## The steps of a thread -/

variable [BoundedQueue Q]

def init : Threads Q T := ⟨ConnectionNode.new, none, fun _ => .idle⟩

/-- `none`: a thread in no call has no step, one that is to take the mutex waits. -/
def next (t : Nat) (first : Nat) (s : Threads Q T) : Option (Threads Q T) :=
  match s.places t with
  | .idle => none
  | .push e =>
    match push s.node.hotQueue e with
    | .ok q => some ({ s with node := { s.node with hotQueue := q } }.goto t .idle)
    | .error e => some (s.goto t (.lockToInsert e))
  | .lockToInsert e => s.lock t (.insert e)
  | .insert e =>
    some ({ s with node := { s.node with connections := Assoc.insert s.node.connections e.1 e.2 } }.goto t .release)
  | .popHot =>
    match pop s.node.hotQueue with
    | some (_, q) => some ({ s with node := { s.node with hotQueue := q } }.goto t .idle)
    | none => some (s.goto t .lockToTake)
  | .lockToTake => s.lock t .take
  | .take =>
    match Assoc.iterNext first s.node.connections with
    | none => some (s.goto t .release)
    | some (id, _) =>
      some ({ s with node := { s.node with connections := (Assoc.remove s.node.connections id).2 } }.goto t .release)
  | .lockToRemove id => s.lock t (.search id)
  | .search id =>
    match Assoc.remove s.node.connections id with
    | (some _, rest) => some ({ s with node := { s.node with connections := rest } }.goto t .release)
    | (none, rest) => some ({ s with node := { s.node with connections := rest } }.goto t (.count id))
  | .count id => some (s.goto t (.pop id (len s.node.hotQueue)))
  | .pop _ 0 => some (s.goto t .release)
  | .pop id (k + 1) =>
    match pop s.node.hotQueue with
    | none => some (s.goto t .release)
    | some (hot, q) =>
      some ({ s with node := { s.node with hotQueue := q } }.goto t
        (if id = hot.1 then .release else .pushBack id k hot))
  | .pushBack id k e =>
    match push s.node.hotQueue e with
    | .ok q => some ({ s with node := { s.node with hotQueue := q } }.goto t (.pop id k))
    | .error e => some (s.goto t (.lockToPutBack id k e))
  | .lockToPutBack id k e => s.lock t (.putBack id k e)
  | .putBack id k e =>
    some ({ s with node := { s.node with connections := Assoc.insert s.node.connections e.1 e.2 }
                   holder := none }.goto t (.pop id k))
  | .release => some ({ s with holder := none }.goto t .idle)

def step : Move T → Threads Q T → Option (Threads Q T)
  | .call t c, s =>
    match s.places t with
    | .idle => some (s.goto t c.entry)
    | _ => none
  | .run t first, s => s.next t first

/-! ## What a step can do -/

/-- The step of `t` from `s` to `s'` takes it to `p`. -/
inductive Stepped (t : Nat) (s s' : Threads Q T) (p : Place T) : Prop
  /-- The mutex is left alone. -/
  | plain : s'.holder = s.holder → p.holds = (s.places t).holds → (∀ id k e, p ≠ .putBack id k e) →
      (∀ id k e, p ≠ .lockToPutBack id k e) →
      (∀ id k e, s.places t = .pushBack id k e → (items s.node.hotQueue).length < capacity s.node.hotQueue) →
      Stepped t s s' p
  | full {id : ConnectionId} {k : Nat} {e : ConnectionId × T} : s'.holder = s.holder → s.places t = .pushBack id k e →
      p = .lockToPutBack id k e → (items s.node.hotQueue).length = capacity s.node.hotQueue → Stepped t s s' p
  | lock : s.holder = none → s'.holder = some t → p.holds = true → (∀ id k e, p ≠ .lockToPutBack id k e) →
      (∀ id k e, p = .putBack id k e → (s.places t).holds = true) → (∀ id k e, s.places t ≠ .pushBack id k e) →
      Stepped t s s' p
  | release : s.places t = .release → s'.holder = none → p = .idle → Stepped t s s' p
  | putBack {id : ConnectionId} {k : Nat} {e : ConnectionId × T} : s.places t = .putBack id k e → Stepped t s s' p

theorem stepped_lock {t : Nat} {p : Place T} (h : s.lock t p = some s') (hp : p.holds = true)
    (hno : ∀ id k e, p ≠ .lockToPutBack id k e) (hput : ∀ id k e, p = .putBack id k e → (s.places t).holds = true)
    (hpush : ∀ id k e, s.places t ≠ .pushBack id k e) :
    ∃ p, s'.places = Function.update s.places t p ∧ Stepped t s s' p := by
  unfold lock at h
  cases hh : s.holder with
  | none =>
    rw [hh] at h
    cases h
    exact ⟨p, rfl, .lock hh rfl hp hno hput hpush⟩
  | some u => rw [hh] at h; cases h

/-- A step that leaves the mutex alone, and is not at the loop's put back. -/
theorem stepped_plain {t : Nat} {q p : Place T} {n : ConnectionNode Q T} (hp : s.places t = q)
    (hholds : p.holds = q.holds) (hput : ∀ id k e, p ≠ .putBack id k e) (hlock : ∀ id k e, p ≠ .lockToPutBack id k e)
    (hpush : ∀ id k e, q ≠ .pushBack id k e) :
    ∃ p', (({ s with node := n } : Threads Q T).goto t p).places = Function.update s.places t p' ∧
      Stepped t s (({ s with node := n } : Threads Q T).goto t p) p' := by
  refine ⟨p, rfl, .plain rfl (by rw [hp]; exact hholds) hput hlock fun id k e he => ?_⟩
  exact absurd (hp.symm.trans he) (hpush id k e)

theorem next_stepped {t first : Nat} (h : s.next t first = some s') :
    ∃ p, s'.places = Function.update s.places t p ∧ Stepped t s s' p := by
  unfold next at h
  cases hp : s.places t with
  | idle => rw [hp] at h; cases h
  | push e =>
    rw [hp] at h
    simp only at h
    split at h
    · cases h; exact stepped_plain hp rfl (by simp) (by simp) (by simp)
    · cases h; exact stepped_plain hp rfl (by simp) (by simp) (by simp)
  | lockToInsert e => rw [hp] at h; exact stepped_lock h rfl (by simp) (by simp) (by simp [hp])
  | insert e => rw [hp] at h; cases h; exact stepped_plain hp rfl (by simp) (by simp) (by simp)
  | popHot =>
    rw [hp] at h
    simp only at h
    split at h
    · cases h; exact stepped_plain hp rfl (by simp) (by simp) (by simp)
    · cases h; exact stepped_plain hp rfl (by simp) (by simp) (by simp)
  | lockToTake => rw [hp] at h; exact stepped_lock h rfl (by simp) (by simp) (by simp [hp])
  | take =>
    rw [hp] at h
    simp only at h
    split at h
    · cases h; exact stepped_plain hp rfl (by simp) (by simp) (by simp)
    · cases h; exact stepped_plain hp rfl (by simp) (by simp) (by simp)
  | lockToRemove id => rw [hp] at h; exact stepped_lock h rfl (by simp) (by simp) (by simp [hp])
  | search id =>
    rw [hp] at h
    simp only at h
    split at h
    · cases h; exact stepped_plain hp rfl (by simp) (by simp) (by simp)
    · cases h; exact stepped_plain hp rfl (by simp) (by simp) (by simp)
  | count id => rw [hp] at h; cases h; exact stepped_plain hp rfl (by simp) (by simp) (by simp)
  | pop id k =>
    cases k with
    | zero => rw [hp] at h; cases h; exact stepped_plain hp rfl (by simp) (by simp) (by simp)
    | succ k =>
      rw [hp] at h
      simp only at h
      split at h
      · cases h; exact stepped_plain hp rfl (by simp) (by simp) (by simp)
      · cases h
        refine ⟨_, rfl, ?_⟩
        split
        · exact .plain rfl (by rw [hp]; rfl) (by simp) (by simp) (by simp [hp])
        · exact .plain rfl (by rw [hp]; rfl) (by simp) (by simp) (by simp [hp])
  | pushBack id k e =>
    rw [hp] at h
    simp only at h
    have hle := BoundedQueue.length_le s.node.hotQueue
    by_cases hroom : (items s.node.hotQueue).length < capacity s.node.hotQueue
    · obtain ⟨q, hq, -, -⟩ := BoundedQueue.push_room s.node.hotQueue e hroom
      rw [hq] at h
      cases h
      exact ⟨_, rfl, .plain rfl (by rw [hp]; rfl) (by simp) (by simp) (fun _ _ _ _ => hroom)⟩
    · rw [BoundedQueue.push_full s.node.hotQueue e (by omega)] at h
      cases h
      exact ⟨_, rfl, .full rfl hp rfl (by omega)⟩
  | lockToPutBack id k e => rw [hp] at h; exact stepped_lock h rfl (by simp) (by simp [hp, Place.holds]) (by simp [hp])
  | putBack id k e => rw [hp] at h; cases h; exact ⟨_, rfl, .putBack hp⟩
  | release => rw [hp] at h; cases h; exact ⟨_, rfl, .release hp rfl rfl⟩

/-! ## Runs -/

/-- The loop pushes back only where the queue has room. -/
def RoomToPutBack : Move T → Threads Q T → Prop
  | .run t _, s => ∀ id k e, s.places t = .pushBack id k e → (items s.node.hotQueue).length < capacity s.node.hotQueue
  | .call _ _, _ => True

theorem inv_init : (init : Threads Q T).Inv := ⟨fun t => by simp [init, Place.holds], fun t id k e => by simp [init]⟩

theorem Inv.next (h : s.Inv) {t first : Nat} (hs : s.next t first = some s') : s'.Inv := by
  obtain ⟨p, hplaces, hstep⟩ := next_stepped hs
  have key : (∀ u, (Function.update s.places t p u).holds = true ↔ s'.holder = some u) ∧ ∀ id k e, p ≠ .putBack id k e := by
    cases hstep with
    | plain hh hp hno _ _ =>
      refine ⟨fun u => ?_, hno⟩
      rw [hh]
      by_cases hu : u = t
      · subst hu; rw [Function.update_self, hp]; exact h.mutex u
      · rw [Function.update_of_ne hu]; exact h.mutex u
    | full hh hp hfull _ =>
      subst hfull
      refine ⟨fun u => ?_, by simp⟩
      rw [hh]
      by_cases hu : u = t
      · subst hu
        rw [Function.update_self, ← h.mutex u, hp]; rfl
      · rw [Function.update_of_ne hu]; exact h.mutex u
    | lock hnone hh hp _ hput _ =>
      have hout : ∀ u, (s.places u).holds = false := by
        intro u
        rw [← Bool.not_eq_true, h.mutex u, hnone]; simp
      refine ⟨fun u => ?_, fun id k e he => ?_⟩
      · rw [hh]
        by_cases hu : u = t
        · subst hu; simp [hp]
        · rw [Function.update_of_ne hu, hout u]
          simp [Ne.symm hu]
      · have := hput id k e he
        rw [hout t] at this
        cases this
    | release hp hh hidle =>
      subst hidle
      have hmine := (h.mutex t).mp (by rw [hp]; rfl)
      refine ⟨fun u => ?_, by simp⟩
      rw [hh]
      by_cases hu : u = t
      · subst hu; simp [Place.holds]
      · rw [Function.update_of_ne hu, h.mutex u, hmine]
        simp [Ne.symm hu]
    | putBack hp => exact absurd hp (h.noPutBack t _ _ _)
  refine ⟨fun u => by rw [hplaces]; exact key.1 u, fun u id k e => ?_⟩
  rw [hplaces]
  by_cases hu : u = t
  · subst hu; rw [Function.update_self]; exact key.2 id k e
  · rw [Function.update_of_ne hu]; exact h.noPutBack u id k e

theorem Inv.step (h : s.Inv) {e : Move T} (hs : Threads.step e s = some s') : s'.Inv := by
  cases e with
  | call t c =>
    unfold Threads.step at hs
    simp only at hs
    split at hs
    · cases hs; exact h.call ‹_› c
    · cases hs
  | run t first => exact h.next hs

/-- A step comes to a thread that waits for its own mutex just where the loop pushes
    back into a full queue. -/
theorem Inv.selfWait_step (h : s.Inv) (hno : ¬ s.SelfWait) {e : Move T} (hs : Threads.step e s = some s') :
    ¬ s'.SelfWait ↔ RoomToPutBack e s := by
  rw [(h.step hs).selfWait_iff]
  rw [h.selfWait_iff] at hno
  have other : ∀ {t : Nat} {p : Place T}, (∀ id k x, p ≠ .lockToPutBack id k x) →
      ¬ ∃ u id k x, Function.update s.places t p u = .lockToPutBack id k x := by
    intro t p hp h
    rcases h with ⟨u, id, k, x, hu⟩
    by_cases he : u = t
    · subst he; rw [Function.update_self] at hu; exact hp id k x hu
    · rw [Function.update_of_ne he] at hu; exact hno ⟨u, id, k, x, hu⟩
  cases e with
  | call t c =>
    unfold Threads.step at hs
    simp only at hs
    split at hs
    · cases hs
      exact ⟨fun _ => trivial, fun _ => other (by cases c <;> simp [NodeCall.entry])⟩
    · cases hs
  | run t first =>
    obtain ⟨p, hplaces, hstep⟩ := next_stepped hs
    rw [hplaces]
    cases hstep with
    | plain _ _ _ hno' hroom => exact ⟨fun _ => hroom, fun _ => other hno'⟩
    | full hh hp hfull hlen =>
      subst hfull
      constructor
      · intro hbad
        exact absurd ⟨t, _, _, _, Function.update_self ..⟩ hbad
      · intro hroom
        have := hroom _ _ _ hp
        omega
    | lock _ _ _ hno' _ hpush => exact ⟨fun _ id k x hp => absurd hp (hpush id k x), fun _ => other hno'⟩
    | release hp _ hidle =>
      subst hidle
      refine ⟨fun _ id k x hx => ?_, fun _ => other (by simp)⟩
      rw [hp] at hx
      cases hx
    | putBack hp => exact absurd hp (h.noPutBack t _ _ _)

/-- However any number of threads interleave, none comes to wait for the mutex it
    holds, in exactly the runs where the loop of `remove_connection` always finds room
    for what it pushes back. -/
theorem no_self_wait_iff (evs : List (Move T)) (s : Threads Q T) :
    Run step (fun _ s => ¬ SelfWait s) init evs s ∧ ¬ SelfWait s ↔ Run step RoomToPutBack init evs s :=
  Run.avoids_iff (fun _ _ _ hi hs => hi.step hs) (fun _ _ _ hi hno hs => hi.selfWait_step hno hs) inv_init
    (by rw [inv_init.selfWait_iff]; simp [init])

/-- One thread fills the queue by sixteen adds. -/
def fill : List (Move Unit) := (List.range 16).flatMap fun i => [.call 0 (.add (Int32.ofNat i, ())), .run 0 0]

/-- Between the pop and the push of thread 1, thread 2 takes the place it made. -/
theorem self_wait : ∃ s : Threads ListQueue Unit, Run step (fun _ _ => True) init
      (fill ++ [.call 1 (.remove 99), .run 1 0, .run 1 0, .run 1 0, .run 1 0, .call 2 (.add (50, ())), .run 2 0,
        .run 1 0]) s ∧ SelfWait s :=
  ⟨_, run_get step (fun _ _ => True) _ init (by decide), 1, by decide, by decide⟩

/-! ## A call that is not interrupted -/

/-- The next `m` steps of one thread. -/
def alone (t first : Nat) : Nat → Threads Q T → Option (Threads Q T)
  | 0, s => some s
  | m + 1, s => (s.next t first).bind (alone t first m)

variable (x : Threads Q T) (t first : Nat)

theorem alone_one {n : ConnectionNode Q T} {p : Place T} (h : (x.at_ t n p).next t first = some s) :
    alone t first 1 (x.at_ t n p) = some s := by
  rw [alone, h]; rfl

theorem alone_succ {n : ConnectionNode Q T} {p : Place T} {m : Nat} (h : (x.at_ t n p).next t first = some s)
    (hm : alone t first m s = some s') : alone t first (m + 1) (x.at_ t n p) = some s' := by
  rw [alone, h, Option.bind_some, hm]

theorem rotate_alone (id : ConnectionId) : ∀ (k : Nat) (n : ConnectionNode Q T) {r : Option T}
    {n' : ConnectionNode Q T}, n.rotate id k = some (r, n') →
    ∃ m, alone t first m (x.at_ t n (.pop id k)) = some (x.at_ t n' .release) := by
  intro k
  induction k with
  | zero =>
    intro n r n' h
    cases h
    exact ⟨1, alone_one x t first (by simp only [next, at_places, at_goto])⟩
  | succ k ih =>
    intro n r n' h
    unfold ConnectionNode.rotate at h
    cases hq : pop n.hotQueue with
    | none =>
      rw [hq] at h
      cases h
      exact ⟨1, alone_one x t first (by simp only [next, at_places, at_node, hq, at_goto])⟩
    | some y =>
      obtain ⟨⟨hotId, hot⟩, q⟩ := y
      rw [hq] at h
      simp only at h
      have hnext : (x.at_ t n (.pop id (k + 1))).next t first =
          some (x.at_ t { n with hotQueue := q } (if id = hotId then .release else .pushBack id k (hotId, hot))) := by
        simp only [next, at_places, at_node, hq, at_with]
      split at h
      · cases h
        rw [if_pos ‹_›] at hnext
        exact ⟨1, alone_one x t first hnext⟩
      · rw [if_neg ‹_›] at hnext
        obtain ⟨n1, hadd, hrot⟩ := Option.bind_eq_some_iff.mp h
        unfold ConnectionNode.addNewConnection at hadd
        cases hp : push q (hotId, hot) with
        | ok q' =>
          simp only [hp, Option.some.injEq] at hadd
          subst hadd
          obtain ⟨m, hm⟩ := ih _ hrot
          have hback : (x.at_ t { n with hotQueue := q } (.pushBack id k (hotId, hot))).next t first =
              some (x.at_ t { n with hotQueue := q' } (.pop id k)) := by
            simp only [next, at_places, at_node, hp, at_with]
          exact ⟨_, alone_succ x t first hnext (alone_succ x t first hback hm)⟩
        | error e => simp only [hp, if_true] at hadd; cases hadd

theorem alone_add (m k : Nat) {s u : Threads Q T} (h : alone t first m s = some u) :
    alone t first (m + k) s = alone t first k u := by
  induction m generalizing s with
  | zero => cases h; rw [Nat.zero_add]
  | succ m ih =>
    obtain ⟨v, hv, hu⟩ := Option.bind_eq_some_iff.mp h
    rw [Nat.add_right_comm, alone, hv, Option.bind_some]
    exact ih hu

variable {x}

theorem release_free (hx : x.holder = none) (n : ConnectionNode Q T) :
    ((x.heldBy t).at_ t n .release).next t first = some (x.at_ t n .idle) := by
  simp only [next, at_places]
  obtain ⟨node, holder, places⟩ := x
  cases hx
  simp [at_, goto, heldBy]

theorem remove_alone (hx : x.holder = none) {n n' : ConnectionNode Q T} {id : ConnectionId} {r : Option T}
    (h : n.removeConnection id = some (r, n')) :
    ∃ m, alone t first m (x.at_ t n (NodeCall.remove id).entry) = some (x.at_ t n' .idle) := by
  have hlock : (x.at_ t n (.lockToRemove id)).next t first =
      some ((x.heldBy t).at_ t n (.search id)) := by
    simp only [next, at_places]; exact lock_free hx t n _ _
  have hrelease := alone_one _ t first (release_free t first hx n')
  unfold ConnectionNode.removeConnection at h
  rcases hrem : Assoc.remove n.connections id with ⟨found, rest⟩
  rw [hrem] at h
  cases found with
  | some c =>
    cases h
    have hsearch : ((x.heldBy t).at_ t n (.search id)).next t first =
        some ((x.heldBy t).at_ t { n with connections := rest } .release) := by
      simp only [next, at_places, at_node, hrem, at_with]
    exact ⟨_, alone_succ x t first hlock (alone_succ _ t first hsearch hrelease)⟩
  | none =>
    have hsearch : ((x.heldBy t).at_ t n (.search id)).next t first =
        some ((x.heldBy t).at_ t { n with connections := rest } (.count id)) := by
      simp only [next, at_places, at_node, hrem, at_with]
    have hcount : ((x.heldBy t).at_ t { n with connections := rest } (.count id)).next t
          first = some ((x.heldBy t).at_ t { n with connections := rest }
            (.pop id (len n.hotQueue))) := by
      simp only [next, at_places, at_node, at_goto]
    obtain ⟨m, hm⟩ := rotate_alone (x.heldBy t) t first id _ _ h
    have hend := alone_add t first m 1 hm
    rw [hrelease] at hend
    exact ⟨_, alone_succ x t first hlock (alone_succ _ t first hsearch (alone_succ _ t first hcount hend))⟩

theorem add_alone (hx : x.holder = none) {n n' : ConnectionNode Q T} {id : ConnectionId} {c : T}
    (h : n.addNewConnection false id c = some n') :
    ∃ m, alone t first m (x.at_ t n (NodeCall.add (id, c)).entry) = some (x.at_ t n' .idle) := by
  unfold ConnectionNode.addNewConnection at h
  cases hp : push n.hotQueue (id, c) with
  | ok q =>
    simp only [hp, Option.some.injEq] at h
    subst h
    exact ⟨1, alone_one x t first (by simp only [NodeCall.entry, next, at_places, at_node, hp, at_with])⟩
  | error e =>
    simp only [hp, Bool.false_eq_true, if_false, Option.some.injEq] at h
    subst h
    have hpush : (x.at_ t n (.push (id, c))).next t first = some (x.at_ t n (.lockToInsert e)) := by
      simp only [next, at_places, at_node, hp, at_goto]
    have hlock : (x.at_ t n (.lockToInsert e)).next t first =
        some ((x.heldBy t).at_ t n (.insert e)) := by
      simp only [next, at_places]; exact lock_free hx t n _ _
    have hinsert : ((x.heldBy t).at_ t n (.insert e)).next t first =
        some ((x.heldBy t).at_ t
          { n with connections := Assoc.insert n.connections e.1 e.2 } .release) := by
      simp only [next, at_places, at_node, at_with]
    exact ⟨_, alone_succ x t first hpush (alone_succ x t first hlock (alone_succ _ t first hinsert
      (alone_one _ t first (release_free t first hx _))))⟩

theorem get_alone (hx : x.holder = none) (n : ConnectionNode Q T) :
    ∃ m, alone t first m (x.at_ t n (NodeCall.get : NodeCall T).entry) =
      some (x.at_ t (n.getAvailableConnection first).2 .idle) := by
  unfold ConnectionNode.getAvailableConnection
  cases hp : pop n.hotQueue with
  | some y =>
    obtain ⟨hot, q⟩ := y
    exact ⟨1, alone_one x t first (by simp only [NodeCall.entry, next, at_places, at_node, hp, at_with])⟩
  | none =>
    have hpop : (x.at_ t n .popHot).next t first = some (x.at_ t n .lockToTake) := by
      simp only [next, at_places, at_node, hp, at_goto]
    have hlock : (x.at_ t n .lockToTake).next t first =
        some ((x.heldBy t).at_ t n .take) := by
      simp only [next, at_places]; exact lock_free hx t n _ _
    have htake : ((x.heldBy t).at_ t n .take).next t first =
        some ((x.heldBy t).at_ t (n.getAvailableConnection first).2 .release) := by
      unfold ConnectionNode.getAvailableConnection
      simp only [next, at_places, at_node, hp]
      cases hn : Assoc.iterNext first n.connections with
      | none => simp only [at_goto]
      | some e =>
        simp only [at_with]
        rcases Assoc.remove n.connections e.1 with ⟨_ | c, rest⟩ <;> rfl
    have := alone_succ x t first hpop (alone_succ x t first hlock (alone_succ _ t first htake
      (alone_one _ t first (release_free t first hx _))))
    unfold ConnectionNode.getAvailableConnection at this
    rw [hp] at this
    exact ⟨_, this⟩

end Threads

end Glaive.Pool
