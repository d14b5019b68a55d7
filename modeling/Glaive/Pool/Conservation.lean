/-
  Glaive.Pool.Conservation — no connection is lost or handed out twice, however the
  threads in the functions of `ConnectionNode` interleave (`core/src/pool/pool.rs`; the
  steps are those of `Glaive.Pool.Locking`).

  A connection that was added is in the hot queue, in the map, in the hand of a thread
  that is to put it into one of the two, or it was returned. A thread that stops in
  `remove_connection` for the mutex it holds keeps what it popped in its hand for good.

  Proved: what is there, in hand and returned together is what was added
  (`connections_conserved`), where no call adds an id that is already there. What the
  steps of a call give is what the whole functions return (`get_hands`, `remove_hands`).
-/

import Mathlib.Algebra.BigOperators.Group.Finset.Basic
import Mathlib.Tactic.Abel
import Glaive.Pool.Locking

namespace Glaive.Pool

open Glaive.Lib
open Glaive.Lib.BoundedQueue (push pop len items capacity)

variable {Q : Type → Type} {T : Type}

/-- What a node holds, however often. -/
def ConnectionNode.there [BoundedQueue Q] (node : ConnectionNode Q T) : Multiset (ConnectionId × T) := node.all

/-- The connection a thread is to put into the queue or the map. -/
def Place.hand : Place T → Multiset (ConnectionId × T)
  | .push e | .lockToInsert e | .insert e | .pushBack _ _ e | .lockToPutBack _ _ e | .putBack _ _ e => {e}
  | _ => 0

def Move.thread : Move T → Nat
  | .call t _ | .run t _ => t

/-- What a call brings. -/
def Move.added : Move T → Multiset (ConnectionId × T)
  | .call _ (.add e) => {e}
  | _ => 0

theorem NodeCall.hand_entry (t : Nat) (c : NodeCall T) : c.entry.hand = (Move.call t c).added := by cases c <;> rfl

namespace Threads

/-- What the threads before `n` have in hand. -/
def inHands (n : Nat) (s : Threads Q T) : Multiset (ConnectionId × T) := ∑ t ∈ Finset.range n, (s.places t).hand

/-- What is in the hands of the others. -/
def elsewhere (n t : Nat) (s : Threads Q T) : Multiset (ConnectionId × T) :=
  ∑ u ∈ (Finset.range n).erase t, (s.places u).hand

variable {s s' : Threads Q T} {n t : Nat} {p : Place T}

theorem inHands_split (ht : t < n) (s : Threads Q T) : s.inHands n = (s.places t).hand + s.elsewhere n t :=
  (Finset.add_sum_erase _ _ (Finset.mem_range.mpr ht)).symm

theorem elsewhere_update (h : s'.places = Function.update s.places t p) : s'.elsewhere n t = s.elsewhere n t := by
  refine Finset.sum_congr rfl fun u hu => ?_
  rw [h, Function.update_of_ne (Finset.ne_of_mem_erase hu)]

variable [BoundedQueue Q]

/-- The connection that the call of `t` finds with its next step, and returns. -/
def given (t first : Nat) (s : Threads Q T) : Multiset (ConnectionId × T) :=
  match s.places t with
  | .popHot =>
    match pop s.node.hotQueue with
    | some (hot, _) => {hot}
    | none => 0
  | .take =>
    match Assoc.iterNext first s.node.connections with
    | none => 0
    | some (id, _) =>
      match (Assoc.remove s.node.connections id).1 with
      | some c => {(id, c)}
      | none => 0
  | .search id =>
    match (Assoc.remove s.node.connections id).1 with
    | some c => {(id, c)}
    | none => 0
  | .pop id (_ + 1) =>
    match pop s.node.hotQueue with
    | some (hot, _) => if id = hot.1 then {hot} else 0
    | none => 0
  | _ => 0

def givenBy : Move T → Threads Q T → Multiset (ConnectionId × T)
  | .call _ _, _ => 0
  | .run t first, s => s.given t first

/-- What the calls return in a run. -/
def handed : List (Move T) → Threads Q T → Multiset (ConnectionId × T)
  | [], _ => 0
  | e :: evs, s =>
    match step e s with
    | none => 0
    | some s' => s.givenBy e + handed evs s'

def added (evs : List (Move T)) : Multiset (ConnectionId × T) := (evs.map Move.added).sum

/-- The ids that are there or in hand are distinct. -/
def Distinct (n : Nat) (s : Threads Q T) : Prop := ((s.node.there + s.inHands n).map Prod.fst).Nodup

/-- An id that is added is not there and in no hand. -/
def Fresh : Move T → Threads Q T → Prop
  | .call _ (.add e), s => e.1 ∉ s.node.all.map Prod.fst ∧ ∀ u, ∀ x ∈ (s.places u).hand, x.1 ≠ e.1
  | _, _ => True

/-! ## One step -/

/-- What the step of `t` from `s` to `s'` moves: `t` is at `p` after it. -/
structure Moved (t first : Nat) (s s' : Threads Q T) (p : Place T) : Prop where
  places : s'.places = Function.update s.places t p
  whole : s'.node.there + p.hand + s.given t first = s.node.there + (s.places t).hand

/-- A step that gives nothing and leaves the node and the hand as they are. -/
theorem Moved.still {first : Nat} (hplaces : s'.places = Function.update s.places t p) (hnode : s'.node = s.node)
    (hhand : p.hand = (s.places t).hand) (hgiven : s.given t first = 0) : Moved t first s s' p :=
  ⟨hplaces, by rw [hnode, hhand, hgiven, add_zero]⟩

theorem Moved.lock {first : Nat} (h : s.lock t p = some s') (hhand : p.hand = (s.places t).hand)
    (hgiven : s.given t first = 0) : Moved t first s s' p := by
  unfold Threads.lock at h
  cases hh : s.holder with
  | none =>
    rw [hh] at h
    cases h
    exact .still rfl rfl hhand hgiven
  | some u => rw [hh] at h; cases h

theorem all_push {node : ConnectionNode Q T} {e : ConnectionId × T} {q : Q (ConnectionId × T)}
    (h : items q = items node.hotQueue ++ [e]) :
    ({ node with hotQueue := q } : ConnectionNode Q T).there = node.there + {e} := by
  rw [ConnectionNode.there, ConnectionNode.there, ConnectionNode.all, ConnectionNode.all, h]
  simp only [← Multiset.coe_add, Multiset.coe_singleton]
  abel

theorem all_pop {node : ConnectionNode Q T} {e : ConnectionId × T} {l : List (ConnectionId × T)}
    {q : Q (ConnectionId × T)} (hi : items node.hotQueue = e :: l) (h : items q = l) :
    ({ node with hotQueue := q } : ConnectionNode Q T).there + {e} = node.there := by
  rw [ConnectionNode.there, ConnectionNode.there, ConnectionNode.all, ConnectionNode.all, h, hi]
  simp only [List.cons_append, ← Multiset.cons_coe, ← Multiset.singleton_add]
  abel

theorem all_insert {node : ConnectionNode Q T} {e : ConnectionId × T} (h : e.1 ∉ node.all.map Prod.fst) :
    ({ node with connections := Assoc.insert node.connections e.1 e.2 } : ConnectionNode Q T).there =
      node.there + {e} := by
  have hmap : e.1 ∉ node.connections.map Prod.fst := by
    intro hm
    rw [ConnectionNode.all, List.map_append, List.mem_append] at h
    exact h (.inr hm)
  rw [ConnectionNode.there, ConnectionNode.there, ConnectionNode.all, Assoc.insert, Assoc.filter_absent hmap,
    ConnectionNode.all]
  simp only [← Multiset.coe_add, Multiset.coe_singleton]
  abel

theorem all_remove {node : ConnectionNode Q T} {e : ConnectionId × T} (hn : (node.connections.map Prod.fst).Nodup)
    (he : e ∈ node.connections) :
    (Assoc.remove node.connections e.1).1 = some e.2 ∧
      ({ node with connections := (Assoc.remove node.connections e.1).2 } : ConnectionNode Q T).there + {e} =
        node.there := by
  refine ⟨by unfold Assoc.remove; rw [Assoc.find_mem hn he]; rfl, ?_⟩
  have hperm : (e :: (Assoc.remove node.connections e.1).2).Perm node.connections := Assoc.perm_filter hn he
  have hcoe : {e} + ((Assoc.remove node.connections e.1).2 : Multiset (ConnectionId × T)) = node.connections := by
    rw [Multiset.singleton_add, Multiset.cons_coe]
    exact Multiset.coe_eq_coe.mpr hperm
  rw [ConnectionNode.there, ConnectionNode.there, ConnectionNode.all, ConnectionNode.all]
  simp only [← Multiset.coe_add]
  rw [← hcoe]
  abel

omit [BoundedQueue Q] in
theorem remove_absent {node : ConnectionNode Q T} {id : ConnectionId}
    (h : (Assoc.remove node.connections id).1 = none) :
    ({ node with connections := (Assoc.remove node.connections id).2 } : ConnectionNode Q T) = node := by
  have hfind : node.connections.find? (·.1 = id) = none := by
    unfold Assoc.remove at h
    exact Option.map_eq_none_iff.mp h
  have hkeep : (Assoc.remove node.connections id).2 = node.connections := by
    refine Assoc.filter_absent fun hm => ?_
    obtain ⟨x, hx, rfl⟩ := List.mem_map.mp hm
    have := List.find?_eq_none.mp hfind x hx
    simp at this
  rw [hkeep]

/-- The step keeps what is there and in the hand of its thread, but for what it gives.
    The ids are distinct: an insertion into the map replaces nothing. -/
theorem next_moved {first : Nat} (hd : ((s.node.there + (s.places t).hand).map Prod.fst).Nodup)
    (h : s.next t first = some s') : ∃ p, Moved t first s s' p := by
  have hmap : (s.node.connections.map Prod.fst).Nodup := by
    have hall : (s.node.all.map Prod.fst).Nodup := by
      rw [Multiset.map_add, Multiset.nodup_add] at hd
      exact hd.1
    rw [ConnectionNode.all, List.map_append, List.nodup_append] at hall
    exact hall.2.1
  have hnew : ∀ e, (s.places t).hand = {e} → e.1 ∉ s.node.all.map Prod.fst := by
    intro e he hm
    rw [he, Multiset.map_add, Multiset.nodup_add] at hd
    exact Multiset.disjoint_left.mp hd.2.2 hm (by simp)
  unfold next at h
  cases hp : s.places t with
  | idle => rw [hp] at h; cases h
  | push e =>
    rw [hp] at h
    simp only at h
    have hg : s.given t first = 0 := by rw [given, hp]
    by_cases hroom : (items s.node.hotQueue).length < capacity s.node.hotQueue
    · obtain ⟨q, hq, hl, -⟩ := BoundedQueue.push_room s.node.hotQueue e hroom
      rw [hq] at h
      cases h
      refine ⟨.idle, rfl, ?_⟩
      rw [hg, hp]
      show ({ s.node with hotQueue := q } : ConnectionNode Q T).there + 0 + 0 = s.node.there + {e}
      rw [all_push hl, add_zero, add_zero]
    · have hle := BoundedQueue.length_le s.node.hotQueue
      rw [BoundedQueue.push_full s.node.hotQueue e (by omega)] at h
      cases h
      exact ⟨_, .still rfl rfl (by rw [hp]; rfl) hg⟩
  | lockToInsert e => rw [hp] at h; exact ⟨_, .lock h (by rw [hp]; rfl) (by rw [given, hp])⟩
  | insert e =>
    have hnew := hnew e (by rw [hp]; rfl)
    rw [hp] at h
    cases h
    refine ⟨.release, rfl, ?_⟩
    rw [given, hp]
    show ({ s.node with connections := Assoc.insert s.node.connections e.1 e.2 } : ConnectionNode Q T).there +
      0 + 0 = s.node.there + {e}
    rw [all_insert hnew, add_zero, add_zero]
  | popHot =>
    rw [hp] at h
    simp only at h
    cases hi : items s.node.hotQueue with
    | nil =>
      have hq := BoundedQueue.pop_nil _ hi
      rw [hq] at h
      cases h
      exact ⟨_, .still rfl rfl (by rw [hp]; rfl) (by simp only [given, hp, hq])⟩
    | cons e l =>
      obtain ⟨q, hq, hl, -⟩ := BoundedQueue.pop_cons _ _ _ hi
      rw [hq] at h
      cases h
      refine ⟨.idle, rfl, ?_⟩
      simp only [given, hp, hq]
      show ({ s.node with hotQueue := q } : ConnectionNode Q T).there + 0 + {e} = s.node.there + 0
      rw [add_zero, add_zero, all_pop hi hl]
  | lockToTake => rw [hp] at h; exact ⟨_, .lock h (by rw [hp]; rfl) (by rw [given, hp])⟩
  | take =>
    rw [hp] at h
    simp only at h
    by_cases hc : s.node.connections = []
    · have hn : Assoc.iterNext first s.node.connections = none := by rw [hc, Assoc.iterNext_nil]
      rw [hn] at h
      cases h
      exact ⟨_, .still rfl rfl (by rw [hp]; rfl) (by simp only [given, hp, hn])⟩
    · obtain ⟨e, he, hn⟩ := Assoc.iterNext_mem hc first
      obtain ⟨hfound, hrest⟩ := all_remove hmap he
      rw [hn] at h
      cases h
      refine ⟨.release, rfl, ?_⟩
      simp only [given, hp, hn, hfound]
      show ({ s.node with connections := (Assoc.remove s.node.connections e.1).2 } : ConnectionNode Q T).there +
        0 + {e} = s.node.there + 0
      rw [add_zero, add_zero, hrest]
  | lockToRemove id => rw [hp] at h; exact ⟨_, .lock h (by rw [hp]; rfl) (by rw [given, hp])⟩
  | search id =>
    rw [hp] at h
    simp only at h
    cases hfound : (Assoc.remove s.node.connections id).1 with
    | none =>
      have hsame := remove_absent hfound
      rw [show Assoc.remove s.node.connections id = (none, (Assoc.remove s.node.connections id).2) from
        Prod.ext hfound rfl] at h
      cases h
      exact ⟨.count id, .still rfl hsame (by rw [hp]; rfl) (by simp only [given, hp, hfound])⟩
    | some c =>
      have he : (id, c) ∈ s.node.connections := by
        have hf : (s.node.connections.find? (·.1 = id)).map (·.2) = some c := hfound
        obtain ⟨x, hx, hxc⟩ := Option.map_eq_some_iff.mp hf
        have hid : x.1 = id := by simpa using List.find?_some hx
        have hmem := List.mem_of_find?_eq_some hx
        rwa [show x = (id, c) from Prod.ext hid hxc] at hmem
      obtain ⟨-, hrest⟩ := all_remove hmap he
      rw [show Assoc.remove s.node.connections id = (some c, (Assoc.remove s.node.connections id).2) from
        Prod.ext hfound rfl] at h
      cases h
      refine ⟨.release, rfl, ?_⟩
      simp only [given, hp, hfound]
      show ({ s.node with connections := (Assoc.remove s.node.connections id).2 } : ConnectionNode Q T).there +
        0 + {(id, c)} = s.node.there + 0
      rw [add_zero, add_zero, hrest]
  | count id => rw [hp] at h; cases h; exact ⟨_, .still rfl rfl (by rw [hp]; rfl) (by rw [given, hp])⟩
  | pop id k =>
    cases k with
    | zero => rw [hp] at h; cases h; exact ⟨_, .still rfl rfl (by rw [hp]; rfl) (by rw [given, hp])⟩
    | succ k =>
      rw [hp] at h
      simp only at h
      cases hi : items s.node.hotQueue with
      | nil =>
        have hq := BoundedQueue.pop_nil _ hi
        rw [hq] at h
        cases h
        exact ⟨_, .still rfl rfl (by rw [hp]; rfl) (by simp only [given, hp, hq])⟩
      | cons e l =>
        obtain ⟨q, hq, hl, -⟩ := BoundedQueue.pop_cons _ _ _ hi
        rw [hq] at h
        cases h
        refine ⟨_, rfl, ?_⟩
        simp only [given, hp, hq]
        show ({ s.node with hotQueue := q } : ConnectionNode Q T).there + _ + _ = s.node.there + 0
        -- what is popped is returned, or stays in hand
        by_cases hid : id = e.1
        · rw [if_pos hid, if_pos hid, add_zero]
          show _ + 0 + _ = _
          rw [add_zero, all_pop hi hl]
        · rw [if_neg hid, if_neg hid, add_zero, add_zero]
          exact all_pop hi hl
  | pushBack id k e =>
    rw [hp] at h
    simp only at h
    have hg : s.given t first = 0 := by rw [given, hp]
    by_cases hroom : (items s.node.hotQueue).length < capacity s.node.hotQueue
    · obtain ⟨q, hq, hl, -⟩ := BoundedQueue.push_room s.node.hotQueue e hroom
      rw [hq] at h
      cases h
      refine ⟨.pop id k, rfl, ?_⟩
      rw [hg, hp]
      show ({ s.node with hotQueue := q } : ConnectionNode Q T).there + 0 + 0 = s.node.there + {e}
      rw [all_push hl, add_zero, add_zero]
    · have hle := BoundedQueue.length_le s.node.hotQueue
      rw [BoundedQueue.push_full s.node.hotQueue e (by omega)] at h
      cases h
      exact ⟨_, .still rfl rfl (by rw [hp]; rfl) hg⟩
  | lockToPutBack id k e => rw [hp] at h; exact ⟨_, .lock h (by rw [hp]; rfl) (by rw [given, hp])⟩
  | putBack id k e =>
    have hnew := hnew e (by rw [hp]; rfl)
    rw [hp] at h
    cases h
    refine ⟨.pop id k, rfl, ?_⟩
    rw [given, hp]
    show ({ s.node with connections := Assoc.insert s.node.connections e.1 e.2 } : ConnectionNode Q T).there +
      0 + 0 = s.node.there + {e}
    rw [all_insert hnew, add_zero, add_zero]
  | release => rw [hp] at h; cases h; exact ⟨_, .still rfl rfl (by rw [hp]; rfl) (by rw [given, hp])⟩

/-- What is there and in hand after a step, with what it gives, is what was there and in
    hand before, with what it brings. -/
theorem step_whole (hd : s.Distinct n) {e : Move T} (ht : e.thread < n) (h : step e s = some s') :
    s'.node.there + s'.inHands n + s.givenBy e = s.node.there + s.inHands n + e.added := by
  cases e with
  | call t c =>
    simp only [step] at h
    split at h
    case h_1 hidle =>
      cases h
      have hother : (s.goto t c.entry).elsewhere n t = s.elsewhere n t := elsewhere_update rfl
      have hmine : ((s.goto t c.entry).places t).hand = (Move.call t c).added := by
        rw [← c.hand_entry t]
        exact congrArg Place.hand (Function.update_self ..)
      have hwas : (s.places t).hand = 0 := by rw [hidle]; rfl
      change t < n at ht
      rw [inHands_split ht, inHands_split ht s, hother, hmine, hwas]
      show s.node.there + _ + 0 = _
      abel
    case h_2 => cases h
  | run t first =>
    change t < n at ht
    have hmine : ((s.node.there + (s.places t).hand).map Prod.fst).Nodup := by
      rw [Distinct, inHands_split ht, ← add_assoc, Multiset.map_add, Multiset.nodup_add] at hd
      exact hd.1
    obtain ⟨p, hm⟩ := next_moved hmine h
    have hother : s'.elsewhere n t = s.elsewhere n t := elsewhere_update hm.places
    have hhand : (s'.places t).hand = p.hand := by rw [hm.places, Function.update_self]
    rw [inHands_split ht, inHands_split ht s, hother, hhand]
    calc s'.node.there + (p.hand + s.elsewhere n t) + s.given t first
        = s'.node.there + p.hand + s.given t first + s.elsewhere n t := by abel
      _ = s.node.there + (s.places t).hand + s.elsewhere n t := by rw [hm.whole]
      _ = s.node.there + ((s.places t).hand + s.elsewhere n t) + 0 := by abel

theorem Distinct.step (hd : s.Distinct n) {e : Move T} (hf : Fresh e s) (ht : e.thread < n)
    (h : Threads.step e s = some s') : s'.Distinct n := by
  have hwhole := congrArg (Multiset.map Prod.fst) (step_whole hd ht h)
  have hall : ((s.node.there + s.inHands n + e.added).map Prod.fst).Nodup := by
    rw [Multiset.map_add, Multiset.nodup_add]
    have hnone : ∀ e : Move T, e.added = 0 → (e.added.map Prod.fst).Nodup ∧
        Disjoint ((s.node.there + s.inHands n).map Prod.fst) (e.added.map Prod.fst) := by
      intro e he
      rw [he]
      exact ⟨Multiset.nodup_zero, Multiset.disjoint_right.mpr fun hx => absurd hx (Multiset.notMem_zero _)⟩
    refine ⟨hd, ?_⟩
    cases e with
    | run t first => exact hnone _ rfl
    | call t c =>
      cases c with
      | get => exact hnone _ rfl
      | remove id => exact hnone _ rfl
      | add e =>
        show (Multiset.map Prod.fst {e}).Nodup ∧ Disjoint _ (Multiset.map Prod.fst {e})
        rw [Multiset.map_singleton]
        refine ⟨Multiset.nodup_singleton _, Multiset.disjoint_right.mpr fun hid hin => ?_⟩
        cases Multiset.mem_singleton.mp hid
        obtain ⟨x, hx, hxid⟩ := Multiset.mem_map.mp hin
        rcases Multiset.mem_add.mp hx with hx | hx
        · exact hf.1 (hxid ▸ List.mem_map_of_mem (Multiset.mem_coe.mp hx))
        · obtain ⟨u, -, hu⟩ := Multiset.mem_sum.mp hx
          exact hf.2 u x hu hxid
  rw [← hwhole, Multiset.map_add, Multiset.nodup_add] at hall
  exact hall.1

/-! ## Runs -/

theorem run_whole {evs : List (Move T)} (h : Run step Fresh s evs s') : s.Distinct n → (∀ e ∈ evs, e.thread < n) →
    s'.node.there + s'.inHands n + handed evs s = s.node.there + s.inHands n + added evs ∧
      s'.Distinct n := by
  induction h with
  | nil s => exact fun hd _ => ⟨rfl, hd⟩
  | @cons s u s' e evs hf hs _ ih =>
    intro hd hn
    have ht := hn e (List.mem_cons_self ..)
    obtain ⟨hih, hd'⟩ := ih (hd.step hf ht hs) fun e he => hn e (List.mem_cons_of_mem _ he)
    refine ⟨?_, hd'⟩
    have hhanded : handed (e :: evs) s = s.givenBy e + handed evs u := by rw [handed, hs]
    have hadded : added (e :: evs) = e.added + added evs := by rw [added, List.map_cons, List.sum_cons]; rfl
    calc s'.node.there + s'.inHands n + handed (e :: evs) s
        = s'.node.there + s'.inHands n + handed evs u + s.givenBy e := by rw [hhanded]; abel
      _ = u.node.there + u.inHands n + s.givenBy e + added evs := by rw [hih]; abel
      _ = s.node.there + s.inHands n + added (e :: evs) := by rw [step_whole hd ht hs, hadded]; abel

omit [BoundedQueue Q] in
theorem inHands_idle (h : ∀ t, s.places t = .idle) : s.inHands n = 0 := by
  refine Finset.sum_eq_zero fun t _ => ?_
  rw [h t]
  rfl

theorem distinct_init : (init : Threads Q T).Distinct n := by
  have hempty : (init : Threads Q T).node.there = 0 := congrArg Multiset.ofList ConnectionNode.all_new
  rw [Distinct, inHands_idle (fun _ => rfl), hempty]
  exact Multiset.nodup_zero

/-- However the calls of any number of threads interleave: the connections that are there,
    in hand or were returned are those that were added, each once. With no call in
    progress none is in hand. -/
theorem connections_conserved (n : Nat) {evs : List (Move T)} {s : Threads Q T} (hn : ∀ e ∈ evs, e.thread < n)
    (h : Run step Fresh init evs s) :
    s.node.there + s.inHands n + handed evs (init : Threads Q T) = added evs ∧
      ((s.node.there + s.inHands n).map Prod.fst).Nodup ∧
      ((∀ t, s.places t = .idle) → s.node.there + handed evs (init : Threads Q T) = added evs) := by
  have hstart : (init : Threads Q T).Distinct n := distinct_init
  obtain ⟨hw, hd⟩ := run_whole h hstart hn
  have hempty : (init : Threads Q T).node.there = 0 := congrArg Multiset.ofList ConnectionNode.all_new
  have hwhole : s.node.there + s.inHands n + handed evs (init : Threads Q T) = added evs := by
    rw [hw, hempty, inHands_idle fun _ => rfl, zero_add, zero_add]
  refine ⟨hwhole, hd, fun hidle => ?_⟩
  rw [inHands_idle hidle, add_zero] at hwhole
  exact hwhole

/-- `Fresh`, as it is checked: the threads from `n` on are in no call. -/
def FreshBelow (n : Nat) : Move T → Threads Q T → Prop
  | .call _ (.add e), s => e.1 ∉ s.node.all.map Prod.fst ∧ ∀ u < n, ∀ x ∈ (s.places u).hand, x.1 ≠ e.1
  | _, _ => True

instance (n : Nat) : (e : Move T) → (s : Threads Q T) → Decidable (FreshBelow n e s)
  | .call _ (.add _), _ => inferInstanceAs (Decidable (_ ∧ _))
  | .call _ .get, _ => .isTrue trivial
  | .call _ (.remove _), _ => .isTrue trivial
  | .run .., _ => .isTrue trivial

theorem fresh_of_below (hout : ∀ u, n ≤ u → s.places u = .idle) {e : Move T} (h : FreshBelow n e s) : Fresh e s := by
  cases e with
  | run t first => trivial
  | call t c =>
    cases c with
    | get => trivial
    | remove id => trivial
    | add e =>
      refine ⟨h.1, fun u x hx => ?_⟩
      by_cases hu : u < n
      · exact h.2 u hu x hx
      · rw [hout u (Nat.le_of_not_lt hu)] at hx
        exact absurd hx (Multiset.notMem_zero x)

theorem outside_step (hout : ∀ u, n ≤ u → s.places u = .idle) {e : Move T} (ht : e.thread < n)
    (h : Threads.step e s = some s') : ∀ u, n ≤ u → s'.places u = .idle := by
  intro u hu
  have hne : u ≠ e.thread := fun he => Nat.lt_irrefl _ (Nat.lt_of_lt_of_le ht (he ▸ hu))
  cases e with
  | call t c =>
    simp only [Threads.step] at h
    split at h
    · cases h
      exact (Function.update_of_ne hne _ _).trans (hout u hu)
    · cases h
  | run t first =>
    obtain ⟨p, hplaces, -⟩ := next_stepped h
    rw [hplaces]
    exact (Function.update_of_ne hne _ _).trans (hout u hu)

/-- Two threads add at a time, a third takes the first of the two connections while the
    second is searched for, and another one is added during the search. -/
def passOn : List (Move Unit) :=
  [.call 0 (.add (1, ())), .call 1 (.add (2, ())), .run 0 0, .call 2 .get, .run 1 0, .call 0 (.remove 2), .run 2 0,
    .run 0 0, .run 0 0, .call 1 (.add (3, ())), .run 0 0, .run 1 0, .run 0 0, .run 0 0]

theorem connections_conserved_passOn :
    ∃ s : Threads ListQueue Unit, Run step Fresh init passOn s ∧ s.node.there = {(3, ())} ∧
      s.node.there + handed passOn (init : Threads ListQueue Unit) = added passOn := by
  have h := run_get step (fun e s => FreshBelow 3 e s ∧ e.thread < 3) passOn (init : Threads ListQueue Unit) (by decide)
  generalize hs : Option.get _ _ = s at h
  have hkeeps : ∀ e (a b : Threads ListQueue Unit), (∀ u, 3 ≤ u → a.places u = .idle) →
      FreshBelow 3 e a ∧ e.thread < 3 → step e a = some b → ∀ u, 3 ≤ u → b.places u = .idle :=
    fun _ _ _ hout hp hstep => outside_step hout hp.2 hstep
  have hout := h.invariant hkeeps fun _ _ => rfl
  have hfresh : Run step Fresh init passOn s :=
    (h.carry hkeeps fun _ _ => rfl).imp (I := fun _ => True) (fun _ _ _ _ _ => trivial)
      (fun _ _ _ _ _ hp => fresh_of_below hp.1 hp.2.1) trivial
  subst hs
  refine ⟨_, hfresh, by decide, (connections_conserved 3 (by decide) hfresh).2.2 fun t => ?_⟩
  match t with
  | 0 => rfl
  | 1 => rfl
  | 2 => rfl
  | t + 3 => exact hout (t + 3) (Nat.le_add_left 3 t)

/-! ## What the calls return -/

/-- The next `m` steps of `t` lead from `s` to `s'` and give `g`. -/
def Hands (t first m : Nat) (s : Threads Q T) (g : Multiset (ConnectionId × T)) (s' : Threads Q T) : Prop :=
  alone t first m s = some s' ∧ handed (List.replicate m (.run t first)) s = g

theorem Hands.succ {first m : Nat} {g : Multiset (ConnectionId × T)} {u : Threads Q T} (h : s.next t first = some s')
    (hm : Hands t first m s' g u) : Hands t first (m + 1) s (s.given t first + g) u := by
  refine ⟨by rw [alone, h, Option.bind_some, hm.1], ?_⟩
  have hs : step (.run t first) s = some s' := h
  rw [List.replicate_succ, handed, hs, ← hm.2]
  rfl

/-- A step that gives nothing. -/
theorem Hands.after {first m : Nat} {g : Multiset (ConnectionId × T)} {u : Threads Q T} (h : s.next t first = some s')
    (hg : s.given t first = 0) (hm : Hands t first m s' g u) : Hands t first (m + 1) s g u := by
  have := Hands.succ h hm
  rwa [hg, zero_add] at this

theorem Hands.one {first : Nat} (h : s.next t first = some s') : Hands t first 1 s (s.given t first) s' := by
  have := Hands.succ h (⟨rfl, rfl⟩ : Hands t first 0 s' 0 s')
  rwa [add_zero] at this

theorem Hands.then_ {first m k : Nat} {g : Multiset (ConnectionId × T)} {u : Threads Q T} :
    ∀ {s : Threads Q T}, Hands t first m s g s' → Hands t first k s' 0 u → Hands t first (m + k) s g u := by
  induction m generalizing g with
  | zero =>
    intro s h hk
    obtain ⟨ha, hg⟩ := h
    cases ha
    cases hg
    rwa [Nat.zero_add]
  | succ m ih =>
    intro s h hk
    obtain ⟨ha, hg⟩ := h
    obtain ⟨v, hv, hm⟩ := Option.bind_eq_some_iff.mp ha
    have hs : step (.run t first) s = some v := hv
    rw [List.replicate_succ, handed, hs] at hg
    rw [Nat.add_right_comm, ← hg]
    exact .succ hv (ih ⟨hm, rfl⟩ hk)

variable (x : Threads Q T) (t first : Nat)

/-- The release of the mutex gives nothing. -/
theorem release_hands {x : Threads Q T} (hx : x.holder = none) (node : ConnectionNode Q T) :
    Hands t first 1 ((x.heldBy t).at_ t node .release) 0 (x.at_ t node .idle) := by
  have := Hands.one (release_free t first hx node)
  rwa [show given t first ((x.heldBy t).at_ t node .release) = 0 by simp only [given, at_places]] at this

/-- `get_available_connection` returns what its steps give. -/
theorem get_hands {x : Threads Q T} (hx : x.holder = none) (node : ConnectionNode Q T) :
    ∃ m, Hands t first m (x.at_ t node (NodeCall.get : NodeCall T).entry) (node.getAvailableConnection first).1.toList
      (x.at_ t (node.getAvailableConnection first).2 .idle) := by
  unfold ConnectionNode.getAvailableConnection
  cases hp : pop node.hotQueue with
  | some y =>
    obtain ⟨hot, q⟩ := y
    have hpop : (x.at_ t node .popHot).next t first = some (x.at_ t { node with hotQueue := q } .idle) := by
      simp only [next, at_places, at_node, hp, at_with]
    have hgive := Hands.one hpop
    rw [show given t first (x.at_ t node .popHot) = {hot} by simp only [given, at_places, at_node, hp]] at hgive
    exact ⟨1, hgive⟩
  | none =>
    have hpop : (x.at_ t node .popHot).next t first = some (x.at_ t node .lockToTake) := by
      simp only [next, at_places, at_node, hp, at_goto]
    have hlock : (x.at_ t node .lockToTake).next t first = some ((x.heldBy t).at_ t node .take) := by
      simp only [next, at_places]
      exact lock_free hx t node _ _
    refine ⟨_, .after hpop (by simp only [NodeCall.entry, given, at_places, at_node, hp])
      (.after hlock (by simp only [given, at_places]) (m := 1 + 1) ?_)⟩
    cases hn : Assoc.iterNext first node.connections with
    | none =>
      have htake : ((x.heldBy t).at_ t node .take).next t first = some ((x.heldBy t).at_ t node .release) := by
        simp only [next, at_places, at_node, hn, at_goto]
      exact .after htake (by simp only [given, at_places, at_node, hn]) (release_hands t first hx node)
    | some e =>
      have htake : ((x.heldBy t).at_ t node .take).next t first =
          some ((x.heldBy t).at_ t { node with connections := (Assoc.remove node.connections e.1).2 } .release) := by
        simp only [next, at_places, at_node, hn, at_with]
      have hgive := (Hands.one htake).then_ (release_hands t first hx _)
      rcases hrem : Assoc.remove node.connections e.1 with ⟨_ | c, rest⟩
      · rw [show given t first ((x.heldBy t).at_ t node .take) = 0 by
          simp only [given, at_places, at_node, hn, hrem], hrem] at hgive
        simp only [hrem]
        exact hgive
      · rw [show given t first ((x.heldBy t).at_ t node .take) = {(e.1, c)} by
          simp only [given, at_places, at_node, hn, hrem], hrem] at hgive
        simp only [hrem]
        exact hgive

theorem rotate_hands (id : ConnectionId) : ∀ (k : Nat) (node : ConnectionNode Q T) {r : Option T}
    {node' : ConnectionNode Q T}, node.rotate id k = some (r, node') →
    ∃ m, Hands t first m (x.at_ t node (.pop id k)) (r.map fun c => (id, c)).toList (x.at_ t node' .release) := by
  intro k
  induction k with
  | zero =>
    intro node r node' h
    cases h
    have hstop : (x.at_ t node (.pop id 0)).next t first = some (x.at_ t node .release) := by
      simp only [next, at_places, at_goto]
    have hgive := Hands.one hstop
    rw [show given t first (x.at_ t node (.pop id 0)) = 0 by simp only [given, at_places]] at hgive
    exact ⟨1, hgive⟩
  | succ k ih =>
    intro node r node' h
    unfold ConnectionNode.rotate at h
    cases hq : pop node.hotQueue with
    | none =>
      rw [hq] at h
      cases h
      have hstop : (x.at_ t node (.pop id (k + 1))).next t first = some (x.at_ t node .release) := by
        simp only [next, at_places, at_node, hq, at_goto]
      have hgive := Hands.one hstop
      rw [show given t first (x.at_ t node (.pop id (k + 1))) = 0 by simp only [given, at_places, at_node, hq]] at hgive
      exact ⟨1, hgive⟩
    | some y =>
      obtain ⟨⟨hotId, hot⟩, q⟩ := y
      rw [hq] at h
      simp only at h
      have hnext : (x.at_ t node (.pop id (k + 1))).next t first = some (x.at_ t { node with hotQueue := q }
          (if id = hotId then .release else .pushBack id k (hotId, hot))) := by
        simp only [next, at_places, at_node, hq, at_with]
      have hgiven : given t first (x.at_ t node (.pop id (k + 1))) = if id = hotId then {(hotId, hot)} else 0 := by
        simp only [given, at_places, at_node, hq]
      split at h
      case isTrue hid =>
        cases h
        rw [if_pos hid] at hnext hgiven
        have := Hands.one hnext
        rw [hgiven, ← hid] at this
        exact ⟨1, this⟩
      case isFalse hid =>
        rw [if_neg hid] at hnext hgiven
        obtain ⟨n1, hadd, hrot⟩ := Option.bind_eq_some_iff.mp h
        unfold ConnectionNode.addNewConnection at hadd
        cases hp : push q (hotId, hot) with
        | ok q' =>
          simp only [hp, Option.some.injEq] at hadd
          subst hadd
          obtain ⟨m, hm⟩ := ih _ hrot
          have hback : (x.at_ t { node with hotQueue := q } (.pushBack id k (hotId, hot))).next t first =
              some (x.at_ t { node with hotQueue := q' } (.pop id k)) := by
            simp only [next, at_places, at_node, hp, at_with]
          exact ⟨_, .after hnext hgiven (.after hback (by simp only [given, at_places]) hm)⟩
        | error e => simp only [hp, if_true] at hadd; cases hadd

/-- So does `remove_connection`. -/
theorem remove_hands {x : Threads Q T} (hx : x.holder = none) {node node' : ConnectionNode Q T} {id : ConnectionId}
    {r : Option T} (h : node.removeConnection id = some (r, node')) :
    ∃ m, Hands t first m (x.at_ t node (NodeCall.remove id).entry) (r.map fun c => (id, c)).toList
      (x.at_ t node' .idle) := by
  have hlock : (x.at_ t node (.lockToRemove id)).next t first = some ((x.heldBy t).at_ t node (.search id)) := by
    simp only [next, at_places]
    exact lock_free hx t node _ _
  have hrelease := release_hands t first hx node'
  have hnone : given t first (x.at_ t node (.lockToRemove id)) = 0 := by simp only [given, at_places]
  unfold ConnectionNode.removeConnection at h
  rcases hrem : Assoc.remove node.connections id with ⟨found, rest⟩
  rw [hrem] at h
  cases found with
  | some c =>
    cases h
    have hsearch : ((x.heldBy t).at_ t node (.search id)).next t first =
        some ((x.heldBy t).at_ t { node with connections := rest } .release) := by
      simp only [next, at_places, at_node, hrem, at_with]
    have hgive := (Hands.one hsearch).then_ hrelease
    rw [show given t first ((x.heldBy t).at_ t node (.search id)) = {(id, c)} by
      simp only [given, at_places, at_node, hrem]] at hgive
    exact ⟨_, .after hlock hnone hgive⟩
  | none =>
    have hsearch : ((x.heldBy t).at_ t node (.search id)).next t first =
        some ((x.heldBy t).at_ t { node with connections := rest } (.count id)) := by
      simp only [next, at_places, at_node, hrem, at_with]
    have hcount : ((x.heldBy t).at_ t { node with connections := rest } (.count id)).next t first =
        some ((x.heldBy t).at_ t { node with connections := rest } (.pop id (len node.hotQueue))) := by
      simp only [next, at_places, at_node, at_goto]
    obtain ⟨m, hm⟩ := rotate_hands (x.heldBy t) t first id _ _ h
    exact ⟨_, .after hlock hnone (.after hsearch (by simp only [given, at_places, at_node, hrem])
      (.after hcount (by simp only [given, at_places]) (hm.then_ hrelease)))⟩

end Threads

end Glaive.Pool
