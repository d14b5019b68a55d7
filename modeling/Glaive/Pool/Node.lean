/-
  Glaive.Pool.Node — the idle connections of one group (`core/src/pool/pool.rs`:
  `ConnectionNode`), each function run without another thread in between.

  `connections` is a mutex over a map, and `remove_connection` holds it for its whole
  body, in which it calls `add_new_connection`. A call that waits for the mutex its own
  thread holds never returns: `none`. The guard of `hot_queue_remove_lock` is dropped
  where it is taken (`let _`), so that mutex orders nothing and is not modelled.
-/

import Glaive.Lib.Containers

namespace Glaive.Pool

open Glaive.Lib
open Glaive.Lib.BoundedQueue (push pop len items capacity)

abbrev ConnectionId := Int32

abbrev ConnectionGroupId := UInt64

def hotQueueSize : Nat := 16

structure ConnectionNode (Q : Type → Type) (T : Type) where
  connections : List (ConnectionId × T)
  hotQueue : Q (ConnectionId × T)

namespace ConnectionNode

variable {Q : Type → Type} [BoundedQueue Q] {T : Type}

def new : ConnectionNode Q T := ⟨[], BoundedQueue.new hotQueueSize⟩

/-- `first` is where an iteration of the map starts. -/
def getAvailableConnection (first : Nat) (n : ConnectionNode Q T) : Option (ConnectionId × T) × ConnectionNode Q T :=
  match pop n.hotQueue with
  | some (hot, q) => (some hot, { n with hotQueue := q })
  | none =>
    match Assoc.iterNext first n.connections with
    | none => (none, n)
    | some (id, _) =>
      match Assoc.remove n.connections id with
      | (some c, rest) => (some (id, c), { n with connections := rest })
      | (none, rest) => (none, { n with connections := rest })

/-- `held`: the calling thread holds the mutex of the map. -/
def addNewConnection (held : Bool) (n : ConnectionNode Q T) (id : ConnectionId) (c : T) : Option (ConnectionNode Q T) :=
  match push n.hotQueue (id, c) with
  | .ok q => some { n with hotQueue := q }
  | .error (id, c) => if held then none else some { n with connections := Assoc.insert n.connections id c }

/-- The loop of `remove_connection`, with `k` rounds to go. -/
def rotate (id : ConnectionId) : Nat → ConnectionNode Q T → Option (Option T × ConnectionNode Q T)
  | 0, n => some (none, n)
  | k + 1, n =>
    match pop n.hotQueue with
    | none => some (none, n)
    | some ((hotId, hot), q) =>
      if id = hotId then some (some hot, { n with hotQueue := q })
      else ({ n with hotQueue := q }.addNewConnection true hotId hot).bind (rotate id k)

def removeConnection (n : ConnectionNode Q T) (id : ConnectionId) : Option (Option T × ConnectionNode Q T) :=
  match Assoc.remove n.connections id with
  | (some c, rest) => some (some c, { n with connections := rest })
  | (none, rest) => rotate id (len n.hotQueue) { n with connections := rest }

/-! ## What a node holds -/

/-- Hot queue and map together. -/
def all (n : ConnectionNode Q T) : List (ConnectionId × T) := items n.hotQueue ++ n.connections

/-- Each id is held once, and the queue is as large as it was made. -/
structure Sound (n : ConnectionNode Q T) : Prop where
  nodup : (n.all.map Prod.fst).Nodup
  size : capacity n.hotQueue = hotQueueSize

theorem all_new : (new : ConnectionNode Q T).all = [] := by
  unfold new all
  rw [BoundedQueue.items_new, List.append_nil]

theorem sound_new : (new : ConnectionNode Q T).Sound :=
  ⟨by rw [all_new]; exact List.nodup_nil, BoundedQueue.capacity_new _⟩

theorem Sound.of_perm {n' : ConnectionNode Q T} {l : List (ConnectionId × T)} (h : n'.all.Perm l)
    (hn : (l.map Prod.fst).Nodup) (hs : capacity n'.hotQueue = hotQueueSize) : n'.Sound :=
  ⟨(h.map Prod.fst).nodup_iff.mpr hn, hs⟩

theorem nodup_filter {l : List (ConnectionId × T)} (h : (l.map Prod.fst).Nodup) (p : ConnectionId × T → Bool) :
    ((l.filter p).map Prod.fst).Nodup := (List.filter_sublist.map Prod.fst).nodup h

/-- A node that holds nothing gives nothing and is left as it is; else it gives one of
    the connections it holds and keeps the others. -/
theorem getAvailableConnection_spec {n : ConnectionNode Q T} (h : n.Sound) (first : Nat) :
    n.all = [] ∧ n.getAvailableConnection first = (none, n) ∨
    ∃ e n', n.getAvailableConnection first = (some e, n') ∧ (e :: n'.all).Perm n.all ∧ n'.Sound := by
  unfold getAvailableConnection
  cases hi : items n.hotQueue with
  | nil =>
    rw [BoundedQueue.pop_nil _ hi]
    have hall : n.all = n.connections := by unfold all; rw [hi, List.nil_append]
    by_cases hc : n.connections = []
    · rw [hc, Assoc.iterNext_nil]
      exact Or.inl ⟨by rw [hall, hc], rfl⟩
    · obtain ⟨e, he, hnext⟩ := Assoc.iterNext_mem hc first
      have hn := h.nodup
      rw [hall] at hn
      have hrem : Assoc.remove n.connections e.1 = (some e.2, n.connections.filter (·.1 ≠ e.1)) := by
        unfold Assoc.remove
        rw [Assoc.find_mem hn he]; rfl
      have hperm := Assoc.perm_filter hn he
      simp only [hnext, hrem]
      refine Or.inr ⟨_, _, rfl, ?_, ?_, h.size⟩
      · rw [hall, all, hi, List.nil_append]; exact hperm
      · rw [all, hi, List.nil_append]; exact nodup_filter hn _
  | cons e l =>
    obtain ⟨q, hq, hl, hcap⟩ := BoundedQueue.pop_cons _ _ _ hi
    simp only [hq]
    have hall : n.all = e :: (l ++ n.connections) := by unfold all; rw [hi]; rfl
    refine Or.inr ⟨e, _, rfl, ?_, ?_, hcap.trans h.size⟩
    · rw [hall, all, hl]
    · have hn := h.nodup
      rw [hall, List.map_cons, List.nodup_cons] at hn
      rw [all, hl]; exact hn.2

/-- A connection with a new id is kept, in the queue or in the map. -/
theorem addNewConnection_spec {n : ConnectionNode Q T} (h : n.Sound) {id : ConnectionId}
    (hid : id ∉ n.all.map Prod.fst) (c : T) :
    ∃ n', n.addNewConnection false id c = some n' ∧ n'.all.Perm ((id, c) :: n.all) ∧ n'.Sound := by
  have hnodup : (((id, c) :: n.all).map Prod.fst).Nodup := by
    rw [List.map_cons, List.nodup_cons]
    exact ⟨hid, h.nodup⟩
  unfold addNewConnection
  by_cases hroom : (items n.hotQueue).length < capacity n.hotQueue
  · obtain ⟨q, hq, hl, hcap⟩ := BoundedQueue.push_room n.hotQueue (id, c) hroom
    simp only [hq]
    have hperm : (all { n with hotQueue := q }).Perm ((id, c) :: n.all) := by
      rw [all, hl, all, List.append_assoc]
      exact List.perm_middle
    exact ⟨_, rfl, hperm, .of_perm hperm hnodup (hcap.trans h.size)⟩
  · have hle := BoundedQueue.length_le n.hotQueue
    simp only [BoundedQueue.push_full n.hotQueue (id, c) (by omega), Bool.false_eq_true, if_false]
    have hmap : id ∉ n.connections.map Prod.fst := by
      intro hm
      rw [all, List.map_append, List.mem_append] at hid
      exact hid (Or.inr hm)
    have hperm : (all { n with connections := Assoc.insert n.connections id c }).Perm ((id, c) :: n.all) := by
      rw [all, Assoc.insert, Assoc.filter_absent hmap, all, ← List.append_assoc]
      exact List.perm_append_comm
    exact ⟨_, rfl, hperm, .of_perm hperm hnodup h.size⟩

/-- Popping and pushing back finds a connection in the queue by its id. There is room
    for what was just popped, so the mutex held is not asked for. -/
theorem rotate_spec (id : ConnectionId) : ∀ (k : Nat) (n : ConnectionNode Q T), k ≤ (items n.hotQueue).length →
    ((items n.hotQueue).map Prod.fst).Nodup →
    ∃ r n', rotate id k n = some (r, n') ∧ n'.connections = n.connections ∧
      capacity n'.hotQueue = capacity n.hotQueue ∧
      (items n'.hotQueue).Perm ((items n.hotQueue).drop k ++ ((items n.hotQueue).take k).filter (·.1 ≠ id)) := by
  intro k
  induction k with
  | zero => intro n _ _; exact ⟨none, n, rfl, rfl, rfl, by simp⟩
  | succ k ih =>
    intro n hk hn
    cases hi : items n.hotQueue with
    | nil => rw [hi, List.length_nil] at hk; omega
    | cons e l =>
      obtain ⟨hotId, hot⟩ := e
      rw [hi] at hk hn
      rw [List.length_cons] at hk
      rw [List.map_cons, List.nodup_cons] at hn
      obtain ⟨q, hq, hl, hcap⟩ := BoundedQueue.pop_cons _ _ _ hi
      rw [rotate, hq]
      simp only
      by_cases hid : id = hotId
      · subst hid
        rw [if_pos rfl]
        refine ⟨_, _, rfl, rfl, hcap, ?_⟩
        have habs : id ∉ (l.take k).map Prod.fst := fun h => hn.1 ((List.take_sublist k l).map Prod.fst |>.subset h)
        rw [hl, List.drop_succ_cons, List.take_succ_cons, List.filter_cons_of_neg (by simp),
          Assoc.filter_absent habs]
        refine List.Perm.trans ?_ List.perm_append_comm
        rw [List.take_append_drop]
      · rw [if_neg hid]
        have hlen := BoundedQueue.length_le n.hotQueue
        rw [hi, List.length_cons] at hlen
        obtain ⟨q', hq', hl', hcap'⟩ := BoundedQueue.push_room q (hotId, hot) (by rw [hl, hcap]; omega)
        simp only [addNewConnection, hq', Option.bind_some]
        rw [hl] at hl'
        obtain ⟨r, n', h1, h2, h3, h4⟩ := ih { n with hotQueue := q' } (by simp only [hl', List.length_append]; omega)
          (by
            simp only [hl', List.map_append, List.map_cons, List.map_nil]
            rw [List.nodup_append]
            refine ⟨hn.2, List.nodup_singleton _, fun a ha b hb => ?_⟩
            rw [List.mem_singleton] at hb
            intro he
            subst he
            exact hn.1 (hb ▸ ha))
        refine ⟨r, n', h1, h2, h3.trans (hcap'.trans hcap), h4.trans ?_⟩
        simp only [hl']
        rw [List.drop_append_of_le_length (by omega), List.take_append_of_le_length (by omega), List.drop_succ_cons,
          List.take_succ_cons, List.filter_cons_of_pos (by simpa using fun h : hotId = id => hid h.symm),
          List.append_assoc]
        rfl

/-- The connection with this id goes, if there is one; the others stay. -/
theorem removeConnection_spec {n : ConnectionNode Q T} (h : n.Sound) (id : ConnectionId) :
    ∃ r n', n.removeConnection id = some (r, n') ∧ n'.all.Perm (n.all.filter (·.1 ≠ id)) ∧ n'.Sound := by
  have hn := h.nodup
  rw [all, List.map_append, List.nodup_append] at hn
  obtain ⟨hq, hc, hdisj⟩ := hn
  unfold removeConnection Assoc.remove
  cases hf : n.connections.find? (·.1 = id) with
  | some e =>
    simp only [Option.map_some]
    have he := List.mem_of_find?_eq_some hf
    have hid : e.1 = id := by simpa using List.find?_some hf
    have habs : id ∉ (items n.hotQueue).map Prod.fst := fun hm =>
      hdisj id hm id (hid ▸ List.mem_map_of_mem he) rfl
    have hall : all { n with connections := n.connections.filter (·.1 ≠ id) } = n.all.filter (·.1 ≠ id) := by
      rw [all, all, List.filter_append, Assoc.filter_absent habs]
    exact ⟨_, _, rfl, by rw [hall], by rw [hall]; exact nodup_filter h.nodup _, h.size⟩
  | none =>
    simp only [Option.map_none]
    have habs : id ∉ n.connections.map Prod.fst := by
      intro hm
      obtain ⟨e, he, rfl⟩ := List.mem_map.mp hm
      exact absurd (List.find?_eq_none.mp hf e he) (by simp)
    rw [Assoc.filter_absent habs]
    obtain ⟨r, n', h1, h2, h3, h4⟩ := rotate_spec id (len n.hotQueue) n (Nat.le_of_eq (BoundedQueue.len_eq _)) hq
    have hperm : n'.all.Perm (n.all.filter (·.1 ≠ id)) := by
      rw [all, all, List.filter_append, Assoc.filter_absent habs, h2]
      refine List.Perm.append_right _ (h4.trans ?_)
      rw [BoundedQueue.len_eq, List.drop_length, List.take_length, List.nil_append]
    exact ⟨r, n', h1, hperm, .of_perm hperm (nodup_filter h.nodup _) (h3.trans h.size)⟩

end ConnectionNode

end Glaive.Pool
