/-
  Glaive.Lib.Containers — containers that tasks share: a bounded queue, a cache that knows
  its oldest entry and a map, each by what its library promises of it, and a hash map as
  the list of its entries.

  `ListQueue`, `ListCache` and `FunMap` keep the promises.
-/

import Mathlib.Data.List.Nodup
import Mathlib.Data.List.Perm.Basic
import Mathlib.Logic.Function.Basic

namespace Glaive.Lib

/-! ## A bounded queue -/

/-- A first-in first-out queue with a capacity. `items` is what it holds, oldest first. -/
class BoundedQueue (Q : Type → Type) where
  new {α : Type} (capacity : Nat) : Q α
  /-- The value comes back when the queue is full. -/
  push {α : Type} (q : Q α) (a : α) : Except α (Q α)
  pop {α : Type} (q : Q α) : Option (α × Q α)
  len {α : Type} (q : Q α) : Nat
  capacity {α : Type} (q : Q α) : Nat
  items {α : Type} (q : Q α) : List α
  items_new {α : Type} (n : Nat) : items (new n : Q α) = []
  capacity_new {α : Type} (n : Nat) : capacity (new n : Q α) = n
  len_eq {α : Type} (q : Q α) : len q = (items q).length
  length_le {α : Type} (q : Q α) : (items q).length ≤ capacity q
  push_full {α : Type} (q : Q α) (a : α) : (items q).length = capacity q → push q a = .error a
  push_room {α : Type} (q : Q α) (a : α) : (items q).length < capacity q →
    ∃ q', push q a = .ok q' ∧ items q' = items q ++ [a] ∧ capacity q' = capacity q
  pop_nil {α : Type} (q : Q α) : items q = [] → pop q = none
  pop_cons {α : Type} (q : Q α) (a : α) (l : List α) : items q = a :: l →
    ∃ q', pop q = some (a, q') ∧ items q' = l ∧ capacity q' = capacity q

/-! ## A cache in order of use -/

/-- A map that knows which entry was put longest ago. `entries` is what it holds,
    oldest first, each key once. -/
class RecencyCache (C : Type → Type → Type) where
  unbounded {κ υ : Type} : C κ υ
  put {κ υ : Type} [DecidableEq κ] (c : C κ υ) (k : κ) (v : υ) : C κ υ
  pop {κ υ : Type} [DecidableEq κ] (c : C κ υ) (k : κ) : Option υ × C κ υ
  popLru {κ υ : Type} (c : C κ υ) : Option (κ × υ) × C κ υ
  len {κ υ : Type} (c : C κ υ) : Nat
  entries {κ υ : Type} (c : C κ υ) : List (κ × υ)
  entries_unbounded {κ υ : Type} : entries (unbounded : C κ υ) = []
  entries_put {κ υ : Type} [DecidableEq κ] (c : C κ υ) (k : κ) (v : υ) :
    entries (put c k v) = (entries c).filter (·.1 ≠ k) ++ [(k, v)]
  entries_pop {κ υ : Type} [DecidableEq κ] (c : C κ υ) (k : κ) :
    entries (pop c k).2 = (entries c).filter (·.1 ≠ k)
  popLru_nil {κ υ : Type} (c : C κ υ) : entries c = [] → popLru c = (none, c)
  popLru_cons {κ υ : Type} (c : C κ υ) (e : κ × υ) (l : List (κ × υ)) : entries c = e :: l →
    ∃ c', popLru c = (some e, c') ∧ entries c' = l
  len_eq {κ υ : Type} (c : C κ υ) : len c = (entries c).length

/-! ## A shared map -/

/-- A map whose calls are one step each. `entry` is what a read finds under a key. -/
class SharedMap (M : Type → Type → Type) where
  new {κ υ : Type} : M κ υ
  entry {κ υ : Type} [DecidableEq κ] (m : M κ υ) (k : κ) : Option υ
  /-- An entry that is there stays, and the value comes back. -/
  insert {κ υ : Type} [DecidableEq κ] (m : M κ υ) (k : κ) (v : υ) : Except υ (M κ υ)
  update {κ υ : Type} [DecidableEq κ] (m : M κ υ) (k : κ) (f : υ → υ) : Option (M κ υ)
  remove {κ υ : Type} [DecidableEq κ] (m : M κ υ) (k : κ) : Option (υ × M κ υ)
  entry_new {κ υ : Type} [DecidableEq κ] (k : κ) : entry (new : M κ υ) k = none
  insert_taken {κ υ : Type} [DecidableEq κ] (m : M κ υ) (k : κ) (v w : υ) : entry m k = some w → insert m k v = .error v
  insert_free {κ υ : Type} [DecidableEq κ] (m : M κ υ) (k : κ) (v : υ) : entry m k = none →
    ∃ m', insert m k v = .ok m' ∧ ∀ k', entry m' k' = if k' = k then some v else entry m k'
  update_none {κ υ : Type} [DecidableEq κ] (m : M κ υ) (k : κ) (f : υ → υ) : entry m k = none → update m k f = none
  update_some {κ υ : Type} [DecidableEq κ] (m : M κ υ) (k : κ) (f : υ → υ) (v : υ) : entry m k = some v →
    ∃ m', update m k f = some m' ∧ ∀ k', entry m' k' = if k' = k then some (f v) else entry m k'
  remove_none {κ υ : Type} [DecidableEq κ] (m : M κ υ) (k : κ) : entry m k = none → remove m k = none
  remove_some {κ υ : Type} [DecidableEq κ] (m : M κ υ) (k : κ) (v : υ) : entry m k = some v →
    ∃ m', remove m k = some (v, m') ∧ ∀ k', entry m' k' = if k' = k then none else entry m k'

/-! ## A hash map -/

namespace Assoc

variable {κ υ : Type}

/-- `iter().next()`. The order of a hash map is not promised: `first` says where its
    iteration happens to start. -/
def iterNext (first : Nat) (l : List (κ × υ)) : Option (κ × υ) := l[first % l.length]?

theorem iterNext_nil (first : Nat) : iterNext first ([] : List (κ × υ)) = none := rfl

theorem iterNext_mem {l : List (κ × υ)} (h : l ≠ []) (first : Nat) : ∃ e ∈ l, iterNext first l = some e := by
  have hlt : first % l.length < l.length := Nat.mod_lt _ (List.length_pos_of_ne_nil h)
  exact ⟨_, List.getElem_mem hlt, List.getElem?_eq_getElem hlt⟩

variable [DecidableEq κ]

def insert (l : List (κ × υ)) (k : κ) (v : υ) : List (κ × υ) := l.filter (·.1 ≠ k) ++ [(k, v)]

/-- The value under `k`, and the map without it. -/
def remove (l : List (κ × υ)) (k : κ) : Option υ × List (κ × υ) :=
  ((l.find? (·.1 = k)).map (·.2), l.filter (·.1 ≠ k))

theorem filter_absent {l : List (κ × υ)} {k : κ} (h : k ∉ l.map Prod.fst) : l.filter (·.1 ≠ k) = l := by
  rw [List.filter_eq_self]
  intro e he
  simp only [ne_eq, decide_not, Bool.not_eq_eq_eq_not, Bool.not_true, decide_eq_false_iff_not]
  intro hk
  exact h (hk ▸ List.mem_map_of_mem he)

/-- Where keys are distinct, taking out a key takes out its one entry. -/
theorem perm_filter {l : List (κ × υ)} (hn : (l.map Prod.fst).Nodup) {e : κ × υ} (he : e ∈ l) :
    (e :: l.filter (·.1 ≠ e.1)).Perm l := by
  induction l with
  | nil => cases he
  | cons a l ih =>
    rw [List.map_cons, List.nodup_cons] at hn
    rcases List.mem_cons.mp he with rfl | he
    · rw [List.filter_cons_of_neg (by simp), filter_absent hn.1]
    · have hne : a.1 ≠ e.1 := fun h => hn.1 (h ▸ List.mem_map_of_mem he)
      rw [List.filter_cons_of_pos (by simpa using hne)]
      exact (List.Perm.swap a e _).trans ((ih hn.2 he).cons a)

theorem find_mem {l : List (κ × υ)} (hn : (l.map Prod.fst).Nodup) {e : κ × υ} (he : e ∈ l) :
    l.find? (·.1 = e.1) = some e := by
  induction l with
  | nil => cases he
  | cons a l ih =>
    rw [List.map_cons, List.nodup_cons] at hn
    rcases List.mem_cons.mp he with rfl | he
    · rw [List.find?_cons_of_pos (by simp)]
    · have hne : a.1 ≠ e.1 := fun h => hn.1 (h ▸ List.mem_map_of_mem he)
      rw [List.find?_cons_of_neg (by simpa using hne)]
      exact ih hn.2 he

end Assoc

/-! ## Lists and functions keep the promises -/

structure ListQueue (α : Type) where
  capacity : Nat
  items : List α
  fits : items.length ≤ capacity
  deriving Repr

instance : BoundedQueue ListQueue where
  new n := ⟨n, [], Nat.zero_le n⟩
  push q a :=
    if h : q.items.length < q.capacity then .ok ⟨q.capacity, q.items ++ [a], by rw [List.length_append]; exact h⟩ else .error a
  pop q :=
    match h : q.items with
    | [] => none
    | a :: l => some (a, ⟨q.capacity, l, by have := q.fits; rw [h, List.length_cons] at this; omega⟩)
  len q := q.items.length
  capacity q := q.capacity
  items q := q.items
  items_new _ := rfl
  capacity_new _ := rfl
  len_eq _ := rfl
  length_le q := q.fits
  push_full q a h := by rw [dif_neg (by omega)]
  push_room q a h := by rw [dif_pos h]; exact ⟨_, rfl, rfl, rfl⟩
  pop_nil q h := by split <;> simp_all
  pop_cons q a l h := by
    split
    · rename_i h'; rw [h] at h'; cases h'
    · rename_i h'; rw [h] at h'; cases h'; exact ⟨_, rfl, rfl, rfl⟩

structure ListCache (κ υ : Type) where
  entries : List (κ × υ)
  deriving Repr

instance : RecencyCache ListCache where
  unbounded := ⟨[]⟩
  put c k v := ⟨c.entries.filter (·.1 ≠ k) ++ [(k, v)]⟩
  pop c k := ((c.entries.find? (·.1 = k)).map (·.2), ⟨c.entries.filter (·.1 ≠ k)⟩)
  popLru c :=
    match c.entries with
    | [] => (none, c)
    | e :: l => (some e, ⟨l⟩)
  len c := c.entries.length
  entries c := c.entries
  entries_unbounded := rfl
  entries_put _ _ _ := rfl
  entries_pop _ _ := rfl
  popLru_nil c h := by simp only [h]
  popLru_cons c e l h := by simp only [h]; exact ⟨_, rfl, rfl⟩
  len_eq _ := rfl

structure FunMap (κ υ : Type) where
  entry : κ → Option υ

instance : SharedMap FunMap where
  new := ⟨fun _ => none⟩
  entry m k := m.entry k
  insert m k v :=
    match m.entry k with
    | some _ => .error v
    | none => .ok ⟨fun k' => if k' = k then some v else m.entry k'⟩
  update m k f := (m.entry k).map fun v => ⟨fun k' => if k' = k then some (f v) else m.entry k'⟩
  remove m k := (m.entry k).map fun v => (v, ⟨fun k' => if k' = k then none else m.entry k'⟩)
  entry_new _ := rfl
  insert_taken m k v w h := by simp only [h]
  insert_free m k v h := by simp only [h]; exact ⟨_, rfl, fun _ => rfl⟩
  update_none m k f h := by simp only [h]; rfl
  update_some m k f v h := by simp only [h]; exact ⟨_, rfl, fun _ => rfl⟩
  remove_none m k h := by simp only [h]; rfl
  remove_some m k v h := by simp only [h]; exact ⟨_, rfl, fun _ => rfl⟩

end Glaive.Lib
