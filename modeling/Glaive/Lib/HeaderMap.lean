/-
  Glaive.Lib.HeaderMap — a multimap that keeps its names in the order they first came,
  each with its values in order, as `http::HeaderMap` does. A name that is taken out
  leaves its place to the last one. A name has one entry (`nodup`), so walking the map
  gives each name's values together.

  The documentation of the crate leaves the order of a walk open. Besides the values of
  each name, what is proved of heads rests on two facts: the order depends on the names
  and the calls alone, not on the values, so maps that are changed alike walk alike
  (`shape_append`, …), and a map of the values goes through every change (`map_append`, …).
-/

import Mathlib.Data.List.Nodup

namespace Glaive.Lib

variable {κ α β : Type} [DecidableEq κ]

structure HeaderMap (κ α : Type) where
  entries : List (κ × List α)
  nodup : (entries.map Prod.fst).Nodup

namespace HeaderMap

/-! ## Entries -/

/-- Change the entry of `k`, or start one from `[]` at the end. -/
def change (k : κ) (f : List α → List α) : List (κ × List α) → List (κ × List α)
  | [] => [(k, f [])]
  | e :: es => if e.1 = k then (k, f e.2) :: es else e :: change k f es

def lookup (k : κ) : List (κ × List α) → List α
  | [] => []
  | e :: es => if e.1 = k then e.2 else lookup k es

theorem keys_change (k : κ) (f : List α → List α) : ∀ es : List (κ × List α),
    (change k f es).map Prod.fst = if k ∈ es.map Prod.fst then es.map Prod.fst else es.map Prod.fst ++ [k] := by
  intro es
  induction es with
  | nil => rfl
  | cons e es ih =>
    unfold change
    by_cases he : e.1 = k
    · simp [he]
    · have hne : ¬ k = e.1 := fun h => he h.symm
      rw [if_neg he, List.map_cons, ih, List.map_cons]
      by_cases hk : k ∈ es.map Prod.fst
      · rw [if_pos hk, if_pos (List.mem_cons_of_mem _ hk)]
      · rw [if_neg hk, if_neg (by rw [List.mem_cons]; rintro (h | h); exacts [hne h, hk h])]; rfl

theorem nodup_change (k : κ) (f : List α → List α) {es : List (κ × List α)} (h : (es.map Prod.fst).Nodup) :
    ((change k f es).map Prod.fst).Nodup := by
  rw [keys_change]
  split
  · exact h
  · rename_i hk
    rw [List.nodup_append]
    refine ⟨h, List.nodup_singleton k, ?_⟩
    intro a ha b hb
    rw [List.mem_singleton] at hb
    intro he
    subst he
    exact hk (hb ▸ ha)

theorem lookup_change_self (k : κ) (f : List α → List α) (es : List (κ × List α)) :
    lookup k (change k f es) = f (lookup k es) := by
  induction es with
  | nil => simp [change, lookup]
  | cons e es ih =>
    unfold change
    by_cases he : e.1 = k
    · simp [he, lookup]
    · rw [if_neg he, lookup, if_neg he, ih, lookup, if_neg he]

theorem lookup_change_ne {j k : κ} (h : j ≠ k) (f : List α → List α) (es : List (κ × List α)) :
    lookup j (change k f es) = lookup j es := by
  induction es with
  | nil => simp [change, lookup, Ne.symm h]
  | cons e es ih =>
    unfold change
    by_cases he : e.1 = k
    · have hj : e.1 ≠ j := fun hj => h (hj.symm.trans he)
      rw [if_pos he, lookup, lookup, if_neg (Ne.symm h), if_neg hj]
    · rw [if_neg he, lookup, lookup, ih]

theorem lookup_eq_nil {k : κ} {es : List (κ × List α)} (h : k ∉ es.map Prod.fst) : lookup k es = [] := by
  induction es with
  | nil => rfl
  | cons e es ih =>
    rw [List.map_cons, List.mem_cons, not_or] at h
    rw [lookup, if_neg (Ne.symm h.1), ih h.2]

theorem mem_of_mem_lookup {k : κ} {v : α} {es : List (κ × List α)} (h : v ∈ lookup k es) :
    (k, v) ∈ es.flatMap fun e => e.2.map (Prod.mk e.1) := by
  induction es with
  | nil => cases h
  | cons e es ih =>
    rw [List.flatMap_cons, List.mem_append]
    unfold lookup at h
    split at h
    · rename_i he
      exact Or.inl (List.mem_map.mpr ⟨v, h, by rw [he]⟩)
    · exact Or.inr (ih h)

theorem mem_change {k : κ} {f : List α → List α} {x : κ × α} : ∀ {es : List (κ × List α)},
    (x ∈ (change k f es).flatMap fun e => e.2.map (Prod.mk e.1)) →
    (x ∈ es.flatMap fun e => e.2.map (Prod.mk e.1)) ∨ x.1 = k ∧ x.2 ∈ f (lookup k es) := by
  intro es
  induction es with
  | nil =>
    intro h
    simp only [change, List.flatMap_cons, List.flatMap_nil, List.append_nil, List.mem_map] at h
    obtain ⟨v, hv, rfl⟩ := h
    exact Or.inr ⟨rfl, hv⟩
  | cons e es ih =>
    intro h
    rw [List.flatMap_cons, List.mem_append]
    unfold change at h
    by_cases he : e.1 = k
    · rw [if_pos he, List.flatMap_cons, List.mem_append] at h
      rcases h with h | h
      · obtain ⟨v, hv, rfl⟩ := List.mem_map.mp h
        exact Or.inr ⟨rfl, by rw [lookup, if_pos he]; exact hv⟩
      · exact Or.inl (Or.inr h)
    · rw [if_neg he, List.flatMap_cons, List.mem_append] at h
      rw [lookup, if_neg he]
      rcases h with h | h
      · exact Or.inl (Or.inl h)
      · rcases ih h with h | h
        · exact Or.inl (Or.inr h)
        · exact Or.inr h

/-- Take `k`'s entry out; the last one comes into its place. -/
def swapRemove {β : Type} (k : κ) : List (κ × β) → List (κ × β)
  | [] => []
  | e :: es => if e.1 = k then es.getLast?.toList ++ es.dropLast else e :: swapRemove k es

omit [DecidableEq κ] in
theorem last_first_perm {β : Type} (es : List β) : (es.getLast?.toList ++ es.dropLast).Perm es := by
  rcases List.eq_nil_or_concat es with rfl | ⟨l, x, rfl⟩
  · rfl
  · simpa using (List.perm_append_singleton x l).symm

theorem swapRemove_perm {β : Type} (k : κ) (es : List (κ × β)) : (swapRemove k es).Perm (es.eraseP (·.1 = k)) := by
  induction es with
  | nil => rfl
  | cons e es ih =>
    unfold swapRemove
    by_cases he : e.1 = k
    · rw [if_pos he, List.eraseP_cons_of_pos (by simpa using he)]
      exact last_first_perm es
    · rw [if_neg he, List.eraseP_cons_of_neg (by simpa using he)]
      exact ih.cons e

theorem mem_of_mem_swapRemove {β : Type} {k : κ} {es : List (κ × β)} {e : κ × β} (h : e ∈ swapRemove k es) : e ∈ es :=
  List.mem_of_mem_eraseP ((swapRemove_perm k es).mem_iff.mp h)

theorem nodup_swapRemove {β : Type} (k : κ) {es : List (κ × β)} (h : (es.map Prod.fst).Nodup) :
    ((swapRemove k es).map Prod.fst).Nodup :=
  ((swapRemove_perm k es).map Prod.fst).nodup_iff.mpr ((List.eraseP_sublist.map Prod.fst).nodup h)

/-- Where keys are distinct, the order of the entries does not matter. -/
theorem lookup_of_mem {k : κ} {vs : List α} {es : List (κ × List α)} (hn : (es.map Prod.fst).Nodup)
    (h : (k, vs) ∈ es) : lookup k es = vs := by
  induction es with
  | nil => cases h
  | cons e es ih =>
    rw [List.map_cons, List.nodup_cons] at hn
    rcases List.mem_cons.mp h with rfl | h
    · rw [lookup, if_pos rfl]
    · have hne : e.1 ≠ k := fun he => hn.1 (he ▸ List.mem_map_of_mem h)
      rw [lookup, if_neg hne, ih hn.2 h]

theorem lookup_swapRemove (j k : κ) {es : List (κ × List α)} (hn : (es.map Prod.fst).Nodup) :
    lookup j (swapRemove k es) = if j = k then [] else lookup j es := by
  have hperm := swapRemove_perm k es
  by_cases hj : j = k
  · subst hj
    rw [if_pos rfl]
    refine lookup_eq_nil fun hm => ?_
    rw [(hperm.map Prod.fst).mem_iff] at hm
    have hkeys : ((es.eraseP (·.1 = j)).map Prod.fst) = (es.map Prod.fst).erase j := by
      rw [List.erase_eq_eraseP, List.eraseP_map]
      congr 1
      refine congrArg (fun p => es.eraseP p) (funext fun e => ?_)
      rw [Function.comp_apply, BEq.comm]
      rfl
    rw [hkeys, hn.mem_erase_iff] at hm
    exact hm.1 rfl
  · rw [if_neg hj]
    by_cases hin : j ∈ es.map Prod.fst
    · obtain ⟨e, he, rfl⟩ := List.mem_map.mp hin
      have hmem : e ∈ swapRemove k es :=
        hperm.mem_iff.mpr ((List.mem_eraseP_of_neg (by simpa using hj)).mpr he)
      rw [lookup_of_mem hn he, lookup_of_mem (nodup_swapRemove k hn) hmem]
    · rw [lookup_eq_nil hin, lookup_eq_nil]
      intro hm
      obtain ⟨e, he, rfl⟩ := List.mem_map.mp hm
      exact hin (List.mem_map_of_mem (mem_of_mem_swapRemove he))

theorem map_swapRemove {β γ : Type} (k : κ) (f : β → γ) (es : List (κ × β)) :
    (swapRemove k es).map (fun e => (e.1, f e.2)) = swapRemove k (es.map fun e => (e.1, f e.2)) := by
  induction es with
  | nil => rfl
  | cons e es ih =>
    rw [List.map_cons]
    unfold swapRemove
    by_cases he : e.1 = k
    · rw [if_pos he, if_pos he, List.map_append, List.getLast?_map, List.map_dropLast]
      cases es.getLast? <;> rfl
    · rw [if_neg he, if_neg he, List.map_cons, ih]

theorem map_change (k : κ) (f : List α → List α) (g : List β → List β) (h : α → β)
    (hfg : ∀ l, (f l).map h = g (l.map h)) (es : List (κ × List α)) :
    (change k f es).map (fun e => (e.1, e.2.map h)) = change k g (es.map fun e => (e.1, e.2.map h)) := by
  induction es with
  | nil => simp [change, hfg]
  | cons e es ih =>
    rw [List.map_cons]
    unfold change
    by_cases he : e.1 = k
    · rw [if_pos he, if_pos he, List.map_cons, hfg]
    · rw [if_neg he, if_neg he, List.map_cons, ih]

/-! ## The map -/

def empty : HeaderMap κ α := ⟨[], List.nodup_nil⟩

/-- Add a value to `k`'s. -/
def append (m : HeaderMap κ α) (k : κ) (v : α) : HeaderMap κ α :=
  ⟨change k (· ++ [v]) m.entries, nodup_change k _ m.nodup⟩

/-- Make `v` the only value of `k`, in `k`'s place. -/
def insert (m : HeaderMap κ α) (k : κ) (v : α) : HeaderMap κ α :=
  ⟨change k (fun _ => [v]) m.entries, nodup_change k _ m.nodup⟩

/-- Take `k` out with its values. -/
def remove (m : HeaderMap κ α) (k : κ) : HeaderMap κ α := ⟨swapRemove k m.entries, nodup_swapRemove k m.nodup⟩

def getAll (m : HeaderMap κ α) (k : κ) : List α := lookup k m.entries

def get (m : HeaderMap κ α) (k : κ) : Option α := (m.getAll k).head?

def iter (m : HeaderMap κ α) : List (κ × α) := m.entries.flatMap fun e => e.2.map (Prod.mk e.1)

/-- Each name with how many values it has. -/
def shape (m : HeaderMap κ α) : List (κ × Nat) := m.entries.map fun e => (e.1, e.2.length)

theorem getAll_append_self (m : HeaderMap κ α) (k : κ) (v : α) : (m.append k v).getAll k = m.getAll k ++ [v] :=
  lookup_change_self k _ _

theorem getAll_append_ne (m : HeaderMap κ α) {j k : κ} (h : j ≠ k) (v : α) :
    (m.append k v).getAll j = m.getAll j := lookup_change_ne h _ _

theorem getAll_insert_ne (m : HeaderMap κ α) {j k : κ} (h : j ≠ k) (v : α) :
    (m.insert k v).getAll j = m.getAll j := lookup_change_ne h _ _

theorem getAll_insert_self (m : HeaderMap κ α) (k : κ) (v : α) : (m.insert k v).getAll k = [v] :=
  lookup_change_self k _ _

theorem getAll_remove (m : HeaderMap κ α) (j k : κ) : (m.remove k).getAll j = if j = k then [] else m.getAll j :=
  lookup_swapRemove j k m.nodup

theorem get_insert_ne (m : HeaderMap κ α) {j k : κ} (h : j ≠ k) (v : α) : (m.insert k v).get j = m.get j := by
  unfold get; rw [getAll_insert_ne m h]

theorem mem_iter_append {m : HeaderMap κ α} {k : κ} {v : α} {x : κ × α} (h : x ∈ (m.append k v).iter) :
    x ∈ m.iter ∨ x = (k, v) := by
  rcases mem_change h with h | ⟨h1, h2⟩
  · exact Or.inl h
  · rcases List.mem_append.mp h2 with h2 | h2
    · obtain ⟨a, b⟩ := x
      obtain rfl : a = k := h1
      exact Or.inl (mem_of_mem_lookup h2)
    · exact Or.inr (Prod.ext h1 (List.mem_singleton.mp h2))

theorem mem_iter_insert {m : HeaderMap κ α} {k : κ} {v : α} {x : κ × α} (h : x ∈ (m.insert k v).iter) :
    x ∈ m.iter ∨ x = (k, v) := by
  rcases mem_change h with h | ⟨h1, h2⟩
  · exact Or.inl h
  · exact Or.inr (Prod.ext h1 (List.mem_singleton.mp h2))

theorem mem_iter_remove {m : HeaderMap κ α} {k : κ} {x : κ × α} (h : x ∈ (m.remove k).iter) : x ∈ m.iter := by
  obtain ⟨e, he, hx⟩ := List.mem_flatMap.mp h
  exact List.mem_flatMap.mpr ⟨e, mem_of_mem_swapRemove he, hx⟩

/-! ## The values mapped -/

def map (f : α → β) (m : HeaderMap κ α) : HeaderMap κ β where
  entries := m.entries.map fun e => (e.1, e.2.map f)
  nodup := by rw [List.map_map]; exact m.nodup

omit [DecidableEq κ] in
theorem ext_entries {m m' : HeaderMap κ α} (h : m.entries = m'.entries) : m = m' := by
  cases m
  cases m'
  cases h
  rfl

theorem map_append (f : α → β) (m : HeaderMap κ α) (k : κ) (v : α) : (m.append k v).map f = (m.map f).append k (f v) :=
  ext_entries (map_change k _ _ f (fun l => by simp) m.entries)

theorem map_insert (f : α → β) (m : HeaderMap κ α) (k : κ) (v : α) : (m.insert k v).map f = (m.map f).insert k (f v) :=
  ext_entries (map_change k _ _ f (fun _ => rfl) m.entries)

theorem map_remove (f : α → β) (m : HeaderMap κ α) (k : κ) : (m.remove k).map f = (m.map f).remove k :=
  ext_entries (map_swapRemove k (List.map f) m.entries)

omit [DecidableEq κ] in
theorem iter_map (f : α → β) (m : HeaderMap κ α) : (m.map f).iter = m.iter.map fun e => (e.1, f e.2) := by
  simp [iter, map, List.map_flatMap, List.flatMap_map, Function.comp_def]

/-! ## Two maps changed alike walk alike -/

theorem shape_change (k : κ) (f : List α → List α) (g : List β → List β)
    (hfg : ∀ a b, a.length = b.length → (f a).length = (g b).length) :
    ∀ (es : List (κ × List α)) (ds : List (κ × List β)),
      es.map (fun e => (e.1, e.2.length)) = ds.map (fun e => (e.1, e.2.length)) →
      (change k f es).map (fun e => (e.1, e.2.length)) = (change k g ds).map (fun e => (e.1, e.2.length)) := by
  intro es
  induction es with
  | nil =>
    intro ds h
    obtain rfl : ds = [] := by simpa using h.symm
    simp [change, hfg [] [] rfl]
  | cons e es ih =>
    intro ds h
    cases ds with
    | nil => simp at h
    | cons d ds =>
      simp only [List.map_cons, List.cons.injEq, Prod.mk.injEq] at h
      obtain ⟨⟨h1, h2⟩, h3⟩ := h
      unfold change
      by_cases he : e.1 = k
      · rw [if_pos he, if_pos (h1 ▸ he), List.map_cons, List.map_cons, hfg _ _ h2, h3]
      · rw [if_neg he, if_neg (h1 ▸ he), List.map_cons, List.map_cons, ih ds h3, h1, h2]

theorem shape_append {m : HeaderMap κ α} {m' : HeaderMap κ β} (h : m.shape = m'.shape) (k : κ) (v : α) (w : β) :
    (m.append k v).shape = (m'.append k w).shape :=
  shape_change k _ _ (by intro a b hab; simp [hab]) _ _ h

theorem shape_insert {m : HeaderMap κ α} {m' : HeaderMap κ β} (h : m.shape = m'.shape) (k : κ) (v : α) (w : β) :
    (m.insert k v).shape = (m'.insert k w).shape :=
  shape_change k _ _ (by intro a b _; rfl) _ _ h

theorem shape_remove {m : HeaderMap κ α} {m' : HeaderMap κ β} (h : m.shape = m'.shape) (k : κ) :
    (m.remove k).shape = (m'.remove k).shape := by
  unfold shape at h ⊢
  rw [remove, remove, map_swapRemove, map_swapRemove, h]

omit [DecidableEq κ] in
theorem iter_keys (m : HeaderMap κ α) : m.iter.map Prod.fst = m.shape.flatMap fun e => List.replicate e.2 e.1 := by
  unfold iter shape
  induction m.entries with
  | nil => rfl
  | cons e es ih => simp [ih, Function.comp_def, List.map_const']

omit [DecidableEq κ] in
theorem iter_keys_eq {m : HeaderMap κ α} {m' : HeaderMap κ β} (h : m.shape = m'.shape) :
    m.iter.map Prod.fst = m'.iter.map Prod.fst := by rw [iter_keys, iter_keys, h]

/-- The values a walk gives for a name are its values. -/
theorem getAll_eq_iter (m : HeaderMap κ α) (k : κ) :
    (m.iter.filter (fun e => e.1 = k)).map Prod.snd = m.getAll k := by
  obtain ⟨es, hn⟩ := m
  unfold iter getAll
  induction es with
  | nil => rfl
  | cons e es ih =>
    rw [List.map_cons, List.nodup_cons] at hn
    have ih := ih hn.2
    simp only at ih ⊢
    rw [List.flatMap_cons, List.filter_append, List.map_append, ih, lookup]
    by_cases he : e.1 = k
    · rw [if_pos he, lookup_eq_nil (he ▸ hn.1), List.append_nil, List.filter_map]
      simp [he, Function.comp_def]
    · rw [if_neg he, List.filter_map]
      simp [he, Function.comp_def]

end HeaderMap

end Glaive.Lib
