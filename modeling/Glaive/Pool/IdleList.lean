/-
  Glaive.Pool.IdleList — the pool as one worker thread sees it: a list of the idle
  connections in the order they came (see `Glaive.Pool.Pool`).

  `IdleStep` says what a call does to that list. The cache of the thread is the list
  with its order, the nodes are the list cut by group with none (`Represents`), and
  every call keeps the two together (`call_refines`).
-/

import Glaive.Pool.Pool

namespace Glaive.Pool

open Glaive.Lib

/-! ## What the pool is for -/

/-- A connection nobody uses, under the metadata it was added with. -/
structure Idle (S : Type) where
  metadata : ConnectionMetadata
  connection : S

inductive Call (S : Type) where
  | add (m : ConnectionMetadata) (connection : S)
  /-- `first` is where an iteration of the map of the node starts. -/
  | find (g : ConnectionGroupId) (first : Nat)
  | close (m : ConnectionMetadata)

variable {S : Type}

/-- A call, and what it returns, on a list of at most `n` idle connections. -/
inductive IdleStep (n : Nat) : List (Idle S) → Call S → Option S → List (Idle S) → Prop
  | add {l : List (Idle S)} {m : ConnectionMetadata} {c : S} : l.length < n →
      IdleStep n l (.add m c) none (l ++ [⟨m, c⟩])
  | addOver {oldest : Idle S} {l : List (Idle S)} {m : ConnectionMetadata} {c : S} : (oldest :: l).length = n →
      IdleStep n (oldest :: l) (.add m c) none (l ++ [⟨m, c⟩])
  | find {older newer : List (Idle S)} {i : Idle S} {first : Nat} :
      IdleStep n (older ++ i :: newer) (.find i.metadata.groupId first) (some i.connection) (older ++ newer)
  | findNone {l : List (Idle S)} {g : ConnectionGroupId} {first : Nat} : (∀ i ∈ l, i.metadata.groupId ≠ g) →
      IdleStep n l (.find g first) none l
  | close {l : List (Idle S)} {m : ConnectionMetadata} :
      IdleStep n l (.close m) none (l.filter (·.metadata.uniqueId ≠ m.uniqueId))

inductive IdleRun (n : Nat) : List (Idle S) → List (Call S) → List (Option S) → List (Idle S) → Prop
  | nil (l : List (Idle S)) : IdleRun n l [] [] l
  | cons {l l' l'' : List (Idle S)} {c : Call S} {o : Option S} {cs : List (Call S)} {os : List (Option S)} :
      IdleStep n l c o l' → IdleRun n l' cs os l'' → IdleRun n l (c :: cs) (o :: os) l''

/-- The connections of a group, by id. -/
def contents (l : List (Idle S)) (g : ConnectionGroupId) : List (ConnectionId × S) :=
  (l.filter (·.metadata.groupId = g)).map fun i => (i.metadata.uniqueId, i.connection)

theorem contents_append (a b : List (Idle S)) (g : ConnectionGroupId) :
    contents (a ++ b) g = contents a g ++ contents b g := by
  simp only [contents, List.filter_append, List.map_append]

theorem mem_contents {l : List (Idle S)} {g : ConnectionGroupId} {id : ConnectionId} {c : S} :
    (id, c) ∈ contents l g ↔ ∃ i ∈ l, i.metadata.groupId = g ∧ i.metadata.uniqueId = id ∧ i.connection = c := by
  simp only [contents, List.mem_map, List.mem_filter, decide_eq_true_eq, Prod.mk.injEq]
  constructor
  · rintro ⟨i, ⟨h1, h2⟩, h3, h4⟩; exact ⟨i, h1, h2, h3, h4⟩
  · rintro ⟨i, h1, h2, h3, h4⟩; exact ⟨i, ⟨h1, h2⟩, h3, h4⟩

theorem mem_keys_contents {l : List (Idle S)} {g : ConnectionGroupId} {id : ConnectionId} :
    id ∈ (contents l g).map Prod.fst ↔ ∃ i ∈ l, i.metadata.groupId = g ∧ i.metadata.uniqueId = id := by
  simp only [List.mem_map, Prod.exists, exists_and_right, exists_eq_right, mem_contents]
  constructor
  · rintro ⟨c, i, h1, h2, h3, -⟩; exact ⟨i, h1, h2, h3⟩
  · rintro ⟨i, h1, h2, h3⟩; exact ⟨i.connection, i, h1, h2, h3, rfl⟩

/-- The list without one id. -/
def without (l : List (Idle S)) (id : ConnectionId) : List (Idle S) := l.filter (·.metadata.uniqueId ≠ id)

theorem contents_without (l : List (Idle S)) (id : ConnectionId) (g : ConnectionGroupId) :
    contents (without l id) g = (contents l g).filter (·.1 ≠ id) := by
  unfold contents without
  rw [List.filter_map, List.filter_filter, List.filter_filter]
  congr 1
  apply List.filter_congr
  intro i _
  simp only [Function.comp_apply, Bool.and_comm]

theorem without_absent {l : List (Idle S)} {id : ConnectionId} (h : id ∉ l.map (·.metadata.uniqueId)) :
    without l id = l := by
  unfold without
  rw [List.filter_eq_self]
  intro i hi
  simp only [ne_eq, decide_not, Bool.not_eq_eq_eq_not, Bool.not_true, decide_eq_false_iff_not]
  intro he
  exact h (he ▸ List.mem_map_of_mem hi)

theorem without_append (a b : List (Idle S)) (id : ConnectionId) :
    without (a ++ b) id = without a id ++ without b id := List.filter_append ..

/-- Where ids are distinct, one entry goes. -/
theorem without_middle {older newer : List (Idle S)} {i : Idle S}
    (h : ((older ++ i :: newer).map (·.metadata.uniqueId)).Nodup) :
    without (older ++ i :: newer) i.metadata.uniqueId = older ++ newer := by
  rw [List.map_append, List.map_cons, List.nodup_middle, List.nodup_cons, List.mem_append, not_or] at h
  have hi : without (i :: newer) i.metadata.uniqueId = without newer i.metadata.uniqueId :=
    List.filter_cons_of_neg (by simp)
  rw [without_append, hi, without_absent h.1.1, without_absent h.1.2]

/-! ## The pool stands for the list -/

namespace ConnectionPool

variable {Q : Type → Type} [BoundedQueue Q] {C : Type → Type → Type}

section

variable {p p' : ConnectionPool Q C S} {l : List (Idle S)}

/-- Taking the connection with an id out of its group. -/
theorem nodes_without (h : ∀ g, (p.held g).Perm (contents l g)) {g : ConnectionGroupId} {id : ConnectionId}
    (hch : Changes p p' g ((p.held g).filter (·.1 ≠ id)))
    (hg : ∀ i ∈ l, i.metadata.uniqueId = id → i.metadata.groupId = g) :
    ∀ g', (p'.held g').Perm (contents (without l id) g') := by
  intro g'
  rw [contents_without]
  by_cases he : g' = g
  · subst he
    exact hch.here.trans ((h g').filter _)
  · rw [hch.elsewhere g' he, Assoc.filter_absent]
    · exact h g'
    · rw [mem_keys_contents]
      intro h
      rcases h with ⟨i, hi, h1, h2⟩
      exact he (h1.symm.trans (hg i hi h2))

/-- Putting a connection into its group. -/
theorem nodes_add (h : ∀ g, (p.held g).Perm (contents l g)) {m : ConnectionMetadata} {c : S}
    (hch : Changes p p' m.groupId ((m.uniqueId, c) :: p.held m.groupId)) :
    ∀ g, (p'.held g).Perm (contents (l ++ [⟨m, c⟩]) g) := by
  intro g
  rw [contents_append]
  by_cases he : g = m.groupId
  · subst he
    have hone : contents [(⟨m, c⟩ : Idle S)] m.groupId = [(m.uniqueId, c)] := by simp [contents]
    rw [hone]
    exact (hch.here.trans ((h _).cons _)).trans (List.perm_append_singleton _ _).symm
  · have hnone : contents [(⟨m, c⟩ : Idle S)] g = [] := by simp [contents, Ne.symm he]
    rw [hnone, List.append_nil, hch.elsewhere g he]
    exact h g

end

variable [RecencyCache C]

/-- A call by the thread `t`, and what it returns. -/
def call (t : ThreadId) (p : ConnectionPool Q C S) : Call S → Option (Option S × ConnectionPool Q C S)
  | .add m c => (p.addConnectionToPool t m c).map (none, ·)
  | .find g first => some (p.getConnectionFromPool t g first)
  | .close m => (p.removeConnection t m).map (none, ·)

/-- An add brings an id that is not in the pool; a close names the group the connection
    of its id is in, if there is one. -/
def Allowed (p : ConnectionPool Q C S) : Call S → Prop
  | .add m _ => ∀ g, m.uniqueId ∉ (p.held g).map Prod.fst
  | .find _ _ => True
  | .close m => ∀ g, m.uniqueId ∈ (p.held g).map Prod.fst → g = m.groupId

structure Represents (n : Nat) (t : ThreadId) (p : ConnectionPool Q C S) (l : List (Idle S)) : Prop where
  lru : p.cached t = l.map fun i => (i.metadata.uniqueId, i.metadata)
  nodes : ∀ g, (p.held g).Perm (contents l g)
  distinct : (l.map (·.metadata.uniqueId)).Nodup
  bound : l.length ≤ n

/-- The nodes are sound and no drain is under way. -/
structure Ready (n : Nat) (p : ConnectionPool Q C S) : Prop where
  sound : p.Sound
  size : p.lru.sizeCapacity = n
  open_ : p.lru.drainStatusFlag = false

theorem ready_new (n : Nat) : (new n : ConnectionPool Q C S).Ready n := ⟨nofun, rfl, rfl⟩

theorem represents_new (n : Nat) (t : ThreadId) : Represents n t (new n : ConnectionPool Q C S) [] :=
  ⟨RecencyCache.entries_unbounded, fun _ => List.Perm.refl _, List.nodup_nil, Nat.zero_le n⟩

variable {n : Nat} {t : ThreadId} {p p' : ConnectionPool Q C S} {l : List (Idle S)}

theorem Represents.mem_keys (h : Represents n t p l) {g : ConnectionGroupId} {id : ConnectionId} :
    id ∈ (p.held g).map Prod.fst ↔ ∃ i ∈ l, i.metadata.groupId = g ∧ i.metadata.uniqueId = id := by
  rw [((h.nodes g).map Prod.fst).mem_iff, mem_keys_contents]

/-- What leaves the cache leaves the list. -/
theorem Represents.pop (h : Represents n t p l) {id : ConnectionId} (hlru : p'.lru = p.lru.popConnection t id)
    (hnodes : ∀ g, (p'.held g).Perm (contents (without l id) g)) : Represents n t p' (without l id) where
  lru := by
    unfold cached ConnectionLru.popConnection at *
    rw [hlru, ConnectionLru.setStore_same, RecencyCache.entries_pop, ← cached, h.lru, List.filter_map]
    rfl
  nodes := hnodes
  distinct := (List.filter_sublist.map _).nodup h.distinct
  bound := Nat.le_trans (List.length_filter_le _ _) h.bound

theorem Represents.find_refines (h : Represents n t p l) (hr : p.Ready n) (g : ConnectionGroupId) (first : Nat) :
    ∃ o p' l', p.call t (.find g first) = some (o, p') ∧ IdleStep n l (.find g first) o l' ∧ p'.Ready n ∧
      Represents n t p' l' := by
  simp only [call]
  rcases getConnectionFromPool_spec hr.sound t g first with ⟨he, p', hget, hlru, hch⟩ | ⟨id, c, p', hget, hlru, rest, hperm, hch⟩
  · rw [hget]
    have hnone : ∀ i ∈ l, i.metadata.groupId ≠ g := by
      intro i hi hg
      have := h.mem_keys.mpr ⟨i, hi, hg, rfl⟩
      rw [he] at this
      cases this
    refine ⟨none, p', l, rfl, .findNone hnone, ⟨hch.sound, by rw [hlru]; exact hr.size, by rw [hlru]; exact hr.open_⟩,
      by rw [cached, hlru]; exact h.lru, fun g' => ?_, h.distinct, h.bound⟩
    by_cases hg' : g' = g
    · subst hg'
      have := h.nodes g'
      rw [he] at this
      exact hch.here.trans this
    · rw [hch.elsewhere g' hg']; exact h.nodes g'
  · rw [hget]
    have hmem : (id, c) ∈ contents l g := (hperm.trans (h.nodes g)).subset (List.mem_cons_self ..)
    obtain ⟨i, hi, rfl, rfl, rfl⟩ := mem_contents.mp hmem
    obtain ⟨older, newer, rfl⟩ := List.append_of_mem hi
    -- the rest of the group is the group without this id
    have hkeys := (hperm.map Prod.fst).nodup_iff.mpr (hr.sound.nodup i.metadata.groupId)
    rw [List.map_cons, List.nodup_cons] at hkeys
    have hrest : rest.Perm ((p.held i.metadata.groupId).filter (·.1 ≠ i.metadata.uniqueId)) := by
      have := hperm.filter (·.1 ≠ i.metadata.uniqueId)
      rwa [List.filter_cons_of_neg (by simp), Assoc.filter_absent hkeys.1] at this
    have hgroup : ∀ j ∈ older ++ i :: newer, j.metadata.uniqueId = i.metadata.uniqueId →
        j.metadata.groupId = i.metadata.groupId := by
      intro j hj hid
      rw [List.inj_on_of_nodup_map h.distinct hj hi hid]
    refine ⟨_, p', older ++ newer, rfl, .find, ⟨hch.sound, by rw [hlru]; exact hr.size, by rw [hlru]; exact hr.open_⟩, ?_⟩
    rw [← without_middle h.distinct]
    exact h.pop hlru (nodes_without h.nodes (hch.perm hrest) hgroup)

theorem Represents.close_refines (h : Represents n t p l) (hr : p.Ready n) {m : ConnectionMetadata}
    (ha : p.Allowed (.close m : Call S)) :
    ∃ o p' l', p.call t (.close m) = some (o, p') ∧ IdleStep n l (.close m) o l' ∧ p'.Ready n ∧
      Represents n t p' l' := by
  obtain ⟨p', hp, hlru, hch⟩ := removeConnection_spec hr.sound t m
  simp only [call, hp]
  refine ⟨none, p', without l m.uniqueId, rfl, .close,
    ⟨hch.sound, by rw [hlru]; exact hr.size, by rw [hlru]; exact hr.open_⟩, h.pop hlru (nodes_without h.nodes hch ?_)⟩
  intro i hi hid
  exact ha _ (h.mem_keys.mpr ⟨i, hi, rfl, hid⟩)

/-- The cache with one more entry is the list with one more connection. -/
theorem Represents.inserted (h : Represents n t p l) {m : ConnectionMetadata} {c : S}
    (ha : p.Allowed (.add m c)) :
    m.uniqueId ∉ l.map (·.metadata.uniqueId) ∧
      p.lru.inserted t m.uniqueId m = (l ++ [Idle.mk m c]).map fun i => (i.metadata.uniqueId, i.metadata) := by
  have habs : m.uniqueId ∉ l.map (·.metadata.uniqueId) := by
    intro hm
    obtain ⟨i, hi, hid⟩ := List.mem_map.mp hm
    exact ha i.metadata.groupId (h.mem_keys.mpr ⟨i, hi, rfl, hid⟩)
  refine ⟨habs, ?_⟩
  unfold ConnectionLru.inserted
  rw [← cached, h.lru, Assoc.filter_absent (by rw [List.map_map]; exact habs), List.map_append]
  rfl

theorem nodup_snoc {m : ConnectionMetadata} {c : S} (hd : (l.map (·.metadata.uniqueId)).Nodup)
    (habs : m.uniqueId ∉ l.map (·.metadata.uniqueId)) : ((l ++ [Idle.mk m c]).map (·.metadata.uniqueId)).Nodup := by
  rw [List.map_append, List.nodup_append]
  refine ⟨hd, List.nodup_singleton _, fun a ha b hb => ?_⟩
  rw [List.map_singleton, List.mem_singleton] at hb
  intro he
  subst he
  exact habs (hb ▸ ha)

theorem Represents.add_refines (h : Represents n t p l) (hr : p.Ready n) (hn : 0 < n) {m : ConnectionMetadata} {c : S}
    (ha : p.Allowed (.add m c)) :
    ∃ o p' l', p.call t (.add m c) = some (o, p') ∧ IdleStep n l (.add m c) o l' ∧ p'.Ready n ∧
      Represents n t p' l' := by
  obtain ⟨habs, hins⟩ := h.inserted ha
  obtain ⟨cache, hput, hcache⟩ := ConnectionLru.insertConnection_spec hr.open_ t m.uniqueId m
  rw [hr.size, hins, List.length_map, List.length_append, List.length_singleton] at hput hcache
  simp only [call, addConnectionToPool]
  rw [hput]
  have hbound := h.bound
  by_cases hroom : l.length < n
  · rw [if_neg (by omega)] at hcache
    simp only [if_neg (show ¬ n < l.length + 1 by omega), Option.bind_some]
    obtain ⟨p', hp, hlru, hch⟩ := addToNode_spec (p := { p with lru := p.lru.setStore t cache }) hr.sound (ha _) c
    rw [hp]
    refine ⟨none, p', l ++ [⟨m, c⟩], rfl, .add hroom,
      ⟨hch.sound, by rw [hlru]; exact hr.size, by rw [hlru]; exact hr.open_⟩, ?_,
      nodes_add (p := { p with lru := p.lru.setStore t cache }) h.nodes hch,
      nodup_snoc h.distinct habs, by rw [List.length_append, List.length_singleton]; omega⟩
    rw [cached, hlru, ConnectionLru.setStore_same]
    exact hcache
  · -- the list is full: its oldest entry goes first
    cases l with
    | nil => rw [List.length_nil] at hroom; omega
    | cons oldest rest =>
      rw [if_pos (by omega)] at hcache
      simp only [if_pos (show n < (oldest :: rest).length + 1 by omega), List.cons_append, List.map_cons,
        List.head?_cons, Option.map_some]
      obtain ⟨p1, hp1, hlru1, hch1⟩ := removeConnectionFromPool_spec (p := { p with lru := p.lru.setStore t cache })
        hr.sound oldest.metadata
      have hwithout : without ([] ++ oldest :: rest) oldest.metadata.uniqueId = [] ++ rest := without_middle h.distinct
      rw [List.nil_append, List.nil_append] at hwithout
      have hnodes := nodes_without (p := { p with lru := p.lru.setStore t cache }) h.nodes hch1 (fun i hi hid => by
        rw [List.inj_on_of_nodup_map h.distinct hi (List.mem_cons_self ..) hid])
      rw [hwithout] at hnodes
      have hdistinct := h.distinct
      rw [List.map_cons, List.nodup_cons] at hdistinct
      have habs' : m.uniqueId ∉ rest.map (·.metadata.uniqueId) := fun hm => habs (List.mem_cons_of_mem _ hm)
      have hid : m.uniqueId ∉ (p1.held m.groupId).map Prod.fst := by
        rw [((hnodes m.groupId).map Prod.fst).mem_iff, mem_keys_contents]
        intro h
        rcases h with ⟨i, hi, -, hid⟩
        exact habs' (hid ▸ List.mem_map_of_mem hi)
      obtain ⟨p', hp, hlru, hch⟩ := addToNode_spec hch1.sound hid c
      rw [hp1, Option.bind_some, hp]
      refine ⟨none, p', rest ++ [⟨m, c⟩], rfl, .addOver (by omega),
        ⟨hch.sound, by rw [hlru, hlru1]; exact hr.size, by rw [hlru, hlru1]; exact hr.open_⟩, ?_,
        nodes_add hnodes hch, nodup_snoc hdistinct.2 habs',
        by rw [List.length_cons] at hbound; rw [List.length_append, List.length_singleton]; exact hbound⟩
      rw [cached, hlru, hlru1, ConnectionLru.setStore_same]
      exact hcache

/-- One call keeps the pool and the list together, and returns what the list says. -/
theorem Represents.call_refines (h : Represents n t p l) (hr : p.Ready n) (hn : 0 < n) {c : Call S}
    (ha : p.Allowed c) :
    ∃ o p' l', p.call t c = some (o, p') ∧ IdleStep n l c o l' ∧ p'.Ready n ∧ Represents n t p' l' := by
  cases c with
  | add m c => exact h.add_refines hr hn ha
  | find g first => exact h.find_refines hr g first
  | close m => exact h.close_refines hr ha

/-! ## Runs -/

/-- Calls one after the other, by the thread `t`: what they return, and the pool they
    leave. `none` when one never returns. -/
def serve (t : ThreadId) : List (Call S) → ConnectionPool Q C S → Option (List (Option S) × ConnectionPool Q C S)
  | [], p => some ([], p)
  | c :: cs, p => (p.call t c).bind fun (o, p) => (serve t cs p).map fun (os, p) => (o :: os, p)

/-- Each call is allowed where it is made. -/
def Proper (t : ThreadId) : List (Call S) → ConnectionPool Q C S → Prop
  | [], _ => True
  | c :: cs, p => p.Allowed c ∧ ∀ o p', p.call t c = some (o, p') → Proper t cs p'

theorem serve_refines (hn : 0 < n) (t : ThreadId) : ∀ (calls : List (Call S)) {p : ConnectionPool Q C S}
    {l : List (Idle S)}, Represents n t p l → p.Ready n → Proper t calls p →
    ∃ outs p' l', serve t calls p = some (outs, p') ∧ IdleRun n l calls outs l' ∧ Represents n t p' l' := by
  intro calls
  induction calls with
  | nil => intro p l h _ _; exact ⟨[], p, l, rfl, .nil l, h⟩
  | cons c calls ih =>
    intro p l h hr ⟨ha, hproper⟩
    obtain ⟨o, p1, l1, hcall, hstep, hr1, h1⟩ := h.call_refines hr hn ha
    obtain ⟨outs, p', l', hserve, hrun, h'⟩ := ih h1 hr1 (hproper o p1 hcall)
    refine ⟨o :: outs, p', l', ?_, .cons hstep hrun, h'⟩
    simp only [serve, hcall, Option.bind_some, hserve, Option.map_some]

/-- The ids in the cache of the thread are the ids in the nodes, each once. -/
structure SameIds (t : ThreadId) (p : ConnectionPool Q C S) : Prop where
  cachedOnce : ((p.cached t).map Prod.fst).Nodup
  heldOnce : ∀ g, ((p.held g).map Prod.fst).Nodup
  oneGroup : ∀ g g' id, id ∈ (p.held g).map Prod.fst → id ∈ (p.held g').map Prod.fst → g = g'
  same : ∀ id, id ∈ (p.cached t).map Prod.fst ↔ ∃ g, id ∈ (p.held g).map Prod.fst

theorem Represents.sameIds (h : Represents n t p l) : SameIds t p where
  cachedOnce := by rw [h.lru, List.map_map]; exact h.distinct
  heldOnce g := by
    rw [((h.nodes g).map Prod.fst).nodup_iff, contents, List.map_map]
    exact (List.filter_sublist.map _).nodup h.distinct
  oneGroup g g' id hg hg' := by
    obtain ⟨i, hi, rfl, rfl⟩ := h.mem_keys.mp hg
    obtain ⟨j, hj, rfl, hid⟩ := h.mem_keys.mp hg'
    rw [List.inj_on_of_nodup_map h.distinct hj hi hid]
  same id := by
    rw [h.lru, List.map_map, List.mem_map]
    constructor
    · intro h
      rcases h with ⟨i, hi, rfl⟩
      exact ⟨i.metadata.groupId, h.mem_keys.mpr ⟨i, hi, rfl, rfl⟩⟩
    · intro h
      rcases h with ⟨g, hg⟩
      obtain ⟨i, hi, -, hid⟩ := h.mem_keys.mp hg
      exact ⟨i, hi, hid⟩

/-- However one thread calls the pool, every call returns, and the pool is the list of
    idle connections: what is returned is what the list says, the cache holds its ids in
    its order, the nodes hold its connections, and it never outgrows the capacity. -/
theorem pool_is_idle_list (hn : 0 < n) (t : ThreadId) (calls : List (Call S))
    (h : Proper t calls (new n : ConnectionPool Q C S)) :
    ∃ outs p l, serve t calls (new n : ConnectionPool Q C S) = some (outs, p) ∧ IdleRun n [] calls outs l ∧
      Represents n t p l ∧ SameIds t p := by
  obtain ⟨outs, p, l, hserve, hrun, hrep⟩ := serve_refines hn t calls (represents_new n t) (ready_new n) h
  exact ⟨outs, p, l, hserve, hrun, hrep, hrep.sameIds⟩

/-- `Allowed`, as it is checked: the cache of the thread has the ids of the pool. -/
def allowedByCache (t : ThreadId) (p : ConnectionPool Q C S) : Call S → Bool
  | .add m _ => (p.cached t).all (·.1 != m.uniqueId)
  | .find _ _ => true
  | .close m => (p.cached t).all fun e => e.1 != m.uniqueId || e.2.groupId == m.groupId

def properByCache (t : ThreadId) : List (Call S) → ConnectionPool Q C S → Bool
  | [], _ => true
  | c :: cs, p => allowedByCache t p c && (p.call t c).all fun (_, p) => properByCache t cs p

theorem Represents.cached_of_held (h : Represents n t p l) {g : ConnectionGroupId} {id : ConnectionId}
    (hid : id ∈ (p.held g).map Prod.fst) : ∃ m, m.groupId = g ∧ (id, m) ∈ p.cached t := by
  obtain ⟨i, hi, hg, rfl⟩ := h.mem_keys.mp hid
  exact ⟨i.metadata, hg, by rw [h.lru]; exact List.mem_map_of_mem hi⟩

theorem Represents.allowed (h : Represents n t p l) {c : Call S} (hc : allowedByCache t p c = true) : p.Allowed c := by
  cases c with
  | add m connection =>
    intro g hid
    obtain ⟨m', -, hmem⟩ := h.cached_of_held hid
    exact bne_iff_ne.mp (List.all_eq_true.mp hc _ hmem) rfl
  | find g first => trivial
  | close m =>
    intro g hid
    obtain ⟨m', rfl, hmem⟩ := h.cached_of_held hid
    rcases Bool.or_eq_true_iff.mp (List.all_eq_true.mp hc _ hmem) with hne | heq
    · exact absurd rfl (bne_iff_ne.mp hne)
    · exact beq_iff_eq.mp heq

theorem Represents.proper (hn : 0 < n) : ∀ {calls : List (Call S)} {p : ConnectionPool Q C S} {l : List (Idle S)},
    Represents n t p l → p.Ready n → properByCache t calls p = true → Proper t calls p := by
  intro calls
  induction calls with
  | nil => intro _ _ _ _ _; trivial
  | cons c calls ih =>
    intro p l h hr hc
    rw [properByCache, Bool.and_eq_true] at hc
    have hallowed := h.allowed hc.1
    refine ⟨hallowed, fun o p' hcall => ?_⟩
    obtain ⟨o', p1, l1, hcall', -, hr1, h1⟩ := h.call_refines hr hn hallowed
    cases hcall.symm.trans hcall'
    rw [hcall, Option.all_some] at hc
    exact ih h1 hr1 hc.2

/-- Three connections of two groups for a pool of two; the id of the one that is dropped
    comes again in the other group. -/
def threeForTwo : List (Call Nat) :=
  [.add ⟨7, 5⟩ 50, .add ⟨8, 6⟩ 60, .add ⟨7, 9⟩ 90, .find 7 0, .add ⟨8, 5⟩ 51, .close ⟨8, 6⟩, .find 7 0, .find 8 0]

theorem pool_is_idle_list_threeForTwo :
    ∃ p l, serve 0 threeForTwo (new 2 : ConnectionPool ListQueue ListCache Nat) =
        some ([none, none, none, some 90, none, none, none, some 51], p) ∧
      IdleRun 2 [] threeForTwo [none, none, none, some 90, none, none, none, some 51] l ∧ Represents 2 0 p l ∧
      SameIds 0 p := by
  obtain ⟨outs, p, l, hserve, hrun, hrep, hsame⟩ := pool_is_idle_list (by decide) 0 threeForTwo
    ((represents_new 2 0).proper (by decide) (ready_new 2) (by decide) :
      Proper 0 threeForTwo (new 2 : ConnectionPool ListQueue ListCache Nat))
  have houts : (serve 0 threeForTwo (new 2 : ConnectionPool ListQueue ListCache Nat)).map Prod.fst =
      some [none, none, none, some 90, none, none, none, some 51] := by decide
  rw [hserve, Option.map_some] at houts
  cases Option.some.inj houts
  exact ⟨p, l, hserve, hrun, hrep, hsame⟩

end ConnectionPool

end Glaive.Pool
