/-
  Glaive.Pool.Pool — the connection pool (`core/src/pool/pool.rs`: `ConnectionPool`;
  `core/src/pool/lru.rs`: `ConnectionLru`), one whole call at a time.

  The nodes are shared by all worker threads; the caches of `ConnectionLru` are
  thread-local, each made empty at its thread's first use. A call is told which thread
  runs it. `none`: it never returns (see `Glaive.Pool.Node`). The notifiers handed to
  the idle-timeout task are left out.
-/

import Glaive.Pool.Node

namespace Glaive.Pool

open Glaive.Lib
open Glaive.Lib.RecencyCache (put pop popLru len entries)

abbrev ThreadId := Nat

structure ConnectionMetadata where
  groupId : ConnectionGroupId
  uniqueId : ConnectionId
  deriving DecidableEq, Repr

/-! ## The cache of each thread -/

structure ConnectionLru (C : Type → Type → Type) where
  lruStore : ThreadId → C ConnectionId ConnectionMetadata
  sizeCapacity : Nat
  drainStatusFlag : Bool

namespace ConnectionLru

variable {C : Type → Type → Type}

def setStore (l : ConnectionLru C) (t : ThreadId) (c : C ConnectionId ConnectionMetadata) : ConnectionLru C :=
  { l with lruStore := Function.update l.lruStore t c }

@[simp] theorem setStore_same (l : ConnectionLru C) (t : ThreadId) (c : C ConnectionId ConnectionMetadata) :
    (l.setStore t c).lruStore t = c := Function.update_self ..

theorem setStore_ne (l : ConnectionLru C) {t u : ThreadId} (h : u ≠ t) (c : C ConnectionId ConnectionMetadata) :
    (l.setStore t c).lruStore u = l.lruStore u := Function.update_of_ne h ..

@[simp] theorem setStore_sizeCapacity (l : ConnectionLru C) (t : ThreadId) (c : C ConnectionId ConnectionMetadata) :
    (l.setStore t c).sizeCapacity = l.sizeCapacity := rfl

@[simp] theorem setStore_drainStatusFlag (l : ConnectionLru C) (t : ThreadId)
    (c : C ConnectionId ConnectionMetadata) : (l.setStore t c).drainStatusFlag = l.drainStatusFlag := rfl

variable [RecencyCache C]

def new (lruSize : Nat) : ConnectionLru C := ⟨fun _ => RecencyCache.unbounded, lruSize, false⟩

/-- Gives the metadata of the entry dropped for this one. -/
def insertConnection (t : ThreadId) (l : ConnectionLru C) (id : ConnectionId) (m : ConnectionMetadata) :
    Option ConnectionMetadata × ConnectionLru C :=
  if l.drainStatusFlag then (none, l)
  else
    let cache := put (l.lruStore t) id m
    if l.sizeCapacity < len cache then
      match popLru cache with
      | (some (_, replaced), cache) => (some replaced, l.setStore t cache)
      | (none, cache) => (none, l.setStore t cache)
    else (none, l.setStore t cache)

def popConnection (t : ThreadId) (l : ConnectionLru C) (id : ConnectionId) : ConnectionLru C :=
  l.setStore t (pop (l.lruStore t) id).2

/-- The entries a thread's cache holds once `id` is put. -/
def inserted (l : ConnectionLru C) (t : ThreadId) (id : ConnectionId) (m : ConnectionMetadata) :
    List (ConnectionId × ConnectionMetadata) := (entries (l.lruStore t)).filter (·.1 ≠ id) ++ [(id, m)]

/-- The entry goes in at the newest end, and the oldest one goes out where the cache
    is then over its size. -/
theorem insertConnection_spec {l : ConnectionLru C} (hd : l.drainStatusFlag = false) (t : ThreadId) (id : ConnectionId)
    (m : ConnectionMetadata) :
    ∃ c, l.insertConnection t id m =
        (if l.sizeCapacity < (l.inserted t id m).length then (l.inserted t id m).head?.map (·.2) else none,
          l.setStore t c) ∧
      entries c = if l.sizeCapacity < (l.inserted t id m).length then (l.inserted t id m).tail
        else l.inserted t id m := by
  unfold insertConnection
  have he : entries (put (l.lruStore t) id m) = l.inserted t id m := RecencyCache.entries_put _ _ _
  simp only [hd, Bool.false_eq_true, if_false, RecencyCache.len_eq, he]
  by_cases hlt : l.sizeCapacity < (l.inserted t id m).length
  · simp only [if_pos hlt]
    cases hl : l.inserted t id m with
    | nil => simp [inserted] at hl
    | cons e rest =>
      rw [hl] at he
      obtain ⟨c, hc, hrest⟩ := RecencyCache.popLru_cons _ _ _ he
      rw [hc]
      exact ⟨c, rfl, hrest⟩
  · simp only [if_neg hlt]
    exact ⟨_, rfl, he⟩

end ConnectionLru

/-! ## The pool -/

structure ConnectionPool (Q : Type → Type) (C : Type → Type → Type) (S : Type) where
  pool : ConnectionGroupId → Option (ConnectionNode Q S)
  lru : ConnectionLru C

namespace ConnectionPool

variable {Q : Type → Type} {C : Type → Type → Type} {S : Type}

def setNode (p : ConnectionPool Q C S) (g : ConnectionGroupId) (n : ConnectionNode Q S) : ConnectionPool Q C S :=
  { p with pool := Function.update p.pool g (some n) }

@[simp] theorem setNode_lru (p : ConnectionPool Q C S) (g : ConnectionGroupId) (n : ConnectionNode Q S) :
    (p.setNode g n).lru = p.lru := rfl

section

variable [BoundedQueue Q]

/-- The connections held in the node of a group, each with its id. -/
def held (p : ConnectionPool Q C S) (g : ConnectionGroupId) : List (ConnectionId × S) :=
  match p.pool g with
  | none => []
  | some node => node.all

def Sound (p : ConnectionPool Q C S) : Prop := ∀ g node, p.pool g = some node → node.Sound

@[simp] theorem held_setNode_same (p : ConnectionPool Q C S) (g : ConnectionGroupId) (n : ConnectionNode Q S) :
    (p.setNode g n).held g = n.all := by simp [held, setNode]

theorem held_setNode_ne (p : ConnectionPool Q C S) {g g' : ConnectionGroupId} (h : g' ≠ g) (n : ConnectionNode Q S) :
    (p.setNode g n).held g' = p.held g' := by simp [held, setNode, Function.update_of_ne h]

theorem Sound.nodup {p : ConnectionPool Q C S} (h : p.Sound) (g : ConnectionGroupId) :
    ((p.held g).map Prod.fst).Nodup := by
  unfold held
  split
  · exact List.nodup_nil
  · exact (h g _ ‹_›).nodup

theorem Sound.setNode {p : ConnectionPool Q C S} (h : p.Sound) (g : ConnectionGroupId) {n : ConnectionNode Q S}
    (hn : n.Sound) : (p.setNode g n).Sound := by
  intro g' node hg
  unfold ConnectionPool.setNode at hg
  by_cases he : g' = g
  · subst he
    simp only [Function.update_self, Option.some.injEq] at hg
    exact hg ▸ hn
  · simp only [Function.update_of_ne he] at hg
    exact h g' node hg

/-- Replaces what a group holds and touches no other group. -/
structure Changes (p p' : ConnectionPool Q C S) (g : ConnectionGroupId) (l : List (ConnectionId × S)) : Prop where
  sound : p'.Sound
  here : (p'.held g).Perm l
  elsewhere : ∀ g', g' ≠ g → p'.held g' = p.held g'

theorem Changes.lru {p p' : ConnectionPool Q C S} {g : ConnectionGroupId} {l : List (ConnectionId × S)}
    (h : Changes p p' g l) (lru : ConnectionLru C) : Changes p { p' with lru := lru } g l :=
  ⟨h.sound, h.here, h.elsewhere⟩

theorem Changes.perm {p p' : ConnectionPool Q C S} {g : ConnectionGroupId} {a b : List (ConnectionId × S)} (h : Changes p p' g a) (hab : a.Perm b) :
    Changes p p' g b := ⟨h.sound, h.here.trans hab, h.elsewhere⟩

theorem changes_setNode {p : ConnectionPool Q C S} (h : p.Sound) (g : ConnectionGroupId) {n : ConnectionNode Q S}
    (hn : n.Sound) {l : List (ConnectionId × S)} (hl : n.all.Perm l) : Changes p (p.setNode g n) g l :=
  ⟨h.setNode g hn, by rw [held_setNode_same]; exact hl, fun g' hg => held_setNode_ne p hg n⟩

end

/-! ## Its functions -/

variable [BoundedQueue Q]

/-- The node of a group, made and put in the pool when there is none. -/
def getConnectionNode (p : ConnectionPool Q C S) (g : ConnectionGroupId) :
    ConnectionNode Q S × ConnectionPool Q C S :=
  match p.pool g with
  | some node => (node, p)
  | none => (ConnectionNode.new, p.setNode g ConnectionNode.new)

def removeConnectionFromPool (p : ConnectionPool Q C S) (m : ConnectionMetadata) : Option (ConnectionPool Q C S) :=
  match p.pool m.groupId with
  | none => some p
  | some node => (node.removeConnection m.uniqueId).map fun r => p.setNode m.groupId r.2

theorem removeConnectionFromPool_spec {p : ConnectionPool Q C S} (h : p.Sound) (m : ConnectionMetadata) :
    ∃ p', p.removeConnectionFromPool m = some p' ∧ p'.lru = p.lru ∧
      Changes p p' m.groupId ((p.held m.groupId).filter (·.1 ≠ m.uniqueId)) := by
  unfold removeConnectionFromPool held
  cases hg : p.pool m.groupId with
  | none => exact ⟨p, rfl, rfl, h, by rw [held, hg]; exact List.Perm.refl _, fun _ _ => rfl⟩
  | some node =>
    obtain ⟨r, n', hr, hperm, hn'⟩ := node.removeConnection_spec (h _ node hg) m.uniqueId
    simp only [hr, Option.map_some]
    exact ⟨_, rfl, rfl, changes_setNode h _ hn' hperm⟩

/-- The last part of an add: the connection goes to the node of its group. -/
theorem addToNode_spec {p : ConnectionPool Q C S} (h : p.Sound) {m : ConnectionMetadata}
    (hid : m.uniqueId ∉ (p.held m.groupId).map Prod.fst) (connection : S) :
    ∃ p', ((p.getConnectionNode m.groupId).1.addNewConnection false m.uniqueId connection).map
        ((p.getConnectionNode m.groupId).2.setNode m.groupId) = some p' ∧ p'.lru = p.lru ∧
      Changes p p' m.groupId ((m.uniqueId, connection) :: p.held m.groupId) := by
  unfold getConnectionNode held at *
  cases hg : p.pool m.groupId with
  | some node =>
    rw [hg] at hid
    obtain ⟨n', hn', hperm, hs⟩ := node.addNewConnection_spec (h _ node hg) hid connection
    simp only [hn', Option.map_some]
    exact ⟨_, rfl, rfl, changes_setNode h _ hs hperm⟩
  | none =>
    have hid' : m.uniqueId ∉ (ConnectionNode.new : ConnectionNode Q S).all.map Prod.fst := by
      rw [ConnectionNode.all_new]; simp
    obtain ⟨n', hn', hperm, hs⟩ := ConnectionNode.addNewConnection_spec ConnectionNode.sound_new hid' connection
    simp only [hn', Option.map_some]
    refine ⟨_, rfl, rfl, (h.setNode _ ConnectionNode.sound_new).setNode _ hs, ?_, fun g' hg' => ?_⟩
    · rw [held_setNode_same, ← ConnectionNode.all_new (Q := Q)]; exact hperm
    · rw [held_setNode_ne _ hg', held_setNode_ne _ hg']

variable [RecencyCache C]

def new (poolNodeSize : Nat) : ConnectionPool Q C S := ⟨fun _ => none, ConnectionLru.new poolNodeSize⟩

/-- The ids and metadata in the cache of a thread, oldest first. -/
def cached (p : ConnectionPool Q C S) (t : ThreadId) : List (ConnectionId × ConnectionMetadata) :=
  entries (p.lru.lruStore t)

/-- `find_connection`. -/
def getConnectionFromPool (t : ThreadId) (p : ConnectionPool Q C S) (g : ConnectionGroupId) (first : Nat) :
    Option S × ConnectionPool Q C S :=
  match p.pool g with
  | none => (none, p)
  | some node =>
    match node.getAvailableConnection first with
    | (some (id, connection), node) =>
      let p := p.setNode g node
      (some connection, { p with lru := p.lru.popConnection t id })
    | (none, node) => (none, p.setNode g node)

/-- `close_connection`. -/
def removeConnection (t : ThreadId) (p : ConnectionPool Q C S) (m : ConnectionMetadata) :
    Option (ConnectionPool Q C S) :=
  (p.removeConnectionFromPool m).map fun p => { p with lru := p.lru.popConnection t m.uniqueId }

/-- `add_connection`. -/
def addConnectionToPool (t : ThreadId) (p : ConnectionPool Q C S) (m : ConnectionMetadata) (connection : S) :
    Option (ConnectionPool Q C S) :=
  let (replaced, lru) := p.lru.insertConnection t m.uniqueId m
  let p := { p with lru := lru }
  let p := match replaced with
    | some evicted => p.removeConnectionFromPool evicted
    | none => some p
  p.bind fun p =>
    let (node, p) := p.getConnectionNode m.groupId
    (node.addNewConnection false m.uniqueId connection).map (p.setNode m.groupId)

/-! ## What each does -/

theorem getConnectionFromPool_spec {p : ConnectionPool Q C S} (h : p.Sound) (t : ThreadId) (g : ConnectionGroupId)
    (first : Nat) :
    p.held g = [] ∧ (∃ p', p.getConnectionFromPool t g first = (none, p') ∧ p'.lru = p.lru ∧ Changes p p' g []) ∨
    ∃ id c p', p.getConnectionFromPool t g first = (some c, p') ∧ p'.lru = p.lru.popConnection t id ∧
      (∃ rest, ((id, c) :: rest).Perm (p.held g) ∧ Changes p p' g rest) := by
  unfold getConnectionFromPool held
  cases hg : p.pool g with
  | none =>
    refine Or.inl ⟨rfl, p, rfl, rfl, h, ?_, fun _ _ => rfl⟩
    rw [held, hg]
  | some node =>
    simp only
    rcases node.getAvailableConnection_spec (h g node hg) first with ⟨he, hget⟩ | ⟨e, n', hget, hperm, hn'⟩
    · rw [hget]
      exact Or.inl ⟨he, _, rfl, rfl, changes_setNode h g (h g node hg) (by rw [he])⟩
    · rw [hget]
      exact Or.inr ⟨e.1, e.2, _, rfl, rfl, _, hperm, (changes_setNode h g hn' (List.Perm.refl _)).lru _⟩

theorem removeConnection_spec {p : ConnectionPool Q C S} (h : p.Sound) (t : ThreadId) (m : ConnectionMetadata) :
    ∃ p', p.removeConnection t m = some p' ∧ p'.lru = p.lru.popConnection t m.uniqueId ∧
      Changes p p' m.groupId ((p.held m.groupId).filter (·.1 ≠ m.uniqueId)) := by
  obtain ⟨p', hp, hlru, hch⟩ := removeConnectionFromPool_spec h m
  unfold removeConnection
  rw [hp, Option.map_some, hlru]
  exact ⟨_, rfl, rfl, hch.lru _⟩

/-- The entry an add by the thread `t` drops: the oldest one, where the cache is over its
    size with the new one in it. -/
def evictedBy (p : ConnectionPool Q C S) (t : ThreadId) (m : ConnectionMetadata) :
    Option (ConnectionId × ConnectionMetadata) :=
  if p.lru.sizeCapacity < (p.lru.inserted t m.uniqueId m).length then (p.lru.inserted t m.uniqueId m).head? else none

/-- An add puts its connection in, and takes out what is held under the id and the group
    of the entry it drops. -/
theorem addConnectionToPool_spec {p : ConnectionPool Q C S} (h : p.Sound) (hd : p.lru.drainStatusFlag = false)
    (t : ThreadId) {m : ConnectionMetadata} (hid : ∀ g, m.uniqueId ∉ (p.held g).map Prod.fst) (c : S) :
    ∃ p', p.addConnectionToPool t m c = some p' ∧ p'.Sound ∧ p'.lru = (p.lru.insertConnection t m.uniqueId m).2 ∧
      ∀ g x, x ∈ p'.held g ↔ g = m.groupId ∧ x = (m.uniqueId, c) ∨
        x ∈ p.held g ∧ ∀ e, p.evictedBy t m = some e → g = e.2.groupId → x.1 ≠ e.2.uniqueId := by
  obtain ⟨cache, hput, -⟩ := ConnectionLru.insertConnection_spec hd t m.uniqueId m
  -- the pool once the dropped entry's connection is out
  obtain ⟨p1, hp1, hsound1, hlru1, hheld1⟩ : ∃ p1, (match (p.lru.insertConnection t m.uniqueId m).1 with
        | some evicted => removeConnectionFromPool { p with lru := p.lru.setStore t cache } evicted
        | none => some { p with lru := p.lru.setStore t cache }) = some p1 ∧ p1.Sound ∧
      p1.lru = p.lru.setStore t cache ∧
      ∀ g x, x ∈ p1.held g ↔ x ∈ p.held g ∧ ∀ e, p.evictedBy t m = some e → g = e.2.groupId → x.1 ≠ e.2.uniqueId := by
    have hdrop : (p.lru.insertConnection t m.uniqueId m).1 = (p.evictedBy t m).map (·.2) := by
      rw [hput, evictedBy]
      split <;> rfl
    rw [hdrop]
    cases he : p.evictedBy t m with
    | none =>
      refine ⟨{ p with lru := p.lru.setStore t cache }, rfl, h, rfl, fun g x => ⟨fun hx => ⟨hx, ?_⟩, fun hx => hx.1⟩⟩
      intro e he'
      cases he'
    | some e =>
      obtain ⟨p1, hp1, hlru1, hch⟩ := removeConnectionFromPool_spec (p := { p with lru := p.lru.setStore t cache }) h e.2
      refine ⟨p1, hp1, hch.sound, hlru1, fun g x => ?_⟩
      by_cases hg : g = e.2.groupId
      · subst hg
        rw [hch.here.mem_iff, List.mem_filter, decide_eq_true_eq]
        constructor
        · intro h
          rcases h with ⟨hx, hne⟩
          refine ⟨hx, fun e' he' _ => ?_⟩
          cases he'; exact hne
        · intro h
          rcases h with ⟨hx, hne⟩
          exact ⟨hx, hne e rfl rfl⟩
      · rw [hch.elsewhere g hg]
        constructor
        · intro hx
          refine ⟨hx, fun e' he' hg' => ?_⟩
          cases he'; exact absurd hg' hg
        · exact fun hx => hx.1
  have hid1 : m.uniqueId ∉ (p1.held m.groupId).map Prod.fst := by
    intro hm
    obtain ⟨x, hx, hxm⟩ := List.mem_map.mp hm
    exact hid m.groupId (hxm ▸ List.mem_map_of_mem ((hheld1 _ _).mp hx).1)
  obtain ⟨p', hp', hlru', hch'⟩ := addToNode_spec hsound1 hid1 c
  refine ⟨p', ?_, hch'.sound, by rw [hlru', hlru1, hput], fun g x => ?_⟩
  · have hlru : (p.lru.insertConnection t m.uniqueId m).2 = p.lru.setStore t cache := by rw [hput]
    unfold addConnectionToPool
    simp only [hlru]
    rw [hp1]
    exact hp'
  · by_cases hg : g = m.groupId
    · subst hg
      rw [hch'.here.mem_iff, List.mem_cons, hheld1]
      simp
    · rw [hch'.elsewhere g hg, hheld1]
      simp [hg]

end ConnectionPool

end Glaive.Pool
