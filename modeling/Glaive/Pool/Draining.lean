/-
  Glaive.Pool.Draining — inserts and pops of any threads while `ConnectionLru` is drained
  (`core/src/pool/lru.rs`).

  An insert tests the drain flag before it takes the lock. One that has found the flag
  clear, and takes the lock after a drain has emptied the caches, leaves its node in a
  cache for good: no one notifies it. There is no other way, so that after a drain no
  cache holds a node that was not notified just if no insert comes so late
  (`drain_leaves_none_iff`). A node that is neither in a cache nor popped nor notified is
  one that a later insert replaced under its id.

  A node's notifier is named by the insert that the node was made for. Calls of one
  thread may overlap here, which they do not in the program.
-/

import Glaive.Lib.Interleaved
import Glaive.Pool.Pool

namespace Glaive.Pool.Draining

open Glaive.Lib
open Glaive.Lib.Interleaved (Event)
open Glaive.Lib.RecencyCache (unbounded put pop popLru len entries)

variable {C : Type → Type → Type} {U M : Type}

structure ConnectionNode (M : Type) where
  removalNotifier : Nat
  metadata : M
  deriving DecidableEq, Repr

/-- `lruStore`: the caches of the threads that have one. Of the notifiers: the ones that
    have fired, and those of the nodes that were popped, or replaced by a put. -/
structure ConnectionLru (C : Type → Type → Type) (U M : Type) where
  lruStore : List (ThreadId × C U (ConnectionNode M))
  sizeCapacity : Nat
  drainStatusFlag : Bool
  notified : List Nat
  popped : List Nat
  replaced : List Nat

/-- A call of some thread. -/
inductive Call (U M : Type) where
  | insert (t : ThreadId) (id : U) (metadata : M)
  | pop (t : ThreadId) (id : U)
  | drain

/-- The next step of a call, or what it returned. -/
inductive Place (U M : Type) where
  | load (t : ThreadId) (id : U) (node : ConnectionNode M)
  | put (t : ThreadId) (id : U) (node : ConnectionNode M)
  | inserted (removalNotifier : Nat) (metadata : Option M)
  | pop (t : ThreadId) (id : U)
  | popped (node : Option (ConnectionNode M))
  | store
  | clear
  | drained
  deriving DecidableEq, Repr

def start (i : Nat) : Call U M → Place U M
  | .insert t id metadata => .load t id ⟨i, metadata⟩
  | .pop t id => .pop t id
  | .drain => .store

namespace ConnectionLru

def notifyRemoval (l : ConnectionLru C U M) (node : ConnectionNode M) : ConnectionLru C U M :=
  { l with notified := l.notified ++ [node.removalNotifier] }

def setCache (l : ConnectionLru C U M) (t : ThreadId) (c : C U (ConnectionNode M)) : ConnectionLru C U M :=
  { l with lruStore := Assoc.insert l.lruStore t c }

variable [RecencyCache C]

def new (lruSize : Nat) : ConnectionLru C U M := ⟨[], lruSize, false, [], [], []⟩

/-- `get_or`: a thread's cache, made at its first use. -/
def getOr (l : ConnectionLru C U M) (t : ThreadId) : C U (ConnectionNode M) :=
  (Assoc.remove l.lruStore t).1.getD unbounded

/-- The notifiers of the nodes in a cache. -/
def notifiers (c : C U (ConnectionNode M)) : List Nat := (entries c).map (·.2.removalNotifier)

/-- The notifiers of the nodes in any cache. -/
def cached (l : ConnectionLru C U M) : List Nat := l.lruStore.flatMap fun c => notifiers c.2

variable [DecidableEq U]

/-- The notifier of the node under an id. -/
def under (c : C U (ConnectionNode M)) (id : U) : List Nat :=
  ((entries c).filter (·.1 = id)).map (·.2.removalNotifier)

/-- `insert_connection` under the lock. -/
def insertLocked (t : ThreadId) (id : U) (node : ConnectionNode M) (l : ConnectionLru C U M) :
    Option M × ConnectionLru C U M :=
  let cache := l.getOr t
  let l := { l with replaced := l.replaced ++ under cache id }
  let cache := put cache id node
  if l.sizeCapacity < len cache then
    match popLru cache with
    | (some (_, connection), cache) => (some connection.metadata, (l.setCache t cache).notifyRemoval connection)
    | (none, cache) => (none, l.setCache t cache)
  else (none, l.setCache t cache)

/-- `pop_connection` under the lock. -/
def popLocked (t : ThreadId) (id : U) (l : ConnectionLru C U M) : Option (ConnectionNode M) × ConnectionLru C U M :=
  let cache := l.getOr t
  let (node, rest) := pop cache id
  (node, { l.setCache t rest with popped := l.popped ++ under cache id })

/-- `drain_connections` under the lock. -/
def drainLocked (l : ConnectionLru C U M) : ConnectionLru C U M :=
  { l with notified := l.notified ++ l.cached
           lruStore := l.lruStore.map fun c => (c.1, unbounded) }

end ConnectionLru

variable [RecencyCache C] [DecidableEq U]

/-- Each access to the flag is one step, and each section under the lock. -/
def act : Place U M → Unit → ConnectionLru C U M → Option (ConnectionLru C U M × Place U M)
  | .load t id node, _, l =>
    if l.drainStatusFlag then some (l.notifyRemoval node, .inserted node.removalNotifier none)
    else some (l, .put t id node)
  | .put t id node, _, l =>
    let (metadata, l) := l.insertLocked t id node
    some (l, .inserted node.removalNotifier metadata)
  | .pop t id, _, l =>
    let (node, l) := l.popLocked t id
    some (l, .popped node)
  | .store, _, l => some ({ l with drainStatusFlag := true }, .clear)
  | .clear, _, l => some (l.drainLocked, .drained)
  | .inserted _ _, _, _ => none
  | .popped _, _, _ => none
  | .drained, _, _ => none

theorem act_put (t : ThreadId) (id : U) (node : ConnectionNode M) (l : ConnectionLru C U M) :
    act (.put t id node) () l =
      some ((l.insertLocked t id node).2, .inserted node.removalNotifier (l.insertLocked t id node).1) := rfl

abbrev Calls (C : Type → Type → Type) (U M : Type) : Type := Lib.Threads (ConnectionLru C U M) (Place U M)

abbrev step : Event (Call U M) Unit → Calls C U M → Option (Calls C U M) := Interleaved.step start act

def init (lruSize : Nat) : Calls C U M := ⟨ConnectionLru.new lruSize, []⟩

/-- `drain_connections` has returned. -/
def Drained (s : Calls C U M) : Prop := .drained ∈ s.threads

/-- After a drain there is a node in some thread's cache whose notifier has not fired. -/
def Forgotten (s : Calls C U M) : Prop := Drained s ∧ ∃ n ∈ s.shared.cached, n ∉ s.shared.notified

/-- An insert takes the lock after a drain has returned, where a cache may hold a node. -/
def Late : Event (Call U M) Unit → Calls C U M → Prop
  | .enter _, _ => False
  | .take i _, s => (∃ t id node, s.threads[i]? = some (.put t id node)) ∧ Drained s ∧ s.shared.sizeCapacity ≠ 0

/-! ## A call that no other comes between -/

namespace ConnectionLru

variable {l : ConnectionLru C U M}

omit [DecidableEq U] in
theorem getOr_setCache (t : ThreadId) (c : C U (ConnectionNode M)) (u : ThreadId) :
    (l.setCache t c).getOr u = if u = t then c else l.getOr u := by
  unfold setCache getOr Assoc.insert Assoc.remove
  rw [List.find?_append]
  by_cases hu : u = t
  · subst hu
    have hnone : (l.lruStore.filter (·.1 ≠ u)).find? (·.1 = u) = none := by
      refine List.find?_eq_none.mpr fun e he heq => ?_
      exact of_decide_eq_true (List.mem_filter.mp he).2 (of_decide_eq_true heq)
    rw [hnone, if_pos rfl]
    simp
  · have hsame : (l.lruStore.filter (·.1 ≠ t)).find? (·.1 = u) = l.lruStore.find? (·.1 = u) := by
      rw [List.find?_filter]
      congr 1
      funext e
      by_cases he : e.1 = u
      · simp [he, hu]
      · simp [he]
    rw [hsame, if_neg hu]
    simp [Ne.symm hu]

/-- The node is put at the newest end, and the oldest goes out where the cache is then
    over its size. -/
theorem insertLocked_cases (t : ThreadId) (id : U) (node : ConnectionNode M) (l : ConnectionLru C U M) :
    (¬ l.sizeCapacity < (entries (put (l.getOr t) id node)).length ∧
      l.insertLocked t id node = (none, { l.setCache t (put (l.getOr t) id node) with
        replaced := l.replaced ++ under (l.getOr t) id })) ∨
    ∃ e c, l.sizeCapacity < (entries (put (l.getOr t) id node)).length ∧
      entries (put (l.getOr t) id node) = e :: entries c ∧
      l.insertLocked t id node = (some e.2.metadata, { l.setCache t c with
        replaced := l.replaced ++ under (l.getOr t) id, notified := l.notified ++ [e.2.removalNotifier] }) := by
  unfold insertLocked
  simp only [RecencyCache.len_eq]
  by_cases hlt : l.sizeCapacity < (entries (put (l.getOr t) id node)).length
  · rw [if_pos hlt]
    cases he : entries (put (l.getOr t) id node) with
    | nil => rw [he] at hlt; cases hlt
    | cons e rest =>
      obtain ⟨c, hc, hrest⟩ := RecencyCache.popLru_cons _ _ _ he
      rw [hc]
      rw [he] at hlt
      exact .inr ⟨e, c, hlt, by rw [hrest], rfl⟩
  · rw [if_neg hlt]
    exact .inl ⟨hlt, rfl⟩

end ConnectionLru

/-- The caches hold the metadata that those of the pool's model hold. -/
structure Same {D : Type → Type → Type} [RecencyCache D] (l : ConnectionLru C ConnectionId ConnectionMetadata)
    (k : Pool.ConnectionLru D) : Prop where
  store : ∀ t, (entries (l.getOr t)).map (fun e => (e.1, e.2.metadata)) = entries (k.lruStore t)
  capacity : l.sizeCapacity = k.sizeCapacity
  flag : l.drainStatusFlag = k.drainStatusFlag

theorem Same.set {D : Type → Type → Type} [RecencyCache D] {l l' : ConnectionLru C ConnectionId ConnectionMetadata}
    {k : Pool.ConnectionLru D} (h : Same l k) {t : ThreadId} {c : C ConnectionId (ConnectionNode ConnectionMetadata)}
    {d : D ConnectionId ConnectionMetadata} (hcd : (entries c).map (fun e => (e.1, e.2.metadata)) = entries d)
    (hstore : l'.lruStore = (l.setCache t c).lruStore) (hcap : l'.sizeCapacity = l.sizeCapacity)
    (hflag : l'.drainStatusFlag = l.drainStatusFlag) : Same l' (k.setStore t d) := by
  refine ⟨fun u => ?_, hcap.trans h.capacity, hflag.trans h.flag⟩
  have hget : l'.getOr u = (l.setCache t c).getOr u := by
    unfold ConnectionLru.getOr
    rw [hstore]
  rw [hget, ConnectionLru.getOr_setCache]
  by_cases hu : u = t
  · subst hu
    rw [if_pos rfl, Pool.ConnectionLru.setStore_same]
    exact hcd
  · rw [if_neg hu, Pool.ConnectionLru.setStore_ne k hu]
    exact h.store u

/-- The steps of an insert, one after the other, are the insert of the pool's model. -/
theorem alone_insert {D : Type → Type → Type} [RecencyCache D] {l : ConnectionLru C ConnectionId ConnectionMetadata}
    {k : Pool.ConnectionLru D} (h : Same l k) (i : Nat) (t : ThreadId) (id : ConnectionId) (m : ConnectionMetadata) :
    ∃ n l', Interleaved.alone act (List.replicate n ()) (start i (.insert t id m)) l =
        some (l', .inserted i (k.insertConnection t id m).1) ∧ Same l' (k.insertConnection t id m).2 := by
  cases hflag : l.drainStatusFlag with
  | true =>
    have hk : k.insertConnection t id m = (none, k) := by
      unfold Pool.ConnectionLru.insertConnection
      rw [← h.flag, hflag]
      rfl
    rw [hk]
    refine ⟨1, l.notifyRemoval ⟨i, m⟩, ?_, h.store, h.capacity, h.flag⟩
    simp only [List.replicate, Interleaved.alone, start, act, hflag, if_true, Option.bind_some]
  | false =>
    obtain ⟨d, hk, hd⟩ := Pool.ConnectionLru.insertConnection_spec (h.flag.symm.trans hflag) t id m
    -- both caches before the oldest entry may go
    have hput : (entries (put (l.getOr t) id (⟨i, m⟩ : ConnectionNode ConnectionMetadata))).map
        (fun e => (e.1, e.2.metadata)) = k.inserted t id m := by
      unfold Pool.ConnectionLru.inserted
      rw [RecencyCache.entries_put, List.map_append, ← h.store t, List.filter_map]
      rfl
    have hlen : (entries (put (l.getOr t) id (⟨i, m⟩ : ConnectionNode ConnectionMetadata))).length =
        (k.inserted t id m).length := by
      rw [← hput, List.length_map]
    have hsteps : Interleaved.alone act (List.replicate 2 ()) (start i (.insert t id m)) l =
        some ((l.insertLocked t id ⟨i, m⟩).2, .inserted i (l.insertLocked t id ⟨i, m⟩).1) := by
      simp only [List.replicate, Interleaved.alone, start, act, hflag, Bool.false_eq_true, if_false, Option.bind_some]
    rw [hk]
    refine ⟨2, (l.insertLocked t id ⟨i, m⟩).2, ?_⟩
    rw [hsteps]
    rcases ConnectionLru.insertLocked_cases t id ⟨i, m⟩ l with ⟨hroom, heq⟩ | ⟨e, c, hover, he, heq⟩
    · rw [hlen, h.capacity] at hroom
      rw [if_neg hroom] at hd
      rw [heq, if_neg hroom]
      exact ⟨rfl, h.set (hput.trans hd.symm) rfl rfl rfl⟩
    · rw [hlen, h.capacity] at hover
      rw [he, List.map_cons] at hput
      rw [if_pos hover, ← hput, List.tail_cons] at hd
      rw [heq, if_pos hover, ← hput]
      exact ⟨rfl, h.set hd.symm rfl rfl rfl⟩

/-- The one step of a pop is the pop of the pool's model. -/
theorem alone_pop {D : Type → Type → Type} [RecencyCache D] {l : ConnectionLru C ConnectionId ConnectionMetadata}
    {k : Pool.ConnectionLru D} (h : Same l k) (i : Nat) (t : ThreadId) (id : ConnectionId) :
    ∃ l' node, Interleaved.alone act [()] (start i (.pop t id)) l = some (l', .popped node) ∧
      Same l' (k.popConnection t id) := by
  refine ⟨_, _, rfl, h.set (c := (pop (l.getOr t) id).2) ?_ rfl rfl rfl⟩
  rw [RecencyCache.entries_pop, RecencyCache.entries_pop, ← h.store t, List.filter_map]
  rfl

/-! ## Where each node is -/

namespace ConnectionLru

omit [RecencyCache C] [DecidableEq U] in
/-- Each thread has one cache. -/
def OneEach (l : ConnectionLru C U M) : Prop := (l.lruStore.map Prod.fst).Nodup

/-- The notifiers of the nodes inserted so far, by where they are. -/
def ids (l : ConnectionLru C U M) : List Nat := l.notified ++ (l.popped ++ (l.replaced ++ l.cached))

variable {l : ConnectionLru C U M}

omit [RecencyCache C] [DecidableEq U] in
theorem oneEach_set (h : l.OneEach) (t : ThreadId) (c : C U (ConnectionNode M)) : (l.setCache t c).OneEach := by
  unfold OneEach setCache Assoc.insert
  rw [List.map_append, List.nodup_append]
  refine ⟨h.sublist (List.filter_sublist.map _), List.nodup_singleton _, fun x hx y hy hxy => ?_⟩
  obtain ⟨e, he, rfl⟩ := List.mem_map.mp hx
  have hne := of_decide_eq_true (List.mem_filter.mp he).2
  cases List.mem_singleton.mp hy
  exact hne hxy

omit [DecidableEq U] in
theorem notifiers_unbounded : notifiers (unbounded : C U (ConnectionNode M)) = [] := by
  unfold notifiers
  rw [RecencyCache.entries_unbounded]
  rfl

omit [DecidableEq U] in
/-- A thread's new cache is for its old one. -/
theorem count_setCache (h : l.OneEach) (t : ThreadId) (c : C U (ConnectionNode M)) (n : Nat) :
    (l.setCache t c).cached.count n + (notifiers (l.getOr t)).count n = l.cached.count n + (notifiers c).count n := by
  unfold setCache cached Assoc.insert getOr Assoc.remove
  rw [List.flatMap_append, List.count_append, List.flatMap_singleton]
  cases hfind : l.lruStore.find? (·.1 = t) with
  | none =>
    have habsent : t ∉ l.lruStore.map Prod.fst := by
      intro ht
      obtain ⟨e, he, rfl⟩ := List.mem_map.mp ht
      have hnone := List.find?_eq_none.mp hfind e he
      exact hnone (decide_eq_true rfl)
    rw [Assoc.filter_absent habsent]
    simp only [Option.map_none, Option.getD_none, notifiers_unbounded, List.count_nil]
    omega
  | some e =>
    have het : e.1 = t := by simpa using List.find?_some hfind
    have hperm := Assoc.perm_filter h (List.mem_of_find?_eq_some hfind)
    have hcount := (hperm.flatMap_right fun c => notifiers c.2).count_eq n
    rw [List.flatMap_cons, List.count_append, het] at hcount
    simp only [Option.map_some, Option.getD_some]
    omega

/-- A put leaves out the node under its id. -/
theorem count_notifiers_put (c : C U (ConnectionNode M)) (id : U) (node : ConnectionNode M) (n : Nat) :
    (notifiers (put c id node)).count n + (under c id).count n =
      (notifiers c).count n + [node.removalNotifier].count n := by
  have hsplit := ((List.filter_append_perm (fun e => decide (e.1 = id)) (entries c)).map
    (fun e => e.2.removalNotifier)).count_eq n
  unfold notifiers under
  rw [RecencyCache.entries_put, List.map_append, List.count_append]
  rw [List.map_append, List.count_append] at hsplit
  simp only [ne_eq, decide_not, List.map_cons, List.map_nil] at hsplit ⊢
  omega

theorem count_notifiers_pop (c : C U (ConnectionNode M)) (id : U) (n : Nat) :
    (notifiers (pop c id).2).count n + (under c id).count n = (notifiers c).count n := by
  have hsplit := ((List.filter_append_perm (fun e => decide (e.1 = id)) (entries c)).map
    (fun e => e.2.removalNotifier)).count_eq n
  unfold notifiers under
  rw [RecencyCache.entries_pop]
  rw [List.map_append, List.count_append] at hsplit
  simp only [ne_eq, decide_not] at hsplit ⊢
  omega

omit [DecidableEq U] in
theorem count_ids (n : Nat) (l : ConnectionLru C U M) :
    l.ids.count n = l.notified.count n + (l.popped.count n + (l.replaced.count n + l.cached.count n)) := by
  unfold ids
  rw [List.count_append, List.count_append, List.count_append]

/-! ## What each section under the lock does -/

omit [DecidableEq U] in
theorem count_getOr_le (h : l.OneEach) (t : ThreadId) (n : Nat) : (notifiers (l.getOr t)).count n ≤ l.cached.count n := by
  have hcount := count_setCache h t unbounded n
  rw [notifiers_unbounded, List.count_nil] at hcount
  omega

omit [DecidableEq U] in
theorem mem_cached_set {t : ThreadId} {c : C U (ConnectionNode M)} {n : Nat} (h : n ∈ notifiers c) :
    n ∈ (l.setCache t c).cached :=
  List.mem_flatMap.mpr ⟨(t, c), List.mem_append_right _ (List.mem_singleton_self _), h⟩

omit [DecidableEq U] in
theorem cached_eq_nil (h : ∀ n, l.cached.count n = 0) : l.cached = [] :=
  List.eq_nil_iff_forall_not_mem.mpr fun n => List.count_eq_zero.mp (h n)

theorem mem_notifiers_put (c : C U (ConnectionNode M)) (id : U) (node : ConnectionNode M) :
    node.removalNotifier ∈ notifiers (put c id node) := by
  unfold notifiers
  rw [RecencyCache.entries_put]
  simp

theorem insertLocked_oneEach (h : l.OneEach) (t : ThreadId) (id : U) (node : ConnectionNode M) :
    (l.insertLocked t id node).2.OneEach := by
  rcases insertLocked_cases t id node l with ⟨-, heq⟩ | ⟨e, c, -, -, heq⟩
  · rw [heq]
    exact oneEach_set h t _
  · rw [heq]
    exact oneEach_set h t _

/-- An insert adds its node, and may move others. -/
theorem insertLocked_count (h : l.OneEach) (t : ThreadId) (id : U) (node : ConnectionNode M) (n : Nat) :
    (l.insertLocked t id node).2.ids.count n = l.ids.count n + [node.removalNotifier].count n := by
  have hput := count_notifiers_put (l.getOr t) id node n
  rw [count_ids, count_ids]
  rcases insertLocked_cases t id node l with ⟨-, heq⟩ | ⟨e, c, -, he, heq⟩
  · have hset := count_setCache h t (put (l.getOr t) id node) n
    rw [heq]
    show l.notified.count n + (l.popped.count n + ((l.replaced ++ under (l.getOr t) id).count n +
      (l.setCache t (put (l.getOr t) id node)).cached.count n)) = _
    rw [List.count_append]
    omega
  · have hset := count_setCache h t c n
    have hsplit : (notifiers (put (l.getOr t) id node)).count n =
        [e.2.removalNotifier].count n + (notifiers c).count n := by
      unfold notifiers
      rw [he, List.map_cons, ← List.singleton_append, List.count_append]
    rw [heq]
    show (l.notified ++ [e.2.removalNotifier]).count n + (l.popped.count n +
      ((l.replaced ++ under (l.getOr t) id).count n + (l.setCache t c).cached.count n)) = _
    rw [List.count_append, List.count_append]
    omega

/-- Where a cache may hold a node, the new one is in it. -/
theorem insertLocked_mem (hcap : l.sizeCapacity ≠ 0) (t : ThreadId) (id : U) (node : ConnectionNode M) :
    node.removalNotifier ∈ (l.insertLocked t id node).2.cached := by
  rcases insertLocked_cases t id node l with ⟨-, heq⟩ | ⟨e, c, hover, he, heq⟩
  · rw [heq]
    exact mem_cached_set (mem_notifiers_put _ id node)
  · rw [heq]
    apply mem_cached_set
    -- over a size of at least one, the oldest is not the newest
    rw [RecencyCache.entries_put] at he hover
    cases hold : (entries (l.getOr t)).filter (·.1 ≠ id) with
    | nil =>
      rw [hold] at hover
      simp only [List.nil_append, List.length_singleton] at hover
      omega
    | cons first others =>
      rw [hold, List.cons_append] at he
      obtain ⟨-, hothers⟩ := List.cons.inj he
      unfold notifiers
      rw [← hothers]
      simp

omit [DecidableEq U] in
theorem entries_getOr_nil (h : l.OneEach) (hnil : l.cached = []) (t : ThreadId) : entries (l.getOr t) = [] := by
  have hnone : notifiers (l.getOr t) = [] := by
    refine List.eq_nil_iff_forall_not_mem.mpr fun n => List.count_eq_zero.mp ?_
    have hle := count_getOr_le h t n
    rw [hnil, List.count_nil] at hle
    omega
  exact List.map_eq_nil_iff.mp hnone

/-- Where none may, empty caches stay so. -/
theorem insertLocked_empty (h : l.OneEach) (hcap : l.sizeCapacity = 0) (hnil : l.cached = []) (t : ThreadId) (id : U)
    (node : ConnectionNode M) : (l.insertLocked t id node).2.cached = [] := by
  have hput : entries (put (l.getOr t) id node) = [(id, node)] := by
    rw [RecencyCache.entries_put, entries_getOr_nil h hnil t]
    rfl
  rcases insertLocked_cases t id node l with ⟨hroom, -⟩ | ⟨e, c, -, he, heq⟩
  · rw [hput, List.length_singleton] at hroom
    omega
  · rw [hput] at he
    have hc : notifiers c = [] := by
      unfold notifiers
      rw [← (List.cons.inj he).2]
      rfl
    rw [heq]
    apply cached_eq_nil
    intro n
    have hset := count_setCache h t c n
    rw [hnil, hc, List.count_nil] at hset
    show (l.setCache t c).cached.count n = 0
    omega

/-- A pop moves the node it takes, if there is one. -/
theorem popLocked_spec (h : l.OneEach) (t : ThreadId) (id : U) :
    (l.popLocked t id).2.OneEach ∧ (∀ n, (l.popLocked t id).2.ids.count n = l.ids.count n) ∧
      (l.cached = [] → (l.popLocked t id).2.cached = []) := by
  have hset := count_setCache h t (pop (l.getOr t) id).2
  have hpop := count_notifiers_pop (l.getOr t) id
  refine ⟨oneEach_set h t _, fun n => ?_, fun hnil => ?_⟩
  · have hn := hset n
    have hp := hpop n
    rw [count_ids, count_ids]
    show l.notified.count n + ((l.popped ++ under (l.getOr t) id).count n + (l.replaced.count n +
      (l.setCache t (pop (l.getOr t) id).2).cached.count n)) = _
    rw [List.count_append]
    omega
  · apply cached_eq_nil
    intro n
    have hn := hset n
    have hp := hpop n
    rw [hnil, List.count_nil] at hn
    show (l.setCache t (pop (l.getOr t) id).2).cached.count n = 0
    omega

omit [DecidableEq U] in
/-- A drain notifies every node in a cache, and leaves none. -/
theorem drainLocked_spec (h : l.OneEach) :
    l.drainLocked.OneEach ∧ (∀ n, l.drainLocked.ids.count n = l.ids.count n) ∧ l.drainLocked.cached = [] := by
  have hnil : l.drainLocked.cached = [] := by
    apply List.flatMap_eq_nil_iff.mpr
    intro c hc
    obtain ⟨c', -, rfl⟩ := List.mem_map.mp hc
    exact notifiers_unbounded
  refine ⟨?_, fun n => ?_, hnil⟩
  · unfold OneEach drainLocked
    rw [List.map_map]
    exact h
  · rw [count_ids, count_ids, hnil]
    show (l.notified ++ l.cached).count n + (l.popped.count n + (l.replaced.count n + 0)) = _
    rw [List.count_append]
    omega

omit [DecidableEq U] in
theorem mem_ids_of_count {l' : ConnectionLru C U M} {added : List Nat}
    (h : ∀ n, l'.ids.count n = l.ids.count n + added.count n) (n : Nat) : n ∈ l'.ids ↔ n ∈ l.ids ∨ n ∈ added := by
  rw [← List.count_pos_iff, ← List.count_pos_iff, ← List.count_pos_iff, h]
  omega

end ConnectionLru

/-! ## Any order of steps -/

/-- The node a call is to insert. -/
def Place.carries : Place U M → Option (ConnectionNode M)
  | .load _ _ node => some node
  | .put _ _ node => some node
  | _ => none

/-- Each node is in one place, and was made for one of the first `n` calls. -/
structure Placed (n : Nat) (l : ConnectionLru C U M) : Prop where
  oneEach : l.OneEach
  nodup : l.ids.Nodup
  made : ∀ m ∈ l.ids, m < n

/-- A node that is to be inserted is nowhere yet, and one that was inserted is somewhere. -/
structure Tracked (i : Nat) (p : Place U M) (l : ConnectionLru C U M) : Prop where
  before : ∀ node, p.carries = some node → node.removalNotifier = i ∧ i ∉ l.ids
  after : ∀ n m, p = .inserted n m → n = i ∧ i ∈ l.ids

abbrev Inv (s : Calls C U M) : Prop := Interleaved.Kept Placed Tracked s

/-- A step of the `i`th call inserts its node, or leaves each node that was inserted so. -/
inductive Effect (i : Nat) (p p' : Place U M) (l l' : ConnectionLru C U M) : Prop
  | moves : (∀ n, l'.ids.count n = l.ids.count n + ([] : List Nat).count n) →
      (∀ node, p'.carries = some node → p.carries = some node) → (∀ n m, p' ≠ .inserted n m) → Effect i p p' l l'
  | adds {m : Option M} : i ∉ l.ids → (∀ n, l'.ids.count n = l.ids.count n + [i].count n) → p' = .inserted i m →
      Effect i p p' l l'

theorem act_effect {i : Nat} {p p' : Place U M} {l l' : ConnectionLru C U M} (h : l.OneEach) (ht : Tracked i p l)
    (ha : act p () l = some (l', p')) : l'.OneEach ∧ Effect i p p' l l' := by
  cases p with
  | load t id node =>
    obtain ⟨hnode, hnew⟩ := ht.before node rfl
    rw [act] at ha
    split at ha
    · cases ha
      refine ⟨h, .adds hnew (fun n => ?_) (by rw [hnode])⟩
      rw [ConnectionLru.count_ids, ConnectionLru.count_ids, ← hnode]
      show (l.notified ++ [node.removalNotifier]).count n + _ = _
      rw [List.count_append]
      show _ + (l.popped.count n + (l.replaced.count n + l.cached.count n)) = _
      omega
    · cases ha
      exact ⟨h, .moves (fun n => rfl) (fun _ hc => hc) fun _ _ hp => by cases hp⟩
  | put t id node =>
    obtain ⟨hnode, hnew⟩ := ht.before node rfl
    have hids := ConnectionLru.insertLocked_count h t id node
    rw [act_put] at ha
    obtain ⟨rfl, rfl⟩ := Prod.mk.inj (Option.some.inj ha)
    rw [hnode] at hids ⊢
    exact ⟨ConnectionLru.insertLocked_oneEach h t id node, .adds hnew hids rfl⟩
  | pop t id =>
    obtain ⟨hone, hids, -⟩ := ConnectionLru.popLocked_spec h t id
    cases ha
    exact ⟨hone, .moves hids (fun _ hc => by cases hc) fun _ _ hp => by cases hp⟩
  | store =>
    cases ha
    exact ⟨h, .moves (fun n => rfl) (fun _ hc => by cases hc) fun _ _ hp => by cases hp⟩
  | clear =>
    obtain ⟨hone, hids, -⟩ := ConnectionLru.drainLocked_spec h
    cases ha
    exact ⟨hone, .moves hids (fun _ hc => by cases hc) fun _ _ hp => by cases hp⟩
  | inserted n m => cases ha
  | popped node => cases ha
  | drained => cases ha

omit [DecidableEq U] in
/-- A step keeps each node in one place, and track of its own node and of the others. -/
theorem Effect.keeps {i n : Nat} {p p' : Place U M} {l l' : ConnectionLru C U M} (he : Effect i p p' l l') (hi : i < n)
    (h : Placed n l) (ht : Tracked i p l) (hone : l'.OneEach) :
    Placed n l' ∧ Tracked i p' l' ∧ ∀ j q, j ≠ i → Tracked j q l → Tracked j q l' := by
  cases he with
  | moves hids hcarries hnot =>
    have hmem := ConnectionLru.mem_ids_of_count hids
    have hsame : ∀ m, m ∈ l'.ids ↔ m ∈ l.ids := fun m => (hmem m).trans (or_iff_left List.not_mem_nil)
    refine ⟨⟨hone, ?_, fun m hm => h.made m ((hsame m).mp hm)⟩, ⟨fun node hc => ?_, fun m r hp => ?_⟩, fun j q _ hq => ?_⟩
    · refine List.nodup_iff_count_le_one.mpr fun m => ?_
      rw [hids m]
      exact List.nodup_iff_count_le_one.mp h.nodup m
    · rw [hsame]
      exact ht.before node (hcarries node hc)
    · exact absurd hp (hnot m r)
    · refine ⟨fun node hc => ?_, fun m r hp => ?_⟩
      · rw [hsame]
        exact hq.before node hc
      · rw [hsame]
        exact hq.after m r hp
  | adds hnew hids hp' =>
    have hmem := ConnectionLru.mem_ids_of_count hids
    refine ⟨⟨hone, ?_, fun m hm => ?_⟩, ⟨fun node hc => ?_, fun m r hp => ?_⟩, fun j q hj hq => ?_⟩
    · refine List.nodup_iff_count_le_one.mpr fun m => ?_
      rw [hids m]
      have hle := List.nodup_iff_count_le_one.mp h.nodup m
      by_cases hm : m = i
      · have hone : l.ids.count i + [i].count i = 1 := by
          rw [List.count_eq_zero.mpr hnew, List.count_singleton_self]
        rw [hm]
        exact Nat.le_of_eq hone
      · rw [List.count_eq_zero.mpr fun hin => hm (List.mem_singleton.mp hin)]
        omega
    · rcases (hmem m).mp hm with hm | hm
      · exact h.made m hm
      · rw [List.mem_singleton.mp hm]
        exact hi
    · rw [hp'] at hc
      cases hc
    · rw [hp'] at hp
      cases hp
      exact ⟨rfl, (hmem _).mpr (.inr (List.mem_singleton_self _))⟩
    · refine ⟨fun node hc => ?_, fun m r hp => ?_⟩
      · obtain ⟨hnode, hnot⟩ := hq.before node hc
        refine ⟨hnode, fun hin => ?_⟩
        rcases (hmem j).mp hin with hin | hin
        · exact hnot hin
        · exact hj (List.mem_singleton.mp hin)
      · obtain ⟨hm, hin⟩ := hq.after m r hp
        exact ⟨hm, (hmem j).mpr (.inl hin)⟩

omit [DecidableEq U] in
theorem start_tracked {n : Nat} {l : ConnectionLru C U M} (h : Placed n l) (call : Call U M) :
    Placed (n + 1) l ∧ Tracked n (start n call) l := by
  refine ⟨⟨h.oneEach, h.nodup, fun m hm => Nat.lt_succ_of_lt (h.made m hm)⟩, fun node hc => ?_, fun m r hp => ?_⟩
  · cases call with
    | insert t id metadata =>
      cases hc
      exact ⟨rfl, fun hin => Nat.lt_irrefl n (h.made n hin)⟩
    | pop t id => cases hc
    | drain => cases hc
  · cases call with
    | insert t id metadata => cases hp
    | pop t id => cases hp
    | drain => cases hp

variable {s s' : Calls C U M} {e : Event (Call U M) Unit}

omit [DecidableEq U] in
theorem inv_init (lruSize : Nat) : Inv (init lruSize : Calls C U M) :=
  Interleaved.kept_nil ⟨List.nodup_nil, List.nodup_nil, fun m hm => by cases hm⟩

theorem step_inv (h : Inv s) (hs : step e s = some s') : Inv s' := by
  refine h.step (fun n call l hl => start_tracked hl call) (fun i p u l' p' hp ha => ?_) hs
  obtain ⟨hone, heffect⟩ := act_effect h.shared.oneEach (h.each i p hp) ha
  obtain ⟨hi, -⟩ := List.getElem?_eq_some_iff.mp hp
  obtain ⟨hplaced, hown, hothers⟩ := heffect.keeps hi h.shared (h.each i p hp) hone
  exact ⟨hplaced, hown, fun j q hj _ => hothers j q hj⟩

/-! ## After a drain -/

omit [DecidableEq U] in
/-- A node in a cache was not notified. -/
theorem Placed.not_notified {n m : Nat} {l : ConnectionLru C U M} (h : Placed n l) (hm : m ∈ l.cached) :
    m ∉ l.notified := by
  intro hn
  have hle := List.nodup_iff_count_le_one.mp h.nodup m
  have hpos := List.count_pos_iff.mpr hm
  have hpos' := List.count_pos_iff.mpr hn
  rw [ConnectionLru.count_ids] at hle
  omega

omit [DecidableEq U] in
theorem Placed.forgotten_iff (h : Placed s.threads.length s.shared) :
    Forgotten s ↔ Drained s ∧ s.shared.cached ≠ [] := by
  unfold Forgotten
  refine and_congr_right fun _ => ⟨?_, fun hne => ?_⟩
  · rintro ⟨n, hn, -⟩ hnil
    rw [hnil] at hn
    cases hn
  · obtain ⟨n, hn⟩ := List.exists_mem_of_ne_nil _ hne
    exact ⟨n, hn, h.not_notified hn⟩

omit [RecencyCache C] [DecidableEq U] in
/-- A drain has returned after a step just if it had before, or returns now. -/
theorem drained_set {i : Nat} {p p' : Place U M} {l : ConnectionLru C U M} (hp : s.threads[i]? = some p)
    (hne : p ≠ .drained) : Drained (⟨l, s.threads.set i p'⟩ : Calls C U M) ↔ p' = .drained ∨ Drained s := by
  unfold Drained
  constructor
  · intro h
    obtain ⟨j, hj⟩ := List.mem_iff_getElem?.mp h
    rcases Interleaved.getElem_set hj with ⟨-, heq⟩ | ⟨-, hj⟩
    · exact .inl heq.symm
    · exact .inr (List.mem_of_getElem? hj)
  · rintro (rfl | h)
    · obtain ⟨hi, -⟩ := List.getElem?_eq_some_iff.mp hp
      exact List.mem_set hi _
    · obtain ⟨j, hj⟩ := List.mem_iff_getElem?.mp h
      have hji : i ≠ j := by
        rintro rfl
        exact hne (Option.some.inj (hp.symm.trans hj))
      refine List.mem_of_getElem? (i := j) ?_
      rw [List.getElem?_set_ne hji]
      exact hj

omit [DecidableEq U] in
theorem not_forgotten_iff (h : Inv s) : ¬ Forgotten s ↔ (Drained s → s.shared.cached = []) := by
  rw [h.shared.forgotten_iff]
  exact ⟨fun hno hd => by_contra fun hne => hno ⟨hd, hne⟩, fun hall hboth => hboth.2 (hall hboth.1)⟩

omit [DecidableEq U] in
/-- A step that ends no drain, and fills no empty cache. -/
theorem stays_empty {i : Nat} {p p' : Place U M} {l : ConnectionLru C U M} (hno : Drained s → s.shared.cached = [])
    (hp : s.threads[i]? = some p) (hne : p ≠ .drained) (hne' : p' ≠ .drained)
    (hempty : s.shared.cached = [] → l.cached = []) (hd : Drained (⟨l, s.threads.set i p'⟩ : Calls C U M)) :
    l.cached = [] :=
  hempty (hno (((drained_set hp hne).mp hd).resolve_left hne'))

/-- A late insert leaves its node in a cache, and no other step leaves one there. -/
theorem forgotten_step (h : Inv s) (hno : ¬ Forgotten s) (hs : step e s = some s') : ¬ Forgotten s' ↔ ¬ Late e s := by
  rw [not_forgotten_iff (step_inv h hs)]
  rw [not_forgotten_iff h] at hno
  cases e with
  | enter call =>
    cases hs
    refine ⟨fun _ => id, fun _ hd => hno ?_⟩
    rcases List.mem_append.mp hd with hd | hd
    · exact hd
    · cases call with
      | insert t id metadata => cases List.mem_singleton.mp hd
      | pop t id => cases List.mem_singleton.mp hd
      | drain => cases List.mem_singleton.mp hd
  | take i u =>
    obtain ⟨p, l', p', hp, ha, rfl⟩ := Interleaved.step_take hs
    have hone := h.shared.oneEach
    -- no step but an insert under the lock is late
    have hnot : (∀ t id node, p ≠ .put t id node) → ¬ Late (.take i u) s := by
      rintro hne ⟨⟨t, id, node, hput⟩, -⟩
      exact hne t id node (Option.some.inj (hp.symm.trans hput))
    cases p with
    | load t id node =>
      have hl' : l'.cached = s.shared.cached ∧ p' ≠ .drained := by
        rw [act] at ha
        split at ha
        · cases ha
          exact ⟨rfl, fun hd => by cases hd⟩
        · cases ha
          exact ⟨rfl, fun hd => by cases hd⟩
      exact ⟨fun _ => hnot fun _ _ _ hd => (by cases hd),
        fun _ => stays_empty hno hp (fun hd => by cases hd) hl'.2 fun hnil => hl'.1.trans hnil⟩
    | put t id node =>
      rw [act_put] at ha
      obtain ⟨rfl, rfl⟩ := Prod.mk.inj (Option.some.inj ha)
      have hd := @drained_set C U M s i (.put t id node) (.inserted node.removalNotifier (s.shared.insertLocked t id node).1)
        (s.shared.insertLocked t id node).2 hp (fun hd => by cases hd)
      constructor
      · rintro hall ⟨-, hdrained, hcap⟩
        have hmem := ConnectionLru.insertLocked_mem hcap t id node
        rw [hall (hd.mpr (.inr hdrained))] at hmem
        cases hmem
      · intro hlate hdrained
        have hdrained' := (hd.mp hdrained).resolve_left fun heq => by cases heq
        refine ConnectionLru.insertLocked_empty hone ?_ (hno hdrained') t id node
        by_contra hcap
        exact hlate ⟨⟨t, id, node, hp⟩, hdrained', hcap⟩
    | pop t id =>
      obtain ⟨-, -, hempty⟩ := ConnectionLru.popLocked_spec hone t id
      cases ha
      exact ⟨fun _ => hnot fun _ _ _ hd => (by cases hd),
        fun _ => stays_empty hno hp (fun hd => by cases hd) (fun hd => by cases hd) hempty⟩
    | store =>
      cases ha
      exact ⟨fun _ => hnot fun _ _ _ hd => (by cases hd),
        fun _ => stays_empty hno hp (fun hd => by cases hd) (fun hd => by cases hd) id⟩
    | clear =>
      obtain ⟨-, -, hnil⟩ := ConnectionLru.drainLocked_spec hone
      cases ha
      exact ⟨fun _ => hnot fun _ _ _ hd => (by cases hd), fun _ _ => hnil⟩
    | inserted n m => cases ha
    | popped node => cases ha
    | drained => cases ha

omit [DecidableEq U] in
/-- Of a node that was inserted, once no cache holds one. -/
theorem settled_iff (h : Inv s) (hnil : s.shared.cached = []) {n : Nat} {m : Option M} (hn : .inserted n m ∈ s.threads) :
    (n ∈ s.shared.notified ∨ n ∈ s.shared.popped) ↔ n ∉ s.shared.replaced := by
  obtain ⟨i, hi⟩ := List.mem_iff_getElem?.mp hn
  obtain ⟨rfl, hin⟩ := (h.each i _ hi).after n m rfl
  have hpos := List.count_pos_iff.mpr hin
  have hle := List.nodup_iff_count_le_one.mp h.shared.nodup n
  rw [ConnectionLru.count_ids, hnil, List.count_nil] at hpos hle
  rw [← List.count_pos_iff, ← List.count_pos_iff, ← List.count_pos_iff]
  omega

/-- In any order of the steps of any calls, no cache ever holds a node that was not
    notified once a drain has returned, just if no insert takes the lock after one. Then
    a node that was inserted is notified or popped, unless another one replaced it. -/
theorem drain_leaves_none_iff (lruSize : Nat) (evs : List (Event (Call U M) Unit)) (s : Calls C U M) :
    (Run step (fun _ s => ¬ Forgotten s) (init lruSize) evs s ∧ ¬ Forgotten s ↔
      Run step (fun e s => ¬ Late e s) (init lruSize) evs s) ∧
    (Run step (fun e s => ¬ Late e s) (init lruSize) evs s → Drained s →
      ∀ n m, .inserted n m ∈ s.threads →
        ((n ∈ s.shared.notified ∨ n ∈ s.shared.popped) ↔ n ∉ s.shared.replaced)) := by
  have hstart := @inv_init C U M _ lruSize
  have hiff : Run step (fun _ s => ¬ Forgotten s) (init lruSize) evs s ∧ ¬ Forgotten s ↔
      Run step (fun e s => ¬ Late e s) (init lruSize) evs s := by
    refine Run.avoids_iff (fun _ _ _ hi hs => step_inv hi hs) (fun _ _ _ hi hno hs => forgotten_step hi hno hs) hstart ?_
    rintro ⟨hd, -⟩
    cases hd
  refine ⟨hiff, fun h hd n m hn => ?_⟩
  have hinv := Run.invariant (fun _ _ _ hi _ hs => step_inv hi hs) h hstart
  exact settled_iff hinv ((not_forgotten_iff hinv).mp (hiff.mpr h).2 hd) hn

/-- An insert finds the flag clear, and takes the lock after the drain. -/
def straddling : List (Event (Call Nat Unit) Unit) :=
  [.enter (.insert 0 7 ()), .take 0 (), .enter .drain, .take 1 (), .take 1 (), .take 0 ()]

theorem drain_leaves_node :
    ∃ s : Calls ListCache Nat Unit, Run step (fun _ _ => True) (init 8) straddling s ∧
      s.threads = [.inserted 0 none, .drained] ∧ s.shared.cached = [0] ∧ s.shared.notified = [] ∧ s.shared.popped = [] :=
  ⟨_, run_get _ _ _ _ (by rfl), by rfl, by rfl, by rfl, by rfl⟩

end Glaive.Pool.Draining
