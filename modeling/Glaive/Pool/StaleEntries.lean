/-
  Glaive.Pool.StaleEntries — the pool under many worker threads, one whole call at a
  time (see `Glaive.Pool.Pool`).

  A connection found by another thread than the one that added it leaves its entry
  behind, in the cache of the thread that added it. History fields of the state say
  which insertion an entry is from (`created`) and which thread was the last to add
  under an id (`lastAdder`); each connection in the pool carries the number of its
  insertion.

  Proved: an add that drops an entry takes out of the pool the connection that came
  with that entry, and no other, in exactly the runs where no thread drops an entry
  whose id is idle again through another thread (`evictions_own_iff`).
-/

import Glaive.Lib.Runs
import Glaive.Pool.Pool

namespace Glaive.Pool

open Glaive.Lib

structure Shared (Q : Type → Type) (C : Type → Type → Type) (S : Type) where
  pool : ConnectionPool Q C (Nat × S)
  /-- The number of the next insertion. -/
  clock : Nat
  /-- The insertion an entry of a thread is from. -/
  created : ThreadId → ConnectionId → Option Nat
  lastAdder : ConnectionId → Option ThreadId

inductive SharedCall (S : Type) where
  | add (t : ThreadId) (m : ConnectionMetadata) (connection : S)
  | find (t : ThreadId) (g : ConnectionGroupId) (first : Nat)

namespace Shared

variable {Q : Type → Type} [BoundedQueue Q] {C : Type → Type → Type} {S : Type}

/-- An id comes back only once its connection has left the pool. -/
def Fresh : SharedCall S → Shared Q C S → Prop
  | .add _ m _, s => ∀ g, m.uniqueId ∉ (s.pool.held g).map Prod.fst
  | .find _ _ _, _ => True

/-- Nothing is held outside the group `G`. -/
def Only (G : ConnectionGroupId) (s : Shared Q C S) : Prop := ∀ g, g ≠ G → s.pool.held g = []

theorem Only.fresh {G : ConnectionGroupId} {s : Shared Q C S} (h : s.Only G) {m : ConnectionMetadata}
    (hm : m.uniqueId ∉ (s.pool.held G).map Prod.fst) (t : ThreadId) (c : S) : Fresh (.add t m c) s := by
  intro g
  by_cases hg : g = G
  · subst hg; exact hm
  · rw [h g hg]; simp

variable [RecencyCache C]

def init (n : Nat) : Shared Q C S := ⟨ConnectionPool.new n, 0, fun _ _ => none, fun _ => none⟩

def step : SharedCall S → Shared Q C S → Option (Shared Q C S)
  | .add t m c, s => (s.pool.addConnectionToPool t m (s.clock, c)).map fun pool =>
    { pool := pool
      clock := s.clock + 1
      created := Function.update s.created t (Function.update (s.created t) m.uniqueId (some s.clock))
      lastAdder := Function.update s.lastAdder m.uniqueId (some t) }
  | .find t g first, s => some { s with pool := (s.pool.getConnectionFromPool t g first).2 }

/-- What an add takes out of the pool came with the entry its thread had under that id. -/
def EvictsOwn (e : SharedCall S) (s : Shared Q C S) : Prop :=
  match e with
  | .add t _ _ => ∀ s', step e s = some s' → ∀ g id k c, (id, k, c) ∈ s.pool.held g → (id, k, c) ∉ s'.pool.held g →
    s.created t id = some k
  | .find _ _ _ => True

/-- Where the id of an entry a thread drops is idle in the group of the entry, the
    thread was the last to add under it. -/
def DropsLastAdded (e : SharedCall S) (s : Shared Q C S) : Prop :=
  match e with
  | .add t m _ => ∀ id ev, s.pool.evictedBy t m = some (id, ev) → id ∈ (s.pool.held ev.groupId).map Prod.fst →
    s.lastAdder id = some t
  | .find _ _ _ => True

/-! ## What holds throughout -/

structure Inv (s : Shared Q C S) : Prop where
  sound : s.pool.Sound
  open_ : s.pool.lru.drainStatusFlag = false
  keys : ∀ t x, x ∈ s.pool.cached t → x.2.uniqueId = x.1
  stored : ∀ g id k c, (id, k, c) ∈ s.pool.held g → ∃ t, s.lastAdder id = some t ∧ s.created t id = some k
  past : ∀ t id k, s.created t id = some k → k < s.clock
  distinct : ∀ t t' id k, s.created t id = some k → s.created t' id = some k → t = t'

theorem inv_init (n : Nat) : (init n : Shared Q C S).Inv where
  sound := nofun
  open_ := rfl
  keys t x hx := by
    have he : (init n : Shared Q C S).pool.cached t = [] := RecencyCache.entries_unbounded
    rw [he] at hx
    cases hx
  stored := nofun
  past := nofun
  distinct := nofun

variable {s s' : Shared Q C S}

/-- The entry dropped has the id of its metadata. -/
theorem Inv.key_evictedBy (h : s.Inv) {t : ThreadId} {m : ConnectionMetadata} {id : ConnectionId}
    {ev : ConnectionMetadata} (he : s.pool.evictedBy t m = some (id, ev)) : ev.uniqueId = id := by
  unfold ConnectionPool.evictedBy at he
  split at he
  · have hmem := List.mem_of_mem_head? he
    unfold ConnectionLru.inserted at hmem
    rw [List.mem_append, List.mem_filter, List.mem_singleton] at hmem
    rcases hmem with ⟨hmem, -⟩ | hmem
    · exact h.keys t _ hmem
    · cases hmem; rfl
  · cases he

/-- An add, with what it does to the pool. -/
theorem Inv.add_spec (h : s.Inv) {t : ThreadId} {m : ConnectionMetadata} {c : S} (hf : Fresh (.add t m c) s) :
    ∃ p', step (.add t m c) s = some
        { pool := p'
          clock := s.clock + 1
          created := Function.update s.created t (Function.update (s.created t) m.uniqueId (some s.clock))
          lastAdder := Function.update s.lastAdder m.uniqueId (some t) } ∧ p'.Sound ∧
      p'.lru = (s.pool.lru.insertConnection t m.uniqueId m).2 ∧
      ∀ g x, x ∈ p'.held g ↔ g = m.groupId ∧ x = (m.uniqueId, s.clock, c) ∨
        x ∈ s.pool.held g ∧ ∀ e, s.pool.evictedBy t m = some e → g = e.2.groupId → x.1 ≠ e.2.uniqueId := by
  obtain ⟨p', hp, hrest⟩ := ConnectionPool.addConnectionToPool_spec h.sound h.open_ t hf (s.clock, c)
  exact ⟨p', by simp only [step, hp, Option.map_some], hrest⟩

theorem update_created (f : ThreadId → ConnectionId → Option Nat) (t u : ThreadId) (id id' : ConnectionId)
    (k : Option Nat) :
    Function.update f t (Function.update (f t) id k) u id' = if u = t ∧ id' = id then k else f u id' := by
  by_cases hu : u = t
  · subst hu
    by_cases hid : id' = id
    · subst hid; simp
    · simp [hid]
  · simp [hu]

theorem Inv.add (h : s.Inv) {t : ThreadId} {m : ConnectionMetadata} {c : S} (hf : Fresh (.add t m c) s)
    (hs : step (.add t m c) s = some s') : s'.Inv := by
  obtain ⟨p', hp, hsound, hlru, hheld⟩ := h.add_spec hf
  rw [hp] at hs
  cases hs
  obtain ⟨cache, hput, hcache⟩ := ConnectionLru.insertConnection_spec h.open_ t m.uniqueId m
  rw [hput] at hlru
  have old : ∀ g id k c', (id, k, c') ∈ s.pool.held g → id ≠ m.uniqueId := by
    intro g id k c' hx he
    subst he
    exact hf g (List.mem_map_of_mem hx)
  refine ⟨hsound, by rw [hlru]; exact h.open_, fun u x hx => ?_, fun g id k c' hx => ?_, fun u id k hk => ?_,
    fun u u' id k hk hk' => ?_⟩
  · -- the cache of `t` has the new entry and old ones, the others are as they were
    unfold ConnectionPool.cached at hx
    rw [hlru] at hx
    by_cases hu : u = t
    · subst hu
      rw [ConnectionLru.setStore_same, hcache] at hx
      have hmem : x ∈ s.pool.lru.inserted u m.uniqueId m := by
        split at hx
        · exact List.mem_of_mem_tail hx
        · exact hx
      unfold ConnectionLru.inserted at hmem
      rw [List.mem_append, List.mem_filter, List.mem_singleton] at hmem
      rcases hmem with ⟨hmem, -⟩ | rfl
      · exact h.keys u x hmem
      · rfl
    · rw [ConnectionLru.setStore_ne _ hu] at hx
      exact h.keys u x hx
  · rcases (hheld g _).mp hx with ⟨-, he⟩ | ⟨hx, -⟩
    · simp only [Prod.mk.injEq] at he
      obtain ⟨rfl, rfl, rfl⟩ := he
      exact ⟨t, Function.update_self .., by simp only [update_created, and_self, if_true]⟩
    · have hne := old g id k c' hx
      obtain ⟨u, hu, hc⟩ := h.stored g id k c' hx
      refine ⟨u, by simp only [Function.update_of_ne hne]; exact hu, ?_⟩
      simp only [update_created, if_neg (fun e : u = t ∧ id = m.uniqueId => hne e.2)]
      exact hc
  · simp only [update_created] at hk
    show k < s.clock + 1
    split at hk
    · cases hk; omega
    · have := h.past u id k hk
      omega
  · -- the number of this insertion is new
    simp only [update_created] at hk hk'
    split at hk <;> split at hk'
    · rename_i h1 h2; exact h1.1.trans h2.1.symm
    · cases hk
      have := h.past _ _ _ hk'
      omega
    · cases hk'
      have := h.past _ _ _ hk
      omega
    · exact h.distinct u u' id k hk hk'

theorem Inv.find (h : s.Inv) (t : ThreadId) (g : ConnectionGroupId) (first : Nat) :
    ({ s with pool := (s.pool.getConnectionFromPool t g first).2 } : Shared Q C S).Inv := by
  rcases ConnectionPool.getConnectionFromPool_spec h.sound t g first with
    ⟨-, p', hget, hlru, hch⟩ | ⟨id, x, p', hget, hlru, rest, hperm, hch⟩
  · rw [hget]
    refine ⟨hch.sound, by rw [hlru]; exact h.open_, fun u x hx => ?_, fun g' id k c hx => ?_, h.past, h.distinct⟩
    · rw [ConnectionPool.cached, hlru] at hx
      exact h.keys u x hx
    · by_cases hg : g' = g
      · subst hg
        have := hch.here.subset hx
        cases this
      · rw [hch.elsewhere g' hg] at hx
        exact h.stored g' id k c hx
  · rw [hget]
    refine ⟨hch.sound, by rw [hlru]; exact h.open_, fun u y hy => ?_, fun g' id' k c hx => ?_, h.past, h.distinct⟩
    · rw [ConnectionPool.cached, hlru] at hy
      unfold ConnectionLru.popConnection at hy
      by_cases hu : u = t
      · subst hu
        rw [ConnectionLru.setStore_same, RecencyCache.entries_pop] at hy
        exact h.keys u y (List.mem_of_mem_filter hy)
      · rw [ConnectionLru.setStore_ne _ hu] at hy
        exact h.keys u y hy
    · by_cases hg : g' = g
      · subst hg
        exact h.stored g' id' k c (hperm.subset (List.mem_cons_of_mem _ (hch.here.subset hx)))
      · rw [hch.elsewhere g' hg] at hx
        exact h.stored g' id' k c hx

theorem Inv.step (h : s.Inv) {e : SharedCall S} (hf : Fresh e s) (hs : Shared.step e s = some s') : s'.Inv := by
  cases e with
  | add t m c => exact h.add hf hs
  | find t g first =>
    cases hs
    exact h.find t g first

/-! ## Evictions -/

/-- Given the invariant, an add takes out a connection of its own entry just where the
    thread was the last to add under the id of the entry. -/
theorem Inv.evictsOwn_iff (h : s.Inv) {e : SharedCall S} (hf : Fresh e s) : EvictsOwn e s ↔ DropsLastAdded e s := by
  cases e with
  | find t g first => exact Iff.rfl
  | add t m c =>
    obtain ⟨p', hp, -, -, hheld⟩ := h.add_spec hf
    constructor
    · intro hown id ev hev hidle
      obtain ⟨⟨id', k, c'⟩, hx, rfl⟩ := List.mem_map.mp hidle
      have hkey := h.key_evictedBy hev
      have hgone : (id', k, c') ∉ p'.held ev.groupId := by
        rw [hheld]
        intro h
        rcases h with ⟨-, he⟩ | ⟨-, hne⟩
        · cases he
          exact hf ev.groupId hidle
        · exact hne _ hev rfl hkey.symm
      have hmine := hown _ hp ev.groupId id' k c' hx hgone
      obtain ⟨u, hu, hc⟩ := h.stored _ _ _ _ hx
      rw [h.distinct t u _ _ hmine hc]
      exact hu
    · intro hlast s' hs g id k c' hx hgone
      rw [hp] at hs
      cases hs
      rw [hheld] at hgone
      have hdrop : ∃ e, s.pool.evictedBy t m = some e ∧ g = e.2.groupId ∧ id = e.2.uniqueId := by
        by_contra hno
        refine hgone (Or.inr ⟨hx, fun e he hg hid => hno ⟨e, he, hg, hid⟩⟩)
      obtain ⟨⟨id', ev⟩, hev, rfl, rfl⟩ := hdrop
      have hkey := h.key_evictedBy hev
      subst hkey
      obtain ⟨u, hu, hc⟩ := h.stored _ _ _ _ hx
      rw [hlast _ _ hev (List.mem_map_of_mem hx)] at hu
      cases hu
      exact hc

/-- In the runs where a dropped entry's id is not idle through a later add of another
    thread, and only in those, adds take out of the pool only what came with the entry
    they drop. -/
theorem evictions_own_iff (n : Nat) (evs : List (SharedCall S)) (s : Shared Q C S) :
    Run step (fun e s => Fresh e s ∧ EvictsOwn e s) (init n) evs s ↔
      Run step (fun e s => Fresh e s ∧ DropsLastAdded e s) (init n) evs s :=
  Run.congr (fun _ _ _ hi hf hs => hi.step hf hs) (fun _ _ hi hf => hi.evictsOwn_iff hf) (inv_init n)

/-! ## A stale entry -/

theorem Only.add {G : ConnectionGroupId} (h : s.Only G) (hi : s.Inv) {t : ThreadId} {m : ConnectionMetadata} {c : S}
    (hf : Fresh (.add t m c) s) (hG : m.groupId = G) (hs : Shared.step (.add t m c) s = some s') : s'.Only G := by
  obtain ⟨p', hp, -, -, hheld⟩ := hi.add_spec hf
  rw [hp] at hs
  cases hs
  intro g hg
  rw [List.eq_nil_iff_forall_not_mem]
  intro x hx
  rcases (hheld g x).mp hx with ⟨he, -⟩ | ⟨hx, -⟩
  · exact hg (he.trans hG)
  · rw [h g hg] at hx
    cases hx

theorem Only.find {G : ConnectionGroupId} (h : s.Only G) (hi : s.Inv) (t : ThreadId) (first : Nat)
    (hs : Shared.step (.find t G first) s = some s') : s'.Only G := by
  cases hs
  intro g hg
  show (s.pool.getConnectionFromPool t G first).2.held g = []
  rcases ConnectionPool.getConnectionFromPool_spec hi.sound t G first with
    ⟨-, p', hget, -, hch⟩ | ⟨_, _, p', hget, -, _, -, hch⟩
  · rw [hget, hch.elsewhere g hg, h g hg]
  · rw [hget, hch.elsewhere g hg, h g hg]

/-- Thread 1 adds id 5, thread 2 finds that connection and adds id 5 again: the next add
    of thread 1 drops its old entry, and with it the connection of thread 2. -/
theorem stale_entry_evicts_other :
    ∃ s : Shared ListQueue ListCache Unit,
      Run step Fresh (init 1) [.add 1 ⟨7, 5⟩ (), .find 2 7 0, .add 2 ⟨7, 5⟩ ()] s ∧ Fresh (.add 1 ⟨7, 6⟩ ()) s ∧
      ¬ EvictsOwn (.add 1 ⟨7, 6⟩ ()) s := by
  have h0 : (init 1 : Shared ListQueue ListCache Unit).Inv := inv_init 1
  have o0 : (init 1 : Shared ListQueue ListCache Unit).Only 7 := fun _ _ => rfl
  have f1 : Fresh (.add 1 ⟨7, 5⟩ ()) (init 1 : Shared ListQueue ListCache Unit) := o0.fresh (by decide) 1 ()
  obtain ⟨s1, e1⟩ : ∃ s1, step (.add 1 ⟨7, 5⟩ ()) (init 1 : Shared ListQueue ListCache Unit) = some s1 := ⟨_, rfl⟩
  have h1 := h0.step f1 e1
  have o1 := o0.add h0 f1 rfl e1
  obtain ⟨s2, e2⟩ : ∃ s2, step (.find 2 7 0) s1 = some s2 := ⟨_, rfl⟩
  have f2 : Fresh (.find 2 7 0) s1 := trivial
  have h2 := h1.step f2 e2
  have o2 := o1.find h1 2 0 e2
  have f3 : Fresh (.add 2 ⟨7, 5⟩ ()) s2 := o2.fresh (by cases e1; cases e2; decide) 2 ()
  obtain ⟨s3, e3⟩ : ∃ s3, step (.add 2 ⟨7, 5⟩ ()) s2 = some s3 := by cases e1; cases e2; exact ⟨_, rfl⟩
  have o3 := o2.add h2 f3 rfl e3
  have f4 : Fresh (.add 1 ⟨7, 6⟩ ()) s3 := o3.fresh (by cases e1; cases e2; cases e3; decide) 1 ()
  refine ⟨s3, .cons f1 e1 (.cons f2 e2 (.cons f3 e3 (.nil _))), f4, fun hown => ?_⟩
  obtain ⟨s4, e4⟩ : ∃ s4, step (.add 1 ⟨7, 6⟩ ()) s3 = some s4 := by cases e1; cases e2; cases e3; exact ⟨_, rfl⟩
  have := hown s4 e4 7 5 1 () (by cases e1; cases e2; cases e3; decide) (by cases e1; cases e2; cases e3; cases e4; decide)
  cases e1
  cases e2
  cases e3
  exact absurd this (by decide)

end Shared

end Glaive.Pool
