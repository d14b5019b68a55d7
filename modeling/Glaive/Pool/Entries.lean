/-
  Glaive.Pool.Entries — what the pool and the caches of the worker threads keep true of
  each other, whichever thread makes the next call (see `Glaive.Pool.StaleEntries`).

  A cache may hold entries of connections that have left the pool. Of one that is in it,
  the thread that added it last has an entry; so no connection is idle that no cache
  would ever drop, and what a cache drops for an add is not of a connection that stays.
-/

import Glaive.Pool.StaleEntries

namespace Glaive.Pool

open Glaive.Lib

namespace Shared

variable {Q : Type → Type} [BoundedQueue Q] {C : Type → Type → Type} [RecencyCache C] {S : Type}

/-- Each id is held in one group; the thread that was the last to add under it has an
    entry for it, and no thread has more than `n`. -/
structure Kept (n : Nat) (s : Shared Q C S) : Prop where
  inv : s.Inv
  size : s.pool.lru.sizeCapacity = n
  fits : ∀ t, (s.pool.cached t).length ≤ n
  once : ∀ g g' x x', x ∈ s.pool.held g → x' ∈ s.pool.held g' → x.1 = x'.1 → g = g' ∧ x = x'
  entry : ∀ g x t, x ∈ s.pool.held g → s.lastAdder x.1 = some t →
    ∃ e ∈ s.pool.cached t, e.1 = x.1 ∧ e.2.groupId = g
  numbered : ∀ t t' id id' k, s.created t id = some k → s.created t' id' = some k → t = t' ∧ id = id'
  keys : ∀ t, ((s.pool.cached t).map Prod.fst).Nodup

theorem kept_init (n : Nat) : (init n : Shared Q C S).Kept n where
  inv := inv_init n
  size := rfl
  fits t := by
    have he : (init n : Shared Q C S).pool.cached t = [] := RecencyCache.entries_unbounded
    rw [he]
    exact Nat.zero_le n
  once := nofun
  entry := nofun
  numbered := nofun
  keys t := by
    have he : (init n : Shared Q C S).pool.cached t = [] := RecencyCache.entries_unbounded
    rw [he]
    exact List.nodup_nil

variable {s s' : Shared Q C S} {n : Nat}

/-- A connection leaves the pool, and the entry under its id the cache of the thread that
    takes it. -/
theorem Kept.leave (h : s.Kept n) {p : ConnectionPool Q C (Nat × S)} {t : ThreadId} {g : ConnectionGroupId}
    {id : ConnectionId} (hinv : ({ s with pool := p } : Shared Q C S).Inv) (hlru : p.lru = s.pool.lru.popConnection t id)
    (hheld : ∀ g' x, x ∈ p.held g' ↔ x ∈ s.pool.held g' ∧ (g' = g → x.1 ≠ id))
    (hat : ∀ g' x, x ∈ s.pool.held g' → x.1 = id → g' = g) : ({ s with pool := p } : Shared Q C S).Kept n := by
  have hne : ∀ g' x, x ∈ p.held g' → x.1 ≠ id := by
    intro g' x hx hid
    obtain ⟨hx, hg⟩ := (hheld g' x).mp hx
    exact hg (hat g' x hx hid) hid
  have hcached : ∀ u, p.cached u = if u = t then (s.pool.cached u).filter (·.1 ≠ id) else s.pool.cached u := by
    intro u
    unfold ConnectionPool.cached
    rw [hlru, ConnectionLru.popConnection]
    by_cases hu : u = t
    · subst hu
      rw [ConnectionLru.setStore_same, RecencyCache.entries_pop, if_pos rfl]
    · rw [ConnectionLru.setStore_ne _ hu, if_neg hu]
  refine ⟨hinv, by rw [hlru]; exact h.size, fun u => ?_, fun g1 g2 x x' hx hx' => ?_, fun g' x u hx hu => ?_, h.numbered,
    fun u => ?_⟩
  · show (p.cached u).length ≤ n
    rw [hcached]
    split
    · exact Nat.le_trans (List.length_filter_le _ _) (h.fits u)
    · exact h.fits u
  · exact h.once g1 g2 x x' ((hheld _ _).mp hx).1 ((hheld _ _).mp hx').1
  · obtain ⟨e, he, heid, heg⟩ := h.entry g' x u ((hheld _ _).mp hx).1 hu
    refine ⟨e, ?_, heid, heg⟩
    show e ∈ p.cached u
    rw [hcached]
    split
    · rw [List.mem_filter, decide_eq_true_eq, heid]
      exact ⟨he, hne g' x hx⟩
    · exact he
  · show ((p.cached u).map Prod.fst).Nodup
    rw [hcached]
    split
    · exact (List.filter_sublist.map Prod.fst).nodup (h.keys u)
    · exact h.keys u

theorem Kept.find (h : s.Kept n) (t : ThreadId) (g : ConnectionGroupId) (first : Nat) :
    (∃ p, s.pool.getConnectionFromPool t g first = (none, p) ∧ s.pool.held g = [] ∧
        ({ s with pool := p } : Shared Q C S).Kept n ∧ ∀ g', p.held g' = s.pool.held g') ∨
      ∃ id c p, s.pool.getConnectionFromPool t g first = (some c, p) ∧ (id, c) ∈ s.pool.held g ∧
        ({ s with pool := p } : Shared Q C S).Kept n ∧
        ∀ g' x, x ∈ p.held g' ↔ x ∈ s.pool.held g' ∧ (g' = g → x.1 ≠ id) := by
  have hinv := h.inv.find t g first
  rcases ConnectionPool.getConnectionFromPool_spec h.inv.sound t g first with
    ⟨hnone, p, hget, hlru, hch⟩ | ⟨id, c, p, hget, hlru, rest, hperm, hch⟩
  · rw [hget] at hinv
    have hheld : ∀ g', p.held g' = s.pool.held g' := by
      intro g'
      by_cases hg : g' = g
      · subst hg
        rw [hnone]
        exact List.perm_nil.mp hch.here
      · exact hch.elsewhere g' hg
    have hcached : ∀ u, p.cached u = s.pool.cached u := fun u => by unfold ConnectionPool.cached; rw [hlru]
    refine .inl ⟨p, hget, hnone, ⟨hinv, by rw [hlru]; exact h.size, fun u => ?_, fun g1 g2 x x' hx hx' => ?_,
      fun g' x u hx hu => ?_, h.numbered, fun u => ?_⟩, hheld⟩
    · rw [hcached]
      exact h.fits u
    · rw [hheld] at hx hx'
      exact h.once g1 g2 x x' hx hx'
    · rw [hheld] at hx
      rw [hcached]
      exact h.entry g' x u hx hu
    · rw [hcached]
      exact h.keys u
  · rw [hget] at hinv
    have hmem : (id, c) ∈ s.pool.held g := hperm.subset (List.mem_cons_self ..)
    have hnodup : id ∉ rest.map Prod.fst := by
      have := (hperm.map Prod.fst).nodup_iff.mpr (h.inv.sound.nodup g)
      rw [List.map_cons, List.nodup_cons] at this
      exact this.1
    have hheld : ∀ g' x, x ∈ p.held g' ↔ x ∈ s.pool.held g' ∧ (g' = g → x.1 ≠ id) := by
      intro g' x
      by_cases hg : g' = g
      · subst hg
        rw [hch.here.mem_iff, ← hperm.mem_iff, List.mem_cons]
        constructor
        · intro hx
          refine ⟨.inr hx, fun _ hid => hnodup (hid ▸ List.mem_map_of_mem hx)⟩
        · intro hx
          rcases hx with ⟨rfl | hx, hne⟩
          · exact absurd rfl (hne rfl)
          · exact hx
      · rw [hch.elsewhere g' hg]
        exact ⟨fun hx => ⟨hx, fun he => absurd he hg⟩, fun hx => hx.1⟩
    exact .inr ⟨id, c, p, hget, hmem, h.leave hinv hlru hheld fun g' x hx hid => (h.once g' g x _ hx hmem hid).1, hheld⟩

/-- Where nothing else is held under the id, a close takes out what is. -/
theorem Kept.close (h : s.Kept n) (t : ThreadId) {m : ConnectionMetadata}
    (hat : ∀ g x, x ∈ s.pool.held g → x.1 = m.uniqueId → g = m.groupId) :
    ∃ p, s.pool.removeConnection t m = some p ∧ ({ s with pool := p } : Shared Q C S).Kept n ∧
      ∀ g x, x ∈ p.held g ↔ x ∈ s.pool.held g ∧ (g = m.groupId → x.1 ≠ m.uniqueId) := by
  obtain ⟨p, hp, hlru, hch⟩ := ConnectionPool.removeConnection_spec h.inv.sound t m
  have hheld : ∀ g x, x ∈ p.held g ↔ x ∈ s.pool.held g ∧ (g = m.groupId → x.1 ≠ m.uniqueId) := by
    intro g x
    by_cases hg : g = m.groupId
    · subst hg
      rw [hch.here.mem_iff, List.mem_filter, decide_eq_true_eq]
      simp
    · rw [hch.elsewhere g hg]
      exact ⟨fun hx => ⟨hx, fun he => absurd he hg⟩, fun hx => hx.1⟩
  have hinv : ({ s with pool := p } : Shared Q C S).Inv := by
    refine ⟨hch.sound, by rw [hlru]; exact h.inv.open_, fun u x hx => ?_, fun g id k c hx => ?_, h.inv.past, h.inv.distinct⟩
    · rw [ConnectionPool.cached, hlru, ConnectionLru.popConnection] at hx
      by_cases hu : u = t
      · subst hu
        rw [ConnectionLru.setStore_same, RecencyCache.entries_pop] at hx
        exact h.inv.keys u x (List.mem_of_mem_filter hx)
      · rw [ConnectionLru.setStore_ne _ hu] at hx
        exact h.inv.keys u x hx
    · exact h.inv.stored g id k c ((hheld _ _).mp hx).1
  exact ⟨p, hp, h.leave hinv hlru hheld hat, hheld⟩

/-- The cache of a thread after an add by `t`. With room for an entry at all, the one
    dropped is an older one. -/
theorem Kept.cached_add (h : s.Kept n) (hn : 0 < n) (t : ThreadId) (m : ConnectionMetadata)
    {p : ConnectionPool Q C (Nat × S)} (hlru : p.lru = (s.pool.lru.insertConnection t m.uniqueId m).2) :
    (∀ u, u ≠ t → p.cached u = s.pool.cached u) ∧ p.lru.sizeCapacity = n ∧
      (s.pool.evictedBy t m = none ∧
          p.cached t = (s.pool.cached t).filter (·.1 ≠ m.uniqueId) ++ [(m.uniqueId, m)] ∧ (p.cached t).length ≤ n ∨
        ∃ e rest, s.pool.evictedBy t m = some e ∧ (s.pool.cached t).filter (·.1 ≠ m.uniqueId) = e :: rest ∧
          p.cached t = rest ++ [(m.uniqueId, m)] ∧ (p.cached t).length ≤ n) := by
  obtain ⟨c, hput, hc⟩ := ConnectionLru.insertConnection_spec h.inv.open_ t m.uniqueId m
  rw [hput] at hlru
  have hold := Nat.le_trans (List.length_filter_le (fun x => decide (x.1 ≠ m.uniqueId)) (s.pool.cached t)) (h.fits t)
  have hcached : p.cached t = RecencyCache.entries c := by
    unfold ConnectionPool.cached
    rw [hlru, ConnectionLru.setStore_same]
  refine ⟨fun u hu => ?_, by rw [hlru]; exact h.size, ?_⟩
  · unfold ConnectionPool.cached
    rw [hlru, ConnectionLru.setStore_ne _ hu]
  · rw [hcached, hc]
    unfold ConnectionPool.evictedBy
    rw [h.size]
    have hins : s.pool.lru.inserted t m.uniqueId m =
        (s.pool.cached t).filter (·.1 ≠ m.uniqueId) ++ [(m.uniqueId, m)] := rfl
    rw [hins]
    by_cases hover : n < ((s.pool.cached t).filter (·.1 ≠ m.uniqueId) ++ [(m.uniqueId, m)]).length
    · rw [if_pos hover, if_pos hover]
      cases hf : (s.pool.cached t).filter (·.1 ≠ m.uniqueId) with
      | nil =>
        rw [hf, List.nil_append, List.length_singleton] at hover
        omega
      | cons e rest =>
        rw [hf, List.length_cons] at hold
        refine .inr ⟨e, rest, rfl, rfl, rfl, ?_⟩
        show (rest ++ [(m.uniqueId, m)]).length ≤ n
        rw [List.length_append, List.length_singleton]
        exact hold
    · rw [if_neg hover, if_neg hover]
      exact .inl ⟨rfl, rfl, Nat.le_of_not_lt hover⟩

/-- An add, with what it drops. -/
theorem Kept.add (h : s.Kept n) (hn : 0 < n) {t : ThreadId} {m : ConnectionMetadata} {c : S}
    (hf : Fresh (.add t m c) s) :
    ∃ s', step (.add t m c) s = some s' ∧ s'.Kept n ∧ s'.clock = s.clock + 1 ∧
      s'.created = Function.update s.created t (Function.update (s.created t) m.uniqueId (some s.clock)) ∧
      (∀ g x, x ∈ s'.pool.held g ↔ g = m.groupId ∧ x = (m.uniqueId, s.clock, c) ∨
        x ∈ s.pool.held g ∧ ∀ e, s.pool.evictedBy t m = some e → x.1 ≠ e.1 ∨ g ≠ e.2.groupId) ∧
      ∀ e, s.pool.evictedBy t m = some e → e.1 ≠ m.uniqueId ∧ e ∈ s.pool.cached t := by
  obtain ⟨p, hp, -, hlru, hheld⟩ := h.inv.add_spec hf
  have hinv := h.inv.add hf hp
  obtain ⟨hother, hsize, hmine⟩ := h.cached_add hn t m hlru
  have hdropped : ∀ e, s.pool.evictedBy t m = some e → e.1 ≠ m.uniqueId ∧ e ∈ s.pool.cached t := by
    intro e he
    rcases hmine with ⟨hno, -⟩ | ⟨e', rest, hev, hfil, -⟩
    · rw [he] at hno
      cases hno
    · cases he.symm.trans hev
      have hmem : e ∈ (s.pool.cached t).filter (·.1 ≠ m.uniqueId) := hfil ▸ List.mem_cons_self ..
      rw [List.mem_filter, decide_eq_true_eq] at hmem
      exact ⟨hmem.2, hmem.1⟩
  have hheld' : ∀ g x, x ∈ p.held g ↔ g = m.groupId ∧ x = (m.uniqueId, s.clock, c) ∨
      x ∈ s.pool.held g ∧ ∀ e, s.pool.evictedBy t m = some e → x.1 ≠ e.1 ∨ g ≠ e.2.groupId := by
    intro g x
    rw [hheld]
    refine or_congr_right (and_congr_right fun _ => forall_congr' fun e => forall_congr' fun he => ?_)
    rw [h.inv.keys t e (hdropped e he).2]
    constructor
    · intro hx
      by_cases hg : g = e.2.groupId
      · exact .inl (hx hg)
      · exact .inr hg
    · exact fun hx hg => hx.resolve_right fun hne => hne hg
  have hold : ∀ g x, x ∈ s.pool.held g → x.1 ≠ m.uniqueId := fun g x hx hid => hf g (hid ▸ List.mem_map_of_mem hx)
  refine ⟨_, hp, ⟨hinv, hsize, fun u => ?_, fun g g' x x' hx hx' hid => ?_, fun g x u hx hu => ?_,
    fun u u' id id' k hk hk' => ?_, fun u => ?_⟩, rfl, rfl, hheld', hdropped⟩
  · show (p.cached u).length ≤ n
    by_cases hu : u = t
    · subst hu
      rcases hmine with ⟨-, -, hle⟩ | ⟨-, -, -, -, -, hle⟩
      · exact hle
      · exact hle
    · rw [hother u hu]
      exact h.fits u
  · rcases (hheld' g x).mp hx with ⟨rfl, rfl⟩ | ⟨hx, -⟩
    · rcases (hheld' g' x').mp hx' with ⟨rfl, rfl⟩ | ⟨hx', -⟩
      · exact ⟨rfl, rfl⟩
      · exact absurd hid.symm (hold g' x' hx')
    · rcases (hheld' g' x').mp hx' with ⟨rfl, rfl⟩ | ⟨hx', -⟩
      · exact absurd hid (hold g x hx)
      · exact h.once g g' x x' hx hx' hid
  · show ∃ e ∈ p.cached u, _
    rcases (hheld' g x).mp hx with ⟨rfl, rfl⟩ | ⟨hx, hkeeps⟩
    · have hut : t = u := by
        have hl : Function.update s.lastAdder m.uniqueId (some t) m.uniqueId = some u := hu
        rw [Function.update_self] at hl
        exact Option.some.inj hl
      subst hut
      refine ⟨(m.uniqueId, m), ?_, rfl, rfl⟩
      rcases hmine with ⟨-, hc, -⟩ | ⟨-, rest, -, -, hc, -⟩
      · rw [hc]
        exact List.mem_append_right _ (List.mem_singleton_self _)
      · rw [hc]
        exact List.mem_append_right _ (List.mem_singleton_self _)
    · have hne := hold g x hx
      have hl : Function.update s.lastAdder m.uniqueId (some t) x.1 = some u := hu
      rw [Function.update_of_ne hne] at hl
      obtain ⟨e, he, heid, heg⟩ := h.entry g x u hx hl
      refine ⟨e, ?_, heid, heg⟩
      by_cases hut : u = t
      · subst hut
        have hmem : e ∈ (s.pool.cached u).filter (·.1 ≠ m.uniqueId) := by
          rw [List.mem_filter, decide_eq_true_eq, heid]
          exact ⟨he, hne⟩
        rcases hmine with ⟨-, hc, -⟩ | ⟨e', rest, hev, hfil, hc, -⟩
        · rw [hc]
          exact List.mem_append_left _ hmem
        · rw [hfil, List.mem_cons] at hmem
          rcases hmem with rfl | hmem
          · exact absurd (hkeeps e hev) fun hno => hno.elim (fun hx => hx heid.symm) fun hg => hg heg.symm
          · rw [hc]
            exact List.mem_append_left _ hmem
      · rw [hother u hut]
        exact he
  · simp only [update_created] at hk hk'
    split at hk <;> split at hk'
    · rename_i h1 h2
      exact ⟨h1.1.trans h2.1.symm, h1.2.trans h2.2.symm⟩
    · cases hk
      exact absurd (h.inv.past _ _ _ hk') (Nat.lt_irrefl _)
    · cases hk'
      exact absurd (h.inv.past _ _ _ hk) (Nat.lt_irrefl _)
    · exact h.numbered u u' id id' k hk hk'
  · show ((p.cached u).map Prod.fst).Nodup
    by_cases hu : u = t
    · subst hu
      have hfil : (((s.pool.cached u).filter (·.1 ≠ m.uniqueId) ++ [(m.uniqueId, m)]).map Prod.fst).Nodup := by
        rw [List.map_append, List.nodup_append]
        refine ⟨(List.filter_sublist.map Prod.fst).nodup (h.keys u), List.nodup_singleton _, fun a ha b hb => ?_⟩
        rw [List.map_singleton, List.mem_singleton] at hb
        obtain ⟨e, he, rfl⟩ := List.mem_map.mp ha
        rw [List.mem_filter, decide_eq_true_eq] at he
        rw [hb]
        exact he.2
      rcases hmine with ⟨-, hc, -⟩ | ⟨e, rest, -, hcons, hc, -⟩
      · rw [hc]
        exact hfil
      · rw [hc]
        rw [hcons, List.cons_append, List.map_cons, List.nodup_cons] at hfil
        exact hfil.2
    · rw [hother u hu]
      exact h.keys u

/-- A number is of one connection. -/
theorem Kept.number (h : s.Kept n) {g g' : ConnectionGroupId} {x x' : ConnectionId × Nat × S} (hx : x ∈ s.pool.held g)
    (hx' : x' ∈ s.pool.held g') (he : x.2.1 = x'.2.1) : g = g' ∧ x = x' := by
  obtain ⟨t, -, hc⟩ := h.inv.stored g x.1 x.2.1 x.2.2 hx
  obtain ⟨t', -, hc'⟩ := h.inv.stored g' x'.1 x'.2.1 x'.2.2 hx'
  rw [← he] at hc'
  exact h.once g g' x x' hx hx' (h.numbered t t' _ _ _ hc hc').2

/-- It is of an insertion that was. -/
theorem Kept.past (h : s.Kept n) {g : ConnectionGroupId} {x : ConnectionId × Nat × S} (hx : x ∈ s.pool.held g) :
    x.2.1 < s.clock := by
  obtain ⟨t, -, hc⟩ := h.inv.stored g x.1 x.2.1 x.2.2 hx
  exact h.inv.past t _ _ hc

/-- The entry an add drops is not of a connection that stays. -/
theorem Kept.dropped (h : s.Kept n) {t : ThreadId} {e : ConnectionId × ConnectionMetadata} (he : e ∈ s.pool.cached t)
    {g : ConnectionGroupId} {x : ConnectionId × Nat × S} (hx : x ∈ s.pool.held g) (hc : s.created t e.1 = some x.2.1) :
    x.1 = e.1 ∧ g = e.2.groupId := by
  obtain ⟨u, hu, hcu⟩ := h.inv.stored g x.1 x.2.1 x.2.2 hx
  obtain ⟨rfl, hid⟩ := h.numbered t u _ _ _ hc hcu
  obtain ⟨e', he', hid', hg⟩ := h.entry g x t hx hu
  have heq : e' = e := List.inj_on_of_nodup_map (h.keys t) he' he (hid'.trans hid.symm)
  exact ⟨hid.symm, by rw [← hg, heq]⟩

end Shared

end Glaive.Pool
