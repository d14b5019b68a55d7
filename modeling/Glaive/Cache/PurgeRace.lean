/-
  Glaive.Cache.PurgeRace — lookups and finishes on one key at once.

  A lookup that finds its entry expired removes the key, and not the entry: what is under
  the key by then goes. Between its read and its purge another lookup may purge the key
  and a finish then enter a new object. Just in that case the purge takes an entry other
  than the one that was read (`purge_takes_read_iff`), fresh or not.
-/

import Glaive.Cache.Storage
import Glaive.Lib.Interleaved

namespace Glaive.Cache.PurgeRace

open Glaive.Lib
open Glaive.Lib.SharedMap (entry)
open Glaive.Lib.Interleaved (Event)

variable {M : Type → Type → Type} [SharedMap M] {Key CompactKey Hash CacheMeta : Type} [DecidableEq Hash]

/-- What is done to the map under the key. -/
inductive Act where
  | insert
  | purge
  deriving DecidableEq, Repr

/-- `stored`: how many objects were entered so far, of which the last is the one that may
    be there. `acts`: what was done to the map, in order. -/
structure Map (M : Type → Type → Type) (Hash : Type) where
  storage : MemoryStorage M Hash
  stored : Nat
  acts : List Act

/-- A request on the key: a lookup, or a miss handler that is finished. -/
inductive Request where
  | lookup
  | finish (binaryMeta : BinaryMeta) (bodyBuf : Bytes)

/-- Where a request is. A lookup that is to purge knows the object it read, which of the
    stored ones that was, and how many acts there were before. -/
inductive Place (Hash CacheMeta : Type) where
  | read
  | purge (m : CacheMeta) (cacheObject : SccCacheObject) (nth seen : Nat)
  | insert (h : CacheMissHandler Hash)
  | found (r : Out (Option (CacheMeta × CacheHitHandler)))
  | finished (r : Out Nat)

variable (crate : CacheCrate Key CompactKey Hash CacheMeta) (key : Key)

def start (_ : Nat) : Request → Place Hash CacheMeta
  | .lookup => .read
  | .finish binaryMeta bodyBuf => .insert ⟨binaryMeta, crate.combinedBin key, bodyBuf⟩

/-- The atomic steps of `lookup` and `finish`, at some time. -/
def act : Place Hash CacheMeta → Nat → Map M Hash → Option (Map M Hash × Place Hash CacheMeta)
  | .read, now, s =>
    match entry s.storage.cache (crate.combinedBin key) with
    | none => some (s, .found (.ok none))
    | some cacheObject =>
      match crate.deserialize cacheObject.binaryMeta with
      | .error e => some (s, .found (.err e))
      | .ok m =>
        if crate.freshUntil m < now then some (s, .purge m cacheObject s.stored s.acts.length)
        else some (s, .found (.ok (some (m, CacheHitHandler.new cacheObject))))
  | .purge m cacheObject _ _, _, s =>
    some (⟨(purge crate (crate.toCompact key) s.storage).2, s.stored, s.acts ++ [.purge]⟩,
      .found (.ok (some (m, CacheHitHandler.new cacheObject))))
  | .insert h, _, s =>
    match h.finish s.storage with
    | (.ok size, storage) =>
      some (⟨storage, if (entry s.storage.cache (crate.combinedBin key)).isNone then s.stored + 1 else s.stored,
        s.acts ++ [.insert]⟩, .finished (.ok size))
    | (r, storage) => some (⟨storage, s.stored, s.acts⟩, .finished r)
  | .found _, _, _ => none
  | .finished _, _, _ => none

abbrev Requests (M : Type → Type → Type) (Hash CacheMeta : Type) : Type := Threads (Map M Hash) (Place Hash CacheMeta)

abbrev step : Event Request Nat → Requests M Hash CacheMeta → Option (Requests M Hash CacheMeta) :=
  Interleaved.step (start crate key) (act crate key)

/-- Any storage, and no requests. -/
def init (storage : MemoryStorage M Hash) : Requests M Hash CacheMeta := ⟨⟨storage, 0, []⟩, []⟩

/-- The step is a purge that takes an entry other than the one its lookup read. -/
def TakesOther : Event Request Nat → Requests M Hash CacheMeta → Prop
  | .enter _, _ => False
  | .take i _, s => ∃ m cacheObject nth seen, s.threads[i]? = some (.purge m cacheObject nth seen) ∧
      ∃ obj, entry s.shared.storage.cache (crate.combinedBin key) = some obj ∧ (s.shared.stored ≠ nth ∨ obj ≠ cacheObject)

/-- Among some acts there is a purge, and after the last one an insert. -/
def Replaced (acts : List Act) : Prop :=
  ∃ before after, acts = before ++ .purge :: after ∧ .purge ∉ after ∧ .insert ∈ after

/-- The step is a purge, and since the read of its lookup the key was purged and another
    object was inserted. -/
def PurgesLate : Event Request Nat → Requests M Hash CacheMeta → Prop
  | .enter _, _ => False
  | .take i _, s => ∃ m cacheObject nth seen, s.threads[i]? = some (.purge m cacheObject nth seen) ∧
      Replaced (s.shared.acts.drop seen)

variable {crate : CacheCrate Key CompactKey Hash CacheMeta} {key : Key}

/-! ## A request that no other comes between -/

/-- The steps of a lookup at one time are the function. -/
theorem alone_lookup (now : Nat) (s : Map M Hash) :
    ∃ n s', Interleaved.alone (act crate key) (List.replicate n now) .read s =
        some (s', .found (lookup crate key now s.storage).1) ∧ s'.storage = (lookup crate key now s.storage).2 := by
  cases hobj : entry s.storage.cache (crate.combinedBin key) with
  | none =>
    refine ⟨1, s, ?_, ?_⟩
    · simp only [List.replicate, Interleaved.alone, act, hobj, lookup_none hobj, Option.bind_some]
    · rw [lookup_none hobj]
  | some obj =>
    cases hm : crate.deserialize obj.binaryMeta with
    | error e =>
      refine ⟨1, s, ?_, ?_⟩
      · simp only [List.replicate, Interleaved.alone, act, hobj, hm, lookup_unread hobj hm, Option.bind_some]
      · rw [lookup_unread hobj hm]
    | ok m =>
      rw [lookup_some hobj hm]
      by_cases hnow : crate.freshUntil m < now
      · refine ⟨2, ⟨(purge crate (crate.toCompact key) s.storage).2, s.stored, s.acts ++ [.purge]⟩, ?_, ?_⟩
        · simp only [List.replicate, Interleaved.alone, act, hobj, hm, if_pos hnow, Option.bind_some]
        · rw [if_pos hnow]
      · refine ⟨1, s, ?_, ?_⟩
        · simp only [List.replicate, Interleaved.alone, act, hobj, hm, if_neg hnow, Option.bind_some]
        · rw [if_neg hnow]

/-! ## What a step does under the key -/

/-- A step leaves the map, empties it, or offers it an object. -/
inductive Changed (crate : CacheCrate Key CompactKey Hash CacheMeta) (key : Key) (s s' : Map M Hash) : Prop
  | leaves : s' = s → Changed crate key s s'
  | purges : entry s'.storage.cache (crate.combinedBin key) = none → s'.stored = s.stored → s'.acts = s.acts ++ [.purge] →
      Changed crate key s s'
  | offers {obj : SccCacheObject} : entry s.storage.cache (crate.combinedBin key) = some obj →
      entry s'.storage.cache (crate.combinedBin key) = some obj → s'.stored = s.stored → s'.acts = s.acts ++ [.insert] →
      Changed crate key s s'
  | enters {obj : SccCacheObject} : entry s.storage.cache (crate.combinedBin key) = none →
      entry s'.storage.cache (crate.combinedBin key) = some obj → s'.stored = s.stored + 1 → s'.acts = s.acts ++ [.insert] →
      Changed crate key s s'

/-- A finish is on the key. -/
def OnKey (crate : CacheCrate Key CompactKey Hash CacheMeta) (key : Key) (p : Place Hash CacheMeta) : Prop :=
  ∀ h, p = .insert h → h.key = crate.combinedBin key

theorem act_changed (laws : CacheLaws crate) {p p' : Place Hash CacheMeta} {now : Nat} {s s' : Map M Hash}
    (hp : OnKey crate key p) (h : act crate key p now s = some (s', p')) : Changed crate key s s' := by
  cases p with
  | read =>
    rw [act] at h
    split at h
    · cases h; exact .leaves rfl
    · split at h
      · cases h; exact .leaves rfl
      · split at h
        · cases h; exact .leaves rfl
        · cases h; exact .leaves rfl
  | purge m cacheObject nth seen =>
    cases h
    refine .purges ?_ rfl rfl
    rw [purge_cache, laws.compact]
    exact if_pos rfl
  | insert handler =>
    have hkey := hp handler rfl
    rw [act] at h
    rcases handler.finish_cases s.storage with ⟨size, hok⟩ | ⟨e, herr⟩
    · rw [hok] at h
      cases h
      rw [← hkey]
      cases hobj : entry s.storage.cache handler.key with
      | none =>
        have hnew : entry (CacheMissHandler.insertAsync handler.key ⟨handler.binaryMeta, handler.bodyBuf⟩ s.storage).cache
            (crate.combinedBin key) = some ⟨handler.binaryMeta, handler.bodyBuf⟩ := by
          rw [← hkey]
          exact CacheMissHandler.insertAsync_free _ hobj
        rw [hkey] at hobj
        exact .enters hobj hnew rfl rfl
      | some old =>
        have hsame := CacheMissHandler.insertAsync_taken ⟨handler.binaryMeta, handler.bodyBuf⟩ hobj
        rw [hsame]
        rw [hkey] at hobj
        exact .offers hobj hobj rfl rfl
    · rw [herr] at h
      cases h
      exact .leaves rfl
  | found r => cases h
  | finished r => cases h

/-! ## What a lookup read, and what there is -/

/-- What became of the entry a lookup read: it is still there, or the key was purged, and
    is free or taken by a later object. -/
inductive Since (crate : CacheCrate Key CompactKey Hash CacheMeta) (key : Key) (cacheObject : SccCacheObject)
    (nth seen : Nat) (s : Map M Hash) : Prop
  | there : .purge ∉ s.acts.drop seen → s.stored = nth →
      entry s.storage.cache (crate.combinedBin key) = some cacheObject → Since crate key cacheObject nth seen s
  | gone {before after : List Act} : s.acts.drop seen = before ++ .purge :: after → .purge ∉ after → .insert ∉ after →
      nth ≤ s.stored → entry s.storage.cache (crate.combinedBin key) = none → Since crate key cacheObject nth seen s
  | replaced {obj : SccCacheObject} : Replaced (s.acts.drop seen) → nth < s.stored →
      entry s.storage.cache (crate.combinedBin key) = some obj → Since crate key cacheObject nth seen s

/-- The last purge among some acts is one. -/
theorem last_purge {a b c d : List Act} (h : a ++ Act.purge :: b = c ++ Act.purge :: d) (hb : .purge ∉ b)
    (hd : .purge ∉ d) : b = d := by
  rcases List.append_eq_append_iff.mp h with ⟨e, -, he⟩ | ⟨e, -, he⟩
  · cases e with
    | nil => exact (List.cons.inj he).2
    | cons x e =>
      obtain ⟨-, he⟩ := List.cons.inj he
      rw [he] at hb
      exact absurd (List.mem_append_right e (List.mem_cons_self ..)) hb
  · cases e with
    | nil => exact (List.cons.inj he).2.symm
    | cons x e =>
      obtain ⟨-, he⟩ := List.cons.inj he
      rw [he] at hd
      exact absurd (List.mem_append_right e (List.mem_cons_self ..)) hd

/-- What is there is another entry just if the one that was read was replaced. -/
theorem Since.other_iff {cacheObject : SccCacheObject} {nth seen : Nat} {s : Map M Hash}
    (h : Since crate key cacheObject nth seen s) :
    (∃ obj, entry s.storage.cache (crate.combinedBin key) = some obj ∧ (s.stored ≠ nth ∨ obj ≠ cacheObject)) ↔
      Replaced (s.acts.drop seen) := by
  cases h with
  | there hno hnth hobj =>
    constructor
    · rintro ⟨obj, hthere, hother⟩
      cases hobj.symm.trans hthere
      rcases hother with hother | hother
      · exact absurd hnth hother
      · exact absurd rfl hother
    · rintro ⟨before, after, hacts, -⟩
      rw [hacts] at hno
      exact absurd (List.mem_append_right before (List.mem_cons_self ..)) hno
  | gone hacts hno hnot _ hnone =>
    constructor
    · rintro ⟨obj, hthere, -⟩
      cases hnone.symm.trans hthere
    · rintro ⟨before', after', hacts', hno', hin⟩
      rw [last_purge (hacts.symm.trans hacts') hno hno'] at hnot
      exact absurd hin hnot
  | replaced hrep hlt hobj => exact ⟨fun _ => hrep, fun _ => ⟨_, hobj, .inl (Nat.ne_of_gt hlt)⟩⟩

/-- A step of another request keeps track of the entry. -/
theorem Since.step {cacheObject : SccCacheObject} {nth seen : Nat} {s s' : Map M Hash}
    (h : Since crate key cacheObject nth seen s) (hseen : seen ≤ s.acts.length) (hc : Changed crate key s s') :
    Since crate key cacheObject nth seen s' := by
  have hdrop : ∀ a, (s.acts ++ [a]).drop seen = s.acts.drop seen ++ [a] := fun a => List.drop_append_of_le_length hseen
  cases hc with
  | leaves hs => exact hs ▸ h
  | purges hnone hstored hacts =>
    have hacts' : s'.acts.drop seen = s.acts.drop seen ++ .purge :: [] := by rw [hacts, hdrop]
    refine .gone hacts' (List.not_mem_nil) (List.not_mem_nil) ?_ hnone
    rw [hstored]
    cases h with
    | there _ hnth _ => exact Nat.le_of_eq hnth.symm
    | gone _ _ _ hle _ => exact hle
    | replaced _ hlt _ => exact Nat.le_of_lt hlt
  | offers hold hnew hstored hacts =>
    cases h with
    | there hno hnth hobj =>
      cases hobj.symm.trans hold
      refine .there ?_ (hstored.trans hnth) hnew
      rw [hacts, hdrop]
      simpa using hno
    | gone _ _ _ _ hnone => cases hnone.symm.trans hold
    | replaced hrep hlt _ =>
      refine .replaced ?_ (hstored ▸ hlt) hnew
      obtain ⟨before, after, hacts', hno, hin⟩ := hrep
      refine ⟨before, after ++ [.insert], ?_, by simpa using hno, List.mem_append_left _ hin⟩
      rw [hacts, hdrop, hacts', List.append_assoc]
      rfl
  | enters hfree hnew hstored hacts =>
    cases h with
    | there _ _ hobj => cases hobj.symm.trans hfree
    | replaced _ _ hobj => cases hobj.symm.trans hfree
    | @gone before after hacts' hno _ hle _ =>
      refine .replaced ⟨before, after ++ [.insert], ?_, by simpa using hno, by simp⟩ (by omega) hnew
      rw [hacts, hdrop, hacts', List.append_assoc]
      rfl

/-- What holds of a request among the others. -/
def Tracked (crate : CacheCrate Key CompactKey Hash CacheMeta) (key : Key) (_ : Nat) (p : Place Hash CacheMeta)
    (s : Map M Hash) : Prop :=
  OnKey crate key p ∧ ∀ m cacheObject nth seen, p = .purge m cacheObject nth seen →
    seen ≤ s.acts.length ∧ Since crate key cacheObject nth seen s

theorem Changed.acts_le {s s' : Map M Hash} (h : Changed crate key s s') : s.acts.length ≤ s'.acts.length := by
  cases h with
  | leaves hs => rw [hs]
  | purges _ _ hacts => rw [hacts, List.length_append]; omega
  | offers _ _ _ hacts => rw [hacts, List.length_append]; omega
  | enters _ _ _ hacts => rw [hacts, List.length_append]; omega

theorem Tracked.step {i : Nat} {p : Place Hash CacheMeta} {s s' : Map M Hash} (h : Tracked crate key i p s)
    (hc : Changed crate key s s') : Tracked crate key i p s' := by
  obtain ⟨hkey, hsince⟩ := h
  refine ⟨hkey, fun m cacheObject nth seen hp => ?_⟩
  obtain ⟨hseen, hs⟩ := hsince m cacheObject nth seen hp
  exact ⟨hseen.trans hc.acts_le, hs.step hseen hc⟩

theorem tracked_found (i : Nat) (r : Out (Option (CacheMeta × CacheHitHandler))) (s : Map M Hash) :
    Tracked crate key i (.found r) s := ⟨fun _ hp => (by cases hp), fun _ _ _ _ hp => (by cases hp)⟩

theorem tracked_finished (i : Nat) (r : Out Nat) (s : Map M Hash) :
    Tracked crate key i (.finished r : Place Hash CacheMeta) s :=
  ⟨fun _ hp => (by cases hp), fun _ _ _ _ hp => (by cases hp)⟩

/-- Nothing was done since a lookup has read. -/
theorem act_tracked {i : Nat} {p p' : Place Hash CacheMeta} {now : Nat} {s s' : Map M Hash}
    (h : act crate key p now s = some (s', p')) : Tracked crate key i p' s' := by
  cases p with
  | read =>
    rw [act] at h
    split at h
    · cases h; exact tracked_found ..
    · rename_i obj hobj
      split at h
      · cases h; exact tracked_found ..
      · split at h
        · cases h
          refine ⟨fun _ hp => (by cases hp), fun _ _ _ _ hp => ?_⟩
          cases hp
          refine ⟨Nat.le_refl _, .there ?_ rfl hobj⟩
          rw [List.drop_length]
          exact List.not_mem_nil
        · cases h; exact tracked_found ..
  | purge m cacheObject nth seen =>
    cases h
    exact tracked_found ..
  | insert handler =>
    rw [act] at h
    split at h
    · cases h; exact tracked_finished ..
    · cases h; exact tracked_finished ..
  | found r => cases h
  | finished r => cases h

theorem start_tracked (i : Nat) (r : Request) (s : Map M Hash) : Tracked crate key i (start crate key i r) s := by
  cases r with
  | lookup => exact ⟨fun _ hp => (by cases hp), fun _ _ _ _ hp => (by cases hp)⟩
  | finish binaryMeta bodyBuf =>
    refine ⟨fun h hp => ?_, fun _ _ _ _ hp => (by cases hp)⟩
    cases hp
    rfl

/-- Each request of any run is on the key, and keeps track of what it read. -/
abbrev Inv (crate : CacheCrate Key CompactKey Hash CacheMeta) (key : Key) (s : Requests M Hash CacheMeta) : Prop :=
  Interleaved.Kept (fun _ _ => True) (Tracked crate key) s

theorem step_inv (laws : CacheLaws crate) {e : Event Request Nat} {s s' : Requests M Hash CacheMeta}
    (h : Inv crate key s) (hs : step crate key e s = some s') : Inv crate key s' := by
  refine h.step (fun n r x _ => ⟨trivial, start_tracked n r x⟩) (fun i p now shared p' hp ha => ?_) hs
  have hc := act_changed laws (h.each i p hp).1 ha
  exact ⟨trivial, act_tracked ha, fun j m _ _ hm => hm.step hc⟩

theorem takesOther_iff {e : Event Request Nat} {s : Requests M Hash CacheMeta} (h : Inv crate key s) :
    TakesOther crate key e s ↔ PurgesLate e s := by
  cases e with
  | enter r => exact Iff.rfl
  | take i now =>
    unfold TakesOther PurgesLate
    constructor
    · rintro ⟨m, cacheObject, nth, seen, hp, hother⟩
      obtain ⟨-, hsince⟩ := (h.each i _ hp).2 m cacheObject nth seen rfl
      exact ⟨m, cacheObject, nth, seen, hp, hsince.other_iff.mp hother⟩
    · rintro ⟨m, cacheObject, nth, seen, hp, hlate⟩
      obtain ⟨-, hsince⟩ := (h.each i _ hp).2 m cacheObject nth seen rfl
      exact ⟨m, cacheObject, nth, seen, hp, hsince.other_iff.mpr hlate⟩

/-- In any run of lookups and finishes on one key, no purge takes an entry other than the
    one its lookup read, just if no purge comes after another one and an insert since. -/
theorem purge_takes_read_iff (crate : CacheCrate Key CompactKey Hash CacheMeta) (laws : CacheLaws crate) (key : Key)
    (storage : MemoryStorage M Hash) (evs : List (Event Request Nat)) (s : Requests M Hash CacheMeta) :
    Run (step crate key) (fun e s => ¬ TakesOther crate key e s) (init storage) evs s ↔
      Run (step crate key) (fun e s => ¬ PurgesLate e s) (init storage) evs s := by
  have hstep : ∀ e (s s' : Requests M Hash CacheMeta), Inv crate key s → step crate key e s = some s' → Inv crate key s' :=
    fun _ _ _ hi hs => step_inv laws hi hs
  constructor
  · intro h
    exact Run.imp hstep (fun _ _ _ hi _ hno hlate => hno ((takesOther_iff hi).mpr hlate)) h (Interleaved.kept_nil trivial)
  · intro h
    exact Run.imp hstep (fun _ _ _ hi _ hno hother => hno ((takesOther_iff hi).mp hother)) h (Interleaved.kept_nil trivial)

/-- Two lookups read an expired entry, and one purges it. A fresh object is entered before
    the other one purges. -/
def twoLookups : List (Event Request Nat) :=
  [.enter (.finish (List.replicate 3 0, []) [1]), .take 0 0, .enter .lookup, .enter .lookup, .take 1 5, .take 2 5,
    .take 1 5, .enter (.finish (List.replicate 9 0, []) [2]), .take 3 5]

def emptyStorage : MemoryStorage FunMap Nat := ⟨SharedMap.new, none, false⟩

theorem purge_takes_read_iff_twoLookups :
    Run (step plainCrate 1) (fun e s => ¬ TakesOther plainCrate 1 e s) (init emptyStorage) twoLookups
        ((stepAll (step plainCrate 1) (fun _ _ => True) twoLookups (init emptyStorage)).get (by rfl)) ↔
      Run (step plainCrate 1) (fun e s => ¬ PurgesLate e s) (init emptyStorage) twoLookups
        ((stepAll (step plainCrate 1) (fun _ _ => True) twoLookups (init emptyStorage)).get (by rfl)) :=
  purge_takes_read_iff plainCrate plainCrate_laws 1 emptyStorage twoLookups _

/-- The second purge takes the object that is fresh. -/
theorem purge_takes_fresh :
    ∃ (s : Requests FunMap Nat Nat) (obj : SccCacheObject) (m : Nat),
      Run (step plainCrate 1) (fun _ _ => True) (init emptyStorage) twoLookups s ∧
        entry s.shared.storage.cache 1 = some obj ∧ plainCrate.deserialize obj.binaryMeta = .ok m ∧
        ¬ plainCrate.freshUntil m < 5 ∧ TakesOther plainCrate 1 (.take 2 5) s ∧
        ∃ s', step plainCrate 1 (.take 2 5) s = some s' ∧ entry s'.shared.storage.cache 1 = none :=
  ⟨_, _, _, run_get _ _ _ _ (by rfl), rfl, rfl, by decide, ⟨_, _, _, _, rfl, _, rfl, .inl (by decide)⟩, _, rfl, rfl⟩

end Glaive.Cache.PurgeRace
