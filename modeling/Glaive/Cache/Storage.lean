/-
  Glaive.Cache.Storage — the in-memory cache (`glaive/src/cache.rs`: `MemoryStorage`,
  `CacheHitHandler`, `CacheMissHandler`).

  The keys and the metadata of `pingora::cache` are a parameter, `CacheCrate`, and so is
  the map, `SharedMap`, which is by the hash of a key. A miss handler collects a body and
  enters it when it finishes, with `insert_async`, which gives the object back when there
  is an entry; what it gives back is dropped. So a finish that returns `Ok` stores its
  object just if the key was free (`finish_stores_iff`).
-/

import Glaive.Lib.Containers
import Glaive.Lib.Io
import Glaive.Lib.Runs

namespace Glaive.Cache

open Glaive.Lib
open Glaive.Lib.SharedMap (entry remove update)

abbrev BinaryMeta : Type := Bytes × Bytes

/-- `pingora::cache`: keys and their hashes, and the metadata of a response. -/
structure CacheCrate (Key CompactKey Hash CacheMeta : Type) where
  combinedBin : Key → Hash
  toCompact : Key → CompactKey
  compactBin : CompactKey → Hash
  serialize : CacheMeta → Except IoError BinaryMeta
  deserialize : BinaryMeta → Except IoError CacheMeta
  freshUntil : CacheMeta → Nat

structure CacheLaws {Key CompactKey Hash CacheMeta : Type} (crate : CacheCrate Key CompactKey Hash CacheMeta) : Prop where
  /-- A compact key has the hashes of the key it is made of. -/
  compact : ∀ key, crate.compactBin (crate.toCompact key) = crate.combinedBin key
  readBack : ∀ {m raw}, crate.serialize m = .ok raw → crate.deserialize raw = .ok m

structure SccCacheObject where
  binaryMeta : BinaryMeta
  body : Bytes
  deriving DecidableEq, Repr

structure MemoryStorage (M : Type → Type → Type) (Hash : Type) where
  cache : M Hash SccCacheObject
  maxFileSizeBytes : Option Nat
  rejectEmptyBody : Bool

structure CacheHitHandler where
  cacheObject : SccCacheObject
  done : Bool
  rangeStart : Nat
  rangeEnd : Nat

structure CacheMissHandler (Hash : Type) where
  binaryMeta : BinaryMeta
  key : Hash
  bodyBuf : Bytes

/-! ## Hits and misses -/

namespace CacheHitHandler

def new (cacheObject : SccCacheObject) : CacheHitHandler := ⟨cacheObject, false, 0, cacheObject.body.length⟩

/-- `Bytes::slice` panics on a range that is not one of the body. -/
def readBody : Async CacheHitHandler (Option Bytes) := do
  let h ← Async.get
  if h.done then return none
  else
    Async.modify fun h => { h with done := true }
    match slice h.rangeStart h.rangeEnd h.cacheObject.body with
    | some bytes => return some bytes
    | none => Async.stop (.panic "range start must not be greater than end")

def seek (start : Nat) (end_ : Option Nat) : Async CacheHitHandler Unit := do
  let h ← Async.get
  let len := h.cacheObject.body.length
  if len ≤ start then
    Async.stop (.err (.other ("seek start out of range " ++ toString start ++ " >= " ++ toString len)))
  else
    Async.modify fun h => { h with rangeStart := start }
    -- without an end the old one stays
    match end_ with
    | some end_ => Async.modify fun h => { h with rangeEnd := min len end_ }
    | none => pure ()
    Async.modify fun h => { h with done := false }

end CacheHitHandler

variable {M : Type → Type → Type} [SharedMap M] {Key CompactKey Hash CacheMeta : Type} [DecidableEq Hash]

namespace CacheMissHandler

/-- `inner` is the storage the handler was made for. -/
def writeBody (inner : MemoryStorage M Hash) (data : Bytes) : Async (CacheMissHandler Hash) Unit := do
  let h ← Async.get
  if inner.maxFileSizeBytes.any fun maxFileSizeBytes => maxFileSizeBytes < h.bodyBuf.length + data.length then
    Async.stop (.err (.other ("writing data of size " ++ toString data.length ++
      " bytes would exceed max file size of " ++ toString (inner.maxFileSizeBytes.getD 0) ++ " bytes")))
  else Async.modify fun h => { h with bodyBuf := h.bodyBuf ++ data }

/-- `insert_async`: an entry that is there stays, and `ok()` drops the error. -/
def insertAsync (key : Hash) (cacheObject : SccCacheObject) (s : MemoryStorage M Hash) : MemoryStorage M Hash :=
  match SharedMap.insert s.cache key cacheObject with
  | .error _ => s
  | .ok cache => { s with cache := cache }

def finish (h : CacheMissHandler Hash) : Async (MemoryStorage M Hash) Nat := do
  let inner ← Async.get
  if h.bodyBuf.length = 0 ∧ inner.rejectEmptyBody then Async.stop (.err (.other "cache write error: empty body"))
  else
    Async.modify (insertAsync h.key ⟨h.binaryMeta, h.bodyBuf⟩)
    return h.bodyBuf.length + h.binaryMeta.1.length + h.binaryMeta.2.length

end CacheMissHandler

/-! ## `MemoryStorage` -/

def ofResult {σ α : Type} : Except IoError α → Async σ α
  | .ok a => pure a
  | .error e => Async.stop (.err e)

variable (crate : CacheCrate Key CompactKey Hash CacheMeta)

def purge (key : CompactKey) : Async (MemoryStorage M Hash) Bool := do
  let s ← Async.get
  match remove s.cache (crate.compactBin key) with
  | none => return false
  | some (_, cache) =>
    Async.modify fun s => { s with cache := cache }
    return true

/-- `now`: what the clock says. An entry that is no longer fresh goes, and is returned. -/
def lookup (key : Key) (now : Nat) : Async (MemoryStorage M Hash) (Option (CacheMeta × CacheHitHandler)) := do
  let s ← Async.get
  match entry s.cache (crate.combinedBin key) with
  | none => return none
  | some cacheObject =>
    let m ← ofResult (crate.deserialize cacheObject.binaryMeta)
    let _ ← if crate.freshUntil m < now then purge crate (crate.toCompact key) else pure false
    return some (m, CacheHitHandler.new cacheObject)

def getMissHandler (key : Key) (m : CacheMeta) : Async (MemoryStorage M Hash) (CacheMissHandler Hash) := do
  let raw ← ofResult (crate.serialize m)
  return ⟨raw, crate.combinedBin key, []⟩

def updateMeta (key : Key) (m : CacheMeta) : Async (MemoryStorage M Hash) Bool := do
  let raw ← ofResult (crate.serialize m)
  let s ← Async.get
  match update s.cache (crate.combinedBin key) fun value => { value with binaryMeta := raw } with
  | none => Async.stop (.err (.other "No meta found for update_meta"))
  | some cache =>
    Async.modify fun s => { s with cache := cache }
    return true

/-! ## Any order of calls -/

/-- A miss handler that is not finished, with the metadata it was made for and the writes
    it has accepted. -/
structure OpenHandler (Hash CacheMeta : Type) where
  handler : CacheMissHandler Hash
  given : CacheMeta
  accepted : List Bytes

structure System (M : Type → Type → Type) (Hash CacheMeta : Type) where
  storage : MemoryStorage M Hash
  /-- In the order they were made, `none` for one that is finished. -/
  handlers : List (Option (OpenHandler Hash CacheMeta))

inductive Op (Key CompactKey CacheMeta : Type) where
  | lookup (key : Key) (now : Nat)
  | getMissHandler (key : Key) (m : CacheMeta)
  | writeBody (i : Nat) (data : Bytes)
  | finish (i : Nat)
  | updateMeta (key : Key) (m : CacheMeta)
  | purge (key : CompactKey)

/-- A write on a handler, and what the handler has accepted by then. -/
def OpenHandler.write (s : MemoryStorage M Hash) (data : Bytes) (o : OpenHandler Hash CacheMeta) :
    OpenHandler Hash CacheMeta :=
  match CacheMissHandler.writeBody s data o.handler with
  | (.ok (), h) => { o with handler := h, accepted := o.accepted ++ [data] }
  | (_, h) => { o with handler := h }

/-- One call; `none` on a handler that is not open. -/
def step : Op Key CompactKey CacheMeta → System M Hash CacheMeta → Option (System M Hash CacheMeta)
  | .lookup key now, s => some { s with storage := (lookup crate key now s.storage).2 }
  | .getMissHandler key m, s =>
    match getMissHandler crate key m s.storage with
    | (.ok h, storage) => some ⟨storage, s.handlers ++ [some ⟨h, m, []⟩]⟩
    | (_, storage) => some { s with storage := storage }
  | .writeBody i data, s =>
    (s.handlers[i]?.join).map fun o => { s with handlers := s.handlers.set i (some (o.write s.storage data)) }
  | .finish i, s =>
    (s.handlers[i]?.join).map fun o => ⟨(o.handler.finish s.storage).2, s.handlers.set i none⟩
  | .updateMeta key m, s => some { s with storage := (updateMeta crate key m s.storage).2 }
  | .purge key, s => some { s with storage := (purge crate key s.storage).2 }

def newStorage (maxFileSizeBytes : Option Nat) (rejectEmptyBody : Bool) : System M Hash CacheMeta :=
  ⟨⟨SharedMap.new, maxFileSizeBytes, rejectEmptyBody⟩, []⟩

/-! ## What a call does to the map -/

variable {crate : CacheCrate Key CompactKey Hash CacheMeta}

/-- A purge takes what is under the key out of the map. -/
theorem purge_spec (crate : CacheCrate Key CompactKey Hash CacheMeta) (key : CompactKey) (s : MemoryStorage M Hash) :
    ∃ removed cache, purge crate key s = (.ok removed, { s with cache := cache }) ∧
      ∀ k, entry cache k = if k = crate.compactBin key then none else entry s.cache k := by
  unfold purge
  rw [Async.get_bind_apply]
  cases hobj : entry s.cache (crate.compactBin key) with
  | none =>
    rw [SharedMap.remove_none _ _ hobj]
    refine ⟨false, s.cache, rfl, fun k => ?_⟩
    by_cases hk : k = crate.compactBin key
    · rw [if_pos hk, hk, hobj]
    · rw [if_neg hk]
  | some obj =>
    obtain ⟨cache, hremove, hentry⟩ := SharedMap.remove_some _ _ _ hobj
    rw [hremove]
    exact ⟨true, cache, rfl, hentry⟩

theorem purge_cache (key : CompactKey) (s : MemoryStorage M Hash) (k : Hash) :
    entry (purge crate key s).2.cache k = if k = crate.compactBin key then none else entry s.cache k := by
  obtain ⟨removed, cache, hpurge, hentry⟩ := purge_spec crate key s
  rw [hpurge]
  exact hentry k

/-- An entry is looked up as it was stored, and goes when it is no longer fresh. -/
theorem lookup_some {key : Key} {now : Nat} {s : MemoryStorage M Hash} {obj : SccCacheObject} {m : CacheMeta}
    (hobj : entry s.cache (crate.combinedBin key) = some obj) (hm : crate.deserialize obj.binaryMeta = .ok m) :
    lookup crate key now s = (.ok (some (m, CacheHitHandler.new obj)),
      if crate.freshUntil m < now then (purge crate (crate.toCompact key) s).2 else s) := by
  unfold lookup
  rw [Async.get_bind_apply, hobj]
  simp only [hm, ofResult]
  rw [Async.pure_bind_apply]
  by_cases hnow : crate.freshUntil m < now
  · obtain ⟨removed, cache, hpurge, -⟩ := purge_spec crate (crate.toCompact key) s
    rw [if_pos hnow, if_pos hnow, Async.bind_ok hpurge, hpurge]
    rfl
  · rw [if_neg hnow, if_neg hnow]
    rfl

theorem lookup_none {key : Key} {now : Nat} {s : MemoryStorage M Hash} (h : entry s.cache (crate.combinedBin key) = none) :
    lookup crate key now s = (.ok none, s) := by
  unfold lookup
  rw [Async.get_bind_apply, h]
  rfl

theorem lookup_unread {key : Key} {now : Nat} {s : MemoryStorage M Hash} {obj : SccCacheObject} {e : IoError}
    (hobj : entry s.cache (crate.combinedBin key) = some obj) (he : crate.deserialize obj.binaryMeta = .error e) :
    lookup crate key now s = (.err e, s) := by
  unfold lookup
  rw [Async.get_bind_apply, hobj]
  simp only [he, ofResult]
  rfl

/-- An update finds an entry and changes its metadata, or leaves the storage. -/
theorem updateMeta_cases (crate : CacheCrate Key CompactKey Hash CacheMeta) (key : Key) (m : CacheMeta)
    (s : MemoryStorage M Hash) :
    (∃ e, updateMeta crate key m s = (.err e, s)) ∨
      ∃ raw old cache, crate.serialize m = .ok raw ∧ entry s.cache (crate.combinedBin key) = some old ∧
        updateMeta crate key m s = (.ok true, { s with cache := cache }) ∧
        ∀ k, entry cache k = if k = crate.combinedBin key then some { old with binaryMeta := raw } else entry s.cache k := by
  unfold updateMeta
  cases crate.serialize m with
  | error e => exact .inl ⟨e, rfl⟩
  | ok raw =>
    simp only [ofResult]
    rw [Async.pure_bind_apply, Async.get_bind_apply]
    cases hold : entry s.cache (crate.combinedBin key) with
    | none =>
      rw [SharedMap.update_none _ _ _ hold]
      exact .inl ⟨_, rfl⟩
    | some old =>
      obtain ⟨cache, hupdate, hentry⟩ := SharedMap.update_some _ _ (fun value => { value with binaryMeta := raw }) _ hold
      rw [hupdate]
      exact .inr ⟨raw, old, cache, rfl, rfl, rfl, hentry⟩

theorem updateMeta_other {key : Key} {m : CacheMeta} {s : MemoryStorage M Hash} {k : Hash}
    (hk : k ≠ crate.combinedBin key) : entry (updateMeta crate key m s).2.cache k = entry s.cache k := by
  rcases updateMeta_cases crate key m s with ⟨e, herr⟩ | ⟨raw, old, cache, -, -, hok, hentry⟩
  · rw [herr]
  · rw [hok]
    exact (hentry k).trans (if_neg hk)

omit [SharedMap M] [DecidableEq Hash] in
theorem getMissHandler_cases (crate : CacheCrate Key CompactKey Hash CacheMeta) (key : Key) (m : CacheMeta) (s : MemoryStorage M Hash) :
    (∃ raw, crate.serialize m = .ok raw ∧
      getMissHandler crate key m s = (.ok ⟨raw, crate.combinedBin key, []⟩, s)) ∨
      ∃ e, getMissHandler crate key m s = (.err e, s) := by
  unfold getMissHandler
  cases crate.serialize m with
  | error e => exact .inr ⟨e, rfl⟩
  | ok raw => exact .inl ⟨raw, rfl, rfl⟩

namespace CacheMissHandler

/-- A finish that returns `Ok` offers its object to the map; another leaves the storage. -/
theorem finish_cases (h : CacheMissHandler Hash) (s : MemoryStorage M Hash) :
    (∃ size, h.finish s = (.ok size, insertAsync h.key ⟨h.binaryMeta, h.bodyBuf⟩ s)) ∨
      ∃ e, h.finish s = (.err e, s) := by
  unfold finish
  rw [Async.get_bind_apply]
  by_cases he : h.bodyBuf.length = 0 ∧ s.rejectEmptyBody = true
  · rw [if_pos he]
    exact .inr ⟨_, rfl⟩
  · rw [if_neg he]
    exact .inl ⟨_, rfl⟩

theorem insertAsync_free {key : Hash} {s : MemoryStorage M Hash} (obj : SccCacheObject) (h : entry s.cache key = none) :
    entry (insertAsync key obj s).cache key = some obj := by
  obtain ⟨cache, hinsert, hentry⟩ := SharedMap.insert_free _ _ obj h
  unfold insertAsync
  rw [hinsert]
  exact (hentry key).trans (if_pos rfl)

theorem insertAsync_taken {key : Hash} {s : MemoryStorage M Hash} (obj : SccCacheObject) {old : SccCacheObject}
    (h : entry s.cache key = some old) : insertAsync key obj s = s := by
  unfold insertAsync
  rw [SharedMap.insert_taken _ _ obj old h]

theorem insertAsync_other {key k : Hash} (s : MemoryStorage M Hash) (obj : SccCacheObject) (h : k ≠ key) :
    entry (insertAsync key obj s).cache k = entry s.cache k := by
  cases hobj : entry s.cache key with
  | some old => rw [insertAsync_taken obj hobj]
  | none =>
    obtain ⟨cache, hinsert, hentry⟩ := SharedMap.insert_free _ _ obj hobj
    unfold insertAsync
    rw [hinsert]
    exact (hentry k).trans (if_neg h)

end CacheMissHandler

/-! ## What a handler holds -/

/-- The handler is for a key, has the metadata it was given, and every write it accepted. -/
structure OpenHandler.Sound (crate : CacheCrate Key CompactKey Hash CacheMeta) (o : OpenHandler Hash CacheMeta) : Prop where
  key : ∃ key, crate.combinedBin key = o.handler.key
  given : crate.serialize o.given = .ok o.handler.binaryMeta
  body : o.handler.bodyBuf = o.accepted.flatten

omit [SharedMap M] [DecidableEq Hash] in
theorem OpenHandler.Sound.write {o : OpenHandler Hash CacheMeta} (h : o.Sound crate) (s : MemoryStorage M Hash)
    (data : Bytes) : (o.write s data).Sound crate := by
  obtain ⟨hkey, hgiven, hbody⟩ := h
  unfold OpenHandler.write CacheMissHandler.writeBody
  rw [Async.get_bind_apply]
  by_cases hmax : (s.maxFileSizeBytes.any fun n => n < o.handler.bodyBuf.length + data.length) = true
  · simp only [hmax, if_true, Async.stop_apply]
    exact ⟨hkey, hgiven, hbody⟩
  · simp only [hmax, Bool.false_eq_true, if_false, Async.modify_apply]
    refine ⟨hkey, hgiven, ?_⟩
    rw [List.flatten_append, hbody, List.flatten_singleton]

def System.Sound (crate : CacheCrate Key CompactKey Hash CacheMeta) (s : System M Hash CacheMeta) : Prop :=
  ∀ (i : Nat) (o : OpenHandler Hash CacheMeta), s.handlers[i]?.join = some o → o.Sound crate

omit [SharedMap M] [DecidableEq Hash] in
theorem sound_set {s : System M Hash CacheMeta} (hs : s.Sound crate) {i : Nat} {v : Option (OpenHandler Hash CacheMeta)}
    (hv : ∀ o, v = some o → o.Sound crate) {storage : MemoryStorage M Hash} :
    System.Sound crate ⟨storage, s.handlers.set i v⟩ := by
  intro j o hj
  simp only [List.getElem?_set] at hj
  by_cases hij : i = j
  · rw [if_pos hij] at hj
    by_cases hlen : i < s.handlers.length
    · rw [if_pos hlen] at hj
      exact hv o hj
    · rw [if_neg hlen] at hj
      cases hj
  · rw [if_neg hij] at hj
    exact hs j o hj

theorem step_sound {op : Op Key CompactKey CacheMeta} {s s' : System M Hash CacheMeta} (hs : s.Sound crate)
    (h : step crate op s = some s') : s'.Sound crate := by
  cases op with
  | lookup key now => cases h; exact hs
  | updateMeta key m => cases h; exact hs
  | purge key => cases h; exact hs
  | getMissHandler key m =>
    rcases getMissHandler_cases crate key m s.storage with ⟨raw, hm, hget⟩ | ⟨e, hget⟩
    · simp only [step, hget] at h
      cases h
      intro i o ho
      simp only [List.getElem?_append] at ho
      by_cases hi : i < s.handlers.length
      · rw [if_pos hi] at ho
        exact hs i o ho
      · rw [if_neg hi] at ho
        rcases hj : i - s.handlers.length with _ | j
        · rw [hj] at ho
          cases ho
          exact ⟨⟨key, rfl⟩, hm, rfl⟩
        · rw [hj] at ho
          cases ho
    · simp only [step, hget] at h
      cases h
      exact hs
  | writeBody i data =>
    obtain ⟨o, ho, rfl⟩ := Option.map_eq_some_iff.mp h
    apply sound_set hs
    rintro _ ⟨⟩
    exact (hs i o ho).write s.storage data
  | finish i =>
    obtain ⟨o, -, rfl⟩ := Option.map_eq_some_iff.mp h
    apply sound_set hs
    rintro _ ⟨⟩

/-! ## What leaves an entry -/

/-- The calls that are for the entry under `key`: a lookup only where it purges. -/
def Touches (crate : CacheCrate Key CompactKey Hash CacheMeta) (key : Hash) :
    Op Key CompactKey CacheMeta → System M Hash CacheMeta → Prop
  | .lookup k now, s => crate.combinedBin k = key ∧ ∃ obj m, entry s.storage.cache key = some obj ∧
      crate.deserialize obj.binaryMeta = .ok m ∧ crate.freshUntil m < now
  | .getMissHandler _ _, _ => False
  | .writeBody _ _, _ => False
  | .finish i, s => ∃ o, s.handlers[i]?.join = some o ∧ o.handler.key = key
  | .updateMeta k _, _ => crate.combinedBin k = key
  | .purge k, _ => crate.compactBin k = key

theorem step_untouched (laws : CacheLaws crate) {key : Hash} {op : Op Key CompactKey CacheMeta}
    {s s' : System M Hash CacheMeta} (ht : ¬ Touches crate key op s) (h : step crate op s = some s') :
    entry s'.storage.cache key = entry s.storage.cache key := by
  cases op with
  | lookup k now =>
    cases h
    show entry (lookup crate k now s.storage).2.cache key = _
    cases hobj : entry s.storage.cache (crate.combinedBin k) with
    | none => rw [lookup_none hobj]
    | some obj =>
      cases hm : crate.deserialize obj.binaryMeta with
      | error e => rw [lookup_unread hobj hm]
      | ok m =>
        rw [lookup_some hobj hm]
        by_cases hnow : crate.freshUntil m < now
        · have hne : key ≠ crate.compactBin (crate.toCompact k) := by
            rw [laws.compact]
            intro he
            subst he
            exact ht ⟨rfl, obj, m, hobj, hm, hnow⟩
          simp only [if_pos hnow]
          rw [purge_cache, if_neg hne]
        · simp only [if_neg hnow]
  | getMissHandler k m =>
    rcases getMissHandler_cases crate k m s.storage with ⟨raw, -, hget⟩ | ⟨e, hget⟩
    · simp only [step, hget] at h
      cases h
      rfl
    · simp only [step, hget] at h
      cases h
      rfl
  | writeBody i data =>
    obtain ⟨o, -, rfl⟩ := Option.map_eq_some_iff.mp h
    rfl
  | finish i =>
    obtain ⟨o, ho, rfl⟩ := Option.map_eq_some_iff.mp h
    have hne : key ≠ o.handler.key := fun hk => ht ⟨o, ho, hk.symm⟩
    rcases o.handler.finish_cases s.storage with ⟨size, hf⟩ | ⟨e, hf⟩
    · simp only [hf]
      exact CacheMissHandler.insertAsync_other _ _ hne
    · simp only [hf]
  | updateMeta k m =>
    cases h
    exact updateMeta_other fun hk => ht hk.symm
  | purge k =>
    cases h
    show entry (purge crate k s.storage).2.cache key = _
    rw [purge_cache, if_neg fun hk => ht hk.symm]

/-- The entry under a key outlasts every call that is not for it. -/
theorem run_untouched (laws : CacheLaws crate) {key : Hash} {ops : List (Op Key CompactKey CacheMeta)}
    {s s' : System M Hash CacheMeta} (h : Run (step crate) (fun op s => ¬ Touches crate key op s) s ops s') :
    entry s'.storage.cache key = entry s.storage.cache key :=
  Run.invariant (I := fun t => entry t.storage.cache key = entry s.storage.cache key)
    (fun _ _ _ hi hp hs => (step_untouched laws hp hs).trans hi) h rfl

/-! ## What a finish stores -/

/-- A lookup finds the metadata and the writes of `o`. -/
def Finds (crate : CacheCrate Key CompactKey Hash CacheMeta) (o : OpenHandler Hash CacheMeta)
    (s : System M Hash CacheMeta) : Prop :=
  ∀ key now, crate.combinedBin key = o.handler.key → ∃ hit, (lookup crate key now s.storage).1 = .ok (some (o.given, hit)) ∧
    (CacheHitHandler.readBody hit).1 = .ok (some o.accepted.flatten)

/-- An entry that reads as what `o` holds. -/
def SameEntry (crate : CacheCrate Key CompactKey Hash CacheMeta) (o : OpenHandler Hash CacheMeta) (obj : SccCacheObject) :
    Prop := crate.deserialize obj.binaryMeta = .ok o.given ∧ obj.body = o.accepted.flatten

theorem readBody_new (obj : SccCacheObject) :
    (CacheHitHandler.readBody (CacheHitHandler.new obj)).1 = .ok (some obj.body) := by
  have hslice : slice 0 obj.body.length obj.body = some obj.body := by
    rw [slice_zero (Nat.le_refl _), List.take_length]
  unfold CacheHitHandler.readBody CacheHitHandler.new
  rw [Async.get_bind_apply]
  simp only [hslice]
  rfl

theorem finds_iff {o : OpenHandler Hash CacheMeta} (hkey : ∃ key, crate.combinedBin key = o.handler.key)
    {s : System M Hash CacheMeta} :
    Finds crate o s ↔ ∃ obj, entry s.storage.cache o.handler.key = some obj ∧ SameEntry crate o obj := by
  constructor
  · intro h
    obtain ⟨key, hk⟩ := hkey
    obtain ⟨hit, hl, hb⟩ := h key 0 hk
    rw [← hk]
    cases hobj : entry s.storage.cache (crate.combinedBin key) with
    | none =>
      rw [lookup_none hobj] at hl
      cases hl
    | some obj =>
      cases hm : crate.deserialize obj.binaryMeta with
      | error e =>
        rw [lookup_unread hobj hm] at hl
        cases hl
      | ok m =>
        rw [lookup_some hobj hm] at hl
        cases hl
        rw [readBody_new] at hb
        exact ⟨obj, rfl, hm, Option.some.inj (Out.ok.inj hb)⟩
  · intro h key now hk
    rcases h with ⟨obj, hobj, hm, hb⟩
    rw [← hk] at hobj
    refine ⟨CacheHitHandler.new obj, by rw [lookup_some hobj hm], ?_⟩
    rw [readBody_new, hb]

/-- In any order of calls, after a finish that returns `Ok`, and as long as no call is for
    the entry, a lookup finds the metadata and the accepted writes of the handler just if
    the key had no entry at the finish, or one that reads the same. A finish or a write
    that returns `Err` leaves every entry. -/
theorem finish_stores_iff (crate : CacheCrate Key CompactKey Hash CacheMeta) (laws : CacheLaws crate)
    (maxFileSizeBytes : Option Nat) (rejectEmptyBody : Bool) (ops : List (Op Key CompactKey CacheMeta))
    (s : System M Hash CacheMeta)
    (h : Run (step crate) (fun _ _ => True) (newStorage maxFileSizeBytes rejectEmptyBody) ops s) (i : Nat)
    (o : OpenHandler Hash CacheMeta) (ho : s.handlers[i]?.join = some o) :
    (∀ size, (o.handler.finish s.storage).1 = .ok size →
      ((∀ s1 later t, step crate (.finish i) s = some s1 →
          Run (step crate) (fun op u => ¬ Touches crate o.handler.key op u) s1 later t → Finds crate o t) ↔
        ∀ obj, entry s.storage.cache o.handler.key = some obj → SameEntry crate o obj)) ∧
      (∀ e s1, (o.handler.finish s.storage).1 = .err e → step crate (.finish i) s = some s1 →
        s1.storage.cache = s.storage.cache) ∧
      ∀ data e s1, (CacheMissHandler.writeBody s.storage data o.handler).1 = .err e →
        step crate (.writeBody i data) s = some s1 → s1.storage.cache = s.storage.cache := by
  have hsound : o.Sound crate := Run.invariant (I := System.Sound crate) (fun _ _ _ hi _ hs => step_sound hi hs) h
    (fun j p hj => by cases hj) i o ho
  have hstep : step crate (.finish i) s = some ⟨(o.handler.finish s.storage).2, s.handlers.set i none⟩ :=
    Option.map_eq_some_iff.mpr ⟨o, ho, rfl⟩
  refine ⟨fun size hok => ?_, fun e s1 herr h1 => ?_, fun data e s1 _ h1 => ?_⟩
  · rcases o.handler.finish_cases s.storage with ⟨n, hf⟩ | ⟨e, hf⟩
    · constructor
      · intro hall obj hobj
        obtain ⟨obj', hobj', hsame⟩ := (finds_iff hsound.key).mp (hall _ [] _ hstep (.nil _))
        rw [hf, CacheMissHandler.insertAsync_taken _ hobj, hobj] at hobj'
        cases hobj'
        exact hsame
      · intro hfree s1 later t h1 hrun
        cases hstep.symm.trans h1
        refine (finds_iff hsound.key).mpr ?_
        rw [run_untouched laws hrun, hf]
        cases hobj : entry s.storage.cache o.handler.key with
        | some obj =>
          rw [CacheMissHandler.insertAsync_taken _ hobj]
          exact ⟨obj, hobj, hfree obj hobj⟩
        | none =>
          exact ⟨_, CacheMissHandler.insertAsync_free _ hobj, laws.readBack hsound.given, hsound.body⟩
    · rw [hf] at hok
      cases hok
  · cases hstep.symm.trans h1
    rcases o.handler.finish_cases s.storage with ⟨n, hf⟩ | ⟨e', hf⟩
    · rw [hf] at herr
      cases herr
    · rw [hf]
  · obtain ⟨_, -, rfl⟩ := Option.map_eq_some_iff.mp h1
    rfl

/-! ## Two handlers for one key -/

/-- A key is its hash, and the metadata says only until when it is fresh. -/
def plainCrate : CacheCrate Nat Nat Nat Nat where
  combinedBin := id
  toCompact := id
  compactBin := id
  serialize m := .ok (List.replicate m 0, [])
  deserialize raw := .ok raw.1.length
  freshUntil := id

theorem plainCrate_laws : CacheLaws plainCrate where
  compact _ := rfl
  readBack := by
    intro m raw h
    cases h
    exact congrArg Except.ok (List.length_replicate ..)

/-- Two handlers are opened for key 1, both are written to, and the first finishes. -/
def twoMisses : List (Op Nat Nat Nat) :=
  [.getMissHandler 1 5, .getMissHandler 1 7, .writeBody 0 [1], .writeBody 1 [2], .finish 0]

theorem finish_stores_iff_twoMisses :
    let s := (stepAll (step plainCrate) (fun _ _ => True) twoMisses (newStorage none true : System FunMap Nat Nat)).get (by rfl)
    let o : OpenHandler Nat Nat := ⟨⟨(List.replicate 7 0, []), 1, [2]⟩, 7, [[2]]⟩
    (∀ size, (o.handler.finish s.storage).1 = .ok size →
      ((∀ s1 later t, step plainCrate (.finish 1) s = some s1 →
          Run (step plainCrate) (fun op u => ¬ Touches plainCrate o.handler.key op u) s1 later t →
          Finds plainCrate o t) ↔
        ∀ obj, entry s.storage.cache o.handler.key = some obj → SameEntry plainCrate o obj)) ∧
      (∀ e s1, (o.handler.finish s.storage).1 = .err e → step plainCrate (.finish 1) s = some s1 →
        s1.storage.cache = s.storage.cache) ∧
      ∀ data e s1, (CacheMissHandler.writeBody s.storage data o.handler).1 = .err e →
        step plainCrate (.writeBody 1 data) s = some s1 → s1.storage.cache = s.storage.cache :=
  finish_stores_iff plainCrate plainCrate_laws none true twoMisses _ (run_get _ _ _ _ (by rfl)) 1 _ (by rfl)

/-- The second handler finishes with `Ok`, and the first one's entry is what is found. -/
theorem finish_not_stored :
    ∃ s s1 : System FunMap Nat Nat, Run (step plainCrate) (fun _ _ => True) (newStorage none true) twoMisses s ∧
      ∃ o : OpenHandler Nat Nat, s.handlers[1]?.join = some o ∧ o.accepted = [[2]] ∧
        (o.handler.finish s.storage).1 = .ok 8 ∧ step plainCrate (.finish 1) s = some s1 ∧
        ∃ hit, (lookup plainCrate 1 0 s1.storage).1 = .ok (some (5, hit)) ∧
          (CacheHitHandler.readBody hit).1 = .ok (some [1]) :=
  ⟨_, _, run_get _ _ _ _ (by rfl), _, rfl, rfl, rfl, rfl, _, rfl, rfl⟩

end Glaive.Cache
