/-
  Glaive.Cache.Provenance — where what a lookup of the in-memory cache finds comes from
  (`glaive/src/cache.rs`; the calls are those of `Glaive.Cache.Storage`).

  Proved, over any order of calls: a lookup never fails, and what it finds is the whole
  body of one handler that finished while the key had no entry, within the limits of the
  storage, with the metadata of that handler or of an update after it; and no purge of the
  key, by a call or by a lookup of an expired entry, came in between
  (`lookup_provenance`). What a handler holds that is not finished is never found.
-/

import Glaive.Cache.Storage

namespace Glaive.Cache

open Glaive.Lib
open Glaive.Lib.SharedMap (entry)

variable {M : Type → Type → Type} [SharedMap M] {Key CompactKey Hash CacheMeta : Type} [DecidableEq Hash]

/-- The call takes the entry under `k` out. -/
def Drops (crate : CacheCrate Key CompactKey Hash CacheMeta) (k : Hash) :
    Op Key CompactKey CacheMeta → System M Hash CacheMeta → Prop
  | .lookup key now, s => crate.combinedBin key = k ∧ ∃ obj m, entry s.storage.cache k = some obj ∧
      crate.deserialize obj.binaryMeta = .ok m ∧ crate.freshUntil m < now
  | .purge key, _ => crate.compactBin key = k
  | _, _ => False

/-- The metadata under `k` is what a handler had, or an update gave later. -/
def MetaFrom (crate : CacheCrate Key CompactKey Hash CacheMeta) (k : Hash) (later : List (Op Key CompactKey CacheMeta))
    (first raw : BinaryMeta) : Prop :=
  raw = first ∨ ∃ key m, crate.combinedBin key = k ∧ .updateMeta key m ∈ later ∧ crate.serialize m = .ok raw

/-- `obj` is under `k` since `finish i`, by which `o` stored it into the free place. -/
structure StoredBy (crate : CacheCrate Key CompactKey Hash CacheMeta) (s0 : System M Hash CacheMeta) (k : Hash)
    (before later : List (Op Key CompactKey CacheMeta)) (i : Nat) (o : OpenHandler Hash CacheMeta)
    (s : System M Hash CacheMeta) (obj : SccCacheObject) : Prop where
  finished : ∃ u u', Run (step crate) (fun _ _ => True) s0 before u ∧ u.handlers[i]?.join = some o ∧
    entry u.storage.cache k = none ∧ (∃ size, (o.handler.finish u.storage).1 = .ok size) ∧
    step crate (.finish i) u = some u' ∧ Run (step crate) (fun op x => ¬ Drops crate k op x) u' later s
  key : o.handler.key = k
  body : obj.body = o.handler.bodyBuf
  binaryMeta : MetaFrom crate k later o.handler.binaryMeta obj.binaryMeta

/-- Each entry is one a finish stored. -/
def AllStored (crate : CacheCrate Key CompactKey Hash CacheMeta) (s0 : System M Hash CacheMeta)
    (ops : List (Op Key CompactKey CacheMeta)) (s : System M Hash CacheMeta) : Prop :=
  ∀ k obj, entry s.storage.cache k = some obj →
    ∃ before i later o, ops = before ++ .finish i :: later ∧ StoredBy crate s0 k before later i o s obj

variable {crate : CacheCrate Key CompactKey Hash CacheMeta}

/-! ## One call -/

/-- How an entry that is there after a call came to be. -/
inductive Entered (crate : CacheCrate Key CompactKey Hash CacheMeta) (k : Hash) (obj : SccCacheObject)
    (op : Op Key CompactKey CacheMeta) (s : System M Hash CacheMeta) : Prop
  | stayed : entry s.storage.cache k = some obj → ¬ Drops crate k op s → Entered crate k obj op s
  | updated {key : Key} {m : CacheMeta} {old : SccCacheObject} : op = .updateMeta key m → crate.combinedBin key = k →
      entry s.storage.cache k = some old → obj.body = old.body → crate.serialize m = .ok obj.binaryMeta →
      Entered crate k obj op s
  | stored {i : Nat} {o : OpenHandler Hash CacheMeta} : op = .finish i → s.handlers[i]?.join = some o →
      o.handler.key = k → entry s.storage.cache k = none → (∃ size, (o.handler.finish s.storage).1 = .ok size) →
      obj = ⟨o.handler.binaryMeta, o.handler.bodyBuf⟩ → Entered crate k obj op s

theorem updateMeta_entry {key : Key} {m : CacheMeta} {s : MemoryStorage M Hash} {k : Hash} {obj : SccCacheObject}
    (h : entry (updateMeta crate key m s).2.cache k = some obj) :
    entry s.cache k = some obj ∨ crate.combinedBin key = k ∧
      ∃ old, entry s.cache k = some old ∧ obj.body = old.body ∧ crate.serialize m = .ok obj.binaryMeta := by
  by_cases hk : k = crate.combinedBin key
  · subst hk
    rcases updateMeta_cases crate key m s with ⟨e, herr⟩ | ⟨raw, old, cache, hm, hold, hok, hentry⟩
    · rw [herr] at h
      exact .inl h
    · rw [hok] at h
      have hobj := (hentry _).symm.trans h
      rw [if_pos rfl] at hobj
      cases hobj
      exact .inr ⟨rfl, old, hold, rfl, hm⟩
  · rw [updateMeta_other hk] at h
    exact .inl h

theorem step_entered (laws : CacheLaws crate) {op : Op Key CompactKey CacheMeta} {s s' : System M Hash CacheMeta}
    (h : step crate op s = some s') {k : Hash} {obj : SccCacheObject} (hobj : entry s'.storage.cache k = some obj) :
    Entered crate k obj op s := by
  cases op with
  | lookup key now =>
    cases h
    -- it purges an entry it finds expired, and does nothing else to the map
    cases hold : entry s.storage.cache (crate.combinedBin key) with
    | none =>
      have hlook : lookup crate key now s.storage = _ := lookup_none hold
      have hl : entry s.storage.cache k = some obj := (congrArg (fun x => entry x.2.cache k) hlook).symm.trans hobj
      refine .stayed hl fun hd => ?_
      obtain ⟨rfl, obj', m, hobj', -, -⟩ := hd
      cases hold.symm.trans hobj'
    | some old =>
      cases hm : crate.deserialize old.binaryMeta with
      | error e =>
        have hlook : lookup crate key now s.storage = _ := lookup_unread hold hm
        have hl : entry s.storage.cache k = some obj := (congrArg (fun x => entry x.2.cache k) hlook).symm.trans hobj
        refine .stayed hl fun hd => ?_
        obtain ⟨rfl, obj', m, hobj', hm', -⟩ := hd
        cases hold.symm.trans hobj'
        cases hm.symm.trans hm'
      | ok m =>
        have hlook : lookup crate key now s.storage = _ := lookup_some hold hm
        have hl : entry (if crate.freshUntil m < now then (purge crate (crate.toCompact key) s.storage).2
            else s.storage).cache k = some obj := (congrArg (fun x => entry x.2.cache k) hlook).symm.trans hobj
        by_cases hnow : crate.freshUntil m < now
        · rw [if_pos hnow, purge_cache, laws.compact] at hl
          by_cases hk : k = crate.combinedBin key
          · rw [if_pos hk] at hl
            cases hl
          · rw [if_neg hk] at hl
            exact .stayed hl fun hd => hk hd.1.symm
        · rw [if_neg hnow] at hl
          refine .stayed hl fun hd => ?_
          obtain ⟨rfl, obj', m', hobj', hm', hnow'⟩ := hd
          cases hold.symm.trans hobj'
          cases hm.symm.trans hm'
          exact hnow hnow'
  | getMissHandler key m =>
    rcases getMissHandler_cases crate key m s.storage with ⟨raw, -, hget⟩ | ⟨e, hget⟩
    · simp only [step, hget] at h
      cases h
      exact .stayed hobj id
    · simp only [step, hget] at h
      cases h
      exact .stayed hobj id
  | writeBody i data =>
    obtain ⟨o, -, rfl⟩ := Option.map_eq_some_iff.mp h
    exact .stayed hobj id
  | finish i =>
    obtain ⟨o, ho, rfl⟩ := Option.map_eq_some_iff.mp h
    rcases o.handler.finish_cases s.storage with ⟨size, hf⟩ | ⟨e, hf⟩
    · simp only [hf] at hobj
      by_cases hk : k = o.handler.key
      · cases hold : entry s.storage.cache k with
        | some old =>
          rw [CacheMissHandler.insertAsync_taken _ (hk ▸ hold)] at hobj
          exact .stayed hobj id
        | none =>
          rw [hk, CacheMissHandler.insertAsync_free _ (hk ▸ hold)] at hobj
          exact .stored rfl ho hk.symm hold ⟨size, by rw [hf]⟩ (Option.some.inj hobj).symm
      · rw [CacheMissHandler.insertAsync_other _ _ hk] at hobj
        exact .stayed hobj id
    · simp only [hf] at hobj
      exact .stayed hobj id
  | updateMeta key m =>
    cases h
    rcases updateMeta_entry hobj with hold | ⟨hk, old, hold, hb, hm⟩
    · exact .stayed hold id
    · exact .updated rfl hk hold hb hm
  | purge key =>
    cases h
    have hl := (purge_cache key s.storage k).symm.trans hobj
    by_cases hk : k = crate.compactBin key
    · rw [if_pos hk] at hl
      cases hl
    · rw [if_neg hk] at hl
      exact .stayed hl fun hd => hk hd.symm

omit [DecidableEq Hash] in
theorem MetaFrom.later {k : Hash} {later : List (Op Key CompactKey CacheMeta)} {first raw : BinaryMeta}
    (h : MetaFrom crate k later first raw) (op : Op Key CompactKey CacheMeta) :
    MetaFrom crate k (later ++ [op]) first raw := by
  rcases h with h | ⟨key, m, hk, hin, hm⟩
  · exact .inl h
  · exact .inr ⟨key, m, hk, List.mem_append_left _ hin, hm⟩

/-- A call that does not drop the entry, and leaves it its body. -/
theorem StoredBy.next {s0 s s' : System M Hash CacheMeta} {k : Hash} {before later : List (Op Key CompactKey CacheMeta)}
    {i : Nat} {o : OpenHandler Hash CacheMeta} {old obj : SccCacheObject} {op : Op Key CompactKey CacheMeta}
    (h : StoredBy crate s0 k before later i o s old) (hd : ¬ Drops crate k op s) (hs : step crate op s = some s')
    (hbody : obj.body = old.body) (hmeta : MetaFrom crate k (later ++ [op]) o.handler.binaryMeta obj.binaryMeta) :
    StoredBy crate s0 k before (later ++ [op]) i o s' obj := by
  obtain ⟨u, u', h0, ho, hfree, hok, hu, hrun⟩ := h.finished
  exact ⟨⟨u, u', h0, ho, hfree, hok, hu, hrun.append (.cons hd hs (.nil _))⟩, h.key, hbody.trans h.body, hmeta⟩

theorem AllStored.step (laws : CacheLaws crate) {s0 s s' : System M Hash CacheMeta}
    {ops : List (Op Key CompactKey CacheMeta)} {op : Op Key CompactKey CacheMeta} (ha : AllStored crate s0 ops s)
    (h0 : Run (step crate) (fun _ _ => True) s0 ops s) (hs : Cache.step crate op s = some s') :
    AllStored crate s0 (ops ++ [op]) s' := by
  intro k obj hobj
  cases step_entered laws hs hobj with
  | stayed hold hd =>
    obtain ⟨before, i, later, o, hops, hst⟩ := ha k obj hold
    exact ⟨before, i, later ++ [op], o, by rw [hops, List.append_assoc]; rfl,
      hst.next hd hs rfl (hst.binaryMeta.later op)⟩
  | updated hop hk hold hb hm =>
    obtain ⟨before, i, later, o, hops, hst⟩ := ha k _ hold
    refine ⟨before, i, later ++ [op], o, by rw [hops, List.append_assoc]; rfl, hst.next (by subst hop; exact id) hs hb ?_⟩
    exact .inr ⟨_, _, hk, List.mem_append_right _ (hop ▸ List.mem_singleton_self _), hm⟩
  | stored hop ho hk hfree hok heq =>
    subst hop
    subst heq
    exact ⟨ops, _, [], _, rfl, ⟨s, s', h0, ho, hfree, hok, hs, .nil _⟩, hk, rfl, .inl rfl⟩

/-! ## Runs -/

/-- The storage's limits are those it was made with, and what an open handler holds is
    within them. -/
structure Limited (maxFileSizeBytes : Option Nat) (rejectEmptyBody : Bool) (s : System M Hash CacheMeta) : Prop where
  max : s.storage.maxFileSizeBytes = maxFileSizeBytes
  reject : s.storage.rejectEmptyBody = rejectEmptyBody
  within : ∀ (i : Nat) (o : OpenHandler Hash CacheMeta), s.handlers[i]?.join = some o →
    ∀ n, maxFileSizeBytes = some n → o.handler.bodyBuf.length ≤ n

theorem lookup_limits (crate : CacheCrate Key CompactKey Hash CacheMeta) (key : Key) (now : Nat) (s : MemoryStorage M Hash) :
    (lookup crate key now s).2.maxFileSizeBytes = s.maxFileSizeBytes ∧
      (lookup crate key now s).2.rejectEmptyBody = s.rejectEmptyBody := by
  cases hold : entry s.cache (crate.combinedBin key) with
  | none => rw [lookup_none hold]; exact ⟨rfl, rfl⟩
  | some old =>
    cases hm : crate.deserialize old.binaryMeta with
    | error e => rw [lookup_unread hold hm]; exact ⟨rfl, rfl⟩
    | ok m =>
      rw [lookup_some hold hm]
      by_cases hnow : crate.freshUntil m < now
      · obtain ⟨removed, cache, hpurge, -⟩ := purge_spec crate (crate.toCompact key) s
        rw [if_pos hnow, hpurge]
        exact ⟨rfl, rfl⟩
      · rw [if_neg hnow]; exact ⟨rfl, rfl⟩

theorem updateMeta_limits (crate : CacheCrate Key CompactKey Hash CacheMeta) (key : Key) (m : CacheMeta)
    (s : MemoryStorage M Hash) : (updateMeta crate key m s).2.maxFileSizeBytes = s.maxFileSizeBytes ∧
      (updateMeta crate key m s).2.rejectEmptyBody = s.rejectEmptyBody := by
  rcases updateMeta_cases crate key m s with ⟨e, herr⟩ | ⟨raw, old, cache, -, -, hok, -⟩
  · rw [herr]; exact ⟨rfl, rfl⟩
  · rw [hok]; exact ⟨rfl, rfl⟩

theorem finish_limits (h : CacheMissHandler Hash) (s : MemoryStorage M Hash) :
    (h.finish s).2.maxFileSizeBytes = s.maxFileSizeBytes ∧ (h.finish s).2.rejectEmptyBody = s.rejectEmptyBody := by
  rcases h.finish_cases s with ⟨size, hf⟩ | ⟨e, hf⟩
  · rw [hf]
    unfold CacheMissHandler.insertAsync
    cases SharedMap.insert s.cache h.key ⟨h.binaryMeta, h.bodyBuf⟩ with
    | error old => exact ⟨rfl, rfl⟩
    | ok cache => exact ⟨rfl, rfl⟩
  · rw [hf]
    exact ⟨rfl, rfl⟩

variable {maxFileSizeBytes : Option Nat} {rejectEmptyBody : Bool}

omit [SharedMap M] [DecidableEq Hash] in
/-- A write that would go past the limit is not taken. -/
theorem write_within {s : MemoryStorage M Hash} (hmax : s.maxFileSizeBytes = maxFileSizeBytes) {data : Bytes}
    {o : OpenHandler Hash CacheMeta} (ho : ∀ n, maxFileSizeBytes = some n → o.handler.bodyBuf.length ≤ n) :
    ∀ n, maxFileSizeBytes = some n → (o.write s data).handler.bodyBuf.length ≤ n := by
  intro n hn
  unfold OpenHandler.write CacheMissHandler.writeBody
  rw [Async.get_bind_apply]
  by_cases hover : (s.maxFileSizeBytes.any fun n => n < o.handler.bodyBuf.length + data.length) = true
  · simp only [hover, if_true, Async.stop_apply]
    exact ho n hn
  · simp only [hover, Bool.false_eq_true, if_false, Async.modify_apply]
    rw [hmax, hn, Option.any_some, decide_eq_true_eq] at hover
    rw [List.length_append]
    exact Nat.le_of_not_lt hover

theorem Limited.step {op : Op Key CompactKey CacheMeta} {s s' : System M Hash CacheMeta}
    (hl : Limited maxFileSizeBytes rejectEmptyBody s) (h : Cache.step crate op s = some s') :
    Limited maxFileSizeBytes rejectEmptyBody s' := by
  obtain ⟨hmax, hreject, hwithin⟩ := hl
  have hset : ∀ (i : Nat) (v : Option (OpenHandler Hash CacheMeta)),
      (∀ o, v = some o → ∀ n, maxFileSizeBytes = some n → o.handler.bodyBuf.length ≤ n) →
      ∀ (j : Nat) (o : OpenHandler Hash CacheMeta), (s.handlers.set i v)[j]?.join = some o →
        ∀ n, maxFileSizeBytes = some n → o.handler.bodyBuf.length ≤ n := by
    intro i v hv j o hj
    rw [List.getElem?_set] at hj
    split at hj
    · split at hj
      · exact hv o hj
      · cases hj
    · exact hwithin j o hj
  cases op with
  | lookup key now =>
    cases h
    obtain ⟨h1, h2⟩ := lookup_limits crate key now s.storage
    exact ⟨h1.trans hmax, h2.trans hreject, hwithin⟩
  | getMissHandler key m =>
    rcases getMissHandler_cases crate key m s.storage with ⟨raw, -, hget⟩ | ⟨e, hget⟩
    · simp only [Cache.step, hget] at h
      cases h
      refine ⟨hmax, hreject, fun j o hj n hn => ?_⟩
      rw [List.getElem?_append] at hj
      split at hj
      · exact hwithin j o hj n hn
      · rcases hidx : j - s.handlers.length with _ | k
        · rw [hidx] at hj
          cases hj
          exact Nat.zero_le n
        · rw [hidx] at hj
          cases hj
    · simp only [Cache.step, hget] at h
      cases h
      exact ⟨hmax, hreject, hwithin⟩
  | writeBody i data =>
    obtain ⟨o, ho, rfl⟩ := Option.map_eq_some_iff.mp h
    refine ⟨hmax, hreject, hset i _ ?_⟩
    rintro _ ⟨⟩
    exact write_within hmax (hwithin i o ho)
  | finish i =>
    obtain ⟨o, -, rfl⟩ := Option.map_eq_some_iff.mp h
    obtain ⟨h1, h2⟩ := finish_limits o.handler s.storage
    refine ⟨h1.trans hmax, h2.trans hreject, hset i none ?_⟩
    rintro _ ⟨⟩
  | updateMeta key m =>
    cases h
    obtain ⟨h1, h2⟩ := updateMeta_limits crate key m s.storage
    exact ⟨h1.trans hmax, h2.trans hreject, hwithin⟩
  | purge key =>
    cases h
    obtain ⟨removed, cache, hpurge, -⟩ := purge_spec crate key s.storage
    rw [hpurge]
    exact ⟨hmax, hreject, hwithin⟩

omit [DecidableEq Hash] in
theorem limited_new : Limited maxFileSizeBytes rejectEmptyBody
    (newStorage maxFileSizeBytes rejectEmptyBody : System M Hash CacheMeta) :=
  ⟨rfl, rfl, fun i o ho => by cases ho⟩

theorem run_limited {ops : List (Op Key CompactKey CacheMeta)} {s : System M Hash CacheMeta}
    (h : Run (Cache.step crate) (fun _ _ => True) (newStorage maxFileSizeBytes rejectEmptyBody) ops s) :
    Limited maxFileSizeBytes rejectEmptyBody s := Run.invariant (fun _ _ _ hi _ hs => hi.step hs) h limited_new

theorem run_sound {ops : List (Op Key CompactKey CacheMeta)} {s : System M Hash CacheMeta}
    (h : Run (Cache.step crate) (fun _ _ => True) (newStorage maxFileSizeBytes rejectEmptyBody) ops s) :
    s.Sound crate := Run.invariant (fun _ _ _ hi _ hs => step_sound hi hs) h fun i o ho => by cases ho

theorem run_stored (laws : CacheLaws crate) {ops : List (Op Key CompactKey CacheMeta)} :
    ∀ {s : System M Hash CacheMeta},
      Run (Cache.step crate) (fun _ _ => True) (newStorage maxFileSizeBytes rejectEmptyBody) ops s →
      AllStored crate (newStorage maxFileSizeBytes rejectEmptyBody) ops s := by
  induction ops using List.reverseRecOn with
  | nil =>
    intro s h
    cases h
    intro k obj hobj
    cases (SharedMap.entry_new k).symm.trans hobj
  | append_singleton ops op ih =>
    intro s h
    obtain ⟨u, hu, hlast⟩ := h.split
    cases hlast with
    | cons _ hs hend =>
      cases hend
      exact (ih hu).step laws hu hs

/-- An object a finish took is not empty where the storage rejects empty bodies. -/
theorem finish_nonempty {h : CacheMissHandler Hash} {s : MemoryStorage M Hash} {size : Nat}
    (hok : (h.finish s).1 = .ok size) (hr : s.rejectEmptyBody = true) : h.bodyBuf ≠ [] := by
  intro he
  unfold CacheMissHandler.finish at hok
  rw [Async.get_bind_apply, if_pos ⟨by rw [he]; rfl, hr⟩] at hok
  cases hok

/-- In any order of calls: a lookup does not fail. What it finds has the body of one
    handler, whole, which finished with `Ok` while the key had no entry; the entry was not
    purged since; and the metadata is that handler's or of an update since. -/
theorem lookup_provenance (crate : CacheCrate Key CompactKey Hash CacheMeta) (laws : CacheLaws crate)
    (maxFileSizeBytes : Option Nat) (rejectEmptyBody : Bool) {ops : List (Op Key CompactKey CacheMeta)}
    {s : System M Hash CacheMeta}
    (h : Run (step crate) (fun _ _ => True) (newStorage maxFileSizeBytes rejectEmptyBody) ops s) (key : Key) (now : Nat) :
    (entry s.storage.cache (crate.combinedBin key) = none ∧ (lookup crate key now s.storage).1 = .ok none) ∨
      ∃ m hit before i later o, (lookup crate key now s.storage).1 = .ok (some (m, hit)) ∧
        ops = before ++ .finish i :: later ∧
        StoredBy crate (newStorage maxFileSizeBytes rejectEmptyBody) (crate.combinedBin key) before later i o s
          hit.cacheObject ∧
        (CacheHitHandler.readBody hit).1 = .ok (some o.accepted.flatten) ∧
        (m = o.given ∨ ∃ key', crate.combinedBin key' = crate.combinedBin key ∧ .updateMeta key' m ∈ later) ∧
        (∀ n, maxFileSizeBytes = some n → o.accepted.flatten.length ≤ n) ∧
        (rejectEmptyBody = true → o.accepted.flatten ≠ []) := by
  cases hobj : entry s.storage.cache (crate.combinedBin key) with
  | none => exact .inl ⟨rfl, by rw [lookup_none hobj]⟩
  | some obj =>
    obtain ⟨before, i, later, o, hops, hst⟩ := run_stored laws h _ obj hobj
    obtain ⟨u, u', h0, ho, -, ⟨size, hok⟩, -, -⟩ := hst.finished
    have hsound := run_sound h0 i o ho
    have hlimited := run_limited h0
    have hread : ∃ m, crate.deserialize obj.binaryMeta = .ok m ∧
        (m = o.given ∨ ∃ key', crate.combinedBin key' = crate.combinedBin key ∧ .updateMeta key' m ∈ later) := by
      rcases hst.binaryMeta with hm | ⟨key', m, hk, hin, hm⟩
      · exact ⟨o.given, by rw [hm]; exact laws.readBack hsound.given, .inl rfl⟩
      · exact ⟨m, laws.readBack hm, .inr ⟨key', hk, hin⟩⟩
    obtain ⟨m, hm, hfrom⟩ := hread
    refine .inr ⟨m, CacheHitHandler.new obj, before, i, later, o, by rw [lookup_some hobj hm], hops, hst, ?_, hfrom,
      fun n hn => ?_, fun hr => ?_⟩
    · rw [readBody_new, hst.body, hsound.body]
    · rw [← hsound.body]
      exact hlimited.within i o ho n hn
    · rw [← hsound.body]
      exact finish_nonempty hok (hlimited.reject.trans hr)

theorem lookup_provenance_twoMisses :
    let s := (stepAll (step plainCrate) (fun _ _ => True) twoMisses (newStorage none true : System FunMap Nat Nat)).get (by rfl)
    (entry s.storage.cache 1 = none ∧ (lookup plainCrate 1 0 s.storage).1 = .ok none) ∨
      ∃ m hit before i later o, (lookup plainCrate 1 0 s.storage).1 = .ok (some (m, hit)) ∧
        twoMisses = before ++ .finish i :: later ∧
        StoredBy plainCrate (newStorage none true) 1 before later i o s hit.cacheObject ∧
        (CacheHitHandler.readBody hit).1 = .ok (some o.accepted.flatten) ∧
        (m = o.given ∨ ∃ key', plainCrate.combinedBin key' = 1 ∧ .updateMeta key' m ∈ later) ∧
        (∀ n, none = some n → o.accepted.flatten.length ≤ n) ∧ (true = true → o.accepted.flatten ≠ []) :=
  lookup_provenance plainCrate plainCrate_laws none true (run_get _ _ _ _ (by rfl)) 1 0

end Glaive.Cache
