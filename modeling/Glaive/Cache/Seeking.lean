/-
  Glaive.Cache.Seeking — calls of `seek` and `read_body` on one hit handler, in any order.

  A read answers with the range between the start of the last seek that was let and the
  end that the last seek with one gave, which a seek without an end leaves as it was. So a
  run of calls reads what its seeks ask for just if it is `Clean`: no seek that is read
  ends before it starts, and none that is read without an end comes after a shorter one
  (`seeks_lawful_iff`).
-/

import Glaive.Cache.Storage

namespace Glaive.Cache.CacheHitHandler

open Glaive.Lib

inductive Call where
  | seek (start : Nat) (end_ : Option Nat)
  | readBody
  deriving DecidableEq, Repr

def Call.run : Call → Async CacheHitHandler (Option Bytes)
  | .seek start end_ => do
    CacheHitHandler.seek start end_
    return none
  | .readBody => CacheHitHandler.readBody

/-- The handler after the calls. -/
def after (h : CacheHitHandler) (ops : List Call) : CacheHitHandler := ops.foldl (fun h op => (op.run h).2) h

/-- A seek that is not let, in a body of `len` bytes. -/
def Call.Refused (len : Nat) : Call → Prop
  | .seek start _ => len ≤ start
  | .readBody => False

/-- The end that a seek gives, when it is let. -/
def Call.givenEnd (len : Nat) : Call → Option Nat
  | .seek start end_ => if start < len then end_ else none
  | .readBody => none

/-- The end that the last seek with one gave; the whole body before there is one. -/
def lastEnd (len : Nat) (ops : List Call) : Nat := (ops.filterMap (Call.givenEnd len)).getLast?.getD len

/-! ## What one call does -/

theorem seek_refused (start : Nat) (end_ : Option Nat) {h : CacheHitHandler}
    (hs : h.cacheObject.body.length ≤ start) : ∃ text, seek start end_ h = (.err (.other text), h) := by
  unfold seek
  rw [Async.get_bind_apply]
  simp only [if_pos hs]
  exact ⟨_, rfl⟩

theorem seek_let (start : Nat) (end_ : Option Nat) {h : CacheHitHandler} (hs : start < h.cacheObject.body.length) :
    seek start end_ h = (.ok (), { h with
      rangeStart := start, rangeEnd := end_.elim h.rangeEnd (min h.cacheObject.body.length), done := false }) := by
  unfold seek
  rw [Async.get_bind_apply]
  simp only [if_neg (Nat.not_le.mpr hs)]
  cases end_ <;> rfl

theorem readBody_done {h : CacheHitHandler} (hd : h.done = true) : readBody h = (.ok none, h) := by
  unfold readBody
  rw [Async.get_bind_apply, if_pos hd]
  rfl

theorem readBody_slice {h : CacheHitHandler} (hd : h.done = false) {bytes : Bytes}
    (hs : slice h.rangeStart h.rangeEnd h.cacheObject.body = some bytes) :
    readBody h = (.ok (some bytes), { h with done := true }) := by
  unfold readBody
  rw [Async.get_bind_apply, if_neg (by simp [hd]), Async.modify_bind_apply, hs]
  rfl

theorem readBody_panics {h : CacheHitHandler} (hd : h.done = false)
    (hs : slice h.rangeStart h.rangeEnd h.cacheObject.body = none) :
    readBody h = (.panic "range start must not be greater than end", { h with done := true }) := by
  unfold readBody
  rw [Async.get_bind_apply, if_neg (by simp [hd]), Async.modify_bind_apply, hs]
  rfl

/-- However a read ends, it only marks the handler done. -/
theorem readBody_snd (h : CacheHitHandler) : (readBody h).2 = { h with done := true } := by
  cases hd : h.done with
  | true =>
    rw [readBody_done hd, ← hd]
  | false =>
    cases hs : slice h.rangeStart h.rangeEnd h.cacheObject.body with
    | some bytes => rw [readBody_slice hd hs]
    | none => rw [readBody_panics hd hs]

theorem run_seek (start : Nat) (end_ : Option Nat) (h : CacheHitHandler) :
    ((Call.seek start end_).run h).2 = (seek start end_ h).2 := by
  rcases Nat.lt_or_ge start h.cacheObject.body.length with hs | hs
  · simp only [Call.run]
    rw [Async.bind_ok (seek_let start end_ hs), seek_let start end_ hs]
    rfl
  · obtain ⟨text, he⟩ := seek_refused start end_ hs
    simp only [Call.run]
    rw [Async.bind_err he, he]

/-- A seek does not panic. -/
theorem run_seek_total (start : Nat) (end_ : Option Nat) (h : CacheHitHandler) (text : String) :
    ((Call.seek start end_).run h).1 ≠ .panic text := by
  simp only [Call.run]
  rcases Nat.lt_or_ge start h.cacheObject.body.length with hs | hs
  · rw [Async.bind_ok (seek_let start end_ hs)]
    exact fun he => by cases he
  · obtain ⟨_, he⟩ := seek_refused start end_ hs
    rw [Async.bind_err he]
    exact fun he => by cases he

/-! ## The handler after some calls -/

theorem after_append (h : CacheHitHandler) (pre post : List Call) :
    after h (pre ++ post) = after (after h pre) post := List.foldl_append ..

theorem after_concat (h : CacheHitHandler) (pre : List Call) (op : Call) :
    after h (pre ++ [op]) = (op.run (after h pre)).2 := by
  rw [after_append]
  rfl

/-- Seeks that are not let change nothing. -/
theorem after_refused {h : CacheHitHandler} {mid : List Call}
    (hmid : ∀ op ∈ mid, op.Refused h.cacheObject.body.length) : after h mid = h := by
  induction mid with
  | nil => rfl
  | cons op mid ih =>
    have hop := hmid op (List.mem_cons_self ..)
    have hcall : (op.run h).2 = h := by
      cases op with
      | seek start end_ =>
        obtain ⟨text, he⟩ := seek_refused start end_ hop
        rw [run_seek, he]
      | readBody => cases hop
    show after (op.run h).2 mid = h
    rw [hcall]
    exact ih fun op' h' => hmid op' (List.mem_cons_of_mem _ h')

theorem lastEnd_concat (len : Nat) (ops : List Call) (op : Call) :
    lastEnd len (ops ++ [op]) = (op.givenEnd len).getD (lastEnd len ops) := by
  unfold lastEnd
  rw [List.filterMap_append]
  cases hg : op.givenEnd len <;> simp [hg]

/-- What the calls leave of the object, and of the range's end. -/
theorem after_object (obj : SccCacheObject) (ops : List Call) :
    (after (new obj) ops).cacheObject = obj ∧
      (after (new obj) ops).rangeEnd = min obj.body.length (lastEnd obj.body.length ops) := by
  induction ops using List.reverseRecOn with
  | nil => exact ⟨rfl, (Nat.min_self _).symm⟩
  | append_singleton ops op ih =>
    rcases ih with ⟨hobj, hend⟩
    rw [after_concat, lastEnd_concat]
    cases op with
    | readBody =>
      show (readBody _).2.cacheObject = _ ∧ (readBody _).2.rangeEnd = _
      rw [readBody_snd]
      exact ⟨hobj, hend⟩
    | seek start end_ =>
      rw [run_seek]
      rcases Nat.lt_or_ge start obj.body.length with hs | hs
      · rw [seek_let start end_ (by rwa [hobj])]
        refine ⟨hobj, ?_⟩
        simp only [Call.givenEnd, if_pos hs, hobj]
        cases end_ with
        | none => exact hend
        | some end_ => rfl
      · obtain ⟨text, he⟩ := seek_refused start (h := after (new obj) ops) end_ (by rwa [hobj])
        rw [he]
        refine ⟨hobj, ?_⟩
        simp only [Call.givenEnd, if_neg (Nat.not_lt.mpr hs)]
        exact hend

/-- Between a seek that was let and the next read the handler is at the seek's start. -/
theorem after_let (obj : SccCacheObject) (pre : List Call) {start : Nat} (end_ : Option Nat) {mid : List Call}
    (hs : start < obj.body.length) (hmid : ∀ op ∈ mid, op.Refused obj.body.length) :
    (after (new obj) (pre ++ .seek start end_ :: mid)).rangeStart = start ∧
      (after (new obj) (pre ++ .seek start end_ :: mid)).done = false ∧
      after (new obj) (pre ++ .seek start end_ :: mid) = after (new obj) (pre ++ [.seek start end_]) := by
  have hobj := (after_object obj (pre ++ [.seek start end_])).1
  have heq : after (new obj) (pre ++ .seek start end_ :: mid) = after (new obj) (pre ++ [.seek start end_]) := by
    rw [show pre ++ .seek start end_ :: mid = (pre ++ [.seek start end_]) ++ mid by simp, after_append]
    apply after_refused
    rwa [hobj]
  have hseek := seek_let start (h := after (new obj) pre) end_ (by rwa [(after_object obj pre).1])
  rw [heq, after_concat, run_seek, hseek]
  exact ⟨rfl, rfl, rfl⟩

/-- A handler that has something to read has not been sought yet, or was let seek after
    its last read. -/
theorem unread_cases (obj : SccCacheObject) (ops : List Call) (hd : (after (new obj) ops).done = false) :
    (∀ op ∈ ops, op.Refused obj.body.length) ∨ ∃ pre start end_ mid, ops = pre ++ .seek start end_ :: mid ∧
      start < obj.body.length ∧ ∀ op ∈ mid, op.Refused obj.body.length := by
  induction ops using List.reverseRecOn with
  | nil => exact .inl fun op hop => by cases hop
  | append_singleton ops op ih =>
    rw [after_concat] at hd
    cases op with
    | readBody =>
      have hread : (readBody (after (new obj) ops)).2.done = false := hd
      rw [readBody_snd] at hread
      cases hread
    | seek start end_ =>
      rcases Nat.lt_or_ge start obj.body.length with hs | hs
      · exact .inr ⟨ops, start, end_, [], rfl, hs, fun op hop => by cases hop⟩
      · obtain ⟨text, he⟩ := seek_refused start (h := after (new obj) ops) end_ (by rwa [(after_object obj ops).1])
        rw [run_seek, he] at hd
        rcases ih hd with hall | ⟨pre, start', end', mid, rfl, hs', hmid⟩
        · refine .inl fun op hop => ?_
          rcases List.mem_append.mp hop with hop | hop
          · exact hall op hop
          · cases List.mem_singleton.mp hop
            exact hs
        · refine .inr ⟨pre, start', end', mid ++ [.seek start end_], by simp, hs', fun op hop => ?_⟩
          rcases List.mem_append.mp hop with hop | hop
          · exact hmid op hop
          · cases List.mem_singleton.mp hop
            exact hs

/-! ## The read after a seek -/

/-- What a seek of a body asks for. -/
def asked (body : Bytes) (start : Nat) (end_ : Option Nat) : Bytes :=
  (body.take (min (end_.getD body.length) body.length)).drop start

/-- The range that the read after a seek takes, and what it makes of it. -/
theorem read_let (obj : SccCacheObject) (pre : List Call) {start : Nat} (end_ : Option Nat) {mid : List Call}
    (hs : start < obj.body.length) (hmid : ∀ op ∈ mid, op.Refused obj.body.length) :
    let stop := min obj.body.length (end_.getD (lastEnd obj.body.length pre))
    (readBody (after (new obj) (pre ++ .seek start end_ :: mid))).1 =
      if start ≤ stop then .ok (some ((obj.body.take stop).drop start))
      else .panic "range start must not be greater than end" := by
  intro stop
  obtain ⟨hstart, hd, hafter⟩ := after_let obj pre end_ hs hmid
  obtain ⟨hobj, hend⟩ := after_object obj (pre ++ [.seek start end_])
  have hstop : (after (new obj) (pre ++ .seek start end_ :: mid)).rangeEnd = stop := by
    rw [hafter, hend, lastEnd_concat]
    simp only [Call.givenEnd, if_pos hs]
    rfl
  have hobj' : (after (new obj) (pre ++ .seek start end_ :: mid)).cacheObject = obj := by rw [hafter, hobj]
  by_cases hle : start ≤ stop
  · have hslice := slice_of_le hle (Nat.min_le_left obj.body.length _ : stop ≤ _)
    rw [if_pos hle, readBody_slice hd (by rwa [hstart, hstop, hobj'])]
  · have hslice : slice start stop obj.body = none := if_neg fun h => hle h.1
    rw [if_neg hle, readBody_panics hd (by rwa [hstart, hstop, hobj'])]

theorem read_let_iff (obj : SccCacheObject) (pre : List Call) {start : Nat} (end_ : Option Nat) {mid : List Call}
    (hs : start < obj.body.length) (hmid : ∀ op ∈ mid, op.Refused obj.body.length) :
    (readBody (after (new obj) (pre ++ .seek start end_ :: mid))).1 = .ok (some (asked obj.body start end_)) ↔
      match end_ with
      | some end_ => start ≤ end_
      | none => obj.body.length ≤ lastEnd obj.body.length pre := by
  rw [read_let obj pre end_ hs hmid]
  cases end_ with
  | some end_ =>
    constructor
    · intro h
      by_contra hlt
      rw [if_neg (by simp only [Option.getD_some]; omega)] at h
      cases h
    · intro hle
      rw [if_pos (by simp only [Option.getD_some]; omega), Nat.min_comm]
      rfl
  | none =>
    constructor
    · intro h
      by_contra hlt
      simp only [Option.getD_none] at h
      split at h
      · -- the range is shorter than what is asked for
        have hlen := congrArg List.length (Option.some.inj (Out.ok.inj h))
        simp only [asked, Option.getD_none, List.length_drop, List.length_take] at hlen
        omega
      · cases h
    · intro hle
      have hstop : min obj.body.length (lastEnd obj.body.length pre) = obj.body.length := Nat.min_eq_left hle
      simp only [Option.getD_none, hstop]
      rw [if_pos (Nat.le_of_lt hs)]
      unfold asked
      rw [Option.getD_none, Nat.min_self]

/-! ## The law of seeks -/

/-- No call panics, the first read after a seek that returned `Ok` answers with the bytes
    it asks for, and a seek that returns `Err` changes nothing. -/
structure SeeksLawful (obj : SccCacheObject) (ops : List Call) : Prop where
  noPanic : ∀ pre op post text, ops = pre ++ op :: post → (op.run (after (new obj) pre)).1 ≠ .panic text
  reads : ∀ pre start end_ mid post, ops = pre ++ .seek start end_ :: mid ++ .readBody :: post →
    (seek start end_ (after (new obj) pre)).1 = .ok () → .readBody ∉ mid →
    (∀ before start' end' rest, mid = before ++ .seek start' end' :: rest →
      (seek start' end' (after (new obj) (pre ++ .seek start end_ :: before))).1 ≠ .ok ()) →
    (readBody (after (new obj) (pre ++ .seek start end_ :: mid))).1 = .ok (some (asked obj.body start end_))
  refused : ∀ pre start end_ post e, ops = pre ++ .seek start end_ :: post →
    (seek start end_ (after (new obj) pre)).1 = .err e →
    (seek start end_ (after (new obj) pre)).2 = after (new obj) pre

/-- No seek that is let and then read ends before it starts, or has no end and comes
    after one that ended inside the body. -/
def Clean (len : Nat) (ops : List Call) : Prop :=
  ∀ pre start end_ mid post, ops = pre ++ .seek start end_ :: mid ++ .readBody :: post → start < len →
    (∀ op ∈ mid, op.Refused len) →
    match end_ with
    | some end_ => start ≤ end_
    | none => len ≤ lastEnd len pre

theorem seek_ok_iff (obj : SccCacheObject) (pre : List Call) (start : Nat) (end_ : Option Nat) :
    (seek start end_ (after (new obj) pre)).1 = .ok () ↔ start < obj.body.length := by
  have hobj := (after_object obj pre).1
  rcases Nat.lt_or_ge start obj.body.length with hs | hs
  · rw [seek_let start (h := after (new obj) pre) end_ (by rwa [hobj])]
    exact ⟨fun _ => hs, fun _ => rfl⟩
  · obtain ⟨text, he⟩ := seek_refused start (h := after (new obj) pre) end_ (by rwa [hobj])
    rw [he]
    constructor
    · intro h
      cases h
    · intro h
      exact absurd h (Nat.not_lt.mpr hs)

/-- The calls of a stretch are seeks that are not let just if none of them reads and none
    returns `Ok`. -/
theorem refused_iff (obj : SccCacheObject) (pre mid : List Call) : (∀ op ∈ mid, op.Refused obj.body.length) ↔
    .readBody ∉ mid ∧ ∀ before start end_ rest, mid = before ++ .seek start end_ :: rest →
      (seek start end_ (after (new obj) (pre ++ before))).1 ≠ .ok () := by
  constructor
  · intro h
    refine ⟨fun hread => h _ hread, fun before start end_ rest hmid hok => ?_⟩
    have hge : obj.body.length ≤ start := h (.seek start end_) (by simp [hmid])
    exact absurd ((seek_ok_iff obj _ start end_).mp hok) (Nat.not_lt.mpr hge)
  · intro h op hop
    rcases h with ⟨hread, hseeks⟩
    cases op with
    | readBody => exact absurd hop hread
    | seek start end_ =>
      obtain ⟨before, rest, hmid⟩ := List.append_of_mem hop
      apply Nat.not_lt.mp
      intro hs
      exact hseeks before start end_ rest hmid ((seek_ok_iff obj _ start end_).mpr hs)

/-- Any calls on a hit handler are lawful just if they are clean. -/
theorem seeks_lawful_iff (obj : SccCacheObject) (ops : List Call) :
    SeeksLawful obj ops ↔ Clean obj.body.length ops := by
  constructor
  · intro h pre start end_ mid post hops hs hmid
    obtain ⟨hread, hseeks⟩ := (refused_iff obj (pre ++ [.seek start end_]) mid).mp hmid
    apply (read_let_iff obj pre end_ hs hmid).mp
    apply h.reads pre start end_ mid post hops ((seek_ok_iff obj pre start end_).mpr hs) hread
    intro before start' end' rest hmid'
    simpa using hseeks before start' end' rest hmid'
  · intro h
    constructor
    · intro pre op post text hops
      cases op with
      | seek start end_ => exact run_seek_total start end_ _ text
      | readBody =>
        show (readBody (after (new obj) pre)).1 ≠ .panic text
        cases hd : (after (new obj) pre).done with
        | true =>
          rw [readBody_done hd]
          exact fun he => by cases he
        | false =>
          rcases unread_cases obj pre hd with hall | ⟨pre, start, end_, mid, rfl, hs, hmid⟩
          · rw [after_refused (h := new obj) hall, readBody_new]
            exact fun he => by cases he
          · rw [(read_let_iff obj pre end_ hs hmid).mpr (h pre start end_ mid post hops hs hmid)]
            exact fun he => by cases he
    · intro pre start end_ mid post hops hok hread hseeks
      have hs := (seek_ok_iff obj pre start end_).mp hok
      have hmid : ∀ op ∈ mid, op.Refused obj.body.length := by
        apply (refused_iff obj (pre ++ [.seek start end_]) mid).mpr
        refine ⟨hread, fun before start' end' rest hmid => ?_⟩
        simpa using hseeks before start' end' rest hmid
      exact (read_let_iff obj pre end_ hs hmid).mpr (h pre start end_ mid post hops hs hmid)
    · intro pre start end_ post e _ he
      rcases Nat.lt_or_ge start (after (new obj) pre).cacheObject.body.length with hs | hs
      · rw [seek_let start end_ hs] at he
        cases he
      · obtain ⟨text, hseek⟩ := seek_refused start end_ hs
        rw [hseek]

/-- A seek without an end after one to the first byte reads one byte of three, and one
    that ends before it starts panics. -/
theorem seeks_not_lawful : ¬ SeeksLawful ⟨([], []), [1, 2, 3]⟩ [.seek 0 (some 1), .seek 0 none, .readBody] ∧
    ¬ SeeksLawful ⟨([], []), [1, 2, 3]⟩ [.seek 2 (some 1), .readBody] := by
  constructor
  · intro h
    have hread := h.reads [.seek 0 (some 1)] 0 none [] [] rfl rfl (List.not_mem_nil) (by simp)
    exact absurd hread (by decide)
  · intro h
    exact h.noPanic [.seek 2 (some 1)] .readBody [] _ rfl rfl

end Glaive.Cache.CacheHitHandler
