/-
  Glaive.Session.BufferReuse — one body reader over several messages, as a session sets
  it for each of them (`core/src/session/reader.rs`: `re_start`, `set_buffer`, the
  `with_*` calls; `downstream.rs`: `set_request_body_reader`).

  `rewind_buf_size` is written where preread bytes are put into a new buffer and where
  a read takes it, and nowhere else: `re_start` and a content length of 0 leave it. So a
  message whose preread bytes were never read leaves their number behind, and the next
  mode set without preread bytes hands out as many bytes of its fresh buffer, which no
  one wrote (`stale_memory_handed_out`). `given_sublist`: where each mode set without
  preread bytes finds the size 0, every byte handed out is one of the message's.
-/

import Glaive.Session.DownstreamProofs
import Glaive.Session.PlainReading

namespace Glaive.Session

open Glaive.Lib
open Glaive.Lib.Chunked (ChunkStatus Decoder Pull Local)

namespace BodyReader

variable {parseChunkSize : Bytes → ChunkStatus}

/-! ## What a reader holds -/

/-- The bytes of its message that a reader has and has not handed out. -/
inductive Holding (r : BodyReader) : Bytes → Prop
  | idle : (r.isFinished || r.isStart) = true → Holding r []
  | partially {buf p : Bytes} {read toRead : Nat} : r.readState = .partially read toRead → r.bodyBuffer = some buf →
      r.rewindBufSize = p.length → slice 0 p.length buf = some p → Holding r p
  | untilClosed {buf p : Bytes} {read : Nat} : r.readState = .http10 read → r.bodyBuffer = some buf →
      r.rewindBufSize = p.length → slice 0 p.length buf = some p → Holding r p
  | chunked {read : Nat} {buf : Bytes} {d : Decoder} : Between r read buf d → Holding r d.held

/-- What a call comes to: a panic; or a slice, which with what is held then is what was
    held and what the call read; or no slice, and no more is held than before. -/
inductive Outcome (held : Bytes) (s : Stream) : Out (Option Offset) × BodyReader × Stream → Prop
  | panics {t : String} {x : BodyReader × Stream} : Outcome held s (.panic t, x)
  | gives {o : Offset} {r : BodyReader} {s' : Stream} {x bs held' : Bytes} : r.getSlicedBody o = .ok x →
      Holding r held' → s.bytes = bs ++ s'.bytes → (x ++ held').Sublist (held ++ bs) →
      Outcome held s (.ok (some o), r, s')
  | keeps {o : Out (Option Offset)} {r : BodyReader} {s' : Stream} {held' : Bytes} : (∀ off, o ≠ .ok (some off)) →
      Holding r held' → held'.Sublist held → Outcome held s (o, r, s')

theorem Outcome.ends {held : Bytes} {s s' : Stream} {o : Out (Option Offset)} {r : BodyReader}
    (ho : ∀ off, o ≠ .ok (some off)) (hr : r.isFinished = true) : Outcome held s (o, r, s') :=
  .keeps ho (.idle (by rw [hr]; rfl)) (List.nil_sublist held)

/-- The socket has nothing for a call: it is dropped at its read, or the read fails. -/
def Silent (s : Stream) : Prop := s.input = [] ∨ ∃ e rest, s.input = .error e :: rest

/-! ## A call that reads bytes as they come -/

/-- A fill makes the preread bytes and those it reads stand at the front, or stops at a
    silent socket. -/
theorem fill_cases {r : BodyReader} {buf p : Bytes} (hb : r.bodyBuffer = some buf) (hrw : r.rewindBufSize = p.length)
    (hs : slice 0 p.length buf = some p) (s : Stream) :
    (∃ bs buf1 s1, r.fill s = (.ok (p ++ bs).length, { r with rewindBufSize := 0, bodyBuffer := some buf1 }, s1) ∧
      s.bytes = bs ++ s1.bytes ∧ slice 0 (p ++ bs).length buf1 = some (p ++ bs)) ∨
    ∃ s1, p = [] ∧ (r.fill s = (.pending, r, s1) ∨ ∃ e, r.fill s = (.err e, r, s1)) := by
  by_cases hp : p = []
  · subst hp
    obtain ⟨hpending, herr⟩ := fill_cut hb hrw
    rcases hread : s.read buf.length with ⟨o, s1⟩
    cases o with
    | ok bs =>
      obtain ⟨hbytes, hle, -⟩ := Stream.read_ok hread
      exact .inl ⟨bs, _, s1, fill_read hb hrw hread, hbytes, slice_overwrite_zero hle⟩
    | err e => exact .inr ⟨s1, rfl, .inr ⟨e, herr s e s1 hread⟩⟩
    | pending => exact .inr ⟨s1, rfl, .inl (hpending s s1 hread)⟩
    | panic t => exact absurd hread (Stream.read_ne_panic _ _ _ _)
  · have hpos := List.length_pos_of_ne_nil hp
    refine .inl ⟨[], buf, s, ?_, rfl, ?_⟩
    · rw [fill_rewind hb (by omega), List.append_nil, hrw, ← hb]
    · rw [List.append_nil]
      exact hs

theorem partially_outcome {r : BodyReader} {buf p : Bytes} {read toRead : Nat} (hst : r.readState = .partially read toRead)
    (hb : r.bodyBuffer = some buf) (hrw : r.rewindBufSize = p.length) (hs : slice 0 p.length buf = some p)
    (s : Stream) : Outcome p s (r.readPartially s) := by
  unfold readPartially
  rcases fill_cases hb hrw hs s with ⟨bs, buf1, s1, hf, hbytes, hfront⟩ | ⟨s1, rfl, hf | ⟨e, hf⟩⟩
  · rw [hf]
    have hst1 : { r with rewindBufSize := 0, bodyBuffer := some buf1 }.readState = .partially read toRead := hst
    by_cases h0 : (p ++ bs).length = 0
    · simp only [h0, takePartially_zero hst1]
      exact .ends (by simp) rfl
    by_cases hfull : toRead ≤ (p ++ bs).length
    · by_cases hfits : read + toRead < usizeEnd
      · simp only [takePartially_full hst1 h0 hfull hfits]
        refine .gives (getSlicedBody_of_get rfl (slice_zero_take hfront hfull)) (.idle rfl) hbytes ?_
        rw [List.append_nil]
        exact List.take_sublist _ _
      · simp only [takePartially, hst, if_neg h0, if_pos hfull, show uadd read toRead = none from if_neg hfits,
          Option.bind_eq_bind, Option.bind_none, give]
        exact .panics
    · by_cases hfits : read + (p ++ bs).length < usizeEnd
      · simp only [takePartially_some hst1 h0 hfull hfits]
        refine .gives (getSlicedBody_of_get rfl hfront)
          (.partially (p := []) rfl rfl rfl (slice_zero (Nat.zero_le _))) hbytes ?_
        rw [List.append_nil]
      · simp only [takePartially, hst, if_neg h0, if_neg hfull, show uadd read (p ++ bs).length = none from if_neg hfits,
          Option.bind_eq_bind, Option.bind_none, give]
        exact .panics
  · rw [hf]
    exact .keeps (by simp) (.partially hst hb hrw hs) (List.Sublist.refl _)
  · rw [hf]
    exact .keeps (by simp) (.partially hst hb hrw hs) (List.Sublist.refl _)

theorem untilClosed_outcome {r : BodyReader} {buf p : Bytes} {read : Nat} (hst : r.readState = .http10 read)
    (hb : r.bodyBuffer = some buf) (hrw : r.rewindBufSize = p.length) (hs : slice 0 p.length buf = some p)
    (s : Stream) : Outcome p s (r.readUntilClosed s) := by
  unfold readUntilClosed
  rcases fill_cases hb hrw hs s with ⟨bs, buf1, s1, hf, hbytes, hfront⟩ | ⟨s1, rfl, hf | ⟨e, hf⟩⟩
  · rw [hf]
    have hst1 : { r with rewindBufSize := 0, bodyBuffer := some buf1 }.readState = .http10 read := hst
    by_cases h0 : (p ++ bs).length = 0
    · simp only [h0, takeUntilClosed_zero hst1]
      exact .ends (by simp) rfl
    by_cases hfits : read + (p ++ bs).length < usizeEnd
    · simp only [takeUntilClosed_some hst1 h0 hfits]
      refine .gives (getSlicedBody_of_get rfl hfront)
        (.untilClosed (p := []) rfl rfl rfl (slice_zero (Nat.zero_le _))) hbytes ?_
      rw [List.append_nil]
    · simp only [takeUntilClosed, hst, if_neg h0, show uadd read (p ++ bs).length = none from if_neg hfits,
        Option.bind_eq_bind, Option.bind_none, give]
      exact .panics
  · rw [hf]
    exact .keeps (by simp) (.untilClosed hst hb hrw hs) (List.Sublist.refl _)
  · rw [hf]
    exact .keeps (by simp) (.untilClosed hst hb hrw hs) (List.Sublist.refl _)

/-! ## A call in chunked mode -/

theorem pull_sublist {held bs x : Bytes} {d d' : Decoder} (hd : d.held = held)
    (h : d.pull parseChunkSize partialChunkHeadLimit bs = (.slice x, d')) : (x ++ d'.held).Sublist (held ++ bs) := by
  subst hd
  have settle : ∀ (n : Nat) (avail x : Bytes), x.Sublist (avail.take n) →
      (x ++ (Chunked.settle n avail).held).Sublist avail := by
    intro n avail x hx
    unfold Chunked.settle
    by_cases hlt : avail.length < n
    · rw [if_pos hlt]
      show (x ++ []).Sublist avail
      rw [List.append_nil]
      exact hx.trans (List.take_sublist _ _)
    · rw [if_neg hlt]
      have := hx.append (List.Sublist.refl (avail.drop n))
      rwa [List.take_append_drop] at this
  have line : ∀ avail : Bytes, Chunked.takeLine parseChunkSize partialChunkHeadLimit avail = (.slice x, d') →
      (x ++ d'.held).Sublist avail := by
    intro avail hl
    unfold Chunked.takeLine at hl
    split at hl
    · rename_i index size hp
      split at hl
      · cases hl
      · cases hl
        refine settle _ _ _ ?_
        rw [List.take_drop]
        refine (List.drop_sublist _ _).trans ?_
        exact List.take_sublist_take_left (by omega)
    · split at hl
      · cases hl
      · cases hl
        exact List.Sublist.refl _
    · cases hl
  cases d with
  | ready held => exact line _ h
  | stalled head => exact line _ h
  | owing n =>
    cases h
    exact settle _ _ _ (List.take_sublist_take_left (Nat.sub_le _ _))
  | finished => cases h
  | failed => cases h

/-- The rest of a call fails only for good. -/
theorem takeChunked_err {r r' : BodyReader} {read a b c start stop expecting : Nat} {e : IoError}
    (hst : r.readState = .chunked read a b c)
    (h : r.takeChunked parseChunkSize start stop expecting = (.err e, r')) : r'.isFinished = true := by
  have hgive : ∀ x, r.give x ≠ (.err e, r') := by
    intro x
    cases x with
    | none => simp [give, overflow]
    | some x => simp [give]
  have henter : ∀ (e' : IoError) (n : Nat),
      r.enter (r.readState.finishDone n) (Out.err e' : Out (Option Offset)) = (.err e, r') → r'.isFinished = true := by
    intro e' n he
    simp only [hst, ReadState.finishDone] at he
    cases hu : uadd read n with
    | none =>
      rw [hu] at he
      cases he
    | some total =>
      rw [hu] at he
      cases he
      rfl
  unfold takeChunked at h
  split at h
  · exact henter _ _ h
  · split at h
    · split at h
      · cases h
      · split at h
        · exact absurd h (hgive _)
        · dsimp only at h
          split at h <;> exact absurd h (hgive _)
    · unfold parseChunkedBuf at h
      split at h
      · cases h
      · split at h
        · split at h
          · rw [hst] at h
            simp only [ReadState.finish] at h
            cases hu : uadd read 0 with
            | none => rw [hu] at h; cases h
            | some total => rw [hu] at h; cases h
          · exact absurd h (hgive _)
        · split at h
          · exact henter _ _ h
          · exact absurd h (hgive _)
        · exact henter _ _ h

theorem fed_outcome (hl : Local parseChunkSize) {r : BodyReader} {buf bs : Bytes} {read : Nat} {d : Decoder}
    {s s' : Stream} (h : Between r read buf d) (hio : Feeds buf.length d bs s s') :
    Outcome d.held s (r.readChunked parseChunkSize s) := by
  obtain ⟨r1, buf1, start, stop, hfed⟩ := readChunked_fed parseChunkSize h.buffer h.holds h.length hio
  obtain ⟨expecting, hcall, -⟩ := hfed.call
  obtain ⟨s0, hst⟩ := hfed.state
  rcases htake : r1.takeChunked parseChunkSize start stop expecting with ⟨o, r'⟩
  rw [htake] at hcall
  cases o with
  | panic t =>
    rw [hcall]
    exact .panics
  | pending => exact absurd (by rw [htake]) (takeChunked_ne_pending start stop expecting)
  | err e =>
    rw [hcall]
    exact .ends (by simp) (takeChunked_err hst htake)
  | ok o =>
    obtain ⟨bs', buf', hio', hlen, -, hg, hread⟩ := readChunked_ok hl h.buffer h.holds h.length h.read hcall
    rw [hcall]
    generalize hpull : d.pull parseChunkSize partialChunkHeadLimit bs' = p at hg
    cases hg with
    | slice hget hb hh =>
      have hlength := h.length
      exact .gives (getSlicedBody_of_get hb hget) (.chunked ⟨hb, hh, by omega, hread _ _ hpull⟩) hio'.bytes
        (pull_sublist rfl hpull)
    | done hst => exact .ends (by simp) (isFinished_of_completed hst)

theorem chunked_outcome (hl : Local parseChunkSize) {r : BodyReader} {buf : Bytes} {read : Nat} {d : Decoder}
    {s : Stream} (h : Between r read buf d) (hsteady : Silent s → r.Steady) :
    Outcome d.held s (r.readChunked parseChunkSize s) := by
  by_cases hrd : d.reads = true
  · rcases hread : s.read (buf.length - d.held.length) with ⟨o, s'⟩
    have cut : Silent s → Outcome d.held s (r.readChunked parseChunkSize s) := by
      intro hs
      obtain ⟨buf', hm⟩ := (hsteady hs).between_moved h
      rcases h.readChunked_cut parseChunkSize with ⟨hno, -⟩ | ⟨cap, hpending, herr⟩
      · rw [hno] at hrd
        cases hrd
      · rcases hs with hs | ⟨e, rest, hs⟩
        · rw [hpending s s (by simp only [Stream.read, hs])]
          exact .keeps (by simp) (.chunked hm) (List.Sublist.refl _)
        · rw [herr s e { s with input := rest } (by simp only [Stream.read, hs])]
          exact .keeps (by simp) (.chunked hm) (List.Sublist.refl _)
    cases o with
    | ok bs =>
      by_cases hheld : d.held ++ bs = []
      · obtain ⟨hnone, rfl⟩ := List.append_eq_nil_iff.mp hheld
        rw [hnone] at hread
        obtain ⟨r', hcall, hdone⟩ := h.readChunked_end parseChunkSize hrd hnone hread
        rw [hcall]
        exact .ends (by simp) (isFinished_of_done hdone)
      · have hio : Feeds buf.length d bs s s' := by
          rw [Feeds, if_pos hrd]
          exact ⟨hread, hheld⟩
        exact fed_outcome hl h hio
    | err e =>
      refine cut (.inr ?_)
      unfold Stream.read at hread
      split at hread
      · cases hread
      · rename_i e' rest hi
        exact ⟨e', rest, hi⟩
      · split at hread <;> cases hread
    | pending => exact cut (.inl (read_pending hread).1)
    | panic t => exact absurd hread (Stream.read_ne_panic _ _ _ _)
  · have hio : Feeds buf.length d [] s s := by
      rw [Feeds, if_neg hrd]
      exact ⟨rfl, rfl⟩
    exact fed_outcome hl h hio

/-- Any call, of a reader that keeps its partial size line where the socket is silent. -/
theorem Holding.call (hl : Local parseChunkSize) {r : BodyReader} {held : Bytes} {s : Stream} (h : Holding r held)
    (hsteady : Silent s → r.Steady) : Outcome held s (readBody parseChunkSize (r, s)) := by
  cases h with
  | idle hr =>
    cases hfin : r.isFinished with
    | true =>
      rw [readBody_finished parseChunkSize hfin]
      exact .ends (by simp) hfin
    | false =>
      rw [hfin, Bool.false_or, isStart, beq_iff_eq] at hr
      simp only [readBody, hr]
      exact .panics
  | partially hst hb hrw hs =>
    have hcall : readBody parseChunkSize (r, s) = r.readPartially s := by simp only [readBody, hst]
    rw [hcall]
    exact partially_outcome hst hb hrw hs s
  | untilClosed hst hb hrw hs =>
    have hcall : readBody parseChunkSize (r, s) = r.readUntilClosed s := by simp only [readBody, hst]
    rw [hcall]
    exact untilClosed_outcome hst hb hrw hs s
  | chunked h =>
    rw [h.holds.readBody_eq]
    exact chunked_outcome hl h hsteady

/-! ## What no call changes -/

theorem give_bodySize (r : BodyReader) (x : Option (ReadState × Offset)) : (r.give x).2.bodySize = r.bodySize := by
  cases x <;> rfl

theorem enter_bodySize {α : Type} (r : BodyReader) (st : Option ReadState) (o : Out α) :
    (r.enter st o).2.bodySize = r.bodySize := by
  cases st <;> rfl

theorem fill_bodySize (r : BodyReader) (s : Stream) : (r.fill s).2.1.bodySize = r.bodySize := by
  unfold fill
  split
  · rfl
  · dsimp only
    split
    · split <;> rfl
    · rfl

theorem takePartially_bodySize (r : BodyReader) (n : Nat) : (r.takePartially n).2.bodySize = r.bodySize := by
  unfold takePartially
  split
  · split
    · rfl
    · split <;> exact give_bodySize _ _
  · rfl

theorem takeUntilClosed_bodySize (r : BodyReader) (n : Nat) : (r.takeUntilClosed n).2.bodySize = r.bodySize := by
  unfold takeUntilClosed
  split
  · split
    · rfl
    · exact give_bodySize _ _
  · rfl

theorem takeChunked_bodySize (r : BodyReader) (start stop expecting : Nat) :
    (r.takeChunked parseChunkSize start stop expecting).2.bodySize = r.bodySize := by
  unfold takeChunked parseChunkedBuf
  split
  · exact enter_bodySize _ _ _
  · split
    · split
      · rfl
      · split
        · exact give_bodySize _ _
        · dsimp only
          split <;> exact give_bodySize _ _
    · split
      · rfl
      · split
        · split
          · exact enter_bodySize _ _ _
          · exact give_bodySize _ _
        · split
          · exact enter_bodySize _ _ _
          · exact give_bodySize _ _
        · exact enter_bodySize _ _ _

theorem fillChunked_bodySize (r : BodyReader) (stop expecting : Nat) (s : Stream) :
    (r.fillChunked stop expecting s).2.1.bodySize = r.bodySize := by
  have hf := fill_bodySize r s
  unfold fillChunked
  split
  · split <;> rename_i heq <;> rw [heq] at hf <;> exact hf
  · split
    · rfl
    · split
      · rfl
      · dsimp only
        split
        · split <;> rfl
        all_goals rfl

theorem readBody_bodySize (parseChunkSize : Bytes → ChunkStatus) (r : BodyReader) (s : Stream) : (readBody parseChunkSize (r, s)).2.1.bodySize = r.bodySize := by
  have hf := fill_bodySize r s
  unfold readBody
  dsimp only
  split
  · rfl
  · rfl
  · unfold readPartially
    split <;> rename_i heq <;> rw [heq] at hf
    · exact (takePartially_bodySize _ _).trans hf
    all_goals exact hf
  · unfold readChunked
    split
    · split
      · rename_i stop expecting _ _
        have hc := fillChunked_bodySize r stop expecting s
        split <;> rename_i heq <;> rw [heq] at hc
        · exact (takeChunked_bodySize _ _ _ _).trans hc
        all_goals exact hc
      · exact takeChunked_bodySize _ _ _ _
    · rfl
  · unfold readUntilClosed
    split <;> rename_i heq <;> rw [heq] at hf
    · exact (takeUntilClosed_bodySize _ _).trans hf
    all_goals exact hf
  · rfl

/-! ## Messages over one reader -/

/-- The preread bytes of a head: part of a buffer. -/
abbrev Preread := {bs : Bytes // bs.length < sliceEnd}

def noPreread : Preread := ⟨[], by decide⟩

/-- What a session asks of its body reader. -/
inductive Op where
  | reStart
  | chunked (preread : Preread)
  | contentLength (length : Nat) (preread : Preread)
  | untilClosed (preread : Preread)
  /-- A call, with what the socket has for it. -/
  | readBody (socket : Stream)

/-- A reader, and what has come and gone since its mode was last set. -/
structure Trace where
  reader : BodyReader
  preread : Bytes
  /-- Read from the socket. -/
  arrived : Bytes
  /-- Returned by `read_body`. -/
  given : Bytes

def Trace.start (mem : Nat → Byte) : Trace := ⟨new mem, [], [], []⟩

/-- The bytes a call read. -/
def taken (s s' : Stream) : Bytes := s.bytes.take (s.bytes.length - s'.bytes.length)

/-- `none` when the operation panics. -/
def Op.apply (parseChunkSize : Bytes → ChunkStatus) (x : Trace) : Op → Option Trace
  | .reStart => some { x with reader := x.reader.reStart }
  | .chunked p => some ⟨x.reader.withChunkedRead p.val, p.val, [], []⟩
  | .contentLength length p => some ⟨x.reader.withContentLengthRead length p.val, p.val, [], []⟩
  | .untilClosed p => some ⟨x.reader.withUntilClosedRead p.val, p.val, [], []⟩
  | .readBody s =>
    match BodyReader.readBody parseChunkSize (x.reader, s) with
    | (.ok (some o), r, s') =>
      match r.getSlicedBody o with
      | .ok bs => some { x with reader := r, arrived := x.arrived ++ taken s s', given := x.given ++ bs }
      | _ => none
    | (.panic _, _, _) => none
    | (_, r, s') => some { x with reader := r, arrived := x.arrived ++ taken s s' }

/-- A mode set without preread bytes finds none left to rewind; a call that gets nothing
    from its socket finds no partial size line that loses its place. -/
def Op.Clean (r : BodyReader) : Op → Prop
  | .reStart => True
  | .chunked p => p.val = [] → r.rewindBufSize = 0
  | .contentLength length p => length ≠ 0 → p.val = [] → r.rewindBufSize = 0
  | .untilClosed p => p.val = [] → r.rewindBufSize = 0
  | .readBody s => Silent s → r.Steady

/-- The states of the runs whose every operation is clean. -/
inductive CleanRun (parseChunkSize : Bytes → ChunkStatus) : Trace → Prop
  | start (mem : Nat → Byte) : CleanRun parseChunkSize (.start mem)
  | step {x y : Trace} {op : Op} : CleanRun parseChunkSize x → op.Clean x.reader → op.apply parseChunkSize x = some y →
      CleanRun parseChunkSize y

/-- What has been handed out, and what is held, is of the message, in order. -/
structure Sourced (x : Trace) : Prop where
  size : x.reader.bodySize = bodyBufferSize
  held : ∃ held, Holding x.reader held ∧ (x.given ++ held).Sublist (x.preread ++ x.arrived)

theorem sourced_set {r : BodyReader} (hsize : r.bodySize = bodyBufferSize) {p : Bytes} (h : Holding r p) :
    Sourced ⟨r, p, [], []⟩ := by
  refine ⟨hsize, p, h, ?_⟩
  rw [List.nil_append, List.append_nil]

theorem holding_chunked {r : BodyReader} (hsize : r.bodySize = bodyBufferSize) (p : Preread)
    (hrw : p.val = [] → r.rewindBufSize = 0) : Holding (r.withChunkedRead p.val) p.val := by
  obtain ⟨buf, hb, hlen, hrw', hs⟩ := setBuffer_holds (r := { r with readState := .chunked 0 0 0 0 }) hrw
  refine .chunked ⟨hb, .fresh rfl hrw' hs, ?_, by decide⟩
  have hp := p.property
  rw [show BodyReader.bodySize { r with readState := .chunked 0 0 0 0 } = bodyBufferSize from hsize] at hlen
  unfold sliceEnd at hp
  rw [hlen]
  unfold bodyBufferSize usizeEnd
  omega

theorem taken_eq {s s' : Stream} {bs : Bytes} (h : s.bytes = bs ++ s'.bytes) : taken s s' = bs := by
  unfold taken
  rw [h, List.length_append, Nat.add_sub_cancel, List.take_left]

/-- One operation. -/
theorem Sourced.step (hl : Local parseChunkSize) {x y : Trace} (h : Sourced x) {op : Op} (hc : op.Clean x.reader)
    (he : op.apply parseChunkSize x = some y) : Sourced y := by
  obtain ⟨hsize, held, hh, hsub⟩ := h
  cases op with
  | reStart =>
    cases he
    refine ⟨hsize, [], .idle ?_, ?_⟩
    · show (_ || (BodyReader.reStart x.reader).isStart) = true
      rw [show (BodyReader.reStart x.reader).isStart = true from rfl, Bool.or_true]
    · rw [List.append_nil]
      exact (List.sublist_append_left x.given held).trans hsub
  | chunked p =>
    cases he
    exact sourced_set (r := x.reader.withChunkedRead p.val) hsize (holding_chunked hsize p hc)
  | contentLength length p =>
    cases he
    cases length with
    | zero => exact ⟨hsize, [], .idle rfl, List.nil_sublist _⟩
    | succ n =>
      obtain ⟨buf, hb, -, hrw, hs⟩ := setBuffer_holds (hc (Nat.succ_ne_zero n))
      exact sourced_set (r := x.reader.withContentLengthRead (n + 1) p.val) hsize (.partially rfl hb hrw hs)
  | untilClosed p =>
    cases he
    obtain ⟨buf, hb, -, hrw, hs⟩ := setBuffer_holds hc
    exact sourced_set (r := x.reader.withUntilClosedRead p.val) hsize (.untilClosed rfl hb hrw hs)
  | readBody s =>
    have hout := hh.call hl hc
    have hkeep := readBody_bodySize parseChunkSize x.reader s
    simp only [Op.apply] at he
    generalize readBody parseChunkSize (x.reader, s) = res at hout hkeep he
    cases hout with
    | panics => cases he
    | @gives o r s' given bs held' hget hr hbytes hsub' =>
      simp only [hget] at he
      cases he
      refine ⟨hkeep.trans hsize, held', hr, ?_⟩
      show (x.given ++ given ++ held').Sublist (x.preread ++ (x.arrived ++ taken s s'))
      rw [taken_eq hbytes, List.append_assoc, ← List.append_assoc x.preread]
      refine ((List.Sublist.refl x.given).append hsub').trans ?_
      rw [← List.append_assoc]
      exact hsub.append (List.Sublist.refl bs)
    | @keeps o r s' held' hno hr hsub' =>
      have hy : y = { x with reader := r, arrived := x.arrived ++ taken s s' } := by
        cases o with
        | ok o =>
          cases o with
          | none => cases he; rfl
          | some o => exact absurd rfl (hno o)
        | panic t => cases he
        | err e => cases he; rfl
        | pending => cases he; rfl
      subst hy
      refine ⟨hkeep.trans hsize, held', hr, ?_⟩
      show (x.given ++ held').Sublist (x.preread ++ (x.arrived ++ taken s s'))
      rw [← List.append_assoc]
      exact (((List.Sublist.refl x.given).append hsub').trans hsub).trans (List.sublist_append_left _ _)

theorem CleanRun.sourced (hl : Local parseChunkSize) {x : Trace} (h : CleanRun parseChunkSize x) : Sourced x := by
  induction h with
  | start mem => exact ⟨rfl, [], .idle rfl, List.nil_sublist _⟩
  | step _ hc he ih => exact ih.step hl hc he

/-- In every state of a clean run, what `read_body` has returned since the mode was set
    is some of the preread bytes given with it and then of those read since, in order. -/
theorem given_sublist (hl : Local parseChunkSize) {x : Trace} (h : CleanRun parseChunkSize x) :
    x.given.Sublist (x.preread ++ x.arrived) := by
  obtain ⟨held, -, hsub⟩ := (h.sourced hl).held
  exact (List.sublist_append_left x.given held).trans hsub

theorem apply_readBody {x : Trace} {s s' : Stream} {o : Offset} {r' : BodyReader} {bs : Bytes}
    (hcall : readBody parseChunkSize (x.reader, s) = (.ok (some o), r', s')) (hget : r'.getSlicedBody o = .ok bs) :
    (Op.readBody s).apply parseChunkSize x =
      some { x with reader := r', arrived := x.arrived ++ taken s s', given := x.given ++ bs } := by
  simp only [Op.apply, hcall, hget]

/-- An upload whose first bytes came with its head. -/
theorem given_sublist_upload : ∃ x : Trace, CleanRun Chunked.parseSizeLine x ∧ x.given ≠ [] ∧
    x.given.Sublist (x.preread ++ x.arrived) := by
  have hmode : CleanRun Chunked.parseSizeLine ⟨(new fun _ => 0).withContentLengthRead 5 (ascii "abc"), ascii "abc", [], []⟩ :=
    @CleanRun.step Chunked.parseSizeLine _ _ (.contentLength 5 ⟨ascii "abc", by decide⟩) (.start fun _ => 0)
      (fun _ h => absurd h (by decide)) rfl
  have hstock : Stocked ((new fun _ => 0).withContentLengthRead 5 (ascii "abc")) ⟨[], [], []⟩ (ascii "abc" ++ []) [] :=
    stocked_setBuffer (idle_new fun _ => 0) ⟨[], rfl, List.forall_mem_nil _, rfl⟩ (.partially 0 5)
  obtain ⟨y, bs', o, r', s', hy, -, hcall, hget, -, -⟩ :=
    @Stocked.partially_call Chunked.parseSizeLine _ _ _ _ hstock (by decide) _ _ rfl (by decide)
  have hrun : CleanRun Chunked.parseSizeLine ⟨r', ascii "abc", [] ++ taken ⟨[], [], []⟩ s', [] ++ y.take 5⟩ := by
    refine @CleanRun.step Chunked.parseSizeLine _ _ (.readBody ⟨[], [], []⟩) hmode ?_ ?_
    · have hreader : ((new fun _ => 0).withContentLengthRead 5 (ascii "abc")).readState = .partially 0 5 := rfl
      intro _ read stop n buf head hst
      rw [hreader] at hst
      cases hst
    · exact apply_readBody hcall hget
  refine ⟨_, hrun, ?_, given_sublist Chunked.parseSizeLine_local hrun⟩
  intro e
  have hlen : (y.take 5).length = 0 := congrArg List.length e
  have hpos := List.length_pos_of_ne_nil hy
  rw [List.length_take] at hlen
  omega

/-! ## As a session issues them -/

/-- The mode `set_request_body_reader` ends with. -/
def chosen (h : RequestHeader) (p : Preread) : Op :=
  if Utils.isHeaderValueChunkEncoding (h.getHeader transferEncoding) then .chunked p
  else
    match Utils.getContentLengthValue (h.getHeader contentLength) with
    | some length => .contentLength length p
    | none =>
      match h.version with
      | .http11 => .contentLength 0 p
      | _ => .untilClosed p

/-- The modes it sets. -/
def modes (h : RequestHeader) (p : Preread) : List Op :=
  (if Utils.isRequestUpgrade h then [.untilClosed p] else []) ++ [chosen h p]

def run (parseChunkSize : Bytes → ChunkStatus) : List Op → Trace → Option Trace
  | [], x => some x
  | op :: ops, x => (op.apply parseChunkSize x).bind (run parseChunkSize ops)

theorem run_modes (parseChunkSize : Bytes → ChunkStatus) (d : Downstream) (h : RequestHeader) (p : Preread)
    (x : Trace) (hx : x.reader = d.bodyReader) :
    ∃ y, run parseChunkSize (modes h p) x = some y ∧ y.reader = (d.selected h p.val).bodyReader := by
  have hchosen : ∀ x : Trace, ∃ y, (chosen h p).apply parseChunkSize x = some y ∧
      y.reader = Downstream.selectReader h p.val x.reader := by
    intro x
    unfold chosen Downstream.selectReader
    split
    · exact ⟨_, rfl, rfl⟩
    · cases Utils.getContentLengthValue (h.getHeader contentLength) with
      | some length => exact ⟨_, rfl, rfl⟩
      | none => cases h.version <;> exact ⟨_, rfl, rfl⟩
  unfold modes Downstream.selected
  rw [← hx]
  by_cases hu : Utils.isRequestUpgrade h = true
  · rw [if_pos hu, if_pos hu]
    obtain ⟨y, hy, hr⟩ := hchosen ⟨x.reader.withUntilClosedRead p.val, p.val, [], []⟩
    refine ⟨y, ?_, hr⟩
    show ((chosen h p).apply parseChunkSize _).bind _ = _
    rw [hy]
    rfl
  · rw [if_neg hu, if_neg hu]
    obtain ⟨y, hy, hr⟩ := hchosen x
    refine ⟨y, ?_, hr⟩
    show ((chosen h p).apply parseChunkSize _).bind _ = _
    rw [hy]
    rfl

/-- The operations of a session: for each head it reads, the modes set for it, and then
    calls, among which the reader may be closed with a content length of 0. -/
inductive Issued : List Op → Prop
  | nil : Issued []
  | request {ops tail : List Op} (h : RequestHeader) (p : Preread) : Issued ops →
      (∀ op ∈ tail, op = .contentLength 0 noPreread ∨ ∃ s, op = .readBody s) →
      Issued (ops ++ .reStart :: (modes h p ++ tail))

theorem memory_take (mem : Nat → Byte) : ∀ (k n i : Nat), k ≤ n → (memory mem i n).take k = memory mem i k := by
  intro k
  induction k with
  | zero => intro n i _; rfl
  | succ k ih =>
    intro n i hk
    cases n with
    | zero => omega
    | succ n =>
      rw [memory, memory, List.take_succ_cons, ih n (i + 1) (by omega)]

/-- The preread bytes an earlier message left unread are as many bytes of the fresh
    buffer, handed out as a message's first. -/
theorem stale_call (parseChunkSize : Bytes → ChunkStatus) {r : BodyReader} (hsize : r.bodySize = bodyBufferSize)
    (h0 : r.rewindBufSize ≠ 0) (hle : r.rewindBufSize ≤ bodyBufferSize) {n : Nat} (hlt : r.rewindBufSize < n)
    (s : Stream) :
    ∃ r', readBody parseChunkSize (r.withContentLengthRead n [], s) = (.ok (some ⟨0, r.rewindBufSize⟩), r', s) ∧
      r'.getSlicedBody ⟨0, r.rewindBufSize⟩ = .ok (memory r.mem 0 r.rewindBufSize) := by
  obtain ⟨n, rfl⟩ : ∃ k, n = k + 1 := ⟨n - 1, by omega⟩
  have hb : (r.withContentLengthRead (n + 1) []).bodyBuffer = some (memory r.mem 0 bodyBufferSize) := by
    rw [← hsize]
    rfl
  have hcall : readBody parseChunkSize (r.withContentLengthRead (n + 1) [], s) =
      (r.withContentLengthRead (n + 1) []).readPartially s := rfl
  have hst : (r.withContentLengthRead (n + 1) []).readState = .partially 0 (n + 1) := rfl
  have hrw : (r.withContentLengthRead (n + 1) []).rewindBufSize = r.rewindBufSize := rfl
  have hfits : r.rewindBufSize < usizeEnd := by
    unfold bodyBufferSize at hle
    unfold usizeEnd
    omega
  rw [hcall]
  unfold readPartially
  rw [fill_rewind hb (by rw [hrw]; exact h0)]
  rw [hrw]
  simp only [takePartially_some (r := { r.withContentLengthRead (n + 1) [] with rewindBufSize := 0 }) hst h0
    (show ¬ n + 1 ≤ r.rewindBufSize by omega) (by rw [Nat.zero_add]; exact hfits)]
  refine ⟨_, rfl, getSlicedBody_of_get hb ?_⟩
  rw [Offset.get, slice_zero (by rw [memory_length]; exact hle), memory_take _ _ _ _ hle]

def upgradeHead : RequestHeader := ⟨ascii "GET", ascii "/", .http11, Fields.empty.appendHeader (ascii "Upgrade") (ascii "x")⟩

def uploadHead : RequestHeader :=
  ⟨ascii "POST", ascii "/", .http11, Fields.empty.appendHeader (ascii "Content-Length") (ascii "5")⟩

/-- The operations of an upgrade request whose mode takes no body, and of an upload. -/
theorem run_upload (parseChunkSize : Bytes → ChunkStatus) (p : Preread) (s : Stream) (x : Trace) :
    run parseChunkSize (([] ++ .reStart :: (modes upgradeHead p ++ [])) ++
      .reStart :: (modes uploadHead noPreread ++ [.readBody s])) x =
      (Op.readBody s).apply parseChunkSize ⟨((((x.reader.reStart).withUntilClosedRead p.val).withContentLengthRead 0
        p.val).reStart).withContentLengthRead 5 [], [], [], []⟩ := by
  rw [show modes upgradeHead p = [.untilClosed p, .contentLength 0 p] from rfl,
    show modes uploadHead noPreread = [.contentLength 5 noPreread] from rfl]
  show ((Op.readBody s).apply parseChunkSize _).bind some = _
  exact Option.bind_fun_some _

/-- After an upgrade request with three bytes behind its head, whose own mode takes no
    body, the first call for an upload without preread bytes returns three bytes of
    memory no one wrote. -/
theorem stale_memory_handed_out : ¬ ∀ (mem : Nat → Byte) (ops : List Op) (x : Trace), Issued ops →
    run Chunked.parseSizeLine ops (.start mem) = some x → x.given.Sublist (x.preread ++ x.arrived) := by
  intro h
  let p : Preread := ⟨ascii "abc", by decide⟩
  have hissued : Issued (([] ++ .reStart :: (modes upgradeHead p ++ [])) ++
      .reStart :: (modes uploadHead noPreread ++ [.readBody ⟨[], [], []⟩])) :=
    .request _ _ (.request _ _ .nil (List.forall_mem_nil _))
      fun op hop => .inr ⟨⟨[], [], []⟩, List.mem_singleton.mp hop⟩
  -- the reader the second head's mode is set on
  let r : BodyReader :=
    (((((new fun _ => 0).reStart).withUntilClosedRead p.val).withContentLengthRead 0 p.val).reStart)
  obtain ⟨r', hcall, hget⟩ := stale_call Chunked.parseSizeLine (r := r) rfl (show 3 ≠ 0 by decide)
    (show 3 ≤ bodyBufferSize by decide) (show 3 < 5 by decide) ⟨[], [], []⟩
  have hrun : run Chunked.parseSizeLine (([] ++ .reStart :: (modes upgradeHead p ++ [])) ++
      .reStart :: (modes uploadHead noPreread ++ [.readBody ⟨[], [], []⟩])) (.start fun _ => 0) =
      some ⟨r', [], [], [0, 0, 0]⟩ := by
    rw [run_upload, apply_readBody hcall hget]
    rfl
  exact absurd (h _ _ _ hissued hrun) (show ¬ ([0, 0, 0] : Bytes).Sublist ([] ++ []) by decide)

end BodyReader

end Glaive.Session
