/-
  Glaive.Session.PlainLeft — the bytes a session may still read as its request's body,
  where that body is neither chunked nor an upgrade's (`core/src/session/reader.rs`:
  `read_partially`, `read_until_closed`; `downstream.rs`: `read_downstream_request`).

  `Left` counts what stands in the buffer and what the socket holds, up to the length.
  A call hands out a front of it (`Left.next`), a call that waits leaves it, and so does
  one that is dropped; a response written meanwhile leaves it, or ends it (`Kept`).
-/

import Glaive.Session.ReaderSoundness
import Glaive.Session.DownstreamProofs
import Glaive.Session.RequestMode

namespace Glaive.Session

open Glaive.Lib
open Glaive.Lib.Async
open Glaive.Lib.Chunked (ChunkStatus)

namespace BodyReader

/-- The reader hands out these bytes, if its socket gives all it has. -/
inductive Left (r : BodyReader) (s : Stream) : Bytes → Prop
  | length {read toRead : Nat} {buf p : Bytes} : r.readState = .partially read toRead → r.bodyBuffer = some buf →
      r.rewindBufSize = p.length → slice 0 p.length buf = some p → Left r s ((p ++ s.bytes).take toRead)
  | untilClosed {read : Nat} {buf p : Bytes} : r.readState = .http10 read → r.bodyBuffer = some buf →
      r.rewindBufSize = p.length → slice 0 p.length buf = some p → Left r s (p ++ s.bytes)
  | finished : r.isFinished = true → Left r s []

variable {parseChunkSize : Bytes → ChunkStatus} {r : BodyReader} {s : Stream} {rest : Bytes}

theorem Left.started (h : Left r s rest) : r.isStart = false := by
  cases h with
  | length hst => simp [isStart, hst]
  | untilClosed hst => simp [isStart, hst]
  | finished hf =>
    unfold isFinished at hf
    split at hf
    · rename_i hst
      simp [isStart, hst]
    · rename_i hst
      simp [isStart, hst]
    · cases hf

theorem Left.congr {s' : Stream} (h : Left r s rest) (hs : s'.bytes = s.bytes) : Left r s' rest := by
  cases h with
  | length hst hb hrw hp => exact hs ▸ .length hst hb hrw hp
  | untilClosed hst hb hrw hp => exact hs ▸ .untilClosed hst hb hrw hp
  | finished hf => exact .finished hf

theorem Left.none_left (h : Left r s rest) (hf : r.isFinished = true) : rest = [] := by
  cases h with
  | length hst => simp [isFinished, hst] at hf
  | untilClosed hst => simp [isFinished, hst] at hf
  | finished => rfl

/-- What a fill comes to. -/
inductive Filled (r : BodyReader) (s : Stream) (p : Bytes) : Out Nat × BodyReader × Stream → Prop
  | got {x buf : Bytes} {r' : BodyReader} {s' : Stream} : p ++ s.bytes = x ++ s'.bytes →
      r'.readState = r.readState → r'.bodyBuffer = some buf → r'.rewindBufSize = 0 → slice 0 x.length buf = some x →
      Filled r s p (.ok x.length, r', s')
  | fails {e : IoError} {r' : BodyReader} {s' : Stream} : Filled r s p (.err e, r', s')
  | waits : Filled r s p (.pending, r, s)

theorem fill_filled {buf p : Bytes} (hb : r.bodyBuffer = some buf) (hrw : r.rewindBufSize = p.length)
    (hs : slice 0 p.length buf = some p) : Filled r s p (r.fill s) := by
  by_cases h0 : r.rewindBufSize = 0
  · obtain rfl : p = [] := List.eq_nil_of_length_eq_zero (hrw ▸ h0)
    rcases hr : s.read buf.length with ⟨o, s'⟩
    cases o with
    | ok x =>
      rw [fill_read hb h0 hr]
      obtain ⟨hbytes, hle, -⟩ := Stream.read_ok hr
      exact .got hbytes rfl rfl rfl (slice_overwrite_zero hle)
    | err e =>
      have : r.fill s = (.err e, { r with rewindBufSize := 0 }, s') := by simp only [fill, hb, if_pos h0, hr]
      rw [this]
      exact .fails
    | pending =>
      have hsame : s' = s := by
        unfold Stream.read at hr
        split at hr
        · cases hr
          rfl
        · cases hr
        · split at hr <;> cases hr
      have hrewound : { r with rewindBufSize := 0 } = r := by
        rw [← h0]
      have : r.fill s = (.pending, { r with rewindBufSize := 0 }, s) := by simp only [fill, hb, if_pos h0, hr, hsame]
      rw [this, hrewound]
      exact .waits
    | panic t => exact (Stream.read_ne_panic _ _ _ _ hr).elim
  · rw [fill_rewind hb h0, hrw]
    exact .got rfl rfl hb rfl hs

/-- What a call comes to. It hands out no more than it held and took. -/
inductive Next (r : BodyReader) (s : Stream) (rest : Bytes) : Out (Option Offset) × BodyReader × Stream → Prop
  | slice {o : Offset} {r' : BodyReader} {s' : Stream} {x rest' : Bytes} : r'.getSlicedBody o = .ok x →
      Left r' s' rest' → rest = x ++ rest' →
      x.length + r'.rewindBufSize + s'.bytes.length ≤ r.rewindBufSize + s.bytes.length →
      Next r s rest (.ok (some o), r', s')
  | ended {r' : BodyReader} {s' : Stream} : r'.isFinished = true → r'.rewindBufSize = 0 →
      Next r s rest (.ok none, r', s')
  | fails {e : IoError} {r' : BodyReader} {s' : Stream} : Next r s rest (.err e, r', s')
  | waits : Next r s rest (.pending, r, s)
  | panics {t : String} {r' : BodyReader} {s' : Stream} : Next r s rest (.panic t, r', s')

/-- The offset given spans the first `n` bytes of the buffer. -/
theorem give_cases (r : BodyReader) (n : Nat) (total : Option Nat) (st : Nat → ReadState) :
    (∃ t, r.give (do let t ← total; return (st t, ← Offset.new 0 n)) =
      (.ok (some ⟨0, n⟩), { r with readState := st t })) ∨
    r.give (do let t ← total; return (st t, ← Offset.new 0 n)) = (overflow, r) := by
  cases total with
  | none => exact .inr rfl
  | some t =>
    unfold Offset.new
    cases he : uadd 0 n with
    | none => exact .inr rfl
    | some e =>
      refine .inl ⟨t, ?_⟩
      rw [(uadd_eq_some he).1, Nat.zero_add]
      rfl

theorem Left.next_length {read toRead : Nat} {buf p : Bytes} (hst : r.readState = .partially read toRead)
    (hb : r.bodyBuffer = some buf) (hrw : r.rewindBufSize = p.length) (hs : Lib.slice 0 p.length buf = some p) :
    Next r s ((p ++ s.bytes).take toRead) (readBody parseChunkSize (r, s)) := by
  have hcall : readBody parseChunkSize (r, s) = r.readPartially s := by simp only [readBody, hst]
  rw [hcall]
  have hfill := fill_filled (s := s) hb hrw hs
  unfold readPartially
  generalize r.fill s = res at hfill
  cases hfill with
  | fails => exact .fails
  | waits => exact .waits
  | @got x buf' r' s' hbytes hst' hb' hrw' hx =>
    have hcount := congrArg List.length hbytes
    rw [List.length_append, List.length_append] at hcount
    simp only [takePartially, hst', hst]
    by_cases h0 : x.length = 0
    · rw [if_pos h0]
      exact .fails
    · rw [if_neg h0]
      by_cases hfull : toRead ≤ x.length
      · rw [if_pos hfull]
        rcases give_cases r' toRead (uadd read toRead) .completed with
          ⟨t, hg⟩ | hg
        · rw [hg]
          refine .slice (getSlicedBody_of_get hb' (slice_zero_take hx hfull)) (.finished rfl) ?_ ?_
          · rw [hbytes, List.take_append_of_le_length hfull, List.append_nil]
          · show (x.take toRead).length + r'.rewindBufSize + s'.bytes.length ≤ _
            rw [List.length_take, hrw', hrw]
            omega
        · rw [hg]
          exact .panics
      · rw [if_neg hfull]
        rcases give_cases r' x.length (uadd read x.length)
          (.partially · (toRead - x.length)) with ⟨t, hg⟩ | hg
        · rw [hg]
          refine .slice (getSlicedBody_of_get hb' hx)
            (.length rfl hb' (p := []) hrw' (slice_zero (Nat.zero_le _))) ?_ ?_
          · rw [hbytes, List.take_append, List.take_of_length_le (by omega), List.nil_append]
          · show x.length + r'.rewindBufSize + s'.bytes.length ≤ _
            rw [hrw', hrw]
            omega
        · rw [hg]
          exact .panics

theorem Left.next_untilClosed {read : Nat} {buf p : Bytes} (hst : r.readState = .http10 read)
    (hb : r.bodyBuffer = some buf) (hrw : r.rewindBufSize = p.length) (hs : Lib.slice 0 p.length buf = some p) :
    Next r s (p ++ s.bytes) (readBody parseChunkSize (r, s)) := by
  have hcall : readBody parseChunkSize (r, s) = r.readUntilClosed s := by simp only [readBody, hst]
  rw [hcall]
  have hfill := fill_filled (s := s) hb hrw hs
  unfold readUntilClosed
  generalize r.fill s = res at hfill
  cases hfill with
  | fails => exact .fails
  | waits => exact .waits
  | @got x buf' r' s' hbytes hst' hb' hrw' hx =>
    have hcount := congrArg List.length hbytes
    rw [List.length_append, List.length_append] at hcount
    simp only [takeUntilClosed, hst', hst]
    by_cases h0 : x.length = 0
    · rw [if_pos h0]
      exact .ended rfl hrw'
    · rw [if_neg h0]
      rcases give_cases r' x.length (uadd read x.length) .http10 with
        ⟨t, hg⟩ | hg
      · rw [hg]
        refine .slice (getSlicedBody_of_get hb' hx) (.untilClosed rfl hb' (p := []) hrw' (slice_zero (Nat.zero_le _))) ?_ ?_
        · rw [hbytes, List.nil_append]
        · show x.length + r'.rewindBufSize + s'.bytes.length ≤ _
          rw [hrw', hrw]
          omega
      · rw [hg]
        exact .panics

theorem Left.next (h : Left r s rest) (hf : r.isFinished = false) : Next r s rest (readBody parseChunkSize (r, s)) := by
  cases h with
  | length hst hb hrw hs => exact next_length hst hb hrw hs
  | untilClosed hst hb hrw hs => exact next_untilClosed hst hb hrw hs
  | finished hfin => exact absurd (hfin.symm.trans hf) (by simp)

/-! ### What reading leaves alone -/

/-- A body is read through reads of the socket alone. -/
theorem readBody_stays (parse : Bytes → Chunked.ChunkStatus) {I : Stream → Prop} (hI : ∀ s cap, I s → I (s.read cap).2) :
    Stays (fun p => I p.2) (readBody parse) := by
  have hfill : ∀ (r : BodyReader) (s : Stream), I s → I (r.fill s).2.2 := by
    intro r s hs
    unfold fill
    split
    · exact hs
    · rename_i buf _
      have hread := hI s buf.length hs
      simp only
      split
      · split <;> rename_i hr <;> rw [hr] at hread <;> exact hread
      · exact hs
  have hchunked : ∀ (r : BodyReader) (stop expecting : Nat) (s : Stream), I s → I (r.fillChunked stop expecting s).2.2 := by
    intro r stop expecting s hs
    unfold fillChunked
    split
    · have hread := hfill r s hs
      split <;> rename_i hf <;> rw [hf] at hread <;> exact hread
    · split
      · exact hs
      · rename_i buf _
        split
        · exact hs
        · rename_i head _
          have hread := hI s ((overwrite buf 0 head).length - expecting) hs
          simp only
          split <;> rename_i hr <;> rw [hr] at hread
          · split <;> exact hread
          all_goals exact hread
  rintro ⟨r, s⟩ hs
  have hread := hfill r s hs
  unfold readBody
  simp only
  split
  · exact hs
  · exact hs
  · unfold readPartially
    split <;> rename_i hf <;> rw [hf] at hread <;> exact hread
  · unfold readChunked
    split
    · rename_i start stop expecting _
      have hread := hchunked r stop expecting s hs
      split
      · split <;> rename_i hf <;> rw [hf] at hread <;> exact hread
      · exact hs
    · exact hs
  · unfold readUntilClosed
    split <;> rename_i hf <;> rw [hf] at hread <;> exact hread
  · exact hs

theorem read_output (s : Stream) (cap : Nat) : (s.read cap).2.output = s.output := by
  unfold Stream.read
  split
  · rfl
  · rfl
  · split <;> rfl

theorem readBody_output (parse : Bytes → Chunked.ChunkStatus) : Keeps (fun p => p.2.output) (readBody parse) :=
  fun p => readBody_stays parse (I := fun s => s.output = p.2.output) (fun s cap hs => (read_output s cap).trans hs) p rfl

theorem read_unread (s : Stream) (cap : Nat) : (s.read cap).2.bytes <:+ s.bytes := by
  unfold Stream.read
  split
  · exact List.suffix_rfl
  · rename_i e rest hin
    have hbytes : s.bytes = Stream.bytesOf (.error e :: rest) := congrArg Stream.bytesOf hin
    rw [hbytes]
    exact List.suffix_rfl
  · rename_i bs rest hin
    have hbytes : s.bytes = Stream.bytesOf (.data bs :: rest) := congrArg Stream.bytesOf hin
    rw [hbytes]
    split
    · exact List.suffix_append _ _
    · show bs.drop cap ++ Stream.bytesOf rest <:+ bs ++ Stream.bytesOf rest
      exact ⟨bs.take cap, by rw [← List.append_assoc, List.take_append_drop]⟩

theorem readBody_unread (parse : Bytes → Chunked.ChunkStatus) (r : BodyReader) (s : Stream) :
    (readBody parse (r, s)).2.2.bytes <:+ s.bytes :=
  readBody_stays parse (I := fun s' => s'.bytes <:+ s.bytes) (fun s' cap hs => (read_unread s' cap).trans hs) (r, s)
    List.suffix_rfl

/-! ### Where a mode starts -/

theorem left_setBuffer (hi : r.Idle) (p : Bytes) : ∃ buf, (r.setBuffer p).bodyBuffer = some buf ∧
    (r.setBuffer p).rewindBufSize = p.length ∧ Lib.slice 0 p.length buf = some p := by
  obtain ⟨buf, hb, -, hrw, hs⟩ := setBuffer_holds (r := r) (p := p) fun _ => hi.rewound
  exact ⟨buf, hb, hrw, hs⟩

theorem left_untilClosed (hi : r.Idle) (p : Bytes) : Left (r.withUntilClosedRead p) s (p ++ s.bytes) := by
  obtain ⟨buf, hb, hrw, hs⟩ := left_setBuffer hi p
  exact .untilClosed rfl hb hrw hs

theorem left_length (hi : r.Idle) (n : Nat) (p : Bytes) : Left (r.withContentLengthRead n p) s ((p ++ s.bytes).take n) := by
  obtain ⟨buf, hb, hrw, hs⟩ := left_setBuffer hi p
  cases n with
  | zero => exact .finished rfl
  | succ n => exact .length rfl hb hrw hs

end BodyReader

/-! ## The session of a plain request -/

/-- The body is neither an upgrade's nor chunked. -/
structure Plain (h : RequestHeader) : Prop where
  upgrade : Utils.isRequestUpgrade h = false
  chunked : Utils.isHeaderValueChunkEncoding (h.getHeader transferEncoding) = false

/-- The body of `h`, of the bytes that follow the head. -/
def announced (h : RequestHeader) (bs : Bytes) : Bytes :=
  match Utils.getContentLengthValue (h.getHeader contentLength) with
  | some length => bs.take length
  | none =>
    match h.version with
    | .http11 => []
    | _ => bs

namespace Downstream

variable {crates : Crates} {d d' : Downstream} {h : RequestHeader} {rest : Bytes}

/-- What the session may still read of the body of `h`. -/
inductive ToRead (h : RequestHeader) (d : Downstream) : Bytes → Prop
  | start {preread : Bytes} : d.Ready h preread → d.bodyReader.Idle →
      ToRead h d (announced h (preread ++ d.stream.bytes))
  | started {rest : Bytes} : d.requestHeader = some h → BodyReader.Left d.bodyReader d.stream rest → ToRead h d rest

theorem selected_left (hp : Plain h) {preread : Bytes} (hi : d.bodyReader.Idle) :
    BodyReader.Left (d.selected h preread).bodyReader d.stream (announced h (preread ++ d.stream.bytes)) := by
  unfold selected selectReader announced
  simp only [hp.upgrade, hp.chunked, Bool.false_eq_true, if_false]
  cases Utils.getContentLengthValue (h.getHeader contentLength) with
  | some n => exact BodyReader.left_length hi n preread
  | none =>
    cases h.version with
    | http11 => exact BodyReader.left_length hi 0 preread
    | _ => exact BodyReader.left_untilClosed hi preread

/-- What a call of `read_downstream_request` comes to. -/
inductive Reads (h : RequestHeader) (d : Downstream) (rest : Bytes) : Out Task × Downstream → Prop
  | body {b : Option Bytes} {e : Bool} {d' : Downstream} {rest' : Bytes} : ToRead h d' rest' →
      b.getD [] ++ rest' <+: rest → (e = true → rest' = []) → Reads h d rest (.ok (.body b e), d')
  | fails {e : IoError} {d' : Downstream} : Reads h d rest (.err e, d')
  | waits {d' : Downstream} : (d' = d ∨ ∃ preread, d.Ready h preread ∧ d' = d.selected h preread) →
      Reads h d rest (.pending, d')
  | panics {t : String} {d' : Downstream} : Reads h d rest (.panic t, d')

/-- Past its end the body is not read: the call waits for the client to close, or fails. -/
theorem reads_idle (hs : d.bodyReader.isStart = false) (hf : d.bodyReader.isFinished = true) :
    Reads h d rest (readDownstreamRequest crates d) := by
  have hcall : ∀ o d1, readRequestBodyOrIdle crates d = (o, d1) → (∀ b, o ≠ .ok b) → (o = .pending → d1 = d) →
      Reads h d rest (readDownstreamRequest crates d) := by
    intro o d1 ho hno hwait
    unfold readDownstreamRequest
    rw [bind_apply, ho]
    cases o with
    | ok b => exact absurd rfl (hno b)
    | err e => exact .fails
    | pending => exact .waits (.inl (hwait rfl))
    | panic t => exact .panics
  rcases hr : readRequestBodyOrIdle crates d with ⟨o, d1⟩
  refine hcall o d1 hr ?_ ?_
  · rintro b rfl
    unfold readRequestBodyOrIdle at hr
    rw [bind_ok (isReadingRequestBodyFinished_of_not_start hs), hf, if_pos rfl] at hr
    exact idle_not_ok hr
  · rintro rfl
    unfold readRequestBodyOrIdle at hr
    rw [bind_ok (isReadingRequestBodyFinished_of_not_start hs), hf, if_pos rfl] at hr
    unfold idle onStream at hr
    rw [bind_apply, zoom_apply] at hr
    rcases hread : d.stream.read 1 with ⟨o, s⟩
    rw [hread] at hr
    cases o with
    | ok x =>
      simp only at hr
      split at hr <;> cases hr
    | err e => cases hr
    | panic t => cases hr
    | pending =>
      obtain rfl : s = d.stream := by
        unfold Stream.read at hread
        split at hread
        · cases hread
          rfl
        · cases hread
        · split at hread <;> cases hread
      cases hr
      rfl

theorem reads_started (hp : Plain h) (hh : d.requestHeader = some h)
    (hl : BodyReader.Left d.bodyReader d.stream rest) : Reads h d rest (readDownstreamRequest crates d) := by
  cases hf : d.bodyReader.isFinished with
  | true => exact reads_idle hl.started hf
  | false =>
    have hstop : ∀ o p, BodyReader.readBody crates.parseChunkSize (d.bodyReader, d.stream) = (o, p) → (∀ a, o ≠ .ok a) →
        (o = .pending → p = (d.bodyReader, d.stream)) → Reads h d rest (readDownstreamRequest crates d) := by
      intro o p ho hno hwait
      have hb := readRequestBody_of_not_start hl.started ho
      have he : readRequestBodyOrIdle crates d = readRequestBodyBytes crates d :=
        readRequestBodyOrIdle_unfinished hl.started hf
      unfold readRequestBodyBytes at he
      unfold readDownstreamRequest
      rw [bind_apply, he, bind_apply, hb]
      cases o with
      | ok a => exact absurd rfl (hno a)
      | err e => exact .fails
      | pending =>
        refine .waits (.inl ?_)
        rw [hwait rfl]
        rfl
      | panic t => exact .panics
    have hnext : BodyReader.Next _ _ _ (BodyReader.readBody crates.parseChunkSize _) := hl.next hf
    generalize hres : BodyReader.readBody crates.parseChunkSize (d.bodyReader, d.stream) = res at hnext
    cases hnext with
    | fails => exact hstop _ _ hres nofun nofun
    | waits => exact hstop _ _ hres nofun fun _ => rfl
    | panics => exact hstop _ _ hres nofun nofun
    | slice hget hleft hsplit =>
      rw [readDownstreamRequest_slice hl.started hf hres hget hleft.started]
      exact .body (.started hh hleft) ⟨[], by rw [hsplit, List.append_nil]; rfl⟩ hleft.none_left
    | @ended r' s' hfin =>
      have hleft : BodyReader.Left r' s' [] := .finished hfin
      rw [readDownstreamRequest_none hl.started hf hh hres hleft.started, hp.upgrade]
      exact .body (.started hh hleft) (List.nil_prefix ..) fun _ => rfl

/-- Every call hands out a front of what is left, or leaves it. -/
theorem ToRead.reads (hp : Plain h) (ht : ToRead h d rest) : Reads h d rest (readDownstreamRequest crates d) := by
  cases ht with
  | started hh hl => exact reads_started hp hh hl
  | @start preread hd hi =>
    rw [readDownstreamRequest_ready hd]
    have hread : Reads h (d.selected h preread) _ (readDownstreamRequest crates (d.selected h preread)) :=
      reads_started hp hd.head (selected_left hp hi)
    generalize readDownstreamRequest crates (d.selected h preread) = res at hread
    cases hread with
    | body ht' hpre he => exact .body ht' hpre he
    | fails => exact .fails
    | panics => exact .panics
    | waits hw =>
      rcases hw with rfl | ⟨p, hready, -⟩
      · exact .waits (.inr ⟨preread, hd, rfl⟩)
      · have : (d.selected h preread).bodyReader.isStart = false := selectReader_isStart ..
        exact absurd (hready.start.symm.trans this) (by simp)

theorem ToRead.selected (hp : Plain h) {preread : Bytes} (hd : d.Ready h preread) (ht : ToRead h d rest) :
    ToRead h (d.selected h preread) rest := by
  cases ht with
  | started _ hl => exact absurd (hd.start.symm.trans hl.started) (by simp)
  | @start preread' hd' hi =>
    obtain ⟨o, ho, hget⟩ := hd.preread
    obtain ⟨o', ho', hget'⟩ := hd'.preread
    cases ho.symm.trans ho'
    cases hget.symm.trans hget'
    exact .started hd.head (selected_left hp hi)

/-! ## A response written meanwhile -/

/-- All that reading the request goes by is as it was in `d`, or the reader is closed. -/
structure Kept (d d' : Downstream) : Prop where
  head : d'.requestHeader = d.requestHeader
  buffer : d'.buffer = d.buffer
  preread : d'.bufBodyOffset = d.bufBodyOffset
  input : d'.stream.input = d.stream.input
  reader : d'.bodyReader = d.bodyReader ∨ d'.bodyReader = d.bodyReader.withContentLengthRead 0 []

theorem Kept.refl (d : Downstream) : Kept d d := ⟨rfl, rfl, rfl, rfl, .inl rfl⟩

theorem Kept.close {d0 : Downstream} (hk : Kept d0 d) :
    Kept d0 { d with bodyReader := d.bodyReader.withContentLengthRead 0 [] } := by
  refine ⟨hk.head, hk.buffer, hk.preread, hk.input, .inr ?_⟩
  rcases hk.reader with hr | hr
  · rw [hr]
  · rw [hr]
    rfl

variable {d0 : Downstream}

theorem stays_setReader : Stays (Kept d0) (setReader (·.withContentLengthRead 0 [])) := fun _ hk => hk.close

theorem stays_setWriter (f : BodyWriter → BodyWriter) : Stays (Kept d0) (setWriter f) :=
  fun _ hk => ⟨hk.head, hk.buffer, hk.preread, hk.input, hk.reader⟩

theorem stays_onWriter {α : Type} {x : Async (BodyWriter × Stream) α} (hx : Keeps (fun p => p.2.input) x) :
    Stays (Kept d0) (onWriter x) :=
  fun d hk => ⟨hk.head, hk.buffer, hk.preread, (hx (d.bodyWriter, d.stream)).trans hk.input, hk.reader⟩

theorem stays_getRequestHeaders : Stays (Kept d0) getRequestHeaders := by
  intro d hk
  unfold getRequestHeaders
  split <;> exact hk

theorem stays_isSessionUpgrade (resp : ResponseHeader) : Stays (Kept d0) (isSessionUpgrade resp) :=
  .bind (.bind stays_getRequestHeaders fun _ => .pure _) fun _ => .ite (.pure _) (.pure _)

theorem stays_setResponseBodyWriter (resp : ResponseHeader) : Stays (Kept d0) (setResponseBodyWriter resp) := by
  unfold setResponseBodyWriter orElse
  refine .bind (.ite (.pure _) (.bind stays_getRequestHeaders fun _ => .pure _)) fun _ =>
    .ite (stays_setWriter _) (.ite (.pure _) (.bind (stays_isSessionUpgrade resp) fun _ =>
      .ite (stays_setWriter _) (.ite (stays_setWriter _) ?_)))
  split <;> exact stays_setWriter _

theorem writeAll_input (s : Stream) (bs : Bytes) : (s.writeAll bs).2.input = s.input := by
  unfold Stream.writeAll
  split <;> rfl

theorem stays_sendHeaders (resp : ResponseHeader) : Stays (Kept d0) (sendHeaders crates resp) := by
  unfold sendHeaders
  split
  · exact .stop _
  · rename_i buf _
    intro d hk
    have hin := (writeAll_input d.stream buf).trans hk.input
    simp only
    split <;> rename_i hw <;> rw [hw] at hin <;> exact ⟨hk.head, hk.buffer, hk.preread, hin, hk.reader⟩

theorem stays_writeResponseHeaders (resp : ResponseHeader) : Stays (Kept d0) (writeResponseHeaders crates resp) := by
  have hexpect : Stays (Kept d0) isRequestExpectContinue := .bind stays_getRequestHeaders fun _ => .pure _
  have hignoring : Stays (Kept d0) (isIgnoringResponseHeaders resp.status) :=
    .bind .get fun _ => .andAlso _ (.bind (.andAlso _ hexpect) fun _ => .pure _)
  have hupdate : Stays (Kept d0) (updateHeaders crates resp) := .bind .get fun _ => .ite (.pure _) (.pure _)
  have htimeout : Stays (Kept d0) (modify fun d => { d with keepaliveTimeout := .set none }) :=
    .modify fun _ hk => ⟨hk.head, hk.buffer, hk.preread, hk.input, hk.reader⟩
  have hupgrade : Stays (Kept d0) (modify fun d => { d with upgrade := true }) :=
    .modify fun _ hk => ⟨hk.head, hk.buffer, hk.preread, hk.input, hk.reader⟩
  exact .bind (.andAlso _ hignoring) fun _ => .ite (.pure _) (.bind .get fun _ => .ite (.pure _)
    (.bind hupdate fun resp => .bind (.ite htimeout (.pure _)) fun _ => .bind (.ite
      (.bind (stays_isSessionUpgrade resp) fun _ => .bind (.ite hupgrade stays_setReader) fun _ =>
        stays_setResponseBodyWriter resp) (.pure _)) fun _ => stays_sendHeaders resp))

theorem writing_input {α : Type} {w : BodyWriter} {s : Stream} {bs : Bytes}
    {k : Stream → Out α × BodyWriter × Stream} (hk : ∀ s', (k s').2.2 = s') :
    (w.writing (s.writeAll bs) k).2.2.input = s.input := by
  have hin := writeAll_input s bs
  unfold BodyWriter.writing
  split <;> rename_i hw <;> rw [hw] at hin
  · rw [hk]
    exact hin
  all_goals exact hin

theorem writeBody_input (x : Bytes) : Keeps (fun p => p.2.input) (BodyWriter.writeBody x) := by
  rintro ⟨⟨st⟩, s⟩
  cases st with
  | start => rfl
  | completed n => rfl
  | contentLength total written =>
    simp only [BodyWriter.writeBody, BodyWriter.writeByContentLength]
    split
    · rfl
    · exact writing_input fun _ => rfl
  | chunkedEncoding written =>
    have hin := writeAll_input s (toHex x.length ++ crlf ++ x ++ crlf)
    simp only [BodyWriter.writeBody, BodyWriter.writeByChunkedEncoding]
    split <;> rename_i hw <;> rw [hw] at hin <;> exact hin
  | http10 written => exact writing_input fun _ => rfl

theorem finish_input : Keeps (fun p => p.2.input) BodyWriter.finish := by
  rintro ⟨⟨st⟩, s⟩
  cases st with
  | chunkedEncoding written => exact writing_input fun _ => rfl
  | _ => rfl

theorem stays_vectoredWriteResponseBody : Stays (Kept d0) vectoredWriteResponseBody := by
  refine .bind .get fun d => .ite (.pure _) fun d' hk => ?_
  have := (stays_onWriter (writeBody_input d'.writeBodyVecBuffer)) d' hk
  exact ⟨this.head, this.buffer, this.preread, this.input, this.reader⟩

theorem stays_finishWritingResponseBody : Stays (Kept d0) finishWritingResponseBody :=
  .bind (stays_onWriter finish_input) fun _ => .bind (.bind .get fun _ => .ite stays_setReader (.pure _)) fun _ => .pure _

theorem stays_writeResponseTask (t : Task) : Stays (Kept d0) (writeResponseTask crates t) := by
  cases t with
  | header resp e => exact .bind (stays_writeResponseHeaders resp) fun _ => .pure _
  | body b e =>
    cases b with
    | none => exact .pure _
    | some b => exact .bind (.ite (.pure _) (.ignore (stays_onWriter (writeBody_input b)))) fun _ => .pure _
  | trailer => exact .pure _
  | done => exact .pure _
  | failed e => exact .stop _

theorem stays_vectoredResponseTask (t : Task) : Stays (Kept d0) (vectoredResponseTask crates t) := by
  cases t with
  | header resp e => exact .bind (stays_writeResponseHeaders resp) fun _ => .pure _
  | body b e =>
    cases b with
    | none => exact .pure _
    | some b =>
      exact .bind (.modify fun _ hk => ⟨hk.head, hk.buffer, hk.preread, hk.input, hk.reader⟩) fun _ => .pure _
  | trailer => exact .pure _
  | done => exact .pure _
  | failed e => exact .bind (.ignore stays_vectoredWriteResponseBody) fun _ => .stop _

theorem stays_vectoredTasks : ∀ (ts : List Task) (e : Bool), Stays (Kept d0) (vectoredTasks crates e ts) := by
  intro ts
  induction ts with
  | nil => exact fun e => .pure _
  | cons t ts ih => exact fun _ => .bind (stays_vectoredResponseTask t) ih

/-- Whatever tasks are written to the client, however that ends. -/
theorem writeDownstreamResponse_kept (crates : Crates) (ts : List Task) (d : Downstream) :
    Kept d (writeDownstreamResponse crates ts d).2 := by
  have hfinish : ∀ e : Bool, Stays (Kept d) (if e then ignore finishWritingResponseBody else pure ()) :=
    fun e => .ite (.ignore stays_finishWritingResponseBody) (.pure _)
  have hstays : Stays (Kept d) (writeDownstreamResponse crates ts) := by
    match ts with
    | [] => exact .pure _
    | [t] => exact .bind (stays_writeResponseTask t) fun e => .bind (hfinish e) fun _ => .pure _
    | t :: t' :: ts =>
      exact .bind (stays_vectoredTasks _ _) fun e => .bind (.ignore stays_vectoredWriteResponseBody) fun _ =>
        .bind (hfinish e) fun _ => .pure _
  exact hstays d (.refl d)

theorem ToRead.kept (ht : ToRead h d rest) (hk : Kept d d') : ∃ rest', ToRead h d' rest' ∧ rest' <+: rest := by
  have hhead : d.requestHeader = some h := by
    cases ht with
    | start hd => exact hd.head
    | started hh => exact hh
  rcases hk.reader with hr | hr
  · have hbytes : d'.stream.bytes = d.stream.bytes := congrArg Stream.bytesOf hk.input
    refine ⟨rest, ?_, List.prefix_rfl⟩
    cases ht with
    | @start preread hd hi =>
      rw [← hbytes]
      obtain ⟨o, ho, hget⟩ := hd.preread
      exact .start ⟨hk.head.trans hhead, ⟨o, hk.preread.trans ho, by rw [hk.buffer]; exact hget⟩, by rw [hr]; exact hd.start⟩
        (by rw [hr]; exact hi)
    | started hh hl =>
      refine .started (hk.head.trans hhead) ?_
      rw [hr]
      cases hl with
      | length hst hb hrw hs => rw [← hbytes]; exact .length hst hb hrw hs
      | untilClosed hst hb hrw hs => rw [← hbytes]; exact .untilClosed hst hb hrw hs
      | finished hf => exact .finished hf
  · refine ⟨[], .started (hk.head.trans hhead) (.finished ?_), List.nil_prefix ..⟩
    rw [hr]
    rfl

end Downstream

end Glaive.Session
