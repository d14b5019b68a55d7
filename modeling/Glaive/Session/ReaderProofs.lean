/-
  Glaive.Session.ReaderProofs — what the body reader does (see `Glaive.Session.Reader`).

  In chunked mode it refines the pull decoder of `Glaive.Lib.ChunkedCoding` (`Holds`,
  `readChunked_refines`): the four numbers of `ReadState::Chunked` and the buffer hold
  what the decoder holds. `0, 0, 0` is a fresh start, with the preread bytes to come; a
  start past 0 is bytes of the buffer not looked at; an end and a size are a partial
  chunk head to move to the front; a lone size is what the chunk owes.
-/

import Glaive.Lib.SizeLine
import Glaive.Session.Reader

namespace Glaive.Session

open Glaive.Lib
open Glaive.Lib.Chunked (ChunkStatus Decoder Pull settle)

namespace BodyReader

variable {parseChunkSize : Bytes → ChunkStatus}

/-! ## The chunked state as a decoder -/

/-- The reader's state and its buffer `buf` hold what the decoder holds. -/
inductive Holds (r : BodyReader) (read : Nat) (buf : Bytes) : Decoder → Prop
  | fresh {p : Bytes} : r.readState = .chunked read 0 0 0 → r.rewindBufSize = p.length →
      slice 0 p.length buf = some p → Holds r read buf (.ready p)
  | multi {p : Bytes} {start stop : Nat} : r.readState = .chunked read start stop 0 → 0 < start →
      r.rewindBufSize = 0 → slice start stop buf = some p → p ≠ [] → Holds r read buf (.ready p)
  | stalled {h : Bytes} {stop : Nat} : r.readState = .chunked read 0 stop h.length → h ≠ [] →
      h.length ≤ partialChunkHeadLimit → h.length ≤ stop → r.rewindBufSize = 0 → slice (stop - h.length) stop buf = some h → Holds r read buf (.stalled h)
  | owing {n : Nat} : r.readState = .chunked read 0 0 n → 0 < n → r.rewindBufSize = 0 → Holds r read buf (.owing n)

/-- The reader ends a call as the decoder ends its pull. -/
inductive Gives (read : Nat) (buf : Bytes) : Pull × Decoder → Out (Option Offset) × BodyReader → Prop
  | slice {x : Bytes} {d : Decoder} {o : Offset} {r : BodyReader} : o.get buf = some x →
      r.bodyBuffer = some buf → Holds r (read + x.length) buf d → Gives read buf (.slice x, d) (.ok (some o), r)
  | done {r : BodyReader} : r.readState = .completed read → Gives read buf (.done, .finished) (.ok none, r)
  | fail {e : IoError} {r : BodyReader} : r.readState = .done read → Gives read buf (.fail, .failed) (.err e, r)

theorem Holds.state {r : BodyReader} {read : Nat} {buf : Bytes} {d : Decoder} (h : Holds r read buf d) :
    (∃ a b c, r.readState = .chunked read a b c) ∧ d ≠ .finished := by
  cases h with
  | fresh h => exact ⟨⟨_, _, _, h⟩, by simp⟩
  | multi h => exact ⟨⟨_, _, _, h⟩, by simp⟩
  | stalled h => exact ⟨⟨_, _, _, h⟩, by simp⟩
  | owing h => exact ⟨⟨_, _, _, h⟩, by simp⟩

theorem Holds.readBody_eq {r : BodyReader} {read : Nat} {buf : Bytes} {d : Decoder} (h : Holds r read buf d)
    (parseChunkSize : Bytes → ChunkStatus) (s : Stream) :
    readBody parseChunkSize (r, s) = r.readChunked parseChunkSize s := by
  obtain ⟨⟨_, _, _, hst⟩, -⟩ := h.state
  simp only [readBody, hst]

theorem Holds.ne_failed {r : BodyReader} {read : Nat} {buf : Bytes} {d : Decoder} (h : Holds r read buf d) :
    d ≠ .failed := by
  cases h <;> simp

/-- Passing over `n` bytes of `avail`, which stands at `start` in the buffer. -/
theorem holds_settle {r : BodyReader} {read n start stop : Nat} {buf avail : Bytes}
    (hs : slice start stop buf = some avail) (hrw : r.rewindBufSize = 0) (hn : 0 < n)
    (hst : r.readState = if avail.length ≤ n then .chunked read 0 0 (n - avail.length)
      else .chunked read (start + n) stop 0) :
    Holds r read buf (settle n avail) := by
  unfold settle
  have hlen := length_of_slice hs
  obtain ⟨h1, h2, _⟩ := slice_eq_some hs
  by_cases hlt : avail.length < n
  · rw [if_pos hlt]
    rw [if_pos (by omega)] at hst
    exact .owing hst (by omega) hrw
  · rw [if_neg hlt]
    by_cases he : avail.length = n
    · rw [if_pos (by omega), he, Nat.sub_self] at hst
      have hd : avail.drop n = [] := by rw [List.drop_eq_nil_iff]; omega
      rw [hd]
      exact .fresh hst hrw (slice_zero (Nat.zero_le _))
    · rw [if_neg (by omega)] at hst
      refine .multi hst (by omega) hrw ?_ ?_
      · have := slice_slice (y := avail.drop n) hs (i := n) (j := avail.length)
          (by rw [slice_of_le (by omega) (Nat.le_refl _), List.take_length])
        rwa [show start + avail.length = stop by omega] at this
      · intro e
        have := congrArg List.length e
        rw [List.length_drop, List.length_nil] at this; omega

theorem chunkAt_eq {read s0 stop start bufLen i n : Nat} (hi : i ≤ bufLen) (hn : i + n + 2 < usizeEnd)
    (hb : start + bufLen < usizeEnd) (hr : read + min n (bufLen - i) < usizeEnd) :
    chunkAt (.chunked read s0 stop 0) start bufLen i n =
      some (if bufLen ≤ i + n + 2 then .chunked (read + min n (bufLen - i)) 0 0 (i + n + 2 - bufLen)
        else .chunked (read + min n (bufLen - i)) (start + (i + n + 2)) stop 0,
        ⟨start + i, start + i + min n (bufLen - i)⟩) := by
  unfold chunkAt
  simp only [uadd_of_lt (show i + n < usizeEnd by omega), Option.bind_eq_bind, Option.bind_some, uadd_of_lt hn,
    ReadState.partialChunk, ReadState.multiChunk, uadd_of_lt (show start + i < usizeEnd by omega), Offset.new,
    Option.pure_def]
  by_cases hc : bufLen ≤ i + n + 2
  · rw [if_pos hc, if_pos hc]
    by_cases hd : bufLen < i + n
    · rw [show min n (bufLen - i) = bufLen - i by omega] at hr ⊢
      simp only [if_pos hd, usub_of_le hi, Option.bind_some, uadd_of_lt hr, Option.map_some,
        uadd_of_lt (show start + i + (bufLen - i) < usizeEnd by omega)]
    · rw [show min n (bufLen - i) = n by omega] at hr ⊢
      simp only [if_neg hd, Option.bind_some, uadd_of_lt hr, Option.map_some,
        uadd_of_lt (show start + i + n < usizeEnd by omega)]
  · rw [if_neg hc, if_neg hc]
    rw [show min n (bufLen - i) = n by omega] at hr ⊢
    simp only [uadd_of_lt (show start + (i + n + 2) < usizeEnd by omega), Option.bind_some, uadd_of_lt hr,
      Option.map_some, uadd_of_lt (show start + i + n < usizeEnd by omega)]

/-- The size line at `start`, and the data behind it. -/
theorem parseChunkedBuf_refines (parseChunkSize : Bytes → ChunkStatus) {r : BodyReader} {read start stop : Nat} {buf avail : Bytes}
    (hb : r.bodyBuffer = some buf) (hst : ∃ s0, r.readState = .chunked read s0 stop 0) (hrw : r.rewindBufSize = 0)
    (hs : slice start stop buf = some avail) (hne : avail ≠ []) (hbuf : buf.length < usizeEnd)
    (hread : ∀ x d, Chunked.takeLine parseChunkSize partialChunkHeadLimit avail = (.slice x, d) →
      read + x.length < usizeEnd)
    (hread0 : read < usizeEnd)
    (hfit : ∀ i n, parseChunkSize avail = .complete i n → i ≤ avail.length ∧ (n ≠ 0 → i + n + 2 < usizeEnd)) :
    Gives read buf (Chunked.takeLine parseChunkSize partialChunkHeadLimit avail)
      (r.parseChunkedBuf parseChunkSize start stop) := by
  obtain ⟨s0, hst⟩ := hst
  obtain ⟨hle1, hle2, _⟩ := slice_eq_some hs
  have hlen := length_of_slice hs
  have hpos := List.length_pos_of_ne_nil hne
  unfold parseChunkedBuf
  rw [hb, Option.bind_some, hs]
  simp only
  unfold Chunked.takeLine at hread ⊢
  cases hp : parseChunkSize avail with
  | complete i n =>
    rw [hp] at hread
    simp only at hread ⊢
    obtain ⟨hi, hfit⟩ := hfit i n hp
    by_cases hn : n = 0
    · simp only [hn, if_true, hst, ReadState.finish]
      rw [uadd_of_lt (by omega)]
      exact .done rfl
    · have hf := hfit hn
      rw [if_neg hn] at hread ⊢
      rw [if_neg hn]
      have hr := hread _ _ rfl
      rw [List.length_take, List.length_drop] at hr
      have hslice : ∀ k, k ≤ avail.length - i → slice (start + i) (start + i + k) buf = some ((avail.drop i).take k) := by
        intro k hk
        have := slice_slice (y := (avail.drop i).take k) hs (i := i) (j := i + k)
          (by rw [slice_of_le (by omega) (by omega), List.take_drop])
        rwa [← Nat.add_assoc] at this
      rw [hst, chunkAt_eq hi hf (by omega) hr]
      refine .slice ?_ hb (holds_settle hs hrw (by omega) ?_)
      · rw [Offset.get, hslice _ (Nat.min_le_right _ _)]
        congr 1
        rw [List.take_eq_take_iff, List.length_drop]; omega
      · rw [List.length_take, List.length_drop]
  | incomplete =>
    simp only
    by_cases hl : partialChunkHeadLimit < avail.length
    · rw [if_pos hl, if_pos hl]
      simp only [hst, ReadState.finishDone]
      rw [uadd_of_lt (by omega)]
      exact .fail rfl
    · rw [if_neg hl, if_neg hl]
      simp only [Offset.new, uadd_of_lt (show 0 + 0 < usizeEnd by decide), Option.map_some, Option.pure_def,
        Option.bind_eq_bind, Option.bind_some, give, hst, ReadState.partialChunkHead]
      refine .slice (slice_zero (Nat.zero_le _)) hb (.stalled rfl hne (by omega) (by omega) hrw ?_)
      rwa [show stop - avail.length = start by omega]
  | invalid =>
    simp only [hst, ReadState.finishDone]
    rw [uadd_of_lt (by omega)]
    exact .fail rfl

/-- The bytes `avail`, all the buffer has, of a chunk that owes `n`. -/
theorem takeOwed_refines {r : BodyReader} {read n : Nat} {buf avail : Bytes} (hb : r.bodyBuffer = some buf)
    (hst : ∃ s0, r.readState = .chunked read s0 avail.length 0) (hrw : r.rewindBufSize = 0)
    (hs : slice 0 avail.length buf = some avail) (hne : avail ≠ []) (hn : 0 < n) (hfit : avail.length + 2 < usizeEnd)
    (hread : read + (avail.take (n - 2)).length < usizeEnd) :
    Gives read buf (Chunked.takeOwed n avail) (r.takeChunked parseChunkSize 0 avail.length n) := by
  obtain ⟨s0, hst⟩ := hst
  have hpos := List.length_pos_of_ne_nil hne
  have hget : ∀ k, k ≤ avail.length → slice 0 k buf = some (avail.take k) := fun k hk => slice_zero_take hs hk
  rw [List.length_take] at hread
  unfold takeChunked
  rw [if_neg (by omega), if_pos hn, uadd_of_lt hfit]
  simp only [hst, ReadState.partialChunk, ReadState.multiChunk]
  have hpay : (if 2 < n then n - 2 else 0) = n - 2 := by split <;> omega
  rw [hpay]
  by_cases h2 : avail.length + 2 ≤ n
  · rw [if_pos h2]
    rw [show min (n - 2) avail.length = avail.length by omega] at hread
    simp only [uadd_of_lt hread, Option.map_some, Option.bind_eq_bind, Option.bind_some, Offset.new, Nat.zero_add,
      uadd_of_lt (show 0 + avail.length < usizeEnd by omega), Option.pure_def, give]
    refine .slice ?_ hb (holds_settle hs hrw hn ?_)
    · rw [Offset.get, hget _ (Nat.le_refl _), List.take_length, List.take_of_length_le (by omega)]
    · rw [if_pos (by omega), List.length_take, show min (n - 2) avail.length = avail.length by omega]
  · rw [if_neg h2]
    rw [show min (n - 2) avail.length = n - 2 by omega] at hread
    by_cases h3 : avail.length ≤ n
    · rw [if_pos h3]
      simp only [uadd_of_lt hread, Option.map_some, Option.bind_eq_bind, Option.bind_some, Offset.new, Nat.zero_add,
        uadd_of_lt (show 0 + (n - 2) < usizeEnd by omega), Option.pure_def, give]
      refine .slice ?_ hb (holds_settle hs hrw hn ?_)
      · exact hget (n - 2) (by omega)
      · rw [if_pos h3, List.length_take, show min (n - 2) avail.length = n - 2 by omega]
    · rw [if_neg h3]
      simp only [uadd_of_lt hread, Option.map_some, Option.bind_eq_bind, Option.bind_some, Offset.new, Nat.zero_add,
        uadd_of_lt (show 0 + (n - 2) < usizeEnd by omega), Option.pure_def, give]
      refine .slice ?_ hb (holds_settle hs hrw hn ?_)
      · exact hget (n - 2) (by omega)
      · rw [if_neg h3, List.length_take, show min (n - 2) avail.length = n - 2 by omega, Nat.zero_add]

/-! ## Filling the buffer -/

/-- What the socket gives a decoder's pull: nothing is read where bytes are held. -/
def Feeds (cap : Nat) (d : Decoder) (bs : Bytes) (s s' : Stream) : Prop :=
  if d.reads then s.read (cap - d.held.length) = (.ok bs, s') ∧ d.held ++ bs ≠ [] else bs = [] ∧ s' = s

theorem fill_rewind {r : BodyReader} {s : Stream} {buf : Bytes} (hb : r.bodyBuffer = some buf)
    (h : r.rewindBufSize ≠ 0) : r.fill s = (.ok r.rewindBufSize, { r with rewindBufSize := 0 }, s) := by
  simp only [fill, hb, if_neg h]

theorem fill_read {r : BodyReader} {s s' : Stream} {buf bs : Bytes} (hb : r.bodyBuffer = some buf)
    (h : r.rewindBufSize = 0) (hs : s.read buf.length = (.ok bs, s')) :
    r.fill s = (.ok bs.length, { r with rewindBufSize := 0, bodyBuffer := some (overwrite buf 0 bs) }, s') := by
  simp only [fill, hb, if_pos h, hs]

theorem slice_overwrite_zero {buf bs : Bytes} (h : bs.length ≤ buf.length) :
    slice 0 bs.length (overwrite buf 0 bs) = some bs := by
  rw [slice_zero (by rw [length_overwrite (by omega)]; exact h)]
  have : (overwrite buf 0 bs).take (([] : Bytes).length + bs.length) = [] ++ bs := take_overwrite rfl
  simpa using this

theorem slice_overwrite_append {buf p bs : Bytes} (h : p.length + bs.length ≤ buf.length) :
    slice 0 (p.length + bs.length) (overwrite (overwrite buf 0 p) p.length bs) = some (p ++ bs) := by
  have hl : (overwrite buf 0 p).length = buf.length := length_overwrite (by omega)
  rw [slice_zero (by rw [length_overwrite (by omega), hl]; exact h)]
  congr 1
  refine take_overwrite ?_
  have : slice 0 p.length (overwrite buf 0 p) = some p := slice_overwrite_zero (by omega)
  rw [slice_zero (by rw [hl]; omega)] at this
  exact Option.some.inj this

/-- A call of `read_chunked` that gets its bytes: what is held and what came stand in
    one piece of the buffer, and the rest of the call goes by them. -/
structure Fed (parseChunkSize : Bytes → ChunkStatus) (r : BodyReader) (s : Stream) (read : Nat) (buf : Bytes)
    (d : Decoder) (bs : Bytes) (s' : Stream) (r1 : BodyReader) (buf1 : Bytes) (start stop : Nat) : Prop where
  call : ∃ expecting, r.readChunked parseChunkSize s =
      ((r1.takeChunked parseChunkSize start stop expecting).1, (r1.takeChunked parseChunkSize start stop expecting).2, s') ∧
    (d = .owing expecting ∧ 0 < expecting ∧ start = 0 ∨ (∀ n, d ≠ .owing n) ∧ expecting = 0)
  buffer : r1.bodyBuffer = some buf1
  length : buf1.length = buf.length
  state : ∃ s0, r1.readState = .chunked read s0 stop 0
  rewound : r1.rewindBufSize = 0
  window : slice start stop buf1 = some (d.held ++ bs)
  nonempty : d.held ++ bs ≠ []

theorem readChunked_fed (parseChunkSize : Bytes → ChunkStatus) {r : BodyReader} {read : Nat} {buf bs : Bytes}
    {d : Decoder} {s s' : Stream} (hb : r.bodyBuffer = some buf) (h : Holds r read buf d)
    (hbuf : buf.length < usizeEnd) (hio : Feeds buf.length d bs s s') :
    ∃ r1 buf1 start stop, Fed parseChunkSize r s read buf d bs s' r1 buf1 start stop := by
  unfold Feeds at hio
  cases h with
  | @fresh p hst hrw hs =>
    by_cases hp : p = []
    · subst hp
      simp only [Decoder.reads, List.isEmpty_nil, if_true, Decoder.held, List.length_nil, Nat.sub_zero,
        List.nil_append] at hio
      obtain ⟨hio, hne⟩ := hio
      obtain ⟨-, hle, -⟩ := Stream.read_ok hio
      refine ⟨{ r with rewindBufSize := 0, bodyBuffer := some (overwrite buf 0 bs),
                       readState := .chunked read 0 bs.length 0 }, overwrite buf 0 bs, 0, bs.length, ?_, rfl,
        length_overwrite (by omega), ⟨_, rfl⟩, rfl, slice_overwrite_zero hle, hne⟩
      refine ⟨0, ?_, Or.inr ⟨by simp, rfl⟩⟩
      simp only [readChunked, hst, if_true, fillChunked, fill_read hb hrw hio, ReadState.newBuf]
    · have hpos := List.length_pos_of_ne_nil hp
      simp only [Decoder.reads, List.isEmpty_iff, hp, if_false] at hio
      obtain ⟨rfl, rfl⟩ := hio
      have hrw0 : r.rewindBufSize ≠ 0 := by omega
      refine ⟨{ r with rewindBufSize := 0, readState := .chunked read 0 r.rewindBufSize 0 }, buf, 0, r.rewindBufSize,
        ?_, hb, rfl, ⟨_, rfl⟩, rfl, by rw [hrw, Decoder.held, List.append_nil]; exact hs,
        by rw [Decoder.held, List.append_nil]; exact hp⟩
      refine ⟨0, ?_, Or.inr ⟨by simp, rfl⟩⟩
      simp only [readChunked, hst, if_true, fillChunked, fill_rewind hb hrw0, ReadState.newBuf]
  | @multi p start stop hst hst0 hrw hs hp =>
    simp only [Decoder.reads, List.isEmpty_iff, hp, if_false] at hio
    obtain ⟨rfl, rfl⟩ := hio
    refine ⟨r, buf, start, stop, ?_, hb, rfl, ⟨_, hst⟩, hrw, by rw [Decoder.held, List.append_nil]; exact hs,
      by rw [Decoder.held, List.append_nil]; exact hp⟩
    refine ⟨0, ?_, Or.inr ⟨by simp, rfl⟩⟩
    simp only [readChunked, hst, if_neg (show start ≠ 0 by omega)]
  | @stalled hd stop hst hne hlim hle hrw hs =>
    have hpos := List.length_pos_of_ne_nil hne
    simp only [Decoder.reads, if_true, Decoder.held] at hio
    obtain ⟨hio, -⟩ := hio
    obtain ⟨-, hcap, -⟩ := Stream.read_ok hio
    obtain ⟨-, hstop, -⟩ := slice_eq_some hs
    have hl0 : (overwrite buf 0 hd).length = buf.length := length_overwrite (by omega)
    refine ⟨{ r with bodyBuffer := some (overwrite (overwrite buf 0 hd) hd.length bs),
                     readState := .chunked read 0 (hd.length + bs.length) 0 },
      overwrite (overwrite buf 0 hd) hd.length bs, 0, hd.length + bs.length, ?_, rfl,
      by rw [length_overwrite (by omega), hl0], ⟨_, rfl⟩, hrw, slice_overwrite_append (by omega),
      by simp [Decoder.held, hne]⟩
    refine ⟨0, ?_, Or.inr ⟨by simp, rfl⟩⟩
    simp only [readChunked, hst, if_true, fillChunked, if_neg (show stop ≠ 0 by omega), hb, usub_of_le hle,
      Option.bind_some, hs, hl0, hio, uadd_of_lt (show hd.length + bs.length < usizeEnd by omega), ReadState.newBuf]
  | @owing n hst hn hrw =>
    simp only [Decoder.reads, if_true, Decoder.held, List.length_nil, Nat.sub_zero, List.nil_append] at hio
    obtain ⟨hio, hne⟩ := hio
    obtain ⟨-, hle, -⟩ := Stream.read_ok hio
    refine ⟨{ r with rewindBufSize := 0, bodyBuffer := some (overwrite buf 0 bs),
                     readState := .chunked read 0 bs.length 0 }, overwrite buf 0 bs, 0, bs.length, ?_, rfl,
      length_overwrite (by omega), ⟨_, rfl⟩, rfl, slice_overwrite_zero hle, hne⟩
    refine ⟨n, ?_, Or.inl ⟨rfl, hn, rfl⟩⟩
    simp only [readChunked, hst, if_true, fillChunked, fill_read hb hrw hio, ReadState.newBuf]

/-- Nothing owed: the call goes on to the next size line. -/
theorem takeChunked_line {r : BodyReader} {start stop : Nat} (h : stop ≠ 0) :
    r.takeChunked parseChunkSize start stop 0 = r.parseChunkedBuf parseChunkSize start stop := by
  unfold takeChunked
  rw [if_neg h, if_neg (Nat.lt_irrefl 0)]

theorem Fed.stop_ne {r r1 : BodyReader} {s s' : Stream} {read start stop : Nat} {buf buf1 bs : Bytes} {d : Decoder}
    (h : Fed parseChunkSize r s read buf d bs s' r1 buf1 start stop) : stop ≠ 0 := by
  have h1 := length_of_slice h.window
  have h2 := List.length_pos_of_ne_nil h.nonempty
  omega

/-- One call of `read_chunked` is one pull of the decoder the reader holds. -/
theorem readChunked_refines {r : BodyReader} {read : Nat} {buf bs : Bytes} {d : Decoder} {s s' : Stream}
    (hb : r.bodyBuffer = some buf) (h : Holds r read buf d) (hbuf : buf.length < usizeEnd) (hread0 : read < usizeEnd)
    (hfit : d.Fits parseChunkSize bs)
    (hread : ∀ x d', d.pull parseChunkSize partialChunkHeadLimit bs = (.slice x, d') → read + x.length < usizeEnd)
    (hio : Feeds buf.length d bs s s') :
    ∃ buf' o r', r.readChunked parseChunkSize s = (o, r', s') ∧ buf'.length = buf.length ∧
      Gives read buf' (d.pull parseChunkSize partialChunkHeadLimit bs) (o, r') := by
  obtain ⟨r1, buf1, start, stop, hfed⟩ := readChunked_fed parseChunkSize hb h hbuf hio
  obtain ⟨expecting, hcall, hcase⟩ := hfed.call
  have hnot := h.state.2
  refine ⟨buf1, _, _, hcall, hfed.length, ?_⟩
  have hlen := length_of_slice hfed.window
  cases d with
  | finished => exact absurd rfl hnot
  | failed => exact absurd rfl h.ne_failed
  | ready held =>
    obtain ⟨-, rfl⟩ := hcase.resolve_left (by simp)
    rw [takeChunked_line hfed.stop_ne]
    exact parseChunkedBuf_refines parseChunkSize hfed.buffer hfed.state hfed.rewound hfed.window hfed.nonempty
      (by rw [hfed.length]; exact hbuf) hread hread0 hfit
  | stalled head =>
    obtain ⟨-, rfl⟩ := hcase.resolve_left (by simp)
    rw [takeChunked_line hfed.stop_ne]
    exact parseChunkedBuf_refines parseChunkSize hfed.buffer hfed.state hfed.rewound hfed.window hfed.nonempty
      (by rw [hfed.length]; exact hbuf) hread hread0 hfit
  | owing n =>
    rcases hcase with ⟨he, hn, rfl⟩ | ⟨hno, -⟩
    · cases he
      have hstop : stop = bs.length := by
        change bs.length = stop - 0 at hlen
        omega
      subst hstop
      exact takeOwed_refines hfed.buffer hfed.state hfed.rewound hfed.window hfed.nonempty hn hfit (hread _ _ rfl)
    · exact absurd rfl (hno n)

/-! ## A reader that serves a body -/

/-- The reader and its socket will hand out `left`, the rest of a body of `total`
    bytes, and then be `Completed(total)`; the script goes on with `after`. Each call
    lowers `w`. -/
inductive Serving (parseChunkSize : Bytes → ChunkStatus) (after : List ReadEv) (total : Nat) :
    BodyReader × Stream → Bytes → Nat → Prop
  | chunked {B : Chunked.Body} {rest buf toCome left : Bytes} {r : BodyReader} {s : Stream} {read : Nat} {d : Decoder} :
      (∀ l ∈ B.lines, Chunked.Recognizes parseChunkSize l) →
      (∀ l ∈ B.lines, l.text.length ≤ partialChunkHeadLimit) → (B.text ++ rest).length < usizeEnd →
      r.bodyBuffer = some buf → partialChunkHeadLimit < buf.length → buf.length < usizeEnd → r.Holds read buf d →
      Chunked.At B rest d toCome left → s.Carries toCome after → read + left.length = total → total < usizeEnd →
      Serving parseChunkSize after total (r, s) left (d.weight toCome.length)
  | partially {buf p toCome : Bytes} {r : BodyReader} {s : Stream} {read toRead : Nat} :
      r.readState = .partially read toRead → 0 < toRead → r.bodyBuffer = some buf → 0 < buf.length →
      r.rewindBufSize = p.length → slice 0 p.length buf = some p → s.Carries toCome after →
      toRead ≤ (p ++ toCome).length → read + toRead = total → total < usizeEnd →
      Serving parseChunkSize after total (r, s) ((p ++ toCome).take toRead) toRead
  | untilClosed {buf p toCome : Bytes} {r : BodyReader} {s : Stream} {read : Nat} {after' : List ReadEv} :
      r.readState = .http10 read → r.bodyBuffer = some buf → 0 < buf.length →
      r.rewindBufSize = p.length → slice 0 p.length buf = some p → s.Carries toCome after → after = .data [] :: after' →
      read + (p ++ toCome).length = total → total < usizeEnd →
      Serving parseChunkSize after total (r, s) (p ++ toCome) ((p ++ toCome).length + 1)

/-- What one call of a serving reader comes to. -/
inductive Served (parseChunkSize : Bytes → ChunkStatus) (after : List ReadEv) (total : Nat) (left : Bytes) (w : Nat) :
    Out (Option Offset) × BodyReader × Stream → Prop
  | none {r : BodyReader} {s : Stream} : left = [] → r.readState = .completed total →
      Served parseChunkSize after total left w (.ok none, r, s)
  | more {x left' : Bytes} {w' : Nat} {o : Offset} {r : BodyReader} {s : Stream} : r.getSlicedBody o = .ok x →
      left = x ++ left' → Serving parseChunkSize after total (r, s) left' w' → w' < w →
      Served parseChunkSize after total left w (.ok (some o), r, s)
  | last {o : Offset} {r : BodyReader} {s : Stream} : r.getSlicedBody o = .ok left → r.readState = .completed total →
      Served parseChunkSize after total left w (.ok (some o), r, s)

theorem getSlicedBody_of_get {r : BodyReader} {o : Offset} {buf x : Bytes} (hb : r.bodyBuffer = some buf)
    (h : o.get buf = some x) : r.getSlicedBody o = .ok x := by
  unfold getSlicedBody; rw [hb]; simp only [h]

variable {after : List ReadEv} {total : Nat}

theorem serving_isFinished {r : BodyReader} {s : Stream} {left : Bytes} {w : Nat}
    (h : Serving parseChunkSize after total (r, s) left w) : r.isFinished = false ∧ r.isStart = false := by
  cases h with
  | chunked _ _ _ _ _ _ hh =>
    obtain ⟨⟨_, _, _, h⟩, _⟩ := hh.state
    simp [isFinished, isStart, h]
  | partially h => simp [isFinished, isStart, h]
  | untilClosed h => simp [isFinished, isStart, h]

/-- A read has room to read. -/
theorem Holds.cap_pos {r : BodyReader} {read : Nat} {buf : Bytes} {d : Decoder} (h : Holds r read buf d)
    (hbuf : partialChunkHeadLimit < buf.length) (hrd : d.reads = true) : 0 < buf.length - d.held.length := by
  cases h with
  | fresh _ _ _ => simp only [Decoder.held]; rw [List.isEmpty_iff.mp hrd, List.length_nil]; omega
  | multi _ _ _ _ hp => exact absurd (List.isEmpty_iff.mp hrd) hp
  | stalled _ _ hlim => simp only [Decoder.held]; omega
  | owing => simp only [Decoder.held, List.length_nil]; omega

/-- However the bytes to come are cut, a decoder that must read finds some of them. -/
theorem Holds.feeds {r : BodyReader} {read : Nat} {buf toCome : Bytes} {d : Decoder} {s : Stream}
    (h : Holds r read buf d) (hbuf : partialChunkHeadLimit < buf.length) (hc : s.Carries toCome after)
    (hne : d.reads = true → toCome ≠ []) :
    ∃ bs toCome' s', toCome = bs ++ toCome' ∧ s'.Carries toCome' after ∧ s.SameWrites s' ∧
      Feeds buf.length d bs s s' ∧ (d.reads = true ↔ bs ≠ []) := by
  by_cases hrd : d.reads = true
  · obtain ⟨bs, toCome', s', h1, h2, h3, h4⟩ := hc.read (hne hrd) (h.cap_pos hbuf hrd)
    refine ⟨bs, toCome', s', h3, h4, (Stream.read_ok h1).2.2, ?_, by simp [hrd, h2]⟩
    rw [Feeds, if_pos hrd]
    exact ⟨h1, by simp [h2]⟩
  · refine ⟨[], toCome, s, rfl, hc, ⟨rfl, rfl⟩, ?_, by simp [hrd]⟩
    rw [Feeds, if_neg hrd]
    exact ⟨rfl, rfl⟩

/-- A call in chunked mode pulls from the decoder, with the bytes `bs` its read finds. -/
theorem chunked_pull {B : Chunked.Body} {rest buf bs toCome left : Bytes} {r : BodyReader} {s s' : Stream}
    {read : Nat} {d : Decoder} (hr : ∀ l ∈ B.lines, Chunked.Recognizes parseChunkSize l)
    (hT : (B.text ++ rest).length < usizeEnd) (hb : r.bodyBuffer = some buf) (hbuf : buf.length < usizeEnd)
    (hh : r.Holds read buf d) (hat : Chunked.At B rest d (bs ++ toCome) left) (hio : Feeds buf.length d bs s s')
    (hbs : d.reads = true ↔ bs ≠ []) (htot : read + left.length < usizeEnd) :
    ∃ buf' o r', r.readChunked parseChunkSize s = (o, r', s') ∧ buf'.length = buf.length ∧
      Gives read buf' (d.pull parseChunkSize partialChunkHeadLimit bs) (o, r') ∧
      Chunked.Pulled parseChunkSize partialChunkHeadLimit B rest toCome left (d.weight (bs ++ toCome).length)
        (d.pull parseChunkSize partialChunkHeadLimit bs) := by
  have hd := hh.state.2
  have hpull := hat.pull partialChunkHeadLimit hr hbs hd
  have hread : ∀ x d', d.pull parseChunkSize partialChunkHeadLimit bs = (.slice x, d') →
      read + x.length < usizeEnd := by
    intro x d' he
    rw [he] at hpull
    cases hpull with
    | slice hx _ _ =>
      have := congrArg List.length hx
      rw [List.length_append] at this; omega
  obtain ⟨buf', o, r', he, hlen, hg⟩ := readChunked_refines hb hh hbuf (by omega) (hat.fits hr hT hd) hread hio
  exact ⟨buf', o, r', he, hlen, hg, hpull⟩

/-- However the bytes to come are cut, a call pulls with some of them. -/
theorem chunked_step {B : Chunked.Body} {rest buf toCome left : Bytes} {r : BodyReader} {s : Stream}
    {read : Nat} {d : Decoder} (hr : ∀ l ∈ B.lines, Chunked.Recognizes parseChunkSize l)
    (hT : (B.text ++ rest).length < usizeEnd) (hb : r.bodyBuffer = some buf)
    (hbuf0 : partialChunkHeadLimit < buf.length) (hbuf : buf.length < usizeEnd)
    (hh : r.Holds read buf d) (hat : Chunked.At B rest d toCome left) (hc : s.Carries toCome after)
    (htot : read + left.length < usizeEnd) :
    ∃ bs toCome' buf' o r' s', r.readChunked parseChunkSize s = (o, r', s') ∧ s.SameWrites s' ∧
      toCome = bs ++ toCome' ∧ s'.Carries toCome' after ∧ buf'.length = buf.length ∧
      Gives read buf' (d.pull parseChunkSize partialChunkHeadLimit bs) (o, r') ∧
      Chunked.Pulled parseChunkSize partialChunkHeadLimit B rest toCome' left (d.weight toCome.length)
        (d.pull parseChunkSize partialChunkHeadLimit bs) := by
  obtain ⟨bs, toCome', s', rfl, hc', hsw, hio, hbs⟩ := hh.feeds hbuf0 hc hat.toCome_ne
  obtain ⟨buf', o, r', he, hlen, hg, hpull⟩ := chunked_pull hr hT hb hbuf hh hat hio hbs htot
  exact ⟨bs, toCome', buf', o, r', s', he, hsw, rfl, hc', hlen, hg, hpull⟩

theorem serving_chunked_step {B : Chunked.Body} {rest buf toCome left : Bytes} {r : BodyReader} {s : Stream}
    {read : Nat} {d : Decoder} (hr : ∀ l ∈ B.lines, Chunked.Recognizes parseChunkSize l)
    (hlim : ∀ l ∈ B.lines, l.text.length ≤ partialChunkHeadLimit) (hT : (B.text ++ rest).length < usizeEnd)
    (hb : r.bodyBuffer = some buf) (hbuf0 : partialChunkHeadLimit < buf.length) (hbuf : buf.length < usizeEnd)
    (hh : r.Holds read buf d) (hat : Chunked.At B rest d toCome left) (hc : s.Carries toCome after)
    (htot : read + left.length = total) (htot' : total < usizeEnd) :
    ∃ o r' s', r.readChunked parseChunkSize s = (o, r', s') ∧ s.SameWrites s' ∧
      Served parseChunkSize after total left (d.weight toCome.length) (o, r', s') := by
  obtain ⟨bs, toCome', buf', o, r', s', he, hsw, -, hc', hlen, hg, hpull⟩ :=
    chunked_step hr hT hb hbuf0 hbuf hh hat hc (by omega)
  refine ⟨o, r', s', he, hsw, ?_⟩
  generalize d.pull parseChunkSize partialChunkHeadLimit bs = res at hpull hg
  cases hpull with
  | done hl =>
    cases hg with
    | done hst => exact .none hl (by rw [hst]; simp [← htot, hl])
  | @slice x left' d' hl hat' hw =>
    cases hg with
    | @slice _ _ o _ hget hb' hh' =>
      have := congrArg List.length hl
      rw [List.length_append] at this
      exact .more (getSlicedBody_of_get hb' hget) hl
        (.chunked hr hlim hT hb' (by omega) (by omega) hh' hat' hc' (by omega) htot') hw
  | tooLong l hl hlen => have := hlim l hl; omega

/-- The bytes a fill brings: the preread `p` at first, then what the socket has. -/
theorem fill_carries {r : BodyReader} {s : Stream} {buf p toCome : Bytes} (hb : r.bodyBuffer = some buf)
    (hbuf : 0 < buf.length) (hrw : r.rewindBufSize = p.length) (hs : slice 0 p.length buf = some p)
    (hc : s.Carries toCome after) (hne : p ++ toCome ≠ []) :
    ∃ x toCome' buf' s', r.fill s = (.ok x.length, { r with rewindBufSize := 0, bodyBuffer := some buf' }, s') ∧
      x ≠ [] ∧ p ++ toCome = x ++ toCome' ∧ slice 0 x.length buf' = some x ∧ buf'.length = buf.length ∧
      s'.Carries toCome' after ∧ s.SameWrites s' := by
  by_cases hp : p = []
  · subst hp
    obtain ⟨x, toCome', s', h1, h2, h3, h4⟩ := hc.read (by simpa using hne) hbuf
    obtain ⟨-, hle, hsw⟩ := Stream.read_ok h1
    exact ⟨x, toCome', overwrite buf 0 x, s', fill_read hb hrw h1, h2, h3, slice_overwrite_zero hle,
      length_overwrite (by omega), h4, hsw⟩
  · have hpos := List.length_pos_of_ne_nil hp
    refine ⟨p, toCome, buf, s, ?_, hp, rfl, hs, rfl, hc, rfl, rfl⟩
    rw [fill_rewind hb (by omega), hrw, ← hb]

/-! ## What a fill is taken as -/

theorem takePartially_zero {r : BodyReader} {read toRead : Nat} (hst : r.readState = .partially read toRead) :
    r.takePartially 0 = (.err connectionClosed, { r with readState := .done read }) := by
  simp only [takePartially, hst, if_true]

/-- A fill that completes the body. -/
theorem takePartially_full {r : BodyReader} {read toRead n : Nat} (hst : r.readState = .partially read toRead)
    (h0 : n ≠ 0) (hfull : toRead ≤ n) (hfits : read + toRead < usizeEnd) :
    r.takePartially n = (.ok (some ⟨0, toRead⟩), { r with readState := .completed (read + toRead) }) := by
  simp only [takePartially, hst, if_neg h0, if_pos hfull, uadd_of_lt hfits, Option.bind_eq_bind, Option.bind_some,
    Offset.new, uadd_of_lt (show 0 + toRead < usizeEnd by omega), Option.map_some, Option.pure_def, give, Nat.zero_add]

/-- A fill that leaves some of the body to come. -/
theorem takePartially_some {r : BodyReader} {read toRead n : Nat} (hst : r.readState = .partially read toRead)
    (h0 : n ≠ 0) (hpart : ¬ toRead ≤ n) (hfits : read + n < usizeEnd) :
    r.takePartially n = (.ok (some ⟨0, n⟩), { r with readState := .partially (read + n) (toRead - n) }) := by
  simp only [takePartially, hst, if_neg h0, if_neg hpart, uadd_of_lt hfits, Option.bind_eq_bind, Option.bind_some,
    Offset.new, uadd_of_lt (show 0 + n < usizeEnd by omega), Option.map_some, Option.pure_def, give, Nat.zero_add]

theorem takeUntilClosed_zero {r : BodyReader} {read : Nat} (hst : r.readState = .http10 read) :
    r.takeUntilClosed 0 = (.ok none, { r with readState := .completed read }) := by
  simp only [takeUntilClosed, hst, if_true]

theorem takeUntilClosed_some {r : BodyReader} {read n : Nat} (hst : r.readState = .http10 read) (h0 : n ≠ 0)
    (hfits : read + n < usizeEnd) :
    r.takeUntilClosed n = (.ok (some ⟨0, n⟩), { r with readState := .http10 (read + n) }) := by
  simp only [takeUntilClosed, hst, if_neg h0, uadd_of_lt hfits, Option.bind_eq_bind, Option.bind_some, Offset.new,
    uadd_of_lt (show 0 + n < usizeEnd by omega), Option.map_some, Option.pure_def, give, Nat.zero_add]

/-! ## A call under a content length, and until the close -/

theorem serving_partially_step {buf p toCome : Bytes} {r : BodyReader} {s : Stream} {read toRead : Nat}
    (hst : r.readState = .partially read toRead) (h0 : 0 < toRead) (hb : r.bodyBuffer = some buf)
    (hbuf : 0 < buf.length) (hrw : r.rewindBufSize = p.length) (hs : slice 0 p.length buf = some p)
    (hc : s.Carries toCome after) (hle : toRead ≤ (p ++ toCome).length) (htot : read + toRead = total)
    (htot' : total < usizeEnd) :
    ∃ o r' s', r.readPartially s = (o, r', s') ∧ s.SameWrites s' ∧
      Served parseChunkSize after total ((p ++ toCome).take toRead) toRead (o, r', s') := by
  have hne : p ++ toCome ≠ [] := by intro e; rw [e, List.length_nil] at hle; omega
  obtain ⟨x, toCome', buf', s', hf, hx, hsplit, hsx, hlen, hc', hsw⟩ := fill_carries hb hbuf hrw hs hc hne
  have hxpos := List.length_pos_of_ne_nil hx
  have hxle := (slice_eq_some hsx).2.1
  unfold readPartially
  rw [hf]
  have hst' : { r with rewindBufSize := 0, bodyBuffer := some buf' }.readState = .partially read toRead := hst
  rw [hsplit] at hle ⊢
  rw [List.length_append] at hle
  by_cases hfull : toRead ≤ x.length
  · simp only [takePartially_full hst' (by omega) hfull (by omega)]
    refine ⟨_, _, _, rfl, hsw, .last (getSlicedBody_of_get rfl ?_) (by rw [htot])⟩
    rw [List.take_append_of_le_length hfull]
    exact slice_zero_take hsx hfull
  · simp only [takePartially_some hst' (by omega) hfull (by omega)]
    refine ⟨_, _, _, rfl, hsw, .more (getSlicedBody_of_get rfl hsx) ?_
      (.partially (p := []) rfl (by omega) rfl (by omega) rfl (slice_zero (Nat.zero_le _)) hc' ?_ (by omega) htot')
      (by omega)⟩
    · rw [List.take_append, List.take_of_length_le (by omega)]; rfl
    · simp only [List.nil_append]; omega

theorem serving_untilClosed_step {buf p toCome : Bytes} {r : BodyReader} {s : Stream} {read : Nat}
    {after' : List ReadEv} (hst : r.readState = .http10 read) (hb : r.bodyBuffer = some buf) (hbuf : 0 < buf.length)
    (hrw : r.rewindBufSize = p.length) (hs : slice 0 p.length buf = some p) (hc : s.Carries toCome after)
    (ha : after = .data [] :: after') (htot : read + (p ++ toCome).length = total) (htot' : total < usizeEnd) :
    ∃ o r' s', r.readUntilClosed s = (o, r', s') ∧ s.SameWrites s' ∧
      Served parseChunkSize after total (p ++ toCome) ((p ++ toCome).length + 1) (o, r', s') := by
  unfold readUntilClosed
  by_cases hne : p ++ toCome = []
  · obtain ⟨rfl, rfl⟩ := List.append_eq_nil_iff.mp hne
    have hin := Stream.carries_nil hc
    have hread : s.read buf.length = (.ok [], { s with input := after' }) := by
      unfold Stream.read; rw [hin, ha]; simp
    rw [fill_read hb hrw hread]
    have hst' : { r with rewindBufSize := 0, bodyBuffer := some (overwrite buf 0 []) }.readState = .http10 read := hst
    simp only [List.length_nil, takeUntilClosed_zero hst']
    exact ⟨_, _, _, rfl, ⟨rfl, rfl⟩, .none rfl (by simpa using htot)⟩
  · obtain ⟨x, toCome', buf', s', hf, hx, hsplit, hsx, hlen, hc', hsw⟩ := fill_carries hb hbuf hrw hs hc hne
    have hxpos := List.length_pos_of_ne_nil hx
    rw [hsplit, List.length_append] at htot
    rw [hf, hsplit, List.length_append]
    have hst' : { r with rewindBufSize := 0, bodyBuffer := some buf' }.readState = .http10 read := hst
    simp only [takeUntilClosed_some hst' (show x.length ≠ 0 by omega) (by omega)]
    refine ⟨_, _, _, rfl, hsw, .more (getSlicedBody_of_get rfl hsx) rfl
      (.untilClosed (p := []) rfl rfl (by omega) rfl (slice_zero (Nat.zero_le _)) hc' ha (by simpa using by omega)
        htot') (by simp only [List.nil_append]; omega)⟩

/-- A call of a serving reader hands out the next bytes of its body, or ends at the end. -/
theorem serving_step {r : BodyReader} {s : Stream} {left : Bytes} {w : Nat}
    (h : Serving parseChunkSize after total (r, s) left w) :
    ∃ o r' s', readBody parseChunkSize (r, s) = (o, r', s') ∧ s.SameWrites s' ∧
      Served parseChunkSize after total left w (o, r', s') := by
  unfold readBody
  cases h with
  | chunked h1 h2 h3 h4 h5 h6 h7 h8 h9 h10 h11 =>
    obtain ⟨⟨_, _, _, hst⟩, _⟩ := h7.state
    simp only [hst]
    exact serving_chunked_step h1 h2 h3 h4 h5 h6 h7 h8 h9 h10 h11
  | partially h1 h2 h3 h4 h5 h6 h7 h8 h9 h10 =>
    simp only [h1]
    exact serving_partially_step h1 h2 h3 h4 h5 h6 h7 h8 h9 h10
  | untilClosed h1 h2 h3 h4 h5 h6 h7 h8 h9 =>
    simp only [h1]
    exact serving_untilClosed_step h1 h2 h3 h4 h5 h6 h7 h8 h9

/-! ## Modes start serving -/

theorem memory_length (mem : Nat → Byte) : ∀ n i, (memory mem i n).length = n := by
  intro n
  induction n with
  | zero => intro i; rfl
  | succ n ih => intro i; simp [memory, ih]

/-- A buffer set on a reader: `p` is at its front, to be rewound. -/
theorem setBuffer_holds {r : BodyReader} {p : Bytes} (hrw : p = [] → r.rewindBufSize = 0) :
    ∃ buf, (r.setBuffer p).bodyBuffer = some buf ∧ buf.length = max r.bodySize p.length ∧
      (r.setBuffer p).rewindBufSize = p.length ∧ slice 0 p.length buf = some p := by
  refine ⟨_, rfl, ?_, ?_, ?_⟩
  · rw [List.length_append, memory_length]; omega
  · cases p with
    | nil => exact hrw rfl
    | cons b p => rfl
  · rw [slice_zero (by rw [List.length_append]; omega), List.take_left]

/-- What a session gives a mode: nothing left to rewind, and memory for a buffer. -/
structure Idle (r : BodyReader) : Prop where
  rewound : r.rewindBufSize = 0
  size : r.bodySize = bodyBufferSize

theorem idle_new (mem : Nat → Byte) : (new mem).Idle := ⟨rfl, rfl⟩

theorem serving_withChunkedRead {r : BodyReader} {s : Stream} {B : Chunked.Body} {p rest toCome : Bytes} (hi : r.Idle)
    (hr : ∀ l ∈ B.lines, Chunked.Recognizes parseChunkSize l)
    (hlim : ∀ l ∈ B.lines, l.text.length ≤ partialChunkHeadLimit) (hT : (B.text ++ rest).length < usizeEnd)
    (hsplit : p ++ toCome = B.text ++ rest) (hc : s.Carries toCome after) :
    ∃ w, Serving parseChunkSize after B.data.length (r.withChunkedRead p, s) B.data w := by
  obtain ⟨buf, hb, hlen, hrw, hs⟩ := setBuffer_holds (r := { r with readState := .chunked 0 0 0 0 }) (p := p) fun _ => hi.rewound
  rw [show BodyReader.bodySize { r with readState := .chunked 0 0 0 0 } = bodyBufferSize from hi.size] at hlen
  have hp := congrArg List.length hsplit
  rw [List.length_append] at hp
  have hdata := B.data_length_le
  rw [List.length_append] at hT hp
  refine ⟨_, .chunked hr hlim (by rw [List.length_append]; omega) hb ?_ ?_ (.fresh rfl hrw hs)
    (Chunked.at_start hsplit) hc (Nat.zero_add _) (by omega)⟩
  · rw [hlen]; unfold partialChunkHeadLimit bodyBufferSize; omega
  · rw [hlen]; unfold bodyBufferSize usizeEnd at *; omega

/-- Preread bytes that start no size line, or hold more of one than the limit, fail the
    first read in chunked mode. -/
theorem readBody_badLine {r : BodyReader} (hi : r.Idle) {p : Bytes} (hp : p ≠ [])
    (hbad : parseChunkSize p = .invalid ∨ parseChunkSize p = .incomplete ∧ partialChunkHeadLimit < p.length)
    (s : Stream) : ∃ e r', readBody parseChunkSize (r.withChunkedRead p, s) = (.err e, r', s) := by
  obtain ⟨buf, hb, -, hrw, hs⟩ := setBuffer_holds (r := { r with readState := .chunked 0 0 0 0 }) (p := p) fun _ => hi.rewound
  have hpos := List.length_pos_of_ne_nil hp
  have hr : readBody parseChunkSize (r.withChunkedRead p, s) = readChunked parseChunkSize (r.withChunkedRead p) s := rfl
  have hst : (r.withChunkedRead p).readState = .chunked 0 0 0 0 := rfl
  have hb' : (r.withChunkedRead p).bodyBuffer = some buf := hb
  have hrw' : (r.withChunkedRead p).rewindBufSize = p.length := hrw
  rw [hr]
  unfold readChunked fillChunked
  simp only [hst, if_true]
  rw [fill_rewind hb' (by omega), hrw']
  simp only [takeChunked, if_neg (show p.length ≠ 0 by omega), Nat.lt_irrefl, if_false, parseChunkedBuf, hb',
    Option.bind_some, hs]
  rcases hbad with hbad | ⟨hbad, hlen⟩
  · exact ⟨_, _, by simp only [hbad, enter, hst, ReadState.newBuf, ReadState.finishDone]; rfl⟩
  · exact ⟨_, _, by simp only [hbad, if_pos hlen, enter, hst, ReadState.newBuf, ReadState.finishDone]; rfl⟩

theorem serving_withContentLengthRead (parseChunkSize : Bytes → ChunkStatus) {r : BodyReader} {s : Stream} {p toCome : Bytes} {n : Nat} (hi : r.Idle)
    (h0 : 0 < n) (hn : n < usizeEnd) (hle : n ≤ (p ++ toCome).length) (hc : s.Carries toCome after) :
    Serving parseChunkSize after n (r.withContentLengthRead n p, s) ((p ++ toCome).take n) n := by
  obtain ⟨buf, hb, hlen, hrw, hs⟩ := setBuffer_holds (r := r) (p := p) fun _ => hi.rewound
  obtain ⟨n, rfl⟩ : ∃ k, n = k + 1 := ⟨n - 1, by omega⟩
  rw [hi.size] at hlen
  exact .partially rfl h0 hb (by rw [hlen]; unfold bodyBufferSize; omega) hrw hs hc hle (Nat.zero_add _) hn

theorem serving_withUntilClosedRead (parseChunkSize : Bytes → ChunkStatus) {r : BodyReader} {s : Stream} {p toCome : Bytes} {after' : List ReadEv}
    (hi : r.Idle) (hn : (p ++ toCome).length < usizeEnd) (hc : s.Carries toCome (.data [] :: after')) :
    Serving parseChunkSize (.data [] :: after') (p ++ toCome).length (r.withUntilClosedRead p, s) (p ++ toCome)
      ((p ++ toCome).length + 1) := by
  obtain ⟨buf, hb, hlen, hrw, hs⟩ := setBuffer_holds (r := r) (p := p) fun _ => hi.rewound
  rw [hi.size] at hlen
  exact .untilClosed rfl hb (by rw [hlen]; unfold bodyBufferSize; omega) hrw hs hc rfl (Nat.zero_add _) hn

/-! ## Runs of calls -/

/-- Calls of `read_body` until one returns `Ok(None)`: the slices handed out, and where
    the calls end. `none` when a call ends otherwise, or `fuel` calls are too few. -/
def readAll (parseChunkSize : Bytes → ChunkStatus) : Nat → BodyReader × Stream →
    Option (List Bytes × BodyReader × Stream)
  | 0, _ => none
  | fuel + 1, x =>
    match readBody parseChunkSize x with
    | (.ok none, x) => some ([], x)
    | (.ok (some o), x) =>
      match x.1.getSlicedBody o with
      | .ok bs => (readAll parseChunkSize fuel x).map fun (l, x) => (bs :: l, x)
      | _ => none
    | _ => none

theorem readAll_finished {r : BodyReader} {s : Stream} (h : r.readState = .completed total) (fuel : Nat) :
    readAll parseChunkSize (fuel + 1) (r, s) = some ([], r, s) := by
  unfold readAll readBody
  simp only [h]

theorem readAll_succ : ∀ (fuel : Nat) {x y : BodyReader × Stream} {l : List Bytes},
    readAll parseChunkSize fuel x = some (l, y) → readAll parseChunkSize (fuel + 1) x = some (l, y) := by
  intro fuel
  induction fuel with
  | zero => intro x y l h; cases h
  | succ fuel ih =>
    intro x y l h
    unfold readAll at h ⊢
    split at h
    · exact h
    · split at h
      · rw [Option.map_eq_some_iff] at h
        obtain ⟨⟨l', z⟩, hz, he⟩ := h
        rw [ih hz]; exact congrArg some he
      · cases h
    · cases h

theorem readAll_mono {w w' : Nat} (hw : w ≤ w') {x y : BodyReader × Stream} {l : List Bytes}
    (h : readAll parseChunkSize w x = some (l, y)) : readAll parseChunkSize w' x = some (l, y) := by
  induction hw with
  | refl => exact h
  | step _ ih => exact readAll_succ _ ih

/-- A serving reader hands out its body and completes. -/
theorem serving_readAll : ∀ (w : Nat) {r : BodyReader} {s : Stream} {left : Bytes},
    Serving parseChunkSize after total (r, s) left w →
    ∃ slices r' s', readAll parseChunkSize (w + 2) (r, s) = some (slices, r', s') ∧ slices.flatten = left ∧
      r'.readState = .completed total := by
  intro w
  induction w using Nat.strong_induction_on with
  | _ w ih =>
    intro r s left h
    obtain ⟨o, r', s', he, _, hd⟩ := serving_step h
    rw [readAll, he]
    cases hd with
    | none hl hst => exact ⟨[], r', s', rfl, hl.symm, hst⟩
    | @more x left' w' o r' s' hget hl hsv hw =>
      obtain ⟨slices, r'', s'', hrun, hfl, hst⟩ := ih w' hw hsv
      have hmono := readAll_mono (show w' + 2 ≤ w + 1 by omega) hrun
      simp only [hget, hmono, Option.map_some]
      exact ⟨_, _, _, rfl, by rw [List.flatten_cons, hfl, hl], hst⟩
    | @last o r' s' hget hst =>
      simp only [hget, readAll_finished hst, Option.map_some]
      exact ⟨_, _, _, rfl, by simp, hst⟩

/-- However a chunked body is split between the preread bytes and the reads, a fresh
    reader in chunked mode hands out its data and completes with its length. -/
theorem readAll_chunked (hparse : ∀ l, Chunked.Recognizes parseChunkSize l) (mem : Nat → Byte) (B : Chunked.Body)
    (rest : Bytes) (hlines : ∀ l ∈ B.lines, l.text.length ≤ partialChunkHeadLimit)
    (hfits : (B.text ++ rest).length < usizeEnd) (preread : Bytes) (reads : List Bytes)
    (hreads : ∀ x ∈ reads, x ≠ []) (hsplit : preread ++ reads.flatten = B.text ++ rest) (s : Stream)
    (after : List ReadEv) (hs : s.input = reads.map .data ++ after) :
    ∃ calls slices r s', readAll parseChunkSize calls ((new mem).withChunkedRead preread, s) = some (slices, r, s') ∧
      slices.flatten = B.data ∧ r.readState = .completed B.data.length := by
  obtain ⟨w, hw⟩ := serving_withChunkedRead (s := s) (idle_new mem) (fun l _ => hparse l)
    hlines hfits hsplit ⟨reads, hs, hreads, rfl⟩
  exact ⟨_, serving_readAll w hw⟩

/-- `1;x\r\na\r\n2\r\nbc\r\n0\r\n`. -/
def twoChunks : Chunked.Body where
  chunks := [⟨⟨ascii "1", ascii ";x", by decide, by decide, List.all_eq_true.mp (by decide),
      .inr ⟨[], ascii "x", by decide, nofun, fun b hb => by rw [List.mem_singleton.mp hb]; decide⟩⟩, ascii "a",
      by decide, by decide⟩,
    ⟨⟨ascii "2", [], by decide, by decide, List.all_eq_true.mp (by decide), Chunked.isExt_nil⟩, ascii "bc", by decide, by decide⟩]
  last := ⟨ascii "0", [], by decide, by decide, List.all_eq_true.mp (by decide), Chunked.isExt_nil⟩
  lastZero := by decide

theorem readAll_chunked_twoChunks :
    ∃ calls slices r s', readAll Chunked.parseSizeLine calls ((new fun _ => 0).withChunkedRead (ascii "1;"),
      ⟨[.data (ascii "x\r\na\r"), .data (ascii "\n2\r\nbc\r\n0\r\n\r\n")], [], []⟩) = some (slices, r, s') ∧
      slices.flatten = ascii "abc" ∧ r.readState = .completed 3 :=
  readAll_chunked Chunked.parse_recognizes (fun _ => 0) twoChunks (ascii "\r\n") (by decide) (by decide) (ascii "1;")
    [ascii "x\r\na\r", ascii "\n2\r\nbc\r\n0\r\n\r\n"] (by decide) (by decide) _ [] rfl

end BodyReader

end Glaive.Session
