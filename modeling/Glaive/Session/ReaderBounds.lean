/-
  Glaive.Session.ReaderBounds — the sums and the slices of the body reader in chunked
  mode, over any bytes (`core/src/session/reader.rs`: `read_chunked`,
  `parse_chunked_buf`; `offset.rs`: `Offset::new`).

  `parse_chunked_buf` adds a chunk's size to the index behind its line, and 2, unchecked
  ("TODO: Check chunk_size overflow"). `in_bounds_iff`: this is the one sum that goes
  wrong, the count of all data aside, and every other keeps to the buffer.
-/

import Mathlib.Logic.Relation
import Glaive.Session.Interruptions

namespace Glaive.Session

open Glaive.Lib
open Glaive.Lib.Chunked (ChunkStatus Decoder Pull Local IsLine LooseChunk looseWire looseSize Taken SizesFit)

/-- A slice has at most `isize::MAX` bytes. -/
def sliceEnd : Nat := 2 ^ 63

namespace BodyReader

variable {parseChunkSize : Bytes → ChunkStatus}

/-! ## A call -/

/-- A reader in a stream `bs`, of which its decoder has pulled `seen`. -/
structure Inside (parseChunkSize : Bytes → ChunkStatus) (bs : Bytes) (r : BodyReader) (s : Stream) (buf : Bytes)
    (d : Decoder) (seen : Bytes) (read : Nat) : Prop where
  between : Between r read buf d
  room : partialChunkHeadLimit < buf.length
  small : buf.length + 2 < usizeEnd
  taken : Taken parseChunkSize d seen read
  rest : seen ++ s.bytes = bs

variable {bs buf seen : Bytes} {r : BodyReader} {s : Stream} {d : Decoder} {read : Nat}

/-- The call of a reader with bytes to go by is the pull of its decoder. -/
theorem Inside.pull (hl : Local parseChunkSize) (hfit : SizesFit parseChunkSize bs)
    (h : Inside parseChunkSize bs r s buf d seen read) {x : Bytes} {s' : Stream} (hio : Feeds buf.length d x s s') :
    ∃ buf' o r', readBody parseChunkSize (r, s) = (o, r', s') ∧
      Gives read buf' (d.pull parseChunkSize partialChunkHeadLimit x) (o, r') ∧
      ∀ y d', d.pull parseChunkSize partialChunkHeadLimit x = (.slice y, d') → Holds r' (read + y.length) buf' d' →
        r'.bodyBuffer = some buf' → Inside parseChunkSize bs r' s' buf' d' (seen ++ x) (read + y.length) := by
  have hbytes := hio.bytes
  have hx : x.length + 2 < usizeEnd := by
    have : x.length ≤ buf.length := by
      unfold Feeds at hio
      split at hio
      · exact (Stream.read_ok hio.1).2.1.trans (Nat.sub_le _ _)
      · rw [hio.1]
        exact Nat.zero_le _
    have := h.small
    omega
  have hd := h.between.holds.state.2
  have hsplit : bs = seen ++ x ++ s'.bytes := by rw [← h.rest, hbytes, List.append_assoc]
  obtain ⟨hfits, hread⟩ := h.taken.fits hl partialChunkHeadLimit hd (hsplit ▸ hfit) hx
  obtain ⟨buf', o, r', hcall, hlen, hg⟩ := readChunked_refines h.between.buffer h.between.holds h.between.length
    h.between.read hfits hread hio
  refine ⟨buf', o, r', (h.between.holds.readBody_eq _ s).trans hcall, hg, fun y d' hpull hh hb => ?_⟩
  have hroom := h.room
  have hsmall := h.small
  have hlength := h.between.length
  exact ⟨⟨hb, hh, by omega, hread y d' hpull⟩, by omega, by omega,
    h.taken.pull hl _ hd hpull nofun, hsplit.symm⟩

/-- At the end of the input, with nothing held, the reader is done. -/
theorem Between.readChunked_end (parseChunkSize : Bytes → ChunkStatus) (h : Between r read buf d) (hrd : d.reads = true)
    (hheld : d.held = []) {s' : Stream} (hread : s.read buf.length = (.ok [], s')) :
    ∃ r', r.readChunked parseChunkSize s = (.err connectionClosed, r', s') ∧ r'.readState = .done read := by
  have hb := h.buffer
  have hlt := h.read
  have front : ∀ n, r.readState = .chunked read 0 0 n → r.rewindBufSize = 0 →
      ∃ r', r.readChunked parseChunkSize s = (.err connectionClosed, r', s') ∧ r'.readState = .done read := by
    intro n hst hrw
    simp only [readChunked, hst, if_true, fillChunked, fill_read hb hrw hread, ReadState.newBuf, List.length_nil,
      takeChunked, ReadState.finishDone, uadd_of_lt (show read + 0 < usizeEnd by omega), Option.map_some, enter]
    exact ⟨_, rfl, rfl⟩
  cases h.holds with
  | @fresh p hst hrw =>
    obtain rfl : p = [] := hheld
    exact front 0 hst hrw
  | @multi p _ _ _ _ _ _ hp => exact absurd (List.isEmpty_iff.mp hrd) hp
  | @stalled head _ _ hne => exact absurd hheld hne
  | owing hst _ hrw => exact front _ hst hrw

/-- What a call finds that comes to no error of the socket: bytes to go by, nothing yet,
    or the end of the input. -/
inductive Finds (parseChunkSize : Bytes → ChunkStatus) (r : BodyReader) (s : Stream) (read : Nat) (buf : Bytes)
    (d : Decoder) : Prop
  | feeds {x : Bytes} {s' : Stream} : Feeds buf.length d x s s' → s'.Errorless → Finds parseChunkSize r s read buf d
  | waits {r' : BodyReader} : r.readChunked parseChunkSize s = (.pending, r', s) → Finds parseChunkSize r s read buf d
  | ended {r' : BodyReader} {s' : Stream} : r.readChunked parseChunkSize s = (.err connectionClosed, r', s') →
      r'.readState = .done read → Finds parseChunkSize r s read buf d

theorem Between.finds (parseChunkSize : Bytes → ChunkStatus) (h : Between r read buf d)
    (hs : s.Errorless) : Finds parseChunkSize r s read buf d := by
  by_cases hrd : d.reads = true
  · rcases hread : s.read (buf.length - d.held.length) with ⟨o, s'⟩
    have hs' := hs.read hread
    cases o with
    | ok x =>
      by_cases hheld : d.held ++ x = []
      · obtain ⟨hnone, rfl⟩ := List.append_eq_nil_iff.mp hheld
        rw [hnone] at hread
        obtain ⟨r', hcall, hdone⟩ := h.readChunked_end parseChunkSize hrd hnone hread
        exact .ended hcall hdone
      · have hio : Feeds buf.length d x s s' := by
          rw [Feeds, if_pos hrd]
          exact ⟨hread, hheld⟩
        exact .feeds hio hs'.1
    | err e => exact absurd rfl (hs'.2 e)
    | pending =>
      obtain ⟨hin, rfl⟩ := read_pending hread
      rcases h.readChunked_cut parseChunkSize with ⟨hno, -⟩ | ⟨cap, hpending, -⟩
      · rw [hno] at hrd
        cases hrd
      · exact .waits (hpending _ _ (by simp only [Stream.read, hin]))
    | panic t => exact absurd hread (Stream.read_ne_panic _ _ _ _)
  · have hio : Feeds buf.length d [] s s := by
      rw [Feeds, if_neg hrd]
      exact ⟨rfl, rfl⟩
    exact .feeds hio hs

/-! ## What a call comes to -/

/-- No sum or difference of the call left `[0, 2^64)`, and what it hands out lies in the
    buffer. -/
def Sound (x : Out (Option Offset) × BodyReader × Stream) : Prop :=
  (∀ t, x.1 ≠ .panic t) ∧ ∀ o, x.1 = .ok (some o) →
    ∃ b bs, x.2.1.bodyBuffer = some b ∧ o.start ≤ o.stop ∧ o.stop ≤ b.length ∧ x.2.1.getSlicedBody o = .ok bs

/-- A reader in the middle of the stream `bs`, or at its end. -/
def Good (parseChunkSize : Bytes → ChunkStatus) (bs : Bytes) (x : BodyReader × Stream) : Prop :=
  (∃ buf d seen read, Inside parseChunkSize bs x.1 x.2 buf d seen read) ∧ x.2.Errorless ∨ x.1.isFinished = true

theorem isFinished_of_done {n : Nat} (h : r.readState = .done n) : r.isFinished = true := by
  simp only [isFinished, h]

theorem isFinished_of_completed {n : Nat} (h : r.readState = .completed n) : r.isFinished = true := by
  simp only [isFinished, h]

theorem readBody_finished (parseChunkSize : Bytes → ChunkStatus) (h : r.isFinished = true) (s : Stream) :
    readBody parseChunkSize (r, s) = (.ok none, r, s) := by
  cases hst : r.readState with
  | completed n => simp only [readBody, hst]
  | done n => simp only [readBody, hst]
  | start => simp only [isFinished, hst] at h; cases h
  | partially a b => simp only [isFinished, hst] at h; cases h
  | chunked a b c e => simp only [isFinished, hst] at h; cases h
  | http10 a => simp only [isFinished, hst] at h; cases h

/-- One call: what it hands out lies in the buffer, and it leaves a good reader, unless
    it waits. -/
theorem Good.call (hl : Local parseChunkSize) (hfit : SizesFit parseChunkSize bs) {x : BodyReader × Stream}
    (h : Good parseChunkSize bs x) :
    Sound (readBody parseChunkSize x) ∧
      ((readBody parseChunkSize x).1 ≠ .pending → Good parseChunkSize bs (readBody parseChunkSize x).2) := by
  obtain ⟨r, s⟩ := x
  rcases h with ⟨⟨buf, d, seen, read, h⟩, hs⟩ | hfin
  · cases h.between.finds parseChunkSize hs with
    | @feeds x s' hio hs' =>
      obtain ⟨buf', o, r', hcall, hg, hnext⟩ := h.pull hl hfit hio
      rw [hcall]
      generalize hpull : d.pull parseChunkSize partialChunkHeadLimit x = p at hg
      cases hg with
      | @slice y d' off _ hget hb hh =>
        obtain ⟨hle, hend, -⟩ := slice_eq_some hget
        refine ⟨⟨nofun, fun o ho => ?_⟩, fun _ => .inl ⟨⟨_, _, _, _, hnext y d' hpull hh hb⟩, hs'⟩⟩
        cases ho
        exact ⟨buf', y, hb, hle, hend, getSlicedBody_of_get hb hget⟩
      | done hst => exact ⟨⟨nofun, nofun⟩, fun _ => .inr (isFinished_of_completed hst)⟩
      | fail hst => exact ⟨⟨nofun, nofun⟩, fun _ => .inr (isFinished_of_done hst)⟩
    | waits hcall =>
      rw [h.between.holds.readBody_eq, hcall]
      exact ⟨⟨nofun, nofun⟩, fun hne => absurd rfl hne⟩
    | ended hcall hst =>
      rw [h.between.holds.readBody_eq, hcall]
      exact ⟨⟨nofun, nofun⟩, fun _ => .inr (isFinished_of_done hst)⟩
  · rw [readBody_finished parseChunkSize hfin s]
    exact ⟨⟨nofun, nofun⟩, fun _ => .inr hfin⟩

/-! ## Runs -/

/-- A call that returns, from a reader and its socket to what it leaves. -/
def Returns (parseChunkSize : Bytes → ChunkStatus) (x y : BodyReader × Stream) : Prop :=
  ∃ o, readBody parseChunkSize x = (o, y) ∧ o ≠ .pending

/-- However the stream `bs` is cut between the preread bytes and the reads, and whatever
    the memory held, every call of every run is sound. -/
def InBounds (parseChunkSize : Bytes → ChunkStatus) (bs : Bytes) : Prop :=
  ∀ (mem : Nat → Byte) (preread : Bytes) (s : Stream) (x : BodyReader × Stream), preread.length < sliceEnd →
    s.Errorless → preread ++ s.bytes = bs →
    Relation.ReflTransGen (Returns parseChunkSize) ((new mem).withChunkedRead preread, s) x →
    Sound (readBody parseChunkSize x)

/-- A fresh reader in chunked mode. -/
theorem inside_start (parseChunkSize : Bytes → ChunkStatus) (mem : Nat → Byte) (preread : Bytes)
    (hp : preread.length < sliceEnd) (s : Stream) :
    ∃ buf, Inside parseChunkSize (preread ++ s.bytes) ((new mem).withChunkedRead preread) s buf (.ready preread) preread
      0 := by
  obtain ⟨buf, hb, hlen, hrw, hs⟩ := setBuffer_holds (r := { new mem with readState := .chunked 0 0 0 0 })
    (p := preread) fun _ => rfl
  have hsize : buf.length = max bodyBufferSize preread.length := hlen
  refine ⟨buf, ⟨hb, .fresh rfl hrw hs, ?_, by decide⟩, ?_, ?_, .ready [], rfl⟩ <;>
    rw [hsize] <;> unfold bodyBufferSize
  · unfold sliceEnd at hp
    unfold usizeEnd
    omega
  · unfold partialChunkHeadLimit
    omega
  · unfold sliceEnd at hp
    unfold usizeEnd
    omega

theorem Good.run (hl : Local parseChunkSize) (hfit : SizesFit parseChunkSize bs) {x y : BodyReader × Stream}
    (h : Good parseChunkSize bs x) (hrun : Relation.ReflTransGen (Returns parseChunkSize) x y) :
    Good parseChunkSize bs y := by
  induction hrun with
  | refl => exact h
  | tail _ hstep ih =>
    obtain ⟨o, hcall, ho⟩ := hstep
    have := (ih.call hl hfit).2
    rw [hcall] at this
    exact this ho

/-! ## Every announced chunk is reached -/

theorem give_ok_or_panic (r : BodyReader) (x : Option (ReadState × Offset)) :
    (∃ o, (r.give x).1 = .ok (some o)) ∨ ∃ t, (r.give x).1 = .panic t := by
  cases x with
  | some y => exact .inl ⟨_, rfl⟩
  | none => exact .inr ⟨_, rfl⟩

variable {held tail : Bytes}

/-- With a size line at the front of what is held, a call comes to what `chunkAt` does. -/
theorem Between.readBody_line (h : Between r read buf (.ready held)) (hne : held ≠ []) {i n : Nat}
    (hp : parseChunkSize held = .complete i n) (hn : n ≠ 0) (s : Stream) :
    ∃ (r1 : BodyReader) (s0 start stop : Nat), readBody parseChunkSize (r, s) =
      ((r1.give (chunkAt (.chunked read s0 stop 0) start held.length i n)).1,
        (r1.give (chunkAt (.chunked read s0 stop 0) start held.length i n)).2, s) := by
  have hio : Feeds buf.length (.ready held) [] s s := by
    rw [Feeds, if_neg (by simp [Decoder.reads, hne])]
    exact ⟨rfl, rfl⟩
  obtain ⟨r1, buf1, start, stop, hfed⟩ := readChunked_fed parseChunkSize h.buffer h.holds h.length hio
  obtain ⟨expecting, hcall, hcase⟩ := hfed.call
  obtain ⟨-, rfl⟩ := hcase.resolve_left (by simp)
  obtain ⟨s0, hst1⟩ := hfed.state
  have hwindow := hfed.window
  rw [Decoder.held, List.append_nil] at hwindow
  have htake : r1.takeChunked parseChunkSize start stop 0 =
      r1.give (chunkAt (.chunked read s0 stop 0) start held.length i n) := by
    rw [takeChunked_line hfed.stop_ne, parseChunkedBuf, hfed.buffer, Option.bind_some, hwindow]
    simp only [hp, if_neg hn, hst1]
  rw [htake] at hcall
  exact ⟨r1, s0, start, stop, (h.holds.readBody_eq _ s).trans hcall⟩

/-- It overflows if the chunk ends past `2^64`. -/
theorem chunkAt_eq_none {st : ReadState} {start bufLen i n : Nat} (h : usizeEnd ≤ i + n + 2) :
    chunkAt st start bufLen i n = none := by
  unfold chunkAt
  by_cases hdata : i + n < usizeEnd
  · have hend : uadd (i + n) 2 = none := if_neg (Nat.not_lt.mpr h)
    simp only [uadd_of_lt hdata, Option.bind_eq_bind, Option.bind_some, hend, Option.bind_none]
  · have hend : uadd i n = none := if_neg hdata
    simp only [hend, Option.bind_eq_bind, Option.bind_none]

/-- With a size line at the front of what is held, a call that does not panic hands out
    what there is of its chunk, and the sums of it fit. -/
theorem Between.line (hl : Local parseChunkSize) (h : Between r read buf (.ready held)) (hne : held ≠ []) {i n : Nat}
    (hp : parseChunkSize held = .complete i n) (hn : n ≠ 0)
    (hno : ∀ t y, readBody parseChunkSize (r, s) ≠ (.panic t, y)) :
    i + n + 2 < usizeEnd ∧ read + min n (held.length - i) < usizeEnd ∧
      ∃ o r' buf', readBody parseChunkSize (r, s) = (.ok (some o), r', s) ∧ buf'.length = buf.length ∧
        Between r' (read + min n (held.length - i)) buf' (Chunked.settle (i + n + 2) held) := by
  have hbody := h.holds.readBody_eq parseChunkSize s
  have hpull : (Decoder.ready held).pull parseChunkSize partialChunkHeadLimit [] =
      (.slice ((held.drop i).take n), Chunked.settle (i + n + 2) held) := by
    simp only [Decoder.pull, List.append_nil, Chunked.takeLine, hp, if_neg hn]
  -- the call ends with an offset: it comes to one or to a sum that overflows
  obtain ⟨o, r', hcall⟩ : ∃ o r', r.readChunked parseChunkSize s = (.ok (some o), r', s) := by
    obtain ⟨r1, s0, start, stop, hcall⟩ := h.readBody_line hne hp hn s
    rcases give_ok_or_panic r1 (chunkAt (.chunked read s0 stop 0) start held.length i n) with ⟨o, ho⟩ | ⟨t, ht⟩
    · rw [hbody, ho] at hcall
      exact ⟨o, _, hcall⟩
    · rw [ht] at hcall
      exact absurd hcall (hno t _)
  obtain ⟨x, buf', hx, hlen, hfits, hg, hread⟩ := BodyReader.readChunked_ok hl h.buffer h.holds h.length h.read hcall
  rw [Feeds, if_neg (by simp [Decoder.reads, hne])] at hx
  obtain rfl : x = [] := hx.1
  have hsize : ((held.drop i).take n).length = min n (held.length - i) := by
    rw [List.length_take, List.length_drop]
  rw [hpull] at hg
  have hbound := hread _ _ hpull
  rw [hsize] at hbound
  refine ⟨(hfits i n (by rw [List.append_nil]; exact hp)).2 hn, hbound, o, r', buf', hbody.trans hcall, hlen, ?_⟩
  cases hg with
  | slice _ hb hh =>
    rw [hsize] at hh
    exact ⟨hb, hh, by rw [hlen]; exact h.length, hbound⟩

/-- Through the chunks a reader holds, if each call of it comes to no panic. -/
theorem Between.chunks (hl : Local parseChunkSize) {G : BodyReader × Stream → Prop}
    (hno : ∀ x t y, G x → readBody parseChunkSize x ≠ (.panic t, y))
    (hstep : ∀ x o y, G x → readBody parseChunkSize x = (.ok (some o), y) → G y)
    (cs : List (LooseChunk parseChunkSize)) :
    ∀ {r : BodyReader} {read : Nat} {buf : Bytes}, Between r read buf (.ready (looseWire cs ++ tail)) → G (r, s) →
      ∃ r' buf', G (r', s) ∧ buf'.length = buf.length ∧ Between r' (read + looseSize cs) buf' (.ready tail) := by
  induction cs with
  | nil =>
    intro r read buf h hG
    exact ⟨r, buf, hG, rfl, h⟩
  | cons c cs ih =>
    intro r read buf h hG
    have hpos := List.length_pos_of_ne_nil c.nonempty
    rw [Chunked.looseWire_cons, List.append_assoc] at h
    have hparse : parseChunkSize (c.text ++ (looseWire cs ++ tail)) = .complete c.line.length c.data.length := by
      rw [LooseChunk.text, List.append_assoc]
      exact hl.line_append c.isLine _
    have htext : c.text.length = c.line.length + c.data.length + 2 := by
      simp only [LooseChunk.text, List.length_append, c.gapSize]
      omega
    obtain ⟨-, -, o, r', buf', hcall, hlen, h'⟩ := h.line hl (s := s)
      (by intro e; rw [(List.append_eq_nil_iff.mp e).1, List.length_nil] at htext; omega) hparse (by omega)
      (fun t y => hno _ t y hG)
    have hsettle : Chunked.settle (c.line.length + c.data.length + 2) (c.text ++ (looseWire cs ++ tail)) =
        .ready (looseWire cs ++ tail) := by
      rw [← htext, ← Nat.add_zero c.text.length, Chunked.settle_append]
      rfl
    rw [hsettle, List.length_append, Nat.min_eq_left (by omega)] at h'
    obtain ⟨r'', buf'', hG', hlen', h''⟩ := ih h' (hstep _ _ _ hG hcall)
    refine ⟨r'', buf'', hG', hlen'.trans hlen, ?_⟩
    have hsize : looseSize (c :: cs) = c.data.length + looseSize cs := by simp [looseSize]
    rw [hsize, ← Nat.add_assoc]
    exact h''

/-- In the size lines a reader holds it finds no size that does not fit. -/
theorem Between.sizesFit (hl : Local parseChunkSize) (hnil : parseChunkSize [] = .incomplete)
    {G : BodyReader × Stream → Prop} (hno : ∀ x t y, G x → readBody parseChunkSize x ≠ (.panic t, y))
    (hstep : ∀ x o y, G x → readBody parseChunkSize x = (.ok (some o), y) → G y)
    (h : Between r 0 buf (.ready held)) (hG : G (r, s)) : SizesFit parseChunkSize held := by
  intro cs line rest size he hline hsize
  rw [he] at h
  obtain ⟨r', buf', hG', -, h'⟩ := h.chunks hl hno hstep cs hG
  have hne : line ++ rest ≠ [] := List.append_ne_nil_of_left_ne_nil (hline.nonempty hnil) rest
  obtain ⟨h1, h2, -⟩ := h'.line hl hne (hl.line_append hline rest) hsize (fun t y => hno _ t y hG')
  rw [List.length_append, Nat.add_sub_cancel_left, Nat.zero_add] at h2
  exact ⟨h1, h2⟩

/-! ## The bounds -/

/-- Every sum, every difference and every slice is in bounds, in every run over a
    stream, if from size line to size line the chunks announced end below `2^64`; and
    for a stream there can be in memory, only if they do. -/
theorem in_bounds_iff (hl : Local parseChunkSize) (hnil : parseChunkSize [] = .incomplete) (bs : Bytes) :
    (SizesFit parseChunkSize bs → InBounds parseChunkSize bs) ∧
      (bs.length < sliceEnd → InBounds parseChunkSize bs → SizesFit parseChunkSize bs) := by
  constructor
  · intro hfit mem preread s x hp hs he hrun
    subst he
    obtain ⟨buf, hstart⟩ := inside_start parseChunkSize mem preread hp s
    have hgood : Good parseChunkSize (preread ++ s.bytes) ((new mem).withChunkedRead preread, s) :=
      .inl ⟨⟨_, _, _, _, hstart⟩, hs⟩
    exact ((hgood.run hl hfit hrun).call hl hfit).1
  · intro hlen h
    let s : Stream := ⟨[], [], []⟩
    obtain ⟨buf, hstart⟩ := inside_start parseChunkSize (fun _ => 0) bs hlen s
    -- a reader whose runs are sound
    let G : BodyReader × Stream → Prop := fun x =>
      ∀ y, Relation.ReflTransGen (Returns parseChunkSize) x y → Sound (readBody parseChunkSize y)
    have hG : G ((new fun _ => 0).withChunkedRead bs, s) := fun y hrun =>
      h (fun _ => 0) bs s y hlen nofun (List.append_nil bs) hrun
    refine hstart.between.sizesFit hl hnil (G := G) ?_ ?_ hG
    · intro x t y hx he
      exact (hx x .refl).1 t (by rw [he])
    · intro x o y hx he z hz
      exact hx z (.head ⟨_, he, nofun⟩ hz)

/-- The first two bytes of a chunk of five: no chunk is whole. -/
theorem fiveAnnounced_cut {cs : List (LooseChunk Chunked.parseSizeLine)} {rest : Bytes}
    (h : ascii "5\r\nab" = looseWire cs ++ rest) : cs = [] := by
  have hp : Chunked.parseSizeLine (ascii "5\r\nab") = .complete 3 5 := by decide
  have hlen : (ascii "5\r\nab").length = 5 := by decide
  cases cs with
  | nil => rfl
  | cons c cs =>
    have hp' := Chunked.parseSizeLine_local.line_append c.isLine (c.data ++ c.gap ++ (looseWire cs ++ rest))
    rw [← List.append_assoc, ← LooseChunk.text, ← List.append_assoc, ← Chunked.looseWire_cons, ← h, hp] at hp'
    rw [h, Chunked.looseWire_cons, LooseChunk.text] at hlen
    simp only [List.length_append] at hlen
    injection hp' with h1 h2
    omega

theorem fiveAnnounced_sizesFit : SizesFit Chunked.parseSizeLine (ascii "5\r\nab") := by
  intro cs line rest size he hline _
  have hp : Chunked.parseSizeLine (ascii "5\r\nab") = .complete 3 5 := by decide
  have hlen : (ascii "5\r\nab").length = 5 := by decide
  obtain rfl := fiveAnnounced_cut he
  have hp' := Chunked.parseSizeLine_local.line_append hline rest
  rw [Chunked.looseWire_nil, List.nil_append] at he
  rw [← he, hp] at hp'
  injection hp' with h1 h2
  rw [he, List.length_append] at hlen
  unfold usizeEnd looseSize
  rw [List.map_nil, List.sum_nil]
  omega

theorem in_bounds_fiveAnnounced : InBounds Chunked.parseSizeLine (ascii "5\r\nab") :=
  (in_bounds_iff Chunked.parseSizeLine_local (by decide) _).1 fiveAnnounced_sizesFit

/-- `FFFFFFFFFFFFFFFF`, a size line that there can be: the end of its chunk is past
    `2^64`. -/
theorem in_bounds_largestSize :
    (∃ y, readBody Chunked.parseSizeLine ((new fun _ => 0).withChunkedRead (ascii "FFFFFFFFFFFFFFFF\r\n"), ⟨[], [], []⟩) =
      (.panic "attempt to add with overflow", y)) ∧
    ¬ InBounds Chunked.parseSizeLine (ascii "FFFFFFFFFFFFFFFF\r\n") := by
  have hp : Chunked.parseSizeLine (ascii "FFFFFFFFFFFFFFFF\r\n") = .complete 18 (2 ^ 64 - 1) := by decide
  have hcall : ∃ y, readBody Chunked.parseSizeLine
      ((new fun _ => 0).withChunkedRead (ascii "FFFFFFFFFFFFFFFF\r\n"), ⟨[], [], []⟩) =
        (.panic "attempt to add with overflow", y) := by
    obtain ⟨buf, h⟩ := inside_start Chunked.parseSizeLine (fun _ => 0) (ascii "FFFFFFFFFFFFFFFF\r\n")
      (by decide) ⟨[], [], []⟩
    obtain ⟨r1, s0, start, stop, hcall⟩ := h.between.readBody_line (by decide) hp (by decide) ⟨[], [], []⟩
    rw [chunkAt_eq_none (show usizeEnd ≤ 18 + (2 ^ 64 - 1) + 2 by decide)] at hcall
    exact ⟨_, hcall⟩
  refine ⟨hcall, fun h => ?_⟩
  obtain ⟨y, hy⟩ := hcall
  have hsound := h (fun _ => 0) (ascii "FFFFFFFFFFFFFFFF\r\n") ⟨[], [], []⟩ _ (by decide) nofun (List.append_nil _) .refl
  exact hsound.1 _ (congrArg Prod.fst hy)

end BodyReader

end Glaive.Session
