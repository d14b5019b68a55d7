/-
  Glaive.Session.PlainReading — bodies that are read as they come, under a content
  length or until the connection closes (`core/src/session/reader.rs`:
  `read_partially`, `read_until_closed`).

  `Stocked` is the bytes a reader and its socket still have between them, preread or
  not; a call takes some off the front (`Stocked.fill`). From that each run is an
  induction on how many there are: they suffice for the length, or the input ends
  before, or it ends and is the body.
-/

import Glaive.Session.ReaderBounds

namespace Glaive.Session

open Glaive.Lib
open Glaive.Lib.Chunked (ChunkStatus)

namespace BodyReader

variable {parseChunkSize : Bytes → ChunkStatus}

/-! ## Calls that hand out slices -/

/-- Successive calls of `read_body`, each of which hands out a slice. -/
inductive Yields (parseChunkSize : Bytes → ChunkStatus) :
    BodyReader × Stream → List Bytes → BodyReader × Stream → Prop
  | nil (x : BodyReader × Stream) : Yields parseChunkSize x [] x
  | cons {x y z : BodyReader × Stream} {o : Offset} {bs : Bytes} {slices : List Bytes} :
      readBody parseChunkSize x = (.ok (some o), y) → y.1.getSlicedBody o = .ok bs →
      Yields parseChunkSize y slices z → Yields parseChunkSize x (bs :: slices) z

/-! ## What a reader and its socket hold -/

/-- The preread bytes and those the socket gives next are `bs`; the script goes on with
    `after`. -/
def Stocked (r : BodyReader) (s : Stream) (bs : Bytes) (after : List ReadEv) : Prop :=
  ∃ buf p toCome, r.bodyBuffer = some buf ∧ 0 < buf.length ∧ r.rewindBufSize = p.length ∧
    slice 0 p.length buf = some p ∧ s.Carries toCome after ∧ bs = p ++ toCome

variable {after : List ReadEv} {r : BodyReader} {s : Stream} {bs : Bytes}

/-- A fill takes some of the bytes off the front, and they stand at the front of the
    buffer. -/
theorem Stocked.fill (h : Stocked r s bs after) (hne : bs ≠ []) :
    ∃ x bs' buf s', r.fill s = (.ok x.length, { r with rewindBufSize := 0, bodyBuffer := some buf }, s') ∧ x ≠ [] ∧
      bs = x ++ bs' ∧ (∀ k, k ≤ x.length → slice 0 k buf = some (x.take k)) ∧
      ∀ st, Stocked { r with rewindBufSize := 0, bodyBuffer := some buf, readState := st } s' bs' after := by
  obtain ⟨buf, p, toCome, hb, hpos, hrw, hs, hc, rfl⟩ := h
  obtain ⟨x, bs', buf', s', hf, hx, hsplit, hsx, hlen, hc', -⟩ := fill_carries hb hpos hrw hs hc hne
  refine ⟨x, bs', buf', s', hf, hx, hsplit, ?_, ?_⟩
  · exact fun k hk => slice_zero_take hsx hk
  · intro st
    exact ⟨buf', [], bs', rfl, by omega, rfl, slice_zero (Nat.zero_le _), hc', rfl⟩

/-- With none left, a fill finds the end of the input. -/
theorem Stocked.fill_end (h : Stocked r s [] (.data [] :: after)) :
    ∃ buf s', r.fill s = (.ok 0, { r with rewindBufSize := 0, bodyBuffer := some buf }, s') := by
  obtain ⟨buf, p, toCome, hb, -, hrw, -, hc, he⟩ := h
  obtain ⟨rfl, rfl⟩ := List.append_eq_nil_iff.mp he.symm
  have hin := Stream.carries_nil hc
  have hread : s.read buf.length = (.ok [], { s with input := after }) := by
    unfold Stream.read
    rw [hin]
    simp
  exact ⟨_, _, fill_read hb hrw hread⟩

/-- A mode call leaves the preread bytes at the front. -/
theorem stocked_setBuffer {p toCome : Bytes} (hi : r.Idle) (hc : s.Carries toCome after) (st : ReadState) :
    Stocked { r.setBuffer p with readState := st } s (p ++ toCome) after := by
  obtain ⟨buf, hb, hlen, hrw, hs⟩ := setBuffer_holds (r := r) (p := p) fun _ => hi.rewound
  refine ⟨buf, p, toCome, hb, ?_, hrw, hs, hc, rfl⟩
  rw [hlen, hi.size]
  unfold bodyBufferSize
  omega

/-! ## Under a content length -/

/-- One call: the bytes it takes are all handed out, up to the length. -/
theorem Stocked.partially_call (h : Stocked r s bs after) (hne : bs ≠ []) {read toRead : Nat}
    (hst : r.readState = .partially read toRead) (hfits : read + toRead < usizeEnd) :
    ∃ x bs' o r' s', x ≠ [] ∧ bs = x ++ bs' ∧ readBody parseChunkSize (r, s) = (.ok (some o), r', s') ∧
      r'.getSlicedBody o = .ok (x.take toRead) ∧ Stocked r' s' bs' after ∧
      r'.readState = if toRead ≤ x.length then .completed (read + toRead)
        else .partially (read + x.length) (toRead - x.length) := by
  obtain ⟨x, bs', buf, s', hf, hx, hsplit, hget, hnext⟩ := h.fill hne
  have hpos := List.length_pos_of_ne_nil hx
  have hcall : readBody parseChunkSize (r, s) = r.readPartially s := by simp only [readBody, hst]
  rw [hcall]
  unfold readPartially
  rw [hf]
  have hst' : { r with rewindBufSize := 0, bodyBuffer := some buf }.readState = .partially read toRead := hst
  by_cases hfull : toRead ≤ x.length
  · simp only [takePartially_full hst' (by omega) hfull hfits]
    exact ⟨x, bs', _, _, _, hx, hsplit, rfl, getSlicedBody_of_get rfl (hget toRead hfull), hnext _, (if_pos hfull).symm⟩
  · simp only [takePartially_some hst' (by omega) hfull (by omega)]
    refine ⟨x, bs', _, _, _, hx, hsplit, rfl, getSlicedBody_of_get rfl ?_, hnext _, (if_neg hfull).symm⟩
    rw [List.take_of_length_le (by omega)]
    have := hget x.length (Nat.le_refl _)
    rwa [List.take_length] at this

/-- Enough bytes: the first `toRead` are handed out and the reader is complete. -/
theorem Stocked.partially_full : ∀ (n : Nat) {r : BodyReader} {s : Stream} {bs : Bytes} {read toRead : Nat},
    bs.length = n → Stocked r s bs after → r.readState = .partially read toRead → 0 < toRead → toRead ≤ bs.length →
    read + toRead < usizeEnd →
    ∃ slices r' s', Yields parseChunkSize (r, s) slices (r', s') ∧ slices.flatten = bs.take toRead ∧
      r'.readState = .completed (read + toRead) := by
  intro n
  induction n using Nat.strong_induction_on with
  | _ n ih =>
    intro r s bs read toRead hn h hst h0 hle hfits
    have hne : bs ≠ [] := by intro e; rw [e, List.length_nil] at hle; omega
    obtain ⟨x, bs', o, r', s', hx, rfl, hcall, hget, hnext, hst'⟩ := h.partially_call hne hst hfits
    have hpos := List.length_pos_of_ne_nil hx
    rw [List.length_append] at hn hle
    by_cases hfull : toRead ≤ x.length
    · rw [if_pos hfull] at hst'
      refine ⟨[x.take toRead], r', s', .cons hcall hget (.nil _), ?_, hst'⟩
      rw [List.flatten_singleton, List.take_append_of_le_length hfull]
    · rw [if_neg hfull] at hst'
      obtain ⟨slices, r'', s'', hrun, hfl, hst''⟩ := ih bs'.length (by omega) rfl hnext hst' (by omega) (by omega) (by omega)
      refine ⟨x.take toRead :: slices, r'', s'', .cons hcall hget hrun, ?_, ?_⟩
      · rw [List.flatten_cons, hfl, List.take_append]
      · rw [hst'', show read + x.length + (toRead - x.length) = read + toRead by omega]

/-- Too few: all of them are handed out, and then the reader fails once. -/
theorem Stocked.partially_short : ∀ (n : Nat) {r : BodyReader} {s : Stream} {bs : Bytes} {read toRead : Nat},
    bs.length = n → Stocked r s bs (.data [] :: after) → r.readState = .partially read toRead → bs.length < toRead →
    read + toRead < usizeEnd →
    ∃ slices y e r' s', Yields parseChunkSize (r, s) slices y ∧ slices.flatten = bs ∧
      readBody parseChunkSize y = (.err e, r', s') ∧ r'.readState = .done (read + bs.length) := by
  intro n
  induction n using Nat.strong_induction_on with
  | _ n ih =>
    intro r s bs read toRead hn h hst hlt hfits
    by_cases hne : bs = []
    · subst hne
      obtain ⟨buf, s', hf⟩ := h.fill_end
      have hcall : readBody parseChunkSize (r, s) = r.readPartially s := by simp only [readBody, hst]
      obtain ⟨r', herr, hst'⟩ : ∃ r', r.readPartially s = (.err connectionClosed, r', s') ∧ r'.readState = .done read := by
        unfold readPartially
        rw [hf]
        have hst' : { r with rewindBufSize := 0, bodyBuffer := some buf }.readState = .partially read toRead := hst
        simp only [takePartially_zero hst']
        exact ⟨_, rfl, rfl⟩
      exact ⟨[], (r, s), connectionClosed, r', s', .nil _, rfl, hcall.trans herr, hst'⟩
    · obtain ⟨x, bs', o, r', s', hx, rfl, hcall, hget, hnext, hst'⟩ := h.partially_call hne hst hfits
      have hpos := List.length_pos_of_ne_nil hx
      rw [List.length_append] at hn hlt
      rw [if_neg (by omega)] at hst'
      obtain ⟨slices, y, e, r'', s'', hrun, hfl, herr, hst''⟩ :=
        ih bs'.length (by omega) rfl hnext hst' (by omega) (by omega)
      refine ⟨x.take toRead :: slices, y, e, r'', s'', .cons hcall hget hrun, ?_, herr, ?_⟩
      · rw [List.flatten_cons, hfl, List.take_of_length_le (by omega)]
      · rw [hst'', List.length_append, Nat.add_assoc]

/-! ## Until the connection closes -/

theorem Stocked.untilClosed_call (h : Stocked r s bs after) (hne : bs ≠ []) {read : Nat}
    (hst : r.readState = .http10 read) (hfits : read + bs.length < usizeEnd) :
    ∃ x bs' o r' s', x ≠ [] ∧ bs = x ++ bs' ∧ readBody parseChunkSize (r, s) = (.ok (some o), r', s') ∧
      r'.getSlicedBody o = .ok x ∧ Stocked r' s' bs' after ∧ r'.readState = .http10 (read + x.length) := by
  obtain ⟨x, bs', buf, s', hf, hx, hsplit, hget, hnext⟩ := h.fill hne
  have hpos := List.length_pos_of_ne_nil hx
  have hcall : readBody parseChunkSize (r, s) = r.readUntilClosed s := by simp only [readBody, hst]
  rw [hsplit, List.length_append] at hfits
  have hfull := hget x.length (Nat.le_refl _)
  rw [List.take_length] at hfull
  rw [hcall]
  unfold readUntilClosed
  rw [hf]
  have hst' : { r with rewindBufSize := 0, bodyBuffer := some buf }.readState = .http10 read := hst
  simp only [takeUntilClosed_some hst' (show x.length ≠ 0 by omega) (by omega)]
  exact ⟨x, bs', _, _, _, hx, hsplit, rfl, getSlicedBody_of_get rfl hfull, hnext _, rfl⟩

theorem Stocked.untilClosed_run : ∀ (n : Nat) {r : BodyReader} {s : Stream} {bs : Bytes} {read : Nat},
    bs.length = n → Stocked r s bs (.data [] :: after) → r.readState = .http10 read → read + bs.length < usizeEnd →
    ∃ slices y r' s', Yields parseChunkSize (r, s) slices y ∧ slices.flatten = bs ∧
      readBody parseChunkSize y = (.ok none, r', s') ∧ r'.readState = .completed (read + bs.length) := by
  intro n
  induction n using Nat.strong_induction_on with
  | _ n ih =>
    intro r s bs read hn h hst hfits
    by_cases hne : bs = []
    · subst hne
      obtain ⟨buf, s', hf⟩ := h.fill_end
      have hcall : readBody parseChunkSize (r, s) = r.readUntilClosed s := by simp only [readBody, hst]
      obtain ⟨r', hend, hst'⟩ : ∃ r', r.readUntilClosed s = (.ok none, r', s') ∧ r'.readState = .completed read := by
        unfold readUntilClosed
        rw [hf]
        have hst' : { r with rewindBufSize := 0, bodyBuffer := some buf }.readState = .http10 read := hst
        simp only [takeUntilClosed_zero hst']
        exact ⟨_, rfl, rfl⟩
      exact ⟨[], (r, s), r', s', .nil _, rfl, hcall.trans hend, hst'⟩
    · obtain ⟨x, bs', o, r', s', hx, rfl, hcall, hget, hnext, hst'⟩ := h.untilClosed_call hne hst hfits
      have hpos := List.length_pos_of_ne_nil hx
      rw [List.length_append] at hn hfits
      obtain ⟨slices, y, r'', s'', hrun, hfl, hend, hst''⟩ := ih bs'.length (by omega) rfl hnext hst' (by omega)
      refine ⟨x :: slices, y, r'', s'', .cons hcall hget hrun, ?_, hend, ?_⟩
      · rw [List.flatten_cons, hfl]
      · rw [hst'', List.length_append, Nat.add_assoc]

/-! ## Fresh readers -/

/-- However the bytes are cut between the preread ones and the reads, a fresh reader
    hands out exactly the first `n` of them and is `Completed(n)`, if there are as many;
    else all `m` of them, then one `Err`, and is `Done(m)`. Until the connection closes
    it hands out all of them. A finished reader returns `Ok(None)` ever after. -/
theorem reads_exactly (parseChunkSize : Bytes → ChunkStatus) (mem : Nat → Byte) (preread : Bytes) (reads : List Bytes)
    (hreads : ∀ x ∈ reads, x ≠ []) (after : List ReadEv) (s : Stream) (hs : s.input = reads.map .data ++ after) :
    (∀ n, n < usizeEnd → n ≤ (preread ++ reads.flatten).length →
      ∃ slices r s', Yields parseChunkSize ((new mem).withContentLengthRead n preread, s) slices (r, s') ∧
        slices.flatten = (preread ++ reads.flatten).take n ∧ r.readState = .completed n ∧
        ∀ t, readBody parseChunkSize (r, t) = (.ok none, r, t)) ∧
    (∀ n after', n < usizeEnd → (preread ++ reads.flatten).length < n → after = .data [] :: after' →
      ∃ slices y e r s', Yields parseChunkSize ((new mem).withContentLengthRead n preread, s) slices y ∧
        slices.flatten = preread ++ reads.flatten ∧ readBody parseChunkSize y = (.err e, r, s') ∧
        r.readState = .done (preread ++ reads.flatten).length ∧
        ∀ t, readBody parseChunkSize (r, t) = (.ok none, r, t)) ∧
    (∀ after', (preread ++ reads.flatten).length < usizeEnd → after = .data [] :: after' →
      ∃ slices y r s', Yields parseChunkSize ((new mem).withUntilClosedRead preread, s) slices y ∧
        slices.flatten = preread ++ reads.flatten ∧ readBody parseChunkSize y = (.ok none, r, s') ∧
        r.readState = .completed (preread ++ reads.flatten).length) := by
  have hc : s.Carries reads.flatten after := ⟨reads, hs, hreads, rfl⟩
  have hstart : ∀ st, Stocked { (new mem).setBuffer preread with readState := st } s (preread ++ reads.flatten) after :=
    stocked_setBuffer (idle_new mem) hc
  have hlength : ∀ n, 0 < n → (new mem).withContentLengthRead n preread =
      { (new mem).setBuffer preread with readState := .partially 0 n } := by
    intro n hn
    obtain ⟨k, rfl⟩ : ∃ k, n = k + 1 := ⟨n - 1, by omega⟩
    rfl
  refine ⟨?_, ?_, ?_⟩
  · intro n hn hle
    by_cases h0 : n = 0
    · subst h0
      exact ⟨[], _, s, .nil _, rfl, rfl, readBody_finished _ rfl⟩
    · rw [hlength n (by omega)]
      obtain ⟨slices, r, s', hrun, hfl, hst⟩ :=
        (hstart (.partially 0 n)).partially_full _ rfl rfl (by omega) hle (by omega)
      rw [Nat.zero_add] at hst
      exact ⟨slices, r, s', hrun, hfl, hst, readBody_finished _ (isFinished_of_completed hst)⟩
  · intro n after' hn hlt ha
    subst ha
    rw [hlength n (by omega)]
    obtain ⟨slices, y, e, r, s', hrun, hfl, herr, hst⟩ :=
      (hstart (.partially 0 n)).partially_short _ rfl rfl hlt (by omega)
    rw [Nat.zero_add] at hst
    exact ⟨slices, y, e, r, s', hrun, hfl, herr, hst, readBody_finished _ (isFinished_of_done hst)⟩
  · intro after' hfits ha
    subst ha
    obtain ⟨slices, y, r, s', hrun, hfl, hend, hst⟩ :=
      (hstart (.http10 0)).untilClosed_run _ rfl rfl (by omega)
    rw [Nat.zero_add] at hst
    exact ⟨slices, y, r, s', hrun, hfl, hend, hst⟩

/-- Five bytes, two of them preread: four are asked for, then seven, then all. -/
theorem reads_exactly_five :
    (∃ slices r s', Yields Chunked.parseSizeLine ((new fun _ => 0).withContentLengthRead 4 (ascii "ab"),
        ⟨[.data (ascii "cd"), .data (ascii "e"), .data []], [], []⟩) slices (r, s') ∧
      slices.flatten = ascii "abcd" ∧ r.readState = .completed 4 ∧
      ∀ t, readBody Chunked.parseSizeLine (r, t) = (.ok none, r, t)) ∧
    (∃ slices y e r s', Yields Chunked.parseSizeLine ((new fun _ => 0).withContentLengthRead 7 (ascii "ab"),
        ⟨[.data (ascii "cd"), .data (ascii "e"), .data []], [], []⟩) slices y ∧
      slices.flatten = ascii "abcde" ∧ readBody Chunked.parseSizeLine y = (.err e, r, s') ∧ r.readState = .done 5 ∧
      ∀ t, readBody Chunked.parseSizeLine (r, t) = (.ok none, r, t)) ∧
    ∃ slices y r s', Yields Chunked.parseSizeLine ((new fun _ => 0).withUntilClosedRead (ascii "ab"),
        ⟨[.data (ascii "cd"), .data (ascii "e"), .data []], [], []⟩) slices y ∧
      slices.flatten = ascii "abcde" ∧ readBody Chunked.parseSizeLine y = (.ok none, r, s') ∧
      r.readState = .completed 5 := by
  have h := reads_exactly Chunked.parseSizeLine (fun _ => 0) (ascii "ab") [ascii "cd", ascii "e"] (by decide) [.data []]
    ⟨[.data (ascii "cd"), .data (ascii "e"), .data []], [], []⟩ rfl
  exact ⟨h.1 4 (by decide) (by decide), h.2.1 7 [] (by decide) (by decide) rfl, h.2.2 [] (by decide) rfl⟩

end BodyReader

end Glaive.Session
