/-
  Glaive.Session.ChunksLeft — the data a session may still read of a chunked body
  (`core/src/session/reader.rs`: `read_chunked`).

  As long as the bytes that come are a chunked body, a call hands out a front of the data
  that is left, and says that the body is over when none is (`ChunksLeft.next`). A call
  that is dropped leaves a steady reader where it stands.
-/

import Glaive.Session.Interruptions

namespace Glaive.Session

open Glaive.Lib
open Glaive.Lib.Chunked (Body ChunkStatus Decoder Local At Pulled Recognizes)

/-- `bs` begins with the chunked body `B`, and the parser takes its size lines for what
    they are. -/
structure IsChunked (parseChunkSize : Bytes → ChunkStatus) (bs : Bytes) (B : Body) (after : Bytes) : Prop where
  parser : Local parseChunkSize
  text : bs = B.text ++ after
  lines : ∀ l ∈ B.lines, Recognizes parseChunkSize l

namespace BodyReader

/-- The reader stands in the body `B`, and has this of its data to hand out. -/
inductive ChunksLeft (B : Body) (after : Bytes) (r : BodyReader) (s : Stream) : Bytes → Prop
  | within {read : Nat} {buf left : Bytes} {d : Decoder} : Between r read buf d → At B after d s.bytes left →
      ChunksLeft B after r s left
  | finished : r.isFinished = true → ChunksLeft B after r s []

variable {parseChunkSize : Bytes → ChunkStatus} {B : Body} {bs after left : Bytes} {r r' : BodyReader} {s s' : Stream}

theorem Between.unfinished {read : Nat} {buf : Bytes} {d : Decoder} (h : Between r read buf d) :
    r.isStart = false ∧ r.isFinished = false := by
  obtain ⟨⟨a, b, c, hst⟩, -⟩ := h.holds.state
  exact ⟨by simp [isStart, hst], by simp [isFinished, hst]⟩

theorem ChunksLeft.none_left (h : ChunksLeft B after r s left) (hf : r.isFinished = true) : left = [] := by
  cases h with
  | within hb => exact absurd (hb.unfinished.2.symm.trans hf) Bool.false_ne_true
  | finished => rfl

theorem ChunksLeft.congr (h : ChunksLeft B after r s left) (hs : s'.bytes = s.bytes) : ChunksLeft B after r s' left := by
  cases h with
  | within hb hat => exact .within hb (hs ▸ hat)
  | finished hf => exact .finished hf

/-- A steady reader stays where it stands when a call is dropped. -/
theorem ChunksLeft.moved (h : ChunksLeft B after r s left) (hst : Steady r) : ChunksLeft B after r.moved s left := by
  cases h with
  | within hb hat =>
    obtain ⟨buf', hb'⟩ := hst.between_moved hb
    exact .within hb' hat
  | finished hf =>
    refine .finished ?_
    have hsame : r.moved = r := by
      unfold isFinished at hf
      unfold moved
      split at hf
      · rename_i he
        simp only [he]
      · rename_i he
        simp only [he]
      · cases hf
    rw [hsame]
    exact hf

/-- The reader is set to chunks, with the first bytes of the body at hand. -/
theorem chunksLeft_withChunkedRead (hi : r.Idle) {p : Bytes} (hp : p.length < usizeEnd)
    (hc : IsChunked parseChunkSize (p ++ s.bytes) B after) : ChunksLeft B after (r.withChunkedRead p) s B.data := by
  obtain ⟨buf, hb, hlen, hrw, hs⟩ := setBuffer_holds (r := { r with readState := .chunked 0 0 0 0 }) (p := p)
    fun _ => hi.rewound
  rw [show bodySize { r with readState := .chunked 0 0 0 0 } = bodyBufferSize from hi.size] at hlen
  refine .within ⟨hb, .fresh rfl hrw hs, ?_, by decide⟩ (Chunked.at_start hc.text)
  rw [hlen]
  unfold bodyBufferSize usizeEnd at *
  omega

/-- A size line of which nothing more comes is held on to. -/
theorem pull_stalled_nil {head toCome : Bytes} (hlines : ∀ l ∈ B.lines, Recognizes parseChunkSize l)
    (hat : At B after (.stalled head) toCome left) :
    Decoder.pull parseChunkSize partialChunkHeadLimit [] (.stalled head) =
      if partialChunkHeadLimit < head.length then (.fail, .failed) else (.slice [], .stalled head) := by
  cases hat with
  | @stalled pre cs _ _ hB he hne hp hpne =>
    have hinc : parseChunkSize head = .incomplete := (hlines _ (Chunked.lineOf_mem pre cs hB)).incomplete _ hp hpne
    unfold Decoder.pull
    simp only [List.append_nil, Chunked.takeLine, hinc]

theorem of_contents {o : Option Offset} {x : Bytes} (h : contents (.ok o, r, s) = .ok (some x)) :
    ∃ p, o = some p ∧ r.getSlicedBody p = .ok x := by
  cases o with
  | none => cases h
  | some p =>
    unfold contents at h
    simp only at h
    split at h
    · cases h
      exact ⟨p, rfl, by assumption⟩
    all_goals cases h

/-- A call that ends with a value hands out what comes next, or ends the body at its end. -/
theorem ChunksLeft.next (hl : Local parseChunkSize) (hlines : ∀ l ∈ B.lines, Recognizes parseChunkSize l)
    (h : ChunksLeft B after r s left) (hf : r.isFinished = false) {o : Option Offset}
    (hok : readBody parseChunkSize (r, s) = (.ok o, r', s')) :
    ∃ x left', (o.elim (x = none) fun p => ∃ y, r'.getSlicedBody p = .ok y ∧ x = some y) ∧ left = x.getD [] ++ left' ∧
      ChunksLeft B after r' s' left' ∧ r'.isStart = false := by
  cases h with
  | finished hfin => exact absurd (hf.symm.trans hfin) Bool.false_ne_true
  | @within read buf _ d hb hat =>
    obtain ⟨⟨a, b, c, hst⟩, hd⟩ := hb.holds.state
    simp only [readBody, hst] at hok
    obtain ⟨x, q, d', hpull, hio, hcase⟩ := hb.readChunked_ok hl hok
    have hbytes := hio.bytes
    rw [hbytes] at hat
    -- a slice is a front of the data, and the end comes at the end
    have hnext : (∃ y, q = .slice y ∧ ∃ left', left = y ++ left' ∧ At B after d' s'.bytes left') ∨
        q = .done ∧ left = [] ∨ q = .fail := by
      by_cases hx : d.reads = true ↔ x ≠ []
      · have := hat.pull partialChunkHeadLimit hlines hx hd
        rw [hpull] at this
        cases this with
        | done he => exact .inr (.inl ⟨rfl, he⟩)
        | slice he hat' => exact .inl ⟨_, rfl, _, he, hat'⟩
        | tooLong => exact .inr (.inr rfl)
      · -- the socket was closed within a size line
        have hstalled : ∃ head, d = .stalled head ∧ x = [] := by
          unfold Feeds at hio
          cases d with
          | ready held =>
            cases held with
            | nil =>
              rw [if_pos (by rfl)] at hio
              exact absurd (iff_of_true rfl (by simpa [Decoder.held] using hio.2)) hx
            | cons y ys =>
              rw [if_neg (by simp [Decoder.reads])] at hio
              exact absurd (iff_of_false (by simp [Decoder.reads]) (not_not_intro hio.1)) hx
          | stalled head =>
            refine ⟨head, rfl, ?_⟩
            by_contra hne
            exact hx (iff_of_true rfl hne)
          | owing n =>
            rw [if_pos (by rfl)] at hio
            exact absurd (iff_of_true rfl (by simpa [Decoder.held] using hio.2)) hx
          | finished => exact absurd rfl hd
          | failed => exact absurd rfl hb.holds.ne_failed
        obtain ⟨head, rfl, rfl⟩ := hstalled
        rw [List.nil_append] at hat
        rw [pull_stalled_nil hlines hat] at hpull
        split at hpull <;> cases hpull
        · exact .inr (.inr rfl)
        · exact .inl ⟨[], rfl, left, rfl, hat⟩
    rcases hcase with ⟨y, buf', rfl, hget, hb'⟩ | ⟨rfl, rfl, hst'⟩
    · rcases hnext with ⟨y', hy, left', hleft, hat'⟩ | ⟨hq, -⟩ | hq
      · cases hy
        obtain ⟨p, rfl, hslice⟩ := of_contents hget
        exact ⟨some y, left', ⟨y, hslice, rfl⟩, hleft, .within hb' hat', hb'.unfinished.1⟩
      · cases hq
      · cases hq
    · rcases hnext with ⟨y', hy, -⟩ | ⟨-, hleft⟩ | hq
      · cases hy
      · exact ⟨none, [], rfl, hleft, .finished (by simp [isFinished, hst']), by simp [isStart, hst']⟩
      · cases hq

end BodyReader

end Glaive.Session
