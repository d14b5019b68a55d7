/-
  Glaive.Session.EndOfInput — streams that end in a body, in chunked mode
  (`core/src/session/reader.rs`: `read_chunked`, `parse_chunked_buf`).

  At the end of the input a read gives 0 bytes, each time. Inside a chunk and between
  two of them that is an error, "connection closed". With part of a size line held it is
  not: the line is looked at again, as short as it was, and the call returns
  `Ok(Some(0, 0))` (`Stalled.not_failsWithin`). `ends_in_error_iff` says which streams
  come to an error.
-/

import Glaive.Session.ReaderBounds

namespace Glaive.Session

open Glaive.Lib
open Glaive.Lib.Chunked (ChunkStatus Decoder Pull Local IsLine LooseChunk looseWire Taken SizesFit HasLast EndsInLine)

namespace BodyReader

variable {parseChunkSize : Bytes → ChunkStatus}

/-- One of the next `n` calls fails and leaves the reader finished, and those before it
    return `Ok(Some(_))`. -/
def failsWithin (parseChunkSize : Bytes → ChunkStatus) : Nat → BodyReader × Stream → Prop
  | 0, _ => False
  | n + 1, x =>
    match readBody parseChunkSize x with
    | (.err _, y) => y.1.isFinished = true
    | (.ok (some _), y) => failsWithin parseChunkSize n y
    | _ => False

/-- However the stream `bs` is cut between the preread bytes and the reads, and whatever
    the memory held, calls of a reader fail and finish it within a number of them, once
    the input has ended. -/
def EndsInError (parseChunkSize : Bytes → ChunkStatus) (bs : Bytes) : Prop :=
  ∀ (mem : Nat → Byte) (preread : Bytes) (segs : List Bytes), preread.length < sliceEnd → (∀ x ∈ segs, x ≠ []) →
    preread ++ segs.flatten = bs →
    ∃ n, ∀ (k : Nat) (s : Stream), n ≤ k → s.input = segs.map .data ++ List.replicate k (.data []) →
      failsWithin parseChunkSize n ((new mem).withChunkedRead preread, s)

theorem failsWithin_err {n : Nat} {x y : BodyReader × Stream} {e : IoError} (h : readBody parseChunkSize x = (.err e, y))
    (hfin : y.1.isFinished = true) : failsWithin parseChunkSize (n + 1) x := by
  simp only [failsWithin, h, hfin]

theorem failsWithin_ok {n : Nat} {x y : BodyReader × Stream} {o : Offset}
    (h : readBody parseChunkSize x = (.ok (some o), y)) (hy : failsWithin parseChunkSize n y) :
    failsWithin parseChunkSize (n + 1) x := by
  simp only [failsWithin, h]
  exact hy

/-- Some number of calls comes to an error. -/
def Fails (parseChunkSize : Bytes → ChunkStatus) (x : BodyReader × Stream) : Prop :=
  ∃ n, failsWithin parseChunkSize n x

theorem Fails.ne_panic {x : BodyReader × Stream} (h : Fails parseChunkSize x) (t : String) (y : BodyReader × Stream) :
    readBody parseChunkSize x ≠ (.panic t, y) := by
  intro he
  obtain ⟨n, hn⟩ := h
  cases n with
  | zero => exact hn
  | succ n => simp only [failsWithin, he] at hn

theorem Fails.ne_none {x : BodyReader × Stream} (h : Fails parseChunkSize x) (y : BodyReader × Stream) :
    readBody parseChunkSize x ≠ (.ok none, y) := by
  intro he
  obtain ⟨n, hn⟩ := h
  cases n with
  | zero => exact hn
  | succ n => simp only [failsWithin, he] at hn

theorem Fails.next {x y : BodyReader × Stream} {o : Offset} (h : Fails parseChunkSize x)
    (he : readBody parseChunkSize x = (.ok (some o), y)) : Fails parseChunkSize y := by
  obtain ⟨n, hn⟩ := h
  cases n with
  | zero => exact absurd hn id
  | succ n =>
    simp only [failsWithin, he] at hn
    exact ⟨n, hn⟩

/-! ## Streams that come to an error -/

variable {bs buf seen toCome : Bytes} {r : BodyReader} {s : Stream} {d : Decoder} {read : Nat}

/-- Each call lowers the weight of the decoder, and the last read finds the end. -/
theorem Inside.failsWithin (hl : Local parseChunkSize) (hfit : SizesFit parseChunkSize bs)
    (hlast : ¬ HasLast parseChunkSize bs) (hline : ¬ EndsInLine parseChunkSize partialChunkHeadLimit bs) (k : Nat) :
    ∀ (n : Nat) {r : BodyReader} {s : Stream} {buf seen toCome : Bytes} {d : Decoder} {read : Nat},
      Inside parseChunkSize bs r s buf d seen read → (∀ head, d = .stalled head → parseChunkSize head = .incomplete) →
      s.Carries toCome (List.replicate (k + 1) (.data [])) → d.weight toCome.length < n →
      BodyReader.failsWithin parseChunkSize n (r, s) := by
  intro n
  induction n with
  | zero =>
    intro r s buf seen toCome d read _ _ _ hn
    exact absurd hn (Nat.not_lt_zero _)
  | succ n ih =>
    intro r s buf seen toCome d read h hinc hc hn
    have hd := h.between.holds.state.2
    by_cases hend : d.reads = true ∧ toCome = []
    · -- the input has ended
      obtain ⟨hrd, rfl⟩ := hend
      have hin := Stream.carries_nil hc
      have hread : ∀ cap, s.read cap = (.ok [], { s with input := List.replicate k (.data []) }) := by
        intro cap
        simp only [Stream.read, hin, List.replicate_succ, List.length_nil, Nat.zero_le, if_true]
      by_cases hheld : d.held = []
      · obtain ⟨r', hcall, hst⟩ := h.between.readChunked_end parseChunkSize hrd hheld (hread _)
        exact failsWithin_err ((h.between.holds.readBody_eq _ s).trans hcall) (isFinished_of_done hst)
      · -- part of a size line is held, and no more of it comes
        exfalso
        have hs : s.bytes = [] := by
          rw [Stream.bytes, hin]
          exact Stream.bytesOf_ends (k + 1)
        have hrest := h.rest
        rw [hs, List.append_nil] at hrest
        subst hrest
        cases h.between.holds with
        | fresh => exact hheld (List.isEmpty_iff.mp hrd)
        | multi _ _ _ _ hp => exact hp (List.isEmpty_iff.mp hrd)
        | @stalled head _ _ hne hlim =>
          cases h.taken with
          | stalled cs => exact hline ⟨cs, head, hne, hinc head rfl, hlim, rfl⟩
        | owing => exact hheld rfl
    · obtain ⟨x, toCome', s', rfl, hc', -, hio, hx⟩ := h.between.holds.feeds h.room hc fun hrd he => hend ⟨hrd, he⟩
      obtain ⟨buf', o, r', hcall, hg, hnext⟩ := h.pull hl hfit hio
      have hd0 : d ≠ .owing 0 := by
        intro he
        subst he
        cases h.between.holds with
        | owing _ h0 => exact absurd h0 (Nat.lt_irrefl 0)
      generalize hpull : d.pull parseChunkSize partialChunkHeadLimit x = p at hg
      cases hg with
      | @slice y d' off _ hget hb hh =>
        have hw := Decoder.pull_weight hd0 hx hpull toCome'.length
        rw [← List.length_append] at hw
        refine failsWithin_ok hcall (ih (hnext y d' hpull hh hb) ?_ hc' (by omega))
        intro head he
        subst he
        exact (pull_stalled hpull).1
      | done =>
        have := h.taken.hasLast hl hd hpull s'.bytes
        rw [List.append_assoc, ← hio.bytes, h.rest] at this
        exact absurd this hlast
      | fail hst => exact failsWithin_err hcall (isFinished_of_done hst)

/-! ## Streams that do not -/

variable {head held : Bytes} {p : Nat}

/-- With part of a size line held, and the input at its end, no call fails. -/
theorem Stalled.not_failsWithin (hinc : parseChunkSize head = .incomplete) (n : Nat) :
    ∀ (k : Nat) {r : BodyReader} {buf : Bytes} {p : Nat}, Stalled r read buf head p →
      ¬ failsWithin parseChunkSize n (r, ⟨List.replicate k (.data []), [], []⟩) := by
  induction n with
  | zero => exact fun _ _ _ _ _ h => h
  | succ n ih =>
    intro k r buf p h hf
    have hbody := h.between.holds.readBody_eq parseChunkSize
    cases k with
    | zero =>
      rcases h.between.readChunked_cut parseChunkSize with ⟨hno, -⟩ | ⟨cap, hpending, -⟩
      · cases hno
      · have hcall := hpending ⟨[], [], []⟩ ⟨[], [], []⟩ rfl
        simp only [failsWithin, List.replicate_zero, hbody, hcall] at hf
    | succ k =>
      obtain ⟨o, r1, buf1, p1, hcall, hcont, h1⟩ := h.readChunked_eof hinc (List.replicate k (.data []))
      rw [← hbody, ← List.replicate_succ] at hcall
      cases o with
      | none => exact Fails.ne_none ⟨_, hf⟩ _ hcall
      | some o =>
        simp only [failsWithin, hcall] at hf
        exact ih k h1 hf

/-- A last size line, of what is held, is the end. -/
theorem Between.readBody_last (h : Between r read buf (.ready held)) (hne : held ≠ []) {i : Nat}
    (hp : parseChunkSize held = .complete i 0) (hi : i ≤ held.length) (s : Stream) :
    ∃ r', readBody parseChunkSize (r, s) = (.ok none, r', s) := by
  have hpull : Chunked.takeLine parseChunkSize partialChunkHeadLimit held = (.done, .finished) := by
    simp only [Chunked.takeLine, hp, if_true]
  obtain ⟨buf', o, r', hcall, -, hg⟩ := readChunked_ready parseChunkSize h.buffer h.holds hne h.length h.read
    (fun i' n' hp' => by rw [hp] at hp'; cases hp'; exact ⟨hi, fun h0 => absurd rfl h0⟩)
    (fun x d' hx => by rw [hpull] at hx; cases hx) s
  rw [hpull] at hg
  cases hg with
  | done => exact ⟨r', (h.holds.readBody_eq _ s).trans hcall⟩

/-- Part of a size line, of what is held, is held again. -/
theorem Between.readBody_part (h : Between r read buf (.ready held)) (hne : held ≠ [])
    (hinc : parseChunkSize held = .incomplete) (hlim : held.length ≤ partialChunkHeadLimit) (s : Stream) :
    ∃ o r' buf' p, readBody parseChunkSize (r, s) = (.ok (some o), r', s) ∧ Stalled r' read buf' held p := by
  have hpull : Chunked.takeLine parseChunkSize partialChunkHeadLimit held = (.slice [], .stalled held) := by
    simp only [Chunked.takeLine, hinc, if_neg (Nat.not_lt.mpr hlim)]
  obtain ⟨buf', o, r', hcall, hlen, hg⟩ := readChunked_ready parseChunkSize h.buffer h.holds hne h.length h.read
    (fun i' n' hp' => by rw [hinc] at hp'; cases hp')
    (fun x d' hx => by rw [hpull] at hx; cases hx; exact h.read) s
  rw [hpull] at hg
  cases hg with
  | @slice _ _ o _ hget hb hh =>
    obtain ⟨p, hs⟩ := (Between.mk hb hh (hlen ▸ h.length) h.read).stalled
    exact ⟨o, r', buf', p, (h.holds.readBody_eq _ s).trans hcall, hs⟩

/-! ## Which streams come to an error -/

/-- A reader that holds a last size line behind its chunks does not come to an error. -/
theorem Between.not_hasLast (hl : Local parseChunkSize) (hnil : parseChunkSize [] = .incomplete)
    (h : Between r 0 buf (.ready held)) (hf : Fails parseChunkSize (r, s)) : ¬ HasLast parseChunkSize held := by
  intro hlast
  rcases hlast with ⟨cs, last, rest, hlast, rfl⟩
  obtain ⟨r', buf', hf', -, h'⟩ :=
    h.chunks hl (fun _ t y hx => hx.ne_panic t y) (fun _ _ _ hx he => hx.next he) cs hf
  have hne : last ++ rest ≠ [] := List.append_ne_nil_of_left_ne_nil (hlast.nonempty hnil) rest
  obtain ⟨r'', hcall⟩ := h'.readBody_last hne (hl.line_append hlast rest) (by simp) s
  exact hf'.ne_none _ hcall

/-- Nor does one that holds part of a size line behind them, at the end of the input. -/
theorem Between.not_endsInLine (hl : Local parseChunkSize) (h : Between r 0 buf (.ready held)) {k : Nat}
    (hf : Fails parseChunkSize (r, ⟨List.replicate k (.data []), [], []⟩)) :
    ¬ EndsInLine parseChunkSize partialChunkHeadLimit held := by
  intro hline
  rcases hline with ⟨cs, head, hne, hinc, hlim, rfl⟩
  obtain ⟨r', buf', hf', -, h'⟩ :=
    h.chunks hl (fun _ t y hx => hx.ne_panic t y) (fun _ _ _ hx he => hx.next he) cs hf
  obtain ⟨o, r'', buf'', p, hcall, hs⟩ := h'.readBody_part hne hinc hlim ⟨List.replicate k (.data []), [], []⟩
  obtain ⟨m, hm⟩ := hf'.next hcall
  exact hs.not_failsWithin hinc m k hm

/-- A reader that has the whole stream preread, and then the end of the input. -/
theorem EndsInError.preread (h : EndsInError parseChunkSize bs) (hlen : bs.length < sliceEnd) :
    ∃ r buf k, Between r 0 buf (.ready bs) ∧ Fails parseChunkSize (r, ⟨List.replicate k (.data []), [], []⟩) := by
  obtain ⟨n, hn⟩ := h (fun _ => 0) bs [] hlen (List.forall_mem_nil _) (List.append_nil bs)
  obtain ⟨buf, hstart⟩ := inside_start parseChunkSize (fun _ => 0) bs hlen ⟨List.replicate n (.data []), [], []⟩
  exact ⟨_, buf, n, hstart.between, n, hn n _ (Nat.le_refl n) rfl⟩

/-- A chunked body cut off comes to an error, however it is cut into reads, if its sizes
    fit, it has no last size line and does not stop in the middle of a size line; and
    where there can be memory for it, only then. -/
theorem ends_in_error_iff (hl : Local parseChunkSize) (hnil : parseChunkSize [] = .incomplete) (bs : Bytes) :
    (SizesFit parseChunkSize bs ∧ ¬ HasLast parseChunkSize bs ∧ ¬ EndsInLine parseChunkSize partialChunkHeadLimit bs →
      EndsInError parseChunkSize bs) ∧
    (bs.length < sliceEnd → EndsInError parseChunkSize bs →
      SizesFit parseChunkSize bs ∧ ¬ HasLast parseChunkSize bs ∧
        ¬ EndsInLine parseChunkSize partialChunkHeadLimit bs) := by
  constructor
  · intro h mem preread segs hp hne he
    rcases h with ⟨hfit, hlast, hline⟩
    subst he
    refine ⟨(Decoder.ready preread).weight segs.flatten.length + 1, fun k s hk hs => ?_⟩
    obtain ⟨buf, h⟩ := inside_start parseChunkSize mem preread hp s
    have hbytes : s.bytes = segs.flatten := by
      rw [Stream.bytes, hs, Stream.bytesOf_append, Stream.bytesOf_map_data, Stream.bytesOf_ends, List.append_nil]
    rw [hbytes] at h
    obtain ⟨k, rfl⟩ : ∃ m, k = m + 1 := ⟨k - 1, by omega⟩
    exact h.failsWithin hl hfit hlast hline k _ (fun head e => by cases e) ⟨segs, hs, hne, rfl⟩ (Nat.lt_succ_self _)
  · intro hlen h
    obtain ⟨r, buf, k, hbtw, hf⟩ := h.preread hlen
    refine ⟨?_, hbtw.not_hasLast hl hnil hf, hbtw.not_endsInLine hl hf⟩
    exact hbtw.sizesFit hl hnil (fun _ t y hx => hx.ne_panic t y) (fun _ _ _ hx he => hx.next he) hf

/-- The first two bytes of a chunk of five. -/
theorem ends_in_error_fiveAnnounced : EndsInError Chunked.parseSizeLine (ascii "5\r\nab") := by
  have hp : Chunked.parseSizeLine (ascii "5\r\nab") = .complete 3 5 := by decide
  refine (ends_in_error_iff Chunked.parseSizeLine_local (by decide) _).1 ⟨fiveAnnounced_sizesFit, ?_, ?_⟩
  · intro h
    rcases h with ⟨cs, last, rest, hlast, he⟩
    obtain rfl := fiveAnnounced_cut he
    have hp' := Chunked.parseSizeLine_local.line_append hlast rest
    rw [Chunked.looseWire_nil, List.nil_append] at he
    rw [← he, hp] at hp'
    injection hp' with _ h0
    cases h0
  · intro h
    rcases h with ⟨cs, head, -, hinc, -, he⟩
    obtain rfl := fiveAnnounced_cut he
    rw [Chunked.looseWire_nil, List.nil_append] at he
    rw [← he, hp] at hinc
    cases hinc

/-- `1`, of a size line: whatever number of reads finds the end of the input, and
    whatever number of calls is made, none fails. -/
theorem ends_in_error_cutLine :
    (∀ n k, ¬ failsWithin Chunked.parseSizeLine n
      ((new fun _ => 0).withChunkedRead (ascii "1"), ⟨List.replicate k (.data []), [], []⟩)) ∧
    ¬ EndsInError Chunked.parseSizeLine (ascii "1") := by
  have never : ∀ n k, ¬ failsWithin Chunked.parseSizeLine n
      ((new fun _ => 0).withChunkedRead (ascii "1"), ⟨List.replicate k (.data []), [], []⟩) := by
    intro n k hf
    obtain ⟨buf, h⟩ := inside_start Chunked.parseSizeLine (fun _ => 0) (ascii "1") (by decide)
      ⟨List.replicate k (.data []), [], []⟩
    obtain ⟨o, r', buf', p, hcall, hs⟩ := h.between.readBody_part (by decide)
      (show Chunked.parseSizeLine (ascii "1") = .incomplete by decide) (by decide) _
    obtain ⟨m, hm⟩ := Fails.next ⟨n, hf⟩ hcall
    exact hs.not_failsWithin (by decide) m k hm
  refine ⟨never, fun h => ?_⟩
  obtain ⟨n, hn⟩ := h (fun _ => 0) (ascii "1") [] (by decide) (List.forall_mem_nil _) (List.append_nil _)
  exact never n n (hn n ⟨List.replicate n (.data []), [], []⟩ (Nat.le_refl n) rfl)

end BodyReader

end Glaive.Session
