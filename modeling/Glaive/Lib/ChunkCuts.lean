/-
  Glaive.Lib.ChunkCuts — what the pull decoder of `Glaive.Lib.ChunkedCoding` hands out
  when a body is cut in pieces, and what a peer reads when each slice is sent on as a
  chunk of its own.

  A pull hands out an empty slice when the piece it works on ends inside a size line or
  at its end, or when the pieces before ended between a chunk's data and the end of its
  CRLF. A chunk made of an empty slice is a last chunk. `goodCut` says which cuts make
  none (`Spot.ready_good`, `Spot.owing_good`, `Spot.ready_bad`).
-/

import Glaive.Lib.SizeLine
import Glaive.Lib.Numeral

namespace Glaive.Lib.Chunked

/-! ## Reading a chunked message -/

/-- A chunked decoder reads `text` as one message without trailers: its data, and what
    follows it. -/
inductive Reads : Bytes → Bytes → Bytes → Prop
  | last (l : SizeLine) (rest : Bytes) : l.size = 0 → Reads (l.text ++ crlf ++ rest) [] rest
  | chunk (c : Chunk) {text data rest : Bytes} : Reads text data rest → Reads (c.text ++ text) (c.data ++ data) rest

/-- Texts that start with size lines start with one line. -/
theorem line_unique {l l' : SizeLine} {x y : Bytes} (h : l.text ++ x = l'.text ++ y) :
    l.text = l'.text ∧ l.size = l'.size ∧ x = y := by
  have h1 := parseSizeLine_complete l x
  rw [h, parseSizeLine_complete l' y] at h1
  injection h1 with h1 h2
  obtain ⟨h3, h4⟩ := List.append_inj h h1.symm
  exact ⟨h3, h2.symm, h4⟩

theorem Reads.unique {text data rest : Bytes} (h : Reads text data rest) :
    ∀ {data' rest' : Bytes}, Reads text data' rest' → data = data' ∧ rest = rest' := by
  induction h with
  | last l rest hz =>
    intro data' rest' h'
    generalize ht : l.text ++ crlf ++ rest = t at h'
    cases h' with
    | last l' rest' hz' =>
      rw [List.append_assoc, List.append_assoc] at ht
      exact ⟨rfl, List.append_cancel_left (line_unique ht).2.2⟩
    | chunk c h'' =>
      rw [Chunk.text, List.append_assoc, List.append_assoc, List.append_assoc] at ht
      have := (line_unique ht).2.1
      have hpos := List.length_pos_of_ne_nil c.nonempty
      rw [hz, c.sized] at this; omega
  | @chunk c text data rest h0 ih =>
    intro data' rest' h'
    generalize ht : c.text ++ text = t at h'
    have hpos := List.length_pos_of_ne_nil c.nonempty
    cases h' with
    | last l' rest' hz' =>
      rw [Chunk.text, List.append_assoc, List.append_assoc, List.append_assoc] at ht
      have := (line_unique ht).2.1
      rw [hz', c.sized] at this; omega
    | chunk c' h'' =>
      rw [Chunk.text, Chunk.text, List.append_assoc, List.append_assoc, List.append_assoc, List.append_assoc] at ht
      obtain ⟨-, h2, h3⟩ := line_unique ht
      rw [c.sized, c'.sized] at h2
      obtain ⟨h4, h5⟩ := List.append_inj h3 h2
      obtain ⟨h6, h7⟩ := ih (List.append_cancel_left h5 ▸ h'')
      exact ⟨by rw [h4, h6], h7⟩

theorem Reads.length {text data rest : Bytes} (h : Reads text data rest) : data.length < text.length := by
  induction h with
  | last l rest hz =>
    have := l.text_length
    simp only [List.length_append, List.length_nil]; omega
  | chunk c _ ih =>
    have := c.text_length
    simp only [List.length_append]; omega

/-- The chunks of a wire text are read before what follows. -/
theorem Reads.wire_append (cs : List Chunk) {text data rest : Bytes} (h : Reads text data rest) :
    Reads (wire cs ++ text) (dataOf cs ++ data) rest := by
  induction cs with
  | nil => exact h
  | cons c cs ih =>
    rw [wire_cons, dataOf_cons, List.append_assoc, List.append_assoc]
    exact .chunk c ih

/-- The size line of an encoded chunk. -/
def hexLine (n : Nat) (h : n < usizeEnd) : SizeLine :=
  ⟨toHex n, [], toHex_ne_nil n, length_toHex_le h, toHex_hex n, Or.inl rfl⟩

theorem hexLine_text (n : Nat) (h : n < usizeEnd) : (hexLine n h).text = toHex n ++ crlf := by
  unfold SizeLine.text hexLine
  rw [List.append_nil]

theorem hexLine_size (n : Nat) (h : n < usizeEnd) : (hexLine n h).size = n := hexNumber_toHex n

/-- A non-empty slice as a chunk of its own. -/
def encode (x : Bytes) (hx : x ≠ []) (h : x.length < usizeEnd) : Chunk :=
  ⟨hexLine x.length h, x, hexLine_size _ h, hx⟩

theorem encode_text (x : Bytes) (hx : x ≠ []) (h : x.length < usizeEnd) :
    (encode x hx h).text = toHex x.length ++ crlf ++ x ++ crlf := by
  unfold Chunk.text encode
  rw [hexLine_text]

theorem reads_last (rest : Bytes) : Reads (ascii "0\r\n\r\n" ++ rest) [] rest :=
  .last (hexLine 0 (by decide)) rest (hexLine_size 0 (by decide))

/-! ## Cuts -/

/-- A piece may end here, `c` bytes past the start of the chunks `cs`: between chunks,
    inside a chunk's data, or past the last chunk's size line. -/
def goodCut (last : SizeLine) : List Chunk → Nat → Bool
  | [], c => c == 0 || last.text.length ≤ c
  | k :: ks, c =>
    c == 0 || (k.line.text.length < c && c < k.line.text.length + k.data.length) ||
      (k.text.length ≤ c && goodCut last ks (c - k.text.length))

theorem goodCut_zero (last : SizeLine) (cs : List Chunk) : goodCut last cs 0 = true := by
  cases cs <;> simp [goodCut]

theorem goodCut_of_le {last : SizeLine} {k : Chunk} {ks : List Chunk} {c : Nat} (h : k.text.length ≤ c) :
    goodCut last (k :: ks) c = goodCut last ks (c - k.text.length) := by
  have h1 := k.text_length
  have h2 : ¬ c < k.line.text.length + k.data.length := by omega
  have h3 : ¬ c = 0 := by omega
  simp [goodCut, h2, h3, h]

theorem goodCut_of_lt {last : SizeLine} {k : Chunk} {ks : List Chunk} {c : Nat} (h0 : c ≠ 0) (h : c < k.text.length) :
    goodCut last (k :: ks) c = true ↔ k.line.text.length < c ∧ c < k.line.text.length + k.data.length := by
  have h1 : ¬ k.text.length ≤ c := by omega
  simp [goodCut, h0, h1]

/-- Inside a size line. -/
theorem goodCut_inside_line {B : Body} {cs : List Chunk} {c : Nat} (h0 : c ≠ 0) (h : c < (lineOf B cs).text.length) :
    goodCut B.last cs c = false := by
  cases cs with
  | nil =>
    rw [show lineOf B [] = B.last from rfl] at h
    simp [goodCut, h0, h]
  | cons k ks =>
    rw [show lineOf B (k :: ks) = k.line from rfl] at h
    have := k.text_length
    rw [Bool.eq_false_iff, ne_eq, goodCut_of_lt h0 (by omega)]; omega

/-! ## Where a decoder stands, with the cut behind it -/

variable {parse : Bytes → ChunkStatus} {limit : Nat} {B : Body} {rest : Bytes}

/-- `Spot d cs off toCome left`: the decoder has come `off` bytes past the start of the
    chunks `cs`; in a chunk, past its size line and some of its data. -/
inductive Spot (B : Body) (rest : Bytes) : Decoder → List Chunk → Nat → Bytes → Bytes → Prop
  | ready {pre cs : List Chunk} {held toCome : Bytes} : B.chunks = pre ++ cs → held ++ toCome = tail B rest cs →
      Spot B rest (.ready held) cs held.length toCome (dataOf cs)
  | owing {pre cs : List Chunk} {c : Chunk} {o : Bytes} : B.chunks = pre ++ c :: cs → o <:+ c.data ++ crlf →
      o ≠ [] → o.length < c.data.length + 2 →
      Spot B rest (.owing o.length) (c :: cs) (c.text.length - o.length) (o ++ tail B rest cs)
        (o.take (o.length - 2) ++ dataOf cs)

theorem Spot.at {d : Decoder} {cs : List Chunk} {off : Nat} {toCome left : Bytes} (h : Spot B rest d cs off toCome left) :
    At B rest d toCome left := by
  cases h with
  | ready h1 h2 => exact .ready h1 h2
  | owing h1 h2 h3 _ => exact .owing h1 h2 h3

/-- What a pull comes to after a good cut: the end, or a slice with something in it, and
    the cuts to come are as good as they were. -/
inductive Stepped (B : Body) (rest : Bytes) (cs : List Chunk) (reach : Nat) (toCome left : Bytes) (w : Nat) :
    Pull × Decoder → Prop
  | done : left = [] → (∀ k, goodCut B.last cs (reach + k) = true) → Stepped B rest cs reach toCome left w (.done, .finished)
  | slice {x left' : Bytes} {d : Decoder} {cs' : List Chunk} {off : Nat} : x ≠ [] → left = x ++ left' →
      Spot B rest d cs' off toCome left' → (∀ k, goodCut B.last cs (reach + k) = goodCut B.last cs' (off + k)) →
      d.weight toCome.length < w → Stepped B rest cs reach toCome left w (.slice x, d)

theorem Stepped.mono {cs : List Chunk} {reach : Nat} {toCome left : Bytes} {w w' : Nat} (hw : w ≤ w')
    {res : Pull × Decoder} (h : Stepped B rest cs reach toCome left w res) :
    Stepped B rest cs reach toCome left w' res := by
  cases h with
  | done h1 h2 => exact .done h1 h2
  | slice h1 h2 h3 h4 h5 => exact .slice h1 h2 h3 h4 (by omega)

/-- Passing over the owed bytes `o` of the chunk `c`, as in `At.settle`. -/
theorem Spot.settle {pre cs : List Chunk} {c : Chunk} {o avail toCome : Bytes} (hB : B.chunks = pre ++ c :: cs)
    (ho : o <:+ c.data ++ crlf) (ha : avail ≠ []) (h : avail ++ toCome = o ++ tail B rest cs) :
    ∃ left cs' off, o.take (o.length - 2) ++ dataOf cs = avail.take (o.length - 2) ++ left ∧
      Spot B rest (settle o.length avail) cs' off toCome left ∧
      ∀ k, goodCut B.last (c :: cs) (c.text.length - o.length + avail.length + k) = goodCut B.last cs' (off + k) := by
  have hol := ho.length_le
  have hcl := c.text_length
  have hal := List.length_pos_of_ne_nil ha
  simp only [List.length_append, crlf, List.length_cons, List.length_nil] at hol
  unfold Chunked.settle
  rcases append_cut h with ⟨u, hu, rfl, rfl⟩ | ⟨w, rfl, hw⟩
  · have hul := List.length_pos_of_ne_nil hu
    simp only [List.length_append] at hol ⊢
    rw [if_pos (by omega), Nat.add_sub_cancel_left]
    refine ⟨u.take (u.length - 2) ++ dataOf cs, c :: cs, c.text.length - u.length, ?_,
      .owing hB ((List.suffix_append _ _).trans ho) hu (by omega), fun k => by congr 1; omega⟩
    rw [List.take_append, List.append_assoc]
    congr 3; omega
  · rw [List.length_append, if_neg (by omega), List.drop_left]
    refine ⟨dataOf cs, cs, w.length, ?_, .ready (show B.chunks = (pre ++ [c]) ++ cs by simp [hB]) hw.symm,
      fun k => ?_⟩
    · rw [List.take_append_of_le_length (Nat.sub_le _ _)]
    · rw [goodCut_of_le (by omega)]
      congr 1; omega

/-- What has come at a chunk boundary is part of a line, or the line and more. -/
theorem line_cut {cs : List Chunk} {avail toCome : Bytes} (hr : Recognizes parse (lineOf B cs))
    (h : avail ++ toCome = tail B rest cs) :
    avail.length < (lineOf B cs).text.length ∧ parse avail = .incomplete ∨
      ∃ a w, avail = (lineOf B cs).text ++ a ∧ parse avail = .complete (lineOf B cs).text.length (lineOf B cs).size ∧
        a ++ toCome = w ∧ (cs = [] ∧ (lineOf B cs).size = 0 ∨
          ∃ c cs', cs = c :: cs' ∧ lineOf B cs = c.line ∧ w = c.data ++ crlf ++ tail B rest cs') := by
  obtain ⟨w, hw, hcs⟩ := tail_eq B rest cs
  rcases append_cut (h.trans hw) with ⟨u, hu, h1, h2⟩ | ⟨a, rfl, h2⟩
  · have hul := List.length_pos_of_ne_nil hu
    have hlen := congrArg List.length h1
    rw [List.length_append] at hlen
    refine Or.inl ⟨by omega, hr.incomplete avail ⟨u, h1.symm⟩ ?_⟩
    intro e
    rw [e] at hlen; omega
  · exact Or.inr ⟨a, w, rfl, hr.complete a, h2.symm, hcs⟩

/-- A pull at a chunk boundary: an empty slice, or nothing, only after a bad cut. -/
theorem Spot.takeLine (limit : Nat) {pre cs : List Chunk} {avail toCome : Bytes} (hB : B.chunks = pre ++ cs)
    (hr : Recognizes parse (lineOf B cs)) (hne : avail ≠ []) (h : avail ++ toCome = tail B rest cs) :
    Stepped B rest cs avail.length toCome (dataOf cs) (3 * toCome.length + 2 * avail.length + 1)
      (Chunked.takeLine parse limit avail) ∨
    goodCut B.last cs avail.length = false ∧
      ((Chunked.takeLine parse limit avail).1 = .slice [] ∨ (Chunked.takeLine parse limit avail).1 = .fail) := by
  have hal := List.length_pos_of_ne_nil hne
  have hll := (lineOf B cs).text_length
  unfold Chunked.takeLine
  rcases line_cut hr h with ⟨hlt, hp⟩ | ⟨a, w, rfl, hp, hw, ⟨rfl, hz⟩ | ⟨c, cs', rfl, hl, rfl⟩⟩
  · refine Or.inr ⟨goodCut_inside_line (by omega) hlt, ?_⟩
    rw [hp]
    simp only
    split
    · exact Or.inr rfl
    · exact Or.inl rfl
  · rw [hp]
    simp only [hz, if_true]
    refine Or.inl (.done rfl fun k => ?_)
    rw [List.length_append]
    simp only [goodCut, Bool.or_eq_true, decide_eq_true_eq]
    rw [show lineOf B [] = B.last from rfl]; omega
  · have hcl := c.text_length
    have hsz : (lineOf B (c :: cs')).size = c.data.length := by rw [hl, c.sized]
    have hpos := List.length_pos_of_ne_nil c.nonempty
    have ho : (c.data ++ crlf).length = c.data.length + 2 := by simp [crlf]
    rw [hp]
    simp only [hsz, if_neg (show c.data.length ≠ 0 by omega)]
    rw [List.drop_left]
    by_cases ha : a = []
    · subst ha
      refine Or.inr ⟨?_, Or.inl (by rw [List.take_nil])⟩
      rw [List.append_nil, hl, Bool.eq_false_iff, ne_eq, goodCut_of_lt (by rw [hl] at hll; omega) (by omega)]
      omega
    · have hapos := List.length_pos_of_ne_nil ha
      obtain ⟨left, cs2, off, h3, h4, h5⟩ := Spot.settle hB (List.suffix_refl _) ha hw
      have hs := settle_append (lineOf B (c :: cs')).text a (c.data ++ crlf).length
      rw [ho, ← Nat.add_assoc] at hs
      rw [hs, ← ho]
      rw [ho, Nat.add_sub_cancel, List.take_left] at h3
      have hl2 : ((lineOf B (c :: cs')).text ++ a).length = (lineOf B (c :: cs')).text.length + a.length :=
        List.length_append
      refine Or.inl (.slice ?_ h3 h4 (fun k => ?_) ?_)
      · intro e
        have := congrArg List.length e
        rw [List.length_take, List.length_nil] at this; omega
      · rw [← h5 k, ho, hl2, hl]
        congr 1; omega
      · have hw2 := weight_settle (c.data ++ crlf).length a toCome.length
        omega

/-- A pull inside a chunk: an empty slice only after a bad cut. -/
theorem Spot.takeOwed {pre cs : List Chunk} {c : Chunk} {o bs toCome : Bytes} (hB : B.chunks = pre ++ c :: cs)
    (ho : o <:+ c.data ++ crlf) (hone : o ≠ []) (hlt : o.length < c.data.length + 2) (hne : bs ≠ [])
    (h : bs ++ toCome = o ++ tail B rest cs) :
    (goodCut B.last (c :: cs) (c.text.length - o.length) = true ∧
      Stepped B rest (c :: cs) (c.text.length - o.length + bs.length) toCome (o.take (o.length - 2) ++ dataOf cs)
        (3 * (bs ++ toCome).length) (Chunked.takeOwed o.length bs)) ∨
    goodCut B.last (c :: cs) (c.text.length - o.length) = false ∧ (Chunked.takeOwed o.length bs).1 = .slice [] := by
  have hcl := c.text_length
  have hol := List.length_pos_of_ne_nil hone
  have hpos := List.length_pos_of_ne_nil hne
  by_cases h2 : 2 < o.length
  · refine Or.inl ⟨by rw [goodCut_of_lt (by omega) (by omega)]; omega, ?_⟩
    obtain ⟨left, cs', off, h3, h4, h5⟩ := Spot.settle hB ho hne h
    refine .slice ?_ h3 h4 h5 ?_
    · intro e
      have := congrArg List.length e
      rw [List.length_take, List.length_nil] at this; omega
    · have := weight_settle o.length bs toCome.length
      rw [List.length_append]; omega
  · refine Or.inr ⟨?_, ?_⟩
    · rw [Bool.eq_false_iff, ne_eq, goodCut_of_lt (by omega) (by omega)]; omega
    · unfold Chunked.takeOwed
      rw [show o.length - 2 = 0 by omega, List.take_zero]

end Glaive.Lib.Chunked
