/-
  Glaive.Lib.HexLines — a chunked body by its grammar alone: each chunk is a size line
  that begins with a hex digit, the data it announces, and CRLF.

  A parser may take a line without digits for one of size 0 (`Shaped`). So what a
  decoder took for a chunked body is one exactly when the data of each chunk has a CRLF
  behind it and each size line begins with a hex digit (`wellFormed_iff`).
-/

import Glaive.Lib.PrefixFree

namespace Glaive.Lib.Chunked

/-- What may stand between the digits of a size line and its CRLF: blanks, then an
    extension from the first semicolon. -/
def IsTail (tail : Bytes) : Prop :=
  ∃ ws ext, tail = ws ++ ext ∧ (∀ b ∈ ws, b = 32 ∨ b = 9) ∧ (ext = [] ∨ ∃ t, ext = 59 :: t ∧ ∀ b ∈ t, b ≠ cr)

/-- `line` is `digits`, which say `n` in hexadecimal, then a tail, then CRLF. -/
structure SaysSize (digits line : Bytes) (n : Nat) : Prop where
  hex : ∀ b ∈ digits, isHexDigit b = true
  size : hexNumber digits = n
  text : ∃ tail, IsTail tail ∧ line = digits ++ (tail ++ crlf)

/-- `line` is a size line with hex digits, of a chunk of `n` bytes. -/
def IsHexLine (line : Bytes) (n : Nat) : Prop := ∃ digits, digits ≠ [] ∧ SaysSize digits line n

/-- A size line, as much data as it says, and CRLF. -/
structure HexChunk where
  line : Bytes
  data : Bytes
  isLine : IsHexLine line data.length
  nonempty : data ≠ []

def HexChunk.text (c : HexChunk) : Bytes := c.line ++ (c.data ++ crlf)

def hexWire (cs : List HexChunk) : Bytes := cs.flatMap HexChunk.text

@[simp] theorem hexWire_nil : hexWire [] = [] := rfl
@[simp] theorem hexWire_cons (c : HexChunk) (cs : List HexChunk) : hexWire (c :: cs) = c.text ++ hexWire cs :=
  List.flatMap_cons

/-- `bs` starts with a chunked body, up to the end of the last chunk's size line. -/
def WellFormed (bs : Bytes) : Prop :=
  ∃ (cs : List HexChunk) (last rest : Bytes), IsHexLine last 0 ∧ bs = hexWire cs ++ (last ++ rest)

/-! ## Size lines -/

theorem IsTail.front {tail : Bytes} (h : IsTail tail) (rest : Bytes) :
    ((tail ++ crlf) ++ rest).takeWhile isHexDigit = [] := by
  rcases h with ⟨ws, ext, rfl, hws, hext⟩
  cases ws with
  | cons b ws =>
    have hb : isHexDigit b = false := by rcases hws b List.mem_cons_self with rfl | rfl <;> rfl
    simp [hb]
  | nil =>
    rcases hext with rfl | ⟨t, rfl, -⟩
    · rfl
    · rfl

theorem IsTail.ne_cr {tail : Bytes} (h : IsTail tail) : ∀ b ∈ tail, b ≠ cr := by
  rcases h with ⟨ws, ext, rfl, hws, hext⟩
  intro b hb
  rcases List.mem_append.mp hb with hb | hb
  · rcases hws b hb with rfl | rfl <;> decide
  · rcases hext with rfl | ⟨t, rfl, ht⟩
    · cases hb
    · rcases List.mem_cons.mp hb with rfl | hb
      · decide
      · exact ht b hb

namespace SaysSize

variable {digits line : Bytes} {n : Nat}

/-- The digits are all there are at the front. -/
theorem takeWhile_eq (h : SaysSize digits line n) : line.takeWhile isHexDigit = digits := by
  rcases h.text with ⟨tail, ht, rfl⟩
  rw [List.takeWhile_append_of_pos h.hex]
  have := ht.front []
  rw [List.append_nil] at this
  rw [this, List.append_nil]

/-- It ends at its first CR. -/
theorem untilCr (h : SaysSize digits line n) : ∃ body, (∀ b ∈ body, b ≠ cr) ∧ line = body ++ crlf := by
  rcases h.text with ⟨tail, ht, rfl⟩
  refine ⟨digits ++ tail, fun b hb => ?_, by rw [List.append_assoc]⟩
  rcases List.mem_append.mp hb with hb | hb
  · exact hexDigit_ne_cr (h.hex b hb)
  · exact ht.ne_cr b hb

theorem head_iff (h : SaysSize digits line n) : line.head?.any isHexDigit = true ↔ digits ≠ [] := by
  rw [← h.takeWhile_eq]
  cases line with
  | nil => simp
  | cons b bs => cases hb : isHexDigit b <;> simp [hb]

/-- Two size lines that begin one stream are the same, and say the same. -/
theorem unique {digits' line' rest rest' : Bytes} {n' : Nat} (h : SaysSize digits line n)
    (h' : SaysSize digits' line' n') (he : line ++ rest = line' ++ rest') : line = line' ∧ n = n' ∧ rest = rest' := by
  obtain ⟨body, hbody, hl⟩ := h.untilCr
  obtain ⟨body', hbody', hl'⟩ := h'.untilCr
  have hsame : line = line' := by
    rw [hl, hl', crlf_eq, List.append_assoc, List.append_assoc] at he
    rw [hl, hl', (untilCr_unique hbody hbody' he).1]
  subst hsame
  refine ⟨rfl, ?_, List.append_cancel_left he⟩
  rw [← h.size, ← h'.size, ← h.takeWhile_eq, ← h'.takeWhile_eq]

end SaysSize

/-! ## What a parser takes -/

/-- A line the parser takes is hex digits, perhaps none of them, then a tail, then CRLF,
    and the digits say the size. -/
def Shaped (parse : Bytes → ChunkStatus) : Prop :=
  ∀ buf i n, parse buf = .complete i n → ∃ digits, SaysSize digits (buf.take i) n

/-- From size line to size line, up to the first of size 0: does each begin with a hex
    digit? -/
def digitsOnLines (parse : Bytes → ChunkStatus) (stream : Bytes) : Bool :=
  match parse stream with
  | .complete index size =>
    stream.head?.any isHexDigit &&
      (if size = 0 then true
      else if stream.length < index + size + 2 then true
      else digitsOnLines parse (stream.drop (index + size + 2)))
  | _ => true
termination_by stream.length
decreasing_by rw [List.length_drop]; omega

variable {parse : Bytes → ChunkStatus}

theorem Shaped.isLine (hs : Shaped parse) {line : Bytes} {n : Nat} (h : IsLine parse line n) :
    ∃ digits, SaysSize digits line n := by
  have := hs _ _ _ h
  rwa [List.take_length] at this

theorem Shaped.hexLine_iff (hs : Shaped parse) {line : Bytes} {n : Nat} (h : IsLine parse line n) :
    IsHexLine line n ↔ line.head?.any isHexDigit = true := by
  obtain ⟨digits, hd⟩ := hs.isLine h
  constructor
  · intro hex
    rcases hex with ⟨digits', hne, hd'⟩
    exact hd'.head_iff.mpr hne
  · intro hhead
    exact ⟨digits, hd.head_iff.mp hhead, hd⟩

theorem Shaped.nonempty (hs : Shaped parse) {line : Bytes} {n : Nat} (h : IsLine parse line n) : line ≠ [] := by
  obtain ⟨digits, hd⟩ := hs.isLine h
  obtain ⟨tail, -, rfl⟩ := hd.text
  simp [crlf]

theorem digitsOnLines_cons (hl : Local parse) (hs : Shaped parse) (c : LooseChunk parse) (rest : Bytes) :
    digitsOnLines parse (c.text ++ rest) = (c.line.head?.any isHexDigit && digitsOnLines parse rest) := by
  have hpos := List.length_pos_of_ne_nil c.nonempty
  have hgap := c.gapSize
  have hparse : parse (c.text ++ rest) = .complete c.line.length c.data.length := by
    rw [LooseChunk.text, List.append_assoc]
    exact hl.line_append c.isLine _
  have hlen : c.text.length = c.line.length + c.data.length + 2 := by
    simp only [LooseChunk.text, List.length_append]; omega
  have hhead : (c.text ++ rest).head? = c.line.head? := by
    rw [LooseChunk.text, List.append_assoc]
    exact List.head?_append_of_ne_nil _ (hs.nonempty c.isLine)
  have hrest : (c.text ++ rest).drop (c.line.length + c.data.length + 2) = rest := by
    rw [← hlen, List.drop_left]
  rw [digitsOnLines, hparse]
  simp only
  rw [if_neg (by omega), if_neg (by rw [List.length_append]; omega), hhead, hrest]

theorem digitsOnLines_iff (hl : Local parse) (hs : Shaped parse) {last : Bytes} (hlast : IsLine parse last 0)
    (rest : Bytes) : ∀ cs : List (LooseChunk parse), digitsOnLines parse (looseWire cs ++ (last ++ rest)) = true ↔
      (∀ c ∈ cs, c.line.head?.any isHexDigit = true) ∧ last.head?.any isHexDigit = true := by
  intro cs
  induction cs with
  | nil =>
    rw [looseWire_nil, List.nil_append, digitsOnLines, hl.line_append hlast]
    simp only [if_true, Bool.and_true, List.head?_append_of_ne_nil _ (hs.nonempty hlast)]
    simp
  | cons c cs ih =>
    rw [looseWire_cons, List.append_assoc, digitsOnLines_cons hl hs, Bool.and_eq_true, ih, List.forall_mem_cons,
      and_assoc]

/-- The chunks a decoder took are chunks of the grammar, if so are their lines and gaps. -/
theorem hexWire_of_loose (hs : Shaped parse) : ∀ cs : List (LooseChunk parse), (∀ c ∈ cs, c.gap = crlf) →
    (∀ c ∈ cs, c.line.head?.any isHexDigit = true) → ∃ hcs : List HexChunk, hexWire hcs = looseWire cs := by
  intro cs
  induction cs with
  | nil => intro _ _; exact ⟨[], rfl⟩
  | cons c cs ih =>
    intro hgaps hheads
    rw [List.forall_mem_cons] at hgaps hheads
    obtain ⟨hcs, he⟩ := ih hgaps.2 hheads.2
    let hc : HexChunk := ⟨c.line, c.data, (hs.hexLine_iff c.isLine).mpr hheads.1, c.nonempty⟩
    have htext : hc.text = c.text := by rw [HexChunk.text, LooseChunk.text, hgaps.1]
    exact ⟨hc :: hcs, by rw [hexWire_cons, looseWire_cons, htext, he]⟩

/-- A body of the grammar is cut as the decoder cuts it. -/
theorem loose_of_hexWire (hs : Shaped parse) {last : Bytes} (hlast : IsLine parse last 0) {last' : Bytes}
    (hlast' : IsHexLine last' 0) : ∀ (cs : List (LooseChunk parse)) (hcs : List HexChunk) (rest rest' : Bytes),
    looseWire cs ++ (last ++ rest) = hexWire hcs ++ (last' ++ rest') →
    (∀ c ∈ cs, c.gap = crlf) ∧ (∀ c ∈ cs, c.line.head?.any isHexDigit = true) ∧ last.head?.any isHexDigit = true := by
  obtain ⟨digits, hd⟩ := hs.isLine hlast
  obtain ⟨digits', hne', hd'⟩ := hlast'
  intro cs
  induction cs with
  | nil =>
    intro hcs rest rest' he
    cases hcs with
    | nil =>
      obtain ⟨rfl, -, -⟩ := hd.unique hd' he
      exact ⟨by simp, by simp, hd'.head_iff.mpr hne'⟩
    | cons c hcs =>
      obtain ⟨_, _, hc⟩ := c.isLine
      rw [hexWire_cons, HexChunk.text, List.append_assoc, List.append_assoc] at he
      obtain ⟨-, hzero, -⟩ := hd.unique hc he
      exact absurd (List.length_eq_zero_iff.mp hzero.symm) c.nonempty
  | cons c cs ih =>
    intro hcs rest rest' he
    obtain ⟨_, hc⟩ := hs.isLine c.isLine
    rw [looseWire_cons, LooseChunk.text, List.append_assoc, List.append_assoc] at he
    cases hcs with
    | nil =>
      obtain ⟨-, hzero, -⟩ := hc.unique hd' he
      exact absurd (List.length_eq_zero_iff.mp hzero) c.nonempty
    | cons c' hcs =>
      obtain ⟨_, hne, hc'⟩ := c'.isLine
      simp only [hexWire_cons, HexChunk.text, List.append_assoc] at he
      obtain ⟨hline, hsize, he⟩ := hc.unique hc' he
      obtain ⟨-, he⟩ := List.append_inj he hsize
      obtain ⟨hgap, he⟩ := List.append_inj he c.gapSize
      obtain ⟨h1, h2, h3⟩ := ih hcs rest rest' he
      refine ⟨List.forall_mem_cons.mpr ⟨hgap, h1⟩, List.forall_mem_cons.mpr ⟨?_, h2⟩, h3⟩
      rw [hline]; exact hc'.head_iff.mpr hne

/-- What a decoder took for a chunked body is one if the stream has a CRLF behind the
    data of each chunk and a hex digit at the front of each size line, and only then. -/
theorem wellFormed_iff (hl : Local parse) (hs : Shaped parse) {cs : List (LooseChunk parse)} {last : Bytes}
    (hlast : IsLine parse last 0) (rest after : Bytes) :
    WellFormed (looseWire cs ++ (last ++ rest)) ↔
      crlfAfterData parse (looseWire cs ++ (last ++ rest) ++ after) = true ∧
      digitsOnLines parse (looseWire cs ++ (last ++ rest) ++ after) = true := by
  rw [List.append_assoc, List.append_assoc, crlfAfterData_iff hl hlast, digitsOnLines_iff hl hs hlast]
  constructor
  · intro h
    rcases h with ⟨hcs, last', rest', hlast', he⟩
    exact loose_of_hexWire hs hlast hlast' cs hcs rest rest' he
  · intro h
    rcases h with ⟨hgaps, hheads, hhead⟩
    obtain ⟨hcs, he⟩ := hexWire_of_loose hs cs hgaps hheads
    exact ⟨hcs, last, rest, (hs.hexLine_iff hlast).mpr hhead, by rw [he]⟩

/-! ## The size-line parser is shaped -/

theorem scan_ext_shaped : ∀ (buf : Bytes) (count value pos i n : Nat),
    scan .ext count value pos buf = .complete i n → pos ≤ i ∧ n = value ∧
      ∃ t, (∀ b ∈ t, b ≠ cr) ∧ buf.take (i - pos) = t ++ crlf := by
  intro buf
  induction buf with
  | nil => intro count value pos i n h; cases h
  | cons b bs ih =>
    intro count value pos i n h
    by_cases hb : b = cr
    · subst hb
      cases bs with
      | nil => unfold scan at h; cases h
      | cons c bs =>
        rw [scan_cr_cons] at h
        split at h
        · rename_i hc
          cases h
          exact ⟨by omega, rfl, [], by simp, by rw [hc, Nat.add_sub_cancel_left]; rfl⟩
        · cases h
    · rw [scan_cons_of_ne hb] at h
      simp only [LinePart.next] at h
      obtain ⟨h1, h2, t, ht, he⟩ := ih _ _ _ _ _ h
      refine ⟨by omega, h2, b :: t, List.forall_mem_cons.mpr ⟨hb, ht⟩, ?_⟩
      rw [show i - pos = i - (pos + 1) + 1 by omega, List.take_succ_cons, he, List.cons_append]

theorem scan_blanks_shaped : ∀ (buf : Bytes) (count value pos i n : Nat),
    scan .blanks count value pos buf = .complete i n → pos ≤ i ∧ n = value ∧
      ∃ tail, IsTail tail ∧ buf.take (i - pos) = tail ++ crlf := by
  intro buf
  induction buf with
  | nil => intro count value pos i n h; cases h
  | cons b bs ih =>
    intro count value pos i n h
    by_cases hb : b = cr
    · subst hb
      cases bs with
      | nil => unfold scan at h; cases h
      | cons c bs =>
        rw [scan_cr_cons] at h
        split at h
        · rename_i hc
          cases h
          exact ⟨by omega, rfl, [], ⟨[], [], rfl, by simp, Or.inl rfl⟩,
            by rw [hc, Nat.add_sub_cancel_left]; rfl⟩
        · cases h
    · rw [scan_cons_of_ne hb] at h
      simp only [LinePart.next] at h
      by_cases hsemi : b = 59
      · rw [if_pos hsemi] at h
        obtain ⟨h1, h2, t, ht, he⟩ := scan_ext_shaped _ _ _ _ _ _ h
        refine ⟨by omega, h2, b :: t, ⟨[], b :: t, rfl, by simp, Or.inr ⟨t, by rw [hsemi], ht⟩⟩, ?_⟩
        rw [show i - pos = i - (pos + 1) + 1 by omega, List.take_succ_cons, he, List.cons_append]
      · rw [if_neg hsemi] at h
        by_cases hblank : b = 32 ∨ b = 9
        · rw [if_pos hblank] at h
          obtain ⟨h1, h2, tail, ⟨ws, ext, rfl, hws, hext⟩, he⟩ := ih _ _ _ _ _ h
          refine ⟨by omega, h2, b :: (ws ++ ext), ⟨b :: ws, ext, rfl, List.forall_mem_cons.mpr ⟨hblank, hws⟩, hext⟩, ?_⟩
          rw [show i - pos = i - (pos + 1) + 1 by omega, List.take_succ_cons, he, List.cons_append]
        · rw [if_neg hblank] at h; cases h

theorem scan_digits_shaped : ∀ (buf : Bytes) (count value pos i n : Nat),
    scan .digits count value pos buf = .complete i n → pos ≤ i ∧ ∃ digits tail,
      (∀ b ∈ digits, isHexDigit b = true) ∧ digits.foldl (fun n b => 16 * n + hexValue b) value = n ∧
      IsTail tail ∧ buf.take (i - pos) = digits ++ (tail ++ crlf) := by
  intro buf
  induction buf with
  | nil => intro count value pos i n h; cases h
  | cons b bs ih =>
    intro count value pos i n h
    by_cases hb : b = cr
    · subst hb
      cases bs with
      | nil => unfold scan at h; cases h
      | cons c bs =>
        rw [scan_cr_cons] at h
        split at h
        · rename_i hc
          cases h
          exact ⟨by omega, [], [], by simp, rfl, ⟨[], [], rfl, by simp, Or.inl rfl⟩,
            by rw [hc, Nat.add_sub_cancel_left]; rfl⟩
        · cases h
    · by_cases hhex : isHexDigit b = true
      · rw [scan_cons_of_ne hb] at h
        simp only [LinePart.next, hhex, if_true] at h
        by_cases hc : count < 16
        · rw [if_pos hc] at h
          obtain ⟨h1, digits, tail, hd, hn, ht, he⟩ := ih _ _ _ _ _ h
          refine ⟨by omega, b :: digits, tail, List.forall_mem_cons.mpr ⟨hhex, hd⟩, by rw [List.foldl_cons]; exact hn, ht,
            ?_⟩
          rw [show i - pos = i - (pos + 1) + 1 by omega, List.take_succ_cons, he, List.cons_append]
        · rw [if_neg hc] at h; cases h
      · -- no more digits: the line goes on as after a blank
        have hblanks : scan .blanks count value pos (b :: bs) = .complete i n := by
          rw [scan_cons_of_ne hb] at h ⊢
          simp only [LinePart.next, hhex] at h ⊢
          exact h
        obtain ⟨h1, h2, tail, ht, he⟩ := scan_blanks_shaped _ _ _ _ _ _ hblanks
        exact ⟨h1, [], tail, by simp, h2.symm, ht, he⟩

theorem parseSizeLine_shaped : Shaped parseSizeLine := by
  intro buf i n h
  obtain ⟨-, digits, tail, hd, hn, ht, he⟩ := scan_digits_shaped _ _ _ _ _ _ h
  exact ⟨digits, hd, hn, tail, ht, he⟩

end Glaive.Lib.Chunked
