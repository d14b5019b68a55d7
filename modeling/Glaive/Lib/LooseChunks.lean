/-
  Glaive.Lib.LooseChunks — what the pull decoder takes for a chunked body, whatever it
  is given.

  The decoder passes over the two bytes behind a chunk's data by count. So what it has
  pulled is chunks with any two bytes there (`LooseChunk`, `Skim.pull`); whether they are
  a CRLF each time can be read off the stream (`crlfAfterData_iff`). It stops at the last
  size line, and has the whole message only if what it holds behind that line is the rest
  of it (`Skim.wholeBody`).
-/

import Glaive.Lib.SizeLine

namespace Glaive.Lib.Chunked

/-- What a size-line parser says of a line holds whatever follows the line. -/
structure Local (parse : Bytes → ChunkStatus) : Prop where
  within : ∀ buf i n, parse buf = .complete i n → i ≤ buf.length
  front : ∀ buf i n, parse buf = .complete i n → ∀ rest, parse (buf.take i ++ rest) = .complete i n

/-- A chunk as the decoder sees it: `gap` is the two bytes behind the data. -/
structure LooseChunk (parse : Bytes → ChunkStatus) where
  line : Bytes
  data : Bytes
  gap : Bytes
  isLine : parse line = .complete line.length data.length
  nonempty : data ≠ []
  gapSize : gap.length = 2

variable {parse : Bytes → ChunkStatus}

def LooseChunk.text (c : LooseChunk parse) : Bytes := c.line ++ (c.data ++ c.gap)

def looseWire (cs : List (LooseChunk parse)) : Bytes := cs.flatMap LooseChunk.text

@[simp] theorem looseWire_nil : looseWire ([] : List (LooseChunk parse)) = [] := rfl
@[simp] theorem looseWire_cons (c : LooseChunk parse) (cs : List (LooseChunk parse)) :
    looseWire (c :: cs) = c.text ++ looseWire cs := List.flatMap_cons
@[simp] theorem looseWire_append (as bs : List (LooseChunk parse)) :
    looseWire (as ++ bs) = looseWire as ++ looseWire bs := List.flatMap_append

/-- `line` is all of a size line, of a chunk of `n` bytes. -/
def IsLine (parse : Bytes → ChunkStatus) (line : Bytes) (n : Nat) : Prop := parse line = .complete line.length n

/-- From size line to size line, is the data of each chunk of `stream` followed by CRLF? -/
def crlfAfterData (parse : Bytes → ChunkStatus) (stream : Bytes) : Bool :=
  match parse stream with
  | .complete index size =>
    if size = 0 then true
    else if stream.length < index + size + 2 then false
    else (stream.drop (index + size)).take 2 == crlf && crlfAfterData parse (stream.drop (index + size + 2))
  | _ => true
termination_by stream.length
decreasing_by rw [List.length_drop]; omega

/-! ## The lines of a stream -/

theorem Local.isLine (hl : Local parse) {buf : Bytes} {i n : Nat} (h : parse buf = .complete i n) :
    IsLine parse (buf.take i) n ∧ (buf.take i).length = i := by
  have hlen : (buf.take i).length = i := by rw [List.length_take, Nat.min_eq_left (hl.within _ _ _ h)]
  have := hl.front _ _ _ h []
  rw [List.append_nil] at this
  exact ⟨by rw [IsLine, hlen]; exact this, hlen⟩

theorem Local.line_append (hl : Local parse) {line : Bytes} {n : Nat} (h : IsLine parse line n) (rest : Bytes) :
    parse (line ++ rest) = .complete line.length n := by
  have := hl.front _ _ _ h rest
  rwa [List.take_length] at this

theorem IsLine.nonempty (hnil : parse [] = .incomplete) {line : Bytes} {n : Nat} (h : IsLine parse line n) :
    line ≠ [] := by
  intro e
  rw [IsLine, e, hnil] at h
  cases h

theorem crlfAfterData_cons (hl : Local parse) (c : LooseChunk parse) (rest : Bytes) :
    crlfAfterData parse (c.text ++ rest) = (c.gap == crlf && crlfAfterData parse rest) := by
  have hpos := List.length_pos_of_ne_nil c.nonempty
  have hgap := c.gapSize
  have htext : c.text ++ rest = (c.line ++ c.data) ++ (c.gap ++ rest) := by simp [LooseChunk.text]
  have hd : (c.text ++ rest).drop (c.line.length + c.data.length) = c.gap ++ rest := by
    rw [htext, ← List.length_append, List.drop_left]
  have hparse : parse (c.text ++ rest) = .complete c.line.length c.data.length := by
    rw [LooseChunk.text, List.append_assoc]
    exact hl.line_append c.isLine _
  have hlen : c.line.length + c.data.length + 2 ≤ (c.text ++ rest).length := by
    simp only [LooseChunk.text, List.length_append]; omega
  rw [crlfAfterData, hparse]
  simp only
  rw [if_neg (by omega), if_neg (by omega), ← List.drop_drop (i := 2), hd, ← hgap, List.take_left, List.drop_left]

theorem crlfAfterData_iff (hl : Local parse) {last : Bytes} (hlast : IsLine parse last 0) (rest : Bytes) :
    ∀ cs : List (LooseChunk parse),
      crlfAfterData parse (looseWire cs ++ (last ++ rest)) = true ↔ ∀ c ∈ cs, c.gap = crlf := by
  intro cs
  induction cs with
  | nil =>
    rw [looseWire_nil, List.nil_append, crlfAfterData, hl.line_append hlast]
    simp
  | cons c cs ih =>
    rw [looseWire_cons, List.append_assoc, crlfAfterData_cons hl, Bool.and_eq_true, ih, beq_iff_eq,
      List.forall_mem_cons]

/-! ## What the decoder has pulled -/

/-- Where a decoder stands that has pulled `seen`. -/
inductive Skim (parse : Bytes → ChunkStatus) : Decoder → Bytes → Prop
  | ready {held : Bytes} (cs : List (LooseChunk parse)) : Skim parse (.ready held) (looseWire cs ++ held)
  | stalled {head : Bytes} (cs : List (LooseChunk parse)) : Skim parse (.stalled head) (looseWire cs ++ head)
  | owing {line came : Bytes} {n m : Nat} (cs : List (LooseChunk parse)) : IsLine parse line m → m ≠ 0 →
      came.length + n = m + 2 → Skim parse (.owing n) (looseWire cs ++ (line ++ came))
  | finished {last : Bytes} (cs : List (LooseChunk parse)) (rest : Bytes) : IsLine parse last 0 →
      Skim parse .finished (looseWire cs ++ (last ++ rest))

/-- The data of the chunks, in bytes. -/
def looseSize (cs : List (LooseChunk parse)) : Nat := (cs.map fun c => c.data.length).sum

theorem looseSize_snoc (cs : List (LooseChunk parse)) (c : LooseChunk parse) :
    looseSize (cs ++ [c]) = looseSize cs + c.data.length := by
  simp [looseSize]

/-- A decoder that has pulled `seen` and handed out `read` bytes of data. -/
inductive Taken (parse : Bytes → ChunkStatus) : Decoder → Bytes → Nat → Prop
  | ready {held : Bytes} (cs : List (LooseChunk parse)) : Taken parse (.ready held) (looseWire cs ++ held) (looseSize cs)
  | stalled {head : Bytes} (cs : List (LooseChunk parse)) :
      Taken parse (.stalled head) (looseWire cs ++ head) (looseSize cs)
  | owing {line came : Bytes} {n m : Nat} (cs : List (LooseChunk parse)) : IsLine parse line m → m ≠ 0 →
      came.length + n = m + 2 → Taken parse (.owing n) (looseWire cs ++ (line ++ came)) (looseSize cs + min came.length m)
  | finished {last : Bytes} (cs : List (LooseChunk parse)) (rest : Bytes) : IsLine parse last 0 →
      Taken parse .finished (looseWire cs ++ (last ++ rest)) (looseSize cs)

theorem skim_iff {d : Decoder} {seen : Bytes} : Skim parse d seen ↔ ∃ read, Taken parse d seen read := by
  constructor
  · intro h
    cases h with
    | ready cs => exact ⟨_, .ready cs⟩
    | stalled cs => exact ⟨_, .stalled cs⟩
    | owing cs h hm hn => exact ⟨_, .owing cs h hm hn⟩
    | finished cs rest h => exact ⟨_, .finished cs rest h⟩
  · intro h
    rcases h with ⟨read, h⟩
    cases h with
    | ready cs => exact .ready cs
    | stalled cs => exact .stalled cs
    | owing cs h hm hn => exact .owing cs h hm hn
    | finished cs rest h => exact .finished cs rest h

/-- The data a pull hands out. -/
def Pull.size : Pull → Nat
  | .slice bs => bs.length
  | _ => 0

/-- With `more` come of a chunk that owes `n`. -/
theorem Taken.settle {line came more : Bytes} {n m : Nat} (cs : List (LooseChunk parse)) (h : IsLine parse line m)
    (hm : m ≠ 0) (hn : came.length + n = m + 2) :
    Taken parse (Chunked.settle n more) (looseWire cs ++ (line ++ (came ++ more)))
      (looseSize cs + min (came.length + more.length) m) := by
  unfold Chunked.settle
  by_cases hlt : more.length < n
  · rw [if_pos hlt, ← List.length_append]
    refine .owing cs h hm ?_
    rw [List.length_append]; omega
  · rw [if_neg hlt]
    -- the chunk is whole: its data, then two bytes
    have hbody : (came ++ more.take n).length = m + 2 := by
      rw [List.length_append, List.length_take]; omega
    have hdata : ((came ++ more.take n).take m).length = m := by rw [List.length_take]; omega
    let c : LooseChunk parse :=
      { line := line
        data := (came ++ more.take n).take m
        gap := (came ++ more.take n).drop m
        isLine := by rw [hdata]; exact h
        nonempty := by intro e; rw [e, List.length_nil] at hdata; omega
        gapSize := by rw [List.length_drop]; omega }
    have htext : c.text = line ++ (came ++ more.take n) := by
      show line ++ ((came ++ more.take n).take m ++ (came ++ more.take n).drop m) = _
      rw [List.take_append_drop]
    have hsize : looseSize (cs ++ [c]) = looseSize cs + min (came.length + more.length) m := by
      rw [looseSize_snoc, show c.data.length = m from hdata]
      omega
    have : Taken parse (.ready (more.drop n)) (looseWire (cs ++ [c]) ++ more.drop n) (looseSize (cs ++ [c])) :=
      .ready (cs ++ [c])
    rw [hsize, looseWire_append, looseWire_cons, looseWire_nil, htext] at this
    simp only [List.append_nil, List.append_assoc, List.take_append_drop] at this
    exact this

theorem Taken.takeLine (hl : Local parse) (limit : Nat) (cs : List (LooseChunk parse)) (avail : Bytes) {p : Pull}
    {d : Decoder} (h : Chunked.takeLine parse limit avail = (p, d)) (hp : p ≠ .fail) :
    Taken parse d (looseWire cs ++ avail) (looseSize cs + p.size) := by
  unfold Chunked.takeLine at h
  cases hq : parse avail with
  | complete i n =>
    obtain ⟨hline, hi⟩ := hl.isLine hq
    have hcut : avail = avail.take i ++ avail.drop i := (List.take_append_drop i avail).symm
    rw [hq] at h
    simp only at h
    split at h
    · rename_i hn
      cases h
      rw [hn] at hline
      rw [hcut]
      exact .finished cs _ hline
    · rename_i hn
      cases h
      have : Taken parse (Chunked.settle (n + 2) (avail.drop i))
          (looseWire cs ++ (avail.take i ++ ([] ++ avail.drop i)))
          (looseSize cs + min (([] : Bytes).length + (avail.drop i).length) n) :=
        Taken.settle cs hline hn (by simp)
      have hs := settle_append (avail.take i) (avail.drop i) (n + 2)
      rw [hi, ← Nat.add_assoc, ← hcut] at hs
      rw [hs]
      rw [List.nil_append, ← hcut, List.length_nil, Nat.zero_add, Nat.min_comm, ← List.length_take] at this
      exact this
  | incomplete =>
    rw [hq] at h
    simp only at h
    split at h
    · cases h; exact absurd rfl hp
    · cases h; exact .stalled cs
  | invalid => rw [hq] at h; cases h; exact absurd rfl hp

/-- A pull that does not fail. -/
theorem Taken.pull (hl : Local parse) (limit : Nat) {d d' : Decoder} {seen bs : Bytes} {read : Nat} {p : Pull}
    (h : Taken parse d seen read) (hd : d ≠ .finished) (he : d.pull parse limit bs = (p, d')) (hp : p ≠ .fail) :
    Taken parse d' (seen ++ bs) (read + p.size) := by
  cases h with
  | ready cs => rw [List.append_assoc]; exact Taken.takeLine hl limit cs _ he hp
  | stalled cs => rw [List.append_assoc]; exact Taken.takeLine hl limit cs _ he hp
  | @owing line came n m cs hline hm hn =>
    simp only [Decoder.pull, takeOwed, Prod.mk.injEq] at he
    obtain ⟨rfl, rfl⟩ := he
    rw [List.append_assoc, List.append_assoc]
    have hsize : looseSize cs + min came.length m + Pull.size (.slice (bs.take (n - 2))) =
        looseSize cs + min (came.length + bs.length) m := by
      rw [Pull.size, List.length_take]; omega
    rw [hsize]
    exact Taken.settle cs hline hm hn
  | finished => exact absurd rfl hd

theorem Skim.pull (hl : Local parse) (limit : Nat) {d d' : Decoder} {seen bs : Bytes} {p : Pull}
    (h : Skim parse d seen) (hd : d ≠ .finished) (he : d.pull parse limit bs = (p, d')) (hp : p ≠ .fail) :
    Skim parse d' (seen ++ bs) := by
  obtain ⟨read, hread⟩ := skim_iff.mp h
  exact skim_iff.mpr ⟨_, hread.pull hl limit hd he hp⟩

/-! ## Sizes that fit -/

/-- From size line to size line, each chunk that is announced ends below `2^64`, counted
    from its line, and so does the data there is up to it. -/
def SizesFit (parse : Bytes → ChunkStatus) (bs : Bytes) : Prop :=
  ∀ (cs : List (LooseChunk parse)) (line rest : Bytes) (size : Nat), bs = looseWire cs ++ (line ++ rest) →
    IsLine parse line size → size ≠ 0 →
    line.length + size + 2 < usizeEnd ∧ looseSize cs + min size rest.length < usizeEnd

/-- What the decoder has handed out fits too. -/
theorem SizesFit.looseSize_lt {bs : Bytes} (h : SizesFit parse bs) (cs : List (LooseChunk parse)) (rest : Bytes)
    (he : bs = looseWire cs ++ rest) : looseSize cs < usizeEnd := by
  rcases List.eq_nil_or_concat' cs with rfl | ⟨cs, c, rfl⟩
  · show 0 < usizeEnd
    decide
  · have hpos := List.length_pos_of_ne_nil c.nonempty
    have := (h cs c.line (c.data ++ (c.gap ++ rest)) c.data.length (by simp [he, LooseChunk.text]) c.isLine
      (by omega)).2
    rw [List.length_append, Nat.min_eq_left (by omega)] at this
    rw [looseSize_snoc]
    exact this

/-- The sums of a pull of it stay below `2^64`. -/
theorem Taken.fits (hl : Local parse) (limit : Nat) {d : Decoder} {seen x rest : Bytes} {read : Nat}
    (h : Taken parse d seen read) (hd : d ≠ .finished) (hfit : SizesFit parse (seen ++ x ++ rest))
    (hx : x.length + 2 < usizeEnd) :
    d.Fits parse x ∧ ∀ y d', d.pull parse limit x = (.slice y, d') → read + y.length < usizeEnd := by
  have line : ∀ (cs : List (LooseChunk parse)) (held : Bytes), seen = looseWire cs ++ held →
      (∀ i n, parse (held ++ x) = .complete i n → i ≤ (held ++ x).length ∧ (n ≠ 0 → i + n + 2 < usizeEnd)) ∧
      ∀ y d', Chunked.takeLine parse limit (held ++ x) = (.slice y, d') → looseSize cs + y.length < usizeEnd := by
    intro cs held hseen
    have cut : ∀ i n, parse (held ++ x) = .complete i n → n ≠ 0 →
        i + n + 2 < usizeEnd ∧ looseSize cs + min n ((held ++ x).length - i) < usizeEnd := by
      intro i n hp hn
      obtain ⟨hline, hi⟩ := hl.isLine hp
      obtain ⟨h1, h2⟩ := hfit cs ((held ++ x).take i) ((held ++ x).drop i ++ rest) n
        (by rw [hseen, ← List.append_assoc ((held ++ x).take i), List.take_append_drop]; simp) hline hn
      rw [hi] at h1
      rw [List.length_append, List.length_drop] at h2
      exact ⟨h1, by omega⟩
    refine ⟨fun i n hp => ⟨hl.within _ _ _ hp, fun hn => (cut i n hp hn).1⟩, fun y d' hy => ?_⟩
    unfold Chunked.takeLine at hy
    cases hp : parse (held ++ x) with
    | complete i n =>
      rw [hp] at hy
      simp only at hy
      split at hy
      · cases hy
      · cases hy
        rw [List.length_take, List.length_drop]
        exact (cut i n hp ‹_›).2
    | incomplete =>
      rw [hp] at hy
      simp only at hy
      split at hy
      · cases hy
      · cases hy
        exact hfit.looseSize_lt cs (held ++ (x ++ rest)) (by simp [hseen])
    | invalid => rw [hp] at hy; cases hy
  cases h with
  | ready cs => exact line cs _ rfl
  | stalled cs => exact line cs _ rfl
  | @owing l came n m cs hline hm hn =>
    refine ⟨hx, fun y d' hy => ?_⟩
    simp only [Decoder.pull, takeOwed, Prod.mk.injEq, Pull.slice.injEq] at hy
    obtain ⟨rfl, -⟩ := hy
    have := (hfit cs l (came ++ (x ++ rest)) m (by simp) hline hm).2
    simp only [List.length_append] at this
    rw [List.length_take]; omega
  | finished => exact absurd rfl hd

/-! ## Where a stream stops -/

/-- From size line to size line, `bs` comes to a last chunk's. -/
def HasLast (parse : Bytes → ChunkStatus) (bs : Bytes) : Prop :=
  ∃ (cs : List (LooseChunk parse)) (last rest : Bytes), IsLine parse last 0 ∧ bs = looseWire cs ++ (last ++ rest)

/-- From size line to size line, `bs` comes to the first bytes of a size line, no more
    than `limit`, and stops there. -/
def EndsInLine (parse : Bytes → ChunkStatus) (limit : Nat) (bs : Bytes) : Prop :=
  ∃ (cs : List (LooseChunk parse)) (head : Bytes), head ≠ [] ∧ parse head = .incomplete ∧ head.length ≤ limit ∧
    bs = looseWire cs ++ head

theorem takeLine_done {limit : Nat} {avail : Bytes} {d : Decoder} (h : takeLine parse limit avail = (.done, d)) :
    d = .finished := by
  unfold takeLine at h
  split at h
  · split at h
    · cases h
      rfl
    · cases h
  · split at h <;> cases h
  · cases h

/-- A decoder ends only at a last size line. -/
theorem Taken.hasLast (hl : Local parse) {limit : Nat} {d d' : Decoder} {seen bs : Bytes} {read : Nat}
    (h : Taken parse d seen read) (hd : d ≠ .finished) (he : d.pull parse limit bs = (.done, d')) (rest : Bytes) :
    HasLast parse (seen ++ bs ++ rest) := by
  have hfin : d' = .finished := by
    cases d with
    | ready held => exact takeLine_done he
    | stalled head => exact takeLine_done he
    | owing n => cases he
    | finished => exact absurd rfl hd
    | failed => cases he
  subst hfin
  have ht := h.pull hl limit hd he (by simp)
  generalize seen ++ bs = taken at ht
  cases ht with
  | finished cs rest' hlast => exact ⟨cs, _, rest' ++ rest, hlast, by simp only [List.append_assoc]⟩

/-! ## Up to the end of the message -/

/-- Trailer fields: lines, none of them empty. -/
def Trailers (bs : Bytes) : Prop :=
  ∃ lines : List Bytes, (∀ l ∈ lines, l ≠ [] ∧ ∀ b ∈ l, b ≠ cr ∧ b ≠ lf) ∧ bs = (lines.map (· ++ crlf)).flatten

/-- All of a chunked body, with its trailer fields and the empty line behind them. -/
def WholeBody (parse : Bytes → ChunkStatus) (bs : Bytes) : Prop :=
  ∃ (cs : List (LooseChunk parse)) (last trailers : Bytes), (∀ c ∈ cs, c.gap = crlf) ∧ IsLine parse last 0 ∧
    Trailers trailers ∧ bs = looseWire cs ++ (last ++ (trailers ++ crlf))

/-- `window` starts with the last size line, and ends with the message. -/
def EndsBody (parse : Bytes → ChunkStatus) (window : Bytes) : Prop :=
  ∃ (index : Nat) (trailers : Bytes), parse window = .complete index 0 ∧ Trailers trailers ∧
    window.drop index = trailers ++ crlf

/-- The pull that ends a body has pulled it whole, if the bytes it goes by end with the
    message, and the stream has a CRLF behind the data of each chunk. -/
theorem Skim.wholeBody (hl : Local parse) {limit : Nat} {d d' : Decoder} {seen bs after : Bytes}
    (h : Skim parse d seen) (hd : d ≠ .finished) (he : d.pull parse limit bs = (.done, d'))
    (hend : EndsBody parse (d.held ++ bs)) (hcrlf : crlfAfterData parse (seen ++ bs ++ after) = true) :
    WholeBody parse (seen ++ bs) := by
  obtain ⟨index, trailers, hp, htr, hdrop⟩ := hend
  obtain ⟨hline, -⟩ := hl.isLine hp
  have hwindow : d.held ++ bs = (d.held ++ bs).take index ++ (trailers ++ crlf) := by
    rw [← hdrop, List.take_append_drop]
  have whole : ∀ cs : List (LooseChunk parse), seen = looseWire cs ++ d.held → WholeBody parse (seen ++ bs) := by
    intro cs hseen
    have hall : seen ++ bs = looseWire cs ++ ((d.held ++ bs).take index ++ (trailers ++ crlf)) := by
      rw [hseen, List.append_assoc, ← hwindow]
    refine ⟨cs, _, trailers, ?_, hline, htr, hall⟩
    rw [hall, List.append_assoc, List.append_assoc] at hcrlf
    exact (crlfAfterData_iff hl hline _ cs).mp hcrlf
  cases h with
  | ready cs => exact whole cs rfl
  | stalled cs => exact whole cs rfl
  | owing cs => cases he
  | finished => exact absurd rfl hd

/-! ## The size-line parser is local -/

theorem scan_local : ∀ (buf : Bytes) (part : LinePart) (count value pos i n : Nat),
    scan part count value pos buf = .complete i n → pos ≤ i ∧ i ≤ pos + buf.length ∧
      ∀ rest, scan part count value pos (buf.take (i - pos) ++ rest) = .complete i n := by
  intro buf
  induction buf with
  | nil => intro part count value pos i n h; cases part <;> cases h
  | cons b bs ih =>
    intro part count value pos i n h
    by_cases hb : b = cr
    · subst hb
      cases bs with
      | nil => unfold scan at h; cases h
      | cons c bs =>
        rw [scan_cr_cons] at h
        split at h
        · rename_i hc
          cases h
          refine ⟨by omega, by simp, fun rest => ?_⟩
          rw [Nat.add_sub_cancel_left]
          show scan part count value pos (cr :: c :: rest) = _
          rw [scan_cr_cons, if_pos hc]
        · cases h
    · rw [scan_cons_of_ne hb] at h
      -- one more byte of the line, then the rest of it
      have step : ∀ (part' : LinePart) (count' value' : Nat),
          scan part' count' value' (pos + 1) bs = .complete i n → pos ≤ i ∧ i ≤ pos + (b :: bs).length ∧
            ∀ rest, ∃ rest', (b :: bs).take (i - pos) ++ rest = b :: rest' ∧
              scan part' count' value' (pos + 1) rest' = .complete i n := by
        intro part' count' value' h
        obtain ⟨h1, h2, h3⟩ := ih _ _ _ _ _ _ h
        refine ⟨by omega, by rw [List.length_cons]; omega, fun rest => ⟨_, ?_, h3 rest⟩⟩
        rw [show i - pos = i - (pos + 1) + 1 by omega, List.take_succ_cons, List.cons_append]
      cases hn : part.next count b with
      | none => rw [hn] at h; cases h
      | some part' =>
        rw [hn] at h
        cases part' with
        | digits =>
          obtain ⟨h1, h2, h3⟩ := step _ _ _ h
          refine ⟨h1, h2, fun rest => ?_⟩
          obtain ⟨rest', he, h4⟩ := h3 rest
          rw [he, scan_cons_of_ne hb, hn]; exact h4
        | blanks =>
          obtain ⟨h1, h2, h3⟩ := step _ _ _ h
          refine ⟨h1, h2, fun rest => ?_⟩
          obtain ⟨rest', he, h4⟩ := h3 rest
          rw [he, scan_cons_of_ne hb, hn]; exact h4
        | ext =>
          obtain ⟨h1, h2, h3⟩ := step _ _ _ h
          refine ⟨h1, h2, fun rest => ?_⟩
          obtain ⟨rest', he, h4⟩ := h3 rest
          rw [he, scan_cons_of_ne hb, hn]; exact h4

theorem parseSizeLine_local : Local parseSizeLine where
  within buf i n h := by
    have := (scan_local buf _ _ _ _ _ _ h).2.1
    omega
  front buf i n h := (scan_local buf _ _ _ _ _ _ h).2.2

end Glaive.Lib.Chunked
