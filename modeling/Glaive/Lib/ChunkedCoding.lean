/-
  Glaive.Lib.ChunkedCoding — the chunked transfer coding, and a pull decoder for it.

  A chunked body is chunks (a size line, that many bytes, CRLF) and a last chunk's
  size line; what follows (trailers, the final CRLF, later messages) is `rest`.

  The decoder keeps what it must between pulls and no more: bytes it holds and has not
  looked at (`ready`), a size line it has only part of (`stalled`), or how many bytes
  of data and CRLF the chunk it is in still owes (`owing`). It takes a size-line parser
  as a parameter. `At` says where in a body a decoder stands; a pull from there gives
  the next bytes of data, or the end exactly at the end (`At.pull`), whatever bytes
  its read finds, and lowers `weight`.
-/

import Glaive.Lib.Bytes

namespace Glaive.Lib.Chunked

/-! ## The grammar -/

def isHexDigit (b : Byte) : Bool := (48 ≤ b && b ≤ 57) || (65 ≤ b && b ≤ 70) || (97 ≤ b && b ≤ 102)

def hexValue (b : Byte) : Nat :=
  if b ≤ 57 then b.toNat - 48 else if b ≤ 70 then b.toNat - 55 else b.toNat - 87

def hexNumber (ds : Bytes) : Nat := ds.foldl (fun n b => 16 * n + hexValue b) 0

/-- A chunk extension: nothing, or blanks, a semicolon and anything but CR and LF. -/
def IsExt (ext : Bytes) : Prop :=
  ext = [] ∨ ∃ ws t, ext = ws ++ 59 :: t ∧ (∀ b ∈ ws, b = 32 ∨ b = 9) ∧ ∀ b ∈ t, b ≠ cr ∧ b ≠ lf

theorem isExt_nil : IsExt [] := .inl rfl

/-- A size line, with no more digits than a 64-bit size has. -/
structure SizeLine where
  digits : Bytes
  ext : Bytes
  nonempty : digits ≠ []
  short : digits.length ≤ 16
  hex : ∀ b ∈ digits, isHexDigit b = true
  isExt : IsExt ext

def SizeLine.size (l : SizeLine) : Nat := hexNumber l.digits

def SizeLine.text (l : SizeLine) : Bytes := l.digits ++ l.ext ++ crlf

structure Chunk where
  line : SizeLine
  data : Bytes
  sized : line.size = data.length
  nonempty : data ≠ []

def Chunk.text (c : Chunk) : Bytes := c.line.text ++ c.data ++ crlf

structure Body where
  chunks : List Chunk
  last : SizeLine
  lastZero : last.size = 0

def wire (cs : List Chunk) : Bytes := cs.flatMap Chunk.text

def dataOf (cs : List Chunk) : Bytes := cs.flatMap Chunk.data

namespace Body

variable (B : Body)

/-- The body up to the end of the last chunk's size line. -/
def text : Bytes := wire B.chunks ++ B.last.text

def data : Bytes := dataOf B.chunks

def lines : List SizeLine := B.chunks.map Chunk.line ++ [B.last]

end Body

@[simp] theorem wire_nil : wire [] = [] := rfl
@[simp] theorem wire_cons (c : Chunk) (cs : List Chunk) : wire (c :: cs) = c.text ++ wire cs := List.flatMap_cons
@[simp] theorem wire_append (as bs : List Chunk) : wire (as ++ bs) = wire as ++ wire bs := List.flatMap_append
@[simp] theorem dataOf_nil : dataOf [] = [] := rfl
@[simp] theorem dataOf_cons (c : Chunk) (cs : List Chunk) : dataOf (c :: cs) = c.data ++ dataOf cs :=
  List.flatMap_cons
@[simp] theorem dataOf_append (as bs : List Chunk) : dataOf (as ++ bs) = dataOf as ++ dataOf bs :=
  List.flatMap_append

theorem SizeLine.text_length (l : SizeLine) : 3 ≤ l.text.length := by
  have := List.length_pos_of_ne_nil l.nonempty
  simp only [SizeLine.text, crlf, List.length_append, List.length_cons, List.length_nil]; omega

theorem Chunk.text_length (c : Chunk) : c.text.length = c.line.text.length + c.data.length + 2 := by
  simp [Chunk.text, crlf]; omega

theorem length_dataOf_le (cs : List Chunk) : (dataOf cs).length ≤ (wire cs).length := by
  induction cs with
  | nil => exact Nat.le_refl _
  | cons c cs ih =>
    rw [dataOf_cons, wire_cons, List.length_append, List.length_append, c.text_length]; omega

theorem Body.data_length_le (B : Body) : B.data.length ≤ B.text.length := by
  unfold Body.data Body.text
  rw [List.length_append]
  exact (length_dataOf_le B.chunks).trans (Nat.le_add_right _ _)

/-! ## The decoder -/

/-- What a size-line parser says of the bytes it is given. -/
inductive ChunkStatus where
  | complete (index size : Nat)
  | incomplete
  | invalid
  deriving DecidableEq, Repr

inductive Decoder where
  | ready (held : Bytes)
  | stalled (head : Bytes)
  | owing (n : Nat)
  | finished
  | failed
  deriving DecidableEq, Repr

inductive Pull where
  | slice (bs : Bytes)
  | done
  | fail
  deriving DecidableEq, Repr

/-- The decoder must read before it can go on. -/
def Decoder.reads : Decoder → Bool
  | .ready held => held.isEmpty
  | .stalled _ => true
  | .owing _ => true
  | .finished => false
  | .failed => false

/-- The bytes held and not yet passed over. -/
def Decoder.held : Decoder → Bytes
  | .ready held => held
  | .stalled head => head
  | _ => []

/-- The state after `n` bytes are passed over, of which `avail` has come. -/
def settle (n : Nat) (avail : Bytes) : Decoder :=
  if avail.length < n then .owing (n - avail.length) else .ready (avail.drop n)

variable (parse : Bytes → ChunkStatus) (limit : Nat)

def takeLine (avail : Bytes) : Pull × Decoder :=
  match parse avail with
  | .complete index size =>
    if size = 0 then (.done, .finished)
    else (.slice ((avail.drop index).take size), settle (index + size + 2) avail)
  | .incomplete => if limit < avail.length then (.fail, .failed) else (.slice [], .stalled avail)
  | .invalid => (.fail, .failed)

/-- The last two owed bytes are the CRLF. -/
def takeOwed (n : Nat) (avail : Bytes) : Pull × Decoder := (.slice (avail.take (n - 2)), settle n avail)

/-- One pull, with the bytes its read found, if it reads. -/
def Decoder.pull (bs : Bytes) : Decoder → Pull × Decoder
  | .ready held => takeLine parse limit (held ++ bs)
  | .stalled head => takeLine parse limit (head ++ bs)
  | .owing n => takeOwed n bs
  | .finished => (.done, .finished)
  | .failed => (.fail, .failed)

/-- A pull that reads `m` of the bytes still to come lowers this. -/
def Decoder.weight (toCome : Nat) : Decoder → Nat
  | .ready held => 3 * toCome + 2 * held.length + 1
  | .stalled head => 3 * toCome + 2 * head.length
  | _ => 3 * toCome

/-- The parser takes a size line for what it is, and wants more on each strict prefix. -/
structure Recognizes (l : SizeLine) : Prop where
  complete : ∀ rest, parse (l.text ++ rest) = .complete l.text.length l.size
  incomplete : ∀ p, p <+: l.text → p ≠ l.text → parse p = .incomplete

/-! ## Where a decoder stands in a body -/

variable (B : Body) (rest : Bytes)

/-- What follows the chunks that are gone. -/
def tail (cs : List Chunk) : Bytes := wire cs ++ B.last.text ++ rest

/-- The size line at a chunk boundary. -/
def lineOf (cs : List Chunk) : SizeLine := (cs.head?.map Chunk.line).getD B.last

/-- `At d toCome left`: the decoder stands in the body with `toCome` unread and `left`
    of its data not handed out. In a chunk, `o` of its data and CRLF is owed. -/
inductive At : Decoder → Bytes → Bytes → Prop
  | ready {pre cs : List Chunk} {held toCome : Bytes} : B.chunks = pre ++ cs →
      held ++ toCome = tail B rest cs → At (.ready held) toCome (dataOf cs)
  | stalled {pre cs : List Chunk} {head toCome : Bytes} : B.chunks = pre ++ cs →
      head ++ toCome = tail B rest cs → head ≠ [] → head <+: (lineOf B cs).text → head ≠ (lineOf B cs).text →
      At (.stalled head) toCome (dataOf cs)
  | owing {pre cs : List Chunk} {c : Chunk} {o : Bytes} : B.chunks = pre ++ c :: cs → o <:+ c.data ++ crlf →
      o ≠ [] → At (.owing o.length) (o ++ tail B rest cs) (o.take (o.length - 2) ++ dataOf cs)
  | finished {toCome : Bytes} : At .finished toCome []

variable {parse limit B rest}

theorem at_start {held toCome : Bytes} (h : held ++ toCome = B.text ++ rest) :
    At B rest (.ready held) toCome B.data :=
  .ready (show B.chunks = [] ++ B.chunks from rfl) h

theorem settle_append (a b : Bytes) (n : Nat) : settle (a.length + n) (a ++ b) = settle n b := by
  unfold settle
  rw [List.length_append]
  by_cases h : b.length < n
  · rw [if_pos (by omega), if_pos h]; congr 1; omega
  · rw [if_neg (by omega), if_neg h, List.drop_length_add_append]

/-- Passing over the owed bytes `o`: what has come of their data is handed out. -/
theorem At.settle {pre cs : List Chunk} {c : Chunk} {o avail toCome : Bytes} (hB : B.chunks = pre ++ c :: cs)
    (ho : o <:+ c.data ++ crlf) (h : avail ++ toCome = o ++ tail B rest cs) :
    ∃ left, o.take (o.length - 2) ++ dataOf cs = avail.take (o.length - 2) ++ left ∧
      At B rest (settle o.length avail) toCome left := by
  unfold Chunked.settle
  by_cases hlt : avail.length < o.length
  · obtain ⟨u, rfl, rfl⟩ : ∃ u, o = avail ++ u ∧ toCome = u ++ tail B rest cs := by
      rcases List.append_eq_append_iff.mp h with ⟨u, h1, h2⟩ | ⟨u, h1, h2⟩
      · exact ⟨u, h1, h2⟩
      · have := congrArg List.length h1
        simp only [List.length_append] at this; omega
    rw [List.length_append] at hlt
    have hu : u ≠ [] := by intro e; subst e; simp at hlt
    rw [List.length_append, if_pos (by omega), Nat.add_sub_cancel_left]
    refine ⟨u.take (u.length - 2) ++ dataOf cs, ?_, .owing hB ((List.suffix_append _ _).trans ho) hu⟩
    rw [List.take_append, List.append_assoc]
    congr 3; omega
  · obtain ⟨w, rfl, hw⟩ : ∃ w, avail = o ++ w ∧ w ++ toCome = tail B rest cs := by
      rcases List.append_eq_append_iff.mp h with ⟨u, h1, h2⟩ | ⟨u, h1, h2⟩
      · have := congrArg List.length h1
        simp only [List.length_append] at this
        have hu : u = [] := List.eq_nil_of_length_eq_zero (by omega)
        subst hu
        exact ⟨[], by simpa using h1.symm, by simpa using h2⟩
      · exact ⟨u, h1, h2.symm⟩
    rw [if_neg hlt, List.drop_left]
    refine ⟨dataOf cs, ?_, .ready (show B.chunks = (pre ++ [c]) ++ cs by simp [hB]) hw⟩
    rw [List.take_append_of_le_length (Nat.sub_le _ _)]

theorem lineOf_mem (pre cs : List Chunk) (hB : B.chunks = pre ++ cs) : lineOf B cs ∈ B.lines := by
  unfold lineOf Body.lines
  cases cs with
  | nil => simp
  | cons c cs => simp [hB]

/-- At a chunk boundary the bytes start with its size line, and the line of a chunk
    with its data and CRLF. -/
theorem tail_eq (B : Body) (rest : Bytes) (cs : List Chunk) : ∃ w, tail B rest cs = (lineOf B cs).text ++ w ∧
    (cs = [] ∧ (lineOf B cs).size = 0 ∨
      ∃ c cs', cs = c :: cs' ∧ lineOf B cs = c.line ∧ w = c.data ++ crlf ++ tail B rest cs') := by
  cases cs with
  | nil => exact ⟨rest, by simp [tail, lineOf], Or.inl ⟨rfl, B.lastZero⟩⟩
  | cons c cs =>
    refine ⟨c.data ++ crlf ++ tail B rest cs, ?_, Or.inr ⟨c, cs, rfl, rfl, rfl⟩⟩
    simp [tail, lineOf, Chunk.text]

/-- What a pull from a position of the body comes to. -/
inductive Pulled (parse : Bytes → ChunkStatus) (limit : Nat) (B : Body) (rest toCome left : Bytes) (w : Nat) :
    Pull × Decoder → Prop
  | done : left = [] → Pulled parse limit B rest toCome left w (.done, .finished)
  | slice {x left' : Bytes} {d : Decoder} : left = x ++ left' → At B rest d toCome left' →
      d.weight toCome.length < w → Pulled parse limit B rest toCome left w (.slice x, d)
  | tooLong (l : SizeLine) : l ∈ B.lines → limit < l.text.length →
      Pulled parse limit B rest toCome left w (.fail, .failed)

theorem weight_settle (n : Nat) (avail : Bytes) (toCome : Nat) :
    (settle n avail).weight toCome ≤ 3 * toCome + 2 * (avail.length - n) + 1 := by
  unfold settle
  split
  · simp only [Decoder.weight]; omega
  · simp only [Decoder.weight, List.length_drop]; omega

/-- A pull that reads something where it must, and nothing elsewhere, lowers the weight. -/
theorem Decoder.pull_weight {d d' : Decoder} {bs y : Bytes} (hd : d ≠ .owing 0) (hbs : d.reads = true ↔ bs ≠ [])
    (hp : d.pull parse limit bs = (.slice y, d')) (toCome : Nat) : d'.weight toCome < d.weight (bs.length + toCome) := by
  have line : ∀ avail, takeLine parse limit avail = (.slice y, d') → (∃ n, 2 ≤ n ∧ d' = settle n avail) ∨
      d' = .stalled avail := by
    intro avail h
    unfold takeLine at h
    cases hq : parse avail with
    | complete i n =>
      rw [hq] at h
      simp only at h
      split at h
      · cases h
      · cases h
        exact .inl ⟨_, Nat.le_add_left 2 (i + n), rfl⟩
    | incomplete =>
      rw [hq] at h
      simp only at h
      split at h
      · cases h
      · cases h
        exact .inr rfl
    | invalid => rw [hq] at h; cases h
  cases d with
  | ready held =>
    have hpos : 0 < (held ++ bs).length := by
      apply List.length_pos_of_ne_nil
      intro e
      obtain ⟨rfl, rfl⟩ := List.append_eq_nil_iff.mp e
      simp [Decoder.reads] at hbs
    rcases line _ hp with ⟨n, hn, rfl⟩ | rfl
    · refine (weight_settle n _ toCome).trans_lt ?_
      simp only [Decoder.weight]
      rw [List.length_append] at hpos ⊢
      omega
    · simp only [Decoder.weight]
      rw [List.length_append]
      omega
  | stalled head =>
    have hb : 0 < bs.length := List.length_pos_of_ne_nil (hbs.mp rfl)
    rcases line _ hp with ⟨n, hn, rfl⟩ | rfl
    · refine (weight_settle n _ toCome).trans_lt ?_
      simp only [Decoder.weight]
      rw [List.length_append]
      omega
    · simp only [Decoder.weight]
      rw [List.length_append]
      omega
  | owing n =>
    have hb : 0 < bs.length := List.length_pos_of_ne_nil (hbs.mp rfl)
    have hn : n ≠ 0 := fun e => hd (by rw [e])
    simp only [Decoder.pull, takeOwed, Prod.mk.injEq] at hp
    obtain ⟨-, rfl⟩ := hp
    refine (weight_settle n bs toCome).trans_lt ?_
    simp only [Decoder.weight]
    omega
  | finished => cases hp
  | failed => cases hp

theorem Pulled.mono {toCome left : Bytes} {w w' : Nat} (hw : w ≤ w') {r : Pull × Decoder}
    (h : Pulled parse limit B rest toCome left w r) : Pulled parse limit B rest toCome left w' r := by
  cases h with
  | done h => exact .done h
  | slice h1 h2 h3 => exact .slice h1 h2 (by omega)
  | tooLong l h1 h2 => exact .tooLong l h1 h2

/-- Two ways to cut the same bytes: one cut is before the other or not. -/
theorem append_cut {a b c d : Bytes} (h : a ++ b = c ++ d) :
    (∃ u, u ≠ [] ∧ c = a ++ u ∧ b = u ++ d) ∨ ∃ v, a = c ++ v ∧ d = v ++ b := by
  rcases List.append_eq_append_iff.mp h with ⟨u, h1, h2⟩ | ⟨v, h1, h2⟩
  · by_cases hu : u = []
    · subst hu; exact Or.inr ⟨[], by simpa using h1.symm, by simpa using h2.symm⟩
    · exact Or.inl ⟨u, hu, h1, h2⟩
  · exact Or.inr ⟨v, h1, h2⟩

/-- A pull at a chunk boundary, with `avail` come. -/
theorem At.takeLine (limit : Nat) {pre cs : List Chunk} {avail toCome : Bytes} (hB : B.chunks = pre ++ cs)
    (hr : Recognizes parse (lineOf B cs)) (hne : avail ≠ []) (h : avail ++ toCome = tail B rest cs) :
    Pulled parse limit B rest toCome (dataOf cs) (3 * toCome.length + 2 * avail.length + 1)
      (Chunked.takeLine parse limit avail) := by
  obtain ⟨w, hw, hcs⟩ := tail_eq B rest cs
  have hlen := (lineOf B cs).text_length
  unfold Chunked.takeLine
  rcases append_cut (h.trans hw) with ⟨u, hu, h1, h2⟩ | ⟨a, rfl, h2⟩
  · -- only part of the line has come
    have hp : avail <+: (lineOf B cs).text := ⟨u, h1.symm⟩
    have hpne : avail ≠ (lineOf B cs).text := by
      intro e
      rw [← e] at h1
      exact hu (by simpa using h1)
    rw [hr.incomplete avail hp hpne]
    simp only
    split
    · exact .tooLong _ (lineOf_mem pre cs hB) (by have := hp.length_le; omega)
    · refine .slice (show dataOf cs = [] ++ dataOf cs from rfl) (.stalled hB h hne hp hpne) ?_
      simp only [Decoder.weight]; omega
  · rw [hr.complete a]
    simp only
    rcases hcs with ⟨rfl, hz⟩ | ⟨c, cs', rfl, hl, rfl⟩
    · rw [if_pos hz]; exact .done rfl
    · have hsz : (lineOf B (c :: cs')).size = c.data.length := by rw [hl, c.sized]
      have hpos := List.length_pos_of_ne_nil c.nonempty
      obtain ⟨left, h3, h4⟩ := At.settle hB (List.suffix_refl (c.data ++ crlf)) h2.symm
      have ho : (c.data ++ crlf).length = c.data.length + 2 := by simp [crlf]
      have hs := settle_append (lineOf B (c :: cs')).text a (c.data ++ crlf).length
      rw [ho, ← Nat.add_assoc] at hs
      rw [if_neg (by omega), hsz, List.drop_left, hs, ← ho]
      rw [ho, Nat.add_sub_cancel, List.take_left] at h3
      refine .slice h3 h4 ?_
      have hw2 := weight_settle (c.data ++ crlf).length a toCome.length
      have hl2 : ((lineOf B (c :: cs')).text ++ a).length = (lineOf B (c :: cs')).text.length + a.length :=
        List.length_append
      omega

/-- A pull from anywhere in a body: the next bytes of its data, or the end at the end,
    or a failure, with a size line over the limit to blame. -/
theorem At.pull (limit : Nat) {d : Decoder} {bs toCome left : Bytes} (hr : ∀ l ∈ B.lines, Recognizes parse l)
    (h : At B rest d (bs ++ toCome) left) (hbs : d.reads = true ↔ bs ≠ []) (hd : d ≠ .finished) :
    Pulled parse limit B rest toCome left (d.weight (bs ++ toCome).length) (d.pull parse limit bs) := by
  rw [List.length_append]
  generalize hz : bs ++ toCome = z at h
  cases h with
  | @ready pre cs held toCome' hB he =>
    subst hz
    have hne : held ++ bs ≠ [] := by
      intro e
      obtain ⟨rfl, rfl⟩ := List.append_eq_nil_iff.mp e
      simp [Decoder.reads] at hbs
    have := At.takeLine limit hB (hr _ (lineOf_mem pre cs hB)) hne (by rw [List.append_assoc]; exact he)
    refine this.mono ?_
    simp only [Decoder.weight, List.length_append]; omega
  | @stalled pre cs head toCome' hB he hne hp hpne =>
    subst hz
    have hb : 0 < bs.length := List.length_pos_of_ne_nil (hbs.mp rfl)
    have := At.takeLine limit hB (hr _ (lineOf_mem pre cs hB)) (show head ++ bs ≠ [] by simp [hne])
      (by rw [List.append_assoc]; exact he)
    refine this.mono ?_
    simp only [Decoder.weight, List.length_append]; omega
  | @owing pre cs c o hB ho hne =>
    have hb : 0 < bs.length := List.length_pos_of_ne_nil (hbs.mp rfl)
    have hol := List.length_pos_of_ne_nil hne
    obtain ⟨left, h1, h2⟩ := At.settle hB ho hz
    refine .slice h1 h2 ?_
    refine (weight_settle o.length bs toCome.length).trans_lt ?_
    simp only [Decoder.weight]; omega
  | finished => exact absurd rfl hd

theorem At.toCome_ne {d : Decoder} {toCome left : Bytes} (h : At B rest d toCome left) (hd : d.reads = true) :
    toCome ≠ [] := by
  intro hz
  cases h with
  | @ready pre cs held _ hB he =>
    obtain ⟨w, hw, _⟩ := tail_eq B rest cs
    have := (lineOf B cs).text_length
    rw [List.isEmpty_iff.mp hd, hz, hw] at he
    simp only [List.append_nil, List.nil_eq_append_iff] at he
    rw [he.1, List.length_nil] at this; omega
  | @stalled pre cs head _ hB he hne hp hpne =>
    obtain ⟨w, hw, _⟩ := tail_eq B rest cs
    rw [hz, List.append_nil, hw] at he
    exact hpne (hp.eq_of_length_le (by rw [he, List.length_append]; omega))
  | owing hB ho hne => exact hne (List.append_eq_nil_iff.mp hz).1
  | finished => cases hd

/-! ## Sizes -/

/-- The sums a pull makes stay below `2^64`. -/
def Decoder.Fits (parse : Bytes → ChunkStatus) (bs : Bytes) : Decoder → Prop
  | .owing _ => bs.length + 2 < usizeEnd
  | d => ∀ i n, parse (d.held ++ bs) = .complete i n → i ≤ (d.held ++ bs).length ∧ (n ≠ 0 → i + n + 2 < usizeEnd)

theorem tail_length_le (rest : Bytes) {pre cs : List Chunk} (hB : B.chunks = pre ++ cs) :
    (tail B rest cs).length ≤ (B.text ++ rest).length := by
  simp only [tail, Body.text, hB, wire_append, List.length_append]; omega

theorem line_fits {pre cs : List Chunk} {avail toCome : Bytes} (hB : B.chunks = pre ++ cs)
    (hr : Recognizes parse (lineOf B cs)) (h : avail ++ toCome = tail B rest cs) {i n : Nat}
    (hp : parse avail = .complete i n) :
    i ≤ avail.length ∧ (n ≠ 0 → i + n + 2 ≤ (B.text ++ rest).length) := by
  obtain ⟨w, hw, hcs⟩ := tail_eq B rest cs
  rcases append_cut (h.trans hw) with ⟨u, hu, h1, h2⟩ | ⟨a, rfl, h2⟩
  · have hpne : avail ≠ (lineOf B cs).text := by
      intro e
      rw [← e] at h1
      exact hu (by simpa using h1)
    rw [hr.incomplete avail ⟨u, h1.symm⟩ hpne] at hp
    cases hp
  · rw [hr.complete a] at hp
    injection hp with hi hn
    subst hi hn
    refine ⟨by rw [List.length_append]; omega, fun hn => ?_⟩
    rcases hcs with ⟨rfl, hz⟩ | ⟨c, cs', rfl, hl, rfl⟩
    · exact absurd hz hn
    · have := tail_length_le rest hB
      rw [hw] at this
      simp only [List.length_append, crlf, List.length_cons, List.length_nil] at this ⊢
      rw [hl, c.sized]
      rw [hl] at this; omega

theorem At.fits {d : Decoder} {bs toCome left : Bytes} (hr : ∀ l ∈ B.lines, Recognizes parse l)
    (h : At B rest d (bs ++ toCome) left) (hT : (B.text ++ rest).length < usizeEnd) (hd : d ≠ .finished) :
    d.Fits parse bs := by
  generalize hz : bs ++ toCome = z at h
  have line : ∀ {pre cs : List Chunk} {held : Bytes}, B.chunks = pre ++ cs → held ++ z = tail B rest cs →
      ∀ i n, parse (held ++ bs) = .complete i n → i ≤ (held ++ bs).length ∧ (n ≠ 0 → i + n + 2 < usizeEnd) := by
    intro pre cs held hB he i n hp
    subst hz
    obtain ⟨h1, h2⟩ := line_fits hB (hr _ (lineOf_mem pre cs hB)) (by rw [List.append_assoc]; exact he) hp
    exact ⟨h1, fun hn => by have := h2 hn; omega⟩
  cases h with
  | ready hB he => exact line hB he
  | stalled hB he _ _ _ => exact line hB he
  | @owing pre cs c o hB ho hne =>
    have h1 := tail_length_le rest hB
    have h2 := ho.length_le
    have h3 := congrArg List.length hz
    have h4 := c.line.text_length
    rw [List.length_append] at h2
    simp only [tail, wire_cons, Chunk.text, List.length_append] at h1 h3
    rw [List.length_append] at hT
    show bs.length + 2 < usizeEnd
    omega
  | finished => exact absurd rfl hd

end Glaive.Lib.Chunked
