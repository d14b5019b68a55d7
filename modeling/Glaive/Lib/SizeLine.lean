/-
  Glaive.Lib.SizeLine — a size-line parser: hex digits, at most 16, then blanks, then
  an extension from the first semicolon, up to CRLF. It takes every size line of the
  grammar for what it is and wants more on each strict prefix (`parse_recognizes`).
-/

import Glaive.Lib.ChunkedCoding

namespace Glaive.Lib.Chunked

inductive LinePart where
  | digits
  | blanks
  | ext
  deriving DecidableEq, Repr

/-- The next part of the line after the byte `b`, which is not CR. -/
def LinePart.next (count : Nat) (b : Byte) : LinePart → Option LinePart
  | .digits =>
    if isHexDigit b then (if count < 16 then some .digits else none)
    else if b = 59 then some .ext
    else if b = 32 ∨ b = 9 then some .blanks
    else none
  | .blanks => if b = 59 then some .ext else if b = 32 ∨ b = 9 then some .blanks else none
  | .ext => some .ext

def scan (part : LinePart) (count value pos : Nat) : Bytes → ChunkStatus
  | [] => .incomplete
  | b :: bs =>
    if b = cr then
      match bs with
      | [] => .incomplete
      | c :: _ => if c = lf then .complete (pos + 2) value else .invalid
    else
      match part.next count b with
      | none => .invalid
      | some .digits => scan .digits (count + 1) (16 * value + hexValue b) (pos + 1) bs
      | some part => scan part count value (pos + 1) bs

def parseSizeLine (buf : Bytes) : ChunkStatus := scan .digits 0 0 0 buf

theorem scan_cons_of_ne {b : Byte} (h : b ≠ cr) (part : LinePart) (count value pos : Nat) (bs : Bytes) :
    scan part count value pos (b :: bs) = match part.next count b with
      | none => .invalid
      | some .digits => scan .digits (count + 1) (16 * value + hexValue b) (pos + 1) bs
      | some part => scan part count value (pos + 1) bs := by
  conv => lhs; unfold scan
  rw [if_neg h]

theorem scan_cr_cons (part : LinePart) (count value pos : Nat) (c : Byte) (bs : Bytes) :
    scan part count value pos (cr :: c :: bs) = if c = lf then .complete (pos + 2) value else .invalid := by
  conv => lhs; unfold scan
  rw [if_pos rfl]

/-! ## It recognizes size lines -/

theorem scan_crlf (part : LinePart) (count value pos : Nat) (rest : Bytes) :
    scan part count value pos (crlf ++ rest) = .complete (pos + 2) value := by
  rw [crlf, List.cons_append, List.cons_append, scan_cr_cons, if_pos rfl]

theorem hexDigit_ne_cr {b : Byte} (h : isHexDigit b = true) : b ≠ cr := by
  intro he
  subst he
  exact absurd h (by decide)

theorem scan_digits : ∀ (ds : Bytes) (count value pos : Nat) (rest : Bytes), (∀ b ∈ ds, isHexDigit b = true) →
    count + ds.length ≤ 16 →
    scan .digits count value pos (ds ++ rest) =
      scan .digits (count + ds.length) (ds.foldl (fun n b => 16 * n + hexValue b) value) (pos + ds.length) rest := by
  intro ds
  induction ds with
  | nil => intro count value pos rest _ _; rfl
  | cons b ds ih =>
    intro count value pos rest hd hc
    rw [List.length_cons] at hc ⊢
    have hb := hd b (List.mem_cons_self ..)
    rw [List.cons_append, scan_cons_of_ne (hexDigit_ne_cr hb)]
    simp only [LinePart.next, hb, if_true, if_pos (show count < 16 by omega)]
    rw [ih _ _ _ _ (fun c hc => hd c (List.mem_cons_of_mem _ hc)) (by omega), List.foldl_cons]
    congr 1 <;> omega

theorem scan_ext : ∀ (t : Bytes) (count value pos : Nat) (rest : Bytes), (∀ b ∈ t, b ≠ cr ∧ b ≠ lf) →
    scan .ext count value pos (t ++ rest) = scan .ext count value (pos + t.length) rest := by
  intro t
  induction t with
  | nil => intro count value pos rest _; rfl
  | cons b t ih =>
    intro count value pos rest ht
    rw [List.cons_append, scan_cons_of_ne (ht b (List.mem_cons_self ..)).1]
    simp only [LinePart.next]
    rw [ih _ _ _ _ (fun c hc => ht c (List.mem_cons_of_mem _ hc)), List.length_cons]
    congr 1; omega

theorem scan_blanks : ∀ (ws : Bytes) (part : LinePart) (count value pos : Nat) (rest : Bytes), part ≠ .ext →
    (∀ b ∈ ws, b = 32 ∨ b = 9) → ∃ part', part' ≠ .ext ∧
    scan part count value pos (ws ++ rest) = scan part' count value (pos + ws.length) rest := by
  intro ws
  induction ws with
  | nil => intro part count value pos rest hp _; exact ⟨part, hp, rfl⟩
  | cons b ws ih =>
    intro part count value pos rest hp hw
    have hb := hw b (List.mem_cons_self ..)
    have hcr : b ≠ cr := by rcases hb with rfl | rfl <;> decide
    have hn : part.next count b = some .blanks := by
      cases part with
      | digits => rcases hb with rfl | rfl <;> rfl
      | blanks => rcases hb with rfl | rfl <;> rfl
      | ext => exact absurd rfl hp
    obtain ⟨part', h1, h2⟩ := ih .blanks count value (pos + 1) rest (by simp)
      (fun c hc => hw c (List.mem_cons_of_mem _ hc))
    refine ⟨part', h1, ?_⟩
    rw [List.cons_append, scan_cons_of_ne hcr, hn]
    simp only
    rw [h2, List.length_cons]
    congr 1; omega

theorem parseSizeLine_complete (l : SizeLine) (rest : Bytes) :
    parseSizeLine (l.text ++ rest) = .complete l.text.length l.size := by
  unfold parseSizeLine SizeLine.text
  rw [List.append_assoc, List.append_assoc, scan_digits _ _ _ _ _ l.hex (by have := l.short; omega)]
  have hlen : (l.digits ++ l.ext ++ crlf).length = 0 + l.digits.length + l.ext.length + 2 := by
    simp [crlf]; omega
  rw [hlen]
  rcases l.isExt with he | ⟨ws, t, he, hws, ht⟩
  · rw [he, List.nil_append, scan_crlf]; rfl
  · rw [he, List.append_assoc]
    obtain ⟨part, hp, hb⟩ := scan_blanks ws .digits (0 + l.digits.length)
      (l.digits.foldl (fun n b => 16 * n + hexValue b) 0) (0 + l.digits.length) (59 :: t ++ (crlf ++ rest)) (by simp) hws
    have hn : part.next (0 + l.digits.length) 59 = some .ext := by
      cases part with
      | digits => rfl
      | blanks => rfl
      | ext => exact absurd rfl hp
    rw [hb, List.cons_append, scan_cons_of_ne (by decide), hn]
    simp only
    rw [scan_ext _ _ _ _ _ ht, scan_crlf]
    simp only [List.length_append, List.length_cons, SizeLine.size, hexNumber]
    congr 1; omega

/-- A scan that takes all its bytes wants more on each strict prefix of them. -/
theorem scan_prefix : ∀ (p q : Bytes) (part : LinePart) (count value pos i n : Nat), q ≠ [] →
    scan part count value pos (p ++ q) = .complete i n → i = pos + (p ++ q).length →
    scan part count value pos p = .incomplete := by
  intro p
  induction p with
  | nil => intro q part count value pos i n _ _ _; cases part <;> rfl
  | cons b p ih =>
    intro q part count value pos i n hq h hi
    rw [List.cons_append] at h
    rw [List.cons_append, List.length_cons] at hi
    by_cases hb : b = cr
    · subst hb
      cases p with
      | nil => unfold scan; rfl
      | cons c p =>
        rw [List.cons_append, scan_cr_cons] at h
        rw [List.cons_append, List.length_cons, List.length_append] at hi
        have := List.length_pos_of_ne_nil hq
        by_cases hc : c = lf
        · rw [if_pos hc] at h
          injection h with h1 _
          omega
        · rw [if_neg hc] at h; cases h
    · rw [scan_cons_of_ne hb] at h ⊢
      cases hn : part.next count b with
      | none => rw [hn] at h; cases h
      | some part' =>
        rw [hn] at h
        cases part' with
        | digits => exact ih q _ _ _ _ i n hq h (by omega)
        | blanks => exact ih q _ _ _ _ i n hq h (by omega)
        | ext => exact ih q _ _ _ _ i n hq h (by omega)

theorem parse_recognizes (l : SizeLine) : Recognizes parseSizeLine l where
  complete rest := parseSizeLine_complete l rest
  incomplete p hp hne := by
    obtain ⟨q, hq⟩ := hp
    have hc := parseSizeLine_complete l []
    rw [List.append_nil, ← hq] at hc
    refine scan_prefix p q _ _ _ _ _ _ ?_ hc (by rw [Nat.zero_add])
    intro e
    rw [e, List.append_nil] at hq
    exact hne hq

/-- An extension that goes on is no line yet, however long. -/
theorem parseSizeLine_longExt (n : Nat) :
    parseSizeLine (ascii "1;" ++ List.replicate n 120) = .incomplete := by
  have hext : ∀ (n count value pos : Nat), scan .ext count value pos (List.replicate n 120) = .incomplete := by
    intro n
    induction n with
    | zero => intro count value pos; rfl
    | succ n ih =>
      intro count value pos
      rw [List.replicate_succ, scan_cons_of_ne (by decide)]
      exact ih _ _ _
  exact hext n 1 1 2

end Glaive.Lib.Chunked
