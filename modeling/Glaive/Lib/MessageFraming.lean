/-
  Glaive.Lib.MessageFraming — where the body of a message ends, by the fields of its
  head (RFC 9112, section 6.3): chunked when the transfer codings end in `chunked`,
  else the one valid content length, else, in a request, no body; `none` where the
  framing is invalid.

  A field may come on several lines, and a line may hold several elements.
-/

import Glaive.Lib.Numeral

namespace Glaive.Lib.Message

inductive Framing where
  | chunked
  | length (n : Nat)
  deriving DecidableEq, Repr

/-! ## List-valued fields -/

inductive Quote where
  | plain
  | quoted
  | escaped
  deriving DecidableEq, Repr

def Quote.next (b : Byte) : Quote → Quote
  | .plain => if b = 34 then .quoted else .plain
  | .quoted => if b = 34 then .plain else if b = 92 then .escaped else .quoted
  | .escaped => .quoted

def comma : Byte := 44

/-- Put a byte on the first piece. -/
def consHead (b : Byte) : List Bytes → List Bytes
  | [] => [[b]]
  | x :: xs => (b :: x) :: xs

/-- The pieces between the commas that no quotes enclose. -/
def splitList : Quote → Bytes → List Bytes
  | _, [] => [[]]
  | q, b :: bs => if q = .plain ∧ b = comma then [] :: splitList .plain bs else consHead b (splitList (q.next b) bs)

def isBlank (b : Byte) : Bool := b == 32 || b == 9

def trimBlanks (s : Bytes) : Bytes := ((s.dropWhile isBlank).reverse.dropWhile isBlank).reverse

/-- The elements of a field that came with these values, the empty ones left out. -/
def elements (values : List Bytes) : List Bytes :=
  ((splitList .plain ([comma].intercalate values)).map trimBlanks).filter fun x => !x.isEmpty

/-- A byte that neither parts elements nor is trimmed from them. -/
def isSolid (b : Byte) : Bool := b != comma && b != 34 && !isBlank b

theorem isSolid_of_isDigit {b : Byte} (h : isDigit b = true) : isSolid b = true := by
  unfold isDigit at h
  unfold isSolid isBlank comma
  simp only [Bool.and_eq_true, decide_eq_true_eq, bne_iff_ne, ne_eq, Bool.not_eq_true', Bool.or_eq_false_iff,
    beq_eq_false_iff_ne] at h ⊢
  refine ⟨⟨?_, ?_⟩, ?_, ?_⟩ <;> (rintro rfl; exact absurd h.1 (by decide))

theorem splitList_solid : ∀ (v w : Bytes), (∀ b ∈ v, isSolid b = true) →
    splitList .plain (v ++ comma :: w) = v :: splitList .plain w ∧ splitList .plain v = [v] := by
  intro v
  induction v with
  | nil => intro w _; exact ⟨by simp [splitList], rfl⟩
  | cons b v ih =>
    intro w hv
    have hb := hv b (List.mem_cons_self ..)
    simp only [isSolid, Bool.and_eq_true, bne_iff_ne, ne_eq] at hb
    obtain ⟨h1, h2⟩ := ih w fun c hc => hv c (List.mem_cons_of_mem _ hc)
    have hq : Quote.plain.next b = .plain := if_neg hb.1.2
    rw [List.cons_append, splitList, splitList, if_neg (fun h => hb.1.1 h.2), if_neg (fun h => hb.1.1 h.2), hq, h1, h2]
    exact ⟨rfl, rfl⟩

theorem dropWhile_solid {v : Bytes} (hv : ∀ b ∈ v, isSolid b = true) : v.dropWhile isBlank = v := by
  cases v with
  | nil => rfl
  | cons b v =>
    have hb := hv b (List.mem_cons_self ..)
    simp only [isSolid, Bool.and_eq_true, Bool.not_eq_true'] at hb
    rw [List.dropWhile_cons, hb.2]; rfl

theorem trimBlanks_solid {v : Bytes} (hv : ∀ b ∈ v, isSolid b = true) : trimBlanks v = v := by
  unfold trimBlanks
  rw [dropWhile_solid hv, dropWhile_solid fun b hb => hv b (List.mem_reverse.mp hb), List.reverse_reverse]

/-- A first value without commas, quotes and blanks is an element as it stands. -/
theorem mem_elements_solid {v : Bytes} (hne : v ≠ []) (hv : ∀ b ∈ v, isSolid b = true) (vs : List Bytes) :
    v ∈ elements (v :: vs) := by
  unfold elements
  have hmem : v ∈ splitList .plain ([comma].intercalate (v :: vs)) := by
    cases vs with
    | nil =>
      rw [List.intercalate_singleton, (splitList_solid v [] hv).2]
      exact List.mem_singleton_self v
    | cons w vs =>
      rw [List.intercalate_cons_cons, List.append_assoc, List.singleton_append, (splitList_solid v _ hv).1]
      exact List.mem_cons_self ..
  rw [List.mem_filter]
  exact ⟨List.mem_map.mpr ⟨v, hmem, trimBlanks_solid hv⟩, by simpa using hne⟩

/-! ## The framing -/

def valuesOf (name : Bytes) (lines : List (Bytes × Bytes)) : List Bytes :=
  (lines.filter fun e => eqIgnoreCase e.1 name).map Prod.snd

/-- The last coding of the list is `chunked`. -/
def endsInChunked (values : List Bytes) : Bool :=
  (elements values).getLast?.any fun x => eqIgnoreCase x (ascii "chunked")

/-- The one number all the elements give, when they are numerals and give one. -/
def oneNumber : List Bytes → Option Nat
  | [] => none
  | x :: xs =>
    if (x :: xs).all isNumeral && xs.all (fun y => decNumber y == decNumber x) then some (decNumber x) else none

def framing (lines : List (Bytes × Bytes)) : Option Framing :=
  let codings := valuesOf (ascii "transfer-encoding") lines
  let lengths := valuesOf (ascii "content-length") lines
  if codings ≠ [] then (if endsInChunked codings then some .chunked else none)
  else if lengths ≠ [] then (oneNumber (elements lengths)).map .length
  else some (.length 0)

/-- The framing of a response, `none` where the close ends it or its framing is invalid.
    One that is `bodiless`, by its request or its status, ends with its head. -/
def responseFraming (bodiless : Bool) (lines : List (Bytes × Bytes)) : Option Framing :=
  let codings := valuesOf (ascii "transfer-encoding") lines
  let lengths := valuesOf (ascii "content-length") lines
  if bodiless then some (.length 0)
  else if codings ≠ [] then (if endsInChunked codings then some .chunked else none)
  else (oneNumber (elements lengths)).map .length

theorem oneNumber_mem {l : List Bytes} {n : Nat} (h : oneNumber l = some n) {x : Bytes} (hx : x ∈ l) :
    isNumeral x = true ∧ decNumber x = n := by
  cases l with
  | nil => cases hx
  | cons y ys =>
    rw [oneNumber] at h
    split at h
    · rename_i hc
      rw [Bool.and_eq_true, List.all_eq_true, List.all_eq_true] at hc
      obtain rfl := Option.some.inj h
      refine ⟨hc.1 x hx, ?_⟩
      rcases List.mem_cons.mp hx with rfl | hx
      · rfl
      · exact beq_iff_eq.mp (hc.2 x hx)
    · cases h

end Glaive.Lib.Message
