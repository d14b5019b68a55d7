/-
  Glaive.Lib.HeadText — the text of a message head and a strict reader of it: lines that
  end in CRLF, a start line with single spaces, fields of one line each (`name: value`,
  blanks around the value), an empty line. No line is continued on the next.

  What is written from a start line and fields within an `Alphabet` reads back, with the
  values trimmed of the blanks at their ends (`readHead_headText`).
-/

import Glaive.Lib.MessageFraming

namespace Glaive.Lib.Head

open Message (isBlank trimBlanks)

/-- What names, targets and values are made of. -/
structure Alphabet where
  name : Byte → Bool
  target : Byte → Bool
  value : Byte → Bool
  colon : name 58 = false
  nameSpace : name 32 = false
  targetSpace : target 32 = false
  nameBreak : ∀ b, name b = true → b ≠ cr ∧ b ≠ lf
  targetBreak : ∀ b, target b = true → b ≠ cr ∧ b ≠ lf
  valueBreak : ∀ b, value b = true → b ≠ cr ∧ b ≠ lf

variable {A : Alphabet} {name value method target : Bytes}

/-! ## Lines -/

/-- The line at the front, up to its CRLF, and what follows. -/
def takeLine : Bytes → Option (Bytes × Bytes)
  | [] => none
  | b :: rest =>
    if b = cr then
      if rest.head? = some lf then some ([], rest.tail) else none
    else if b = lf then none
    else (takeLine rest).map fun p => (b :: p.1, p.2)

theorem takeLine_append {line : Bytes} (h : ∀ b ∈ line, b ≠ cr ∧ b ≠ lf) (rest : Bytes) :
    takeLine (line ++ (crlf ++ rest)) = some (line, rest) := by
  induction line with
  | nil => rfl
  | cons b line ih =>
    rw [List.forall_mem_cons] at h
    rw [List.cons_append, takeLine, if_neg h.1.1, if_neg h.1.2, ih h.2]
    rfl

/-! ## Fields -/

theorem mem_of_mem_trimBlanks {b : Byte} {s : Bytes} (h : b ∈ trimBlanks s) : b ∈ s := by
  unfold trimBlanks at h
  rw [List.mem_reverse] at h
  have h := List.dropWhile_subset _ h
  rw [List.mem_reverse] at h
  exact List.dropWhile_subset _ h

/-- A field line: a name, a colon at once, a value between blanks. -/
def readField (A : Alphabet) (line : Bytes) : Option (Bytes × Bytes) :=
  match line.dropWhile A.name with
  | [] => none
  | c :: value =>
    if c = 58 ∧ line.takeWhile A.name ≠ [] ∧ (trimBlanks value).all A.value = true then
      some (line.takeWhile A.name, trimBlanks value)
    else none

def fieldText (e : Bytes × Bytes) : Bytes := e.1 ++ ascii ": " ++ e.2

/-- A field that is written within the alphabet. -/
structure Alphabet.Holds (A : Alphabet) (e : Bytes × Bytes) : Prop where
  nonempty : e.1 ≠ []
  name : e.1.all A.name = true
  value : e.2.all A.value = true

theorem fieldText_eq (e : Bytes × Bytes) : fieldText e = e.1 ++ 58 :: 32 :: e.2 := by
  unfold fieldText
  rw [List.append_assoc]
  rfl

theorem takeWhile_stop {p : Byte → Bool} {a b : Bytes} {c : Byte} (ha : a.all p = true) (hc : p c = false) :
    (a ++ c :: b).takeWhile p = a := by
  rw [List.takeWhile_append_of_pos (List.all_eq_true.mp ha), List.takeWhile_cons, hc]
  simp

theorem dropWhile_stop {p : Byte → Bool} {a b : Bytes} {c : Byte} (ha : a.all p = true) (hc : p c = false) :
    (a ++ c :: b).dropWhile p = c :: b := by
  rw [List.dropWhile_append_of_pos (List.all_eq_true.mp ha), List.dropWhile_cons, hc]
  simp

theorem readField_fieldText {e : Bytes × Bytes} (h : A.Holds e) :
    readField A (fieldText e) = some (e.1, trimBlanks e.2) := by
  unfold readField
  rw [fieldText_eq, dropWhile_stop h.name A.colon, takeWhile_stop h.name A.colon]
  have hv : (trimBlanks e.2).all A.value = true :=
    List.all_eq_true.mpr fun b hb => List.all_eq_true.mp h.value b (mem_of_mem_trimBlanks hb)
  exact if_pos ⟨rfl, h.nonempty, hv⟩

theorem Alphabet.Holds.no_break {e : Bytes × Bytes} (h : A.Holds e) : ∀ b ∈ fieldText e, b ≠ cr ∧ b ≠ lf := by
  intro b hb
  rw [fieldText_eq, List.mem_append] at hb
  rcases hb with hb | hb
  · exact A.nameBreak b (List.all_eq_true.mp h.name b hb)
  · rw [List.mem_cons, List.mem_cons] at hb
    rcases hb with rfl | rfl | hb
    · decide
    · decide
    · exact A.valueBreak b (List.all_eq_true.mp h.value b hb)

/-- The fields up to the empty line, at most `n` of them, and what follows it. -/
def readFields (A : Alphabet) : Nat → Bytes → Option (List (Bytes × Bytes) × Bytes)
  | 0, text =>
    match takeLine text with
    | some ([], rest) => some ([], rest)
    | _ => none
  | n + 1, text =>
    match takeLine text with
    | none => none
    | some ([], rest) => some ([], rest)
    | some (b :: line, rest) => do
      let field ← readField A (b :: line)
      let (fields, rest) ← readFields A n rest
      return (field :: fields, rest)

def fieldsText (fields : List (Bytes × Bytes)) : Bytes := fields.flatMap fun e => fieldText e ++ crlf

def trimmed (e : Bytes × Bytes) : Bytes × Bytes := (e.1, trimBlanks e.2)

theorem readFields_fieldsText (rest : Bytes) : ∀ (fields : List (Bytes × Bytes)) (n : Nat),
    (∀ e ∈ fields, A.Holds e) → fields.length ≤ n →
    readFields A n (fieldsText fields ++ (crlf ++ rest)) = some (fields.map trimmed, rest) := by
  intro fields
  induction fields with
  | nil =>
    intro n _ _
    cases n <;> rfl
  | cons e fields ih =>
    intro n h hn
    rw [List.forall_mem_cons] at h
    cases n with
    | zero => cases hn
    | succ n =>
      have hline : fieldsText (e :: fields) ++ (crlf ++ rest) =
          fieldText e ++ (crlf ++ (fieldsText fields ++ (crlf ++ rest))) := by
        simp [fieldsText]
      rw [hline, readFields, takeLine_append h.1.no_break]
      have hread := readField_fieldText h.1
      cases ht : fieldText e with
      | nil => rw [ht] at hread; cases hread
      | cons b line =>
        rw [ht] at hread
        simp only [hread, ih n h.2 (Nat.le_of_succ_le_succ hn)]
        rfl

theorem length_le_fieldsText (fields : List (Bytes × Bytes)) : fields.length ≤ (fieldsText fields).length := by
  unfold fieldsText
  induction fields with
  | nil => exact Nat.le_refl 0
  | cons e fields ih =>
    rw [List.flatMap_cons, List.length_append, List.length_cons]
    have : 0 < (fieldText e ++ crlf).length := by simp [crlf]
    omega

/-! ## Heads -/

def headText (start : Bytes) (fields : List (Bytes × Bytes)) : Bytes := start ++ crlf ++ fieldsText fields ++ crlf

/-- The start line, the fields, and what follows the head. -/
def readHead (A : Alphabet) (text : Bytes) : Option (Bytes × List (Bytes × Bytes) × Bytes) := do
  let (start, rest) ← takeLine text
  let (fields, rest) ← readFields A text.length rest
  return (start, fields, rest)

theorem readHead_headText {start : Bytes} {fields : List (Bytes × Bytes)} (hs : ∀ b ∈ start, b ≠ cr ∧ b ≠ lf)
    (hf : ∀ e ∈ fields, A.Holds e) (rest : Bytes) :
    readHead A (headText start fields ++ rest) = some (start, fields.map trimmed, rest) := by
  have htext : headText start fields ++ rest = start ++ (crlf ++ (fieldsText fields ++ (crlf ++ rest))) := by
    simp [headText]
  have hn : fields.length ≤ (headText start fields ++ rest).length := by
    have := length_le_fieldsText fields
    simp only [headText, List.length_append]
    omega
  unfold readHead
  rw [htext, takeLine_append hs]
  rw [htext] at hn
  simp only [Option.bind_eq_bind, Option.bind_some, readFields_fieldsText rest fields _ hf hn]
  rfl

theorem count_lf {s : Bytes} (h : ∀ b ∈ s, b ≠ cr ∧ b ≠ lf) : s.count lf = 0 :=
  List.count_eq_zero.mpr fun hm => (h lf hm).2 rfl

theorem count_lf_crlf : crlf.count lf = 1 := by decide

/-- The text has one line for each field, beside the start line and the empty line. -/
theorem count_lf_headText {start : Bytes} {fields : List (Bytes × Bytes)} (hs : ∀ b ∈ start, b ≠ cr ∧ b ≠ lf)
    (hf : ∀ e ∈ fields, A.Holds e) : (headText start fields).count lf = fields.length + 2 := by
  have hfields : (fieldsText fields).count lf = fields.length := by
    unfold fieldsText
    induction fields with
    | nil => rfl
    | cons e fields ih =>
      rw [List.forall_mem_cons] at hf
      rw [List.flatMap_cons, List.count_append, List.count_append, ih hf.2, count_lf hf.1.no_break, count_lf_crlf,
        List.length_cons]
      omega
  unfold headText
  rw [List.count_append, List.count_append, List.count_append, hfields, count_lf hs, count_lf_crlf]
  omega

/-! ## Start lines -/

/-- What comes before the first space, and what after it. -/
def splitSpace (s : Bytes) : Option (Bytes × Bytes) :=
  match s.dropWhile (· != 32) with
  | [] => none
  | _ :: rest => some (s.takeWhile (· != 32), rest)

theorem splitSpace_append {a : Bytes} (h : 32 ∉ a) (b : Bytes) : splitSpace (a ++ 32 :: b) = some (a, b) := by
  have ha : a.all (· != 32) = true := List.all_eq_true.mpr fun x hx => by
    rw [bne_iff_ne]
    intro he
    exact h (he ▸ hx)
  unfold splitSpace
  rw [dropWhile_stop ha rfl, takeWhile_stop ha rfl]

/-- The minor version of HTTP/1. -/
def minorOf (version : Bytes) : Option Nat :=
  if version = ascii "HTTP/1.1" then some 1 else if version = ascii "HTTP/1.0" then some 0 else none

structure RequestText where
  method : Bytes
  target : Bytes
  minor : Nat
  fields : List (Bytes × Bytes)
  deriving DecidableEq

def readRequestLine (A : Alphabet) (line : Bytes) : Option (Bytes × Bytes × Nat) := do
  let (method, rest) ← splitSpace line
  let (target, version) ← splitSpace rest
  let minor ← minorOf version
  if method ≠ [] ∧ method.all A.name = true ∧ target ≠ [] ∧ target.all A.target = true then
    return (method, target, minor)
  else none

def requestLine (method target version : Bytes) : Bytes := method ++ ascii " " ++ target ++ ascii " " ++ version

/-- A request head, with nothing after it. -/
def readRequestHead (A : Alphabet) (text : Bytes) : Option RequestText :=
  match readHead A text with
  | some (start, fields, []) =>
    (readRequestLine A start).map fun (method, target, minor) => ⟨method, target, minor, fields⟩
  | _ => none

structure ResponseText where
  minor : Nat
  status : Nat
  reason : Bytes
  fields : List (Bytes × Bytes)
  deriving DecidableEq

def readStatusLine (A : Alphabet) (line : Bytes) : Option (Nat × Nat × Bytes) := do
  let (version, rest) ← splitSpace line
  let minor ← minorOf version
  let (status, reason) ← splitSpace rest
  if status.length = 3 ∧ status.all isDigit = true ∧ reason.all A.value = true then
    return (minor, decNumber status, reason)
  else none

def statusLine (version status reason : Bytes) : Bytes := version ++ ascii " " ++ status ++ ascii " " ++ reason

/-- A response head, with nothing after it. -/
def readResponseHead (A : Alphabet) (text : Bytes) : Option ResponseText :=
  match readHead A text with
  | some (start, fields, []) =>
    (readStatusLine A start).map fun (minor, status, reason) => ⟨minor, status, reason, fields⟩
  | _ => none

theorem not_mem_of_all {p : Byte → Bool} {b : Byte} {s : Bytes} (hs : s.all p = true) (hb : p b = false) : b ∉ s := by
  intro h
  rw [List.all_eq_true.mp hs b h] at hb
  cases hb

theorem minorOf_no_break {version : Bytes} {minor : Nat} (h : minorOf version = some minor) :
    ∀ b ∈ version, b ≠ 32 ∧ b ≠ cr ∧ b ≠ lf := by
  unfold minorOf at h
  split at h
  · rename_i hv
    subst hv
    decide +kernel
  · split at h
    · rename_i hv
      subst hv
      decide +kernel
    · cases h

theorem requestLine_eq (method target version : Bytes) :
    requestLine method target version = method ++ 32 :: (target ++ 32 :: version) := by
  simp [requestLine, ascii]

/-- A request head that is written within the alphabet reads back. -/
theorem readRequestHead_headText {version : Bytes} {minor : Nat} {fields : List (Bytes × Bytes)} (hm : method ≠ [])
    (hma : method.all A.name = true) (ht : target ≠ []) (hta : target.all A.target = true)
    (hv : minorOf version = some minor) (hf : ∀ e ∈ fields, A.Holds e) :
    readRequestHead A (headText (requestLine method target version) fields) =
      some ⟨method, target, minor, fields.map trimmed⟩ := by
  have hline : readRequestLine A (requestLine method target version) = some (method, target, minor) := by
    unfold readRequestLine
    rw [requestLine_eq, splitSpace_append (not_mem_of_all hma A.nameSpace)]
    simp only [Option.bind_eq_bind, Option.bind_some]
    rw [splitSpace_append (not_mem_of_all hta A.targetSpace)]
    simp only [Option.bind_some, hv]
    exact if_pos ⟨hm, hma, ht, hta⟩
  have hbreak : ∀ b ∈ requestLine method target version, b ≠ cr ∧ b ≠ lf := by
    intro b hb
    rw [requestLine_eq, List.mem_append, List.mem_cons, List.mem_append, List.mem_cons] at hb
    rcases hb with hb | rfl | hb | rfl | hb
    · exact A.nameBreak b (List.all_eq_true.mp hma b hb)
    · decide
    · exact A.targetBreak b (List.all_eq_true.mp hta b hb)
    · decide
    · exact (minorOf_no_break hv b hb).2
  have hread := readHead_headText hbreak hf []
  rw [List.append_nil] at hread
  unfold readRequestHead
  rw [hread]
  simp only [hline]
  rfl

theorem statusLine_eq (version status reason : Bytes) :
    statusLine version status reason = version ++ 32 :: (status ++ 32 :: reason) := by
  simp [statusLine, ascii]

theorem digit_no_break {b : Byte} (h : isDigit b = true) : b ≠ cr ∧ b ≠ lf := by
  refine ⟨?_, ?_⟩ <;>
  · intro he
    subst he
    exact absurd h (by decide)

theorem statusLine_no_break {version status reason : Bytes} {minor : Nat} (hv : minorOf version = some minor)
    (hd : status.all isDigit = true) (hr : reason.all A.value = true) :
    ∀ b ∈ statusLine version status reason, b ≠ cr ∧ b ≠ lf := by
  intro b hb
  rw [statusLine_eq, List.mem_append, List.mem_cons, List.mem_append, List.mem_cons] at hb
  rcases hb with hb | rfl | hb | rfl | hb
  · exact (minorOf_no_break hv b hb).2
  · decide
  · exact digit_no_break (List.all_eq_true.mp hd b hb)
  · decide
  · exact A.valueBreak b (List.all_eq_true.mp hr b hb)

/-- A response head that is written within the alphabet reads back. -/
theorem readResponseHead_headText {version status reason : Bytes} {minor : Nat} {fields : List (Bytes × Bytes)}
    (hv : minorOf version = some minor) (hlen : status.length = 3) (hd : status.all isDigit = true)
    (hr : reason.all A.value = true) (hf : ∀ e ∈ fields, A.Holds e) :
    readResponseHead A (headText (statusLine version status reason) fields) =
      some ⟨minor, decNumber status, reason, fields.map trimmed⟩ := by
  have hline : readStatusLine A (statusLine version status reason) = some (minor, decNumber status, reason) := by
    unfold readStatusLine
    rw [statusLine_eq, splitSpace_append fun h => (minorOf_no_break hv _ h).1 rfl]
    simp only [Option.bind_eq_bind, Option.bind_some, hv]
    rw [splitSpace_append (not_mem_of_all hd (by decide))]
    simp only [Option.bind_some]
    exact if_pos ⟨hlen, hd, hr⟩
  have hread := readHead_headText (statusLine_no_break hv hd hr) hf []
  rw [List.append_nil] at hread
  unfold readResponseHead
  rw [hread]
  simp only [hline]
  rfl

end Glaive.Lib.Head
