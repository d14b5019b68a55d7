/-
  Glaive.Lib.Utf8 — texts as bytes: what of a text can be read off its UTF-8 bytes
  without decoding them. ASCII characters are their own bytes and occur in no other
  character's, so a text splits at one and lowers its letters byte by byte.
-/

import Glaive.Lib.Bytes

namespace Glaive.Lib

/-- The UTF-8 bytes of a text. -/
def utf8 (text : List Char) : Bytes := text.flatMap String.utf8EncodeChar

/-- Bytes that are valid UTF-8. -/
def IsText (value : Bytes) : Prop := ∃ text, utf8 text = value

theorem utf8_cons (c : Char) (text : List Char) : utf8 (c :: text) = String.utf8EncodeChar c ++ utf8 text :=
  List.flatMap_cons

theorem utf8_append (a b : List Char) : utf8 (a ++ b) = utf8 a ++ utf8 b := List.flatMap_append

/-! ## Decoding -/

theorem utf8_toByteArray (text : List Char) : (⟨(utf8 text).toArray⟩ : ByteArray) = text.utf8Encode := by
  apply ByteArray.ext
  show (utf8 text).toArray = (text.flatMap String.utf8EncodeChar).toByteArray.data
  rw [List.data_toByteArray]
  rfl

theorem utf8_injective {a b : List Char} (h : utf8 a = utf8 b) : a = b := by
  have he : a.utf8Encode = b.utf8Encode := by rw [← utf8_toByteArray, ← utf8_toByteArray, h]
  apply String.ofList_injective
  rw [← String.toByteArray_inj, String.toByteArray_ofList, String.toByteArray_ofList, he]

theorem fromUTF8?_utf8 (text : List Char) :
    String.fromUTF8? ⟨(utf8 text).toArray⟩ = some (String.ofList text) := by
  have hv : ByteArray.IsValidUTF8 ⟨(utf8 text).toArray⟩ := ⟨text, utf8_toByteArray text⟩
  unfold String.fromUTF8?
  rw [dif_pos hv, Option.some.injEq, ← String.toByteArray_inj, String.toByteArray_ofList, ← utf8_toByteArray]
  rfl

theorem fromUTF8?_eq_none {value : Bytes} (h : ¬ IsText value) :
    String.fromUTF8? ⟨value.toArray⟩ = none := by
  unfold String.fromUTF8?
  rw [dif_neg]
  intro hv
  obtain ⟨text, he⟩ := hv
  apply h
  refine ⟨text, ?_⟩
  rw [← utf8_toByteArray] at he
  have hd := congrArg ByteArray.data he
  simpa using hd.symm

/-! ## ASCII characters -/

/-- An ASCII character is one byte; the bytes of any other are past 127. -/
theorem utf8EncodeChar_cases (c : Char) : c.toNat < 128 ∧ String.utf8EncodeChar c = [c.toNat.toUInt8] ∨
    128 ≤ c.toNat ∧ ∀ b ∈ String.utf8EncodeChar c, 128 ≤ b.toNat := by
  have hc : c.toNat = c.val.toNat := rfl
  unfold String.utf8EncodeChar
  simp only
  split
  · exact .inl ⟨by omega, rfl⟩
  · refine .inr ⟨by omega, ?_⟩
    split
    · simp only [List.mem_cons, List.not_mem_nil, or_false, forall_eq_or_imp, forall_eq, UInt8.toNat_ofNat']
      omega
    · split
      · simp only [List.mem_cons, List.not_mem_nil, or_false, forall_eq_or_imp, forall_eq, UInt8.toNat_ofNat']
        omega
      · simp only [List.mem_cons, List.not_mem_nil, or_false, forall_eq_or_imp, forall_eq, UInt8.toNat_ofNat']
        omega

theorem utf8_of_ascii {text : List Char} (h : ∀ c ∈ text, c.toNat < 128) :
    utf8 text = text.map fun c => c.toNat.toUInt8 := by
  induction text with
  | nil => rfl
  | cons c text ih =>
    rw [utf8_cons, ih fun d hd => h d (List.mem_cons_of_mem _ hd), List.map_cons]
    rcases utf8EncodeChar_cases c with ⟨-, he⟩ | ⟨hc, -⟩
    · rw [he]
      rfl
    · have := h c List.mem_cons_self
      omega

theorem ascii_eq_utf8 {s : String} (h : ∀ c ∈ s.toList, c.toNat < 128) : ascii s = utf8 s.toList :=
  (utf8_of_ascii h).symm

theorem toNat_ofNat_ascii : ∀ n < 128, (Char.ofNat n).toNat = n := by decide

/-- Bytes below 128 are a text. -/
theorem isText_of_ascii {bs : Bytes} (h : ∀ b ∈ bs, b.toNat < 128) : IsText bs := by
  refine ⟨bs.map fun b => Char.ofNat b.toNat, ?_⟩
  have hn : ∀ b ∈ bs, (Char.ofNat b.toNat).toNat = b.toNat := fun b hb => toNat_ofNat_ascii _ (h b hb)
  rw [utf8_of_ascii, List.map_map]
  · conv => rhs; rw [← List.map_id bs]
    apply List.map_congr_left
    intro b hb
    show (Char.ofNat b.toNat).toNat.toUInt8 = b
    rw [hn b hb]
    exact UInt8.ofNat_toNat
  · intro c hc
    obtain ⟨b, hb, rfl⟩ := List.mem_map.mp hc
    rw [hn b hb]
    exact h b hb

/-! ## Splitting -/

/-- A separator that occurs in no piece in front cuts nothing off it. -/
theorem splitOn_append_of_not_mem {α : Type} [BEq α] [LawfulBEq α] {sep : α} {xs : List α} (h : sep ∉ xs)
    (ys : List α) : (xs ++ ys).splitOn sep = (ys.splitOn sep).modifyHead (xs ++ ·) := by
  induction xs with
  | nil =>
    rcases hs : ys.splitOn sep with - | ⟨z, zs⟩
    · exact absurd hs (List.splitOn_ne_nil _ _)
    · rw [List.nil_append, hs, List.modifyHead_cons, List.nil_append]
  | cons x xs ih =>
    rw [List.mem_cons, not_or] at h
    rw [List.cons_append, List.splitOn_cons_eq_if_modifyHead, if_neg (by simpa using Ne.symm h.1), ih h.2]
    rcases hs : ys.splitOn sep with - | ⟨z, zs⟩
    · exact absurd hs (List.splitOn_ne_nil _ _)
    · rfl

/-- The bytes of a text split at an ASCII character where the text does. -/
theorem splitOn_utf8 {sep : Char} (hsep : sep.toNat < 128) (text : List Char) :
    (utf8 text).splitOn sep.toNat.toUInt8 = (text.splitOn sep).map utf8 := by
  induction text with
  | nil => simp [utf8]
  | cons c text ih =>
    rw [utf8_cons, List.splitOn_cons_eq_if_modifyHead]
    have hmod : ∀ l : List (List Char), (l.modifyHead (List.cons c)).map utf8 =
        (l.map utf8).modifyHead (String.utf8EncodeChar c ++ ·) := by
      intro l
      cases l with
      | nil => rfl
      | cons x l => simp [utf8_cons]
    by_cases hc : c = sep
    · subst hc
      rcases utf8EncodeChar_cases c with ⟨-, he⟩ | ⟨hc, -⟩
      · rw [he, if_pos (by simp), List.singleton_append, List.splitOn_cons_eq_if_modifyHead, if_pos (by simp), ih]
        rfl
      · omega
    · rw [if_neg (by simpa using hc), hmod, ← ih]
      apply splitOn_append_of_not_mem
      intro hm
      rcases utf8EncodeChar_cases c with ⟨hlt, he⟩ | ⟨-, hb⟩
      · rw [he, List.mem_singleton] at hm
        have hn := congrArg UInt8.toNat hm
        simp only [Nat.toUInt8, UInt8.toNat_ofNat'] at hn
        exact hc (Char.toNat_inj.mp (by omega))
      · have := hb _ hm
        simp only [Nat.toUInt8, UInt8.toNat_ofNat'] at this
        omega

/-! ## Letter case -/

theorem lowerByte_of_le {b : Byte} (h : 128 ≤ b.toNat) : lowerByte b = b := by
  unfold lowerByte
  rw [if_neg]
  intro h'
  have := UInt8.le_iff_toNat_le.mp h'.2
  simp at this
  omega

theorem toLower_of_le {c : Char} (h : 128 ≤ c.toNat) : c.toLower = c := by
  unfold Char.toLower
  rw [dif_neg]
  intro h'
  have := UInt32.le_iff_toNat_le.mp h'.2
  have hc : c.toNat = c.val.toNat := rfl
  simp at this
  omega

theorem lowerByte_ascii : ∀ n < 128, lowerByte n.toUInt8 = (Char.ofNat n).toLower.toNat.toUInt8 ∧
    (Char.ofNat n).toLower.toNat < 128 := by decide +kernel

theorem map_lowerByte_utf8 (text : List Char) : (utf8 text).map lowerByte = utf8 (text.map Char.toLower) := by
  induction text with
  | nil => rfl
  | cons c text ih =>
    rw [utf8_cons, List.map_append, ih, List.map_cons, utf8_cons, List.append_cancel_right_eq]
    rcases utf8EncodeChar_cases c with ⟨hlt, he⟩ | ⟨hle, hb⟩
    · obtain ⟨h1, h2⟩ := lowerByte_ascii c.toNat hlt
      rw [Char.ofNat_toNat] at h1 h2
      rw [he, List.map_singleton, h1]
      rcases utf8EncodeChar_cases c.toLower with ⟨-, he⟩ | ⟨hle, -⟩
      · exact he.symm
      · omega
    · rw [toLower_of_le hle]
      conv => rhs; rw [← List.map_id (String.utf8EncodeChar c)]
      apply List.map_congr_left
      intro b hm
      exact lowerByte_of_le (hb b hm)

theorem lowerByte_lt_iff (b : Byte) : (lowerByte b).toNat < 128 ↔ b.toNat < 128 := by
  unfold lowerByte
  split
  · rename_i h
    have h1 := UInt8.le_iff_toNat_le.mp h.2
    rw [UInt8.toNat_add]
    simp at h1 ⊢
    omega
  · exact Iff.rfl

/-- A lower-case ASCII word. -/
def IsWord (word : String) : Prop := ∀ c ∈ word.toList, c.toNat < 128 ∧ c.toLower = c

instance (word : String) : Decidable (IsWord word) :=
  List.decidableBAll (fun c : Char => c.toNat < 128 ∧ c.toLower = c) word.toList

theorem IsWord.lower {word : String} (h : IsWord word) : word.toList.map Char.toLower = word.toList := by
  conv => rhs; rw [← List.map_id word.toList]
  exact List.map_congr_left fun c hc => (h c hc).2

theorem IsWord.ascii_eq {word : String} (h : IsWord word) : ascii word = utf8 word.toList :=
  ascii_eq_utf8 fun c hc => (h c hc).1

/-- Comparing bytes with a word is comparing characters with it. -/
theorem eqIgnoreCase_utf8 {word : String} (h : IsWord word) (text : List Char) :
    eqIgnoreCase (utf8 text) (ascii word) = true ↔ text.map Char.toLower = word.toList := by
  unfold eqIgnoreCase
  rw [beq_iff_eq, h.ascii_eq, map_lowerByte_utf8, map_lowerByte_utf8, h.lower]
  exact ⟨utf8_injective, fun e => by rw [e]⟩

/-- What is compared equal to a word is a text. -/
theorem isText_of_eqIgnoreCase {word : String} (h : IsWord word) {bs : Bytes}
    (he : eqIgnoreCase bs (ascii word) = true) : IsText bs := by
  apply isText_of_ascii
  intro b hb
  unfold eqIgnoreCase at he
  rw [beq_iff_eq, h.ascii_eq, map_lowerByte_utf8, h.lower, utf8_of_ascii fun c hc => (h c hc).1] at he
  have hm : lowerByte b ∈ bs.map lowerByte := List.mem_map_of_mem hb
  rw [he] at hm
  obtain ⟨c, hc, hcb⟩ := List.mem_map.mp hm
  rw [← lowerByte_lt_iff, ← hcb]
  have := (h c hc).1
  simp only [Nat.toUInt8, UInt8.toNat_ofNat']
  omega

end Glaive.Lib
