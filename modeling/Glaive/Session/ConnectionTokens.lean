/-
  Glaive.Session.ConnectionTokens — what `Utils::parse_connection_header` makes of a
  `Connection` value, against the set of tokens the value lists.

  The shortcut for a value that is one word knows the three words; the loop over the
  list knows only `close` and `upgrade`. So `keep-alive` next to another token, or with
  a blank beside it, is not seen, and a value that is not UTF-8 lists nothing at all.
  `parseConnectionHeader_iff` is exactly when the flags are those of the tokens.
-/

import Mathlib.Data.List.TakeWhile
import Glaive.Lib.Utf8
import Glaive.Session.Utils

namespace Glaive.Session

open Glaive.Lib

namespace Utils

/-! ## The tokens of a value -/

/-- `word` in any letter case, between whitespace. -/
def Names (word : String) (element : Bytes) : Prop :=
  ∃ (before after : List Char) (inner : Bytes), element = utf8 before ++ inner ++ utf8 after ∧
    (∀ c ∈ before, isWhitespace c = true) ∧ (∀ c ∈ after, isWhitespace c = true) ∧
    eqIgnoreCase inner (ascii word) = true

/-- One of the comma-separated elements of `value` is `word`. -/
def Lists (word : String) (value : Bytes) : Prop := ∃ element ∈ value.splitOn 44, Names word element

/-- `flags` are those of the set of tokens of `value`. -/
structure FlagsOf (value : Bytes) (flags : ConnectionValue) : Prop where
  keepAlive : flags.keepAlive = true ↔ Lists "keep-alive" value
  upgrade : flags.upgrade = true ↔ Lists "upgrade" value
  close : flags.close = true ↔ Lists "close" value

/-! ## Trimming -/

theorem dropWhile_word {α : Type} {p : α → Bool} {ws word rest : List α} (hws : ∀ c ∈ ws, p c = true)
    (hword : ∀ c ∈ word, p c = false) (hne : word ≠ []) : (ws ++ (word ++ rest)).dropWhile p = word ++ rest := by
  rw [List.dropWhile_append_of_pos hws]
  cases word with
  | nil => exact absurd rfl hne
  | cons c word => simp [hword c List.mem_cons_self]

theorem trim_around {before word after : List Char} (hb : ∀ c ∈ before, isWhitespace c = true)
    (ha : ∀ c ∈ after, isWhitespace c = true) (hword : ∀ c ∈ word, isWhitespace c = false) (hne : word ≠ []) :
    trim (before ++ word ++ after) = word := by
  unfold trim
  rw [List.append_assoc, dropWhile_word hb hword hne, List.reverse_append, ← List.append_nil word.reverse,
    dropWhile_word (by simpa using ha) (by simpa using hword) (by simpa using hne), List.append_nil,
    List.reverse_reverse]

theorem trim_split (text : List Char) : ∃ before after, text = before ++ trim text ++ after ∧
    (∀ c ∈ before, isWhitespace c = true) ∧ (∀ c ∈ after, isWhitespace c = true) := by
  refine ⟨text.takeWhile isWhitespace,
    ((text.dropWhile isWhitespace).reverse.takeWhile isWhitespace).reverse, ?_, fun c => List.mem_takeWhile_imp, ?_⟩
  · rw [trim, List.append_assoc, ← List.reverse_append, List.takeWhile_append_dropWhile, List.reverse_reverse,
      List.takeWhile_append_dropWhile]
  · intro c hc
    exact List.mem_takeWhile_imp (List.mem_reverse.mp hc)

/-! ## Elements that are text -/

/-- A lower-case ASCII word with no whitespace in it. -/
def IsToken (word : String) : Prop :=
  IsWord word ∧ word.toList ≠ [] ∧ ∀ c ∈ word.toList, isWhitespace c = false

theorem isToken_of_all {word : String} (hw : IsWord word) (hne : word.toList ≠ [])
    (h : word.toList.all (fun c => !isWhitespace c) = true) : IsToken word :=
  ⟨hw, hne, fun c hc => by simpa using List.all_eq_true.mp h c hc⟩

theorem isToken_close : IsToken "close" := isToken_of_all (by decide) (by decide) (by decide)

theorem isToken_keepAlive : IsToken "keep-alive" := isToken_of_all (by decide) (by decide) (by decide)

theorem isToken_upgrade : IsToken "upgrade" := isToken_of_all (by decide) (by decide) (by decide)

theorem toLower_of_isWhitespace {c : Char} (h : isWhitespace c = true) : c.toLower = c := by
  unfold Char.toLower
  rw [dif_neg]
  intro h'
  have h1 := UInt32.le_iff_toNat_le.mp h'.1
  have h2 := UInt32.le_iff_toNat_le.mp h'.2
  have hc : c.toNat = c.val.toNat := rfl
  simp [isWhitespace] at h h1 h2
  omega

theorem IsToken.not_isWhitespace {word : String} (h : IsToken word) {text : List Char}
    (ht : text.map Char.toLower = word.toList) {c : Char} (hc : c ∈ text) : isWhitespace c = false := by
  have hm : c.toLower ∈ word.toList := by rw [← ht]; exact List.mem_map_of_mem hc
  cases hw : isWhitespace c with
  | false => rfl
  | true =>
    rw [toLower_of_isWhitespace hw] at hm
    rw [← hw]
    exact h.2.2 c hm

theorem names_utf8 {word : String} (h : IsToken word) (text : List Char) :
    Names word (utf8 text) ↔ charsEqIgnoreCase (trim text) word = true := by
  unfold charsEqIgnoreCase
  rw [beq_iff_eq]
  constructor
  · intro hn
    obtain ⟨before, after, inner, he, hb, ha, hi⟩ := hn
    obtain ⟨chars, rfl⟩ := isText_of_eqIgnoreCase h.1 hi
    rw [eqIgnoreCase_utf8 h.1] at hi
    rw [← utf8_append, ← utf8_append] at he
    rw [utf8_injective he, trim_around hb ha, hi]
    · exact fun c => h.not_isWhitespace hi
    · intro e
      rw [e] at hi
      exact h.2.1 hi.symm
  · intro hl
    obtain ⟨before, after, he, hb, ha⟩ := trim_split text
    refine ⟨before, after, utf8 (trim text), ?_, hb, ha, (eqIgnoreCase_utf8 h.1 _).mpr hl⟩
    rw [← utf8_append, ← utf8_append, ← he]

theorem lists_utf8 {word : String} (h : IsToken word) (text : List Char) :
    Lists word (utf8 text) ↔ ∃ t ∈ (text.splitOn ',').map trim, charsEqIgnoreCase t word = true := by
  unfold Lists
  have hs : (utf8 text).splitOn 44 = (text.splitOn ',').map utf8 :=
    splitOn_utf8 (show ','.toNat < 128 by decide) text
  simp only [hs, List.mem_map, exists_exists_and_eq_and, names_utf8 h]

/-! ## The shortcut and the loop -/

theorem scanTokens_eq : ∀ (tokens : List (List Char)) (close upgrade : Bool), (upgrade && close) = false →
    scanTokens close upgrade tokens = ⟨false, upgrade || tokens.any fun t => charsEqIgnoreCase t "upgrade",
      close || tokens.any fun t => charsEqIgnoreCase t "close"⟩ := by
  intro tokens
  induction tokens with
  | nil =>
    intro close upgrade h
    unfold scanTokens
    cases close <;> cases upgrade <;> simp_all
  | cons t tokens ih =>
    intro close upgrade h
    -- no token is both words
    have hx : charsEqIgnoreCase t "close" = true → charsEqIgnoreCase t "upgrade" = false := by
      unfold charsEqIgnoreCase
      rw [beq_iff_eq]
      intro e
      rw [e]
      decide
    unfold scanTokens
    simp only [List.any_cons]
    cases hc : charsEqIgnoreCase t "close" with
    | true =>
      rw [hx hc]
      cases close <;> cases upgrade <;> simp_all
    | false => cases hu : charsEqIgnoreCase t "upgrade" <;> cases close <;> cases upgrade <;> simp_all

theorem parse_loop {text : List Char} (hc : eqIgnoreCase (utf8 text) (ascii "close") = false)
    (hk : eqIgnoreCase (utf8 text) (ascii "keep-alive") = false)
    (hu : eqIgnoreCase (utf8 text) (ascii "upgrade") = false) :
    parseConnectionHeader (utf8 text) =
      ⟨false, ((text.splitOn ',').map trim).any fun t => charsEqIgnoreCase t "upgrade",
        ((text.splitOn ',').map trim).any fun t => charsEqIgnoreCase t "close"⟩ := by
  have hne : ∀ (word : String), word.toList ≠ [] → ∀ ts : List (List Char),
      ((ts.filter fun t => !t.isEmpty).any fun t => charsEqIgnoreCase t word) = ts.any fun t => charsEqIgnoreCase t word := by
    intro word hw ts
    rw [List.any_filter]
    congr 1
    funext t
    cases t with
    | nil => simpa [charsEqIgnoreCase] using Ne.symm hw
    | cons c t => rfl
  unfold parseConnectionHeader
  rw [hc, hk, hu, fromUTF8?_utf8]
  simp only [Bool.false_eq_true, if_false, Option.getD_some, String.toList_ofList]
  rw [scanTokens_eq _ _ _ rfl, hne _ (by decide), hne _ (by decide)]
  rfl

theorem parse_close {value : Bytes} (h : eqIgnoreCase value (ascii "close") = true) :
    parseConnectionHeader value = ⟨false, false, true⟩ := by
  unfold parseConnectionHeader
  rw [if_pos h]

theorem parse_keepAlive {value : Bytes} (h : eqIgnoreCase value (ascii "keep-alive") = true) :
    parseConnectionHeader value = ⟨true, false, false⟩ := by
  have hc : eqIgnoreCase value (ascii "close") = false := by
    unfold eqIgnoreCase at h ⊢
    rw [beq_iff_eq.mp h]
    decide
  unfold parseConnectionHeader
  rw [if_neg (by rw [hc]; decide), if_pos h]

theorem parse_upgrade {value : Bytes} (h : eqIgnoreCase value (ascii "upgrade") = true) :
    parseConnectionHeader value = ⟨false, true, false⟩ := by
  have hc : eqIgnoreCase value (ascii "close") = false ∧ eqIgnoreCase value (ascii "keep-alive") = false := by
    unfold eqIgnoreCase at h ⊢
    rw [beq_iff_eq.mp h]
    decide
  unfold parseConnectionHeader
  rw [if_neg (by rw [hc.1]; decide), if_neg (by rw [hc.2]; decide), if_pos h]

theorem parse_not_text {value : Bytes} (h : ¬ IsText value) : parseConnectionHeader value = ⟨false, false, false⟩ := by
  have hne : ∀ word, IsToken word → ¬ eqIgnoreCase value (ascii word) = true :=
    fun word hw he => h (isText_of_eqIgnoreCase hw.1 he)
  unfold parseConnectionHeader
  rw [if_neg (hne _ isToken_close), if_neg (hne _ isToken_keepAlive), if_neg (hne _ isToken_upgrade),
    fromUTF8?_eq_none h]
  decide

/-- A value that is one word lists that word alone. -/
theorem lists_word {word w : String} (h : IsToken word) (hw : IsToken w) (hcomma : ',' ∉ word.toList) {value : Bytes}
    (he : eqIgnoreCase value (ascii word) = true) : Lists w value ↔ w = word := by
  obtain ⟨text, rfl⟩ := isText_of_eqIgnoreCase h.1 he
  rw [eqIgnoreCase_utf8 h.1] at he
  have hnot : ',' ∉ text := by
    intro hm
    apply hcomma
    rw [← he]
    exact List.mem_map_of_mem (f := Char.toLower) hm
  have htrim : trim text = text := by
    have ht := @trim_around [] text [] (List.forall_mem_nil _) (List.forall_mem_nil _)
      (fun c => h.not_isWhitespace he) (by intro e; rw [e] at he; exact h.2.1 he.symm)
    simpa using ht
  rw [lists_utf8 hw, List.splitOn_eq_singleton hnot]
  simp only [List.map_singleton, List.mem_singleton, exists_eq_left, htrim, charsEqIgnoreCase, beq_iff_eq, he]
  rw [String.toList_inj]
  exact eq_comm

/-- The flags of a value that is the word `word` alone. -/
theorem flagsOf_word {word : String} (h : IsToken word) (hcomma : ',' ∉ word.toList) {value : Bytes}
    (he : eqIgnoreCase value (ascii word) = true) (flags : ConnectionValue) :
    FlagsOf value flags ↔ flags = ⟨word == "keep-alive", word == "upgrade", word == "close"⟩ := by
  have hk := lists_word h isToken_keepAlive hcomma he
  have hu := lists_word h isToken_upgrade hcomma he
  have hc := lists_word h isToken_close hcomma he
  rcases flags with ⟨k, u, c⟩
  rw [ConnectionValue.mk.injEq, Bool.eq_iff_iff, Bool.eq_iff_iff (a := u), Bool.eq_iff_iff (a := c), beq_iff_eq,
    beq_iff_eq, beq_iff_eq, eq_comm (a := word), eq_comm (a := word), eq_comm (a := word), ← hk, ← hu, ← hc]
  exact ⟨fun hf => ⟨hf.keepAlive, hf.upgrade, hf.close⟩, fun hf => ⟨hf.1, hf.2.1, hf.2.2⟩⟩

theorem flagsOf_loop {text : List Char} (hc : eqIgnoreCase (utf8 text) (ascii "close") = false)
    (hk : eqIgnoreCase (utf8 text) (ascii "keep-alive") = false)
    (hu : eqIgnoreCase (utf8 text) (ascii "upgrade") = false) :
    FlagsOf (utf8 text) (parseConnectionHeader (utf8 text)) ↔ ¬ Lists "keep-alive" (utf8 text) := by
  rw [parse_loop hc hk hu]
  constructor
  · intro hf hl
    cases hf.keepAlive.mpr hl
  · intro hl
    refine ⟨⟨fun e => absurd e Bool.false_ne_true, fun h => absurd h hl⟩, ?_, ?_⟩
    · rw [lists_utf8 isToken_upgrade, List.any_eq_true]
    · rw [lists_utf8 isToken_close, List.any_eq_true]

theorem flagsOf_not_text {value : Bytes} (h : ¬ IsText value) : FlagsOf value (parseConnectionHeader value) ↔
    ¬ Lists "keep-alive" value ∧ ¬ Lists "close" value ∧ ¬ Lists "upgrade" value := by
  rw [parse_not_text h]
  constructor
  · intro hf
    refine ⟨fun hl => ?_, fun hl => ?_, fun hl => ?_⟩
    · cases hf.keepAlive.mpr hl
    · cases hf.close.mpr hl
    · cases hf.upgrade.mpr hl
  · intro hl
    have hno : ∀ p : Prop, ¬ p → (false = true ↔ p) := fun p hp => ⟨fun e => absurd e Bool.false_ne_true, fun h => absurd h hp⟩
    exact ⟨hno _ hl.1, hno _ hl.2.2, hno _ hl.2.1⟩

/-- The flags are those of the tokens exactly when `keep-alive` is the whole value or no
    element of it, and the value is UTF-8 or lists neither `close` nor `upgrade`. -/
theorem parseConnectionHeader_iff (value : Bytes) : FlagsOf value (parseConnectionHeader value) ↔
    eqIgnoreCase value (ascii "keep-alive") = true ∨
      ¬ Lists "keep-alive" value ∧ (IsText value ∨ ¬ Lists "close" value ∧ ¬ Lists "upgrade" value) := by
  cases hk : eqIgnoreCase value (ascii "keep-alive") with
  | true =>
    rw [flagsOf_word isToken_keepAlive (by decide) hk, parse_keepAlive hk]
    exact ⟨fun _ => .inl rfl, fun _ => rfl⟩
  | false =>
    cases hc : eqIgnoreCase value (ascii "close") with
    | true =>
      have hl : ¬ Lists "keep-alive" value := by
        rw [lists_word isToken_close isToken_keepAlive (by decide) hc]
        decide
      rw [flagsOf_word isToken_close (by decide) hc, parse_close hc]
      exact ⟨fun _ => .inr ⟨hl, .inl (isText_of_eqIgnoreCase isToken_close.1 hc)⟩, fun _ => rfl⟩
    | false =>
      cases hu : eqIgnoreCase value (ascii "upgrade") with
      | true =>
        have hl : ¬ Lists "keep-alive" value := by
          rw [lists_word isToken_upgrade isToken_keepAlive (by decide) hu]
          decide
        rw [flagsOf_word isToken_upgrade (by decide) hu, parse_upgrade hu]
        exact ⟨fun _ => .inr ⟨hl, .inl (isText_of_eqIgnoreCase isToken_upgrade.1 hu)⟩, fun _ => rfl⟩
      | false =>
        by_cases ht : IsText value
        · obtain ⟨text, rfl⟩ := ht
          rw [flagsOf_loop hc hk hu]
          exact ⟨fun h => .inr ⟨h, .inl ⟨text, rfl⟩⟩, fun h => h.elim (fun e => absurd e Bool.false_ne_true) And.left⟩
        · rw [flagsOf_not_text ht]
          simp [ht]

/-- `keep-alive, upgrade` lists `keep-alive`, and is read without it. -/
theorem parse_list_loses_keepAlive : ¬ ∀ value, FlagsOf value (parseConnectionHeader value) := by
  intro h
  have ht : ascii "keep-alive, upgrade" = utf8 "keep-alive, upgrade".toList := IsWord.ascii_eq (by decide)
  have hf := (flagsOf_loop (by rw [← ht]; decide) (by rw [← ht]; decide)
    (by rw [← ht]; decide)).mp (h _)
  rw [← ht] at hf
  exact hf ⟨ascii "keep-alive", by decide, [], [], ascii "keep-alive", rfl, List.forall_mem_nil _,
    List.forall_mem_nil _, by decide⟩

end Utils

end Glaive.Session
