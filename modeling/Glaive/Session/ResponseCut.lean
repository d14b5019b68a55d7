/-
  Glaive.Session.ResponseCut — whole responses show where they end.

  A parser of heads that goes by a head alone (`HeadLocal`) finds the heads of a response
  one after the other, and the last of them says how long the body is: of two whole
  responses to one request that begin one stream, neither goes on where the other ends
  (`wholeResponse_prefixFree`).
-/

import Glaive.Lib.PrefixFree
import Glaive.Session.ResponseTaken

namespace Glaive.Session

open Glaive.Lib
open Glaive.Lib.Chunked (Local wholeBody_prefixFree)
open Glaive.Lib.Message (Framing)

/-- What a parser says of a head holds whatever follows the head. -/
def HeadLocal {α : Type} (parse : Bytes → HeadStatus α) : Prop :=
  ∀ buf size parts, parse buf = .complete size parts → ∀ rest, parse (buf.take size ++ rest) = .complete size parts

/-- A table of which no text begins another. -/
theorem parseTable_local {α : Type} {table : List (Bytes × α)}
    (hfree : ∀ e ∈ table, e.1 ≠ [] ∧ ∀ x ∈ table, x.1.isPrefixOf e.1 = true ∨ e.1.isPrefixOf x.1 = true → x = e) :
    HeadLocal (parseTable table) := by
  intro buf size parts h rest
  obtain ⟨e, he, hfront, rfl, rfl⟩ := parseTable_front h
  obtain ⟨hne, hapart⟩ := hfree e he
  rw [← List.prefix_iff_eq_take.mp hfront]
  exact (parseTable_isHead table he hne hapart).complete rest

namespace Upstream

variable {crates : Crates} {req : RequestHeader} {h h' : ResponseHeader} {text text' x y : Bytes}

/-- A stream begins with one head. -/
theorem answer_cut (hl : HeadLocal crates.parseResponse) (ha : IsAnswer crates text h) (ha' : IsAnswer crates text' h')
    (heq : text ++ x = text' ++ y) : text = text' ∧ h = h' ∧ x = y := by
  obtain ⟨more, parts, hp, hh⟩ := ha
  obtain ⟨more', parts', hp', hh'⟩ := ha'
  have hx := hl _ _ _ hp x
  have hy := hl _ _ _ hp' y
  rw [List.take_left] at hx hy
  rw [heq, hy] at hx
  injection hx with hlen hparts
  obtain ⟨htext, hrest⟩ := List.append_inj heq hlen.symm
  exact ⟨htext, Option.some.inj (hh.symm.trans (hparts ▸ hh')), hrest⟩

/-- Informational heads, none of them a 101, as a list of them. -/
def InterimTexts (crates : Crates) (texts : List Bytes) : Prop :=
  ∀ text ∈ texts, ∃ h, IsAnswer crates text h ∧ h.isInformational = true ∧ h.status ≠ 101

theorem Interims.texts {front : Bytes} (hf : Interims crates front) :
    ∃ texts, front = texts.flatten ∧ InterimTexts crates texts := by
  induction hf with
  | nil => exact ⟨[], rfl, fun _ h => absurd h List.not_mem_nil⟩
  | @snoc front text h _ ha hinf h101 ih =>
    obtain ⟨texts, rfl, hall⟩ := ih
    refine ⟨texts ++ [text], by simp, fun t ht => ?_⟩
    rcases List.mem_append.mp ht with ht | ht
    · exact hall t ht
    · exact List.mem_singleton.mp ht ▸ ⟨h, ha, hinf, h101⟩

/-- Up to the last head, and with it, two streams that agree have the same heads. -/
theorem lastHead_cut (hl : HeadLocal crates.parseResponse) (ha : IsAnswer crates text h)
    (hlast : h.isInformational = true → h.status = 101) (ha' : IsAnswer crates text' h')
    (hlast' : h'.isInformational = true → h'.status = 101) : ∀ {texts texts' : List Bytes},
    InterimTexts crates texts → InterimTexts crates texts' →
      texts.flatten ++ (text ++ x) = texts'.flatten ++ (text' ++ y) →
      texts.flatten ++ text = texts'.flatten ++ text' ∧ h = h' := by
  intro texts
  induction texts with
  | nil =>
    intro texts' _ hall' heq
    cases texts' with
    | nil =>
      obtain ⟨rfl, hh, -⟩ := answer_cut hl ha ha' heq
      exact ⟨rfl, hh⟩
    | cons t' texts' =>
      obtain ⟨hi, hai, hinf, h101⟩ := hall' t' List.mem_cons_self
      rw [List.flatten_cons, List.append_assoc] at heq
      obtain ⟨-, rfl, -⟩ := answer_cut hl ha hai heq
      exact absurd (hlast hinf) h101
  | cons t texts ih =>
    intro texts' hall hall' heq
    obtain ⟨hi, hai, hinf, h101⟩ := hall t List.mem_cons_self
    rw [List.flatten_cons, List.append_assoc] at heq
    cases texts' with
    | nil =>
      obtain ⟨-, rfl, -⟩ := answer_cut hl hai ha' heq
      exact absurd (hlast' hinf) h101
    | cons t' texts' =>
      obtain ⟨hi', hai', -⟩ := hall' t' List.mem_cons_self
      rw [List.flatten_cons, List.append_assoc] at heq
      obtain ⟨rfl, -, htail⟩ := answer_cut hl hai hai' heq
      obtain ⟨hsame, hh⟩ := ih (fun t ht => hall t (List.mem_cons_of_mem _ ht))
        (fun t ht => hall' t (List.mem_cons_of_mem _ ht)) htail
      refine ⟨?_, hh⟩
      simp only [List.flatten_cons, List.append_assoc, hsame]

theorem last_of_final (hst : 200 ≤ h.status) (hinf : h.isInformational = true) : h.status = 101 := by
  simp only [ResponseHeader.isInformational, Bool.and_eq_true, decide_eq_true_eq] at hinf
  omega

/-- The heads of a response show where they end, and how its body is framed. -/
theorem heads_cut (hl : HeadLocal crates.parseResponse) {heads heads' : Bytes} {f f' : Framing}
    (hh : Heads crates req heads f) (hh' : Heads crates req heads' f') (heq : heads ++ x = heads' ++ y) :
    heads = heads' ∧ f = f' := by
  cases hh with
  | mk hfront ha hst _ hf =>
    cases hh' with
    | mk hfront' ha' hst' _ hf' =>
      obtain ⟨texts, rfl, hall⟩ := hfront.texts
      obtain ⟨texts', rfl, hall'⟩ := hfront'.texts
      rw [List.append_assoc, List.append_assoc] at heq
      obtain ⟨hheads, rfl⟩ := lastHead_cut hl ha (last_of_final hst) ha' (last_of_final hst') hall hall' heq
      exact ⟨hheads, Option.some.inj (hf.symm.trans hf')⟩

/-- Where the last head of a whole response was found, what follows it is the body. -/
theorem WholeResponse.at_last (hl : HeadLocal crates.parseResponse) {response front bs : Bytes}
    (hw : WholeResponse crates req response) (hfront : Interims crates front) (ha : IsAnswer crates text h)
    (hlast : h.isInformational = true → h.status = 101) (heq : front ++ (text ++ bs) = response) :
    ∃ f, framingOf req h = some f ∧ WholeResponseBody crates f bs := by
  obtain ⟨_, body, f, ⟨hfront', ha', hst', _, hf⟩, hbody, rfl⟩ := hw
  obtain ⟨texts, rfl, hall⟩ := hfront.texts
  obtain ⟨texts', rfl, hall'⟩ := hfront'.texts
  rw [List.append_assoc] at heq
  obtain ⟨hheads, rfl⟩ := lastHead_cut hl ha hlast ha' (last_of_final hst') hall hall' heq
  rw [← List.append_assoc, ← List.append_assoc, hheads] at heq
  exact ⟨f, hf, List.append_cancel_left heq ▸ hbody⟩

theorem wholeResponse_prefixFree (hl : HeadLocal crates.parseResponse) (hc : Local crates.parseChunkSize)
    (req : RequestHeader) : PrefixFree (WholeResponse crates req) := by
  rintro _ _ x y ⟨heads, body, f, hheads, hbody, rfl⟩ ⟨heads', body', f', hheads', hbody', rfl⟩ heq
  rw [List.append_assoc, List.append_assoc] at heq
  obtain ⟨rfl, rfl⟩ := heads_cut hl hheads hheads' heq
  have hrest := List.append_cancel_left heq
  cases f with
  | length n => rw [PrefixFree.of_length n hbody hbody' hrest]
  | chunked => rw [wholeBody_prefixFree hc hbody hbody' hrest]

end Upstream

end Glaive.Session
