/-
  Glaive.Lib.PrefixFree — messages that show where they end.

  Of two messages that begin one stream neither goes on where the other ends, if they
  come from a prefix-free set (`PrefixFree`); a stream of such messages is then cut in one
  way only (`forall₂_unique`). Whole chunked bodies are prefix-free (`wholeBody_prefixFree`).
-/

import Mathlib.Data.List.Forall2
import Glaive.Lib.LooseChunks

namespace Glaive.Lib

/-- Two members that begin one list are the same. -/
def PrefixFree {α : Type} (P : List α → Prop) : Prop :=
  ∀ ⦃a b x y : List α⦄, P a → P b → a ++ x = b ++ y → a = b

namespace PrefixFree

variable {α ι : Type}

theorem of_length (n : Nat) : PrefixFree fun a : List α => a.length = n := by
  intro a b x y ha hb h
  exact (List.append_inj h (ha.trans hb.symm)).1

/-- A stream of messages, each of its own set, is cut in one way. -/
theorem forall₂_unique {P : ι → List α → Prop} (hP : ∀ i, PrefixFree (P i)) {is : List ι} {as : List (List α)}
    (ha : List.Forall₂ P is as) : ∀ {bs : List (List α)} {x y : List α}, List.Forall₂ P is bs →
      as.flatten ++ x = bs.flatten ++ y → as = bs ∧ x = y := by
  induction ha with
  | nil =>
    intro bs x y hb h
    cases hb
    exact ⟨rfl, h⟩
  | @cons i a is as hfirst _ ih =>
    intro bs x y hb h
    cases hb with
    | @cons _ b _ bs hfirst' hrest =>
      rw [List.flatten_cons, List.flatten_cons, List.append_assoc, List.append_assoc] at h
      obtain rfl := hP i hfirst hfirst' h
      obtain ⟨rfl, hx⟩ := ih hrest (List.append_cancel_left h)
      exact ⟨rfl, hx⟩

end PrefixFree

namespace Chunked

/-- Up to the first CR two lines agree. -/
theorem untilCr_unique : ∀ {l l' u v : Bytes}, (∀ b ∈ l, b ≠ cr) → (∀ b ∈ l', b ≠ cr) →
    l ++ cr :: u = l' ++ cr :: v → l = l' ∧ u = v := by
  intro l
  induction l with
  | nil =>
    intro l' u v _ hl' h
    cases l' with
    | nil => exact ⟨rfl, (List.cons.inj h).2⟩
    | cons b l' => exact absurd (List.cons.inj h).1.symm (hl' b List.mem_cons_self)
  | cons a l ih =>
    intro l' u v hl hl' h
    cases l' with
    | nil => exact absurd (List.cons.inj h).1 (hl a List.mem_cons_self)
    | cons b l' =>
      obtain ⟨rfl, htail⟩ := List.cons.inj h
      obtain ⟨rfl, huv⟩ := ih (fun b hb => hl b (List.mem_cons_of_mem _ hb))
        (fun b hb => hl' b (List.mem_cons_of_mem _ hb)) htail
      exact ⟨rfl, huv⟩

theorem crlf_eq : crlf = [cr, lf] := rfl

/-- Trailer fields show where they end: by an empty line. -/
theorem trailers_prefixFree : PrefixFree fun bs => ∃ trailers, Trailers trailers ∧ bs = trailers ++ crlf := by
  rintro _ _ x y ⟨_, ⟨ls, hls, rfl⟩, rfl⟩ ⟨_, ⟨ls', hls', rfl⟩, rfl⟩ h
  suffices hsame : ls = ls' by rw [hsame]
  induction ls generalizing ls' with
  | nil =>
    cases ls' with
    | nil => rfl
    | cons l ls' =>
      obtain ⟨hne, hfree⟩ := hls' l List.mem_cons_self
      obtain ⟨b, l, rfl⟩ := List.exists_cons_of_ne_nil hne
      exact absurd (List.cons.inj h).1.symm (hfree b List.mem_cons_self).1
  | cons l ls ih =>
    obtain ⟨hne, hfree⟩ := hls l List.mem_cons_self
    cases ls' with
    | nil =>
      obtain ⟨b, l, rfl⟩ := List.exists_cons_of_ne_nil hne
      exact absurd (List.cons.inj h).1 (hfree b List.mem_cons_self).1
    | cons l' ls' =>
      simp only [List.map_cons, List.flatten_cons, List.append_assoc, crlf_eq, List.cons_append, List.nil_append] at h
      obtain ⟨rfl, htail⟩ := untilCr_unique (fun b hb => (hfree b hb).1)
        (fun b hb => ((hls' l' List.mem_cons_self).2 b hb).1) h
      have hrest := ih (fun l hl => hls l (List.mem_cons_of_mem _ hl)) ls' (fun l hl => hls' l (List.mem_cons_of_mem _ hl))
        (by simpa only [List.append_assoc, crlf_eq, List.cons_append, List.nil_append] using (List.cons.inj htail).2)
      rw [hrest]

variable {parse : Bytes → ChunkStatus}

theorem isLine_cut (hl : Local parse) {line line' x y : Bytes} {n n' : Nat} (h : IsLine parse line n)
    (h' : IsLine parse line' n') (heq : line ++ x = line' ++ y) : line = line' ∧ n = n' ∧ x = y := by
  have hp := hl.line_append h x
  rw [heq, hl.line_append h' y] at hp
  injection hp with hlen hn
  obtain ⟨hline, hrest⟩ := List.append_inj heq hlen.symm
  exact ⟨hline, hn.symm, hrest⟩

/-- A chunked body shows where it ends. -/
theorem wholeBody_prefixFree (hl : Local parse) : PrefixFree (WholeBody parse) := by
  rintro _ _ x y ⟨cs, last, trailers, -, hlast, htr, rfl⟩ ⟨cs', last', trailers', -, hlast', htr', rfl⟩ h
  induction cs generalizing cs' with
  | nil =>
    cases cs' with
    | nil =>
      simp only [looseWire_nil, List.nil_append, List.append_assoc] at h ⊢
      obtain ⟨rfl, -, htail⟩ := isLine_cut hl hlast hlast' h
      refine congrArg (last ++ ·) (trailers_prefixFree ⟨_, htr, rfl⟩ ⟨_, htr', rfl⟩ (x := x) (y := y) ?_)
      simpa only [List.append_assoc] using htail
    | cons c cs' =>
      simp only [looseWire_nil, looseWire_cons, LooseChunk.text, List.nil_append, List.append_assoc] at h
      obtain ⟨-, hsize, -⟩ := isLine_cut hl hlast c.isLine h
      exact absurd (List.length_eq_zero_iff.mp hsize.symm) c.nonempty
  | cons c cs ih =>
    cases cs' with
    | nil =>
      simp only [looseWire_nil, looseWire_cons, LooseChunk.text, List.nil_append, List.append_assoc] at h
      obtain ⟨-, hsize, -⟩ := isLine_cut hl c.isLine hlast' h
      exact absurd (List.length_eq_zero_iff.mp hsize) c.nonempty
    | cons c' cs' =>
      have hchunk := h
      simp only [looseWire_cons, LooseChunk.text, List.append_assoc] at hchunk
      obtain ⟨hline, hsize, hrest⟩ := isLine_cut hl c.isLine c'.isLine hchunk
      obtain ⟨hdata, hrest⟩ := List.append_inj hrest hsize
      obtain ⟨hgap, hrest⟩ := List.append_inj hrest (c.gapSize.trans c'.gapSize.symm)
      have htext : c.text = c'.text := by
        unfold LooseChunk.text
        rw [hline, hdata, hgap]
      have htail := ih cs' (by simpa only [List.append_assoc] using hrest)
      simp only [looseWire_cons, List.append_assoc, htext]
      exact congrArg (c'.text ++ ·) htail

end Chunked

end Glaive.Lib
