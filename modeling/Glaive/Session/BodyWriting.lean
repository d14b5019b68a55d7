/-
  Glaive.Session.BodyWriting — a body on its way through the writer
  (`core/src/session/writer.rs`: `write_body`, `finish`).

  `Counted` says what a writer that goes by a length, or writes until closed, has let
  through. As long as what comes fits under the length, it goes to the wire as it is
  (`Counted.emit`), and an end that the writer accepts comes at the length or past it
  (`Counted.closing`). `Chunking` says what one that writes chunks has on the wire.
-/

import Glaive.Session.RoundTrip

namespace Glaive.Session.BodyWriter

open Glaive.Lib

/-- The writer, set to `limit`, has put `written` on the wire; the flag says that the
    body was ended. -/
inductive Counted (limit : Option Nat) : BodyWriter → Bytes → Bool → Prop
  | length {total : Nat} {written : Bytes} : limit = some total →
      Counted limit ⟨.contentLength total written.length⟩ written false
  | untilClosed {written : Bytes} : limit = none → Counted limit ⟨.http10 written.length⟩ written false
  | ended {written : Bytes} : (∀ total, limit = some total → total ≤ written.length) →
      Counted limit ⟨.completed written.length⟩ written true

variable {limit : Option Nat} {w : BodyWriter} {written x : Bytes} {ended : Bool}

theorem counted_length (total : Nat) : Counted (some total) (w.withContentLengthWrite total) [] false :=
  (.length rfl : Counted (some total) ⟨.contentLength total ([] : Bytes).length⟩ [] false)

theorem counted_untilClosed : Counted none w.withUntilClosedWrite [] false :=
  (.untilClosed rfl : Counted none ⟨.http10 ([] : Bytes).length⟩ [] false)

/-- What fits goes to the wire as it is. -/
theorem Counted.emit (hw : Counted limit w written ended)
    (hfits : ∀ total, limit = some total → (written ++ x).length ≤ total) (hend : ended = true → x = []) :
    (w.emit x).1 = x ∧ Counted limit (w.emit x).2 (written ++ x) ended := by
  cases hw with
  | @length total _ hlimit =>
    have hle := hfits total hlimit
    rw [List.length_append] at hle
    simp only [BodyWriter.emit]
    split
    · obtain rfl : x = [] := List.eq_nil_of_length_eq_zero (by omega)
      rw [List.append_nil]
      exact ⟨rfl, .length hlimit⟩
    · rw [List.take_of_length_le (by omega), Nat.min_eq_right (by omega), ← List.length_append]
      exact ⟨rfl, .length hlimit⟩
  | untilClosed hlimit =>
    refine ⟨rfl, ?_⟩
    show Counted limit ⟨.http10 (written.length + x.length)⟩ _ _
    rw [← List.length_append]
    exact .untilClosed hlimit
  | ended hall =>
    rw [hend rfl, List.append_nil]
    exact ⟨rfl, .ended hall⟩

theorem finish_not_short {w' : BodyWriter} {s s' : Stream} {n : Option Nat}
    (hf : BodyWriter.finish (w, s) = (.ok n, w', s')) : w.short = false := by
  rcases w with ⟨st⟩
  cases st with
  | contentLength total n =>
    simp only [BodyWriter.finish] at hf
    split at hf
    · cases hf
    · rename_i hlt
      simpa [BodyWriter.short] using hlt
  | _ => rfl

theorem Counted.closing (hw : Counted limit w written ended) (hshort : w.short = false) :
    w.closing.1 = [] ∧ Counted limit w.closing.2 written true := by
  cases hw with
  | @length total _ hlimit =>
    refine ⟨rfl, .ended fun total' hlimit' => ?_⟩
    cases hlimit.symm.trans hlimit'
    simpa [BodyWriter.short] using hshort
  | untilClosed hlimit => exact ⟨rfl, .ended fun total hlimit' => by cases hlimit.symm.trans hlimit'⟩
  | ended hall => exact ⟨rfl, .ended hall⟩

/-- A writer that counts itself finished has written the length. -/
theorem Counted.finished (hw : Counted limit w written ended) (hfin : w.finished = true) {total : Nat}
    (hlimit : limit = some total) : total ≤ written.length := by
  cases hw with
  | @length total' _ hlimit' =>
    cases hlimit.symm.trans hlimit'
    simpa [BodyWriter.finished] using hfin
  | untilClosed hlimit' => cases hlimit.symm.trans hlimit'
  | ended hall => exact hall total hlimit

/-- The writer, set to chunks, has put `pieces` on the wire as chunks, and the last chunk
    if the body was ended. -/
inductive Chunking (w : BodyWriter) (pieces : List Bytes) : Bytes → Bool → Prop
  | going {n : Nat} : w = ⟨.chunkedEncoding n⟩ → (∀ x ∈ pieces, x ≠ []) →
      Chunking w pieces (pieces.map chunkOf).flatten false
  | ended {n : Nat} : w = ⟨.completed n⟩ → (∀ x ∈ pieces, x ≠ []) → Chunking w pieces (chunkedWire pieces) true

theorem chunking_withChunkedEncodingWrite : Chunking w.withChunkedEncodingWrite [] [] false :=
  .going rfl fun _ hx => absurd hx List.not_mem_nil

/-- A piece goes out as a chunk. -/
theorem Chunking.emit {pieces : List Bytes} (hw : Chunking w pieces written false) (hx : x ≠ []) :
    Chunking (w.emit x).2 (pieces ++ [x]) (written ++ (w.emit x).1) false := by
  cases hw with
  | going hst hne =>
    subst hst
    have hsum : (pieces.map chunkOf).flatten ++ chunkOf x = ((pieces ++ [x]).map chunkOf).flatten := by
      rw [List.map_append, List.flatten_append]
      exact congrArg _ (List.append_nil _).symm
    show Chunking _ _ ((pieces.map chunkOf).flatten ++ chunkOf x) false
    rw [hsum]
    refine .going rfl fun y hy => ?_
    rcases List.mem_append.mp hy with hy | hy
    · exact hne y hy
    · rw [List.mem_singleton.mp hy]
      exact hx

theorem Chunking.closing {pieces : List Bytes} (hw : Chunking w pieces written false) :
    Chunking w.closing.2 pieces (written ++ w.closing.1) true := by
  cases hw with
  | going hst hne =>
    subst hst
    exact .ended rfl hne

end Glaive.Session.BodyWriter
