/-
  Glaive.Session.BatchedBodies — the tasks of a body written in one batch, and one after
  another (`core/src/session/downstream.rs`: `vectored_write_response_body`,
  `write_response_body`; `core/src/session/writer.rs`).

  A batch gathers the bytes of its body tasks and writes them at once. On a healthy
  socket it leaves what the tasks leave in turn, but for the cuts of the chunks
  (`bodies_match`); a writer in no mode panics in both ways alike.
-/

import Glaive.Session.ResponseWriting

namespace Glaive.Session

open Glaive.Lib
open Glaive.Lib.Async

/-! ## What is compared -/

def Task.isHeader : Task → Bool
  | .header _ _ => true
  | _ => false

/-- The tasks of a body; the last one may be any that is no head. -/
inductive BodyTasks : List Task → Prop
  | last {t : Task} : t.isHeader = false → BodyTasks [t]
  | more (b : Option Bytes) {ts : List Task} : BodyTasks ts → BodyTasks (.body b false :: ts)

/-- The wire of some slices, each a chunk. -/
def chunksOf (xs : List Bytes) : Bytes := xs.flatMap BodyWriter.chunkOf

/-- Body bytes that differ in the cuts of their chunks alone. -/
inductive SameBody : Bytes → Bytes → Prop
  | same (body : Bytes) : SameBody body body
  | cut {xs ys : List Bytes} (rest : Bytes) : (∀ x ∈ xs, x ≠ []) → (∀ y ∈ ys, y ≠ []) → xs.flatten = ys.flatten →
      SameBody (chunksOf xs ++ rest) (chunksOf ys ++ rest)

theorem SameBody.append {a b : Bytes} (h : SameBody a b) (more : Bytes) : SameBody (a ++ more) (b ++ more) := by
  cases h with
  | same => exact .same _
  | cut rest hx hy he =>
    rw [List.append_assoc, List.append_assoc]
    exact .cut _ hx hy he

/-- Slices that are chunks read as their bytes. -/
theorem reads_chunksOf {xs : List Bytes} (hx : ∀ x ∈ xs, x ≠ [] ∧ x.length < usizeEnd) {more data rest : Bytes}
    (h : Chunked.Reads more data rest) : Chunked.Reads (chunksOf xs ++ more) (xs.flatten ++ data) rest := by
  induction xs with
  | nil => exact h
  | cons x xs ih =>
    rw [List.forall_mem_cons] at hx
    unfold chunksOf
    rw [List.flatMap_cons, List.flatten_cons, List.append_assoc, List.append_assoc]
    have hchunk := Chunked.Reads.chunk (Chunked.encode x hx.1.1 hx.1.2) (ih hx.2)
    rw [Chunked.encode_text] at hchunk
    exact hchunk

theorem length_le_chunksOf (xs : List Bytes) : xs.flatten.length ≤ (chunksOf xs).length := by
  induction xs with
  | nil => exact Nat.le_refl 0
  | cons x xs ih =>
    unfold chunksOf at ih ⊢
    simp only [List.flatten_cons, List.flatMap_cons, List.length_append, BodyWriter.chunkOf]
    omega

theorem length_le_flatten {x : Bytes} {xs : List Bytes} (h : x ∈ xs) : x.length ≤ xs.flatten.length :=
  (List.sublist_flatten_of_mem h).length_le

/-- A reader of chunks takes one for the other, whatever follows: what reads one reads
    the other as the same data. -/
theorem SameBody.reads {a b : Bytes} (h : SameBody a b) (hlen : a.length < usizeEnd) :
    a = b ∨ ∃ body rest, ∀ more data left, Chunked.Reads (rest ++ more) data left →
      Chunked.Reads (a ++ more) (body ++ data) left ∧ Chunked.Reads (b ++ more) (body ++ data) left := by
  cases h with
  | same => exact .inl rfl
  | @cut xs ys rest hx hy he =>
    refine .inr ⟨xs.flatten, rest, fun more data left hr => ?_⟩
    have hxs := length_le_chunksOf xs
    rw [List.length_append] at hlen
    rw [List.append_assoc, List.append_assoc]
    constructor
    · refine reads_chunksOf (fun x hm => ⟨hx x hm, ?_⟩) hr
      have := length_le_flatten hm
      omega
    · rw [he] at hxs ⊢
      refine reads_chunksOf (fun y hm => ⟨hy y hm, ?_⟩) hr
      have := length_le_flatten hm
      omega

namespace Downstream

variable {crates : Crates} {d d' : Downstream} {tasks : List Task}

/-- What a batch does once its tasks are through. -/
def finishBatch (endStream : Bool) : M Bool := do
  ignore vectoredWriteResponseBody
  (if endStream then ignore finishWritingResponseBody else pure ())
  return endStream

theorem batch_body (b : Option Bytes) (e' e : Bool) (ts : List Task) (d : Downstream) :
    (vectoredTasks crates e (.body b e' :: ts) >>= finishBatch) d =
      (vectoredTasks crates e' ts >>= finishBatch) { d with writeBodyVecBuffer := d.writeBodyVecBuffer ++ b.getD [] } := by
  cases b with
  | none => rw [Option.getD_none, List.append_nil]; rfl
  | some x => rfl

theorem batch_failed (e : Bool) (err : IoError) (d : Downstream) :
    (vectoredTasks crates e [.failed err] >>= finishBatch) d =
      (ignore vectoredWriteResponseBody >>= fun _ => (stop (.err err) : M Bool)) d := by
  rw [vectoredTasks, vectoredResponseTask]
  simp only [bind_apply]
  cases ignore vectoredWriteResponseBody d with
  | mk o d1 => cases o <;> rfl

/-! ## The body -/

/-- The session with another wire. -/
def withOutput (d : Downstream) (output : Bytes) : Downstream := { d with stream := { d.stream with output } }

/-- Two sessions that differ in the cuts of the chunks past `front` alone. -/
structure Alike (front : Bytes) (d d' : Downstream) : Prop where
  healthy : d.stream.Healthy
  body : ∃ a b, SameBody a b ∧ d.stream.output = front ++ a ∧ d' = d.withOutput (front ++ b)

theorem Alike.refl (h : d.stream.Healthy) : Alike d.stream.output d d :=
  ⟨h, [], [], .same [], (List.append_nil _).symm, by rw [List.append_nil]; rfl⟩

theorem sent_chunked {n : Nat} (h : d.bodyWriter.writeState = .chunkedEncoding n) {x : Bytes} (hx : x ≠ []) :
    d.sent x = { d.withOutput (d.stream.output ++ BodyWriter.chunkOf x) with
      bodyWriter := ⟨.chunkedEncoding (n + x.length)⟩ } := by
  unfold sent
  rw [if_neg hx]
  cases hw : d.bodyWriter with
  | mk st =>
    rw [hw] at h
    cases h
    rfl

variable {front : Bytes}

end Downstream

end Glaive.Session
