/-
  Glaive.Session.ContentLengthWriting — a body written under a content length
  (`core/src/session/writer.rs`: `write_by_content_length`, `finish_content_length`).

  The state after `n` bytes have been handed over is `ContentLength(total, min total n)`
  (`atCount`); a write moves it on by its buffer's length and lets out what fits
  (`writeBody_atCount`), and everything about a run of writes is by induction on the
  buffers from that.
-/

import Glaive.Session.Writer

namespace Glaive.Session

open Glaive.Lib
open Glaive.Lib.Async

namespace BodyWriter

/-- `write_body` with each buffer, and what the calls return. -/
def writeMany : List Bytes → Async (BodyWriter × Stream) (List (Option Nat))
  | [] => pure []
  | x :: xs => do
    let size ← writeBody x
    let sizes ← writeMany xs
    return size :: sizes

/-- The bytes the calls report. -/
def reported (sizes : List (Option Nat)) : Nat := (sizes.map fun size => size.getD 0).sum

/-- The writer after `n` bytes handed over to it. -/
def atCount (total n : Nat) : BodyWriter := ⟨.contentLength total (min total n)⟩

theorem withContentLengthWrite_eq (w : BodyWriter) (total : Nat) : w.withContentLengthWrite total = atCount total 0 := by
  rw [atCount, Nat.min_zero]
  rfl

theorem finished_atCount (total n : Nat) : (atCount total n).finished = true ↔ min total n = total := by
  simp only [atCount, finished, decide_eq_true_eq]
  omega

theorem writeMany_cons {x : Bytes} {xs : List Bytes} {size : Option Nat} {sizes : List (Option Nat)}
    {a b c : BodyWriter × Stream} (hx : writeBody x a = (.ok size, b)) (hxs : writeMany xs b = (.ok sizes, c)) :
    writeMany (x :: xs) a = (.ok (size :: sizes), c) := by
  unfold writeMany
  rw [bind_ok hx, bind_ok hxs]
  rfl

/-! ## Writing -/

theorem writeBody_atCount (total n : Nat) {s : Stream} (hs : s.Healthy) (x : Bytes) :
    ∃ size, writeBody x (atCount total n, s) =
        (.ok size, atCount total (n + x.length), { s with output := s.output ++ x.take (total - n) }) ∧
      min total n + size.getD 0 = min total (n + x.length) := by
  unfold writeBody atCount
  simp only [writeByContentLength]
  by_cases hle : total ≤ n
  · have h1 : min total n = total := by omega
    have h2 : min total (n + x.length) = total := by omega
    have h3 : x.take (total - n) = [] := by
      rw [Nat.sub_eq_zero_of_le hle, List.take_zero]
    refine ⟨none, ?_, ?_⟩
    · rw [h1, h2, h3, if_pos (Nat.le_refl _), List.append_nil]
    · rw [h1, h2, Option.getD_none, Nat.add_zero]
  · have h1 : min total n = n := by omega
    have hadd : n + min (total - n) x.length = min total (n + x.length) := by omega
    refine ⟨some (min (total - n) x.length), ?_, ?_⟩
    · simp only [h1, if_neg hle, writing, Stream.writeAll_healthy hs]
      rw [hadd, ← List.take_eq_take_min]
    · rw [h1, Option.getD_some, hadd]

theorem writeMany_atCount (total : Nat) : ∀ (bufs : List Bytes) (n : Nat) {s : Stream}, s.Healthy →
    ∃ sizes, writeMany bufs (atCount total n, s) = (.ok sizes, atCount total (n + bufs.flatten.length),
        { s with output := s.output ++ bufs.flatten.take (total - n) }) ∧
      min total n + reported sizes = min total (n + bufs.flatten.length) := by
  intro bufs
  induction bufs with
  | nil =>
    intro n s hs
    refine ⟨[], ?_, ?_⟩
    · simp [writeMany]
    · simp [reported]
  | cons x xs ih =>
    intro n s hs
    obtain ⟨size, hx, hsize⟩ := writeBody_atCount total n hs x
    obtain ⟨sizes, hxs, hsizes⟩ := ih (n + x.length) (s := { s with output := s.output ++ x.take (total - n) }) hs
    refine ⟨size :: sizes, ?_, ?_⟩
    · rw [writeMany_cons hx hxs, List.flatten_cons, List.length_append, Nat.add_assoc, List.take_append,
        Nat.sub_add_eq, List.append_assoc]
    · rw [List.flatten_cons, List.length_append, reported, List.map_cons, List.sum_cons, ← Nat.add_assoc, hsize,
        ← Nat.add_assoc]
      exact hsizes

/-! ## Ending -/

theorem finish_atCount (total n : Nat) (s : Stream) : finish (atCount total n, s) =
    (if total ≤ n then .ok (some total) else .err prematureBody, ⟨.completed (min total n)⟩, s) := by
  unfold finish atCount
  simp only
  by_cases hle : total ≤ n
  · rw [if_pos hle, Nat.min_eq_left hle, if_neg (Nat.lt_irrefl _)]
  · rw [if_neg hle, if_pos (by omega)]

theorem writeMany_completed (n : Nat) (s : Stream) : ∀ bufs : List Bytes,
    writeMany bufs (⟨.completed n⟩, s) = (.ok (bufs.map fun _ => none), ⟨.completed n⟩, s) := by
  intro bufs
  induction bufs with
  | nil => rfl
  | cons x xs ih => exact writeMany_cons rfl ih

/-- Under a content length of `total`, exactly the first `total` bytes of the buffers go
    out, as many as the calls report; the body is finished once they are all out, and
    ends well just then. After that nothing is written. -/
theorem content_length_writes (w : BodyWriter) (total : Nat) (bufs : List Bytes) {s : Stream} (hs : s.Healthy) :
    ∃ sizes w1 s1 out w2, writeMany bufs (w.withContentLengthWrite total, s) = (.ok sizes, w1, s1) ∧
      s1.output = s.output ++ bufs.flatten.take (min total bufs.flatten.length) ∧
      reported sizes = min total bufs.flatten.length ∧
      (w1.finished = true ↔ min total bufs.flatten.length = total) ∧
      finish (w1, s1) = (out, w2, s1) ∧
      (total ≤ bufs.flatten.length → out = .ok (some total)) ∧
      (¬ total ≤ bufs.flatten.length → ∃ e, out = .err e) ∧
      ∀ more, ∃ sizes', writeMany more (w2, s1) = (.ok sizes', w2, s1) := by
  obtain ⟨sizes, hrun, hsizes⟩ := writeMany_atCount total bufs 0 hs
  simp only [Nat.zero_add, Nat.sub_zero, Nat.min_zero] at hrun hsizes
  rw [withContentLengthWrite_eq]
  refine ⟨sizes, _, _, _, _, hrun, ?_, hsizes, finished_atCount _ _, finish_atCount _ _ _, ?_, ?_, ?_⟩
  · rw [← List.take_eq_take_min]
  · intro hle
    exact if_pos hle
  · intro hle
    exact ⟨_, if_neg hle⟩
  · intro more
    exact ⟨_, writeMany_completed _ _ more⟩

/-- Five bytes in three buffers, the second cut in the middle and the third left out. -/
theorem content_length_writes_cut :
    ∃ sizes w1 s1 out w2, writeMany [ascii "ab", ascii "cde", ascii "f"]
        (BodyWriter.new.withContentLengthWrite 4, ⟨[], [], []⟩) = (.ok sizes, w1, s1) ∧
      s1.output = ascii "abcd" ∧ reported sizes = 4 ∧ (w1.finished = true ↔ 4 = 4) ∧
      finish (w1, s1) = (out, w2, s1) ∧ (4 ≤ 6 → out = .ok (some 4)) ∧ (¬ 4 ≤ 6 → ∃ e, out = .err e) ∧
      ∀ more, ∃ sizes', writeMany more (w2, s1) = (.ok sizes', w2, s1) :=
  content_length_writes .new 4 [ascii "ab", ascii "cde", ascii "f"] rfl

end BodyWriter

end Glaive.Session
