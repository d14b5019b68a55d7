/-
  Glaive.Session.Writer — the body writer (`core/src/session/writer.rs`: `WriteState`,
  `BodyWriter`).

  The counts of bytes written stay far below `2^64` and are plain numbers. Flushing
  changes nothing a peer can see and is left out.
-/

import Glaive.Lib.Io
import Glaive.Lib.Numeral

namespace Glaive.Session

open Glaive.Lib

inductive WriteState where
  | start
  /-- Written size. -/
  | completed (written : Nat)
  /-- Total size to write, written size. -/
  | contentLength (total written : Nat)
  | chunkedEncoding (written : Nat)
  | http10 (written : Nat)
  deriving DecidableEq, Repr

structure BodyWriter where
  writeState : WriteState
  deriving DecidableEq, Repr

namespace BodyWriter

def new : BodyWriter := ⟨.start⟩

def lastChunk : Bytes := ascii "0\r\n\r\n"

def withContentLengthWrite (_ : BodyWriter) (cl : Nat) : BodyWriter := ⟨.contentLength cl 0⟩

def withChunkedEncodingWrite (_ : BodyWriter) : BodyWriter := ⟨.chunkedEncoding 0⟩

def withUntilClosedWrite (_ : BodyWriter) : BodyWriter := ⟨.http10 0⟩

def finished (w : BodyWriter) : Bool :=
  match w.writeState with
  | .completed _ => true
  | .contentLength total written => total ≤ written
  | _ => false

/-- `error writing: {e:?}`. -/
def writing {α : Type} (w : BodyWriter) : Out Unit × Stream → (Stream → Out α × BodyWriter × Stream) →
    Out α × BodyWriter × Stream
  | (.ok (), s), k => k s
  | (.err e, s), _ => (.err (.wrapped "error writing: " e), w, s)
  | (.pending, s), _ => (.pending, w, s)
  | (.panic t, s), _ => (.panic t, w, s)

def writeByContentLength (w : BodyWriter) (total written : Nat) (s : Stream) (buffer : Bytes) :
    Out (Option Nat) × BodyWriter × Stream :=
  if total ≤ written then (.ok none, w, s)
  else
    -- never over the content length
    let toWrite := min (total - written) buffer.length
    w.writing (s.writeAll (buffer.take toWrite)) fun s =>
      (.ok (some toWrite), ⟨.contentLength total (written + toWrite)⟩, s)

def writeByChunkedEncoding (w : BodyWriter) (written : Nat) (s : Stream) (buffer : Bytes) :
    Out (Option Nat) × BodyWriter × Stream :=
  match s.writeAll (toHex buffer.length ++ crlf ++ buffer ++ crlf) with
  | (.ok (), s) => (.ok (some buffer.length), ⟨.chunkedEncoding (written + buffer.length)⟩, s)
  | (.err e, s) => (.err e, w, s)
  | (.pending, s) => (.pending, w, s)
  | (.panic t, s) => (.panic t, w, s)

def writeUntilClosed (w : BodyWriter) (written : Nat) (s : Stream) (buffer : Bytes) :
    Out (Option Nat) × BodyWriter × Stream :=
  w.writing (s.writeAll buffer) fun s => (.ok (some buffer.length), ⟨.http10 (written + buffer.length)⟩, s)

def writeBody (buffer : Bytes) : Async (BodyWriter × Stream) (Option Nat) := fun (w, s) =>
  match w.writeState with
  | .completed _ => (.ok none, w, s)
  | .contentLength total written => w.writeByContentLength total written s buffer
  | .chunkedEncoding written => w.writeByChunkedEncoding written s buffer
  | .http10 written => w.writeUntilClosed written s buffer
  | .start => (.panic "state is uninitialized", w, s)

def prematureBody : IoError := .other "premature body"

/-- Ends the body; the state is `Completed` whether or not that goes well. -/
def finish : Async (BodyWriter × Stream) (Option Nat) := fun (w, s) =>
  match w.writeState with
  | .completed _ => (.ok none, w, s)
  | .contentLength total written =>
    (if written < total then .err prematureBody else .ok (some written), ⟨.completed written⟩, s)
  | .chunkedEncoding written =>
    writing ⟨.completed written⟩ (s.writeAll lastChunk) fun s => (.ok (some written), ⟨.completed written⟩, s)
  | .http10 written => (.ok (some written), ⟨.completed written⟩, s)
  | .start => (.ok none, w, s)

/-! ## On a healthy socket -/

def chunkOf (x : Bytes) : Bytes := toHex x.length ++ crlf ++ x ++ crlf

/-- What a write of `x` puts on the wire, and the writer after it. -/
def emit (w : BodyWriter) (x : Bytes) : Bytes × BodyWriter :=
  match w.writeState with
  | .contentLength total written =>
    if total ≤ written then ([], w)
    else (x.take (total - written), ⟨.contentLength total (written + min (total - written) x.length)⟩)
  | .chunkedEncoding written => (chunkOf x, ⟨.chunkedEncoding (written + x.length)⟩)
  | .http10 written => (x, ⟨.http10 (written + x.length)⟩)
  | _ => ([], w)

/-- What ending the body puts on the wire, and the writer after it. -/
def closing (w : BodyWriter) : Bytes × BodyWriter :=
  match w.writeState with
  | .contentLength _ written => ([], ⟨.completed written⟩)
  | .chunkedEncoding written => (lastChunk, ⟨.completed written⟩)
  | .http10 written => ([], ⟨.completed written⟩)
  | _ => ([], w)

/-- The body is short of its content length. -/
def short (w : BodyWriter) : Bool :=
  match w.writeState with
  | .contentLength total written => written < total
  | _ => false

theorem writeBody_healthy {w : BodyWriter} {s : Stream} (hs : s.Healthy) (hw : w.writeState ≠ .start) (x : Bytes) :
    ∃ n, writeBody x (w, s) = (.ok n, (w.emit x).2, { s with output := s.output ++ (w.emit x).1 }) := by
  rcases w with ⟨st⟩
  unfold writeBody emit
  cases st with
  | start => exact absurd rfl hw
  | completed n => exact ⟨none, by simp⟩
  | contentLength total written =>
    simp only [writeByContentLength]
    by_cases hle : total ≤ written
    · exact ⟨none, by simp [hle]⟩
    · refine ⟨some (min (total - written) x.length), ?_⟩
      have htake : x.take (min (total - written) x.length) = x.take (total - written) := by
        rcases Nat.le_total (total - written) x.length with h | h
        · rw [Nat.min_eq_left h]
        · rw [Nat.min_eq_right h, List.take_length, List.take_of_length_le h]
      simp only [if_neg hle, writing, Stream.writeAll_healthy hs, htake]
  | chunkedEncoding written =>
    exact ⟨some x.length, by simp only [writeByChunkedEncoding, Stream.writeAll_healthy hs]; rfl⟩
  | http10 written =>
    exact ⟨some x.length, by simp only [writeUntilClosed, writing, Stream.writeAll_healthy hs]⟩

theorem finish_healthy {w : BodyWriter} {s : Stream} (hs : s.Healthy) (hw : w.short = false) :
    ∃ n, finish (w, s) = (.ok n, w.closing.2, { s with output := s.output ++ w.closing.1 }) := by
  rcases w with ⟨st⟩
  unfold finish closing
  cases st with
  | start => exact ⟨none, by simp⟩
  | completed n => exact ⟨none, by simp⟩
  | contentLength total written =>
    have hlt : ¬ written < total := by simpa [short] using hw
    exact ⟨some written, by simp [hlt]⟩
  | chunkedEncoding written => exact ⟨some written, by simp only [writing, Stream.writeAll_healthy hs]⟩
  | http10 written => exact ⟨some written, by simp⟩

theorem writing_ok {α : Type} {w w' : BodyWriter} {x : Out Unit × Stream} {k : Stream → Out α × BodyWriter × Stream}
    {a : α} {s' : Stream} (h : w.writing x k = (.ok a, w', s')) : ∃ s, x = (.ok (), s) ∧ k s = (.ok a, w', s') := by
  unfold writing at h
  split at h
  · exact ⟨_, rfl, h⟩
  all_goals cases h

/-- A write that ends with a value has put its bytes on the wire. -/
theorem writeBody_ok {w w' : BodyWriter} {s s' : Stream} {x : Bytes} {n : Option Nat}
    (h : writeBody x (w, s) = (.ok n, w', s')) :
    w' = (w.emit x).2 ∧ s'.output = s.output ++ (w.emit x).1 ∧ s'.input = s.input := by
  rcases w with ⟨st⟩
  unfold writeBody at h
  unfold emit
  cases st with
  | start => cases h
  | completed n =>
    cases h
    exact ⟨rfl, (List.append_nil _).symm, rfl⟩
  | contentLength total written =>
    simp only [writeByContentLength] at h ⊢
    by_cases hle : total ≤ written
    · rw [if_pos hle] at h ⊢
      cases h
      exact ⟨rfl, (List.append_nil _).symm, rfl⟩
    · rw [if_neg hle] at h ⊢
      obtain ⟨s1, hw, hk⟩ := writing_ok h
      cases hk
      obtain ⟨h1, h2⟩ := Stream.writeAll_ok hw
      rw [← List.take_eq_take_min] at h1
      exact ⟨rfl, h1, h2⟩
  | chunkedEncoding written =>
    simp only [writeByChunkedEncoding] at h
    split at h
    · rename_i hw
      cases h
      exact ⟨rfl, Stream.writeAll_ok hw⟩
    all_goals cases h
  | http10 written =>
    obtain ⟨s1, hw, hk⟩ := writing_ok h
    cases hk
    exact ⟨rfl, Stream.writeAll_ok hw⟩

theorem finish_ok {w w' : BodyWriter} {s s' : Stream} {n : Option Nat} (h : finish (w, s) = (.ok n, w', s')) :
    w' = w.closing.2 ∧ s'.output = s.output ++ w.closing.1 ∧ s'.input = s.input := by
  rcases w with ⟨st⟩
  unfold finish at h
  unfold closing
  cases st with
  | contentLength total written =>
    simp only at h
    split at h
    · cases h
    · cases h
      exact ⟨rfl, (List.append_nil _).symm, rfl⟩
  | chunkedEncoding written =>
    obtain ⟨s1, hw, hk⟩ := writing_ok h
    cases hk
    exact ⟨rfl, Stream.writeAll_ok hw⟩
  | _ =>
    cases h
    exact ⟨rfl, (List.append_nil _).symm, rfl⟩

end BodyWriter

end Glaive.Session
