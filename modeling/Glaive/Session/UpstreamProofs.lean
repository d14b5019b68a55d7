/-
  Glaive.Session.UpstreamProofs — what the server's session does, function by function
  (see `Glaive.Session.Upstream`). Later modules cite these and unfold none of it.
-/

import Glaive.Session.Upstream
import Glaive.Session.ReaderProofs

namespace Glaive.Session

open Glaive.Lib
open Glaive.Lib.Async

namespace Upstream

variable {crates : Crates} {u : Upstream}

/-! ## Writing the request -/

/-- The mode chosen for the request body. -/
def selectWriter (req : RequestHeader) (w : BodyWriter) : BodyWriter :=
  if Utils.isRequestUpgrade req then w.withUntilClosedWrite
  else if Utils.isHeaderValueChunkEncoding (req.getHeader transferEncoding) then w.withChunkedEncodingWrite
  else
    match Utils.getContentLengthValue (req.getHeader contentLength) with
    | some length => w.withContentLengthWrite length
    | none => w.withUntilClosedWrite

theorem setRequestBodyWriter_eq (req : RequestHeader) (u : Upstream) :
    setRequestBodyWriter req u = (.ok (), { u with bodyWriter := selectWriter req u.bodyWriter }) := by
  unfold setRequestBodyWriter selectWriter setWriter
  cases Utils.isRequestUpgrade req <;> cases Utils.isHeaderValueChunkEncoding (req.getHeader transferEncoding) <;>
    cases Utils.getContentLengthValue (req.getHeader contentLength) <;> rfl

/-- The session with `bs` more written. -/
def wrote (u : Upstream) (bs : Bytes) : Upstream := { u with stream := { u.stream with output := u.stream.output ++ bs } }

/-- A head is forwarded whole or the call fails; nothing is read for it. -/
theorem writeRequestHeader_ok {req : RequestHeader} {u' : Upstream} (h : writeRequestHeader req u = (.ok (), u')) :
    ∃ s buf, req.buildToBuffer = some buf ∧ s.output = u.stream.output ++ buf ∧ s.input = u.stream.input ∧
      (u.stream.Healthy → s.Healthy) ∧
      u' = { u with bodyWriter := selectWriter req u.bodyWriter, requestHeader := some req, stream := s } := by
  unfold writeRequestHeader at h
  rw [bind_ok (setRequestBodyWriter_eq req u)] at h
  cases hb : req.buildToBuffer with
  | none => rw [hb] at h; cases h
  | some buf =>
    rw [hb] at h
    simp only at h
    split at h
    · rename_i hw
      cases h
      obtain ⟨h1, h2⟩ := Stream.writeAll_ok hw
      exact ⟨_, buf, rfl, h1, h2, fun hs => hs.writeAll hw, rfl⟩
    all_goals cases h

theorem writeRequestBody_healthy (hs : u.stream.Healthy) (hw : u.bodyWriter.writeState ≠ .start) (x : Bytes) :
    ∃ n, writeRequestBody x u =
      (.ok n, { u.wrote (u.bodyWriter.emit x).1 with bodyWriter := (u.bodyWriter.emit x).2 }) := by
  obtain ⟨n, hn⟩ := BodyWriter.writeBody_healthy hs hw x
  refine ⟨n, ?_⟩
  unfold writeRequestBody onWriter
  rw [zoom_apply, hn]; rfl

/-- The session after the bytes of a task are written, as the writer's mode has it. -/
def sent (u : Upstream) : Option Bytes → Upstream
  | some x => { u.wrote (u.bodyWriter.emit x).1 with bodyWriter := (u.bodyWriter.emit x).2 }
  | none => u

/-- The session with its response reader closed if it is an upgrade's. -/
def forceClosed (u : Upstream) : Upstream :=
  if u.upgrade && !u.bodyReader.isFinished then { u with bodyReader := u.bodyReader.withContentLengthRead 0 [] } else u

/-- The session after the body is ended. -/
def ended (u : Upstream) : Upstream :=
  forceClosed { u.wrote u.bodyWriter.closing.1 with bodyWriter := u.bodyWriter.closing.2 }

theorem forceCloseResponseBodyReader_eq (u : Upstream) : forceCloseResponseBodyReader u = (.ok (), u.forceClosed) := by
  unfold forceCloseResponseBodyReader forceClosed setReader
  simp only [get_bind_apply]
  cases u.upgrade && !u.bodyReader.isFinished <;> rfl

theorem finishWritingRequestBody_healthy (hs : u.stream.Healthy) (hw : u.bodyWriter.short = false) :
    ∃ n, finishWritingRequestBody u = (.ok n, u.ended) := by
  obtain ⟨n, hn⟩ := BodyWriter.finish_healthy hs hw
  have hz : onWriter BodyWriter.finish u =
      (.ok n, { u.wrote u.bodyWriter.closing.1 with bodyWriter := u.bodyWriter.closing.2 }) := by
    unfold onWriter
    rw [zoom_apply, hn]; rfl
  refine ⟨n, ?_⟩
  unfold finishWritingRequestBody
  rw [bind_ok hz, bind_ok (forceCloseResponseBodyReader_eq _)]; rfl

theorem sent_healthy (hs : u.stream.Healthy) (b : Option Bytes) : (u.sent b).stream.Healthy := by
  cases b <;> exact hs

theorem ended_output (u : Upstream) : u.ended.stream.output = u.stream.output ++ u.bodyWriter.closing.1 := by
  unfold ended forceClosed
  split <;> rfl

/-- A task's bytes go to the wire, and then the body's end if it is the last. -/
theorem writeUpstreamRequest_body (hs : u.stream.Healthy) (hw : u.bodyWriter.writeState ≠ .start) (b : Option Bytes)
    (e : Bool) (he : e = true → (u.sent b).bodyWriter.short = false) :
    writeUpstreamRequest (.body b e) u = (.ok e, if e then (u.sent b).ended else u.sent b) := by
  have hb : writeSomeBody b u = (.ok (), u.sent b) := by
    cases b with
    | none => rfl
    | some x =>
      obtain ⟨n, hn⟩ := writeRequestBody_healthy hs hw x
      exact ignore_ok hn
  unfold writeUpstreamRequest
  simp only
  rw [bind_ok hb]
  cases e with
  | false => rfl
  | true =>
    obtain ⟨n, hn⟩ := finishWritingRequestBody_healthy (sent_healthy hs b) (he rfl)
    simp only [if_true]
    rw [bind_ok (ignore_ok hn)]; rfl

theorem writeRequestBody_ok {x : Bytes} {n : Option Nat} {u' : Upstream} (h : writeRequestBody x u = (.ok n, u')) :
    ∃ s, u' = { u with bodyWriter := (u.bodyWriter.emit x).2, stream := s } ∧
      s.output = u.stream.output ++ (u.bodyWriter.emit x).1 ∧ s.input = u.stream.input := by
  unfold writeRequestBody onWriter at h
  obtain ⟨⟨w, s⟩, h1, rfl⟩ := of_zoom_ok h
  obtain ⟨rfl, h2⟩ := BodyWriter.writeBody_ok h1
  exact ⟨s, rfl, h2⟩

theorem finishWritingRequestBody_ok {n : Option Nat} {u' : Upstream}
    (h : finishWritingRequestBody u = (.ok n, u')) :
    ∃ s, u' = forceClosed { u with bodyWriter := u.bodyWriter.closing.2, stream := s } ∧
      s.output = u.stream.output ++ u.bodyWriter.closing.1 ∧ s.input = u.stream.input := by
  unfold finishWritingRequestBody onWriter at h
  obtain ⟨_, u1, h1, h2⟩ := of_bind_ok h
  obtain ⟨⟨w, s⟩, h3, rfl⟩ := of_zoom_ok h1
  obtain ⟨rfl, h4⟩ := BodyWriter.finish_ok h3
  rw [bind_ok (forceCloseResponseBodyReader_eq _)] at h2
  cases h2
  exact ⟨s, rfl, h4⟩

end Upstream

end Glaive.Session
