/-
  Glaive.Service.ResponseFraming — where the gateway thinks a response body ends
  (`core/src/session/upstream.rs`: `set_response_body_reader`; `downstream.rs`:
  `set_response_body_writer`; `utils.rs`).

  `response_modes_iff`: the mode the body is read in and the mode it is written in
  correspond, except under a 101 to an upgrade: the reader's side goes by the request
  and the status, the writer's side looks at the response's version as well.
-/

import Glaive.Service.Framing
import Glaive.Session.ResponseWriting

namespace Glaive.Service

open Glaive.Lib
open Glaive.Session

/-- A reader's mode and a writer's for one body. -/
inductive ModesMatch : ReadState → WriteState → Prop
  | empty : ModesMatch (.completed 0) (.contentLength 0 0)
  | length (n : Nat) : 0 < n → ModesMatch (.partially 0 n) (.contentLength n 0)
  | chunked : ModesMatch (.chunked 0 0 0 0) (.chunkedEncoding 0)
  | untilClosed : ModesMatch (.http10 0) (.http10 0)

/-- A 101 to an upgrade by a server that answers in another version than HTTP/1.1, with
    a field that frames a body. -/
def OldSwitch (req : RequestHeader) (resp : ResponseHeader) : Prop :=
  resp.status = 101 ∧ Utils.isRequestUpgrade req = true ∧ req.method ≠ ascii "HEAD" ∧ resp.version ≠ .http11 ∧
    (Utils.isHeaderValueChunkEncoding (resp.getHeader transferEncoding) = true ∨
      (Utils.getContentLengthValue (resp.getHeader contentLength)).isSome = true)

/-- The mode the framing fields choose for writing. -/
def framedWriter (resp : ResponseHeader) (w : BodyWriter) : BodyWriter :=
  if Utils.isHeaderValueChunkEncoding (resp.getHeader transferEncoding) then w.withChunkedEncodingWrite
  else
    match Utils.getContentLengthValue (resp.getHeader contentLength) with
    | some length => w.withContentLengthWrite length
    | none => w.withUntilClosedWrite

theorem framed_match (resp : ResponseHeader) (preread : Bytes) (r : BodyReader) (w : BodyWriter) :
    ModesMatch (Upstream.framedReader resp preread r).readState (framedWriter resp w).writeState := by
  unfold Upstream.framedReader framedWriter
  cases Utils.isHeaderValueChunkEncoding (resp.getHeader transferEncoding) with
  | true => exact .chunked
  | false =>
    simp only [Bool.false_eq_true, if_false]
    cases Utils.getContentLengthValue (resp.getHeader contentLength) with
    | none => exact .untilClosed
    | some n =>
      cases n with
      | zero => exact .empty
      | succ n => exact .length (n + 1) (Nat.succ_pos n)

/-- Until-closed reading goes with the framing fields' choice exactly when there are none. -/
theorem untilClosed_match_iff (resp : ResponseHeader) (w : BodyWriter) :
    ModesMatch (.http10 0) (framedWriter resp w).writeState ↔
      ¬ (Utils.isHeaderValueChunkEncoding (resp.getHeader transferEncoding) = true ∨
        (Utils.getContentLengthValue (resp.getHeader contentLength)).isSome = true) := by
  unfold framedWriter
  cases Utils.isHeaderValueChunkEncoding (resp.getHeader transferEncoding) with
  | true =>
    refine iff_of_false (fun h => ?_) (fun h => h (Or.inl rfl))
    cases h
  | false =>
    simp only [Bool.false_eq_true, if_false]
    cases Utils.getContentLengthValue (resp.getHeader contentLength) with
    | none => exact iff_of_true .untilClosed (by simp)
    | some n =>
      refine iff_of_false (fun h => ?_) (by simp)
      cases h

/-- The choices themselves, for one head on both sides. -/
theorem select_match_iff (req : RequestHeader) {resp : ResponseHeader} (hst : 200 ≤ resp.status ∨ resp.status = 101)
    (preread : Bytes) {r : BodyReader} (hr : r.isStart = true) (w : BodyWriter) :
    ModesMatch (Upstream.selectResponseReader req resp preread r).readState
      (Downstream.selectResponseWriter req resp w).writeState ↔ ¬ OldSwitch req resp := by
  have hhead : Downstream.head = ascii "HEAD" := rfl
  unfold Upstream.selectResponseReader Downstream.selectResponseWriter
  rw [if_pos hr, if_neg (Downstream.not_interim hst), hhead]
  by_cases hm : req.method = ascii "HEAD"
  · rw [if_pos hm, if_pos (Or.inr (Or.inr hm))]
    exact iff_of_true .empty fun h => h.2.2.1 hm
  rw [if_neg hm]
  rcases hst with hst | hst
  · have h101 : ¬ resp.status = 101 := by omega
    have hinf : ¬ resp.isInformational = true := fun h => Downstream.not_interim (Or.inl hst) ⟨h, h101⟩
    have hup : Utils.isResponseUpgrade resp = false := by
      unfold Utils.isResponseUpgrade
      rw [Bool.and_eq_false_iff]; exact Or.inr (by simpa using h101)
    rw [if_neg h101, if_neg hinf, hup, Bool.and_false]
    refine iff_of_true ?_ fun h => h101 h.1
    by_cases hno : resp.status = 204 ∨ resp.status = 304
    · rw [if_pos hno, if_pos (hno.imp id Or.inl)]
      exact .empty
    · rw [if_neg hno, if_neg (by rw [← or_assoc]; exact not_or_intro hno hm), if_neg (by simp)]
      exact framed_match resp preread r w
  · rw [if_pos hst, if_neg (show ¬ (resp.status = 204 ∨ resp.status = 304 ∨ req.method = ascii "HEAD") by
      rw [hst]; simpa using hm)]
    cases hu : Utils.isRequestUpgrade req with
    | false =>
      rw [if_neg (by simp), if_neg (by simp)]
      exact iff_of_true (framed_match resp preread r w) fun h => absurd (hu.symm.trans h.2.1) (by simp)
    | true =>
      rw [if_pos rfl, Bool.true_and]
      by_cases hv : resp.version = .http11
      · have hresp : Utils.isResponseUpgrade resp = true := by
          unfold Utils.isResponseUpgrade
          rw [hv, hst]; rfl
        rw [hresp, if_pos rfl]
        exact iff_of_true .untilClosed fun h => h.2.2.2.1 hv
      · have hresp : Utils.isResponseUpgrade resp = false := by
          unfold Utils.isResponseUpgrade
          rw [Bool.and_eq_false_iff]; exact Or.inl (by simpa using hv)
        rw [hresp, if_neg (by simp)]
        refine (untilClosed_match_iff resp w).trans (not_congr ?_)
        exact ⟨fun h => ⟨hst, hu, hm, hv, h⟩, fun h => h.2.2.2.2⟩

/-- The head as it is sent on chooses the mode the server's does. -/
theorem selectResponseWriter_updated (crates : Crates) (d : Downstream) (req : RequestHeader) (resp : ResponseHeader)
    (w : BodyWriter) :
    Downstream.selectResponseWriter req (d.updated crates resp) w = Downstream.selectResponseWriter req resp w := by
  have hv : (d.updated crates resp).version = resp.version := by
    unfold Downstream.updated; split <;> rfl
  have hup : Utils.isResponseUpgrade (d.updated crates resp) = Utils.isResponseUpgrade resp := by
    unfold Utils.isResponseUpgrade
    rw [hv, Downstream.updated_status]
  unfold Downstream.selectResponseWriter
  rw [hup, Downstream.updated_status, Downstream.updated_isInformational,
    Downstream.updated_getHeader resp (by decide) (by decide),
    Downstream.updated_getHeader resp (by decide) (by decide)]

/-- The two modes of a response body correspond exactly when its head is not a switch of
    protocols in an old version with a framed body. -/
theorem response_modes_iff (crates : Crates) (req : RequestHeader) (resp : ResponseHeader)
    (hst : 200 ≤ resp.status ∨ resp.status = 101) (u : Upstream) (hu : u.requestHeader = some req)
    (hresp : u.responseHeader = some resp) (hstart : u.bodyReader.isStart = true) (o : Offset) (preread : Bytes)
    (ho : u.bufBodyOffset = some o) (hpre : o.get u.buffer = some preread) (d : Downstream)
    (hd : d.requestHeader = some req) :
    ModesMatch (Upstream.setResponseBodyReader u).2.bodyReader.readState
      (Downstream.setResponseBodyWriter (d.updated crates resp) d).2.bodyWriter.writeState ↔ ¬ OldSwitch req resp := by
  rw [Upstream.setResponseBodyReader_eq hu hresp ho hpre, Downstream.setResponseBodyWriter_eq hd]
  show ModesMatch _ (Downstream.selectResponseWriter req (d.updated crates resp) d.bodyWriter).writeState ↔ _
  rw [selectResponseWriter_updated]
  exact select_match_iff req hst preread hstart d.bodyWriter

/-! ## A switch of protocols -/

/-- `101` under `version`, with a content length. -/
def switchHead (version : Version) : ResponseHeader :=
  ⟨101, version, none, .ofParsed [⟨ascii "Content-Length", ascii "5", contentLength_token⟩]⟩

/-- The server's session once `switchHead version` is read, after `getHead true`. -/
def switched (version : Version) : Upstream :=
  { Upstream.new ⟨[], [], []⟩ (fun _ => 0) with
    requestHeader := some (getHead true), responseHeader := some (switchHead version), bufBodyOffset := some ⟨0, 0⟩ }

theorem response_modes_switch :
    ModesMatch (Upstream.setResponseBodyReader (switched .http11)).2.bodyReader.readState
      (Downstream.setResponseBodyWriter ((getSession true).updated (.ofTables [] []) (switchHead .http11))
        (getSession true)).2.bodyWriter.writeState ↔ ¬ OldSwitch (getHead true) (switchHead .http11) :=
  response_modes_iff (.ofTables [] []) (getHead true) (switchHead .http11) (Or.inr rfl) (switched .http11) rfl rfl rfl
    ⟨0, 0⟩ [] rfl rfl (getSession true) rfl

/-- Under HTTP/1.0 it is read until closed and written by its length. -/
theorem response_modes_differ :
    (Upstream.setResponseBodyReader (switched .http10)).2.bodyReader.readState = .http10 0 ∧
    (Downstream.setResponseBodyWriter ((getSession true).updated (.ofTables [] []) (switchHead .http10))
      (getSession true)).2.bodyWriter.writeState = .contentLength 5 0 ∧
    ¬ ModesMatch (Upstream.setResponseBodyReader (switched .http10)).2.bodyReader.readState
      (Downstream.setResponseBodyWriter ((getSession true).updated (.ofTables [] []) (switchHead .http10))
        (getSession true)).2.bodyWriter.writeState := by
  have hr : (Upstream.setResponseBodyReader (switched .http10)).2.bodyReader.readState = .http10 0 := by decide
  have hw : (Downstream.setResponseBodyWriter ((getSession true).updated (.ofTables [] []) (switchHead .http10))
      (getSession true)).2.bodyWriter.writeState = .contentLength 5 0 := by decide
  refine ⟨hr, hw, fun h => ?_⟩
  rw [hr, hw] at h
  cases h

end Glaive.Service
