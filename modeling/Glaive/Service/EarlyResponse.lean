/-
  Glaive.Service.EarlyResponse — a response head written while the request body is
  still being read (`core/src/session/downstream.rs`: `write_response_headers`).

  One session carries both directions. A head that is no upgrade's closes the request
  reader: that is meant for an upgrade that was refused, and is done for every request.
  `head_keeps_request_iff`: only heads that are not final, or not sent, leave the
  request to be read on.
-/

import Glaive.Service.Exchange
import Glaive.Session.ResponseWriting

namespace Glaive.Service

open Glaive.Lib
open Glaive.Lib.Async
open Glaive.Session

namespace EarlyResponse

variable {crates : Crates} {d : Downstream} {req : RequestHeader}

/-- All that reading the request goes by is the same. -/
structure SameRequest (d d' : Downstream) : Prop where
  reader : d'.bodyReader = d.bodyReader
  buffer : d'.buffer = d.buffer
  preread : d'.bufBodyOffset = d.bufBodyOffset
  input : d'.stream.input = d.stream.input

theorem SameRequest.refl (d : Downstream) : SameRequest d d := ⟨rfl, rfl, rfl, rfl⟩

theorem sendHeaders_sameRequest (resp : ResponseHeader) (d : Downstream) :
    SameRequest d (Downstream.sendHeaders crates resp d).2 := by
  unfold Downstream.sendHeaders
  cases resp.buildToBuffer crates with
  | none => exact .refl d
  | some buf =>
    simp only [Stream.writeAll]
    cases d.stream.faults with
    | nil => exact ⟨rfl, rfl, rfl, rfl⟩
    | cons f rest => cases f <;> exact ⟨rfl, rfl, rfl, rfl⟩

theorem sameRequest_iff {d' : Downstream} (h : SameRequest d d') (d0 : Downstream) :
    SameRequest d0 d' ↔ SameRequest d0 d := by
  constructor
  · exact fun h' => ⟨h.reader.symm.trans h'.reader, h.buffer.symm.trans h'.buffer, h.preread.symm.trans h'.preread,
      h.input.symm.trans h'.input⟩
  · exact fun h' => ⟨h.reader.trans h'.reader, h.buffer.trans h'.buffer, h.preread.trans h'.preread,
      h.input.trans h'.input⟩

/-- A reader that has not finished is not the one that is closed. -/
theorem closed_ne {r : BodyReader} (hr : r.isFinished = false) : r.withContentLengthRead 0 [] ≠ r := by
  intro h
  have : (r.withContentLengthRead 0 []).isFinished = true := rfl
  rw [h, hr] at this
  cases this

end EarlyResponse

open EarlyResponse

/-- Relaying a response head leaves the request to be read on exactly when the head is
    a 1xx other than 101, or is not sent on. -/
theorem head_keeps_request_iff (crates : Crates) (d : Downstream) (req : RequestHeader)
    (hreq : d.requestHeader = some req) (hup : req.getHeader upgrade = none) (hreading : d.bodyReader.isFinished = false)
    (resp : ResponseHeader) :
    SameRequest d (Downstream.writeResponseHeaders crates resp d).2 ↔
      resp.isInformational = true ∧ resp.status ≠ 101 ∨ d.headDropped resp = true := by
  have hnot : Utils.isRequestUpgrade req = false := by
    unfold Utils.isRequestUpgrade
    rw [hup, Option.isSome_none, Bool.and_false]
  cases hd : d.headDropped resp with
  | true =>
    rw [Downstream.writeResponseHeaders_dropped hd]
    exact iff_of_true (.refl d) (Or.inr rfl)
  | false =>
    rw [Downstream.writeResponseHeaders_sent hreq hnot hd,
      sameRequest_iff (sendHeaders_sameRequest (d.updated crates resp) (d.headReady crates req resp)) d]
    unfold Downstream.headReady
    by_cases hc : resp.status = 101 ∨ resp.isInformational = false
    · rw [if_pos hc]
      refine iff_of_false (fun h => closed_ne hreading h.reader) ?_
      intro h
      rcases h with ⟨h1, h2⟩ | h
      · rcases hc with hc | hc
        · exact h2 hc
        · rw [hc] at h1; cases h1
      · cases h
    · rw [if_neg hc]
      rw [not_or] at hc
      rw [if_neg hc.1]
      exact iff_of_true (.refl d) (Or.inl ⟨by simpa using hc.2, hc.1⟩)

/-! ## An answer before the upload is over -/

def earlyField : Field := ⟨ascii "Content-Length", ascii "5", contentLength_token⟩

/-- The client's session after a head and two of five bytes, in one read. -/
def uploading : Downstream :=
  (openExchange (postCrates earlyField)
    (.new ⟨[.data ((postHead earlyField).1 ++ ascii "ab"), .data (ascii "cde")], [], []⟩ (fun _ => 0),
      .new ⟨[], [], []⟩ (fun _ => 0))).2.1

def finalHead : ResponseHeader := ⟨200, .http11, none, .ofParsed [⟨ascii "Content-Length", ascii "0", contentLength_token⟩]⟩

def interimHead : ResponseHeader := ⟨100, .http11, none, .empty⟩

theorem head_keeps_request_interim :
    SameRequest uploading (Downstream.writeResponseHeaders (postCrates earlyField) interimHead uploading).2 ↔
      interimHead.isInformational = true ∧ interimHead.status ≠ 101 ∨ uploading.headDropped interimHead = true :=
  head_keeps_request_iff (postCrates earlyField) uploading
    (Downstream.requestHeaderOf (postHead earlyField).2) rfl (by decide) (by decide) interimHead

/-- A final head before the upload is over: the body is not read, and its next byte is
    an error. -/
theorem head_closes_request :
    uploading.bodyReader.readState = .start ∧
    (Downstream.writeResponseHeaders (postCrates earlyField) finalHead uploading).1 = .ok () ∧
    (Downstream.writeResponseHeaders (postCrates earlyField) finalHead uploading).2.bodyReader.readState = .completed 0 ∧
    (Downstream.readDownstreamRequest (postCrates earlyField)
      (Downstream.writeResponseHeaders (postCrates earlyField) finalHead uploading).2).1.isErr = true ∧
    ¬ SameRequest uploading (Downstream.writeResponseHeaders (postCrates earlyField) finalHead uploading).2 := by
  have h1 : uploading.bodyReader.readState = .start := by decide
  have h2 : (Downstream.writeResponseHeaders (postCrates earlyField) finalHead uploading).2.bodyReader.readState =
      .completed 0 := by decide
  refine ⟨h1, by decide, h2, by decide, fun h => ?_⟩
  rw [h.reader, h1] at h2
  cases h2

end Glaive.Service
