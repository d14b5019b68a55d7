/-
  Glaive.Session.Upstream — the server's side of an exchange
  (`core/src/session/upstream.rs`: `Upstream`).

  Timeouts, flushes, the counters of bytes moved and the keepalive functions, which
  nothing calls, are left out.
-/

import Glaive.Session.ReadHead
import Glaive.Session.Utils
import Glaive.Session.Writer

namespace Glaive.Session

open Glaive.Lib
open Glaive.Lib.Async

structure Upstream where
  stream : Stream
  buffer : Bytes
  bufBodyOffset : Option Offset
  requestHeader : Option RequestHeader
  responseHeader : Option ResponseHeader
  bodyWriter : BodyWriter
  bodyReader : BodyReader
  upgrade : Bool

namespace Upstream

def new (s : Stream) (mem : Nat → Byte) : Upstream where
  stream := s
  buffer := []
  bufBodyOffset := none
  requestHeader := none
  responseHeader := none
  bodyWriter := .new
  bodyReader := .new mem
  upgrade := false

abbrev M := Async Upstream

/-- `get_response_headers`. -/
def getResponseHeaders : M ResponseHeader := fun u =>
  match u.responseHeader with
  | some h => (.ok h, u)
  | none => (.panic "Response header is not read yet", u)

def bodyBytes : M Bytes := fun u =>
  match u.bufBodyOffset with
  | none => (unwrapNone, u)
  | some o =>
    match o.get u.buffer with
    | some bs => (.ok bs, u)
    | none => (outOfRange, u)

def setReader (f : BodyReader → BodyReader) : M Unit := modify fun u => { u with bodyReader := f u.bodyReader }

def setWriter (f : BodyWriter → BodyWriter) : M Unit := modify fun u => { u with bodyWriter := f u.bodyWriter }

def onReader {α : Type} (x : Async (BodyReader × Stream) α) : M α :=
  zoom (fun u => (u.bodyReader, u.stream)) (fun u p => { u with bodyReader := p.1, stream := p.2 }) x

def onWriter {α : Type} (x : Async (BodyWriter × Stream) α) : M α :=
  zoom (fun u => (u.bodyWriter, u.stream)) (fun u p => { u with bodyWriter := p.1, stream := p.2 }) x

def onStream {α : Type} (x : Async Stream α) : M α := zoom stream (fun u s => { u with stream := s }) x

def isRequestUpgrade : M Bool := fun u =>
  match u.requestHeader with
  | some h => (.ok (Utils.isRequestUpgrade h), u)
  | none => (.panic "Request is not read yet", u)

def isSessionUpgrade (resp : ResponseHeader) : M Bool := do
  if ← isRequestUpgrade then return Utils.isResponseUpgrade resp else return false

variable (crates : Crates)

/-! ## The response head -/

/-- `ResponseHeader::build`, the reason phrase set, then each field appended. `none` is
    a status below 100. -/
def responseHeaderOf (parts : ResponseParts) : Option ResponseHeader :=
  if 100 ≤ parts.code && parts.code < 1000 then
    let h : ResponseHeader := ⟨parts.code, minorVersion parts.version, none, .empty⟩
    some { h.setReasonPhrase crates parts.reason with fields := .ofParsed parts.headers }
  else none

def readResponse : M Unit := do
  modify fun u => { u with buffer := [] }
  match ← onStream (headLoop crates.parseResponse) with
  | none => return
  | some (readBuffer, size, parts) =>
    modify fun u => { u with bufBodyOffset := some ⟨size, readBuffer.length⟩ }
    match responseHeaderOf crates parts with
    | none => stop (.panic "Failed to convert status code")
    | some h =>
      modify fun u => { u with buffer := readBuffer }
      let upgrade ← isSessionUpgrade h
      modify fun u => { u with upgrade := upgrade, responseHeader := some h }

/-! ## The response body -/

/-- The mode for a response that is neither an upgrade nor without a body. -/
def setFramedReader (h : ResponseHeader) (bodyBytes : Bytes) : M Unit :=
  if Utils.isHeaderValueChunkEncoding (h.getHeader transferEncoding) then setReader (·.withChunkedRead bodyBytes)
  else
    match Utils.getContentLengthValue (h.getHeader contentLength) with
    | some length => setReader (·.withContentLengthRead length bodyBytes)
    | none => setReader (·.withUntilClosedRead bodyBytes)

def isHeadRequest (u : Upstream) : Bool :=
  match u.requestHeader with
  | some h => h.method == ascii "HEAD"
  | none => false

def setResponseBodyReader : M Unit := do
  if (← get).bodyReader.isStart then
    let bodyBytes ← bodyBytes
    if (← get).isHeadRequest then setReader (·.withContentLengthRead 0 bodyBytes)
    else
      let h ← getResponseHeaders
      if h.status = 101 then
        if ← isRequestUpgrade then setReader (·.withUntilClosedRead bodyBytes)
        else setFramedReader h bodyBytes
      else if h.isInformational then return
      else if h.status == 204 || h.status == 304 then setReader (·.withContentLengthRead 0 bodyBytes)
      else setFramedReader h bodyBytes
  else return

def readResponseBody : M (Option Offset) := do
  setResponseBodyReader
  onReader (BodyReader.readBody crates.parseChunkSize)

def readSlicedResponseBody (o : Offset) : M Bytes := fun u => (u.bodyReader.getSlicedBody o, u)

def readResponseBodyBytes : M (Option Bytes) := do
  match ← readResponseBody crates with
  | some offset => return some (← readSlicedResponseBody offset)
  | none => return none

def isReadingResponseBodyFinished : M Bool := do
  setResponseBodyReader
  return (← get).bodyReader.isFinished

def forceCloseResponseBodyReader : M Unit := do
  let u ← get
  if u.upgrade && !u.bodyReader.isFinished then setReader (·.withContentLengthRead 0 [])
  else return

def shouldReadResponseHeader (u : Upstream) : Bool :=
  match u.responseHeader with
  | none => true
  | some h => if h.status = 101 then false else h.isInformational

def readUpstreamResponse : M Task := do
  if (← get).shouldReadResponseHeader then
    readResponse crates
    match (← get).responseHeader with
    | none => stop unwrapNone
    | some respHeader => return .header respHeader (← isReadingResponseBodyFinished)
  else if ← isReadingResponseBodyFinished then return .done
  else
    let body ← readResponseBodyBytes crates
    return .body body (← isReadingResponseBodyFinished)

/-! ## The request -/

def setRequestBodyWriter (req : RequestHeader) : M Unit :=
  if Utils.isRequestUpgrade req then setWriter (·.withUntilClosedWrite)
  else if Utils.isHeaderValueChunkEncoding (req.getHeader transferEncoding) then
    setWriter (·.withChunkedEncodingWrite)
  else
    match Utils.getContentLengthValue (req.getHeader contentLength) with
    | some length => setWriter (·.withContentLengthWrite length)
    | none => setWriter (·.withUntilClosedWrite)

def writeRequestHeader (req : RequestHeader) : M Unit := do
  setRequestBodyWriter req
  match req.buildToBuffer with
  | none => stop (.panic "header iter mismatch")
  | some buf => fun u =>
    match u.stream.writeAll buf with
    | (.ok (), s) => (.ok (), { u with stream := s, requestHeader := some req })
    | (.err e, s) => (.err (.wrapped "error writing response header: " e), { u with stream := s })
    | (.pending, s) => (.pending, { u with stream := s })
    | (.panic t, s) => (.panic t, { u with stream := s })

def writeRequestBody (buffer : Bytes) : M (Option Nat) := onWriter (BodyWriter.writeBody buffer)

def finishWritingRequestBody : M (Option Nat) := do
  let res ← onWriter BodyWriter.finish
  forceCloseResponseBodyReader
  return res

/-- `if let Some(body) = req_body`. -/
def writeSomeBody : Option Bytes → M Unit
  | some body => ignore (writeRequestBody body)
  | none => return

def writeUpstreamRequest : Task → M Bool
  | .body reqBody endStream => do
    writeSomeBody reqBody
    (if endStream then ignore finishWritingRequestBody else pure ())
    return endStream
  | _ => stop (.panic "unexpected request to write")

end Upstream

end Glaive.Session
