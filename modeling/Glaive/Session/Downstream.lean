/-
  Glaive.Session.Downstream — the client's side of an exchange
  (`core/src/session/downstream.rs`: `Downstream`; `buffer.rs`: `StorageBuffer`).

  Timeouts, flushes and the counters of bytes moved are left out: nothing reads them.
-/

import Glaive.Session.ReadHead
import Glaive.Session.Utils
import Glaive.Session.Writer

namespace Glaive.Session

open Glaive.Lib
open Glaive.Lib.Async

/-! ## The retry buffer -/

structure StorageBuffer where
  buffer : Bytes
  capacity : Nat
  truncated : Bool
  deriving DecidableEq, Repr

namespace StorageBuffer

def new (size : Nat) : StorageBuffer := ⟨[], size, false⟩

def writeBuffer (b : StorageBuffer) (bytes : Bytes) : StorageBuffer :=
  if !b.truncated && b.buffer.length + bytes.length ≤ b.capacity then { b with buffer := b.buffer ++ bytes }
  else { b with truncated := true }

def clearBuffer (b : StorageBuffer) : StorageBuffer := { b with buffer := [], truncated := false }

def getBuffer (b : StorageBuffer) : Option Bytes := if b.buffer.isEmpty then none else some b.buffer

end StorageBuffer

def bodyBufLimit : Nat := 1024 * 64

/-! ## The session -/

structure Downstream where
  stream : Stream
  buffer : Bytes
  writeBodyVecBuffer : Bytes
  retryBuffer : Option StorageBuffer
  bufBodyOffset : Option Offset
  requestHeader : Option RequestHeader
  responseHeader : Option ResponseHeader
  bodyWriter : BodyWriter
  bodyReader : BodyReader
  keepaliveTimeout : KeepaliveStatus
  upgrade : Bool
  updateResponseHeaders : Bool
  ignoreResponseHeaders : Bool

namespace Downstream

/-- A new session; `mem` is what the memory of its body buffer will hold. -/
def new (s : Stream) (mem : Nat → Byte) : Downstream where
  stream := s
  buffer := []
  writeBodyVecBuffer := []
  retryBuffer := none
  bufBodyOffset := none
  requestHeader := none
  responseHeader := none
  bodyWriter := .new
  bodyReader := .new mem
  keepaliveTimeout := .off
  upgrade := false
  updateResponseHeaders := true
  ignoreResponseHeaders := false

abbrev M := Async Downstream

/-- `get_request_headers`. -/
def getRequestHeaders : M RequestHeader := fun d =>
  match d.requestHeader with
  | some h => (.ok h, d)
  | none => (.panic "Request header is not read yet", d)

/-- The preread bytes: those of the head buffer past the head. -/
def bodyBytes : M Bytes := fun d =>
  match d.bufBodyOffset with
  | none => (unwrapNone, d)
  | some o =>
    match o.get d.buffer with
    | some bs => (.ok bs, d)
    | none => (outOfRange, d)

def setReader (f : BodyReader → BodyReader) : M Unit := modify fun d => { d with bodyReader := f d.bodyReader }

def setWriter (f : BodyWriter → BodyWriter) : M Unit := modify fun d => { d with bodyWriter := f d.bodyWriter }

def onReader {α : Type} (x : Async (BodyReader × Stream) α) : M α :=
  zoom (fun d => (d.bodyReader, d.stream)) (fun d p => { d with bodyReader := p.1, stream := p.2 }) x

def onWriter {α : Type} (x : Async (BodyWriter × Stream) α) : M α :=
  zoom (fun d => (d.bodyWriter, d.stream)) (fun d p => { d with bodyWriter := p.1, stream := p.2 }) x

def onStream {α : Type} (x : Async Stream α) : M α := zoom stream (fun d s => { d with stream := s }) x

/-! ## The request head -/

def isRequestUpgrade : M Bool := return Utils.isRequestUpgrade (← getRequestHeaders)

def isSessionUpgrade (resp : ResponseHeader) : M Bool := do
  if ← isRequestUpgrade then return Utils.isResponseUpgrade resp else return false

def isRequestExpectContinue : M Bool := return Utils.isRequestExpectContinue (← getRequestHeaders)

def isConnectionKeepalive (h : RequestHeader) : Option Bool :=
  (h.getHeader connection).bind Utils.isConnectionKeepalive

/-- `apply_session_keepalive`, where `get_keepalive_value` is `(None, None)`. -/
def applySessionKeepalive (h : RequestHeader) : KeepaliveStatus :=
  match isConnectionKeepalive h with
  | some true => .set (some 0)
  | some false => .set none
  | none => if h.version = .http11 then .set (some 0) else .set none

def isSessionKeepalive (d : Downstream) : Bool := d.keepaliveTimeout != .off

/-- `RequestHeader::build`, then each field appended. -/
def requestHeaderOf (parts : RequestParts) : RequestHeader :=
  ⟨parts.method, parts.path, minorVersion parts.version, .ofParsed parts.headers⟩

def readRequest (crates : Crates) : M Unit := do
  modify fun d => { d with buffer := [] }
  match ← onStream (headLoop crates.parseRequest) with
  | none => return
  | some (readBuffer, size, parts) =>
    modify fun d => { d with bufBodyOffset := some ⟨size, readBuffer.length⟩ }
    if !crates.validMethod parts.method then stop (.panic "Failed to convert method")
    else if !crates.validUri parts.path then stop (.panic "Failed to create base request")
    else
      let h := requestHeaderOf parts
      modify fun d => { d with
        buffer := readBuffer, requestHeader := some h, bodyReader := d.bodyReader.reStart, responseHeader := none,
        keepaliveTimeout := applySessionKeepalive h }

/-! ## The request body -/

def setRequestBodyReader : M Unit := do
  if (← get).bodyReader.isStart then
    modify fun d => { d with retryBuffer := d.retryBuffer.map .clearBuffer }
    let bodyBytes ← bodyBytes
    let h ← getRequestHeaders
    -- an upgrade sets its mode, and the choice goes on below
    (if h.version = .http11 && Utils.isRequestUpgrade h then setReader (·.withUntilClosedRead bodyBytes) else pure ())
    if Utils.isHeaderValueChunkEncoding (h.getHeader transferEncoding) then setReader (·.withChunkedRead bodyBytes)
    else
      match Utils.getContentLengthValue (h.getHeader contentLength) with
      | some length => setReader (·.withContentLengthRead length bodyBytes)
      | none =>
        match h.version with
        | .http11 => setReader (·.withContentLengthRead 0 bodyBytes)
        | _ => setReader (·.withUntilClosedRead bodyBytes)
  else return

def enableRetryBuffer (d : Downstream) : Downstream :=
  { d with retryBuffer := some (d.retryBuffer.getD (.new bodyBufLimit)) }

def getRetryBuffer (d : Downstream) : Option Bytes :=
  d.retryBuffer.bind fun b => if b.truncated then none else b.getBuffer

variable (crates : Crates)

def readRequestBody : M (Option Offset) := do
  setRequestBodyReader
  onReader (BodyReader.readBody crates.parseChunkSize)

def readSlicedRequestBody (o : Offset) : M Bytes := fun d => (d.bodyReader.getSlicedBody o, d)

def readRequestBodyBytes : M (Option Bytes) := do
  match ← readRequestBody crates with
  | some offset =>
    let bytes ← readSlicedRequestBody offset
    modify fun d => { d with retryBuffer := d.retryBuffer.map (·.writeBuffer bytes) }
    return some bytes
  | none => return none

def isReadingRequestBodyFinished : M Bool := do
  setRequestBodyReader
  return (← get).bodyReader.isFinished

def forceCloseRequestBodyReader : M Unit := do
  let d ← get
  if d.upgrade && !d.bodyReader.isFinished then setReader (·.withContentLengthRead 0 [])
  else return

def idle : M Bytes := onStream (·.read 1)

def connectError : IoError := .other "connect error"

def readRequestBodyOrIdle : M (Option Bytes) := do
  if ← isReadingRequestBodyFinished then
    let read ← idle
    if read = [] then stop (.err connectionClosed) else stop (.err connectError)
  else readRequestBodyBytes crates

def readDownstreamRequest : M Task := do
  let reqBody ← readRequestBodyOrIdle crates
  if ← andAlso reqBody.isNone isRequestUpgrade then return .done
  else return .body reqBody (← isReadingRequestBodyFinished)

/-! ## The response -/

def head : Bytes := ascii "HEAD"

def setResponseBodyWriter (resp : ResponseHeader) : M Unit := do
  if ← orElse (resp.status == 204 || resp.status == 304) (return (← getRequestHeaders).method == head) then
    setWriter (·.withContentLengthWrite 0)
  else if resp.isInformational && resp.status != 101 then return
  else if ← isSessionUpgrade resp then setWriter (·.withUntilClosedWrite)
  else if Utils.isHeaderValueChunkEncoding (resp.getHeader transferEncoding) then
    setWriter (·.withChunkedEncodingWrite)
  else
    match Utils.getContentLengthValue (resp.getHeader contentLength) with
    | some length => setWriter (·.withContentLengthWrite length)
    | none => setWriter (·.withUntilClosedWrite)

/-- The date and the connection's fate, on a final head. -/
def updateHeaders (resp : ResponseHeader) : M ResponseHeader := do
  let d ← get
  if !resp.isInformational && d.updateResponseHeaders then
    let resp := resp.insertHeader (ascii "Date") crates.httpDate
    return resp.insertHeader (ascii "Connection") (ascii (if d.isSessionKeepalive then "keep-alive" else "close"))
  else return resp

def isIgnoringResponseHeaders (statusCode : Nat) : M Bool := do
  andAlso ((← get).ignoreResponseHeaders && statusCode != 100) do
    return !(← andAlso (statusCode == 100) isRequestExpectContinue)

/-- A head was sent, and no other may follow it. -/
def isResponseHeaderSent (d : Downstream) : Bool :=
  match d.responseHeader with
  | some h => !h.isInformational || d.upgrade
  | none => false

def headerIterMismatch {α : Type} : Out α := .panic "header iter mismatch"

def sendHeaders (resp : ResponseHeader) : M Unit := do
  match resp.buildToBuffer crates with
  | none => stop headerIterMismatch
  | some buf => fun d =>
    match d.stream.writeAll buf with
    | (.ok (), s) => (.ok (), { d with stream := s, responseHeader := some resp })
    | (.err e, s) => (.err (.wrapped "error writing response header: " e), { d with stream := s })
    | (.pending, s) => (.pending, { d with stream := s })
    | (.panic t, s) => (.panic t, { d with stream := s })

def writeResponseHeaders (resp : ResponseHeader) : M Unit := do
  if ← andAlso resp.isInformational (isIgnoringResponseHeaders resp.status) then return
  else if (← get).isResponseHeaderSent then return
  else
    let resp ← updateHeaders crates resp
    (if resp.status = 101 then modify fun d => { d with keepaliveTimeout := .set none } else pure ())
    (if resp.status = 101 || !resp.isInformational then do
      (if ← isSessionUpgrade resp then modify fun d => { d with upgrade := true }
        else setReader (·.withContentLengthRead 0 []))
      setResponseBodyWriter resp
    else pure ())
    sendHeaders crates resp

def writeResponseBody (buffer : Bytes) : M (Option Nat) := onWriter (BodyWriter.writeBody buffer)

def vectoredWriteResponseBody : M (Option Nat) := do
  let d ← get
  if d.writeBodyVecBuffer.isEmpty then return none
  else fun d =>
    -- the buffer is cleared however the write ends
    let (o, d) := onWriter (BodyWriter.writeBody d.writeBodyVecBuffer) d
    (o, { d with writeBodyVecBuffer := [] })

def finishWritingResponseBody : M (Option Nat) := do
  let res ← onWriter BodyWriter.finish
  forceCloseRequestBodyReader
  return res

def writeResponseTask : Task → M Bool
  | .header resp endStream => do
    writeResponseHeaders crates resp
    return endStream
  | .body (some body) endStream => do
    (if body.isEmpty then pure () else ignore (writeResponseBody body))
    return endStream
  | .body none endStream => return endStream
  | .trailer => return true
  | .done => return true
  | .failed e => stop (.err e)

def writeResponseToDownstream (task : Task) : M Bool := do
  let endStream ← writeResponseTask crates task
  (if endStream then ignore finishWritingResponseBody else pure ())
  return endStream

def vectoredResponseTask : Task → M Bool
  | .header resp endStream => do
    writeResponseHeaders crates resp
    return endStream
  | .body (some body) endStream => do
    modify fun d => { d with writeBodyVecBuffer := d.writeBodyVecBuffer ++ body }
    return endStream
  | .body none endStream => return endStream
  | .trailer => return true
  | .done => return true
  | .failed e => do
    ignore vectoredWriteResponseBody
    stop (.err e)

def vectoredTasks : Bool → List Task → M Bool
  | endStream, [] => return endStream
  | _, task :: tasks => do vectoredTasks (← vectoredResponseTask crates task) tasks

def vectoredWriteResponseToDownstream (tasks : List Task) : M Bool := do
  let endStream ← vectoredTasks crates false tasks
  ignore vectoredWriteResponseBody
  (if endStream then ignore finishWritingResponseBody else pure ())
  return endStream

def writeDownstreamResponse : List Task → M Bool
  | [] => return true
  | [task] => writeResponseToDownstream crates task
  | tasks => vectoredWriteResponseToDownstream crates tasks

end Downstream

end Glaive.Session
