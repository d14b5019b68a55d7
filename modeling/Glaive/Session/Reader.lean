/-
  Glaive.Session.Reader — the body reader (`core/src/session/reader.rs`: `ReadState`,
  `BodyReader`; `core/src/session/offset.rs`: `Offset`).

  `httparse::parse_chunk_size` is a parameter, `parseChunkSize`. Every `usize` sum and
  difference is checked: `none`, then a panic, where it would leave `[0, 2^64)`.

  `setBuffer` takes memory for `bodySize` bytes and sets the length over it without
  writing it (`set_len`), so past the preread bytes the buffer holds whatever the
  memory held; `mem` is that, and every theorem is for any `mem`.

  A call makes at most one read of the socket. When the script has nothing for it the
  call is `pending`, with the reader as it stands at the await: the rewind size taken,
  a partial chunk head already moved to the front.
-/

import Glaive.Lib.Io
import Glaive.Lib.ChunkedCoding

namespace Glaive.Session

open Glaive.Lib
open Glaive.Lib.Chunked (ChunkStatus)

/-! ## Offsets -/

structure Offset where
  start : Nat
  stop : Nat
  deriving DecidableEq, Repr

/-- `Offset::new`. -/
def Offset.new (start len : Nat) : Option Offset := (uadd start len).map (Offset.mk start)

/-- `Offset::get`: `none` is a slice out of range. -/
def Offset.get (o : Offset) (buf : Bytes) : Option Bytes := slice o.start o.stop buf

/-! ## States -/

inductive ReadState where
  | start
  /-- Read complete (total size). -/
  | completed (total : Nat)
  /-- Done but interrupted (size read). -/
  | done (read : Nat)
  /-- Size read, remaining size. -/
  | partially (read toRead : Nat)
  /-- Size read, next to read in the buffer, read in the buffer, remaining size. -/
  | chunked (read bufStart bufEnd expecting : Nat)
  /-- Until the connection closes (size read). -/
  | http10 (read : Nat)
  deriving DecidableEq, Repr

namespace ReadState

def finish : ReadState → Nat → Option ReadState
  | partially read toRead, _ => (uadd read toRead).map completed
  | chunked read _ _ _, n => (uadd read n).map completed
  | http10 read, n => (uadd read n).map completed
  | s, _ => some s

def finishDone : ReadState → Nat → Option ReadState
  | partially read _, n => (uadd read n).map done
  | chunked read _ _ _, n => (uadd read n).map done
  | http10 read, n => (uadd read n).map done
  | s, _ => some s

def partialChunk : ReadState → Nat → Nat → Option ReadState
  | chunked read _ _ _, bytesRead, bytesToRead => (uadd read bytesRead).map fun r => chunked r 0 0 bytesToRead
  | s, _, _ => some s

def multiChunk : ReadState → Nat → Nat → Option ReadState
  | chunked read _ bufEnd _, bytesRead, bufStart => (uadd read bytesRead).map fun r => chunked r bufStart bufEnd 0
  | s, _, _ => some s

def partialChunkHead : ReadState → Nat → Nat → ReadState
  | chunked read _ _ _, headEnd, headSize => chunked read 0 headEnd headSize
  | s, _, _ => s

def newBuf : ReadState → Nat → ReadState
  | chunked read _ _ _, bufEnd => chunked read 0 bufEnd 0
  | s, _ => s

end ReadState

def bodyBufferSize : Nat := 1024 * 64

def partialChunkHeadLimit : Nat := 1024 * 8

structure BodyReader where
  readState : ReadState
  bodyBuffer : Option Bytes
  bodySize : Nat
  rewindBufSize : Nat
  /-- What the memory of a fresh buffer holds, at each index. -/
  mem : Nat → Byte

def connectionClosed : IoError := .other "connection closed"

def overflow {α : Type} : Out α := .panic "attempt to add with overflow"

def outOfRange {α : Type} : Out α := .panic "range end index out of range"

def unwrapNone {α : Type} : Out α := .panic "called `Option::unwrap()` on a `None` value"

def wrongReadMode {α : Type} : Out α := .panic "executing wrong read mode"

namespace BodyReader

def new (mem : Nat → Byte) : BodyReader := ⟨.start, none, bodyBufferSize, 0, mem⟩

def isStart (r : BodyReader) : Bool := r.readState == .start

def reStart (r : BodyReader) : BodyReader := { r with readState := .start }

/-- `get_sliced_body`. -/
def getSlicedBody (r : BodyReader) (o : Offset) : Out Bytes :=
  match r.bodyBuffer with
  | none => unwrapNone
  | some buf =>
    match o.get buf with
    | none => outOfRange
    | some bs => .ok bs

def isFinished (r : BodyReader) : Bool :=
  match r.readState with
  | .completed _ | .done _ => true
  | _ => false

/-! ## Modes -/

/-- `n` bytes of fresh memory from index `i`. -/
def memory (mem : Nat → Byte) : Nat → Nat → Bytes
  | _, 0 => []
  | i, n + 1 => mem i :: memory mem (i + 1) n

def setBuffer (r : BodyReader) (bufToRewind : Bytes) : BodyReader :=
  { r with
    rewindBufSize := if bufToRewind.isEmpty then r.rewindBufSize else bufToRewind.length
    bodyBuffer := some (bufToRewind ++ memory r.mem bufToRewind.length (r.bodySize - bufToRewind.length)) }

def withChunkedRead (r : BodyReader) (bufToRewind : Bytes) : BodyReader :=
  { r with readState := .chunked 0 0 0 0 }.setBuffer bufToRewind

def withContentLengthRead (r : BodyReader) (length : Nat) (bufToRewind : Bytes) : BodyReader :=
  match length with
  | 0 => { r with readState := .completed 0 }
  | length => { r.setBuffer bufToRewind with readState := .partially 0 length }

def withUntilClosedRead (r : BodyReader) (bufToRewind : Bytes) : BodyReader :=
  { r.setBuffer bufToRewind with readState := .http10 0 }

/-! ## Reading -/

/-- Enter a state and end with `o`. -/
def enter {α : Type} (r : BodyReader) (st : Option ReadState) (o : Out α) : Out α × BodyReader :=
  match st with
  | some st => (o, { r with readState := st })
  | none => (overflow, r)

/-- Enter a state and return `Ok(Some(offset))`. -/
def give (r : BodyReader) (x : Option (ReadState × Offset)) : Out (Option Offset) × BodyReader :=
  match x with
  | some (st, o) => (.ok (some o), { r with readState := st })
  | none => (overflow, r)

/-- The bytes of the first pull are the preread ones, if any; else a read of the socket
    fills the buffer from the front. Gives how many came. -/
def fill (r : BodyReader) (s : Stream) : Out Nat × BodyReader × Stream :=
  match r.bodyBuffer with
  | none => (unwrapNone, r, s)
  | some buffer =>
    let n := r.rewindBufSize
    let r := { r with rewindBufSize := 0 }
    if n = 0 then
      match s.read buffer.length with
      | (.ok bs, s) => (.ok bs.length, { r with bodyBuffer := some (overwrite buffer 0 bs) }, s)
      | (.err e, s) => (.err e, r, s)
      | (.pending, s) => (.pending, r, s)
      | (.panic t, s) => (.panic t, r, s)
    else (.ok n, r, s)

def takePartially (r : BodyReader) (n : Nat) : Out (Option Offset) × BodyReader :=
  match r.readState with
  | .partially read toRead =>
    if n = 0 then (.err connectionClosed, { r with readState := .done read })
    else if toRead ≤ n then
      r.give do
        let total ← uadd read toRead
        return (.completed total, ← Offset.new 0 toRead)
    else
      r.give do
        let total ← uadd read n
        return (.partially total (toRead - n), ← Offset.new 0 n)
  | _ => (wrongReadMode, r)

def readPartially (r : BodyReader) (s : Stream) : Out (Option Offset) × BodyReader × Stream :=
  match r.fill s with
  | (.ok n, r, s) => let (o, r) := r.takePartially n; (o, r, s)
  | (.err e, r, s) => (.err e, r, s)
  | (.pending, r, s) => (.pending, r, s)
  | (.panic t, r, s) => (.panic t, r, s)

def takeUntilClosed (r : BodyReader) (n : Nat) : Out (Option Offset) × BodyReader :=
  match r.readState with
  | .http10 read =>
    if n = 0 then (.ok none, { r with readState := .completed read })
    else
      r.give do
        let total ← uadd read n
        return (.http10 total, ← Offset.new 0 n)
  | _ => (wrongReadMode, r)

def readUntilClosed (r : BodyReader) (s : Stream) : Out (Option Offset) × BodyReader × Stream :=
  match r.fill s with
  | (.ok n, r, s) => let (o, r) := r.takeUntilClosed n; (o, r, s)
  | (.err e, r, s) => (.err e, r, s)
  | (.pending, r, s) => (.pending, r, s)
  | (.panic t, r, s) => (.panic t, r, s)

variable (parseChunkSize : Bytes → ChunkStatus)

/-- The state and offset after a size line of chunk size `chunkSize > 0` that ends at
    `payloadIndex`, in the `bufLen` bytes from `bufIndexStart`. -/
def chunkAt (st : ReadState) (bufIndexStart bufLen payloadIndex chunkSize : Nat) : Option (ReadState × Offset) := do
  -- chunk-size CRLF [payload_index] byte*[chunk_size] CRLF
  let dataEndIndex ← uadd payloadIndex chunkSize
  let chunkEndIndex ← uadd dataEndIndex 2
  if bufLen ≤ chunkEndIndex then
    -- no multi chunk in this buf
    let actualSize ← if bufLen < dataEndIndex then usub bufLen payloadIndex else some chunkSize
    let st ← st.partialChunk actualSize (chunkEndIndex - bufLen)
    return (st, ← Offset.new (← uadd bufIndexStart payloadIndex) actualSize)
  else
    -- got multiple chunks, return the first
    let st ← st.multiChunk chunkSize (← uadd bufIndexStart chunkEndIndex)
    return (st, ← Offset.new (← uadd bufIndexStart payloadIndex) chunkSize)

def chunkOverLimit : IoError := .other "chunk is over limit"

def invalidChunkSize : IoError := .other "invalid chunk size"

def parseChunkedBuf (r : BodyReader) (bufIndexStart bufIndexEnd : Nat) : Out (Option Offset) × BodyReader :=
  match r.bodyBuffer.bind (slice bufIndexStart bufIndexEnd) with
  | none => (outOfRange, r)
  | some buffer =>
    match parseChunkSize buffer with
    | .complete payloadIndex chunkSize =>
      if chunkSize = 0 then
        -- terminating chunk: the trailer and the final CRLF are not looked at
        r.enter (r.readState.finish 0) (.ok none)
      else r.give (chunkAt r.readState bufIndexStart buffer.length payloadIndex chunkSize)
    | .incomplete =>
      if partialChunkHeadLimit < buffer.length then r.enter (r.readState.finishDone 0) (.err chunkOverLimit)
      else
        r.give do
          return (r.readState.partialChunkHead bufIndexEnd buffer.length, ← Offset.new 0 0)
    | .invalid => r.enter (r.readState.finishDone 0) (.err invalidChunkSize)

/-- The first part of `read_chunked`: at `existing_buf_start == 0` a new buffer comes,
    the preread one or one from the socket, behind the partial chunk head if there is
    one. Gives `existing_buf_end` and `expecting_from_io`. -/
def fillChunked (r : BodyReader) (existingBufEnd expectingFromIo : Nat) (s : Stream) :
    Out (Nat × Nat) × BodyReader × Stream :=
  if existingBufEnd = 0 then
    match r.fill s with
    | (.ok n, r, s) => (.ok (n, expectingFromIo), { r with readState := r.readState.newBuf n }, s)
    | (.err e, r, s) => (.err e, r, s)
    | (.pending, r, s) => (.pending, r, s)
    | (.panic t, r, s) => (.panic t, r, s)
  else
    match r.bodyBuffer with
    | none => (unwrapNone, r, s)
    | some buffer =>
      match (usub existingBufEnd expectingFromIo).bind (slice · existingBufEnd buffer) with
      | none => (outOfRange, r, s)
      | some head =>
        -- copy_within moves the partial head to the front
        let buffer := overwrite buffer 0 head
        let r := { r with bodyBuffer := some buffer }
        match s.read (buffer.length - expectingFromIo) with
        | (.ok bs, s) =>
          match uadd expectingFromIo bs.length with
          | none => (overflow, r, s)
          | some n =>
            (.ok (n, 0), { r with bodyBuffer := some (overwrite buffer expectingFromIo bs),
                                  readState := r.readState.newBuf n }, s)
        | (.err e, s) => (.err e, r, s)
        | (.pending, s) => (.pending, r, s)
        | (.panic t, s) => (.panic t, r, s)

/-- The rest of `read_chunked`. -/
def takeChunked (r : BodyReader) (existingBufStart existingBufEnd expectingFromIo : Nat) :
    Out (Option Offset) × BodyReader :=
  if existingBufEnd = 0 then r.enter (r.readState.finishDone 0) (.err connectionClosed)
  else if 0 < expectingFromIo then
    match uadd existingBufEnd 2 with
    | none => (overflow, r)
    | some end2 =>
      if end2 ≤ expectingFromIo then
        -- not enough
        r.give do
          let st ← r.readState.partialChunk existingBufEnd (expectingFromIo - existingBufEnd)
          return (st, ← Offset.new 0 existingBufEnd)
      else
        -- could be expecting DATA + CRLF or just CRLF
        let payloadSize := if 2 < expectingFromIo then expectingFromIo - 2 else 0
        if existingBufEnd ≤ expectingFromIo then
          r.give do
            let st ← r.readState.partialChunk payloadSize (expectingFromIo - existingBufEnd)
            return (st, ← Offset.new 0 payloadSize)
        else
          r.give do
            let st ← r.readState.multiChunk payloadSize expectingFromIo
            return (st, ← Offset.new 0 payloadSize)
  else r.parseChunkedBuf parseChunkSize existingBufStart existingBufEnd

def readChunked (r : BodyReader) (s : Stream) : Out (Option Offset) × BodyReader × Stream :=
  match r.readState with
  | .chunked _ existingBufStart existingBufEnd expectingFromIo =>
    if existingBufStart = 0 then
      match r.fillChunked existingBufEnd expectingFromIo s with
      | (.ok (bufEnd, expecting), r, s) =>
        let (o, r) := r.takeChunked parseChunkSize 0 bufEnd expecting
        (o, r, s)
      | (.err e, r, s) => (.err e, r, s)
      | (.pending, r, s) => (.pending, r, s)
      | (.panic t, r, s) => (.panic t, r, s)
    else
      let (o, r) := r.takeChunked parseChunkSize existingBufStart existingBufEnd expectingFromIo
      (o, r, s)
  | _ => (wrongReadMode, r, s)

def readBody : Async (BodyReader × Stream) (Option Offset) := fun (r, s) =>
  match r.readState with
  | .completed _ => (.ok none, r, s)
  | .done _ => (.ok none, r, s)
  | .partially _ _ => r.readPartially s
  | .chunked _ _ _ _ => r.readChunked parseChunkSize s
  | .http10 _ => r.readUntilClosed s
  | .start => (.panic "reader is not initialized", r, s)

end BodyReader

end Glaive.Session
