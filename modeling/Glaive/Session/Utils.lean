/-
  Glaive.Session.Utils — the readings of head fields both sessions share
  (`core/src/session/utils.rs`: `Utils`; `keepalive.rs`).
-/

import Glaive.Session.Header

namespace Glaive.Session

open Glaive.Lib

/-! ## Connection -/

inductive KeepaliveStatus where
  | timeout (secs : Nat)
  | infinite
  | off
  deriving DecidableEq, Repr

/-- `set_keepalive` of either session. -/
def KeepaliveStatus.set : Option Nat → KeepaliveStatus
  | some sec => if 0 < sec then .timeout sec else .infinite
  | none => .off

structure ConnectionValue where
  keepAlive : Bool
  upgrade : Bool
  close : Bool
  deriving DecidableEq, Repr

namespace Utils

/-- `char::is_whitespace`. -/
def isWhitespace (c : Char) : Bool :=
  (9 ≤ c.toNat && c.toNat ≤ 13) || (0x2000 ≤ c.toNat && c.toNat ≤ 0x200A) ||
    [0x20, 0x85, 0xA0, 0x1680, 0x2028, 0x2029, 0x202F, 0x205F, 0x3000].contains c.toNat

/-- `str::trim`. -/
def trim (s : List Char) : List Char := ((s.dropWhile isWhitespace).reverse.dropWhile isWhitespace).reverse

def charsEqIgnoreCase (s : List Char) (t : String) : Bool := s.map Char.toLower == t.toList

def scanTokens (close upgrade : Bool) : List (List Char) → ConnectionValue
  | [] => if close then ⟨false, false, true⟩ else if upgrade then ⟨false, true, false⟩ else ⟨false, false, false⟩
  | token :: rest =>
    let isClose := charsEqIgnoreCase token "close"
    let close := close || isClose
    let upgrade := upgrade || (!isClose && charsEqIgnoreCase token "upgrade")
    if upgrade && close then ⟨false, true, true⟩ else scanTokens close upgrade rest

def parseConnectionHeader (value : Bytes) : ConnectionValue :=
  if eqIgnoreCase value (ascii "close") then ⟨false, false, true⟩
  else if eqIgnoreCase value (ascii "keep-alive") then ⟨true, false, false⟩
  else if eqIgnoreCase value (ascii "upgrade") then ⟨false, true, false⟩
  else
    let text := ((String.fromUTF8? ⟨value.toArray⟩).getD "").toList
    scanTokens false false (((text.splitOn ',').map trim).filter fun t => !t.isEmpty)

def isConnectionKeepalive (value : Bytes) : Option Bool :=
  let v := parseConnectionHeader value
  if v.keepAlive then some true else if v.close then some false else none

/-! ## Framing -/

def isHeaderValueChunkEncoding (value : Option Bytes) : Bool :=
  match value with
  | some value => eqIgnoreCase value (ascii "chunked")
  | none => false

def getContentLengthValue (value : Option Bytes) : Option Nat :=
  match value with
  | some value =>
    match parseI64 value with
    | some len => if 0 ≤ len then some len.toNat else none
    | none => none
  | none => none

theorem getContentLengthValue_lt {value : Option Bytes} {n : Nat} (h : getContentLengthValue value = some n) :
    n < 2 ^ 63 := by
  unfold getContentLengthValue at h
  split at h
  · split at h
    · rename_i m hm
      split at h
      · have := parseI64_lt hm
        cases h
        omega
      · cases h
    · cases h
  · cases h

def isRequestUpgrade (request : RequestHeader) : Bool :=
  request.version == .http11 && (request.getHeader upgrade).isSome

def isResponseUpgrade (response : ResponseHeader) : Bool := response.version == .http11 && response.status == 101

def isRequestExpectContinue (request : RequestHeader) : Bool :=
  let valid := match request.getHeader expect with
    | some value => eqIgnoreCase value (ascii "100-continue")
    | none => false
  request.version == .http11 && valid

end Utils

end Glaive.Session
