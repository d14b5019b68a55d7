/-
  Glaive.Proxy.Request — what the router reads of a request and answers to it
  (`glaive/src/request.rs`: `RequestProvider`; `glaive/src/response.rs`;
  `glaive/src/path.rs`: `ResolverProvider`; `glaive/src/proxy.rs`: `RouterCtx`).

  The crates the router calls are a parameter, `Externals`: the parser of `http::Uri`,
  `jsonwebtoken::decode` and `pingora_limits::Rate::observe`.
-/

import Glaive.Lib.HeaderMap
import Glaive.Lib.Io
import Glaive.Session.Utils

namespace Glaive.Proxy

open Glaive.Lib

abbrev Text := List Char

/-! ## Text -/

/-- `str::trim_start_matches`: the pattern goes as often as it is there. -/
def trimStartMatches (pat : Text) (s : Text) : Text := go s.length s
where
  go : Nat → Text → Text
    | 0, s => s
    | n + 1, s => if pat.isPrefixOf s then go n (s.drop pat.length) else s

/-- The first piece of `str::split`. -/
def splitFirst (pat : Text) : Text → Text
  | [] => []
  | c :: cs => if pat.isPrefixOf (c :: cs) then [] else c :: splitFirst pat cs

/-- `replacen(pat, "", 1)`. -/
def removeFirst (pat : Text) : Text → Text
  | [] => []
  | c :: cs => if pat.isPrefixOf (c :: cs) then (c :: cs).drop pat.length else c :: removeFirst pat cs

/-- `HeaderValue::to_str`: visible ASCII only. -/
def toStr (value : Bytes) : Option Text :=
  if value.all fun b => b == 9 || (32 ≤ b && b < 127) then some (value.map fun b => Char.ofNat b.toNat) else none

/-- `str::from_utf8`. -/
def fromUtf8 (value : Bytes) : Option Text := (String.fromUTF8? ⟨value.toArray⟩).map String.toList

/-- A header name, as `HeaderName` keeps it. -/
def headerName (s : String) : Text := s.toList.map Char.toLower

/-! ## A session -/

structure Uri where
  path : Text
  query : Option Text
  /-- `to_string`. -/
  text : Text
  deriving DecidableEq, Repr

inductive SocketAddr where
  /-- `ip` as `to_string` writes it. -/
  | inet (ip : Text) (port : Nat)
  | unix (path : Text)
  deriving DecidableEq, Repr

structure ErrorResponse where
  statusCode : Nat
  message : Text
  headers : List (Text × Text)
  deriving DecidableEq, Repr

structure Session where
  uri : Uri
  headers : HeaderMap Text Bytes
  clientAddr : Option SocketAddr
  /-- The client is gone, so that a write fails. -/
  broken : Bool
  responses : List ErrorResponse
  keepalive : Option Nat

structure RouterCtx where
  clusterIdentity : Option Text
  clusterAddress : Nat
  proxyRetry : Nat
  uriOrigin : Option Text
  clientAddress : Option Text
  clientCredentials : Option Text
  enableEndpoint : Bool

def newCtx : RouterCtx := ⟨none, 0, 0, none, none, none, false⟩

structure Claims where
  exp : Nat
  consumer : Text

/-- `R` is what the rate estimator knows. -/
structure Externals (R : Type) where
  parseUri : Text → Option Uri
  /-- The secret, then the token. -/
  decode : Text → Text → Except String Claims
  observe : R → Text → R × Int

/-- What a filter of the router works on. -/
structure Filter (R : Type) where
  session : Session
  ctx : RouterCtx
  rate : R

variable {R : Type}

/-- `error_response`: the writes are unwrapped. -/
def errorResponse (statusCode : Nat) (message : String) (headers : List (Text × Text)) : Async (Filter R) Unit := fun f =>
  if f.session.broken then (.panic "called `Result::unwrap()` on an `Err` value", f)
  else
    (.ok (), { f with session := { f.session with
      responses := f.session.responses ++ [⟨statusCode, message.toList, headers⟩]
      keepalive := none } })

/-- Answer with an error and stop the proxy. -/
def reject (statusCode : Nat) (message : String) : Async (Filter R) Bool := do
  errorResponse statusCode message []
  return true

/-! ## `RequestProvider` -/

def getRemoteAddr (s : Session) : Option (Text × Nat) :=
  match s.clientAddr with
  | some (.inet ip port) => some (ip, port)
  | _ => none

/-- X-Forwarded-For, then X-Real-Ip, then the remote address. -/
def getClientIp (s : Session) : Option Text :=
  match s.headers.get (headerName "X-Forwarded-For") with
  | some value =>
    -- a split has a first piece
    some (Session.Utils.trim (splitFirst ", ".toList ((toStr value).getD [])))
  | none =>
    match s.headers.get (headerName "X-Real-Ip") with
    | some value => some ((toStr value).getD [])
    | none => (getRemoteAddr s).map (·.1)

def getReqHeaderValue (s : Session) (key : String) : Option Text := (s.headers.get (headerName key)).bind toStr

/-! ## `ResolverProvider` -/

/-- The path up to its first segment. -/
def basePath (uri : Text) : Text :=
  match (uri.splitOn '/').filter (fun s => !s.isEmpty) with
  | base :: _ => '/' :: base
  | [] => ['/']

def setUri (uri : Uri) : Async (Filter R) Unit :=
  Async.modify fun f => { f with session := { f.session with uri := uri } }

/-- `true`: the request is answered. -/
def selectCluster (ex : Externals R) (prefixMap : List (Text × Nat)) (originalUri : Text) : Async (Filter R) Bool :=
  match ex.parseUri originalUri with
  | none => reject 400 "Invalid path"
  | some _ =>
    match prefixMap.find? fun e => e.1 = basePath originalUri with
    | none => reject 404 "Path does not exist"
    | some (pfx, idx) => do
      let modifiedUri := removeFirst pfx originalUri
      Async.modify fun f => { f with ctx := { f.ctx with clusterAddress := idx } }
      if modifiedUri.isEmpty then
        match ex.parseUri ['/'] with
        | none => Async.stop (.panic "called `Result::unwrap()` on an `Err` value")
        | some uri =>
          setUri uri
          return false
      else
        match ex.parseUri modifiedUri with
        | none => reject 400 "Invalid path result"
        | some uri =>
          setUri uri
          return false

/-! ## What stays -/

/-- What the guards read of a request. -/
def Filter.facts (f : Filter R) : HeaderMap Text Bytes × Option SocketAddr := (f.session.headers, f.session.clientAddr)

theorem getClientIp_facts {s s' : Session} (h : s'.headers = s.headers) (h' : s'.clientAddr = s.clientAddr) :
    getClientIp s' = getClientIp s := by
  unfold getClientIp getRemoteAddr
  rw [h, h']

theorem getReqHeaderValue_facts {s s' : Session} (h : s'.headers = s.headers) (key : String) :
    getReqHeaderValue s' key = getReqHeaderValue s key := by
  unfold getReqHeaderValue
  rw [h]

/-- A client that names no address in a header is known by its own. -/
theorem getClientIp_remote {s : Session} (h1 : s.headers.get (headerName "X-Forwarded-For") = none)
    (h2 : s.headers.get (headerName "X-Real-Ip") = none) : getClientIp s = (getRemoteAddr s).map (·.1) := by
  unfold getClientIp
  rw [h1, h2]

/-- Nothing is let through that is rejected. -/
theorem reject_ok {statusCode : Nat} {message : String} {f f' : Filter R} {b : Bool}
    (h : reject statusCode message f = (.ok b, f')) : b = true := by
  obtain ⟨_, _, -, h⟩ := Async.of_bind_ok h
  cases h; rfl

/-- The path that is left of a request, `/` when nothing is. -/
def orRoot (modifiedUri : Text) : Text := if modifiedUri.isEmpty then ['/'] else modifiedUri

/-- A request goes on to the cluster of its first segment, with what is left of its path. -/
theorem selectCluster_ok {ex : Externals R} {prefixMap : List (Text × Nat)} {originalUri : Text} {f f' : Filter R}
    (h : selectCluster ex prefixMap originalUri f = (.ok false, f')) :
    f'.facts = f.facts ∧ f'.rate = f.rate ∧ f'.ctx.clientAddress = f.ctx.clientAddress ∧
      f'.ctx.clientCredentials = f.ctx.clientCredentials ∧
      ∃ uri e, ex.parseUri originalUri = some uri ∧ prefixMap.find? (fun e => e.1 = basePath originalUri) = some e ∧
        f'.ctx.clusterAddress = e.2 ∧ ex.parseUri (orRoot (removeFirst e.1 originalUri)) = some f'.session.uri := by
  unfold selectCluster at h
  cases hp : ex.parseUri originalUri with
  | none =>
    rw [hp] at h
    exact absurd (reject_ok h) (by simp)
  | some uri =>
    rw [hp] at h
    cases hf : prefixMap.find? fun e => e.1 = basePath originalUri with
    | none =>
      rw [hf] at h
      exact absurd (reject_ok h) (by simp)
    | some e =>
      rw [hf] at h
      simp only [Async.modify_bind_apply] at h
      unfold orRoot
      by_cases hm : (removeFirst e.1 originalUri).isEmpty
      · rw [if_pos hm] at h
        cases hr : ex.parseUri ['/'] with
        | none => rw [hr] at h; cases h
        | some root =>
          rw [hr] at h
          cases h
          exact ⟨rfl, rfl, rfl, rfl, uri, e, rfl, rfl, rfl, by rw [if_pos hm]; exact hr⟩
      · rw [if_neg hm] at h
        cases hr : ex.parseUri (removeFirst e.1 originalUri) with
        | none => rw [hr] at h; exact absurd (reject_ok h) (by simp)
        | some modified =>
          rw [hr] at h
          cases h
          exact ⟨rfl, rfl, rfl, rfl, uri, e, rfl, rfl, rfl, by rw [if_neg hm]; exact hr⟩

end Glaive.Proxy
