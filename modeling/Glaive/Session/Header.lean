/-
  Glaive.Session.Header — request and response heads (`core/src/session/request.rs`:
  `RequestHeader`; `response.rs`: `ResponseHeader`; `case.rs`; `task.rs`: `Task`).

  A head keeps two maps that change together: each field's name as it was written, and
  its value. `build_to_buffer` walks them in step and panics where they part;
  `aligned` is why they never do (`build_eq`).

  `Crates` is what the sessions call that is not theirs: the `httparse` parsers,
  `http`'s check of a URI and its table of reason phrases, and the date.
-/

import Glaive.Lib.Io
import Glaive.Lib.HeaderMap
import Glaive.Lib.MessageFraming

namespace Glaive.Session

open Glaive.Lib
open Glaive.Lib.Chunked (ChunkStatus)

inductive Version where
  | http09
  | http10
  | http11
  deriving DecidableEq, Repr

/-- `get_raw_version`. -/
def Version.raw : Version → Bytes
  | .http09 => ascii "HTTP/0.9"
  | .http10 => ascii "HTTP/1.0"
  | .http11 => ascii "HTTP/1.1"

/-! ## What the parsers give -/

def isTokenByte (b : Byte) : Bool :=
  isDigit b || (65 ≤ b && b ≤ 90) || (94 ≤ b && b ≤ 122) || (35 ≤ b && b ≤ 39) ||
    ([33, 42, 43, 45, 46, 124, 126] : Bytes).contains b

/-- A header field as `httparse` gives it. Its name holds token bytes only, so
    `HeaderName::try_from` takes it. -/
structure Field where
  name : Bytes
  value : Bytes
  token : name.all isTokenByte = true
  deriving DecidableEq

theorem contentLength_token : (ascii "Content-Length").all isTokenByte = true := by decide

theorem transferEncoding_token : (ascii "Transfer-Encoding").all isTokenByte = true := by decide

/-- A parsed request line and fields; `version` is the minor version. -/
structure RequestParts where
  method : Bytes
  path : Bytes
  version : Nat
  headers : List Field
  deriving DecidableEq

structure ResponseParts where
  code : Nat
  version : Nat
  reason : Option Bytes
  headers : List Field
  deriving DecidableEq

/-- `Ok(Status::Complete(size))`, `Ok(Status::Partial)` or `Err(e)`. -/
inductive HeadStatus (α : Type) where
  | complete (size : Nat) (parts : α)
  | incomplete
  | invalid (text : String)
  deriving DecidableEq

/-- The `httparse` parsers say a head ends within the bytes they are given. What they
    accept as a method or a target `http::Method` or `http::Uri` may not. -/
structure Crates where
  parseRequest : Bytes → HeadStatus RequestParts
  parseResponse : Bytes → HeadStatus ResponseParts
  requestSize : ∀ buf size parts, parseRequest buf = .complete size parts → size ≤ buf.length
  responseSize : ∀ buf size parts, parseResponse buf = .complete size parts → size ≤ buf.length
  parseChunkSize : Bytes → ChunkStatus
  validMethod : Bytes → Bool
  validUri : Bytes → Bool
  canonicalReason : Nat → Option Bytes
  httpDate : Bytes

def minorVersion : Nat → Version
  | 1 => .http11
  | 0 => .http10
  | _ => .http09

/-! ## Fields -/

def lowerName (name : Bytes) : Bytes := name.map lowerByte

/-- `header_case` and `metadata.headers`, under the lower-case name. -/
structure Fields where
  headerCase : HeaderMap Bytes Bytes
  headers : HeaderMap Bytes Bytes
  aligned : headerCase.shape = headers.shape
  named : ∀ e ∈ headerCase.iter, lowerName e.2 = e.1

namespace Fields

def empty : Fields := ⟨.empty, .empty, rfl, fun _ h => by cases h⟩

def appendHeader (f : Fields) (name value : Bytes) : Fields where
  headerCase := f.headerCase.append (lowerName name) name
  headers := f.headers.append (lowerName name) value
  aligned := HeaderMap.shape_append f.aligned _ _ _
  named := fun e he => (HeaderMap.mem_iter_append he).elim (f.named e) (fun h => by rw [h])

def insertHeader (f : Fields) (name value : Bytes) : Fields where
  headerCase := f.headerCase.insert (lowerName name) name
  headers := f.headers.insert (lowerName name) value
  aligned := HeaderMap.shape_insert f.aligned _ _ _
  named := fun e he => (HeaderMap.mem_iter_insert he).elim (f.named e) (fun h => by rw [h])

def getHeader (f : Fields) (name : Bytes) : Option Bytes := f.headers.get name

def getHeaders (f : Fields) (name : Bytes) : List Bytes := f.headers.getAll name

/-- Each field of a parsed head in turn, those without a name left out. -/
def ofParsed (l : List Field) : Fields :=
  l.foldl (fun f x => if x.name.isEmpty then f else f.appendHeader x.name x.value) empty

/-- The lines of two maps walked in step: `none` where their names part. -/
def lines : List ((Bytes × Bytes) × (Bytes × Bytes)) → Option Bytes
  | [] => some []
  | ((header, caseHeader), (header2, value)) :: rest =>
    if header ≠ header2 then none
    else (lines rest).map (caseHeader ++ ascii ": " ++ value ++ crlf ++ ·)

def build (f : Fields) : Option Bytes := lines (f.headerCase.iter.zip f.headers.iter)

/-- The fields as they are sent on: name and value. -/
def forwarded (f : Fields) : List (Bytes × Bytes) :=
  (f.headerCase.iter.zip f.headers.iter).map fun e => (e.1.2, e.2.2)

theorem lines_eq : ∀ l : List ((Bytes × Bytes) × (Bytes × Bytes)), (∀ e ∈ l, e.1.1 = e.2.1) →
    lines l = some (l.flatMap fun e => e.1.2 ++ ascii ": " ++ e.2.2 ++ crlf) := by
  intro l
  induction l with
  | nil => intro _; rfl
  | cons e l ih =>
    intro h
    obtain ⟨⟨a, b⟩, c, d⟩ := e
    have he : a = c := h _ (List.mem_cons_self ..)
    unfold lines
    rw [if_neg (by simp [he]), ih fun e he => h e (List.mem_cons_of_mem _ he)]
    rfl

theorem zip_keys : ∀ (as bs : List (Bytes × Bytes)), as.map Prod.fst = bs.map Prod.fst →
    ∀ e ∈ as.zip bs, e.1.1 = e.2.1 := by
  intro as
  induction as with
  | nil => intro bs _ e he; cases he
  | cons a as ih =>
    intro bs h e he
    cases bs with
    | nil => cases he
    | cons b bs =>
      rw [List.map_cons, List.map_cons, List.cons.injEq] at h
      rw [List.zip_cons_cons, List.mem_cons] at he
      rcases he with rfl | he
      · exact h.1
      · exact ih bs h.2 e he

/-- What is written is the fields sent on, a line each. -/
theorem build_eq (f : Fields) : f.build = some (f.forwarded.flatMap fun e => e.1 ++ ascii ": " ++ e.2 ++ crlf) := by
  unfold build forwarded
  rw [lines_eq _ (zip_keys _ _ (HeaderMap.iter_keys_eq f.aligned)), List.flatMap_map]

theorem zip_values (name : Bytes) : ∀ (as bs : List (Bytes × Bytes)), as.map Prod.fst = bs.map Prod.fst →
    (∀ e ∈ as, lowerName e.2 = e.1) →
    (((as.zip bs).map fun e => (e.1.2, e.2.2)).filter fun e => lowerName e.1 = name).map Prod.snd =
      (bs.filter fun e => e.1 = name).map Prod.snd := by
  intro as
  induction as with
  | nil =>
    intro bs h _
    obtain rfl : bs = [] := by simpa using h.symm
    rfl
  | cons a as ih =>
    intro bs h hn
    cases bs with
    | nil => simp at h
    | cons b bs =>
      rw [List.map_cons, List.map_cons, List.cons.injEq] at h
      have ih := ih bs h.2 fun e he => hn e (List.mem_cons_of_mem _ he)
      have ha : lowerName a.2 = b.1 := (hn a (List.mem_cons_self ..)).trans h.1
      simp only [List.zip_cons_cons, List.map_cons, List.filter_cons, ha]
      by_cases hb : b.1 = name
      · simp only [hb, decide_true, if_true, List.map_cons, ih]
      · simp only [hb, decide_false, Bool.false_eq_true, if_false, ih]

/-- The values sent on for a name are the values it has. -/
theorem forwarded_values (f : Fields) (name : Bytes) :
    (f.forwarded.filter fun e => lowerName e.1 = name).map Prod.snd = f.getHeaders name := by
  unfold forwarded getHeaders
  rw [zip_values name _ _ (HeaderMap.iter_keys_eq f.aligned) f.named]
  exact HeaderMap.getAll_eq_iter f.headers name

/-- So are those a recipient finds under it, in any letter case. -/
theorem valuesOf_forwarded (f : Fields) (name : Bytes) :
    Message.valuesOf name f.forwarded = f.getHeaders (lowerName name) := by
  rw [← f.forwarded_values]
  unfold Message.valuesOf
  congr 2
  funext e
  unfold eqIgnoreCase
  rw [Bool.beq_eq_decide_eq]
  rfl

/-- The values of a name are those of the parsed fields with that name, in order. -/
theorem getHeaders_ofParsed (name : Bytes) (hne : name ≠ []) (l : List Field) :
    (ofParsed l).getHeaders name = (l.filter fun x => lowerName x.name = name).map Field.value := by
  have step : ∀ (l : List Field) (f : Fields),
      (l.foldl (fun f x => if x.name.isEmpty then f else f.appendHeader x.name x.value) f).getHeaders name =
        f.getHeaders name ++ (l.filter fun x => lowerName x.name = name).map Field.value := by
    intro l
    induction l with
    | nil => intro f; simp
    | cons x l ih =>
      intro f
      rw [List.foldl_cons, ih]
      by_cases hx : x.name = []
      · have hl : ¬ lowerName x.name = name := by rw [hx]; exact fun h => hne h.symm
        rw [if_pos (by simp [hx]), List.filter_cons_of_neg (by simpa using hl)]
      · rw [if_neg (by simpa using hx)]
        by_cases hl : lowerName x.name = name
        · rw [List.filter_cons_of_pos (by simpa using hl), List.map_cons]
          simp only [getHeaders, appendHeader, hl, HeaderMap.getAll_append_self, List.append_assoc,
            List.singleton_append]
        · rw [List.filter_cons_of_neg (by simpa using hl)]
          simp only [getHeaders, appendHeader, HeaderMap.getAll_append_ne _ (Ne.symm hl)]
  exact step l empty

end Fields

/-! ## Heads -/

structure RequestHeader where
  method : Bytes
  rawPath : Bytes
  version : Version
  fields : Fields

namespace RequestHeader

def getHeader (h : RequestHeader) (name : Bytes) : Option Bytes := h.fields.getHeader name

def getHeaders (h : RequestHeader) (name : Bytes) : List Bytes := h.fields.getHeaders name

def buildToBuffer (h : RequestHeader) : Option Bytes :=
  h.fields.build.map fun ls => h.method ++ ascii " " ++ h.rawPath ++ ascii " " ++ h.version.raw ++ crlf ++ ls ++ crlf

theorem buildToBuffer_isSome (h : RequestHeader) : h.buildToBuffer.isSome := by
  unfold buildToBuffer; rw [Option.isSome_map, h.fields.build_eq]; rfl

end RequestHeader

structure ResponseHeader where
  status : Nat
  version : Version
  reasonPhrase : Option Bytes
  fields : Fields

namespace ResponseHeader

def getHeader (h : ResponseHeader) (name : Bytes) : Option Bytes := h.fields.getHeader name

def insertHeader (h : ResponseHeader) (name value : Bytes) : ResponseHeader :=
  { h with fields := h.fields.insertHeader name value }

/-- `StatusCode::is_informational`. -/
def isInformational (h : ResponseHeader) : Bool := 100 ≤ h.status && h.status < 200

variable (crates : Crates)

def setReasonPhrase (h : ResponseHeader) (reason : Option Bytes) : ResponseHeader :=
  if reason = crates.canonicalReason h.status then { h with reasonPhrase := none }
  else { h with reasonPhrase := reason }

def getReasonPhrase (h : ResponseHeader) : Option Bytes := h.reasonPhrase.or (crates.canonicalReason h.status)

def buildToBuffer (h : ResponseHeader) : Option Bytes :=
  h.fields.build.map fun ls => h.version.raw ++ ascii " " ++ threeDigits h.status ++ ascii " " ++
    (h.getReasonPhrase crates).getD [] ++ crlf ++ ls ++ crlf

theorem buildToBuffer_isSome (h : ResponseHeader) : (h.buildToBuffer crates).isSome := by
  unfold buildToBuffer; rw [Option.isSome_map, h.fields.build_eq]; rfl

end ResponseHeader

/-! ## Field names -/

def transferEncoding : Bytes := ascii "transfer-encoding"
def contentLength : Bytes := ascii "content-length"
def upgrade : Bytes := ascii "upgrade"
def expect : Bytes := ascii "expect"
def connection : Bytes := ascii "connection"

/-! ## Tasks -/

/-- What one session sends the other. Nothing sends a `Trailer`; it ends a response. -/
inductive Task where
  | header (h : ResponseHeader) (endStream : Bool)
  | body (bytes : Option Bytes) (endStream : Bool)
  | trailer
  | done
  | failed (e : IoError)

def Task.isEnd : Task → Bool
  | .header _ e => e
  | .body _ e => e
  | .trailer => true
  | .done => true
  | .failed _ => true

end Glaive.Session
