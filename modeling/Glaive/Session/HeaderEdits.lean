/-
  Glaive.Session.HeaderEdits — `append_header`, `insert_header` and `remove_header` on a
  head's two maps (`core/src/session/request.rs`, `response.rs`, `case.rs`).

  `HeaderCall.kept` is what the calls are for: one map that keeps each value with the
  name of the call that stored it, as that call wrote it. The two maps of a head are that
  map's names and its values (`Paired`), through every call (`HeaderCall.run_paired`), so
  they walk alike and `build_to_buffer` writes one line for each value
  (`header_calls_written`).
-/

import Glaive.Session.ReadHead

namespace Glaive.Session

open Glaive.Lib

/-! ## Names and values -/

theorem isTokenByte_lowerByte {b : Byte} (h : isTokenByte b = true) : isTokenByte (lowerByte b) = true := by
  unfold lowerByte
  split
  · have h1 : 94 ≤ b + 32 := by grind
    have h2 : b + 32 ≤ 122 := by grind
    simp [isTokenByte, h1, h2]
  · exact h

theorem lowerByte_lowerByte (b : Byte) : lowerByte (lowerByte b) = lowerByte b := by
  unfold lowerByte
  by_cases h : 65 ≤ b ∧ b ≤ 90
  · rw [if_pos h, if_neg (by grind)]
  · rw [if_neg h, if_neg h]

theorem all_token_lowerName {name : Bytes} (h : name.all isTokenByte = true) :
    (lowerName name).all isTokenByte = true := by
  rw [List.all_eq_true] at h ⊢
  intro b hb
  obtain ⟨c, hc, rfl⟩ := List.mem_map.mp hb
  exact isTokenByte_lowerByte (h c hc)

theorem lowerName_lowerName (name : Bytes) : lowerName (lowerName name) = lowerName name := by
  unfold lowerName
  rw [List.map_map]
  exact List.map_congr_left fun b _ => lowerByte_lowerByte b

/-- `http::HeaderName`. -/
structure HeaderName where
  text : Bytes
  nonempty : text ≠ []
  token : text.all isTokenByte = true
  lower : lowerName text = text

/-- `HeaderName::try_from` of a slice. -/
def HeaderName.tryFrom (name : Bytes) : Option HeaderName :=
  if h : name ≠ [] ∧ name.all isTokenByte = true ∧ name.length < 65536 then
    some ⟨lowerName name, by simpa [lowerName] using h.1, all_token_lowerName h.2.1, lowerName_lowerName name⟩
  else none

theorem HeaderName.tryFrom_some {name : Bytes} {n : HeaderName} (h : HeaderName.tryFrom name = some n) :
    n.text = lowerName name ∧ name ≠ [] ∧ name.all isTokenByte = true := by
  unfold HeaderName.tryFrom at h
  split at h
  · rename_i hn
    cases h
    exact ⟨rfl, hn.1, hn.2.1⟩
  · cases h

/-- What `HeaderValue` allows: a tab, and all but the controls. -/
def isValueByte (b : Byte) : Bool := b == 9 || (32 ≤ b && b != 127)

/-- `http::HeaderValue`. -/
structure HeaderValue where
  bytes : Bytes
  valid : bytes.all isValueByte = true

/-- `HeaderValue::try_from` of a text. -/
def HeaderValue.tryFrom (value : Bytes) : Option HeaderValue :=
  if h : value.all isValueByte = true then some ⟨value, h⟩ else none

theorem HeaderValue.tryFrom_some {value : Bytes} {v : HeaderValue} (h : HeaderValue.tryFrom value = some v) :
    v.bytes = value := by
  unfold HeaderValue.tryFrom at h
  split at h
  · cases h
    rfl
  · cases h

def titledNames : List String :=
  ["Age", "Cache-Control", "Connection", "Content-Type", "Content-Encoding", "Content-Length", "Date",
    "Transfer-Encoding", "Host", "Server", "Set-Cookie"]

/-- `titled_header_name_str`. -/
def titledHeaderNameStr (name : HeaderName) : Option Bytes :=
  (titledNames.map ascii).find? fun titled => lowerName titled == name.text

/-- What `append_header` and `insert_header` take as a name: a text, or a `HeaderName`. -/
inductive NameGiven where
  | written (name : Bytes)
  | headerName (name : HeaderName)

/-- `into_case_header_name`. -/
def NameGiven.intoCaseHeaderName : NameGiven → Bytes
  | .written name => name
  | .headerName name => (titledHeaderNameStr name).getD name.text

/-- What they take as a value: a text that is checked, or a `HeaderValue`. -/
inductive ValueGiven where
  | text (value : Bytes)
  | headerValue (value : HeaderValue)

def ValueGiven.bytes : ValueGiven → Bytes
  | .text value => value
  | .headerValue value => value.bytes

def ValueGiven.tryInto : ValueGiven → Option HeaderValue
  | .text value => HeaderValue.tryFrom value
  | .headerValue value => some value

theorem ValueGiven.tryInto_some {value : ValueGiven} {v : HeaderValue} (h : value.tryInto = some v) :
    v.bytes = value.bytes := by
  cases value with
  | text value => exact HeaderValue.tryFrom_some h
  | headerValue value => exact congrArg HeaderValue.bytes (Option.some.inj h).symm

/-! ## The calls -/

def Fields.removeHeader (f : Fields) (name : Bytes) : Fields where
  headerCase := f.headerCase.remove name
  headers := f.headers.remove name
  aligned := HeaderMap.shape_remove f.aligned name
  named := fun e he => f.named e (HeaderMap.mem_iter_remove he)

inductive HeaderCall where
  | appendHeader (name : NameGiven) (value : ValueGiven)
  | insertHeader (name : NameGiven) (value : ValueGiven)
  | removeHeader (name : Bytes)

namespace HeaderCall

/-- One call; `none` is a panic, where a conversion fails. A name that is none is not
    found. -/
def run (f : Fields) : HeaderCall → Option Fields
  | .appendHeader name value => do
    let caseHeaderName := name.intoCaseHeaderName
    let _ ← HeaderName.tryFrom caseHeaderName
    let headerValue ← value.tryInto
    return f.appendHeader caseHeaderName headerValue.bytes
  | .insertHeader name value => do
    let caseHeaderName := name.intoCaseHeaderName
    let _ ← HeaderName.tryFrom caseHeaderName
    let headerValue ← value.tryInto
    return f.insertHeader caseHeaderName headerValue.bytes
  | .removeHeader name =>
    match HeaderName.tryFrom name with
    | some headerName => some (f.removeHeader headerName.text)
    | none => some f

/-- The values that are there after a call, each with the name as its call wrote it. -/
def kept (m : HeaderMap Bytes (Bytes × Bytes)) : HeaderCall → HeaderMap Bytes (Bytes × Bytes)
  | .appendHeader name value => m.append (lowerName name.intoCaseHeaderName) (name.intoCaseHeaderName, value.bytes)
  | .insertHeader name value => m.insert (lowerName name.intoCaseHeaderName) (name.intoCaseHeaderName, value.bytes)
  | .removeHeader name =>
    match HeaderName.tryFrom name with
    | some headerName => m.remove headerName.text
    | none => m

end HeaderCall

/-- A head's maps are the names and the values of one. -/
structure Paired (f : Fields) (m : HeaderMap Bytes (Bytes × Bytes)) : Prop where
  headerCase : f.headerCase = m.map Prod.fst
  headers : f.headers = m.map Prod.snd

variable {f f' : Fields} {m : HeaderMap Bytes (Bytes × Bytes)} {crates : Crates}

theorem Paired.empty : Paired .empty .empty := ⟨HeaderMap.ext_entries rfl, HeaderMap.ext_entries rfl⟩

theorem Paired.append (h : Paired f m) (name value : Bytes) :
    Paired (f.appendHeader name value) (m.append (lowerName name) (name, value)) := by
  constructor
  · rw [HeaderMap.map_append, ← h.headerCase]
    rfl
  · rw [HeaderMap.map_append, ← h.headers]
    rfl

theorem Paired.insert (h : Paired f m) (name value : Bytes) :
    Paired (f.insertHeader name value) (m.insert (lowerName name) (name, value)) := by
  constructor
  · rw [HeaderMap.map_insert, ← h.headerCase]
    rfl
  · rw [HeaderMap.map_insert, ← h.headers]
    rfl

theorem Paired.remove (h : Paired f m) (name : Bytes) : Paired (f.removeHeader name) (m.remove name) := by
  constructor
  · rw [HeaderMap.map_remove, ← h.headerCase]
    rfl
  · rw [HeaderMap.map_remove, ← h.headers]
    rfl

theorem HeaderCall.run_paired {c : HeaderCall} (h : Paired f m) (hc : c.run f = some f') : Paired f' (c.kept m) := by
  cases c with
  | appendHeader name value =>
    obtain ⟨_, -, hc⟩ := Option.bind_eq_some_iff.mp hc
    obtain ⟨v, hv, hc⟩ := Option.bind_eq_some_iff.mp hc
    cases hc
    rw [ValueGiven.tryInto_some hv]
    exact h.append _ _
  | insertHeader name value =>
    obtain ⟨_, -, hc⟩ := Option.bind_eq_some_iff.mp hc
    obtain ⟨v, hv, hc⟩ := Option.bind_eq_some_iff.mp hc
    cases hc
    rw [ValueGiven.tryInto_some hv]
    exact h.insert _ _
  | removeHeader name =>
    simp only [HeaderCall.run] at hc
    simp only [HeaderCall.kept]
    cases hn : HeaderName.tryFrom name with
    | none =>
      rw [hn] at hc
      cases hc
      exact h
    | some n =>
      rw [hn] at hc
      cases hc
      exact h.remove _

/-- The calls in turn. -/
def runCalls (f : Fields) : List HeaderCall → Option Fields
  | [] => some f
  | c :: cs => (c.run f).bind (runCalls · cs)

def keptBy (calls : List HeaderCall) (m : HeaderMap Bytes (Bytes × Bytes)) : HeaderMap Bytes (Bytes × Bytes) :=
  calls.foldl HeaderCall.kept m

theorem runCalls_paired : ∀ {calls : List HeaderCall} {f f' : Fields} {m : HeaderMap Bytes (Bytes × Bytes)},
    Paired f m → runCalls f calls = some f' → Paired f' (keptBy calls m) := by
  intro calls
  induction calls with
  | nil =>
    intro f f' m h hr
    cases hr
    exact h
  | cons c cs ih =>
    intro f f' m h hr
    obtain ⟨g, hc, hr⟩ := Option.bind_eq_some_iff.mp hr
    exact ih (c.run_paired h hc) hr

/-- The line of a name and a value. -/
def fieldLine (caseHeader value : Bytes) : Bytes := caseHeader ++ ascii ": " ++ value ++ crlf

theorem Paired.forwarded (h : Paired f m) : f.forwarded = m.iter.map Prod.snd := by
  unfold Fields.forwarded
  rw [h.headerCase, h.headers, HeaderMap.iter_map, HeaderMap.iter_map, List.zip_map']
  simp [Function.comp_def]

theorem Paired.build (h : Paired f m) : f.build = some (m.iter.flatMap fun e => fieldLine e.2.1 e.2.2) := by
  rw [f.build_eq, h.forwarded, List.flatMap_map]
  rfl

/-! ## Heads -/

/-- `RequestHeader::build`; `none` is a panic. The size is only a capacity. -/
def RequestHeader.build (crates : Crates) (method rawPath : Bytes) (version : Version) : Option RequestHeader :=
  if crates.validMethod method && crates.validUri rawPath then some ⟨method, rawPath, version, .empty⟩ else none

/-- `ResponseHeader::build`. -/
def ResponseHeader.build (statusCode : Nat) (version : Version) : Option ResponseHeader :=
  if 100 ≤ statusCode && statusCode < 1000 then some ⟨statusCode, version, none, .empty⟩ else none

def RequestHeader.runCalls (h : RequestHeader) (calls : List HeaderCall) : Option RequestHeader :=
  (Session.runCalls h.fields calls).map fun fields => { h with fields }

def ResponseHeader.runCalls (h : ResponseHeader) (calls : List HeaderCall) : Option ResponseHeader :=
  (Session.runCalls h.fields calls).map fun fields => { h with fields }

/-- The two maps walk over the same names, and over the values that are there, each
    beside its name as its call wrote it. -/
structure Walks (f : Fields) (m : HeaderMap Bytes (Bytes × Bytes)) : Prop where
  names : f.headerCase.iter.map Prod.fst = f.headers.iter.map Prod.fst
  headerCase : f.headerCase.iter = m.iter.map fun e => (e.1, e.2.1)
  headers : f.headers.iter = m.iter.map fun e => (e.1, e.2.2)

theorem Paired.walks (h : Paired f m) : Walks f m := by
  refine ⟨HeaderMap.iter_keys_eq f.aligned, ?_, ?_⟩
  · rw [h.headerCase, HeaderMap.iter_map]
  · rw [h.headers, HeaderMap.iter_map]

/-- For every head that is built and then changed by any calls: the maps walk alike, and
    the head is written with one line for each value that is there, under its name as
    the call that stored it wrote it. -/
theorem header_calls_written (crates : Crates) (calls : List HeaderCall) :
    (∀ method rawPath version h0 h, RequestHeader.build crates method rawPath version = some h0 →
      h0.runCalls calls = some h → Walks h.fields (keptBy calls .empty) ∧
        h.buildToBuffer = some (method ++ ascii " " ++ rawPath ++ ascii " " ++ version.raw ++ crlf ++
          ((keptBy calls .empty).iter.flatMap fun e => fieldLine e.2.1 e.2.2) ++ crlf)) ∧
      ∀ statusCode version h0 h, ResponseHeader.build statusCode version = some h0 →
        h0.runCalls calls = some h → Walks h.fields (keptBy calls .empty) ∧
          h.buildToBuffer crates = some (version.raw ++ ascii " " ++ threeDigits statusCode ++ ascii " " ++
            (crates.canonicalReason statusCode).getD [] ++ crlf ++
            ((keptBy calls .empty).iter.flatMap fun e => fieldLine e.2.1 e.2.2) ++ crlf) := by
  constructor
  · intro method rawPath version h0 h hb hr
    unfold RequestHeader.build at hb
    split at hb
    · cases hb
      obtain ⟨g, hg, rfl⟩ := Option.map_eq_some_iff.mp hr
      have hp := runCalls_paired Paired.empty hg
      refine ⟨hp.walks, ?_⟩
      unfold RequestHeader.buildToBuffer
      rw [hp.build]
      rfl
    · cases hb
  · intro statusCode version h0 h hb hr
    unfold ResponseHeader.build at hb
    split at hb
    · cases hb
      obtain ⟨g, hg, rfl⟩ := Option.map_eq_some_iff.mp hr
      have hp := runCalls_paired Paired.empty hg
      refine ⟨hp.walks, ?_⟩
      unfold ResponseHeader.buildToBuffer
      rw [hp.build]
      rfl
    · cases hb

/-! ## A name taken out from the front -/

/-- The last name comes into the place of the one that is taken out. -/
def removedCalls : List HeaderCall :=
  [.appendHeader (.written (ascii "x-One")) (.text (ascii "1")),
    .appendHeader (.written (ascii "AGE")) (.text (ascii "2")),
    .appendHeader (.written (ascii "X-ONE")) (.text (ascii "3")),
    .insertHeader (.written (ascii "b")) (.text (ascii "4")),
    .appendHeader (.written (ascii "Age")) (.text (ascii "5")),
    .removeHeader (ascii "X-one")]

example : (keptBy removedCalls .empty).iter =
    [(ascii "b", ascii "b", ascii "4"), (ascii "age", ascii "AGE", ascii "2"), (ascii "age", ascii "Age", ascii "5")] := by
  decide

theorem header_calls_written_removed :
    ∃ h, (⟨ascii "GET", ascii "/", .http11, .empty⟩ : RequestHeader).runCalls removedCalls = some h ∧
      Walks h.fields (keptBy removedCalls .empty) ∧
      h.buildToBuffer = some (ascii "GET" ++ ascii " " ++ ascii "/" ++ ascii " " ++ Version.http11.raw ++ crlf ++
        ((keptBy removedCalls .empty).iter.flatMap fun e => fieldLine e.2.1 e.2.2) ++ crlf) := by
  obtain ⟨h, hr⟩ := Option.isSome_iff_exists.mp
    (show ((⟨ascii "GET", ascii "/", .http11, .empty⟩ : RequestHeader).runCalls removedCalls).isSome = true by decide)
  exact ⟨h, hr, (header_calls_written (.ofTables [] []) removedCalls).1 _ _ _ _ h (by rfl) hr⟩

end Glaive.Session
