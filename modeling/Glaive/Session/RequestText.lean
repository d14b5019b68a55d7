/-
  Glaive.Session.RequestText — a request head that was read and then changed, written and
  read again (`core/src/session/request.rs`: `RequestHeader`).

  A head keeps its target twice, as `metadata.uri` and as `raw_path`. `get_uri` shows the
  first and `set_uri` changes it; `build_to_buffer` writes the second, which nothing
  changes. And a value is written as it is stored, with the blanks at its ends, which a
  reader takes off. `request_read_back_iff`: what is read again is what the head shows
  exactly when neither comes in.
-/

import Glaive.Lib.HeadText
import Glaive.Session.DownstreamProofs
import Glaive.Session.HeaderEdits

namespace Glaive.Session

open Glaive.Lib
open Glaive.Lib.Head (RequestText headText requestLine readRequestHead minorOf trimmed)
open Glaive.Lib.Message (trimBlanks valuesOf)

/-! ## Fields on the wire -/

/-- What `httparse` takes in a target. -/
def isTargetByte (b : Byte) : Bool := 33 ≤ b && b != 127

theorem ne_breaks {p : Byte → Bool} (hcr : p cr = false) (hlf : p lf = false) {b : Byte} (h : p b = true) :
    b ≠ cr ∧ b ≠ lf := by
  constructor
  · rintro rfl
    exact Bool.false_ne_true (hcr.symm.trans h)
  · rintro rfl
    exact Bool.false_ne_true (hlf.symm.trans h)

theorem isTokenByte_break {b : Byte} (h : isTokenByte b = true) : b ≠ cr ∧ b ≠ lf :=
  ne_breaks (by decide) (by decide) h

theorem isTargetByte_break {b : Byte} (h : isTargetByte b = true) : b ≠ cr ∧ b ≠ lf :=
  ne_breaks (by decide) (by decide) h

theorem isValueByte_break {b : Byte} (h : isValueByte b = true) : b ≠ cr ∧ b ≠ lf :=
  ne_breaks (by decide) (by decide) h

theorem isTokenByte_colon : isTokenByte 58 = false := by decide

theorem isTokenByte_space : isTokenByte 32 = false := by decide

theorem isTargetByte_space : isTargetByte 32 = false := by decide

/-- What a head is made of. -/
def headAlphabet : Head.Alphabet where
  name := isTokenByte
  target := isTargetByte
  value := isValueByte
  colon := isTokenByte_colon
  nameSpace := isTokenByte_space
  targetSpace := isTargetByte_space
  nameBreak _ := isTokenByte_break
  targetBreak _ := isTargetByte_break
  valueBreak _ := isValueByte_break

namespace Fields

variable {f f' : Fields}

/-- Two maps with the same shape, put together value by value. -/
def pairUp : List (Bytes × List Bytes) → List (Bytes × List Bytes) → List (Bytes × List (Bytes × Bytes)) :=
  List.zipWith fun a b => (a.1, a.2.zip b.2)

theorem pairUp_parts : ∀ {as bs : List (Bytes × List Bytes)},
    as.map (fun e => (e.1, e.2.length)) = bs.map (fun e => (e.1, e.2.length)) →
    (pairUp as bs).map (fun e => (e.1, e.2.map Prod.fst)) = as ∧
      (pairUp as bs).map (fun e => (e.1, e.2.map Prod.snd)) = bs := by
  intro as
  induction as with
  | nil =>
    intro bs h
    obtain rfl : bs = [] := by simpa using h.symm
    exact ⟨rfl, rfl⟩
  | cons a as ih =>
    intro bs h
    cases bs with
    | nil => cases h
    | cons b bs =>
      rw [List.map_cons, List.map_cons, List.cons.injEq, Prod.mk.injEq] at h
      obtain ⟨⟨hname, hlen⟩, hrest⟩ := h
      obtain ⟨h1, h2⟩ := ih hrest
      unfold pairUp at h1 h2 ⊢
      rw [List.zipWith_cons_cons, List.map_cons, List.map_cons, h1, h2]
      constructor
      · rw [List.map_fst_zip (by omega)]
      · rw [List.map_snd_zip (by omega), hname]

/-- Each value of a head beside its name as it was written. -/
def pairs (f : Fields) : HeaderMap Bytes (Bytes × Bytes) where
  entries := pairUp f.headerCase.entries f.headers.entries
  nodup := by
    have h := congrArg (List.map Prod.fst) (pairUp_parts f.aligned).1
    rw [List.map_map] at h
    exact h ▸ f.headerCase.nodup

theorem paired (f : Fields) : Paired f f.pairs :=
  ⟨HeaderMap.ext_entries (pairUp_parts f.aligned).1.symm, HeaderMap.ext_entries (pairUp_parts f.aligned).2.symm⟩

theorem of_pairs {k : Bytes} {e : Bytes × Bytes} (h : (k, e) ∈ f.pairs.iter) : e ∈ f.forwarded := by
  rw [f.paired.forwarded]
  exact List.mem_map.mpr ⟨_, h, rfl⟩

theorem mem_forwarded_append {name value : Bytes} {e : Bytes × Bytes}
    (h : e ∈ (f.appendHeader name value).forwarded) : e ∈ f.forwarded ∨ e = (name, value) := by
  rw [(f.paired.append name value).forwarded] at h
  obtain ⟨x, hx, rfl⟩ := List.mem_map.mp h
  rcases HeaderMap.mem_iter_append hx with hx | rfl
  · exact .inl (of_pairs hx)
  · exact .inr rfl

/-- What is forwarded of a parsed head are its fields. -/
theorem mem_forwarded_ofParsed {l : List Field} {e : Bytes × Bytes} (h : e ∈ (ofParsed l).forwarded) :
    ∃ x ∈ l, x.name ≠ [] ∧ e = (x.name, x.value) := by
  have step : ∀ (l : List Field) (f : Fields),
      e ∈ (l.foldl (fun f x => if x.name.isEmpty then f else f.appendHeader x.name x.value) f).forwarded →
      e ∈ f.forwarded ∨ ∃ x ∈ l, x.name ≠ [] ∧ e = (x.name, x.value) := by
    intro l
    induction l with
    | nil => exact fun f h => .inl h
    | cons x l ih =>
      intro f h
      rw [List.foldl_cons] at h
      rcases ih _ h with h | ⟨y, hy, hxy⟩
      · by_cases hx : x.name.isEmpty = true
        · rw [if_pos hx] at h
          exact .inl h
        · rw [if_neg hx] at h
          rcases mem_forwarded_append h with h | rfl
          · exact .inl h
          · exact .inr ⟨x, List.mem_cons_self .., by simpa using hx, rfl⟩
      · exact .inr ⟨y, List.mem_cons_of_mem _ hy, hxy⟩
  rcases step l empty h with h | h
  · cases h
  · exact h

theorem valuesOf_trimmed (name : Bytes) (l : List (Bytes × Bytes)) :
    valuesOf name (l.map trimmed) = (valuesOf name l).map trimBlanks := by
  unfold valuesOf
  rw [List.filter_map, List.map_map, List.map_map]
  rfl

/-- The values come through trimming just if none has a blank at an end. -/
theorem trimmed_values_iff (f : Fields) :
    (∀ name, valuesOf name (f.forwarded.map trimmed) = f.getHeaders (lowerName name)) ↔
      ∀ e ∈ f.forwarded, trimBlanks e.2 = e.2 := by
  constructor
  · intro h e he
    have hv := h e.1
    rw [valuesOf_trimmed, ← f.valuesOf_forwarded] at hv
    have hm : e.2 ∈ valuesOf e.1 f.forwarded :=
      List.mem_map.mpr ⟨e, List.mem_filter.mpr ⟨he, by simp [eqIgnoreCase]⟩, rfl⟩
    rw [← List.map_id (valuesOf e.1 f.forwarded), List.map_map] at hv
    exact List.map_inj_left.mp hv e.2 hm
  · intro h name
    have hid : f.forwarded.map trimmed = f.forwarded := by
      conv => rhs; rw [← List.map_id f.forwarded]
      exact List.map_congr_left fun e he => Prod.ext rfl (h e he)
    rw [hid, f.valuesOf_forwarded]

end Fields

/-- A call gives what was there, or a name and a value that conversions have passed. -/
theorem HeaderCall.run_forwarded {f f' : Fields} {c : HeaderCall} (hc : c.run f = some f') :
    ∀ e ∈ f'.forwarded, e ∈ f.forwarded ∨ headAlphabet.Holds e := by
  intro e he
  rw [(c.run_paired f.paired hc).forwarded] at he
  obtain ⟨x, hx, rfl⟩ := List.mem_map.mp he
  have given : ∀ {name : NameGiven} {value : ValueGiven} {g : HeaderName → HeaderValue → Option Fields},
      ((HeaderName.tryFrom name.intoCaseHeaderName).bind fun n => value.tryInto.bind fun v => g n v) = some f' →
      headAlphabet.Holds (name.intoCaseHeaderName, value.bytes) := by
    intro name value g hg
    obtain ⟨n, hn, hg⟩ := Option.bind_eq_some_iff.mp hg
    obtain ⟨v, hv, -⟩ := Option.bind_eq_some_iff.mp hg
    obtain ⟨-, hne, htok⟩ := HeaderName.tryFrom_some hn
    exact ⟨hne, htok, ValueGiven.tryInto_some hv ▸ v.valid⟩
  cases c with
  | appendHeader name value =>
    rcases HeaderMap.mem_iter_append hx with hx | rfl
    · exact .inl (Fields.of_pairs hx)
    · exact .inr (given hc)
  | insertHeader name value =>
    rcases HeaderMap.mem_iter_insert hx with hx | rfl
    · exact .inl (Fields.of_pairs hx)
    · exact .inr (given hc)
  | removeHeader name =>
    refine .inl (Fields.of_pairs (k := x.1) ?_)
    simp only [HeaderCall.kept] at hx
    split at hx
    · exact HeaderMap.mem_iter_remove hx
    · exact hx

/-! ## The request head -/

/-- `http::Method`. -/
structure Method where
  text : Bytes
  nonempty : text ≠ []
  token : text.all isTokenByte = true

/-- The head with `metadata.uri`, as its text. -/
structure RequestHead extends RequestHeader where
  uri : Bytes

inductive RequestCall where
  | setMethod (method : Method)
  | setUri (uri : Bytes)
  | setVersion (version : Version)
  | header (call : HeaderCall)

def RequestCall.run (h : RequestHead) : RequestCall → Option RequestHead
  | .setMethod method => some { h with method := method.text }
  | .setUri uri => some { h with uri }
  | .setVersion version => some { h with version }
  | .header call => (call.run h.fields).map fun fields => { h with fields }

/-- The calls in turn; `none` is a panic of one. -/
def RequestHead.run (h : RequestHead) : List RequestCall → Option RequestHead
  | [] => some h
  | c :: cs => (c.run h).bind (RequestHead.run · cs)

/-- The URI after the calls: the last one set. -/
def uriSet (calls : List RequestCall) (uri : Bytes) : Bytes :=
  calls.foldl (fun uri c => match c with | .setUri uri => uri | _ => uri) uri

def headerCalls (calls : List RequestCall) : List HeaderCall :=
  calls.filterMap fun c => match c with | .header call => some call | _ => none

/-- What `httparse` says of a request head it accepts. -/
structure RequestsParsed (crates : Crates) : Prop where
  method : ∀ buf size parts, crates.parseRequest buf = .complete size parts →
    parts.method ≠ [] ∧ parts.method.all isTokenByte = true
  path : ∀ buf size parts, crates.parseRequest buf = .complete size parts →
    parts.path ≠ [] ∧ parts.path.all isTargetByte = true
  version : ∀ buf size parts, crates.parseRequest buf = .complete size parts → parts.version ≤ 1
  values : ∀ buf size parts, crates.parseRequest buf = .complete size parts →
    ∀ x ∈ parts.headers, x.value.all isValueByte = true

/-- `read_request` has taken a head, whose target parses to a URI with this text. -/
structure Accepted (crates : Crates) (uriOf : Bytes → Bytes) (d d' : Downstream) (h : RequestHead) : Prop where
  ok : Downstream.readRequest crates d = (.ok (), d')
  taken : d'.buffer ≠ []
  head : d'.requestHeader = some h.toRequestHeader
  uri : h.uri = uriOf h.rawPath

variable {crates : Crates} {uriOf : Bytes → Bytes} {d d' : Downstream} {h h' : RequestHead}
variable {calls : List RequestCall}

theorem Accepted.parsed (ha : Accepted crates uriOf d d' h) :
    ∃ buf size parts, crates.parseRequest buf = .complete size parts ∧
      h.toRequestHeader = Downstream.requestHeaderOf parts := by
  have hok := ha.ok
  by_cases hr : ∃ x rest, Session.readHead crates.parseRequest [] d.stream.input = (.ok x, rest)
  · obtain ⟨x, rest, hr⟩ := hr
    cases x with
    | none =>
      cases (Downstream.readRequest_closed hr).symm.trans hok
      exact absurd rfl ha.taken
    | some x =>
      obtain ⟨buf, size, parts⟩ := x
      rcases Downstream.readRequest_head hr with ⟨-, -, ho⟩ | ⟨-, _, _, hpanic⟩
      · cases ho.symm.trans hok
        exact ⟨buf, size, parts, (readHead_some hr).1, (Option.some.inj ha.head).symm⟩
      · cases hpanic.symm.trans hok
  · rcases Downstream.readRequest_stops fun x rest hx => hr ⟨x, rest, hx⟩ with ⟨_, _, he⟩ | ⟨_, he⟩
    · cases he.symm.trans hok
    · cases he.symm.trans hok

/-! ## Written -/

/-- A head that can be written in the grammar. -/
structure Writable (h : RequestHeader) : Prop where
  method : h.method ≠ [] ∧ h.method.all isTokenByte = true
  path : h.rawPath ≠ [] ∧ h.rawPath.all isTargetByte = true
  version : h.version ≠ .http09
  fields : ∀ e ∈ h.fields.forwarded, headAlphabet.Holds e

theorem Accepted.writable (hp : RequestsParsed crates) (ha : Accepted crates uriOf d d' h) :
    Writable h.toRequestHeader := by
  obtain ⟨buf, size, parts, hparse, hparts⟩ := ha.parsed
  rw [hparts]
  refine ⟨hp.method _ _ _ hparse, hp.path _ _ _ hparse, ?_, ?_⟩
  · have hv := hp.version _ _ _ hparse
    show minorVersion parts.version ≠ .http09
    generalize parts.version = n at hv
    match n, hv with
    | 0, _ => decide
    | 1, _ => decide
  · intro e he
    obtain ⟨x, hx, hne, rfl⟩ := Fields.mem_forwarded_ofParsed he
    exact ⟨hne, x.token, hp.values _ _ _ hparse x hx⟩

/-- A call that sets no version but 1.0 and 1.1. -/
def RequestCall.Http1 (c : RequestCall) : Prop := c ≠ .setVersion .http09

theorem RequestCall.run_writable {c : RequestCall} (hc : c.run h = some h') (hv : c.Http1)
    (hw : Writable h.toRequestHeader) : Writable h'.toRequestHeader := by
  cases c with
  | setMethod method =>
    cases hc
    exact ⟨⟨method.nonempty, method.token⟩, hw.path, hw.version, hw.fields⟩
  | setUri uri =>
    cases hc
    exact ⟨hw.method, hw.path, hw.version, hw.fields⟩
  | setVersion version =>
    cases hc
    exact ⟨hw.method, hw.path, fun he => hv (congrArg RequestCall.setVersion he), hw.fields⟩
  | header call =>
    obtain ⟨fields, hf, rfl⟩ := Option.map_eq_some_iff.mp hc
    refine ⟨hw.method, hw.path, hw.version, fun e he => ?_⟩
    rcases HeaderCall.run_forwarded hf e he with he | he
    · exact hw.fields e he
    · exact he

/-- What calls leave: the target as it was read, the last URI, and the fields of the
    calls on them. -/
theorem RequestHead.run_spec : ∀ {calls : List RequestCall} {h h' : RequestHead}, h.run calls = some h' →
    (∀ c ∈ calls, c.Http1) → Writable h.toRequestHeader →
    Writable h'.toRequestHeader ∧ h'.rawPath = h.rawPath ∧ h'.uri = uriSet calls h.uri ∧
      runCalls h.fields (headerCalls calls) = some h'.fields := by
  intro calls
  induction calls with
  | nil =>
    intro h h' hr _ hw
    cases hr
    exact ⟨hw, rfl, rfl, rfl⟩
  | cons c cs ih =>
    intro h h' hr hv hw
    rw [List.forall_mem_cons] at hv
    obtain ⟨g, hc, hr⟩ := Option.bind_eq_some_iff.mp hr
    obtain ⟨hw', hpath, huri, hfields⟩ := ih hr hv.2 (c.run_writable hc hv.1 hw)
    cases c with
    | setMethod method =>
      cases hc
      exact ⟨hw', hpath, huri, hfields⟩
    | setUri uri =>
      cases hc
      exact ⟨hw', hpath, huri, hfields⟩
    | setVersion version =>
      cases hc
      exact ⟨hw', hpath, huri, hfields⟩
    | header call =>
      obtain ⟨fields, hf, rfl⟩ := Option.map_eq_some_iff.mp hc
      exact ⟨hw', hpath, huri, Option.bind_eq_some_iff.mpr ⟨fields, hf, hfields⟩⟩

theorem minorOf_raw {v : Version} (h : v ≠ .http09) : ∃ minor, minorOf v.raw = some minor ∧ minorVersion minor = v := by
  cases v with
  | http09 => exact absurd rfl h
  | http10 => exact ⟨0, by decide, rfl⟩
  | http11 => exact ⟨1, by decide, rfl⟩

theorem RequestHeader.buildToBuffer_eq (h : RequestHeader) :
    h.buildToBuffer = some (headText (requestLine h.method h.rawPath h.version.raw) h.fields.forwarded) := by
  unfold RequestHeader.buildToBuffer
  rw [h.fields.build_eq]
  rfl

/-- What is read again is what the head shows. -/
structure Shows (h : RequestHead) (t : RequestText) : Prop where
  method : t.method = h.method
  target : t.target = h.uri
  version : minorVersion t.minor = h.version
  values : ∀ name, valuesOf name t.fields = h.getHeaders (lowerName name)

/-- A head that was written and reads back as the head shows it. -/
def ReadsBack (h : RequestHead) : Prop :=
  ∃ text t, h.buildToBuffer = some text ∧ readRequestHead headAlphabet text = some t ∧ Shows h t

theorem Writable.readsBack_iff (hw : Writable h.toRequestHeader) :
    ReadsBack h ↔ h.uri = h.rawPath ∧ ∀ e ∈ h.fields.forwarded, trimBlanks e.2 = e.2 := by
  obtain ⟨minor, hminor, hv⟩ := minorOf_raw hw.version
  have hread := Head.readRequestHead_headText (A := headAlphabet) hw.method.1 hw.method.2 hw.path.1 hw.path.2 hminor
    hw.fields
  rw [← h.fields.trimmed_values_iff]
  constructor
  · intro hb
    obtain ⟨text, t, hbuild, ht, hs⟩ := hb
    cases (h.toRequestHeader.buildToBuffer_eq).symm.trans hbuild
    cases hread.symm.trans ht
    exact ⟨hs.target.symm, hs.values⟩
  · intro hb
    exact ⟨_, _, h.toRequestHeader.buildToBuffer_eq, hread, rfl, hb.1.symm, hv, hb.2⟩

/-- For every accepted head and all calls that return: what is written reads back as the
    head shows it exactly when the URI it shows is the target that was read, and no value
    that is left has a blank at an end. -/
theorem request_read_back_iff (hp : RequestsParsed crates) (ha : Accepted crates uriOf d d' h)
    (hv : ∀ c ∈ calls, c.Http1) (hr : h.run calls = some h') :
    ReadsBack h' ↔ uriSet calls (uriOf h.rawPath) = h.rawPath ∧
      ∀ e ∈ (keptBy (headerCalls calls) h.fields.pairs).iter, trimBlanks e.2.2 = e.2.2 := by
  obtain ⟨hw, hpath, huri, hfields⟩ := RequestHead.run_spec hr hv (ha.writable hp)
  rw [hw.readsBack_iff, huri, hpath, ha.uri, (runCalls_paired h.fields.paired hfields).forwarded]
  exact and_congr_right fun _ => List.forall_mem_map

/-! ## A URI that is set -/

def getA : Bytes × RequestParts := (ascii "GET /a HTTP/1.1\r\n\r\n", ⟨ascii "GET", ascii "/a", 1, []⟩)

def getASession : Downstream := .new ⟨[.data getA.1], [], []⟩ fun _ => 0

def getAHead : RequestHead := { Downstream.requestHeaderOf getA.2 with uri := ascii "/a" }

theorem getA_parsed : RequestsParsed (.ofTables [getA] []) := by
  have hmem : ∀ buf size parts, (Crates.ofTables [getA] []).parseRequest buf = .complete size parts → parts = getA.2 := by
    intro buf size parts h
    obtain ⟨e, he, hp⟩ := parseTable_mem h
    rw [List.mem_singleton] at he
    rw [← hp, he]
  constructor <;>
  · intro buf size parts h
    rw [hmem buf size parts h]
    decide

theorem getA_accepted : Accepted (.ofTables [getA] []) id getASession (getASession.opened [] getA.1 19 getA.2) getAHead := by
  have hr : Session.readHead (Crates.ofTables [getA] []).parseRequest [] getASession.stream.input =
      (.ok (some (getA.1, 19, getA.2)), []) := by rfl
  refine ⟨?_, by decide, rfl, rfl⟩
  rcases @Downstream.readRequest_head (.ofTables [getA] []) getASession _ _ _ _ hr with ⟨-, -, hok⟩ | ⟨hno, -⟩
  · exact hok
  · exact absurd ⟨rfl, rfl⟩ hno

/-- `get_uri` shows `/b`, and `/a` is written. -/
theorem uri_set_not_written : ¬ ∀ (crates : Crates) (uriOf : Bytes → Bytes) (d d' : Downstream) (h h' : RequestHead)
    (calls : List RequestCall), RequestsParsed crates → Accepted crates uriOf d d' h → (∀ c ∈ calls, c.Http1) →
    h.run calls = some h' → ReadsBack h' := by
  intro hall
  have hback := hall _ _ _ _ _ { getAHead with uri := ascii "/b" } [.setUri (ascii "/b")] getA_parsed getA_accepted
    (by simp [RequestCall.Http1]) rfl
  have huri := ((getA_accepted.writable getA_parsed).readsBack_iff (h := { getAHead with uri := ascii "/b" })).mp hback
  exact absurd huri.1 (by decide)

theorem post_nonempty : ascii "POST" ≠ [] := by decide

theorem post_token : (ascii "POST").all isTokenByte = true := by decide

/-- The method and a field changed. -/
def postedCalls : List RequestCall :=
  [.setMethod ⟨ascii "POST", post_nonempty, post_token⟩,
    .header (.appendHeader (.written (ascii "X-Key")) (.text (ascii "k")))]

theorem request_read_back_posted : ∃ h', getAHead.run postedCalls = some h' ∧
    (ReadsBack h' ↔ uriSet postedCalls (id getAHead.rawPath) = getAHead.rawPath ∧
      ∀ e ∈ (keptBy (headerCalls postedCalls) getAHead.fields.pairs).iter, trimBlanks e.2.2 = e.2.2) := by
  obtain ⟨h', hr⟩ := Option.isSome_iff_exists.mp (show (getAHead.run postedCalls).isSome = true by decide)
  exact ⟨h', hr, request_read_back_iff getA_parsed getA_accepted (by simp [postedCalls, RequestCall.Http1]) hr⟩

end Glaive.Session
