/-
  Glaive.Session.ResponseTaken — which of the server's bytes a response has taken
  (`core/src/session/upstream.rs`: `read_upstream_response`; `reader.rs`).

  While a response is read, the bytes taken are informational heads, or they are the
  heads and the front of a body (`Taking`). A call that brings no byte past the message
  (`ReadsOn`) keeps that, and the call that ends the response has taken the whole of it
  (`Taking.read`).
-/

import Glaive.Lib.MessageFraming
import Glaive.Session.Interruptions
import Glaive.Session.ResponseReading

namespace Glaive.Session

open Glaive.Lib
open Glaive.Lib.Async
open Glaive.Lib.Chunked (Local Skim WholeBody EndsBody crlfAfterData)
open Glaive.Lib.Message (Framing)
open Glaive.Session.BodyReader (Between Feeds)

namespace Upstream

variable {crates : Crates} {req : RequestHeader} {u u' v : Upstream}

/-! ## A whole response -/

/-- Where the body of a response ends, by the request, the status and the fields. -/
def framingOf (req : RequestHeader) (h : ResponseHeader) : Option Framing :=
  Message.responseFraming (decide (Bodiless req h)) h.fields.forwarded

/-- `Connection: close`. -/
def CarriesClose (h : ResponseHeader) : Prop :=
  ∃ x ∈ Message.elements (h.fields.getHeaders connection), eqIgnoreCase x (ascii "close") = true

/-- `text` is a response head, and `h` what the session makes of it. -/
def IsAnswer (crates : Crates) (text : Bytes) (h : ResponseHeader) : Prop :=
  ∃ more parts, crates.parseResponse (text ++ more) = .complete text.length parts ∧
    responseHeaderOf crates parts = some h

/-- Informational heads, none of them a 101. -/
inductive Interims (crates : Crates) : Bytes → Prop
  | nil : Interims crates []
  | snoc {front text : Bytes} {h : ResponseHeader} : Interims crates front → IsAnswer crates text h →
      h.isInformational = true → h.status ≠ 101 → Interims crates (front ++ text)

/-- Informational heads and a final head, under which the body is framed by `f` and the
    connection stays open. -/
inductive Heads (crates : Crates) (req : RequestHeader) : Bytes → Framing → Prop
  | mk {front text : Bytes} {h : ResponseHeader} {f : Framing} : Interims crates front → IsAnswer crates text h →
      200 ≤ h.status → ¬ CarriesClose h → framingOf req h = some f → Heads crates req (front ++ text) f

/-- A whole response body as it stands on the wire. -/
def WholeResponseBody (crates : Crates) : Framing → Bytes → Prop
  | .length n, body => body.length = n
  | .chunked, body => WholeBody crates.parseChunkSize body

def WholeResponse (crates : Crates) (req : RequestHeader) (bs : Bytes) : Prop :=
  ∃ heads body f, Heads crates req heads f ∧ WholeResponseBody crates f body ∧ bs = heads ++ body

/-! ## Calls that take no byte past the message -/

/-- The session reads the framing `f` off the fields. -/
def ReadsFraming (h : ResponseHeader) : Framing → Prop
  | .chunked => Utils.isHeaderValueChunkEncoding (h.getHeader transferEncoding) = true
  | .length n => Utils.isHeaderValueChunkEncoding (h.getHeader transferEncoding) = false ∧
      Utils.getContentLengthValue (h.getHeader contentLength) = some n

/-- A head came with `surplus` behind it, and `toCome` is still to be read. -/
inductive HeadReadsOn (crates : Crates) (req : RequestHeader) (h : ResponseHeader) (surplus toCome : Bytes) : Prop
  /-- What comes behind an informational head is lost, and a `HEAD` request ends with it. -/
  | interim : h.isInformational = true → h.status ≠ 101 → req.method ≠ ascii "HEAD" → surplus = [] →
      HeadReadsOn crates req h surplus toCome
  | final (f : Framing) : 200 ≤ h.status → ¬ CarriesClose h → framingOf req h = some f →
      (¬ Bodiless req h → ReadsFraming h f) → (f = .length 0 → surplus = []) →
      (f = .chunked → surplus.length < usizeEnd ∧ crlfAfterData crates.parseChunkSize (surplus ++ toCome) = true) →
      HeadReadsOn crates req h surplus toCome

/-- The buffer is filled with no more than is left of the body; the last size line comes
    with the rest of the message, and no more. -/
def BodyReadsOn (crates : Crates) (u : Upstream) : Prop :=
  match u.bodyReader.readState with
  | .partially _ toRead => ∀ n r s, u.bodyReader.fill u.stream = (.ok n, r, s) → n ≤ toRead
  | .chunked _ _ _ _ => ∀ read buf d bs s d', Between u.bodyReader read buf d → Feeds buf.length d bs u.stream s →
      d.pull crates.parseChunkSize partialChunkHeadLimit bs = (.done, d') →
      EndsBody crates.parseChunkSize (d.held ++ bs)
  | _ => True

/-- The next call takes no byte past the message. -/
def ReadsOn (crates : Crates) (req : RequestHeader) (u : Upstream) : Prop :=
  if u.shouldReadResponseHeader then
    ∀ buf size parts rest h, readHead crates.parseResponse [] u.stream.input = (.ok (some (buf, size, parts)), rest) →
      responseHeaderOf crates parts = some h →
      HeadReadsOn crates req h (buf.drop size) (Stream.bytesOf rest)
  else BodyReadsOn crates u

/-! ## What has been taken -/

/-- `taken` has been read of a response that goes on. -/
inductive Taking (crates : Crates) (req : RequestHeader) (u : Upstream) : Bytes → Prop
  | heads {front : Bytes} : u.shouldReadResponseHeader = true → u.bodyReader.isStart = true → u.bodyReader.Idle →
      (req.method = ascii "HEAD" → u.responseHeader = none) → Interims crates front → Taking crates req u front
  | length {heads body : Bytes} {n read toRead : Nat} : u.shouldReadResponseHeader = false →
      Heads crates req heads (.length n) → u.bodyReader.readState = .partially read toRead →
      body.length = read + u.bodyReader.rewindBufSize → n = read + toRead → Taking crates req u (heads ++ body)
  | chunked {heads body buf : Bytes} {read : Nat} {d : Chunked.Decoder} : u.shouldReadResponseHeader = false →
      Heads crates req heads .chunked → Between u.bodyReader read buf d → Skim crates.parseChunkSize d body →
      crlfAfterData crates.parseChunkSize (body ++ u.stream.bytes) = true → Taking crates req u (heads ++ body)

/-- It is a matter of the reader and of what is still to be read. -/
theorem Taking.congr {taken : Bytes} (h : Taking crates req u taken) (hresp : v.responseHeader = u.responseHeader)
    (hread : v.bodyReader = u.bodyReader) (hin : v.stream.input = u.stream.input) : Taking crates req v taken := by
  have hs : v.shouldReadResponseHeader = u.shouldReadResponseHeader := by
    unfold shouldReadResponseHeader
    rw [hresp]
  have hb : v.stream.bytes = u.stream.bytes := congrArg Stream.bytesOf hin
  cases h with
  | heads h1 h2 h3 h4 h5 => exact .heads (hs.trans h1) (hread ▸ h2) (hread ▸ h3) (fun hm => hresp.trans (h4 hm)) h5
  | length h1 h2 h3 h4 h5 => exact .length (hs.trans h1) h2 (hread ▸ h3) (hread ▸ h4) h5
  | chunked h1 h2 h3 h4 h5 => exact .chunked (hs.trans h1) h2 (hread ▸ h3) h4 (hb ▸ h5)

/-! ## A head -/

/-- What a call leaves of the session, and what it took. -/
structure Took (crates : Crates) (req : RequestHeader) (u u' : Upstream) (taken : Bytes) (t : Task) (bs : Bytes) :
    Prop where
  bytes : u.stream.bytes = bs ++ u'.stream.bytes
  output : u'.stream.output = u.stream.output
  writer : u'.bodyWriter = u.bodyWriter
  request : u'.requestHeader = u.requestHeader
  upgrade : u'.upgrade = false
  more : t.isEnd = false → Taking crates req u' (taken ++ bs)
  last : t.isEnd = true → WholeResponse crates req (taken ++ bs)

theorem isFinished_of_isStart {r : BodyReader} (h : r.isStart = true) : r.isFinished = false := by
  unfold BodyReader.isStart at h
  unfold BodyReader.isFinished
  rw [beq_iff_eq] at h
  rw [h]

theorem isAnswer_take {buf : Bytes} {size : Nat} {parts : ResponseParts} {h : ResponseHeader}
    (hp : crates.parseResponse buf = .complete size parts) (hb : responseHeaderOf crates parts = some h) :
    IsAnswer crates (buf.take size) h := by
  have hlen : (buf.take size).length = size := by
    rw [List.length_take, Nat.min_eq_left (crates.responseSize _ _ _ hp)]
  exact ⟨buf.drop size, parts, by rw [List.take_append_drop, hlen]; exact hp, hb⟩

theorem between_withChunkedRead {r : BodyReader} (hi : r.Idle) {p : Bytes} (hp : p.length < usizeEnd) :
    ∃ buf, Between (r.withChunkedRead p) 0 buf (.ready p) := by
  obtain ⟨buf, hb, hlen, hrw, hs⟩ := BodyReader.setBuffer_holds (r := { r with readState := .chunked 0 0 0 0 }) (p := p)
    fun _ => hi.rewound
  rw [show BodyReader.bodySize { r with readState := .chunked 0 0 0 0 } = bodyBufferSize from hi.size] at hlen
  refine ⟨buf, hb, .fresh rfl hrw hs, ?_, by decide⟩
  rw [hlen]
  unfold bodyBufferSize usizeEnd at *
  omega

/-- The body begins, or is over, once a final head is read. -/
theorem took_final {front buf : Bytes} {size : Nat} {parts : ResponseParts} {h : ResponseHeader} {rest : List ReadEv}
    {f : Framing} (h0 : u.bodyReader.isStart = true) (hi : u.bodyReader.Idle) (hfront : Interims crates front)
    (hp : crates.parseResponse buf = .complete size parts) (hb : responseHeaderOf crates parts = some h)
    (hst : 200 ≤ h.status) (hclose : ¬ CarriesClose h) (hf : framingOf req h = some f)
    (hreads : ¬ Bodiless req h → ReadsFraming h f) (hzero : f = .length 0 → buf.drop size = [])
    (hchunked : f = .chunked → (buf.drop size).length < usizeEnd ∧
      crlfAfterData crates.parseChunkSize (buf.drop size ++ Stream.bytesOf rest) = true)
    (hv : v = { u.tookHead req h buf size rest with
      bodyReader := selectResponseReader req h (buf.drop size) u.bodyReader }) :
    (v.bodyReader.isFinished = false → Taking crates req v (front ++ buf)) ∧
      (v.bodyReader.isFinished = true → WholeResponse crates req (front ++ buf)) := by
  have hheads : Heads crates req (front ++ buf.take size) f := .mk hfront (isAnswer_take hp hb) hst hclose hf
  have hall : front ++ buf = front ++ buf.take size ++ buf.drop size := by
    rw [List.append_assoc, List.take_append_drop]
  have hnext : v.shouldReadResponseHeader = false := shouldRead_final (h := h) (by rw [hv]; rfl) hst
  have hreader : v.bodyReader = if Bodiless req h then u.bodyReader.withContentLengthRead 0 (buf.drop size)
      else framedReader h (buf.drop size) u.bodyReader := by
    rw [hv]
    exact select_final h0 hst _
  have hempty : f = .length 0 → WholeResponse crates req (front ++ buf) := by
    intro he
    refine ⟨_, buf.drop size, f, hheads, ?_, hall⟩
    rw [he, hzero he]
    rfl
  by_cases hbodiless : Bodiless req h
  · rw [if_pos hbodiless] at hreader
    have he : f = .length 0 := by
      unfold framingOf Message.responseFraming at hf
      simp only [hbodiless, decide_true, if_true] at hf
      exact (Option.some.inj hf).symm
    refine ⟨fun hfin => ?_, fun _ => hempty he⟩
    rw [hreader] at hfin
    cases hfin
  · rw [if_neg hbodiless, framedReader] at hreader
    have hread := hreads hbodiless
    cases f with
    | chunked =>
      rw [show Utils.isHeaderValueChunkEncoding (h.getHeader transferEncoding) = true from hread, if_pos rfl] at hreader
      obtain ⟨hlen, hcrlf⟩ := hchunked rfl
      obtain ⟨b, hbtw⟩ := between_withChunkedRead hi hlen
      refine ⟨fun _ => ?_, fun hfin => ?_⟩
      · rw [hall]
        refine .chunked hnext hheads (hreader ▸ hbtw) (Skim.ready []) ?_
        rw [hv]
        exact hcrlf
      · rw [hreader] at hfin
        cases hfin
    | length n =>
      rw [hread.1, hread.2] at hreader
      cases n with
      | zero =>
        refine ⟨fun hfin => ?_, fun _ => hempty rfl⟩
        rw [hreader] at hfin
        cases hfin
      | succ n =>
        obtain ⟨_, -, -, hrew, -⟩ := BodyReader.setBuffer_holds (r := u.bodyReader) (p := buf.drop size) fun _ => hi.rewound
        refine ⟨fun _ => ?_, fun hfin => ?_⟩
        · rw [hall]
          have hstate : v.bodyReader.readState = .partially 0 (n + 1) := by
            rw [hreader]
            rfl
          refine .length hnext hheads hstate ?_ (Nat.zero_add _).symm
          rw [hreader, Nat.zero_add]
          exact hrew.symm
        · rw [hreader] at hfin
          cases hfin

/-- A call that looks for a head. -/
theorem took_head {front : Bytes} {t : Task} (hreq : u.requestHeader = some req) (hup : u.upgrade = false)
    (hs : u.shouldReadResponseHeader = true) (h0 : u.bodyReader.isStart = true) (hi : u.bodyReader.Idle)
    (hhead : req.method = ascii "HEAD" → u.responseHeader = none) (hfront : Interims crates front)
    (hon : ReadsOn crates req u) (hok : readUpstreamResponse crates u = (.ok t, u')) :
    ∃ bs, Took crates req u u' front t bs := by
  rcases readUpstreamResponse_head_ok hreq hs h0 hok with
    ⟨rest, hd, bs, hnone, hresp, rfl, rfl⟩ | ⟨buf, size, parts, rest, hd, hsome, hb, rfl, rfl⟩
  · -- the last head was informational, and is given again
    obtain ⟨hinf, h101⟩ := (shouldRead_some hresp).mp hs
    have hm : req.method ≠ ascii "HEAD" := by
      intro hm
      rw [hhead hm] at hresp
      cases hresp
    rw [select_interim h0 hinf h101 hm, isFinished_of_isStart h0]
    refine ⟨[], ?_, rfl, rfl, rfl, hup, fun _ => ?_, nofun⟩
    · rw [Stream.bytes, readHead_none hnone]
      rfl
    · rw [List.append_nil]
      exact .heads hs h0 hi hhead hfront
  · obtain ⟨hp, hbytes⟩ := readHead_some hsome
    rw [ReadsOn, if_pos hs] at hon
    cases hon _ _ _ _ _ hsome hb with
    | interim hinf h101 hm hsur =>
      rw [select_interim h0 hinf h101 hm, isFinished_of_isStart h0]
      refine ⟨buf, hbytes, rfl, rfl, rfl, ?_, fun _ => ?_, nofun⟩
      · show (Utils.isRequestUpgrade req && Utils.isResponseUpgrade hd) = false
        simp [Utils.isResponseUpgrade, h101]
      · have htext : buf.take size = buf := by
          have h := List.take_append_drop size buf
          rwa [hsur, List.append_nil] at h
        have := isAnswer_take hp hb
        rw [htext] at this
        exact .heads ((shouldRead_some rfl).mpr ⟨hinf, h101⟩) h0 hi (fun h => absurd h hm) (.snoc hfront this hinf h101)
    | final f hst hclose hf hreads hzero hchunked =>
      obtain ⟨hmore, hlast⟩ := took_final (u := u) h0 hi hfront hp hb hst hclose hf hreads hzero hchunked rfl
      refine ⟨buf, hbytes, rfl, rfl, rfl, ?_, hmore, hlast⟩
      show (Utils.isRequestUpgrade req && Utils.isResponseUpgrade hd) = false
      simp [Utils.isResponseUpgrade, show hd.status ≠ 101 by omega]

/-! ## The body -/

/-- A call in a body of known length. -/
theorem took_length {heads body : Bytes} {n read toRead : Nat} {t : Task} (hup : u.upgrade = false)
    (hs : u.shouldReadResponseHeader = false) (hheads : Heads crates req heads (.length n))
    (hst : u.bodyReader.readState = .partially read toRead) (hlen : body.length = read + u.bodyReader.rewindBufSize)
    (hn : n = read + toRead) (hon : ReadsOn crates req u) (hok : readUpstreamResponse crates u = (.ok t, u')) :
    ∃ bs, Took crates req u u' (heads ++ body) t bs := by
  have h0 : u.bodyReader.isStart = false := by simp [BodyReader.isStart, hst]
  have hf : u.bodyReader.isFinished = false := by simp [BodyReader.isFinished, hst]
  rw [ReadsOn, if_neg (by simp [hs]), BodyReadsOn, hst] at hon
  obtain ⟨o, r, s, hread, hu'⟩ := readUpstreamResponse_body_ok hs h0 hf hok
  simp only [BodyReader.readBody, hst] at hread
  obtain ⟨m, r1, hfill, hrw, hcase⟩ := BodyReader.readPartially_ok hst hread
  obtain ⟨-, -, bs, hbytes, hw, hm⟩ := BodyReader.fill_taken hfill
  have hle := hon _ _ _ hfill
  have hwhole : (body ++ bs).length = read + m := by
    rw [List.length_append]
    omega
  rcases hcase with ⟨hge, hst'⟩ | ⟨hlt, hst'⟩
  · obtain ⟨rfl, hend⟩ := hu' (by simp [BodyReader.isStart, hst'])
    rw [show r.isFinished = true by simp [BodyReader.isFinished, hst']] at hend
    refine ⟨bs, hbytes, hw.1, rfl, rfl, hup, fun h => absurd (h.symm.trans hend) (by simp), fun _ => ?_⟩
    refine ⟨heads, body ++ bs, _, hheads, ?_, List.append_assoc ..⟩
    show (body ++ bs).length = n
    omega
  · obtain ⟨rfl, hend⟩ := hu' (by simp [BodyReader.isStart, hst'])
    rw [show r.isFinished = false by simp [BodyReader.isFinished, hst']] at hend
    refine ⟨bs, hbytes, hw.1, rfl, rfl, hup, fun _ => ?_, fun h => absurd (h.symm.trans hend) (by simp)⟩
    rw [List.append_assoc]
    refine .length hs hheads hst' ?_ (by omega)
    show (body ++ bs).length = read + m + r.rewindBufSize
    rw [hrw]
    exact hwhole

/-- A call in a chunked body. -/
theorem took_chunked (hl : Local crates.parseChunkSize) {heads body buf : Bytes} {read : Nat} {d : Chunked.Decoder}
    {t : Task} (hup : u.upgrade = false) (hs : u.shouldReadResponseHeader = false)
    (hheads : Heads crates req heads .chunked) (hbtw : Between u.bodyReader read buf d)
    (hskim : Skim crates.parseChunkSize d body)
    (hcrlf : crlfAfterData crates.parseChunkSize (body ++ u.stream.bytes) = true) (hon : ReadsOn crates req u)
    (hok : readUpstreamResponse crates u = (.ok t, u')) :
    ∃ bs, Took crates req u u' (heads ++ body) t bs := by
  obtain ⟨⟨a, b, c, hst⟩, hd⟩ := hbtw.holds.state
  have h0 : u.bodyReader.isStart = false := by simp [BodyReader.isStart, hst]
  have hf : u.bodyReader.isFinished = false := by simp [BodyReader.isFinished, hst]
  rw [ReadsOn, if_neg (by simp [hs]), BodyReadsOn, hst] at hon
  obtain ⟨o, r, s, hread, hu'⟩ := readUpstreamResponse_body_ok hs h0 hf hok
  simp only [BodyReader.readBody, hst] at hread
  obtain ⟨bs, q, d', hpull, hio, hcase⟩ := hbtw.readChunked_ok hl hread
  have hw := hio.sameWrites
  have hbytes := hio.bytes
  rw [hbytes, ← List.append_assoc] at hcrlf
  rcases hcase with ⟨x, buf', rfl, -, hbtw'⟩ | ⟨rfl, -, hst'⟩
  · obtain ⟨⟨a', b', c', hst'⟩, -⟩ := hbtw'.holds.state
    obtain ⟨rfl, hend⟩ := hu' (by simp [BodyReader.isStart, hst'])
    rw [show r.isFinished = false by simp [BodyReader.isFinished, hst']] at hend
    refine ⟨bs, hbytes, hw.1, rfl, rfl, hup, fun _ => ?_, fun h => absurd (h.symm.trans hend) (by simp)⟩
    rw [List.append_assoc]
    exact .chunked hs hheads hbtw' (hskim.pull hl _ hd hpull (by simp)) hcrlf
  · obtain ⟨rfl, hend⟩ := hu' (by simp [BodyReader.isStart, hst'])
    rw [show r.isFinished = true by simp [BodyReader.isFinished, hst']] at hend
    refine ⟨bs, hbytes, hw.1, rfl, rfl, hup, fun h => absurd (h.symm.trans hend) (by simp), fun _ => ?_⟩
    refine ⟨heads, body ++ bs, _, hheads, ?_, List.append_assoc ..⟩
    exact hskim.wholeBody hl hd hpull (hon _ _ _ _ _ _ hbtw hio hpull) hcrlf

/-- A call that takes no byte past the message: the response goes on, or is whole. -/
theorem Taking.read (hl : Local crates.parseChunkSize) {taken : Bytes} {t : Task} (h : Taking crates req u taken)
    (hreq : u.requestHeader = some req) (hup : u.upgrade = false) (hon : ReadsOn crates req u)
    (hok : readUpstreamResponse crates u = (.ok t, u')) : ∃ bs, Took crates req u u' taken t bs := by
  cases h with
  | heads hs h0 hi hhead hfront => exact took_head hreq hup hs h0 hi hhead hfront hon hok
  | length hs hheads hst hlen hn => exact took_length hup hs hheads hst hlen hn hon hok
  | chunked hs hheads hbtw hskim hcrlf => exact took_chunked hl hup hs hheads hbtw hskim hcrlf hon hok

end Upstream

end Glaive.Session
