/-
  Glaive.Session.ResponseReading — the tasks a response comes to
  (`core/src/session/upstream.rs`: `read_upstream_response`, called again and again).

  `readUpstreamResponse_head`: a head, however it is cut, is the next task, and what came
  in the same read past it is the session's preread bytes, no longer the socket's.
  `calls_final`: a final head and a delimited body are a head task and body tasks that
  hold the body's data; the last task, and no other, ends the response.
-/

import Glaive.Session.UpstreamProofs

namespace Glaive.Session

open Glaive.Lib
open Glaive.Lib.Async

/-- A response head as the server sends it, and what the session makes of it. -/
structure ResponseHead (crates : Crates) where
  text : Bytes
  parts : ResponseParts
  header : ResponseHeader
  isHead : IsHead crates.parseResponse text parts
  small : text.length ≤ maxBufferSize
  built : Upstream.responseHeaderOf crates parts = some header

/-- Tasks that hold a body; the last one, and no other, ends it. -/
inductive Bodies : List Task → Bytes → Prop
  | last (b : Option Bytes) : Bodies [.body b true] (b.getD [])
  | more (b : Option Bytes) {ts : List Task} {data : Bytes} : Bodies ts data →
      Bodies (.body b false :: ts) (b.getD [] ++ data)

/-- The tasks of one response. -/
inductive Response (h : ResponseHeader) : List Task → Bytes → Prop
  | headOnly : Response h [.header h true] []
  | withBody {ts : List Task} {data : Bytes} : Bodies ts data → Response h (.header h false :: ts) data

/-- The tasks of a body are no front of another's. -/
theorem Bodies.of_append {ts : List Task} {data : Bytes} (hb : Bodies ts data) : ∀ {more : List Task} {data' : Bytes},
    Bodies (ts ++ more) data' → more = [] ∧ data = data' := by
  induction hb with
  | last b =>
    intro more data' h
    cases h with
    | last => exact ⟨rfl, rfl⟩
  | more b _ ih =>
    intro more data' h
    cases h with
    | more _ h =>
      obtain ⟨h1, rfl⟩ := ih h
      exact ⟨h1, rfl⟩

theorem Response.of_append {h h' : ResponseHeader} {ts more : List Task} {data data' : Bytes} (hr : Response h ts data)
    (hr' : Response h' (ts ++ more) data') : more = [] ∧ data = data' := by
  cases hr with
  | headOnly =>
    cases hr' with
    | headOnly => exact ⟨rfl, rfl⟩
  | withBody hb =>
    cases hr' with
    | withBody hb' => exact hb.of_append hb'

namespace Upstream

variable {crates : Crates} {u : Upstream} {req : RequestHeader} {after : List ReadEv}

/-- Successive calls; `none` when one gives no task. -/
def calls (crates : Crates) : Nat → Upstream → Option (List Task × Upstream)
  | 0, u => some ([], u)
  | n + 1, u =>
    match readUpstreamResponse crates u with
    | (.ok t, u) => (calls crates n u).map fun (ts, u) => (t :: ts, u)
    | _ => none

theorem calls_succ {n : Nat} {u' : Upstream} {t : Task} (h : readUpstreamResponse crates u = (.ok t, u')) :
    calls crates (n + 1) u = (calls crates n u').map fun (ts, u) => (t :: ts, u) := by
  rw [calls, h]

theorem calls_add : ∀ (n k : Nat) (u : Upstream),
    calls crates (n + k) u = (calls crates n u).bind fun (ts, u') =>
      (calls crates k u').map fun (ts', u'') => (ts ++ ts', u'') := by
  intro n
  induction n with
  | zero => intro k u; simp [calls]
  | succ n ih =>
    intro k u
    rw [Nat.succ_add, calls, calls]
    split
    · rw [ih]
      cases calls crates n _ with
      | none => rfl
      | some x => simp [Option.map_map, Function.comp_def]
    · rfl

/-- However many calls are made, one response comes of them. -/
theorem calls_response_unique {n m : Nat} {ts ts' : List Task} {u1 u2 : Upstream} {h h' : ResponseHeader}
    {data data' : Bytes} (hn : calls crates n u = some (ts, u1)) (hr : Response h ts data)
    (hm : calls crates m u = some (ts', u2)) (hr' : Response h' ts' data') : data = data' := by
  have key : ∀ {n m : Nat} {ts ts' : List Task} {u1 u2 : Upstream} {h h' : ResponseHeader} {data data' : Bytes},
      n ≤ m → calls crates n u = some (ts, u1) → Response h ts data → calls crates m u = some (ts', u2) →
      Response h' ts' data' → data = data' := by
    intro n m ts ts' u1 u2 h h' data data' hle hn hr hm hr'
    obtain ⟨k, rfl⟩ := Nat.exists_eq_add_of_le hle
    rw [calls_add, hn, Option.bind_some, Option.map_eq_some_iff] at hm
    obtain ⟨⟨more, u3⟩, -, he⟩ := hm
    cases he
    exact (hr.of_append hr').2
  rcases Nat.le_total n m with hle | hle
  · exact key hle hn hr hm hr'
  · exact (key hle hm hr' hn hr).symm

/-! ## The mode of a response body -/

/-- The mode the framing fields choose. -/
def framedReader (h : ResponseHeader) (bodyBytes : Bytes) (r : BodyReader) : BodyReader :=
  if Utils.isHeaderValueChunkEncoding (h.getHeader transferEncoding) then r.withChunkedRead bodyBytes
  else
    match Utils.getContentLengthValue (h.getHeader contentLength) with
    | some length => r.withContentLengthRead length bodyBytes
    | none => r.withUntilClosedRead bodyBytes

/-- The reader once a mode is chosen. -/
def selectResponseReader (req : RequestHeader) (h : ResponseHeader) (bodyBytes : Bytes) (r : BodyReader) :
    BodyReader :=
  if r.isStart then
    if req.method = ascii "HEAD" then r.withContentLengthRead 0 bodyBytes
    else if h.status = 101 then
      if Utils.isRequestUpgrade req then r.withUntilClosedRead bodyBytes else framedReader h bodyBytes r
    else if h.isInformational then r
    else if h.status = 204 ∨ h.status = 304 then r.withContentLengthRead 0 bodyBytes
    else framedReader h bodyBytes r
  else r

theorem isRequestUpgrade_eq (hreq : u.requestHeader = some req) :
    isRequestUpgrade u = (.ok (Utils.isRequestUpgrade req), u) := by
  unfold isRequestUpgrade; rw [hreq]

theorem getResponseHeaders_eq {h : ResponseHeader} (hresp : u.responseHeader = some h) :
    getResponseHeaders u = (.ok h, u) := by
  unfold getResponseHeaders; rw [hresp]

theorem setFramedReader_eq (h : ResponseHeader) (bodyBytes : Bytes) :
    setFramedReader h bodyBytes u = (.ok (), { u with bodyReader := framedReader h bodyBytes u.bodyReader }) := by
  unfold setFramedReader framedReader setReader
  cases Utils.isHeaderValueChunkEncoding (h.getHeader transferEncoding) <;>
    cases Utils.getContentLengthValue (h.getHeader contentLength) <;> rfl

theorem setResponseBodyReader_eq (hreq : u.requestHeader = some req) {h : ResponseHeader}
    (hresp : u.responseHeader = some h) {o : Offset} {bs : Bytes} (ho : u.bufBodyOffset = some o)
    (hg : o.get u.buffer = some bs) :
    setResponseBodyReader u = (.ok (), { u with bodyReader := selectResponseReader req h bs u.bodyReader }) := by
  have hb : bodyBytes u = (.ok bs, u) := by unfold bodyBytes; rw [ho]; simp only [hg]
  have hhead : u.isHeadRequest = decide (req.method = ascii "HEAD") := by
    unfold isHeadRequest; rw [hreq]; exact Bool.beq_eq_decide_eq ..
  unfold setResponseBodyReader selectResponseReader
  simp only [get_bind_apply]
  cases u.bodyReader.isStart with
  | false => rfl
  | true =>
    simp only [if_true]
    rw [bind_ok hb]
    simp only [get_bind_apply, hhead, decide_eq_true_eq]
    split
    · rfl
    · rw [bind_ok (getResponseHeaders_eq hresp)]
      split
      · rw [bind_ok (isRequestUpgrade_eq hreq)]
        cases Utils.isRequestUpgrade req
        · exact setFramedReader_eq h bs
        · rfl
      · split
        · rfl
        · simp only [Bool.or_eq_true, beq_iff_eq]
          split
          · rfl
          · exact setFramedReader_eq h bs

theorem setResponseBodyReader_of_not_start (hs : u.bodyReader.isStart = false) :
    setResponseBodyReader u = (.ok (), u) := by
  unfold setResponseBodyReader
  simp [hs]

theorem isReadingResponseBodyFinished_of_not_start (hs : u.bodyReader.isStart = false) :
    isReadingResponseBodyFinished u = (.ok u.bodyReader.isFinished, u) := by
  unfold isReadingResponseBodyFinished
  rw [bind_ok (setResponseBodyReader_of_not_start hs)]; rfl

/-! ## Reading a head -/

/-- The session once a head is read, with `surplus` past it. -/
def gotHead (u : Upstream) (req : RequestHeader) (head : ResponseHead crates) (surplus : Bytes)
    (input : List ReadEv) : Upstream :=
  { u with
    stream := { u.stream with input := input }
    buffer := head.text ++ surplus
    bufBodyOffset := some ⟨head.text.length, (head.text ++ surplus).length⟩
    responseHeader := some head.header
    upgrade := Utils.isRequestUpgrade req && Utils.isResponseUpgrade head.header }

/-- And the mode of its body is set. -/
def headed (u : Upstream) (req : RequestHeader) (head : ResponseHead crates) (surplus : Bytes)
    (input : List ReadEv) : Upstream :=
  { u.gotHead req head surplus input with bodyReader := selectResponseReader req head.header surplus u.bodyReader }

/-- The session once the head of `h` is read, of `size` bytes of `buf`. -/
def tookHead (u : Upstream) (req : RequestHeader) (h : ResponseHeader) (buf : Bytes) (size : Nat)
    (input : List ReadEv) : Upstream :=
  { u with
    stream := { u.stream with input := input }
    buffer := buf
    bufBodyOffset := some ⟨size, buf.length⟩
    responseHeader := some h
    upgrade := Utils.isRequestUpgrade req && Utils.isResponseUpgrade h }

theorem isSessionUpgrade_eq (hreq : u.requestHeader = some req) (h : ResponseHeader) :
    isSessionUpgrade h u = (.ok (Utils.isRequestUpgrade req && Utils.isResponseUpgrade h), u) := by
  unfold isSessionUpgrade
  rw [bind_ok (isRequestUpgrade_eq hreq)]
  cases Utils.isRequestUpgrade req <;> rfl

theorem readResponse_took (hreq : u.requestHeader = some req) {buf : Bytes} {size : Nat} {parts : ResponseParts}
    {rest : List ReadEv} (hr : readHead crates.parseResponse [] u.stream.input = (.ok (some (buf, size, parts)), rest))
    {h : ResponseHeader} (hh : responseHeaderOf crates parts = some h) :
    readResponse crates u = (.ok (), u.tookHead req h buf size rest) := by
  have hloop : onStream (headLoop crates.parseResponse) { u with buffer := [] } =
      (.ok (some (buf, size, parts)), { u with buffer := [], stream := { u.stream with input := rest } }) := by
    unfold onStream headLoop
    rw [zoom_apply, hr]
  unfold readResponse
  simp only [modify_bind_apply]
  rw [bind_ok hloop]
  simp only [modify_bind_apply, hh]
  exact bind_ok (isSessionUpgrade_eq (u := { u with
    stream := { u.stream with input := rest }, buffer := buf, bufBodyOffset := some ⟨size, buf.length⟩ }) hreq h)

/-- A head that comes is the next task. -/
theorem readUpstreamResponse_took (hreq : u.requestHeader = some req) (hs : u.shouldReadResponseHeader = true)
    {buf : Bytes} {size : Nat} {parts : ResponseParts} {rest : List ReadEv}
    (hr : readHead crates.parseResponse [] u.stream.input = (.ok (some (buf, size, parts)), rest))
    {h : ResponseHeader} (hh : responseHeaderOf crates parts = some h) :
    readUpstreamResponse crates u =
      (.ok (.header h (selectResponseReader req h (buf.drop size) u.bodyReader).isFinished),
        { u.tookHead req h buf size rest with
          bodyReader := selectResponseReader req h (buf.drop size) u.bodyReader }) := by
  have hsize := crates.responseSize _ _ _ (readHead_some hr).1
  have hfin : isReadingResponseBodyFinished (u.tookHead req h buf size rest) =
      (.ok (selectResponseReader req h (buf.drop size) u.bodyReader).isFinished,
        { u.tookHead req h buf size rest with
          bodyReader := selectResponseReader req h (buf.drop size) u.bodyReader }) := by
    unfold isReadingResponseBodyFinished
    rw [bind_ok (setResponseBodyReader_eq (u := u.tookHead req h buf size rest) hreq rfl rfl (offset_get hsize))]
    rfl
  unfold readUpstreamResponse
  simp only [get_bind_apply, hs, if_true]
  rw [bind_ok (readResponse_took hreq hr hh)]
  simp only [get_bind_apply]
  rw [show (u.tookHead req h buf size rest).responseHeader = some h from rfl]
  simp only
  rw [bind_ok hfin]
  rfl

/-- A head the loop has found is the next task. -/
theorem readUpstreamResponse_of_readHead (hreq : u.requestHeader = some req) (hs : u.shouldReadResponseHeader = true)
    (head : ResponseHead crates) {surplus : Bytes} {input : List ReadEv}
    (hr : readHead crates.parseResponse [] u.stream.input =
      (.ok (some (head.text ++ surplus, head.text.length, head.parts)), input)) :
    readUpstreamResponse crates u =
      (.ok (.header head.header (selectResponseReader req head.header surplus u.bodyReader).isFinished),
        u.headed req head surplus input) := by
  have hcall := readUpstreamResponse_took hreq hs hr head.built
  rw [List.drop_left] at hcall
  exact hcall

/-- However a head and what follows it are cut, it is the next task. -/
theorem readUpstreamResponse_head (hreq : u.requestHeader = some req) (hs : u.shouldReadResponseHeader = true)
    (head : ResponseHead crates) {segs : List Bytes} {tail : Bytes} (hin : u.stream.input = segs.map .data ++ after)
    (hne : ∀ x ∈ segs, x ≠ []) (hf : segs.flatten = head.text ++ tail) :
    ∃ surplus segs', readUpstreamResponse crates u =
        (.ok (.header head.header (selectResponseReader req head.header surplus u.bodyReader).isFinished),
          u.headed req head surplus (segs'.map .data ++ after)) ∧
      tail = surplus ++ segs'.flatten ∧ (∀ x ∈ segs', x ≠ []) ∧ (head.text.length ∈ cuts segs ↔ surplus = []) ∧
      (surplus = [] → ∀ k, k ∈ cuts segs' ↔ head.text.length + k ∈ cuts segs) := by
  obtain ⟨surplus, segs', h1, h2, h3, h4, h5⟩ :=
    readHead_head after head.isHead head.small segs (List.nil_append _).symm head.isHead.nonempty hne hf
  exact ⟨surplus, segs', readUpstreamResponse_of_readHead hreq hs head (hin ▸ h1), h2, h3, h4, h5⟩

/-! ## Reading the body -/

/-- The session after a call of the reader. -/
def withRead (u : Upstream) (p : BodyReader × Stream) : Upstream := { u with bodyReader := p.1, stream := p.2 }

theorem readUpstreamResponse_finished (hs : u.shouldReadResponseHeader = false) (h0 : u.bodyReader.isStart = false)
    (hf : u.bodyReader.isFinished = true) : readUpstreamResponse crates u = (.ok .done, u) := by
  unfold readUpstreamResponse
  simp only [get_bind_apply, hs, Bool.false_eq_true, if_false]
  rw [bind_ok (isReadingResponseBodyFinished_of_not_start h0), hf]; rfl

theorem readUpstreamResponse_body (hs : u.shouldReadResponseHeader = false) (h0 : u.bodyReader.isStart = false)
    (hf : u.bodyReader.isFinished = false) {o : Option Offset} {r : BodyReader} {s : Stream}
    (hr : BodyReader.readBody crates.parseChunkSize (u.bodyReader, u.stream) = (.ok o, r, s)) {b : Option Bytes}
    (hb : o.elim (b = none) fun o => ∃ x, r.getSlicedBody o = .ok x ∧ b = some x) (hrs : r.isStart = false) :
    readUpstreamResponse crates u = (.ok (.body b r.isFinished), u.withRead (r, s)) := by
  have hread : readResponseBody crates u = (.ok o, u.withRead (r, s)) := by
    unfold readResponseBody onReader
    rw [bind_ok (setResponseBodyReader_of_not_start h0), zoom_apply, hr]; rfl
  have hbytes : readResponseBodyBytes crates u = (.ok b, u.withRead (r, s)) := by
    unfold readResponseBodyBytes
    rw [bind_ok hread]
    cases o with
    | none => cases hb; rfl
    | some o =>
      obtain ⟨x, hx, rfl⟩ := hb
      have hsl : readSlicedResponseBody o (u.withRead (r, s)) = (.ok x, u.withRead (r, s)) := by
        unfold readSlicedResponseBody; exact congrArg (·, _) hx
      simp only
      rw [bind_ok hsl]; rfl
  unfold readUpstreamResponse
  simp only [get_bind_apply, hs, Bool.false_eq_true, if_false]
  rw [bind_ok (isReadingResponseBodyFinished_of_not_start h0), hf]
  simp only [Bool.false_eq_true, if_false]
  rw [bind_ok hbytes]
  have hfin : isReadingResponseBodyFinished (u.withRead (r, s)) = (.ok r.isFinished, _) :=
    isReadingResponseBodyFinished_of_not_start hrs
  rw [bind_ok hfin]; rfl

/-- A read that fails is the call's failure. -/
theorem readUpstreamResponse_err (hs : u.shouldReadResponseHeader = false) (h0 : u.bodyReader.isStart = false)
    (hf : u.bodyReader.isFinished = false) {e : IoError} {p : BodyReader × Stream}
    (hr : BodyReader.readBody crates.parseChunkSize (u.bodyReader, u.stream) = (.err e, p)) :
    (readUpstreamResponse crates u).1 = .err e := by
  have hread : readResponseBody crates u = (.err e, u.withRead p) := by
    unfold readResponseBody onReader
    rw [bind_ok (setResponseBodyReader_of_not_start h0), zoom_apply, hr]; rfl
  have hbytes : readResponseBodyBytes crates u = (.err e, u.withRead p) := bind_err hread
  unfold readUpstreamResponse
  simp only [get_bind_apply, hs, Bool.false_eq_true, if_false]
  rw [bind_ok (isReadingResponseBodyFinished_of_not_start h0), hf]
  simp only [Bool.false_eq_true, if_false]
  rw [bind_err hbytes]

/-- A serving reader comes to body tasks that hold what it serves, and finishes. -/
theorem serving_calls : ∀ (w : Nat) {u : Upstream} {total : Nat} {left : Bytes}, u.shouldReadResponseHeader = false →
    BodyReader.Serving crates.parseChunkSize after total (u.bodyReader, u.stream) left w →
    ∃ n ts u', calls crates n u = some (ts, u') ∧ Bodies ts left ∧ readUpstreamResponse crates u' = (.ok .done, u') := by
  intro w
  induction w using Nat.strong_induction_on with
  | _ w ih =>
    intro u total left hs hsv
    obtain ⟨hf, h0⟩ := BodyReader.serving_isFinished hsv
    obtain ⟨o, r, s, hr, -, hd⟩ := BodyReader.serving_step hsv
    cases hd with
    | none hl hst =>
      have hfin : r.isFinished = true := by simp [BodyReader.isFinished, hst]
      have hrs : r.isStart = false := by simp [BodyReader.isStart, hst]
      have hcall := readUpstreamResponse_body (b := none) hs h0 hf hr rfl hrs
      refine ⟨1, _, _, calls_succ hcall, ?_, readUpstreamResponse_finished hs hrs hfin⟩
      rw [hfin, hl]
      exact .last none
    | @more x left' w' o r s hget hl hsv' hlt =>
      obtain ⟨hf', h0'⟩ := BodyReader.serving_isFinished hsv'
      have hcall := readUpstreamResponse_body (b := some x) hs h0 hf hr ⟨x, hget, rfl⟩ h0'
      obtain ⟨n, ts, u', hrun, hts, hdone⟩ := ih w' hlt (u := u.withRead (r, s)) hs hsv'
      refine ⟨n + 1, .body (some x) r.isFinished :: ts, u', ?_, ?_, hdone⟩
      · rw [calls_succ hcall, hrun]; rfl
      · rw [hf', hl]
        exact .more (some x) hts
    | @last o r s hget hst =>
      have hfin : r.isFinished = true := by simp [BodyReader.isFinished, hst]
      have hrs : r.isStart = false := by simp [BodyReader.isStart, hst]
      have hcall := readUpstreamResponse_body (b := some left) hs h0 hf hr ⟨left, hget, rfl⟩ hrs
      refine ⟨1, _, _, calls_succ hcall, ?_, readUpstreamResponse_finished hs hrs hfin⟩
      rw [hfin]
      exact .last (some left)

/-! ## A call that gives a task -/

variable {u' v : Upstream}

theorem readResponse_ok (hreq : u.requestHeader = some req) (h : readResponse crates u = (.ok (), v)) :
    (∃ rest, readHead crates.parseResponse [] u.stream.input = (.ok none, rest) ∧
      v = { u with buffer := [], stream := { u.stream with input := rest } }) ∨
    ∃ buf size parts rest hd,
      readHead crates.parseResponse [] u.stream.input = (.ok (some (buf, size, parts)), rest) ∧
      responseHeaderOf crates parts = some hd ∧ v = u.tookHead req hd buf size rest := by
  unfold readResponse at h
  rw [modify_bind_apply] at h
  obtain ⟨x, u1, h1, h⟩ := of_bind_ok h
  unfold onStream headLoop at h1
  obtain ⟨s1, hloop, rfl⟩ := of_zoom_ok h1
  rw [Prod.mk.injEq] at hloop
  obtain ⟨hloop, rfl⟩ := hloop
  cases x with
  | none =>
    cases h
    exact Or.inl ⟨_, Prod.ext hloop rfl, rfl⟩
  | some x =>
    obtain ⟨buf, size, parts⟩ := x
    simp only [modify_bind_apply] at h
    cases hb : responseHeaderOf crates parts with
    | none => rw [hb] at h; cases h
    | some hd =>
      rw [hb] at h
      simp only [modify_bind_apply] at h
      obtain ⟨up, u2, h2, h⟩ := of_bind_ok h
      cases h2.symm.trans (isSessionUpgrade_eq (by exact hreq) hd)
      cases h
      exact Or.inr ⟨_, _, _, _, hd, Prod.ext hloop rfl, hb, rfl⟩

/-- A mode is chosen by the head and the bytes read past it. -/
theorem setResponseBodyReader_ok (hreq : u.requestHeader = some req) {h : ResponseHeader}
    (hresp : u.responseHeader = some h) (hs : u.bodyReader.isStart = true)
    (hok : setResponseBodyReader u = (.ok (), v)) :
    ∃ bs, v = { u with bodyReader := selectResponseReader req h bs u.bodyReader } := by
  have hbytes : ∃ o bs, u.bufBodyOffset = some o ∧ o.get u.buffer = some bs := by
    unfold setResponseBodyReader at hok
    simp only [get_bind_apply, hs, if_true] at hok
    obtain ⟨bs, u1, hb, -⟩ := of_bind_ok hok
    unfold bodyBytes at hb
    split at hb
    · cases hb
    · rename_i o ho
      split at hb
      · exact ⟨o, _, ho, ‹_›⟩
      · cases hb
  obtain ⟨o, bs, ho, hg⟩ := hbytes
  rw [setResponseBodyReader_eq hreq hresp ho hg] at hok
  cases hok
  exact ⟨bs, rfl⟩

/-- A head, or the news that the server has closed, which is the last head again. -/
theorem readUpstreamResponse_head_ok (hreq : u.requestHeader = some req) (hs : u.shouldReadResponseHeader = true)
    (h0 : u.bodyReader.isStart = true) {t : Task} (h : readUpstreamResponse crates u = (.ok t, u')) :
    (∃ rest hd bs, readHead crates.parseResponse [] u.stream.input = (.ok none, rest) ∧ u.responseHeader = some hd ∧
      t = .header hd (selectResponseReader req hd bs u.bodyReader).isFinished ∧
      u' = { u with buffer := [], stream := { u.stream with input := rest },
                    bodyReader := selectResponseReader req hd bs u.bodyReader }) ∨
    ∃ buf size parts rest hd,
      readHead crates.parseResponse [] u.stream.input = (.ok (some (buf, size, parts)), rest) ∧
      responseHeaderOf crates parts = some hd ∧
      t = .header hd (selectResponseReader req hd (buf.drop size) u.bodyReader).isFinished ∧
      u' = { u.tookHead req hd buf size rest with
        bodyReader := selectResponseReader req hd (buf.drop size) u.bodyReader } := by
  unfold readUpstreamResponse at h
  simp only [get_bind_apply, hs, if_true] at h
  obtain ⟨_, u1, h1, h⟩ := of_bind_ok h
  rw [get_bind_apply] at h
  cases hresp : u1.responseHeader with
  | none => rw [hresp] at h; cases h
  | some hd =>
    rw [hresp] at h
    obtain ⟨b, u2, h2, h⟩ := of_bind_ok h
    cases h
    unfold isReadingResponseBodyFinished at h2
    obtain ⟨_, u3, h3, h4⟩ := of_bind_ok h2
    cases h4
    rcases readResponse_ok hreq h1 with ⟨rest, hnone, rfl⟩ | ⟨buf, size, parts, rest, hd', hsome, hb, rfl⟩
    · obtain ⟨bs, rfl⟩ := setResponseBodyReader_ok (by exact hreq) hresp (by exact h0) h3
      exact Or.inl ⟨rest, hd, bs, hnone, hresp, rfl, rfl⟩
    · cases hresp
      have hsize := crates.responseSize _ _ _ (readHead_some hsome).1
      have hg : Offset.get ⟨size, buf.length⟩ buf = some (buf.drop size) := offset_get hsize
      cases h3.symm.trans (setResponseBodyReader_eq (by exact hreq) rfl rfl (by exact hg))
      exact Or.inr ⟨buf, size, parts, rest, hd, hsome, hb, rfl, rfl⟩

/-- A call in the body is a call of the reader. -/
theorem readUpstreamResponse_body_ok (hs : u.shouldReadResponseHeader = false) (h0 : u.bodyReader.isStart = false)
    (hf : u.bodyReader.isFinished = false) {t : Task} (h : readUpstreamResponse crates u = (.ok t, u')) :
    ∃ o r s, BodyReader.readBody crates.parseChunkSize (u.bodyReader, u.stream) = (.ok o, r, s) ∧
      (r.isStart = false → u' = u.withRead (r, s) ∧ t.isEnd = r.isFinished) := by
  unfold readUpstreamResponse at h
  simp only [get_bind_apply, hs, Bool.false_eq_true, if_false] at h
  rw [bind_ok (isReadingResponseBodyFinished_of_not_start h0), hf] at h
  simp only [Bool.false_eq_true, if_false] at h
  obtain ⟨b, u1, h1, h⟩ := of_bind_ok h
  obtain ⟨e, u2, h2, h⟩ := of_bind_ok h
  cases h
  unfold readResponseBodyBytes at h1
  obtain ⟨o, u3, h3, h4⟩ := of_bind_ok h1
  unfold readResponseBody onReader at h3
  rw [bind_ok (setResponseBodyReader_of_not_start h0)] at h3
  obtain ⟨⟨r, s⟩, hread, rfl⟩ := of_zoom_ok h3
  refine ⟨o, r, s, hread, fun hrs => ?_⟩
  have hu1 : u1 = u.withRead (r, s) := by
    cases o with
    | none => cases h4; rfl
    | some o =>
      obtain ⟨x, u4, h5, h6⟩ := of_bind_ok h4
      cases h6
      exact (congrArg Prod.snd h5).symm
  rw [hu1, isReadingResponseBodyFinished_of_not_start (show (u.withRead (r, s)).bodyReader.isStart = false from hrs)] at h2
  cases h2
  exact ⟨rfl, rfl⟩

/-! ## A whole response -/

/-- A response that ends with its head, whatever its fields say. -/
def Bodiless (req : RequestHeader) (h : ResponseHeader) : Prop :=
  req.method = ascii "HEAD" ∨ h.status = 204 ∨ h.status = 304

instance (req : RequestHeader) (h : ResponseHeader) : Decidable (Bodiless req h) :=
  inferInstanceAs (Decidable (_ ∨ _ ∨ _))

theorem select_interim {r : BodyReader} (hs : r.isStart = true) {h : ResponseHeader} (hinf : h.isInformational = true)
    (h101 : h.status ≠ 101) (hm : req.method ≠ ascii "HEAD") (bs : Bytes) : selectResponseReader req h bs r = r := by
  unfold selectResponseReader
  rw [if_pos hs, if_neg hm, if_neg h101, if_pos hinf]

theorem select_final {r : BodyReader} (hs : r.isStart = true) {h : ResponseHeader} (hst : 200 ≤ h.status) (bs : Bytes) :
    selectResponseReader req h bs r = if Bodiless req h then r.withContentLengthRead 0 bs else framedReader h bs r := by
  have h101 : ¬ h.status = 101 := by omega
  have hinf : ¬ h.isInformational = true := by
    unfold ResponseHeader.isInformational
    simp only [Bool.and_eq_true, decide_eq_true_eq]
    omega
  unfold selectResponseReader
  rw [if_pos hs, if_neg h101, if_neg hinf]
  by_cases hm : req.method = ascii "HEAD"
  · rw [if_pos hm, if_pos (show Bodiless req h from Or.inl hm)]
  · rw [if_neg hm]
    by_cases hno : h.status = 204 ∨ h.status = 304
    · rw [if_pos hno, if_pos (show Bodiless req h from Or.inr hno)]
    · rw [if_neg hno, if_neg (show ¬ Bodiless req h from not_or_intro hm hno)]

theorem shouldRead_some {h : ResponseHeader} (hresp : u.responseHeader = some h) :
    u.shouldReadResponseHeader = true ↔ h.isInformational = true ∧ h.status ≠ 101 := by
  unfold shouldReadResponseHeader
  rw [hresp]
  by_cases h101 : h.status = 101 <;> simp [h101]

theorem shouldRead_final {h : ResponseHeader} (hresp : u.responseHeader = some h) (hst : 200 ≤ h.status) :
    u.shouldReadResponseHeader = false := by
  rw [Bool.eq_false_iff]
  intro hs
  have hinf := ((shouldRead_some hresp).mp hs).1
  unfold ResponseHeader.isInformational at hinf
  simp only [Bool.and_eq_true, decide_eq_true_eq] at hinf
  omega

/-- How a body comes after a final head: as `wire`, then `after`, to hold `data`. -/
inductive Delimited (req : RequestHeader) (h : ResponseHeader) :
    Bytes → List ReadEv → Bytes → Prop
  | bodiless {after : List ReadEv} : Bodiless req h → Delimited req h [] after []
  | chunked {after : List ReadEv} (B : Chunked.Body) (rest : Bytes) : ¬ Bodiless req h →
      Utils.isHeaderValueChunkEncoding (h.getHeader transferEncoding) = true →
      (∀ l ∈ B.lines, l.text.length ≤ partialChunkHeadLimit) → (B.text ++ rest).length < usizeEnd →
      Delimited req h (B.text ++ rest) after B.data
  | length {after : List ReadEv} {data : Bytes} : ¬ Bodiless req h →
      Utils.isHeaderValueChunkEncoding (h.getHeader transferEncoding) = false →
      Utils.getContentLengthValue (h.getHeader contentLength) = some data.length →
      Delimited req h data after data
  | untilClosed {after : List ReadEv} {data : Bytes} : ¬ Bodiless req h →
      Utils.isHeaderValueChunkEncoding (h.getHeader transferEncoding) = false →
      Utils.getContentLengthValue (h.getHeader contentLength) = none → data.length < usizeEnd →
      Delimited req h data (.data [] :: after) data

theorem Delimited.fits {h : ResponseHeader} {wire data : Bytes} (hd : Delimited req h wire after data) :
    data.length < usizeEnd := by
  cases hd with
  | bodiless => exact Nat.two_pow_pos 64
  | chunked B rest _ _ _ hfits =>
    have := B.data_length_le
    rw [List.length_append] at hfits
    omega
  | length _ _ hcl =>
    have := Utils.getContentLengthValue_lt hcl
    unfold usizeEnd; omega
  | untilClosed _ _ _ hlt => exact hlt

/-- A reader no body has been chosen for; a `HEAD` request's may have been set to none. -/
structure Unset (req : RequestHeader) (r : BodyReader) : Prop where
  idle : r.Idle
  state : r.isStart = true ∨ req.method = ascii "HEAD" ∧ r.readState = .completed 0

/-- A session the request was written on, and nothing read. -/
structure Fresh (u : Upstream) (req : RequestHeader) : Prop where
  request : u.requestHeader = some req
  response : u.responseHeader = none
  reader : ∃ mem, u.bodyReader = .new mem

theorem Fresh.unset (hu : Fresh u req) : u.shouldReadResponseHeader = true ∧ Unset req u.bodyReader := by
  obtain ⟨mem, hr⟩ := hu.reader
  refine ⟨by unfold shouldReadResponseHeader; rw [hu.response], ?_⟩
  rw [hr]
  exact ⟨BodyReader.idle_new mem, Or.inl rfl⟩

/-- A final head sets the reader to hand out the body, or to none. -/
theorem final_reader (hparse : ∀ l, Chunked.Recognizes crates.parseChunkSize l) {r : BodyReader} (hr : Unset req r) {h : ResponseHeader} (hst : 200 ≤ h.status)
    {wire data p toCome : Bytes} (hd : Delimited req h wire after data) (hsplit : p ++ toCome = wire)
    {s : Stream} (hc : s.Carries toCome after) :
    (selectResponseReader req h p r).readState = .completed 0 ∧ data = [] ∨
      ∃ w, BodyReader.Serving crates.parseChunkSize after data.length (selectResponseReader req h p r, s) data w := by
  have hmode : ¬ Bodiless req h → selectResponseReader req h p r = framedReader h p r := by
    intro hb
    rcases hr.state with hs | ⟨hm, -⟩
    · rw [select_final hs hst, if_neg hb]
    · exact absurd (Or.inl hm) hb
  cases hd with
  | bodiless hb =>
    refine Or.inl ⟨?_, rfl⟩
    rcases hr.state with hs | ⟨-, hs⟩
    · rw [select_final hs hst, if_pos hb]
      rfl
    · unfold selectResponseReader
      rw [if_neg (by simp [BodyReader.isStart, hs])]
      exact hs
  | chunked B rest hb hte hlim hfits =>
    rw [hmode hb, framedReader, hte]
    exact Or.inr (BodyReader.serving_withChunkedRead hr.idle (fun l _ => hparse l) hlim hfits hsplit hc)
  | length hb hte hcl =>
    rw [hmode hb, framedReader, hte, hcl]
    have hlt := Utils.getContentLengthValue_lt hcl
    rcases Nat.eq_zero_or_pos wire.length with h0 | h0
    · refine Or.inl ⟨?_, List.eq_nil_of_length_eq_zero h0⟩
      rw [h0]; rfl
    · have := BodyReader.serving_withContentLengthRead crates.parseChunkSize (n := wire.length) hr.idle h0 (by unfold usizeEnd; omega) (by rw [hsplit]) hc
      rw [hsplit, List.take_length] at this
      exact Or.inr ⟨_, this⟩
  | untilClosed hb hte hcl hlt =>
    rw [hmode hb, framedReader, hte, hcl]
    have := BodyReader.serving_withUntilClosedRead crates.parseChunkSize hr.idle
      (by rw [hsplit]; exact hlt) hc
    rw [hsplit] at this
    exact Or.inr ⟨_, this⟩

/-- A final head and its body, however they are cut: their tasks, then no more. -/
theorem calls_final (hparse : ∀ l, Chunked.Recognizes crates.parseChunkSize l) (hreq : u.requestHeader = some req) (hs : u.shouldReadResponseHeader = true)
    (hu : Unset req u.bodyReader) (head : ResponseHead crates) (hst : 200 ≤ head.header.status) {wire data : Bytes}
    (hd : Delimited req head.header wire after data) {segs : List Bytes}
    (hin : u.stream.input = segs.map .data ++ after) (hne : ∀ x ∈ segs, x ≠ []) (hf : segs.flatten = head.text ++ wire) :
    ∃ n ts u', calls crates n u = some (ts, u') ∧ Response head.header ts data ∧
      readUpstreamResponse crates u' = (.ok .done, u') := by
  obtain ⟨surplus, segs', hcall, htail, hne', -, -⟩ := readUpstreamResponse_head hreq hs head hin hne hf
  have hnext : (u.headed req head surplus (segs'.map .data ++ after)).shouldReadResponseHeader = false :=
    shouldRead_final (h := head.header) rfl hst
  rcases final_reader hparse hu hst hd htail.symm (s := { u.stream with input := segs'.map .data ++ after })
    ⟨segs', rfl, hne', rfl⟩ with ⟨hst', rfl⟩ | ⟨w, hsv⟩
  · have hfin : (selectResponseReader req head.header surplus u.bodyReader).isFinished = true := by
      simp [BodyReader.isFinished, hst']
    rw [hfin] at hcall
    refine ⟨1, _, _, calls_succ hcall, .headOnly, readUpstreamResponse_finished hnext ?_ hfin⟩
    show (selectResponseReader req head.header surplus u.bodyReader).isStart = false
    simp [BodyReader.isStart, hst']
  · obtain ⟨n, ts, u', hrun, hts, hdone⟩ :=
      serving_calls w (u := u.headed req head surplus (segs'.map .data ++ after)) hnext hsv
    rw [(BodyReader.serving_isFinished hsv).1] at hcall
    refine ⟨n + 1, .header head.header false :: ts, u', ?_, .withBody hts, hdone⟩
    rw [calls_succ hcall, hrun]; rfl

end Upstream

end Glaive.Session
