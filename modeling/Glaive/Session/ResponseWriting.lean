/-
  Glaive.Session.ResponseWriting — the tasks of a response, written to the client
  (`core/src/session/downstream.rs`: `write_downstream_response` and what it calls).

  One task or a batch of them comes to the same: the head if there is one, the bytes of
  the body tasks in one write if there are any, and the body's end with the last task
  (`writeDownstreamResponse_bodies`, `writeDownstreamResponse_head`). Whatever the
  batches, the client reads the body's data (`writeAll_bodies`).
-/

import Glaive.Lib.ChunkCuts
import Glaive.Session.DownstreamProofs
import Glaive.Session.ResponseReading

namespace Glaive.Session

open Glaive.Lib
open Glaive.Lib.Async

/-! ## What a mode puts on the wire -/

/-- A body `wire` holds `data`, read as the mode it was written in has it. -/
inductive Decodes : WriteState → Bytes → Bytes → Prop
  | chunked {wire data : Bytes} : Chunked.Reads wire data [] → Decodes (.chunkedEncoding 0) wire data
  | length (data : Bytes) : Decodes (.contentLength data.length 0) data data
  | untilClosed (data : Bytes) : Decodes (.http10 0) data data

/-- A writer that started in the mode `st`, and has put `wire` on the wire for `data`,
    the front of a body of `total` bytes. -/
inductive Written (total : Nat) : WriteState → BodyWriter → Bytes → Bytes → Prop
  | chunked (n : Nat) (chunks : List Chunked.Chunk) :
      Written total (.chunkedEncoding 0) ⟨.chunkedEncoding n⟩ (Chunked.wire chunks) (Chunked.dataOf chunks)
  | length (data : Bytes) : Written total (.contentLength total 0) ⟨.contentLength total data.length⟩ data data
  | untilClosed (n : Nat) (data : Bytes) : Written total (.http10 0) ⟨.http10 n⟩ data data

namespace Written

variable {total : Nat} {st : WriteState} {w : BodyWriter} {wire data : Bytes}

theorem ne_start (hw : Written total st w wire data) : w.writeState ≠ .start := by
  cases hw <;> simp

theorem emit (hw : Written total st w wire data) {x : Bytes} (hx : x ≠ []) (hle : data.length + x.length ≤ total)
    (htotal : total < usizeEnd) : Written total st (w.emit x).2 (wire ++ (w.emit x).1) (data ++ x) := by
  cases hw with
  | chunked n chunks =>
    have hlt : x.length < usizeEnd := by omega
    have hwire : Chunked.wire chunks ++ BodyWriter.chunkOf x = Chunked.wire (chunks ++ [Chunked.encode x hx hlt]) := by
      rw [Chunked.wire_append, Chunked.wire_cons, Chunked.encode_text]
      simp [BodyWriter.chunkOf]
    have hdata : Chunked.dataOf chunks ++ x = Chunked.dataOf (chunks ++ [Chunked.encode x hx hlt]) := by
      simp [Chunked.encode]
    simp only [BodyWriter.emit]
    rw [hwire, hdata]
    exact .chunked _ _
  | length data =>
    have hpos := List.length_pos_of_ne_nil hx
    simp only [BodyWriter.emit, if_neg (show ¬ total ≤ wire.length by omega)]
    rw [List.take_of_length_le (by omega), Nat.min_eq_right (by omega), ← List.length_append]
    exact .length _
  | untilClosed n data => exact .untilClosed _ _

/-- The body's end, when all of it is written. -/
theorem close (hw : Written total st w wire data) (hlen : data.length = total) :
    w.short = false ∧ Decodes st (wire ++ w.closing.1) data := by
  cases hw with
  | chunked n chunks =>
    refine ⟨rfl, .chunked ?_⟩
    have := Chunked.Reads.wire_append chunks (Chunked.reads_last [])
    rwa [List.append_nil, List.append_nil] at this
  | length data =>
    subst hlen
    refine ⟨by simp [BodyWriter.short], ?_⟩
    simp only [BodyWriter.closing, List.append_nil]
    exact .length wire
  | untilClosed n data =>
    refine ⟨rfl, ?_⟩
    simp only [BodyWriter.closing, List.append_nil]
    exact .untilClosed wire

end Written

/-! ## Body tasks -/

def Task.data : Task → Bytes
  | .body (some x) _ => x
  | _ => []

/-- The bytes a batch of tasks holds. -/
def dataOf (ts : List Task) : Bytes := (ts.map Task.data).flatten

def Task.isFailed : Task → Bool
  | .failed _ => true
  | _ => false

def Task.IsBody (t : Task) : Prop := ∃ b e, t = .body b e

/-- The end flag of the last of some tasks. -/
def lastEnd (e : Bool) (ts : List Task) : Bool := ts.foldl (fun _ t => t.isEnd) e

theorem Bodies.isBody {ts : List Task} {data : Bytes} (hb : Bodies ts data) : ∀ t ∈ ts, t.IsBody := by
  induction hb with
  | last b => exact fun t ht => ⟨b, true, List.mem_singleton.mp ht⟩
  | more b _ ih =>
    intro t ht
    rcases List.mem_cons.mp ht with rfl | ht
    · exact ⟨b, false, rfl⟩
    · exact ih t ht

/-- Where a first batch of body tasks stands: it is all of them and ends the body, or
    it does not end it and the others hold the rest. -/
theorem Bodies.split {ts : List Task} {data : Bytes} (hb : Bodies ts data) : ∀ {g rest : List Task} (e : Bool),
    ts = g ++ rest → g ≠ [] → rest = [] ∧ lastEnd e g = true ∧ dataOf g = data ∨
      ∃ data', Bodies rest data' ∧ lastEnd e g = false ∧ data = dataOf g ++ data' := by
  induction hb with
  | last b =>
    intro g rest e h hg
    obtain ⟨t, g, rfl⟩ := List.exists_cons_of_ne_nil hg
    rw [List.cons_append, List.cons.injEq] at h
    obtain ⟨rfl, h⟩ := h
    obtain ⟨rfl, rfl⟩ := List.append_eq_nil_iff.mp h.symm
    refine Or.inl ⟨rfl, rfl, ?_⟩
    cases b <;> simp [dataOf, Task.data]
  | @more b ts data hts ih =>
    intro g rest e h hg
    obtain ⟨t, g, rfl⟩ := List.exists_cons_of_ne_nil hg
    rw [List.cons_append, List.cons.injEq] at h
    obtain ⟨rfl, h⟩ := h
    have hdata : ∀ g, dataOf (.body b false :: g) = b.getD [] ++ dataOf g := by
      intro g; cases b <;> rfl
    by_cases hg' : g = []
    · subst hg'
      refine Or.inr ⟨data, ?_, rfl, ?_⟩
      · rw [List.nil_append] at h; rw [← h]; exact hts
      · rw [hdata]; simp [dataOf]
    · rw [hdata]
      rcases ih false h hg' with ⟨h1, h2, h3⟩ | ⟨data', h1, h2, h3⟩
      · exact Or.inl ⟨h1, h2, by rw [h3]⟩
      · exact Or.inr ⟨data', h1, h2, by rw [h3, List.append_assoc]⟩

namespace Downstream

variable {crates : Crates} {d : Downstream} {req : RequestHeader}

/-- The session with `bs` more written. -/
def wrote (d : Downstream) (bs : Bytes) : Downstream :=
  { d with stream := { d.stream with output := d.stream.output ++ bs } }

/-- The session after body bytes are written; there is no write for none. -/
def sent (d : Downstream) (x : Bytes) : Downstream :=
  if x = [] then d else { d.wrote (d.bodyWriter.emit x).1 with bodyWriter := (d.bodyWriter.emit x).2 }

/-- The session with its request reader closed if it is an upgrade's. -/
def forceClosed (d : Downstream) : Downstream :=
  if d.upgrade && !d.bodyReader.isFinished then { d with bodyReader := d.bodyReader.withContentLengthRead 0 [] } else d

/-- The session after the body is ended. -/
def ended (d : Downstream) : Downstream :=
  forceClosed { d.wrote d.bodyWriter.closing.1 with bodyWriter := d.bodyWriter.closing.2 }

/-- The session after the last task's bytes, and the end if they are the last. -/
def endedIf (e : Bool) (d : Downstream) : Downstream := if e then d.ended else d

theorem sent_nil (d : Downstream) : d.sent [] = d := if_pos rfl

theorem sent_healthy (hs : d.stream.Healthy) (x : Bytes) : (d.sent x).stream.Healthy := by
  unfold sent; split <;> exact hs

theorem ended_output (d : Downstream) : d.ended.stream.output = d.stream.output ++ d.bodyWriter.closing.1 := by
  unfold ended forceClosed; split <;> rfl

theorem writeResponseBody_healthy (hs : d.stream.Healthy) (hw : d.bodyWriter.writeState ≠ .start) {x : Bytes}
    (hx : x ≠ []) : ∃ n, writeResponseBody x d = (.ok n, d.sent x) := by
  obtain ⟨n, hn⟩ := BodyWriter.writeBody_healthy hs hw x
  refine ⟨n, ?_⟩
  unfold writeResponseBody onWriter
  rw [zoom_apply, hn, sent, if_neg hx]; rfl

theorem forceCloseRequestBodyReader_eq (d : Downstream) : forceCloseRequestBodyReader d = (.ok (), d.forceClosed) := by
  unfold forceCloseRequestBodyReader forceClosed setReader
  simp only [get_bind_apply]
  cases d.upgrade && !d.bodyReader.isFinished <;> rfl

theorem finishWritingResponseBody_healthy (hs : d.stream.Healthy) (hw : d.bodyWriter.short = false) :
    ∃ n, finishWritingResponseBody d = (.ok n, d.ended) := by
  obtain ⟨n, hn⟩ := BodyWriter.finish_healthy hs hw
  have hz : onWriter BodyWriter.finish d =
      (.ok n, { d.wrote d.bodyWriter.closing.1 with bodyWriter := d.bodyWriter.closing.2 }) := by
    unfold onWriter
    rw [zoom_apply, hn]; rfl
  refine ⟨n, ?_⟩
  unfold finishWritingResponseBody
  rw [bind_ok hz, bind_ok (forceCloseRequestBodyReader_eq _)]; rfl

/-- The end of a call, both ways of writing. -/
theorem finishIf_healthy (hs : d.stream.Healthy) {e : Bool} (hw : e = true → d.bodyWriter.short = false) :
    ((if e then ignore finishWritingResponseBody else pure ()) >>= fun _ => (pure e : M Bool)) d =
      (.ok e, d.endedIf e) := by
  cases e with
  | false => rfl
  | true =>
    obtain ⟨n, hn⟩ := finishWritingResponseBody_healthy hs (hw rfl)
    simp only [if_true]
    rw [bind_ok (ignore_ok hn)]; rfl

/-- The body tasks of a batch are gathered first. -/
theorem vectoredTasks_bodies : ∀ (ts : List Task) (e : Bool) (d : Downstream), (∀ t ∈ ts, t.IsBody) →
    vectoredTasks crates e ts d =
      (.ok (lastEnd e ts), { d with writeBodyVecBuffer := d.writeBodyVecBuffer ++ dataOf ts }) := by
  intro ts
  induction ts with
  | nil => intro e d _; simp [vectoredTasks, lastEnd, dataOf]
  | cons t ts ih =>
    intro e d hts
    obtain ⟨b, e', rfl⟩ := hts t (List.mem_cons_self ..)
    have hrest := fun t ht => hts t (List.mem_cons_of_mem _ ht)
    cases b with
    | none =>
      have ht : vectoredResponseTask crates (.body none e') d = (.ok e', d) := rfl
      rw [vectoredTasks, bind_ok ht, ih e' d hrest]; rfl
    | some x =>
      have ht : vectoredResponseTask crates (.body (some x) e') d =
          (.ok e', { d with writeBodyVecBuffer := d.writeBodyVecBuffer ++ x }) := rfl
      rw [vectoredTasks, bind_ok ht, ih e' _ hrest]
      simp only [List.append_assoc]; rfl

/-- What was gathered is written at once. -/
theorem vectoredWriteResponseBody_healthy (hs : d.stream.Healthy) (hw : d.bodyWriter.writeState ≠ .start)
    (hv : d.writeBodyVecBuffer = []) (x : Bytes) :
    ∃ n, vectoredWriteResponseBody { d with writeBodyVecBuffer := x } = (.ok n, d.sent x) := by
  have hd : { d with writeBodyVecBuffer := [] } = d := by
    cases d; exact congrArg (fun v => Downstream.mk _ _ v _ _ _ _ _ _ _ _ _ _) hv.symm
  unfold vectoredWriteResponseBody
  simp only [get_bind_apply]
  by_cases hx : x = []
  · subst hx
    exact ⟨none, by rw [sent_nil]; exact congrArg (Out.ok none, ·) hd⟩
  · obtain ⟨n, hn⟩ := writeResponseBody_healthy (d := { d with writeBodyVecBuffer := x }) hs hw hx
    refine ⟨n, ?_⟩
    rw [if_neg (by simpa using hx)]
    unfold writeResponseBody at hn
    simp only [hn, sent, if_neg hx]
    exact congrArg (fun d' : Downstream => (Out.ok n, { d'.wrote (d.bodyWriter.emit x).1 with
      bodyWriter := (d.bodyWriter.emit x).2 })) hd

/-- A batch whose body tasks come after what `d` has done: their bytes and the end. -/
theorem vectored_rest (hs : d.stream.Healthy) (hw : d.bodyWriter.writeState ≠ .start) (hv : d.writeBodyVecBuffer = [])
    (ts : List Task) (hts : ∀ t ∈ ts, t.IsBody) (e0 : Bool)
    (he : lastEnd e0 ts = true → (d.sent (dataOf ts)).bodyWriter.short = false) :
    (vectoredTasks crates e0 ts >>= fun endStream => ignore vectoredWriteResponseBody >>= fun _ =>
      (if endStream then ignore finishWritingResponseBody else pure ()) >>= fun _ => (pure endStream : M Bool)) d =
      (.ok (lastEnd e0 ts), (d.sent (dataOf ts)).endedIf (lastEnd e0 ts)) := by
  rw [bind_ok (vectoredTasks_bodies ts e0 d hts), hv, List.nil_append]
  obtain ⟨n, hn⟩ := vectoredWriteResponseBody_healthy hs hw hv (dataOf ts)
  rw [bind_ok (ignore_ok hn)]
  exact finishIf_healthy (sent_healthy hs _) he

/-- One call with body tasks. -/
theorem writeDownstreamResponse_bodies (crates : Crates) (hs : d.stream.Healthy) (hw : d.bodyWriter.writeState ≠ .start)
    (hv : d.writeBodyVecBuffer = []) {ts : List Task} (hne : ts ≠ []) (hts : ∀ t ∈ ts, t.IsBody)
    (he : lastEnd false ts = true → (d.sent (dataOf ts)).bodyWriter.short = false) :
    writeDownstreamResponse crates ts d = (.ok (lastEnd false ts), (d.sent (dataOf ts)).endedIf (lastEnd false ts)) := by
  match ts with
  | [] => exact absurd rfl hne
  | [t] =>
    obtain ⟨b, e, rfl⟩ := hts t (List.mem_cons_self ..)
    have htask : writeResponseTask crates (.body b e) d = (.ok e, d.sent (dataOf [.body b e])) := by
      cases b with
      | none => simp only [writeResponseTask, dataOf, List.map_cons, Task.data, List.map_nil, List.flatten_cons,
          List.flatten_nil, List.append_nil, sent_nil, pure_apply]
      | some x =>
        have hdata : dataOf [Task.body (some x) e] = x := by simp [dataOf, Task.data]
        rw [hdata]
        unfold writeResponseTask
        by_cases hx : x = []
        · subst hx
          simp only [List.isEmpty_nil, if_true, pure_bind_apply, sent_nil, pure_apply]
        · obtain ⟨n, hn⟩ := writeResponseBody_healthy hs hw hx
          simp only [List.isEmpty_iff, if_neg hx]
          rw [bind_ok (ignore_ok hn)]; rfl
    show writeResponseToDownstream crates (.body b e) d = _
    unfold writeResponseToDownstream
    rw [bind_ok htask]
    exact finishIf_healthy (sent_healthy hs _) he
  | t :: t' :: ts =>
    show vectoredWriteResponseToDownstream crates (t :: t' :: ts) d = _
    unfold vectoredWriteResponseToDownstream
    exact vectored_rest hs hw hv _ hts false he

/-! ## The head -/

/-- The mode of a response body on the client's side. -/
def selectResponseWriter (req : RequestHeader) (resp : ResponseHeader) (w : BodyWriter) : BodyWriter :=
  if resp.status = 204 ∨ resp.status = 304 ∨ req.method = head then w.withContentLengthWrite 0
  else if resp.isInformational = true ∧ resp.status ≠ 101 then w
  else if Utils.isRequestUpgrade req && Utils.isResponseUpgrade resp then w.withUntilClosedWrite
  else if Utils.isHeaderValueChunkEncoding (resp.getHeader transferEncoding) then w.withChunkedEncodingWrite
  else
    match Utils.getContentLengthValue (resp.getHeader contentLength) with
    | some length => w.withContentLengthWrite length
    | none => w.withUntilClosedWrite

/-- The head as it is sent. -/
def updated (crates : Crates) (d : Downstream) (resp : ResponseHeader) : ResponseHeader :=
  if !resp.isInformational && d.updateResponseHeaders then
    (resp.insertHeader (ascii "Date") crates.httpDate).insertHeader (ascii "Connection")
      (ascii (if d.isSessionKeepalive then "keep-alive" else "close"))
  else resp

theorem updateHeaders_eq (resp : ResponseHeader) : updateHeaders crates resp d = (.ok (d.updated crates resp), d) := by
  unfold updateHeaders updated
  simp only [get_bind_apply]
  split <;> rfl

theorem updated_status (resp : ResponseHeader) : (d.updated crates resp).status = resp.status := by
  unfold updated; split <;> rfl

theorem updated_isInformational (resp : ResponseHeader) :
    (d.updated crates resp).isInformational = resp.isInformational := by
  unfold ResponseHeader.isInformational; rw [updated_status]

/-- The fields that frame the body are sent on as they came. -/
theorem updated_getHeader (resp : ResponseHeader) {name : Bytes} (h1 : name ≠ lowerName (ascii "Date"))
    (h2 : name ≠ lowerName (ascii "Connection")) : (d.updated crates resp).getHeader name = resp.getHeader name := by
  unfold updated
  split
  · exact (HeaderMap.get_insert_ne _ h2 _).trans (HeaderMap.get_insert_ne _ h1 _)
  · rfl

theorem isSessionUpgrade_eq (hreq : d.requestHeader = some req) (resp : ResponseHeader) :
    isSessionUpgrade resp d = (.ok (Utils.isRequestUpgrade req && Utils.isResponseUpgrade resp), d) := by
  unfold isSessionUpgrade
  rw [bind_ok (isRequestUpgrade_eq hreq)]
  cases Utils.isRequestUpgrade req <;> rfl

theorem setResponseBodyWriter_eq (hreq : d.requestHeader = some req) (resp : ResponseHeader) :
    setResponseBodyWriter resp d = (.ok (), { d with bodyWriter := selectResponseWriter req resp d.bodyWriter }) := by
  have hno : orElse (resp.status == 204 || resp.status == 304) (do return (← getRequestHeaders).method == head) d =
      (.ok (decide (resp.status = 204 ∨ resp.status = 304 ∨ req.method = head)), d) := by
    by_cases h : resp.status = 204 ∨ resp.status = 304
    · have : (resp.status == 204 || resp.status == 304) = true := by simpa using h
      rw [this, orElse_true, pure_apply]
      simp [← or_assoc, h]
    · have : (resp.status == 204 || resp.status == 304) = false := by simpa using h
      rw [this, orElse_false, bind_ok (getRequestHeaders_eq hreq), pure_apply, Bool.beq_eq_decide_eq]
      simp [← or_assoc, h]
  unfold setResponseBodyWriter selectResponseWriter
  rw [bind_ok hno]
  simp only [decide_eq_true_eq, Bool.and_eq_true, bne_iff_ne]
  split
  · rfl
  · split
    · rfl
    · rw [bind_ok (isSessionUpgrade_eq hreq resp)]
      unfold setWriter
      cases Utils.isRequestUpgrade req <;> cases Utils.isResponseUpgrade resp <;>
        cases Utils.isHeaderValueChunkEncoding (resp.getHeader transferEncoding) <;>
        cases Utils.getContentLengthValue (resp.getHeader contentLength) <;> rfl

/-- The head is not sent on. -/
def headDropped (d : Downstream) (resp : ResponseHeader) : Bool :=
  resp.isInformational && (d.ignoreResponseHeaders && resp.status != 100) || d.isResponseHeaderSent

theorem isIgnoringResponseHeaders_eq (d : Downstream) (code : Nat) :
    isIgnoringResponseHeaders code d = (.ok (d.ignoreResponseHeaders && code != 100), d) := by
  unfold isIgnoringResponseHeaders
  simp only [get_bind_apply]
  cases hc : d.ignoreResponseHeaders && code != 100 with
  | false => rfl
  | true =>
    have h100 : (code == 100) = false := by
      rw [Bool.and_eq_true, bne_iff_ne] at hc
      exact beq_eq_false_iff_ne.mpr hc.2
    rw [andAlso_true, h100, andAlso_false]; rfl

/-- Whether an informational head is ignored. -/
theorem ignoring_eq (d : Downstream) (resp : ResponseHeader) :
    andAlso resp.isInformational (isIgnoringResponseHeaders resp.status) d =
      (.ok (resp.isInformational && (d.ignoreResponseHeaders && resp.status != 100)), d) := by
  cases resp.isInformational with
  | false => rfl
  | true => rw [andAlso_true, isIgnoringResponseHeaders_eq, Bool.true_and]

theorem writeResponseHeaders_dropped {resp : ResponseHeader} (hd : d.headDropped resp = true) :
    writeResponseHeaders crates resp d = (.ok (), d) := by
  unfold headDropped at hd
  unfold writeResponseHeaders
  rw [bind_ok (ignoring_eq d resp)]
  cases hg : resp.isInformational && (d.ignoreResponseHeaders && resp.status != 100) with
  | true => rfl
  | false =>
    rw [hg, Bool.false_or] at hd
    simp only [Bool.false_eq_true, if_false, get_bind_apply, hd, if_true, pure_apply]

/-- The head answers an upgrade request, and takes it. -/
def answersUpgrade (req : RequestHeader) (resp : ResponseHeader) : Bool :=
  Utils.isRequestUpgrade req && Utils.isResponseUpgrade resp

theorem answersUpgrade_updated (req : RequestHeader) (resp : ResponseHeader) :
    answersUpgrade req (d.updated crates resp) = answersUpgrade req resp := by
  unfold answersUpgrade updated
  split <;> rfl

/-- The session a head is sent from. -/
def prepared (crates : Crates) (d : Downstream) (req : RequestHeader) (resp : ResponseHeader) : Downstream :=
  let d' := if resp.status = 101 then { d with keepaliveTimeout := .set none } else d
  if resp.status = 101 ∨ resp.isInformational = false then
    let d' := if answersUpgrade req resp then { d' with upgrade := true }
      else { d' with bodyReader := d.bodyReader.withContentLengthRead 0 [] }
    { d' with bodyWriter := selectResponseWriter req (d.updated crates resp) d.bodyWriter }
  else d'

theorem writeResponseHeaders_prepared (hreq : d.requestHeader = some req) {resp : ResponseHeader}
    (hd : d.headDropped resp = false) :
    writeResponseHeaders crates resp d = sendHeaders crates (d.updated crates resp) (d.prepared crates req resp) := by
  unfold headDropped at hd
  rw [Bool.or_eq_false_iff] at hd
  -- the reader is closed, or the session an upgrade's, and the writer is set
  have hset : ∀ d1 : Downstream, d1.requestHeader = some req → (do
      (if ← isSessionUpgrade (d.updated crates resp) then modify fun d => { d with upgrade := true }
        else setReader (·.withContentLengthRead 0 []))
      setResponseBodyWriter (d.updated crates resp) : M Unit) d1 =
        (.ok (), { (if answersUpgrade req resp then { d1 with upgrade := true }
            else { d1 with bodyReader := d1.bodyReader.withContentLengthRead 0 [] } : Downstream) with
          bodyWriter := selectResponseWriter req (d.updated crates resp) d1.bodyWriter }) := by
    intro d1 h1
    have hsession : isSessionUpgrade (d.updated crates resp) d1 = (.ok (answersUpgrade req resp), d1) := by
      rw [isSessionUpgrade_eq h1, ← answersUpgrade_updated req resp, answersUpgrade]
    rw [bind_ok hsession]
    cases answersUpgrade req resp with
    | true => exact setResponseBodyWriter_eq (d := { d1 with upgrade := true }) h1 _
    | false =>
      exact setResponseBodyWriter_eq (d := { d1 with bodyReader := d1.bodyReader.withContentLengthRead 0 [] }) h1 _
  unfold writeResponseHeaders prepared
  rw [bind_ok (ignoring_eq d resp), hd.1]
  simp only [Bool.false_eq_true, if_false, get_bind_apply, hd.2]
  rw [bind_ok (updateHeaders_eq resp)]
  simp only [updated_status, updated_isInformational]
  by_cases h101 : resp.status = 101
  · simp only [h101, if_true, modify_bind_apply, decide_true, Bool.true_or, true_or]
    rw [bind_ok (hset { d with keepaliveTimeout := .set none } hreq)]
  · simp only [h101, if_false, pure_bind_apply, decide_false, Bool.false_or, false_or, Bool.not_eq_true']
    cases resp.isInformational with
    | true => rfl
    | false =>
      simp only [if_true]
      rw [bind_ok (hset d hreq)]

/-- The session a head is sent from, when it is no upgrade's. -/
def headReady (crates : Crates) (d : Downstream) (req : RequestHeader) (resp : ResponseHeader) : Downstream :=
  let d' := if resp.status = 101 then { d with keepaliveTimeout := .set none } else d
  if resp.status = 101 ∨ resp.isInformational = false then
    { d' with
      bodyReader := d.bodyReader.withContentLengthRead 0 []
      bodyWriter := selectResponseWriter req (d.updated crates resp) d.bodyWriter }
  else d'

theorem writeResponseHeaders_sent (hreq : d.requestHeader = some req) (hup : Utils.isRequestUpgrade req = false)
    {resp : ResponseHeader} (hd : d.headDropped resp = false) :
    writeResponseHeaders crates resp d = sendHeaders crates (d.updated crates resp) (headReady crates d req resp) := by
  have hno : answersUpgrade req resp = false := by rw [answersUpgrade, hup, Bool.false_and]
  rw [writeResponseHeaders_prepared hreq hd]
  unfold prepared headReady
  rw [hno]
  rfl

/-- The session after a final head, no upgrade's, is written as `buf`. -/
def responded (crates : Crates) (d : Downstream) (req : RequestHeader) (resp : ResponseHeader) (buf : Bytes) :
    Downstream :=
  { d.wrote buf with
    bodyReader := d.bodyReader.withContentLengthRead 0 []
    bodyWriter := selectResponseWriter req (d.updated crates resp) d.bodyWriter
    responseHeader := some (d.updated crates resp) }

theorem writeResponseHeaders_final (hs : d.stream.Healthy) (hreq : d.requestHeader = some req)
    (hup : Utils.isRequestUpgrade req = false) (hnone : d.responseHeader = none) {resp : ResponseHeader}
    (hst : 200 ≤ resp.status) {buf : Bytes} (hbuf : (d.updated crates resp).buildToBuffer crates = some buf) :
    writeResponseHeaders crates resp d = (.ok (), d.responded crates req resp buf) := by
  have hinf : resp.isInformational = false := by
    unfold ResponseHeader.isInformational
    rw [Bool.and_eq_false_iff]; exact Or.inr (by simpa using hst)
  have hsent : d.isResponseHeaderSent = false := by unfold isResponseHeaderSent; rw [hnone]
  have hd : d.headDropped resp = false := by
    unfold headDropped
    rw [hinf, Bool.false_and, hsent]; rfl
  rw [writeResponseHeaders_sent hreq hup hd]
  unfold headReady
  rw [if_neg (show ¬ resp.status = 101 by omega), if_pos (Or.inr hinf)]
  unfold sendHeaders
  rw [hbuf]
  simp only [Stream.writeAll_healthy (s := d.stream) hs]
  rfl

theorem not_interim {resp : ResponseHeader} (hst : 200 ≤ resp.status ∨ resp.status = 101) :
    ¬ (resp.isInformational = true ∧ resp.status ≠ 101) := by
  unfold ResponseHeader.isInformational
  simp only [Bool.and_eq_true, decide_eq_true_eq]; omega

theorem selectResponseWriter_ne_start {resp : ResponseHeader} (hst : 200 ≤ resp.status) (w : BodyWriter) :
    (selectResponseWriter req resp w).writeState ≠ .start := by
  unfold selectResponseWriter
  rw [if_neg (not_interim (Or.inl hst))]
  split
  · simp [BodyWriter.withContentLengthWrite]
  · split
    · simp [BodyWriter.withUntilClosedWrite]
    · split
      · simp [BodyWriter.withChunkedEncodingWrite]
      · split <;> simp [BodyWriter.withContentLengthWrite, BodyWriter.withUntilClosedWrite]

/-- One call with the head and body tasks. -/
theorem writeDownstreamResponse_head (hs : d.stream.Healthy) (hreq : d.requestHeader = some req)
    (hup : Utils.isRequestUpgrade req = false) (hnone : d.responseHeader = none) (hv : d.writeBodyVecBuffer = [])
    {resp : ResponseHeader} (hst : 200 ≤ resp.status) {buf : Bytes}
    (hbuf : (d.updated crates resp).buildToBuffer crates = some buf) (e : Bool) (ts : List Task)
    (hts : ∀ t ∈ ts, t.IsBody)
    (he : lastEnd e ts = true → ((d.responded crates req resp buf).sent (dataOf ts)).bodyWriter.short = false) :
    writeDownstreamResponse crates (.header resp e :: ts) d =
      (.ok (lastEnd e ts), ((d.responded crates req resp buf).sent (dataOf ts)).endedIf (lastEnd e ts)) := by
  have hwrite := writeResponseHeaders_final hs hreq hup hnone hst hbuf
  match ts with
  | [] =>
    have htask : writeResponseTask crates (.header resp e) d = (.ok e, d.responded crates req resp buf) :=
      bind_ok hwrite
    show writeResponseToDownstream crates (.header resp e) d = _
    unfold writeResponseToDownstream
    rw [bind_ok htask]
    simp only [dataOf, List.map_nil, List.flatten_nil, sent_nil] at he ⊢
    exact finishIf_healthy (d := d.responded crates req resp buf) hs he
  | t :: ts =>
    have htask : vectoredResponseTask crates (.header resp e) d = (.ok e, d.responded crates req resp buf) :=
      bind_ok hwrite
    have hcons : vectoredTasks crates false (.header resp e :: t :: ts) d =
        vectoredTasks crates e (t :: ts) (d.responded crates req resp buf) := by
      rw [vectoredTasks, bind_ok htask]
    show vectoredWriteResponseToDownstream crates (.header resp e :: t :: ts) d = _
    unfold vectoredWriteResponseToDownstream
    rw [bind_apply, hcons, ← bind_apply]
    exact vectored_rest (d := d.responded crates req resp buf) hs
      (selectResponseWriter_ne_start (by rw [updated_status]; exact hst) _) hv (t :: ts) hts e he

/-! ## All the calls -/

/-- The calls of the writer, one for each batch, and what they return. -/
def writeAll (crates : Crates) : List (List Task) → Downstream → Option (List Bool × Downstream)
  | [], d => some ([], d)
  | g :: gs, d =>
    match writeDownstreamResponse crates g d with
    | (.ok e, d) => (writeAll crates gs d).map fun (es, d) => (e :: es, d)
    | _ => none

/-- `false` for every call but the last. -/
def onlyLast (n : Nat) : List Bool := List.replicate (n - 1) false ++ [true]

theorem onlyLast_cons {gs : List (List Task)} (hne : gs ≠ []) (g : List Task) :
    onlyLast (g :: gs).length = false :: onlyLast gs.length := by
  obtain ⟨g', gs, rfl⟩ := List.exists_cons_of_ne_nil hne
  unfold onlyLast
  simp [List.replicate_succ]

theorem writeAll_cons {g : List Task} {gs : List (List Task)} {e : Bool} {d' : Downstream}
    (h : writeDownstreamResponse crates g d = (.ok e, d')) :
    writeAll crates (g :: gs) d = (writeAll crates gs d').map fun (es, d) => (e :: es, d) := by
  rw [writeAll, h]

/-- Bytes of the body go out as the mode has them. -/
theorem sent_written {total : Nat} {st : WriteState} {wire data : Bytes}
    (hw : Written total st d.bodyWriter wire data) (x : Bytes) (hle : data.length + x.length ≤ total)
    (htotal : total < usizeEnd) :
    ∃ y, (d.sent x).stream.output = d.stream.output ++ y ∧ (d.sent x).writeBodyVecBuffer = d.writeBodyVecBuffer ∧
      Written total st (d.sent x).bodyWriter (wire ++ y) (data ++ x) := by
  by_cases hx : x = []
  · subst hx
    rw [sent_nil]
    exact ⟨[], (List.append_nil _).symm, rfl, by simpa using hw⟩
  · unfold sent
    rw [if_neg hx]
    exact ⟨_, rfl, rfl, hw.emit hx hle htotal⟩

theorem flatten_eq_nil {gs : List (List Task)} (hne : ∀ g ∈ gs, g ≠ []) (h : gs.flatten = []) : gs = [] := by
  cases gs with
  | nil => rfl
  | cons g gs =>
    rw [List.flatten_cons, List.append_eq_nil_iff] at h
    exact absurd h.1 (hne g (List.mem_cons_self ..))

/-- What a call with body tasks leaves to do: nothing, or the rest of the body. `d` is
    the session before the batch's bytes. -/
theorem batch_cases {total : Nat} {st : WriteState} (htotal : total < usizeEnd) {g : List Task} {gs : List (List Task)}
    {wire data left : Bytes} (e : Bool) (hg : g ≠ []) (hgs : ∀ g ∈ gs, g ≠ []) (hb : Bodies (g ++ gs.flatten) left)
    (hw : Written total st d.bodyWriter wire data) (hlen : data.length + left.length = total) :
    (lastEnd e g = true → (d.sent (dataOf g)).bodyWriter.short = false) ∧
    (gs = [] ∧ lastEnd e g = true ∧ (∃ more, (d.sent (dataOf g)).ended.stream.output = d.stream.output ++ more ∧
        Decodes st (wire ++ more) (data ++ left)) ∨
      gs ≠ [] ∧ lastEnd e g = false ∧ ∃ y left', (d.sent (dataOf g)).stream.output = d.stream.output ++ y ∧
        Bodies gs.flatten left' ∧ (d.sent (dataOf g)).writeBodyVecBuffer = d.writeBodyVecBuffer ∧
        Written total st (d.sent (dataOf g)).bodyWriter (wire ++ y) (data ++ dataOf g) ∧
        left = dataOf g ++ left') := by
  rcases hb.split e rfl hg with ⟨hrest, hend, rfl⟩ | ⟨left', hb', hend, rfl⟩
  · obtain rfl := flatten_eq_nil hgs hrest
    obtain ⟨y, hout, -, hw'⟩ := sent_written hw (dataOf g) (by omega) htotal
    obtain ⟨hshort, hdec⟩ := hw'.close (by rw [List.length_append]; exact hlen)
    refine ⟨fun _ => hshort, Or.inl ⟨rfl, hend, y ++ (d.sent (dataOf g)).bodyWriter.closing.1, ?_, ?_⟩⟩
    · rw [ended_output, hout, List.append_assoc]
    · rw [← List.append_assoc]; exact hdec
  · rw [List.length_append] at hlen
    obtain ⟨y, hout, hv', hw'⟩ := sent_written hw (dataOf g) (by omega) htotal
    have hgs0 : gs ≠ [] := by rintro rfl; cases hb'
    refine ⟨fun h => ?_, Or.inr ⟨hgs0, hend, y, left', hout, hb', hv', hw', rfl⟩⟩
    rw [hend] at h; cases h

/-- However body tasks are batched, they are written as one body, and the last call, and
    no other, says the response is over. -/
theorem writeAll_bodies (crates : Crates) {total : Nat} {st : WriteState} (htotal : total < usizeEnd) : ∀ (gs : List (List Task))
    {d : Downstream} {wire data left : Bytes}, (∀ g ∈ gs, g ≠ []) → Bodies gs.flatten left → d.stream.Healthy →
    d.writeBodyVecBuffer = [] → Written total st d.bodyWriter wire data → data.length + left.length = total →
    ∃ d' more, writeAll crates gs d = some (onlyLast gs.length, d') ∧
      d'.stream.output = d.stream.output ++ more ∧ Decodes st (wire ++ more) (data ++ left) := by
  intro gs
  induction gs with
  | nil => intro d wire data left _ hb; cases hb
  | cons g gs ih =>
    intro d wire data left hne hb hs hv hw hlen
    have hg := hne g (List.mem_cons_self ..)
    have hgs : ∀ g ∈ gs, g ≠ [] := fun g hg => hne g (List.mem_cons_of_mem _ hg)
    rw [List.flatten_cons] at hb
    obtain ⟨hshort, hcases⟩ := batch_cases htotal false hg hgs hb hw hlen
    have hcall := writeDownstreamResponse_bodies crates hs hw.ne_start hv hg
      (fun t ht => hb.isBody t (List.mem_append_left _ ht)) hshort
    rcases hcases with ⟨rfl, hend, more, hout, hdec⟩ | ⟨hgs0, hend, y, left', hout, hb', hv', hw', rfl⟩
    · rw [hend] at hcall
      exact ⟨_, more, by rw [writeAll_cons hcall]; rfl, hout, hdec⟩
    · rw [hend] at hcall
      rw [List.length_append] at hlen
      obtain ⟨d', more, hrun, hout', hdec⟩ := ih hgs hb' (sent_healthy hs (dataOf g)) (hv'.trans hv) hw'
        (by rw [List.length_append]; omega)
      refine ⟨d', y ++ more, ?_, by rw [hout', hout, List.append_assoc], ?_⟩
      · rw [writeAll_cons hcall, onlyLast_cons hgs0]
        simp only [endedIf, Bool.false_eq_true, if_false, hrun, Option.map_some]
      · rw [← List.append_assoc, ← List.append_assoc]; exact hdec

/-! ## A whole response -/

/-- The mode chosen for a delimited body fits it. -/
theorem written_selected {resp : ResponseHeader} (hst : 200 ≤ resp.status) (hup : Utils.isRequestUpgrade req = false)
    {wire data : Bytes} {after : List ReadEv} (hd : Upstream.Delimited req resp wire after data) (w : BodyWriter) :
    Written data.length (selectResponseWriter req (d.updated crates resp) w).writeState
      (selectResponseWriter req (d.updated crates resp) w) [] [] := by
  have hte : (d.updated crates resp).getHeader transferEncoding = resp.getHeader transferEncoding :=
    updated_getHeader resp (by decide) (by decide)
  have hcl : (d.updated crates resp).getHeader contentLength = resp.getHeader contentLength :=
    updated_getHeader resp (by decide) (by decide)
  have hno : (resp.status = 204 ∨ resp.status = 304 ∨ req.method = head) ↔ Upstream.Bodiless req resp := by
    unfold Upstream.Bodiless
    rw [show head = ascii "HEAD" from rfl]
    tauto
  unfold selectResponseWriter
  rw [updated_status, updated_isInformational, if_neg (not_interim (Or.inl hst)), hup, Bool.false_and, hte, hcl]
  simp only [Bool.false_eq_true, if_false]
  cases hd with
  | bodiless hb =>
    rw [if_pos (hno.mpr hb)]
    exact .length []
  | chunked B rest hb hte' _ _ =>
    rw [if_neg (mt hno.mp hb), hte', if_pos rfl]
    exact .chunked 0 []
  | length hb hte' hcl' =>
    rw [if_neg (mt hno.mp hb), hte', hcl']
    exact .length []
  | untilClosed hb hte' hcl' _ =>
    rw [if_neg (mt hno.mp hb), hte', hcl']
    exact .untilClosed 0 []

/-- However the tasks of a response are batched, the client gets its head and a body
    that holds its data, and the last call, and no other, says it is over. -/
theorem writeAll_response (hs : d.stream.Healthy) (hreq : d.requestHeader = some req)
    (hup : Utils.isRequestUpgrade req = false) (hnone : d.responseHeader = none) (hv : d.writeBodyVecBuffer = [])
    {resp : ResponseHeader} (hst : 200 ≤ resp.status) {wire data : Bytes} {after : List ReadEv}
    (hd : Upstream.Delimited req resp wire after data) {tasks : List Task} (ht : Response resp tasks data)
    {gs : List (List Task)} (hne : ∀ g ∈ gs, g ≠ []) (hgs : gs.flatten = tasks) :
    ∃ d' buf body, writeAll crates gs d = some (onlyLast gs.length, d') ∧
      (d.updated crates resp).buildToBuffer crates = some buf ∧ d'.stream.output = d.stream.output ++ buf ++ body ∧
      Decodes (selectResponseWriter req (d.updated crates resp) d.bodyWriter).writeState body data := by
  obtain ⟨buf, hbuf⟩ := Option.isSome_iff_exists.mp ((d.updated crates resp).buildToBuffer_isSome crates)
  have hw : Written data.length _ (d.responded crates req resp buf).bodyWriter [] [] :=
    written_selected hst hup hd d.bodyWriter
  have hhead := fun (e : Bool) (ts : List Task) => writeDownstreamResponse_head hs hreq hup hnone hv
    hst hbuf e ts
  cases gs with
  | nil => rw [List.flatten_nil] at hgs; subst hgs; cases ht
  | cons g gs =>
    have hgs' : ∀ g ∈ gs, g ≠ [] := fun g hg => hne g (List.mem_cons_of_mem _ hg)
    obtain ⟨t, g, rfl⟩ := List.exists_cons_of_ne_nil (hne g (List.mem_cons_self ..))
    rw [List.flatten_cons, List.cons_append] at hgs
    subst hgs
    generalize hrest : g ++ gs.flatten = rest at ht
    cases ht with
    | headOnly =>
      obtain ⟨rfl, h2⟩ := List.append_eq_nil_iff.mp hrest
      obtain rfl := flatten_eq_nil hgs' h2
      obtain ⟨hshort, hdec⟩ := hw.close rfl
      have hcall := hhead true [] (by simp) (fun _ => by rw [show dataOf [] = [] from rfl, sent_nil]; exact hshort)
      refine ⟨_, buf, _, by rw [writeAll_cons hcall]; rfl, hbuf, ?_, hdec⟩
      rw [show dataOf [] = [] from rfl, sent_nil]
      exact ended_output (d.responded crates req resp buf)
    | withBody hb =>
      subst hrest
      have hbody : ∀ t ∈ g, t.IsBody := fun t ht => hb.isBody t (List.mem_append_left _ ht)
      by_cases hg : g = []
      · -- the first call is the head's alone
        subst hg
        have hgs0 : gs ≠ [] := by rintro rfl; cases hb
        have hcall := hhead false [] (by simp) (fun h => by cases h)
        rw [show dataOf [] = [] from rfl, sent_nil] at hcall
        obtain ⟨d', more, hrun, hout, hdec⟩ := writeAll_bodies crates hd.fits gs
          (d := d.responded crates req resp buf) hgs' hb hs hv hw (Nat.zero_add _)
        refine ⟨d', buf, more, ?_, hbuf, hout, hdec⟩
        rw [writeAll_cons hcall, onlyLast_cons hgs0]
        simp only [endedIf, lastEnd, List.foldl_nil, Bool.false_eq_true, if_false, hrun, Option.map_some]
      · obtain ⟨hshort, hcases⟩ := batch_cases (d := d.responded crates req resp buf) hd.fits false hg hgs' hb hw
          (Nat.zero_add _)
        have hcall := hhead false g hbody hshort
        rcases hcases with ⟨rfl, hend, more, hout, hdec⟩ | ⟨hgs0, hend, y, left', hout, hb', hv', hw', rfl⟩
        · rw [hend] at hcall
          exact ⟨_, buf, more, by rw [writeAll_cons hcall]; rfl, hbuf, hout, hdec⟩
        · rw [hend] at hcall
          obtain ⟨d', more, hrun, hout', hdec⟩ := writeAll_bodies crates hd.fits gs
            (d := (d.responded crates req resp buf).sent (dataOf g)) hgs' hb'
            (sent_healthy (d := d.responded crates req resp buf) hs _) (hv'.trans hv) hw' (by simp)
          refine ⟨d', buf, y ++ more, ?_, hbuf, ?_, ?_⟩
          · rw [writeAll_cons hcall, onlyLast_cons hgs0]
            simp only [endedIf, Bool.false_eq_true, if_false, hrun, Option.map_some]
          · rw [hout', hout, List.append_assoc]; rfl
          · simpa using hdec

/-! ## Calls that go well -/

theorem writeResponseTask_ok {t : Task} {e : Bool} {d' : Downstream} (h : writeResponseTask crates t d = (.ok e, d')) :
    e = t.isEnd ∧ t.isFailed = false := by
  cases t with
  | header resp endStream =>
    obtain ⟨_, d1, -, h2⟩ := of_bind_ok h
    cases h2; exact ⟨rfl, rfl⟩
  | body b endStream =>
    cases b with
    | none => cases h; exact ⟨rfl, rfl⟩
    | some x =>
      obtain ⟨_, d1, -, h2⟩ := of_bind_ok h
      cases h2; exact ⟨rfl, rfl⟩
  | trailer => cases h; exact ⟨rfl, rfl⟩
  | done => cases h; exact ⟨rfl, rfl⟩
  | failed err => cases h

theorem vectoredResponseTask_ok {t : Task} {e : Bool} {d' : Downstream}
    (h : vectoredResponseTask crates t d = (.ok e, d')) : e = t.isEnd ∧ t.isFailed = false := by
  cases t with
  | header resp endStream =>
    obtain ⟨_, d1, -, h2⟩ := of_bind_ok h
    cases h2; exact ⟨rfl, rfl⟩
  | body b endStream => cases b <;> cases h <;> exact ⟨rfl, rfl⟩
  | trailer => cases h; exact ⟨rfl, rfl⟩
  | done => cases h; exact ⟨rfl, rfl⟩
  | failed err =>
    obtain ⟨_, d1, -, h2⟩ := of_bind_ok h
    cases h2

theorem vectoredTasks_ok : ∀ {ts : List Task} {e0 e : Bool} {d d' : Downstream},
    vectoredTasks crates e0 ts d = (.ok e, d') → e = lastEnd e0 ts ∧ ∀ t ∈ ts, t.isFailed = false := by
  intro ts
  induction ts with
  | nil => intro e0 e d d' h; cases h; exact ⟨rfl, by simp⟩
  | cons t ts ih =>
    intro e0 e d d' h
    obtain ⟨e1, d1, h1, h2⟩ := of_bind_ok h
    obtain ⟨rfl, hf⟩ := vectoredResponseTask_ok h1
    obtain ⟨h3, h4⟩ := ih h2
    exact ⟨h3, List.forall_mem_cons.mpr ⟨hf, h4⟩⟩

/-- What a call that goes well gives is the end flag of its last task, and no task was
    a failure. -/
theorem writeDownstreamResponse_ok {ts : List Task} (hne : ts ≠ []) {e : Bool} {d' : Downstream}
    (h : writeDownstreamResponse crates ts d = (.ok e, d')) : e = lastEnd false ts ∧ ∀ t ∈ ts, t.isFailed = false := by
  match ts, hne with
  | [t], _ =>
    obtain ⟨e1, d1, h1, h2⟩ := of_bind_ok h
    obtain ⟨_, d2, -, h3⟩ := of_bind_ok h2
    cases h3
    obtain ⟨rfl, hf⟩ := writeResponseTask_ok h1
    exact ⟨rfl, by simpa using hf⟩
  | t :: t' :: ts, _ =>
    obtain ⟨e1, d1, h1, h2⟩ := of_bind_ok h
    obtain ⟨_, d2, -, h3⟩ := of_bind_ok h2
    obtain ⟨_, d3, -, h4⟩ := of_bind_ok h3
    cases h4
    exact vectoredTasks_ok h1

end Downstream

end Glaive.Session
