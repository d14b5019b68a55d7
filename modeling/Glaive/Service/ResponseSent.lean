/-
  Glaive.Service.ResponseSent — what the tasks of a response put on the wire to the client
  (`core/src/session/downstream.rs`: `write_downstream_response`, `write_response_headers`).

  Heads that others follow go out first, then the last head, then the body (`OnWire`).
  One at a time or gathered in batches, the tasks of a response keep that, and where the
  body is not chunked the wire has the bytes the tasks carried, in their order.
-/

import Glaive.Service.ResponseLeft
import Glaive.Session.BatchedWriting
import Glaive.Session.HeadsWritten
import Glaive.Session.BodyWriting

namespace Glaive.Session

open Glaive.Lib
open Glaive.Lib.Async
open Glaive.Session.Upstream (isLast bodyLength Unchunked)

/-- The heads of a response that came and that others follow, and the last one. -/
abbrev HeadsRead := List ResponseHeader × Option ResponseHeader

def HeadsRead.next (ps : List ResponseHeader) (h : ResponseHeader) : HeadsRead :=
  if isLast h then (ps, some h) else (ps ++ [h], none)

/-- The heads among the tasks of a response, when one more task comes; `none` where that
    task is out of place. -/
def follow : HeadsRead → Task → Option HeadsRead
  | (ps, none), .header h _ => some (.next ps h)
  | (ps, some h), .body _ _ => some (ps, some h)
  | (ps, some h), .done => some (ps, some h)
  | o, .failed _ => some o
  | _, _ => none

theorem follow_last {ps : List ResponseHeader} {h : ResponseHeader} {t : Task} {o : HeadsRead}
    (hf : follow (ps, some h) t = some o) : o = (ps, some h) := by
  cases t <;> cases hf <;> rfl

/-- An error may come at any place. -/
theorem follow_failed (o : HeadsRead) (e : IoError) : follow o (.failed e) = some o := by
  obtain ⟨ps, o⟩ := o
  cases o <;> rfl

namespace Downstream

variable {crates : Crates} {req : RequestHeader} {h : ResponseHeader} {d d' : Downstream} {base data : Bytes}
  {o o' : HeadsRead} {ps : List ResponseHeader}

/-! ## The wire -/

/-- The head goes out as `text`, with the date and the connection's fate if it is final. -/
def ShownAs (crates : Crates) (h : ResponseHeader) (text : Bytes) : Prop :=
  ∃ d : Downstream, d.updateResponseHeaders = true ∧ (d.updated crates h).buildToBuffer crates = some text

/-- Heads that others follow, as they go out. -/
inductive Interim (crates : Crates) : List ResponseHeader → Bytes → Prop
  | nil : Interim crates [] []
  | snoc {ps : List ResponseHeader} {front text : Bytes} {h : ResponseHeader} : Interim crates ps front →
      isLast h = false → ShownAs crates h text → Interim crates (ps ++ [h]) (front ++ text)

/-- A session that answers `req`, which asks for no upgrade. -/
structure Replying (req : RequestHeader) (d : Downstream) : Prop where
  request : d.requestHeader = some req
  flag : d.ignoreResponseHeaders = false
  update : d.updateResponseHeaders = true
  upgrade : d.upgrade = false

/-- The body of `h` carried `data` so far, and has `written` of it on the wire. -/
structure Written (req : RequestHeader) (h : ResponseHeader) (d : Downstream) (written data : Bytes) (ended : Bool) :
    Prop where
  plain : Unchunked req h → BodyWriter.Counted (bodyLength req h) d.bodyWriter written ended ∧
    data = written ++ d.writeBodyVecBuffer
  chunked : ¬ Unchunked req h → ∃ pieces, BodyWriter.Chunking d.bodyWriter pieces written ended ∧
    data = pieces.flatten ++ d.writeBodyVecBuffer

/-- What is on the wire past `base`, of tasks that carried `data`; the flag says that the
    body was ended. -/
inductive OnWire (crates : Crates) (req : RequestHeader) (base : Bytes) (d : Downstream) :
    HeadsRead → Bytes → Bool → Prop
  | heads {ps : List ResponseHeader} {front : Bytes} {ended : Bool} : Interim crates ps front →
      d.stream.output = base ++ front → d.isResponseHeaderSent = false → d.bodyWriter = .new →
      d.writeBodyVecBuffer = [] →
      OnWire crates req base d (ps, none) [] ended
  | body {ps : List ResponseHeader} {h : ResponseHeader} {front text written data : Bytes} {ended : Bool} :
      Interim crates ps front → ShownAs crates h text → isLast h = true →
      d.stream.output = base ++ (front ++ text) ++ written → Written req h d written data ended →
      OnWire crates req base d (ps, some h) data ended

/-! ## One task -/

/-- The mode the last head sets the writer to. -/
theorem select_last_writer (hup : Utils.isRequestUpgrade req = false) (hlast : isLast h = true) (w : BodyWriter) :
    selectResponseWriter req (d.updated crates h) w =
      if Upstream.Bodiless req h then w.withContentLengthWrite 0
      else if Utils.isHeaderValueChunkEncoding (h.getHeader transferEncoding) then w.withChunkedEncodingWrite
      else
        match Utils.getContentLengthValue (h.getHeader contentLength) with
        | some length => w.withContentLengthWrite length
        | none => w.withUntilClosedWrite := by
  have hnot : ¬ (h.isInformational = true ∧ h.status ≠ 101) := by
    rintro ⟨hinf, h101⟩
    simp [isLast, hinf, h101] at hlast
  unfold selectResponseWriter
  rw [updated_status, updated_isInformational, updated_getHeader h (by decide) (by decide),
    updated_getHeader h (by decide) (by decide), hup, Bool.false_and, if_neg hnot]
  by_cases hno : Upstream.Bodiless req h
  · rw [if_pos hno, if_pos (show h.status = 204 ∨ h.status = 304 ∨ req.method = head by
      rcases hno with hm | hst | hst
      · exact .inr (.inr hm)
      · exact .inl hst
      · exact .inr (.inl hst))]
  · rw [if_neg hno, if_neg (show ¬ (h.status = 204 ∨ h.status = 304 ∨ req.method = head) by
      rintro (hst | hst | hm)
      · exact hno (.inr (.inl hst))
      · exact hno (.inr (.inr hst))
      · exact hno (.inl hm))]
    rfl

theorem select_written (hup : Utils.isRequestUpgrade req = false) (hlast : isLast h = true)
    (hw : d'.bodyWriter = selectResponseWriter req (d.updated crates h) d.bodyWriter) (hv : d'.writeBodyVecBuffer = []) :
    Written req h d' [] [] false := by
  rw [select_last_writer hup hlast] at hw
  refine ⟨fun hc => ⟨?_, hv.symm⟩, fun hc => ⟨[], ?_, hv.symm⟩⟩
  · rw [hw]
    unfold bodyLength
    by_cases hno : Upstream.Bodiless req h
    · rw [if_pos hno, if_pos hno]
      exact BodyWriter.counted_length 0
    · rw [if_neg hno, if_neg hno, hc.resolve_left hno]
      simp only [Bool.false_eq_true, if_false]
      cases Utils.getContentLengthValue (h.getHeader contentLength) with
      | some n => exact BodyWriter.counted_length n
      | none => exact BodyWriter.counted_untilClosed
  · obtain ⟨hno, hchunk⟩ := not_or.mp hc
    rw [hw, if_neg hno, if_pos (by simpa using hchunk)]
    exact BodyWriter.chunking_withChunkedEncodingWrite

/-- A head is sent, whichever it is. -/
theorem OnWire.head (hs : OnWire crates req base d (ps, none) data false) (hr : Replying req d)
    (hup : Utils.isRequestUpgrade req = false) (hok : writeResponseHeaders crates h d = (.ok (), d')) :
    Replying req d' ∧ OnWire crates req base d' (.next ps h) data false := by
  cases hs with
  | @heads _ front _ hfront hout hsent hw hv =>
    have hd : d.headDropped h = false := by
      unfold headDropped
      rw [hr.flag, hsent, Bool.false_and, Bool.and_false]
      rfl
    rw [writeResponseHeaders_sent hr.request hup hd] at hok
    unfold sendHeaders at hok
    cases hb : (d.updated crates h).buildToBuffer crates with
    | none =>
      rw [hb] at hok
      cases hok
    | some text =>
      rw [hb] at hok
      have hshown : ShownAs crates h text := ⟨d, hr.update, hb⟩
      have hstream : (headReady crates d req h).stream = d.stream := by
        unfold headReady
        split <;> split <;> rfl
      simp only [hstream] at hok
      split at hok <;> cases hok
      rename_i s hwrite
      have hout' : s.output = base ++ (front ++ text) := by
        rw [(Stream.writeAll_ok hwrite).1, hout, List.append_assoc]
      refine ⟨?_, ?_⟩
      · unfold headReady
        split <;> split <;> exact ⟨hr.request, hr.flag, hr.update, hr.upgrade⟩
      unfold HeadsRead.next
      cases hlast : isLast h with
      | false =>
        unfold isLast at hlast
        rw [Bool.or_eq_false_iff, Bool.not_eq_false', beq_eq_false_iff_ne] at hlast
        have hready : headReady crates d req h = d := by
          unfold headReady
          rw [if_neg hlast.2, if_neg (by simp [hlast.1, hlast.2])]
        rw [hready]
        refine .heads (.snoc hfront (by simp [isLast, hlast.1, hlast.2]) hshown) hout' ?_ hw hv
        simp only [isResponseHeaderSent, updated_isInformational, hlast.1, hr.upgrade]
        rfl
      | true =>
        have hready : h.status = 101 ∨ h.isInformational = false := by
          unfold isLast at hlast
          rw [Bool.or_eq_true, Bool.not_eq_true', beq_iff_eq] at hlast
          exact hlast.symm
        have hwriter : (headReady crates d req h).bodyWriter = selectResponseWriter req (d.updated crates h) d.bodyWriter := by
          unfold headReady
          rw [if_pos hready]
        have hgathered : (headReady crates d req h).writeBodyVecBuffer = [] := by
          unfold headReady
          rw [if_pos hready]
          split <;> exact hv
        exact .body hfront hshown hlast (hout'.trans (List.append_nil _).symm) (select_written hup hlast hwriter hgathered)

/-- A body task is gathered, and is on no wire yet. -/
theorem OnWire.gather (hs : OnWire crates req base d (ps, some h) data false) (x : Bytes) :
    OnWire crates req base { d with writeBodyVecBuffer := d.writeBodyVecBuffer ++ x } (ps, some h) (data ++ x) false := by
  cases hs with
  | body hfront hshown hlast hout hcount =>
    refine .body hfront hshown hlast hout ⟨fun hc => ?_, fun hc => ?_⟩
    · obtain ⟨hw, hdata⟩ := hcount.plain hc
      exact ⟨hw, by rw [hdata, List.append_assoc]⟩
    · obtain ⟨pieces, hw, hdata⟩ := hcount.chunked hc
      exact ⟨pieces, hw, by rw [hdata, List.append_assoc]⟩

theorem Replying.gather (hr : Replying req d) (v : Bytes) : Replying req { d with writeBodyVecBuffer := v } :=
  ⟨hr.request, hr.flag, hr.update, hr.upgrade⟩

/-- A task of a batch. -/
theorem OnWire.vectored (hs : OnWire crates req base d o data false) (hr : Replying req d)
    (hup : Utils.isRequestUpgrade req = false) {t : Task} {e : Bool} (hf : follow o t = some o')
    (hok : vectoredResponseTask crates t d = (.ok e, d')) :
    Replying req d' ∧ OnWire crates req base d' o' (data ++ t.data) false := by
  have hsame : data ++ [] = data := List.append_nil _
  obtain ⟨ps, o⟩ := o
  cases t with
  | header resp e' =>
    obtain ⟨_, d1, h1, h2⟩ := of_bind_ok hok
    cases h2
    cases o with
    | some h => cases hf
    | none =>
      cases hf
      show Replying req d' ∧ OnWire crates req base d' _ (data ++ []) false
      rw [hsame]
      exact hs.head hr hup h1
  | body b e' =>
    cases o with
    | none => cases hf
    | some h =>
      cases hf
      cases b with
      | none =>
        cases hok
        exact ⟨hr, hsame.symm ▸ hs⟩
      | some x =>
        cases hok
        exact ⟨hr.gather _, hs.gather x⟩
  | trailer => cases o <;> cases hf
  | done =>
    cases hok
    cases o with
    | none => cases hf
    | some h =>
      cases hf
      exact ⟨hr, hsame.symm ▸ hs⟩
  | failed err =>
    obtain ⟨_, d1, -, h2⟩ := of_bind_ok hok
    cases h2

/-! ## A batch -/

/-- The last head among tasks that follow one another. -/
def followAll (o : HeadsRead) (ts : List Task) : Option HeadsRead := ts.foldlM follow o

theorem OnWire.tasks (hup : Utils.isRequestUpgrade req = false) : ∀ (ts : List Task) {d d' : Downstream}
    {o o' : HeadsRead} {data : Bytes} {e0 e : Bool}, OnWire crates req base d o data false → Replying req d →
    followAll o ts = some o' → vectoredTasks crates e0 ts d = (.ok e, d') →
    Replying req d' ∧ OnWire crates req base d' o' (data ++ dataOf ts) false := by
  intro ts
  induction ts with
  | nil =>
    intro d d' o o' data e0 e hs hr hf hok
    cases hf
    cases hok
    exact ⟨hr, (List.append_nil data).symm ▸ hs⟩
  | cons t ts ih =>
    intro d d' o o' data e0 e hs hr hf hok
    unfold followAll at hf
    rw [List.foldlM_cons] at hf
    obtain ⟨o1, h1, h2⟩ := Option.bind_eq_some_iff.mp hf
    obtain ⟨e1, d1, h3, h4⟩ := of_bind_ok hok
    obtain ⟨hr1, hs1⟩ := hs.vectored hr hup h1 h3
    have := ih hs1 hr1 h2 h4
    rw [List.append_assoc] at this
    exact this

/-- What was gathered fits under the length. -/
def Fits (req : RequestHeader) (o : HeadsRead) (data : Bytes) : Prop :=
  ∀ h, o.2 = some h → Unchunked req h → ∀ total, bodyLength req h = some total → data.length ≤ total

/-- What was gathered goes out. -/
theorem OnWire.wrote (hs : OnWire crates req base d (ps, some h) data false) (hfits : Fits req (ps, some h) data)
    (hne : d.writeBodyVecBuffer ≠ []) {s : Stream}
    (hout : s.output = d.stream.output ++ (d.bodyWriter.emit d.writeBodyVecBuffer).1) :
    OnWire crates req base
      { d with bodyWriter := (d.bodyWriter.emit d.writeBodyVecBuffer).2, stream := s, writeBodyVecBuffer := [] }
      (ps, some h) data false := by
  cases hs with
  | @body _ _ front text written _ _ hfront hshown hlast hold hcount =>
    have hnew : s.output = base ++ (front ++ text) ++ (written ++ (d.bodyWriter.emit d.writeBodyVecBuffer).1) := by
      rw [hout, hold, List.append_assoc]
    refine .body hfront hshown hlast hnew ⟨fun hc => ?_, fun hc => ?_⟩
    · obtain ⟨hw, rfl⟩ := hcount.plain hc
      obtain ⟨hemit, hw'⟩ := hw.emit (hfits h rfl hc) nofun
      rw [hemit, List.append_nil]
      exact ⟨hw', rfl⟩
    · obtain ⟨pieces, hw, hdata⟩ := hcount.chunked hc
      refine ⟨pieces ++ [d.writeBodyVecBuffer], hw.emit hne, ?_⟩
      rw [hdata, List.append_nil, List.flatten_append]
      exact congrArg _ (List.append_nil _).symm

theorem OnWire.flush (hs : OnWire crates req base d o data false) (hr : Replying req d) (hfits : Fits req o data)
    (hok : ignore vectoredWriteResponseBody d = (.ok (), d')) :
    Replying req d' ∧ OnWire crates req base d' o data false ∧ d'.writeBodyVecBuffer = [] := by
  obtain ⟨n, d1, h1, h2⟩ := of_bind_ok hok
  cases h2
  unfold vectoredWriteResponseBody at h1
  rw [get_bind_apply] at h1
  by_cases hv : d.writeBodyVecBuffer = []
  · rw [hv] at h1
    cases h1
    exact ⟨hr, hs, hv⟩
  · rw [if_neg (by simpa using hv)] at h1
    cases hs with
    | heads _ _ _ _ hnil => exact absurd hnil hv
    | @body ps h front text written _ _ hfront hshown hlast hout hcount =>
      rcases hw : onWriter (BodyWriter.writeBody d.writeBodyVecBuffer) d with ⟨res, d2⟩
      rw [hw] at h1
      cases h1
      obtain ⟨⟨w, s⟩, h3, rfl⟩ := of_zoom_ok hw
      obtain ⟨rfl, hs', -⟩ := BodyWriter.writeBody_ok h3
      exact ⟨⟨hr.request, hr.flag, hr.update, hr.upgrade⟩,
        (OnWire.body hfront hshown hlast hout hcount).wrote hfits hv hs', rfl⟩

theorem forceClosed_plain (hup : d.upgrade = false) : d.forceClosed = d := by
  unfold forceClosed
  rw [hup, Bool.false_and, if_neg Bool.false_ne_true]

/-- The body is ended. -/
theorem OnWire.finish (hs : OnWire crates req base d o data false) (hr : Replying req d)
    (hv : d.writeBodyVecBuffer = []) (hok : ignore finishWritingResponseBody d = (.ok (), d')) :
    Replying req d' ∧ OnWire crates req base d' o data true ∧ d'.writeBodyVecBuffer = [] := by
  obtain ⟨n, d1, h1, h2⟩ := of_bind_ok hok
  cases h2
  unfold finishWritingResponseBody onWriter at h1
  obtain ⟨_, d2, h3, h4⟩ := of_bind_ok h1
  obtain ⟨⟨w, s⟩, h5, rfl⟩ := of_zoom_ok h3
  have hnot := BodyWriter.finish_not_short h5
  obtain ⟨rfl, hout', -⟩ := BodyWriter.finish_ok h5
  rw [bind_ok (forceCloseRequestBodyReader_eq _)] at h4
  cases h4
  rw [forceClosed_plain (by exact hr.upgrade)]
  refine ⟨⟨hr.request, hr.flag, hr.update, hr.upgrade⟩, ?_, hv⟩
  cases hs with
  | heads hfront hout hsent hw hnil =>
    rw [hw] at hout' ⊢
    exact .heads hfront (hout'.trans ((List.append_nil _).trans hout)) hsent rfl hnil
  | @body ps h front text written _ _ hfront hshown hlast hout hcount =>
    have hnew : s.output = base ++ (front ++ text) ++ (written ++ d.bodyWriter.closing.1) := by
      rw [hout', hout, List.append_assoc]
    refine .body hfront hshown hlast hnew ⟨fun hc => ?_, fun hc => ?_⟩
    · obtain ⟨hw, hdata⟩ := hcount.plain hc
      obtain ⟨hnil, hw'⟩ := hw.closing hnot
      rw [hnil, List.append_nil]
      exact ⟨hw', hdata⟩
    · obtain ⟨pieces, hw, hdata⟩ := hcount.chunked hc
      exact ⟨pieces, hw.closing, hdata⟩

theorem OnWire.finishIf (hs : OnWire crates req base d o data false) (hr : Replying req d)
    (hv : d.writeBodyVecBuffer = []) {end_ e : Bool}
    (hok : ((if end_ then ignore finishWritingResponseBody else pure ()) >>= fun _ => (pure end_ : M Bool)) d =
      (.ok e, d')) :
    Replying req d' ∧ OnWire crates req base d' o data e ∧ d'.writeBodyVecBuffer = [] := by
  obtain ⟨_, d1, h1, h2⟩ := of_bind_ok hok
  cases h2
  cases end_ with
  | false =>
    cases h1
    exact ⟨hr, hs, hv⟩
  | true => exact hs.finish hr hv h1

/-- A task on its own. -/
theorem OnWire.task (hs : OnWire crates req base d o data false) (hr : Replying req d)
    (hup : Utils.isRequestUpgrade req = false) (hv : d.writeBodyVecBuffer = []) {t : Task} {e : Bool}
    (hf : follow o t = some o') (hfits : Fits req o' (data ++ t.data)) (hok : writeResponseTask crates t d = (.ok e, d')) :
    Replying req d' ∧ OnWire crates req base d' o' (data ++ t.data) false ∧ d'.writeBodyVecBuffer = [] := by
  -- all but a body is written as in a batch
  have hsame : vectoredResponseTask crates t d = (.ok e, d') → d'.writeBodyVecBuffer = [] →
      Replying req d' ∧ OnWire crates req base d' o' (data ++ t.data) false ∧ d'.writeBodyVecBuffer = [] := by
    intro hok hv'
    obtain ⟨hr', hs'⟩ := hs.vectored hr hup hf hok
    exact ⟨hr', hs', hv'⟩
  obtain ⟨ps, o⟩ := o
  cases t with
  | header resp e' =>
    refine hsame hok ?_
    have hkeeps : (writeResponseTask crates (.header resp e') d).2.writeBodyVecBuffer = d.writeBodyVecBuffer :=
      Keeps.bind (keepsBuffer_writeResponseHeaders crates resp) (fun _ => .pure _) d
    rw [hok] at hkeeps
    exact hkeeps.trans hv
  | body b e' =>
    cases o with
    | none => cases hf
    | some h =>
      cases hf
      cases b with
      | none =>
        cases hok
        exact hsame rfl hv
      | some x =>
        obtain ⟨_, d1, h1, h2⟩ := of_bind_ok hok
        cases h2
        have hgathered := hs.gather x
        rw [hv, List.nil_append] at hgathered
        by_cases hx : x = []
        · subst hx
          cases h1
          exact ⟨hr, (List.append_nil data).symm ▸ hs, hv⟩
        · rw [if_neg (by simpa using hx)] at h1
          obtain ⟨n, d2, h3, h4⟩ := of_bind_ok h1
          cases h4
          unfold writeResponseBody onWriter at h3
          obtain ⟨⟨w, s⟩, h5, rfl⟩ := of_zoom_ok h3
          obtain ⟨rfl, hout, -⟩ := BodyWriter.writeBody_ok h5
          have hclear : { d with bodyWriter := (d.bodyWriter.emit x).2, stream := s } =
              { d with bodyWriter := (d.bodyWriter.emit x).2, stream := s, writeBodyVecBuffer := [] } := by
            rw [← hv]
          refine ⟨⟨hr.request, hr.flag, hr.update, hr.upgrade⟩, ?_, hv⟩
          rw [hclear]
          exact hgathered.wrote hfits (by simpa using hx) hout
  | trailer => cases o <;> cases hf
  | done =>
    cases hok
    exact hsame rfl hv
  | failed err => cases hok

/-- The tasks of a response, written at once or in a batch. -/
theorem OnWire.write (hs : OnWire crates req base d o data false) (hr : Replying req d)
    (hup : Utils.isRequestUpgrade req = false) (hv : d.writeBodyVecBuffer = []) {ts : List Task} (hne : ts ≠ [])
    {e : Bool} (hf : followAll o ts = some o') (hfits : Fits req o' (data ++ dataOf ts))
    (hok : writeDownstreamResponse crates ts d = (.ok e, d')) :
    Replying req d' ∧ OnWire crates req base d' o' (data ++ dataOf ts) e ∧ d'.writeBodyVecBuffer = [] := by
  have hbatch : vectoredWriteResponseToDownstream crates ts d = (.ok e, d') →
      Replying req d' ∧ OnWire crates req base d' o' (data ++ dataOf ts) e ∧ d'.writeBodyVecBuffer = [] := by
    intro hok
    obtain ⟨end_, d1, h1, h2⟩ := of_bind_ok hok
    obtain ⟨hr1, hs1⟩ := hs.tasks hup ts hr hf h1
    obtain ⟨_, d2, h3, h4⟩ := of_bind_ok h2
    obtain ⟨hr2, hs2, hv2⟩ := hs1.flush hr1 hfits h3
    exact hs2.finishIf hr2 hv2 h4
  match ts with
  | [] => exact absurd rfl hne
  | [t] =>
    obtain ⟨end_, d1, h1, h2⟩ := of_bind_ok hok
    have hone : dataOf [t] = t.data := List.append_nil _
    rw [hone] at hfits ⊢
    unfold followAll at hf
    rw [List.foldlM_cons] at hf
    obtain ⟨o1, hf1, hf2⟩ := Option.bind_eq_some_iff.mp hf
    cases hf2
    obtain ⟨hr1, hs1, hv1⟩ := hs.task hr hup hv hf1 hfits h1
    exact hs1.finishIf hr1 hv1 h2
  | _ :: _ :: _ => exact hbatch hok

end Downstream

end Glaive.Session
