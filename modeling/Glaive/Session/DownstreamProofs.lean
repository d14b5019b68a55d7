/-
  Glaive.Session.DownstreamProofs — what the client's session does, function by function
  (see `Glaive.Session.Downstream`). Later modules cite these and unfold none of it.
-/

import Glaive.Session.Downstream
import Glaive.Session.ReaderProofs

namespace Glaive.Session

open Glaive.Lib
open Glaive.Lib.Async

namespace Downstream

variable {crates : Crates} {d : Downstream} {h : RequestHeader}

/-! ## The request head -/

/-- The session after the end of a script without a head. -/
def unopened (d : Downstream) (rest : List ReadEv) : Downstream :=
  { d with buffer := [], stream := { d.stream with input := rest } }

/-- The session with a head that was read in `readBuffer`. -/
def opened (d : Downstream) (rest : List ReadEv) (readBuffer : Bytes) (size : Nat) (parts : RequestParts) : Downstream :=
  { d with
    stream := { d.stream with input := rest }
    bufBodyOffset := some ⟨size, readBuffer.length⟩
    buffer := readBuffer
    requestHeader := some (requestHeaderOf parts)
    bodyReader := d.bodyReader.reStart
    responseHeader := none
    keepaliveTimeout := applySessionKeepalive (requestHeaderOf parts) }

theorem readRequest_closed {rest : List ReadEv}
    (hr : readHead crates.parseRequest [] d.stream.input = (.ok none, rest)) :
    readRequest crates d = (.ok (), d.unopened rest) := by
  unfold readRequest
  rw [modify_bind_apply]
  have hl : onStream (headLoop crates.parseRequest) { d with buffer := [] } = (.ok none, d.unopened rest) := by
    unfold onStream headLoop unopened
    simp only [zoom_apply, hr]
  rw [bind_ok hl]
  rfl

theorem readRequest_head {rest : List ReadEv} {buf : Bytes} {size : Nat} {parts : RequestParts}
    (hr : readHead crates.parseRequest [] d.stream.input = (.ok (some (buf, size, parts)), rest)) :
    (crates.validMethod parts.method = true ∧ crates.validUri parts.path = true ∧
      readRequest crates d = (.ok (), d.opened rest buf size parts)) ∨
    (¬ (crates.validMethod parts.method = true ∧ crates.validUri parts.path = true) ∧
      ∃ text d', readRequest crates d = (.panic text, d')) := by
  unfold readRequest
  rw [modify_bind_apply]
  have hl : onStream (headLoop crates.parseRequest) { d with buffer := [] } =
      (.ok (some (buf, size, parts)), d.unopened rest) := by
    unfold onStream headLoop unopened
    simp only [zoom_apply, hr]
  rw [bind_ok hl]
  simp only [modify_bind_apply]
  by_cases hm : crates.validMethod parts.method = true
  · by_cases hu : crates.validUri parts.path = true
    · exact .inl ⟨hm, hu, by simp [hm, hu]; rfl⟩
    · exact .inr ⟨fun h => hu h.2, "Failed to create base request", _, by simp [hm, hu]; rfl⟩
  · exact .inr ⟨fun h => hm h.1, "Failed to convert method", _, by simp [hm]; rfl⟩

/-- Where the loop gives no value, the session gives what the loop gives. -/
theorem readRequest_stops (hr : ∀ x rest, readHead crates.parseRequest [] d.stream.input ≠ (.ok x, rest)) :
    (∃ e d', readRequest crates d = (.err e, d')) ∨ ∃ d', readRequest crates d = (.pending, d') := by
  unfold readRequest
  rw [modify_bind_apply, bind_apply]
  rcases hl : readHead crates.parseRequest [] d.stream.input with ⟨o, rest⟩
  have hz : onStream (headLoop crates.parseRequest) { d with buffer := [] } = (o, d.unopened rest) := by
    unfold onStream headLoop unopened
    simp only [zoom_apply, hl]
  rw [hz]
  cases o with
  | ok x => exact absurd hl (hr x rest)
  | err e => exact .inl ⟨e, _, rfl⟩
  | pending => exact .inr ⟨_, rfl⟩
  | panic text => exact absurd (congrArg Prod.fst hl) readHead_no_panic

/-! ## The request body's mode -/

/-- The reader in the mode chosen for `h`, an upgrade's own mode aside. -/
def selectReader (h : RequestHeader) (preread : Bytes) (r : BodyReader) : BodyReader :=
  if Utils.isHeaderValueChunkEncoding (h.getHeader transferEncoding) then r.withChunkedRead preread
  else
    match Utils.getContentLengthValue (h.getHeader contentLength) with
    | some length => r.withContentLengthRead length preread
    | none =>
      match h.version with
      | .http11 => r.withContentLengthRead 0 preread
      | _ => r.withUntilClosedRead preread

/-- The session once its mode is chosen. The reader an upgrade leaves is its own
    until-closed one, set over by the choice. -/
def selected (d : Downstream) (h : RequestHeader) (preread : Bytes) : Downstream :=
  { d with
    retryBuffer := d.retryBuffer.map .clearBuffer
    bodyReader := selectReader h preread
      (if Utils.isRequestUpgrade h then d.bodyReader.withUntilClosedRead preread else d.bodyReader) }

/-- The session has a head, and preread bytes for a reader to start from. -/
structure Ready (d : Downstream) (h : RequestHeader) (preread : Bytes) : Prop where
  head : d.requestHeader = some h
  preread : ∃ o, d.bufBodyOffset = some o ∧ o.get d.buffer = some preread
  start : d.bodyReader.isStart = true

theorem getRequestHeaders_eq (hh : d.requestHeader = some h) : getRequestHeaders d = (.ok h, d) := by
  unfold getRequestHeaders; rw [hh]

theorem bodyBytes_eq {preread : Bytes} {o : Offset} (ho : d.bufBodyOffset = some o)
    (hg : o.get d.buffer = some preread) : bodyBytes d = (.ok preread, d) := by
  unfold bodyBytes; rw [ho]; simp only [hg]

theorem isRequestUpgrade_eq (hh : d.requestHeader = some h) :
    isRequestUpgrade d = (.ok (Utils.isRequestUpgrade h), d) := by
  unfold isRequestUpgrade
  rw [bind_ok (getRequestHeaders_eq hh)]; rfl

theorem setRequestBodyReader_ready {preread : Bytes} (hd : Ready d h preread) :
    setRequestBodyReader d = (.ok (), d.selected h preread) := by
  obtain ⟨o, ho, hg⟩ := hd.preread
  unfold setRequestBodyReader
  simp only [get_bind_apply, hd.start, if_true, modify_bind_apply]
  have hb : bodyBytes { d with retryBuffer := d.retryBuffer.map .clearBuffer } = (.ok preread, _) := bodyBytes_eq ho hg
  have hr : getRequestHeaders { d with retryBuffer := d.retryBuffer.map .clearBuffer } = (.ok h, _) :=
    getRequestHeaders_eq hd.head
  rw [bind_ok hb, bind_ok hr]
  have hup : (decide (h.version = .http11) && Utils.isRequestUpgrade h) = Utils.isRequestUpgrade h := by
    unfold Utils.isRequestUpgrade
    cases h.version <;> simp
  rw [hup]
  unfold selected selectReader setReader
  cases Utils.isRequestUpgrade h <;> cases Utils.isHeaderValueChunkEncoding (h.getHeader transferEncoding) <;>
    cases Utils.getContentLengthValue (h.getHeader contentLength) <;> cases h.version <;> rfl

theorem setRequestBodyReader_of_not_start (hs : d.bodyReader.isStart = false) :
    setRequestBodyReader d = (.ok (), d) := by
  unfold setRequestBodyReader
  simp [hs]

/-! ## Reading leaves the head alone -/

theorem keeps_getRequestHeaders : Keeps requestHeader getRequestHeaders := by
  intro d
  unfold getRequestHeaders
  split <;> rfl

theorem keeps_bodyBytes : Keeps requestHeader bodyBytes := by
  intro d
  unfold bodyBytes
  split
  · rfl
  · split <;> rfl

theorem keeps_setReader (f : BodyReader → BodyReader) : Keeps requestHeader (setReader f) := fun _ => rfl

theorem keeps_onReader {α : Type} (x : Async (BodyReader × Stream) α) : Keeps requestHeader (onReader x) :=
  fun _ => rfl

theorem keeps_onStream {α : Type} (x : Async Stream α) : Keeps requestHeader (onStream x) := fun _ => rfl

theorem keeps_isRequestUpgrade : Keeps requestHeader isRequestUpgrade := .bind keeps_getRequestHeaders fun _ => .pure _

theorem keeps_setRequestBodyReader : Keeps requestHeader setRequestBodyReader := by
  unfold setRequestBodyReader
  refine .bind .get fun d => .ite (.bind (.modify fun _ => rfl) fun _ => .bind keeps_bodyBytes fun p =>
    .bind keeps_getRequestHeaders fun h => .bind (.ite (keeps_setReader _) (.pure ())) fun _ =>
      .ite (keeps_setReader _) ?_) (.pure ())
  split
  · exact keeps_setReader _
  · split <;> exact keeps_setReader _

theorem keeps_isReadingRequestBodyFinished : Keeps requestHeader isReadingRequestBodyFinished :=
  .bind keeps_setRequestBodyReader fun _ => .bind .get fun _ => .pure _

theorem keeps_readRequestBodyOrIdle : Keeps requestHeader (readRequestBodyOrIdle crates) := by
  have hslice : ∀ o, Keeps requestHeader (readSlicedRequestBody o) := fun _ _ => rfl
  have hread : Keeps requestHeader (readRequestBodyBytes crates) := by
    refine .bind (.bind keeps_setRequestBodyReader fun _ => keeps_onReader _) fun o => ?_
    cases o with
    | none => exact .pure _
    | some o => exact .bind (hslice o) fun _ => .bind (.modify fun _ => rfl) fun _ => .pure _
  exact .bind keeps_isReadingRequestBodyFinished fun _ =>
    .ite (.bind (keeps_onStream _) fun _ => .ite (.stop _) (.stop _)) hread

/-- A task read is a body, or the end of an upgrade's. -/
theorem readDownstreamRequest_ok {d' : Downstream} {t : Task} (hr : readDownstreamRequest crates d = (.ok t, d')) :
    d'.requestHeader = d.requestHeader ∧
      ((∃ b e, t = .body b e) ∨ t = .done ∧ ∃ h, d.requestHeader = some h ∧ Utils.isRequestUpgrade h = true) := by
  unfold readDownstreamRequest at hr
  obtain ⟨b, d1, h1, h2⟩ := of_bind_ok hr
  obtain ⟨up, d2, h3, h4⟩ := of_bind_ok h2
  have k1 : d1.requestHeader = d.requestHeader := by
    have : (readRequestBodyOrIdle crates d).2.requestHeader = d.requestHeader := keeps_readRequestBodyOrIdle d
    rwa [h1] at this
  have k2 : d2.requestHeader = d1.requestHeader := by
    have := Keeps.andAlso b.isNone keeps_isRequestUpgrade d1
    rwa [h3] at this
  cases up with
  | false =>
    obtain ⟨e, d3, h5, h6⟩ := of_bind_ok h4
    have k3 : d3.requestHeader = d2.requestHeader := by
      have := keeps_isReadingRequestBodyFinished d2
      rwa [h5] at this
    cases h6
    exact ⟨k3.trans (k2.trans k1), Or.inl ⟨b, e, rfl⟩⟩
  | true =>
    cases h4
    refine ⟨k2.trans k1, Or.inr ⟨rfl, ?_⟩⟩
    cases hb : b.isNone with
    | false => rw [hb] at h3; cases h3
    | true =>
      rw [hb, andAlso_true] at h3
      obtain ⟨h, d3, h5, h6⟩ := of_bind_ok h3
      unfold getRequestHeaders at h5
      split at h5
      · rename_i heq
        cases h5
        rw [pure_apply, Prod.mk.injEq, Out.ok.injEq] at h6
        exact ⟨h, k1 ▸ heq, h6.1⟩
      · cases h5

/-! ## Reading the request body -/

theorem isReadingRequestBodyFinished_of_not_start (hs : d.bodyReader.isStart = false) :
    isReadingRequestBodyFinished d = (.ok d.bodyReader.isFinished, d) := by
  unfold isReadingRequestBodyFinished
  rw [bind_ok (setRequestBodyReader_of_not_start hs)]; rfl

/-- The session after a call of the reader. -/
def withRead (d : Downstream) (p : BodyReader × Stream) : Downstream :=
  { d with bodyReader := p.1, stream := p.2 }

/-- The session after `x` is read, stored to retry too. -/
def stored (d : Downstream) (x : Bytes) : Downstream := { d with retryBuffer := d.retryBuffer.map (·.writeBuffer x) }

theorem readRequestBody_of_not_start (hs : d.bodyReader.isStart = false) {o : Out (Option Offset)} {p : BodyReader × Stream}
    (hr : BodyReader.readBody crates.parseChunkSize (d.bodyReader, d.stream) = (o, p)) :
    readRequestBody crates d = (o, d.withRead p) := by
  unfold readRequestBody onReader
  rw [bind_ok (setRequestBodyReader_of_not_start hs), zoom_apply, hr]; rfl

/-- Where reading the body goes once the reader is set and has not finished. -/
theorem readRequestBodyOrIdle_unfinished (hs : d.bodyReader.isStart = false) (hf : d.bodyReader.isFinished = false) :
    readRequestBodyOrIdle crates d = readRequestBodyBytes crates d := by
  unfold readRequestBodyOrIdle
  rw [bind_ok (isReadingRequestBodyFinished_of_not_start hs), hf]; rfl

theorem readDownstreamRequest_slice (hs : d.bodyReader.isStart = false) (hf : d.bodyReader.isFinished = false)
    {o : Offset} {r : BodyReader} {s : Stream} {x : Bytes}
    (hr : BodyReader.readBody crates.parseChunkSize (d.bodyReader, d.stream) = (.ok (some o), r, s))
    (hx : r.getSlicedBody o = .ok x) (hrs : r.isStart = false) :
    readDownstreamRequest crates d = (.ok (.body (some x) r.isFinished), (d.withRead (r, s)).stored x) := by
  have hb : readRequestBodyBytes crates d = (.ok (some x), (d.withRead (r, s)).stored x) := by
    have hsl : readSlicedRequestBody o (d.withRead (r, s)) = (.ok x, d.withRead (r, s)) := by
      unfold readSlicedRequestBody; exact congrArg (·, _) hx
    unfold readRequestBodyBytes
    rw [bind_ok (readRequestBody_of_not_start hs hr)]
    exact bind_ok hsl
  unfold readDownstreamRequest
  rw [bind_ok ((readRequestBodyOrIdle_unfinished hs hf).trans hb)]
  simp only [Option.isNone_some, andAlso_false, pure_bind_apply, Bool.false_eq_true, if_false]
  have hfin : isReadingRequestBodyFinished ((d.withRead (r, s)).stored x) = (.ok r.isFinished, _) :=
    isReadingRequestBodyFinished_of_not_start hrs
  rw [bind_ok hfin]; rfl

theorem readDownstreamRequest_none (hs : d.bodyReader.isStart = false) (hf : d.bodyReader.isFinished = false)
    {r : BodyReader} {s : Stream} (hh : d.requestHeader = some h)
    (hr : BodyReader.readBody crates.parseChunkSize (d.bodyReader, d.stream) = (.ok none, r, s))
    (hrs : r.isStart = false) :
    readDownstreamRequest crates d =
      (.ok (if Utils.isRequestUpgrade h then .done else .body none r.isFinished), d.withRead (r, s)) := by
  have hb : readRequestBodyBytes crates d = (.ok none, d.withRead (r, s)) := by
    unfold readRequestBodyBytes
    rw [bind_ok (readRequestBody_of_not_start hs hr)]; rfl
  have hup : isRequestUpgrade (d.withRead (r, s)) = (.ok (Utils.isRequestUpgrade h), d.withRead (r, s)) :=
    isRequestUpgrade_eq hh
  have hfin : isReadingRequestBodyFinished (d.withRead (r, s)) = (.ok r.isFinished, _) :=
    isReadingRequestBodyFinished_of_not_start hrs
  unfold readDownstreamRequest
  rw [bind_ok ((readRequestBodyOrIdle_unfinished hs hf).trans hb)]
  simp only [Option.isNone_none, andAlso_true]
  rw [bind_ok hup]
  cases Utils.isRequestUpgrade h
  · simp only [Bool.false_eq_true, if_false]
    rw [bind_ok hfin]; rfl
  · rfl

/-- A read that fails or waits is the whole call's end. -/
theorem readDownstreamRequest_stop (hs : d.bodyReader.isStart = false) (hf : d.bodyReader.isFinished = false)
    {o : Out (Option Offset)} {p : BodyReader × Stream}
    (hr : BodyReader.readBody crates.parseChunkSize (d.bodyReader, d.stream) = (o, p)) (ho : ∀ a, o ≠ .ok a) :
    (∀ t, (readDownstreamRequest crates d).1 ≠ .ok t) ∧ (readDownstreamRequest crates d).2 = d.withRead p := by
  have hb := readRequestBody_of_not_start hs hr
  have he : readRequestBodyOrIdle crates d = readRequestBodyBytes crates d := readRequestBodyOrIdle_unfinished hs hf
  unfold readRequestBodyBytes at he
  unfold readDownstreamRequest
  rw [bind_apply, he, bind_apply, hb]
  cases o with
  | ok a => exact absurd rfl (ho a)
  | err e => exact ⟨fun t => by simp, rfl⟩
  | pending => exact ⟨fun t => by simp, rfl⟩
  | panic t => exact ⟨fun t => by simp, rfl⟩

theorem readDownstreamRequest_err (hs : d.bodyReader.isStart = false) (hf : d.bodyReader.isFinished = false)
    {e : IoError} {p : BodyReader × Stream}
    (hr : BodyReader.readBody crates.parseChunkSize (d.bodyReader, d.stream) = (.err e, p)) :
    readDownstreamRequest crates d = (.err e, d.withRead p) := by
  have hb : readRequestBodyBytes crates d = (.err e, d.withRead p) := by
    unfold readRequestBodyBytes
    exact bind_err (readRequestBody_of_not_start hs hr)
  unfold readDownstreamRequest
  exact bind_err ((readRequestBodyOrIdle_unfinished hs hf).trans hb)

theorem selectReader_isStart (h : RequestHeader) (preread : Bytes) (r : BodyReader) :
    (selectReader h preread r).isStart = false := by
  unfold selectReader
  split
  · rfl
  · split
    · rename_i n _; cases n <;> rfl
    · split <;> rfl

/-- The first call sets the reader and goes on as if it had been set. -/
theorem readDownstreamRequest_ready {preread : Bytes} (hd : Ready d h preread) :
    readDownstreamRequest crates d = readDownstreamRequest crates (d.selected h preread) := by
  have hset := setRequestBodyReader_ready hd
  have hs : (d.selected h preread).bodyReader.isStart = false := selectReader_isStart h preread _
  have hagain := setRequestBodyReader_of_not_start hs
  have hfin : isReadingRequestBodyFinished d = isReadingRequestBodyFinished (d.selected h preread) := by
    unfold isReadingRequestBodyFinished
    rw [bind_ok hset, bind_ok hagain]
  have hidle : readRequestBodyOrIdle crates d = readRequestBodyOrIdle crates (d.selected h preread) := by
    unfold readRequestBodyOrIdle
    rw [bind_apply, bind_apply, hfin]
  unfold readDownstreamRequest
  rw [bind_apply, bind_apply, hidle]

end Downstream

end Glaive.Session
