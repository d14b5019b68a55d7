/-
  Glaive.Service.ResponseLeft — the bytes the server's session may still read as the body
  of its response (`core/src/session/upstream.rs`: `read_upstream_response`; `reader.rs`).

  The session looks for the last head of the response (`Seeking`), or has it and hands
  out what follows (`Answering`): what it has given of the body and what it may still
  read make a front of the body, where the body is not chunked. A call gives a task and
  moves from the one to the other; a call that is dropped leaves the session where it is.
-/

import Glaive.Service.DroppedReads
import Glaive.Session.ChunksLeft
import Glaive.Session.PlainLeft
import Glaive.Session.ResponseTaken

namespace Glaive.Session

open Glaive.Lib
open Glaive.Lib.Async

namespace BodyReader

theorem moved_isStart (r : BodyReader) : r.moved.isStart = r.isStart := by
  simp only [isStart, moved_readState]

/-- Only a reader of chunks is moved. -/
theorem Left.moved_eq {r : BodyReader} {s : Stream} {rest : Bytes} (h : Left r s rest) : r.moved = r := by
  cases h with
  | length hst => simp only [moved, hst]
  | untilClosed hst => simp only [moved, hst]
  | finished hf =>
    unfold isFinished at hf
    unfold moved
    split at hf
    · rename_i hst
      simp only [hst]
    · rename_i hst
      simp only [hst]
    · cases hf

end BodyReader

namespace Upstream

variable {crates : Crates} {req : RequestHeader} {h : ResponseHeader} {u u' : Upstream} {wire data : Bytes}
  {whole : Prop} {ps : List ResponseHeader}

/-! ## What reading a body leaves alone -/

section Keeps

variable {τ : Type} {f : Upstream → τ} (hf : ∀ (u : Upstream) (r : BodyReader), f { u with bodyReader := r } = f u)
include hf

theorem setResponseBodyReader_keeps : Keeps f setResponseBodyReader := by
  have hbytes : Keeps f bodyBytes := by
    intro u
    unfold bodyBytes
    split
    · rfl
    · split <;> rfl
  have hhead : Keeps f getResponseHeaders := by
    intro u
    unfold getResponseHeaders
    split <;> rfl
  have hup : Keeps f isRequestUpgrade := by
    intro u
    unfold isRequestUpgrade
    split <;> rfl
  have hreader : ∀ g : BodyReader → BodyReader, Keeps f (setReader g) := fun g u => hf u _
  have hframed : ∀ h bs, Keeps f (setFramedReader h bs) := by
    intro h bs
    unfold setFramedReader
    refine .ite (hreader _) ?_
    split <;> exact hreader _
  unfold setResponseBodyReader
  exact .bind .get fun _ => .ite (.bind hbytes fun bs => .bind .get fun _ => .ite (hreader _)
    (.bind hhead fun h => .ite (.bind hup fun _ => .ite (hreader _) (hframed h bs))
      (.ite (.pure _) (.ite (hreader _) (hframed h bs))))) (.pure _)

theorem isReadingResponseBodyFinished_keeps : Keeps f isReadingResponseBodyFinished :=
  .bind (setResponseBodyReader_keeps hf) fun _ => .bind .get fun _ => .pure _

theorem readResponseBodyBytes_keeps (hread : Keeps f (onReader (BodyReader.readBody crates.parseChunkSize))) :
    Keeps f (readResponseBodyBytes crates) := by
  refine .bind (.bind (setResponseBodyReader_keeps hf) fun _ => hread) fun o => ?_
  cases o with
  | none => exact .pure _
  | some o => exact .bind (fun _ => rfl) fun _ => .pure _

end Keeps

/-! ## The last head -/

/-- No head follows this one. -/
def isLast (h : ResponseHeader) : Bool := !h.isInformational || h.status == 101

theorem shouldRead_eq (hresp : u.responseHeader = some h) : u.shouldReadResponseHeader = !isLast h := by
  unfold shouldReadResponseHeader isLast
  rw [hresp]
  by_cases h101 : h.status = 101 <;> simp [h101]

/-- The length the body is read and written by, if it goes by one. -/
def bodyLength (req : RequestHeader) (h : ResponseHeader) : Option Nat :=
  if Bodiless req h then some 0 else Utils.getContentLengthValue (h.getHeader contentLength)

/-- The body of `h`, of the bytes that follow the head. -/
def bodyOf (req : RequestHeader) (h : ResponseHeader) (bs : Bytes) : Bytes :=
  match bodyLength req h with
  | some length => bs.take length
  | none => bs

/-- The body is not chunked, if there is one. -/
def Unchunked (req : RequestHeader) (h : ResponseHeader) : Prop :=
  Bodiless req h ∨ Utils.isHeaderValueChunkEncoding (h.getHeader transferEncoding) = false

theorem bodyOf_le {length : Nat} (hl : bodyLength req h = some length) (bs : Bytes) :
    (bodyOf req h bs).length ≤ length := by
  unfold bodyOf
  rw [hl]
  exact List.length_take_le ..

/-- Under the last head a mode is chosen, by its fields or for no body at all. -/
theorem select_last {r : BodyReader} (h0 : r.isStart = true) (hup : Utils.isRequestUpgrade req = false)
    (hlast : isLast h = true) (p : Bytes) :
    selectResponseReader req h p r = if Bodiless req h then r.withContentLengthRead 0 p else framedReader h p r := by
  have hinf : h.status ≠ 101 → ¬ h.isInformational = true := by
    intro h101 hinf
    simp [isLast, hinf, h101] at hlast
  unfold selectResponseReader
  rw [if_pos h0, hup]
  by_cases hm : req.method = ascii "HEAD"
  · rw [if_pos hm, if_pos (show Bodiless req h from .inl hm)]
  · rw [if_neg hm]
    by_cases h101 : h.status = 101
    · rw [if_pos h101, if_neg (by decide), if_neg (show ¬ Bodiless req h by simp [Bodiless, hm, h101])]
    · rw [if_neg h101, if_neg (hinf h101)]
      by_cases hno : h.status = 204 ∨ h.status = 304
      · rw [if_pos hno, if_pos (show Bodiless req h from .inr hno)]
      · rw [if_neg hno, if_neg (show ¬ Bodiless req h from not_or_intro hm hno)]

theorem select_started {r : BodyReader} (h0 : r.isStart = true) (hup : Utils.isRequestUpgrade req = false)
    (hlast : isLast h = true) (p : Bytes) : (selectResponseReader req h p r).isStart = false := by
  rw [select_last h0 hup hlast]
  split
  · exact withContentLengthRead_started _ _ _
  · exact framedReader_started _ _ _

/-- Under chunks the reader is set to them. -/
theorem select_chunked {r : BodyReader} (h0 : r.isStart = true) (hup : Utils.isRequestUpgrade req = false)
    (hlast : isLast h = true) (hc : ¬ Unchunked req h) (p : Bytes) :
    selectResponseReader req h p r = r.withChunkedRead p := by
  obtain ⟨hno, hchunk⟩ := not_or.mp hc
  rw [select_last h0 hup hlast, if_neg hno]
  unfold framedReader
  rw [if_pos (by simpa using hchunk)]

/-- What the reader is given to hold is what came behind the head. -/
theorem select_rewind {r : BodyReader} (hi : r.Idle) (h0 : r.isStart = true) (hup : Utils.isRequestUpgrade req = false)
    (hlast : isLast h = true) (p : Bytes) : (selectResponseReader req h p r).rewindBufSize ≤ p.length := by
  have hset : ∀ r' : BodyReader, r'.rewindBufSize = r.rewindBufSize → r'.bodySize = r.bodySize →
      (r'.setBuffer p).rewindBufSize = p.length := by
    intro r' hr hb
    obtain ⟨_, -, -, hrw, -⟩ := BodyReader.setBuffer_holds (r := r') (p := p) fun _ => hr.trans hi.rewound
    exact hrw
  have hlength : ∀ n, (r.withContentLengthRead n p).rewindBufSize ≤ p.length := by
    intro n
    cases n with
    | zero => exact (Nat.zero_le p.length).trans' (le_of_eq hi.rewound)
    | succ n => exact le_of_eq (hset r rfl rfl)
  rw [select_last h0 hup hlast]
  split
  · exact hlength 0
  · unfold framedReader
    split
    · exact le_of_eq (hset _ rfl rfl)
    · split
      · exact hlength _
      · exact le_of_eq (hset r rfl rfl)

theorem select_left {r : BodyReader} (hi : r.Idle) (h0 : r.isStart = true) (hup : Utils.isRequestUpgrade req = false)
    (hlast : isLast h = true) (hc : Unchunked req h) (p : Bytes) (s : Stream) :
    BodyReader.Left (selectResponseReader req h p r) s (bodyOf req h (p ++ s.bytes)) := by
  rw [select_last h0 hup hlast]
  unfold bodyOf bodyLength
  by_cases hno : Bodiless req h
  · rw [if_pos hno, if_pos hno]
    exact BodyReader.left_length hi 0 p
  · rw [if_neg hno, if_neg hno]
    unfold framedReader
    rw [hc.resolve_left hno]
    simp only [Bool.false_eq_true, if_false]
    cases Utils.getContentLengthValue (h.getHeader contentLength) with
    | some n => exact BodyReader.left_length hi n p
    | none => exact BodyReader.left_untilClosed hi p

/-! ## Looking for the last head -/

/-- A head that others follow comes with nothing behind it. -/
def HeadAlone (crates : Crates) (u : Upstream) : Prop :=
  ∀ buf size parts rest h, readHead crates.parseResponse [] u.stream.input = (.ok (some (buf, size, parts)), rest) →
    responseHeaderOf crates parts = some h → isLast h = false → buf.drop size = []

/-- The heads `ps`, that others follow, were read off `front`; a call at the end of the
    input gives the last one again. Nothing else was in it, as long as nothing was lost. -/
inductive ReadOff (crates : Crates) (whole : Prop) : List ResponseHeader → Bytes → Prop
  | nil : ReadOff crates whole [] []
  | head {ps : List ResponseHeader} {front text : Bytes} {h : ResponseHeader} : ReadOff crates whole ps front →
      IsAnswer crates text h → isLast h = false → ReadOff crates whole (ps ++ [h]) (front ++ text)
  | again {ps : List ResponseHeader} {front : Bytes} {h : ResponseHeader} : ReadOff crates whole ps front →
      ps.getLast? = some h → ReadOff crates whole (ps ++ [h]) front
  | lost {ps : List ResponseHeader} {front text : Bytes} : ReadOff crates whole ps front → ¬ whole →
      ReadOff crates whole ps (front ++ text)

theorem ReadOff.interims {front : Bytes} (hp : ReadOff crates whole ps front) (hw : whole) : Interims crates front := by
  induction hp with
  | nil => exact .nil
  | head _ ha hlast ih =>
    unfold isLast at hlast
    rw [Bool.or_eq_false_iff, Bool.not_eq_false', beq_eq_false_iff_ne] at hlast
    exact ih.snoc ha hlast.1 hlast.2
  | again _ _ ih => exact ih
  | lost _ hnot _ => exact absurd hw hnot

/-- What is passed over is empty, where nothing is lost. -/
theorem ReadOff.drop {front text : Bytes} (hp : ReadOff crates whole ps front) (hk : whole → text = []) :
    ReadOff crates whole ps (front ++ text) := by
  by_cases hw : whole
  · rw [hk hw, List.append_nil]
    exact hp
  · exact hp.lost hw

theorem ReadOff.imp {whole' : Prop} {front : Bytes} (hp : ReadOff crates whole ps front) (hw : whole' → whole) :
    ReadOff crates whole' ps front := by
  induction hp with
  | nil => exact .nil
  | head _ ha hlast ih => exact ih.head ha hlast
  | again _ hlast ih => exact ih.again hlast
  | lost _ hnot ih => exact ih.lost fun h => hnot (hw h)

/-- The heads `ps` were read off `wire`, up to `unread`. -/
def ReadUpTo (crates : Crates) (whole : Prop) (ps : List ResponseHeader) (wire unread : Bytes) : Prop :=
  ∃ front, front ++ unread = wire ∧ ReadOff crates whole ps front

theorem ReadUpTo.imp {whole' : Prop} {unread : Bytes} (hp : ReadUpTo crates whole ps wire unread) (hw : whole' → whole) :
    ReadUpTo crates whole' ps wire unread := by
  obtain ⟨front, hwire, hread⟩ := hp
  exact ⟨front, hwire, hread.imp hw⟩

/-- On the wire `bs` follows the head `h`, and the head those that others follow. -/
def Behind (crates : Crates) (whole : Prop) (ps : List ResponseHeader) (wire : Bytes) (h : ResponseHeader) (bs : Bytes) :
    Prop :=
  ∃ text, ReadUpTo crates whole ps wire (text ++ bs) ∧ IsAnswer crates text h

/-- The session looks for the last head, and what it may still read is the end of `wire`. -/
structure Seeking (crates : Crates) (whole : Prop) (ps : List ResponseHeader) (wire : Bytes) (u : Upstream) : Prop where
  head : u.shouldReadResponseHeader = true
  start : u.bodyReader.isStart = true
  idle : u.bodyReader.Idle
  seen : u.responseHeader = ps.getLast?
  unread : ReadUpTo crates whole ps wire u.stream.bytes

/-- The session has the last head `h`, and has handed out `data` of its body. -/
structure Answering (crates : Crates) (whole : Prop) (ps : List ResponseHeader) (req : RequestHeader) (wire : Bytes)
    (h : ResponseHeader) (data : Bytes) (u : Upstream) : Prop where
  head : u.responseHeader = some h
  last : isLast h = true
  started : u.bodyReader.isStart = false
  left : ∃ bs, Behind crates whole ps wire h bs ∧ u.stream.bytes <:+ bs ∧
    (Unchunked req h → ∃ rest, BodyReader.Left u.bodyReader u.stream rest ∧ data ++ rest <+: bodyOf req h bs ∧
      data.length + u.bodyReader.rewindBufSize + u.stream.bytes.length ≤ bs.length) ∧
    (¬ Unchunked req h → whole → bs.length < usizeEnd + u.stream.bytes.length →
      ∀ B after, IsChunked crates.parseChunkSize bs B after →
        ∃ rest, BodyReader.ChunksLeft B after u.bodyReader u.stream rest ∧ data ++ rest = B.data)

theorem Answering.inBody (ha : Answering crates whole ps req wire h data u) : u.shouldReadResponseHeader = false := by
  rw [shouldRead_eq ha.head, ha.last]
  rfl

/-- Under a head that is not the last no mode is chosen, but the body of a `HEAD` is over. -/
theorem select_seeking {r : BodyReader} (h0 : r.isStart = true) (hlast : isLast h = false) (p : Bytes)
    (hfin : (selectResponseReader req h p r).isFinished = false) : selectResponseReader req h p r = r := by
  unfold isLast at hlast
  rw [Bool.or_eq_false_iff, Bool.not_eq_false', beq_eq_false_iff_ne] at hlast
  by_cases hm : req.method = ascii "HEAD"
  · have hsel : selectResponseReader req h p r = r.withContentLengthRead 0 p := by
      unfold selectResponseReader
      rw [if_pos h0, if_pos hm]
    rw [hsel] at hfin
    cases hfin
  · exact select_interim h0 hlast.1 hlast.2 hm p

/-- What a session asks goes with the request, and no call changes it. -/
structure Asked (req : RequestHeader) (u : Upstream) : Prop where
  request : u.requestHeader = some req
  upgrade : u.upgrade = false

/-- A call that looks for a head gives one. -/
theorem Seeking.read (hs : Seeking crates whole ps wire u) (hreq : Asked req u)
    (hup : Utils.isRequestUpgrade req = false) {t : Task} (hk : whole → HeadAlone crates u)
    (hok : readUpstreamResponse crates u = (.ok t, u')) :
    Asked req u' ∧ ∃ h e, t = .header h e ∧
      (isLast h = false ∧ ReadUpTo crates whole (ps ++ [h]) wire u'.stream.bytes ∧
          (e = false → Seeking crates whole (ps ++ [h]) wire u') ∨
        isLast h = true ∧ Answering crates whole ps req wire h [] u') := by
  rcases readUpstreamResponse_head_ok hreq.request hs.head hs.start hok with
    ⟨rest, hd, bs, hnone, hresp, rfl, rfl⟩ | ⟨buf, size, parts, rest, hd, hsome, hb, rfl, rfl⟩
  · have hlast : isLast hd = false := by
      have := hs.head
      rwa [shouldRead_eq hresp, Bool.not_eq_true'] at this
    have hbytes : Stream.bytesOf rest = u.stream.bytes := by
      unfold Stream.bytes
      rw [readHead_none hnone]
      rfl
    obtain ⟨front, hwire, hpassed⟩ := hs.unread
    have hlastSeen : ps.getLast? = some hd := hs.seen.symm.trans hresp
    have hunread : ReadUpTo crates whole (ps ++ [hd]) wire (Stream.bytesOf rest) :=
      ⟨front, (congrArg (front ++ ·) hbytes).trans hwire, hpassed.again hlastSeen⟩
    refine ⟨⟨hreq.request, hreq.upgrade⟩, hd, _, rfl, .inl ⟨hlast, hunread, fun hfin => ?_⟩⟩
    rw [select_seeking hs.start hlast bs hfin]
    exact ⟨hs.head, hs.start, hs.idle, hresp.trans List.getLast?_concat.symm, hunread⟩
  · obtain ⟨hparse, hbytes⟩ := readHead_some hsome
    have hsplit : buf.take size ++ (buf.drop size ++ Stream.bytesOf rest) = u.stream.bytes := by
      rw [← List.append_assoc, List.take_append_drop]
      exact hbytes.symm
    have hans := isAnswer_take hparse hb
    obtain ⟨front, hwire, hpassed⟩ := hs.unread
    rw [← hsplit] at hwire
    refine ⟨⟨hreq.request, ?_⟩, hd, _, rfl, ?_⟩
    · show (Utils.isRequestUpgrade req && Utils.isResponseUpgrade hd) = false
      rw [hup, Bool.false_and]
    cases hlast : isLast hd with
    | false =>
      have hunread : ReadUpTo crates whole (ps ++ [hd]) wire (Stream.bytesOf rest) := by
        refine ⟨front ++ buf.take size ++ buf.drop size, ?_, (hpassed.head hans hlast).drop fun hw => ?_⟩
        · rw [← hwire]
          simp only [List.append_assoc]
        · exact hk hw _ _ _ _ _ hsome hb hlast
      refine .inl ⟨rfl, hunread, fun hfin => ?_⟩
      have hsel := select_seeking hs.start hlast (buf.drop size) hfin
      refine ⟨?_, ?_, ?_, List.getLast?_concat.symm, hunread⟩
      · rw [shouldRead_eq (h := hd) rfl, hlast]
        rfl
      · rw [hsel]
        exact hs.start
      · rw [hsel]
        exact hs.idle
    | true =>
      refine .inr ⟨rfl, rfl, hlast, select_started hs.start hup hlast _, _, ⟨_, ⟨front, hwire, hpassed⟩, hans⟩,
        List.suffix_append _ _, fun hc => ?_, fun hc _ hfits B after hB => ?_⟩
      · refine ⟨_, select_left hs.idle hs.start hup hlast hc _ _, List.prefix_rfl, ?_⟩
        have hrewind : (selectResponseReader req hd (buf.drop size) u.bodyReader).rewindBufSize ≤ (buf.drop size).length :=
          select_rewind hs.idle hs.start hup hlast (buf.drop size)
        rw [List.length_append]
        show ([] : Bytes).length + (selectResponseReader req hd (buf.drop size) u.bodyReader).rewindBufSize +
          (Stream.bytesOf rest).length ≤ _
        rw [List.length_nil]
        omega
      · refine ⟨B.data, ?_, rfl⟩
        rw [select_chunked hs.start hup hlast hc]
        refine BodyReader.chunksLeft_withChunkedRead hs.idle ?_ hB
        rw [List.length_append] at hfits
        have : (buf.drop size).length + (Stream.bytesOf rest).length < usizeEnd + (Stream.bytesOf rest).length := hfits
        omega

/-! ## Reading only takes -/

theorem readHead_rest {α : Type} (parse : Bytes → HeadStatus α) : ∀ (evs : List ReadEv) (readBuffer : Bytes),
    (readHead parse readBuffer evs).2 <:+ evs := by
  intro evs
  induction evs with
  | nil =>
    intro readBuffer
    unfold readHead
    exact List.suffix_rfl
  | cons ev evs ih =>
    intro readBuffer
    have htail : evs <:+ ev :: evs := List.suffix_cons ev evs
    unfold readHead
    split
    · exact List.suffix_rfl
    · split
      · exact htail
      · split
        · exact htail
        · split
          · exact htail
          · exact (ih _).trans htail
          · exact htail

/-- Whatever comes of a call, what it leaves unread is the end of what was. -/
theorem readUpstreamResponse_unread (crates : Crates) (u : Upstream) :
    (readUpstreamResponse crates u).2.stream.bytes <:+ u.stream.bytes := by
  let I : Upstream → Prop := fun v => v.stream.bytes <:+ u.stream.bytes
  have hkept : ∀ {α : Type} {x : M α}, Keeps stream x → Stays I x := by
    intro α x hx v hv
    show (x v).2.stream.bytes <:+ _
    rw [hx v]
    exact hv
  have hreader : ∀ (v : Upstream) (r : BodyReader), stream { v with bodyReader := r } = v.stream := fun _ _ => rfl
  have hfinished : Stays I isReadingResponseBodyFinished := hkept (isReadingResponseBodyFinished_keeps hreader)
  have hsession : ∀ h, Keeps stream (isSessionUpgrade h) := by
    intro h
    refine .bind (fun v => ?_) fun _ => .ite (.pure _) (.pure _)
    unfold isRequestUpgrade
    split <;> rfl
  have hloop : Stays I (onStream (headLoop crates.parseResponse)) := by
    intro v hv
    obtain ⟨front, hfront⟩ := readHead_rest crates.parseResponse v.stream.input []
    refine List.IsSuffix.trans ?_ hv
    show Stream.bytesOf (readHead crates.parseResponse [] v.stream.input).2 <:+ Stream.bytesOf v.stream.input
    have hsplit := congrArg Stream.bytesOf hfront
    rw [Stream.bytesOf_append] at hsplit
    exact ⟨Stream.bytesOf front, hsplit⟩
  have hhead : Stays I (readResponse crates) := by
    refine .bind (.modify fun _ hv => hv) fun _ => .bind hloop fun x => ?_
    cases x with
    | none => exact .pure _
    | some x =>
      refine .bind (.modify fun _ hv => hv) fun _ => ?_
      cases responseHeaderOf crates x.2.2 with
      | none => exact .stop _
      | some h =>
        exact .bind (.modify fun _ hv => hv) fun _ => .bind (hkept (hsession h)) fun _ => .modify fun _ hv => hv
  have hbody : Stays I (readResponseBodyBytes crates) := by
    have honReader : Stays I (onReader (BodyReader.readBody crates.parseChunkSize)) :=
      fun v hv => (BodyReader.readBody_unread crates.parseChunkSize v.bodyReader v.stream).trans hv
    refine .bind (.bind (hkept (setResponseBodyReader_keeps hreader)) fun _ => honReader) fun o => ?_
    cases o with
    | none => exact .pure _
    | some o => exact .bind (fun _ hv => hv) fun _ => .pure _
  have hcall : Stays I (readUpstreamResponse crates) := by
    unfold readUpstreamResponse
    refine .bind .get fun v => .ite (.bind hhead fun _ => .bind .get fun v => ?_)
      (.bind hfinished fun _ => .ite (.pure _) (.bind hbody fun _ => .bind hfinished fun _ => .pure _))
    cases v.responseHeader with
    | none => exact .stop _
    | some h => exact .bind hfinished fun _ => .pure _
  exact hcall u List.suffix_rfl

/-! ## The body -/

/-- What a session asks and what it is told. -/
def told (u : Upstream) : Option RequestHeader × Option ResponseHeader × Bool :=
  (u.requestHeader, u.responseHeader, u.upgrade)

theorem readUpstreamResponse_told (hs : u.shouldReadResponseHeader = false) :
    (readUpstreamResponse crates u).2.told = u.told := by
  have hreader : ∀ (v : Upstream) (r : BodyReader), told { v with bodyReader := r } = v.told := fun _ _ => rfl
  have hfinished := isReadingResponseBodyFinished_keeps hreader
  have hread : Keeps told (readResponseBodyBytes crates) := readResponseBodyBytes_keeps hreader fun _ => rfl
  have hbody : Keeps told (isReadingResponseBodyFinished >>= fun b =>
      if b = true then pure Task.done else readResponseBodyBytes crates >>= fun body =>
        isReadingResponseBodyFinished >>= fun e => pure (Task.body body e)) :=
    .bind hfinished fun _ => .ite (.pure _) (.bind hread fun _ => .bind hfinished fun _ => .pure _)
  have hcall : readUpstreamResponse crates u = (isReadingResponseBodyFinished >>= fun b =>
      if b = true then pure Task.done else readResponseBodyBytes crates >>= fun body =>
        isReadingResponseBodyFinished >>= fun e => pure (Task.body body e)) u := by
    unfold readUpstreamResponse
    simp only [get_bind_apply, hs, Bool.false_eq_true, if_false]
  rw [hcall]
  exact hbody u

theorem Asked.told_eq (hreq : Asked req u) (ht : u'.told = u.told) : Asked req u' := by
  obtain ⟨hrequest, -, hupgrade⟩ : _ ∧ _ ∧ _ := by simpa only [told, Prod.mk.injEq] using ht
  exact ⟨hrequest.trans hreq.request, hupgrade.trans hreq.upgrade⟩

theorem Seeking.congr (hs : Seeking crates whole ps wire u) (hresp : u'.responseHeader = u.responseHeader)
    (hread : u'.bodyReader = u.bodyReader) (hin : u'.stream.input = u.stream.input) : Seeking crates whole ps wire u' := by
  have hbytes : u'.stream.bytes = u.stream.bytes := by
    unfold Stream.bytes
    rw [hin]
  refine ⟨?_, hread ▸ hs.start, hread ▸ hs.idle, hresp.trans hs.seen, hbytes.symm ▸ hs.unread⟩
  have := hs.head
  unfold shouldReadResponseHeader at this ⊢
  rwa [hresp]

theorem Answering.congr (ha : Answering crates whole ps req wire h data u) (hresp : u'.responseHeader = u.responseHeader)
    (hread : u'.bodyReader = u.bodyReader) (hin : u'.stream.input = u.stream.input) :
    Answering crates whole ps req wire h data u' := by
  have hbytes : u'.stream.bytes = u.stream.bytes := by
    unfold Stream.bytes
    rw [hin]
  obtain ⟨bs, hbehind, hunread, hplain, hchunks⟩ := ha.left
  refine ⟨hresp.trans ha.head, ha.last, hread ▸ ha.started, bs, hbehind, hbytes ▸ hunread, fun hc => ?_,
    fun hc hw hfits B after hB => ?_⟩
  · obtain ⟨rest, hleft, hfront, hcount⟩ := hplain hc
    exact ⟨rest, hread ▸ hleft.congr hbytes, hfront, by rw [hread, hbytes]; exact hcount⟩
  · obtain ⟨rest, hleft, hall⟩ := hchunks hc hw (hbytes ▸ hfits) B after hB
    exact ⟨rest, hread ▸ hleft.congr hbytes, hall⟩

/-- A call in the body gives a body task. -/
theorem readUpstreamResponse_task (hs : u.shouldReadResponseHeader = false) (h0 : u.bodyReader.isStart = false)
    (hf : u.bodyReader.isFinished = false) {t : Task} (hok : readUpstreamResponse crates u = (.ok t, u')) :
    ∃ b e, t = .body b e := by
  unfold readUpstreamResponse at hok
  simp only [get_bind_apply, hs, Bool.false_eq_true, if_false] at hok
  rw [bind_ok (isReadingResponseBodyFinished_of_not_start h0), hf] at hok
  simp only [Bool.false_eq_true, if_false] at hok
  obtain ⟨b, u1, -, hok⟩ := of_bind_ok hok
  obtain ⟨e, u2, -, hok⟩ := of_bind_ok hok
  cases hok
  exact ⟨b, e, rfl⟩

theorem isReadingResponseBodyFinished_true (hok : isReadingResponseBodyFinished u = (.ok true, u')) :
    u'.bodyReader.isFinished = true := by
  obtain ⟨_, u1, -, h2⟩ := of_bind_ok hok
  rw [get_bind_apply] at h2
  cases hf : u1.bodyReader.isFinished with
  | true =>
    rw [hf] at h2
    cases h2
    exact hf
  | false =>
    rw [hf] at h2
    cases h2

/-- A task that ends the response leaves a reader that is done. -/
theorem readUpstreamResponse_end {t : Task} (hok : readUpstreamResponse crates u = (.ok t, u')) (he : t.isEnd = true) :
    u'.bodyReader.isFinished = true := by
  unfold readUpstreamResponse at hok
  rw [get_bind_apply] at hok
  split at hok
  · obtain ⟨_, u1, -, h2⟩ := of_bind_ok hok
    rw [get_bind_apply] at h2
    cases hresp : u1.responseHeader with
    | none =>
      rw [hresp] at h2
      cases h2
    | some h =>
      rw [hresp] at h2
      obtain ⟨e, u2, h3, h4⟩ := of_bind_ok h2
      cases h4
      obtain rfl : e = true := he
      exact isReadingResponseBodyFinished_true h3
  · obtain ⟨fin, u1, h1, h2⟩ := of_bind_ok hok
    cases fin with
    | true =>
      cases h2
      exact isReadingResponseBodyFinished_true h1
    | false =>
      obtain ⟨b, u2, -, h3⟩ := of_bind_ok h2
      obtain ⟨e, u3, h4, h5⟩ := of_bind_ok h3
      cases h5
      obtain rfl : e = true := he
      exact isReadingResponseBodyFinished_true h4

/-- The task of a body, or the one that says it is over. -/
inductive Gives : Task → Bytes → Prop
  | body (b : Option Bytes) (e : Bool) : Gives (.body b e) (b.getD [])
  | done : Gives .done []

/-- A call that is past the last head gives what comes next of the body. -/
theorem Answering.read (ha : Answering crates whole ps req wire h data u) (hreq : Asked req u) {t : Task}
    (hok : readUpstreamResponse crates u = (.ok t, u')) :
    Asked req u' ∧ ∃ x, Gives t x ∧ Answering crates whole ps req wire h (data ++ x) u' := by
  have hbody := ha.inBody
  have htold : u'.told = u.told := by
    have hkept : (readUpstreamResponse crates u).2.told = u.told := readUpstreamResponse_told hbody
    rwa [hok] at hkept
  have hhead : u'.responseHeader = some h := by
    obtain ⟨-, hresp, -⟩ : _ ∧ _ ∧ _ := by simpa only [told, Prod.mk.injEq] using htold
    exact hresp.trans ha.head
  have hstarted : u'.bodyReader.isStart = false := by
    refine readUpstreamResponse_moded hok ?_
    rw [shouldRead_eq hhead, ha.last]
    rfl
  refine ⟨hreq.told_eq htold, ?_⟩
  cases hf : u.bodyReader.isFinished with
  | true =>
    cases hok.symm.trans (readUpstreamResponse_finished hbody ha.started hf)
    exact ⟨[], .done, by rw [List.append_nil]; exact ha⟩
  | false =>
    obtain ⟨o, r, s, hread, -⟩ := readUpstreamResponse_body_ok hbody ha.started hf hok
    obtain ⟨b, e, rfl⟩ := readUpstreamResponse_task hbody ha.started hf hok
    obtain ⟨bs, hbehind, hunread, hplain, hchunks⟩ := ha.left
    have htaken : u'.stream.bytes <:+ u.stream.bytes := by
      have := readUpstreamResponse_unread crates u
      rwa [hok] at this
    refine ⟨b.getD [], .body b e, hhead, ha.last, hstarted, bs, hbehind, htaken.trans hunread, fun hc => ?_,
      fun hc hw hfits B after hB => ?_⟩
    · obtain ⟨rest, hleft, hfront, hcount⟩ := hplain hc
      have hnext : BodyReader.Next _ _ _ (BodyReader.readBody crates.parseChunkSize _) := hleft.next hf
      rw [hread] at hnext
      cases hnext with
      | @slice o _ _ x rest' hget hleft' hsplit hmore =>
        have hcall := readUpstreamResponse_body (b := some x) hbody ha.started hf hread ⟨x, hget, rfl⟩ hleft'.started
        cases hok.symm.trans hcall
        refine ⟨rest', hleft', ?_, ?_⟩
        · rw [Option.getD_some, List.append_assoc, ← hsplit]
          exact hfront
        · rw [Option.getD_some, List.length_append]
          show data.length + x.length + r.rewindBufSize + s.bytes.length ≤ _
          omega
      | ended hfin hrewound =>
        have hleft' : BodyReader.Left r s [] := .finished hfin
        have hcall := readUpstreamResponse_body (b := none) hbody ha.started hf hread rfl hleft'.started
        cases hok.symm.trans hcall
        refine ⟨[], hleft', ?_, ?_⟩
        · rw [Option.getD_none, List.append_nil, List.append_nil]
          exact (List.prefix_append ..).trans hfront
        · have hlen : s.bytes.length ≤ u.stream.bytes.length := htaken.length_le
          rw [Option.getD_none, List.append_nil]
          show data.length + r.rewindBufSize + s.bytes.length ≤ _
          omega
    · have hlen := htaken.length_le
      obtain ⟨rest, hleft, hall⟩ := hchunks hc hw (by omega) B after hB
      obtain ⟨x, rest', hget, hsplit, hleft', hmode⟩ := hleft.next hB.parser hB.lines hf hread
      have hcall := readUpstreamResponse_body (b := x) hbody ha.started hf hread hget hmode
      cases hok.symm.trans hcall
      refine ⟨rest', hleft', ?_⟩
      rw [List.append_assoc, ← hsplit]
      exact hall

/-! ## Reads that are dropped, and writes -/

/-- A read that is dropped leaves the session looking. -/
theorem Seeking.drop (hs : Seeking crates whole ps wire u) {k : Nat} (hk : whole → Service.Droppable k u)
    (hd : Service.dropUpstream crates k u = some u') : Seeking crates whole ps wire u' := by
  rw [Service.dropUpstream_head hs.head hd]
  have hsplit : u.stream.bytes = Stream.bytesOf (u.stream.input.take k) ++ Stream.bytesOf (u.stream.input.drop k) := by
    rw [← Stream.bytesOf_append, List.take_append_drop]
    rfl
  obtain ⟨front, hwire, hpassed⟩ := hs.unread
  rw [hsplit, ← List.append_assoc] at hwire
  refine ⟨hs.head, hs.start, hs.idle, hs.seen, _, hwire, hpassed.drop fun hw => ?_⟩
  rw [(hk hw).head hs.head]
  rfl

/-- A read that is dropped had handed out nothing. -/
theorem Answering.drop (ha : Answering crates whole ps req wire h data u) {k : Nat}
    (hk : whole → Service.Droppable k u) (hd : Service.dropUpstream crates k u = some u') :
    Answering crates whole ps req wire h data u' := by
  have hmoved := (Service.dropUpstream_body ha.inBody ha.started hd).1
  rw [hmoved]
  obtain ⟨bs, hbehind, hunread, hplain, hchunks⟩ := ha.left
  refine ⟨ha.head, ha.last, (BodyReader.moved_isStart u.bodyReader).trans ha.started, bs, hbehind, hunread, fun hc => ?_,
    fun hc hw hfits B after hB => ?_⟩
  · obtain ⟨rest, hleft, hfront, hcount⟩ := hplain hc
    have hsame := hleft.moved_eq
    exact ⟨rest, hsame.symm ▸ hleft, hfront, hsame.symm ▸ hcount⟩
  · obtain ⟨rest, hleft, hall⟩ := hchunks hc hw hfits B after hB
    exact ⟨rest, hleft.moved ((hk hw).body ha.inBody), hall⟩

/-- A task of the request is written, and nothing is read for it. -/
theorem writeUpstreamRequest_ok {t : Task} {e' : Bool} (hup : u.upgrade = false)
    (hok : writeUpstreamRequest t u = (.ok e', u')) :
    ∃ w s, u' = { u with bodyWriter := w, stream := s } ∧ s.input = u.stream.input := by
  obtain ⟨b, e, rfl⟩ : t.IsBody := by
    cases t with
    | body b e => exact ⟨b, e, rfl⟩
    | _ => cases hok
  unfold writeUpstreamRequest at hok
  obtain ⟨_, u1, h1, hok⟩ := of_bind_ok hok
  obtain ⟨_, u2, h2, hok⟩ := of_bind_ok hok
  cases hok
  have hsome : ∃ w s, u1 = { u with bodyWriter := w, stream := s } ∧ s.input = u.stream.input := by
    cases b with
    | none =>
      cases h1
      exact ⟨_, _, rfl, rfl⟩
    | some x =>
      obtain ⟨n, u3, h3, h4⟩ := of_bind_ok h1
      cases h4
      obtain ⟨s, rfl, -, hin⟩ := writeRequestBody_ok h3
      exact ⟨_, s, rfl, hin⟩
  obtain ⟨w, s, rfl, hin⟩ := hsome
  cases e' with
  | false =>
    cases h2
    exact ⟨w, s, rfl, hin⟩
  | true =>
    obtain ⟨n, u3, h3, h4⟩ := of_bind_ok h2
    cases h4
    obtain ⟨s', rfl, -, hin'⟩ := finishWritingRequestBody_ok h3
    refine ⟨w.closing.2, s', ?_, hin'.trans hin⟩
    unfold forceClosed
    simp only [hup, Bool.false_and, Bool.false_eq_true, if_false]

end Upstream

end Glaive.Session
