/-
  Glaive.Service.DroppedReads — reads of the server dropped in `handle_upstream`'s
  `select!` (`core/src/service/proxy/duplex.rs`: `handle_upstream`;
  `core/src/session/upstream.rs`: `read_response`, `read_upstream_response`).

  `read_response` gathers a head in a buffer of its own, and a future dropped at its
  read takes the buffer along: what it had read is gone (`dropUpstream_head`). In the
  body the reader keeps what it has, and a dropped read leaves all but a partial size
  line where it was (`dropUpstream_body`).

  A run whose drops come before a byte of a head is read, or find a steady reader,
  goes as the run without them (`drops_lose_nothing`).
-/

import Glaive.Service.ChannelDeadlock
import Glaive.Session.InterimHeads
import Glaive.Session.Interruptions

namespace Glaive.Session

open Glaive.Lib
open Glaive.Lib.Async

namespace Upstream

variable {crates : Crates} {u v : Upstream}

/-! ## A dropped read -/

theorem bodyBytes_prompt : Prompt bodyBytes := by
  intro u
  unfold bodyBytes
  split
  · nofun
  · split <;> nofun

theorem isRequestUpgrade_prompt : Prompt isRequestUpgrade := by
  intro u
  unfold isRequestUpgrade
  split <;> nofun

theorem getResponseHeaders_prompt : Prompt getResponseHeaders := by
  intro u
  unfold getResponseHeaders
  split <;> nofun

theorem setFramedReader_prompt (h : ResponseHeader) (bs : Bytes) : Prompt (setFramedReader h bs) := by
  intro u
  rw [setFramedReader_eq]
  nofun

theorem setResponseBodyReader_prompt : Prompt setResponseBodyReader := by
  unfold setResponseBodyReader
  refine .bind .get fun u => .ite (.bind bodyBytes_prompt fun bs => .bind .get fun u => .ite (.modify _) ?_) (.pure _)
  refine .bind getResponseHeaders_prompt fun h => .ite ?_ (.ite (.pure _) (.ite (.modify _) (setFramedReader_prompt h bs)))
  exact .bind isRequestUpgrade_prompt fun b => .ite (.modify _) (setFramedReader_prompt h bs)

theorem isReadingResponseBodyFinished_prompt : Prompt isReadingResponseBodyFinished := by
  unfold isReadingResponseBodyFinished
  exact .bind setResponseBodyReader_prompt fun _ => .bind .get fun _ => .pure _

theorem readSlicedResponseBody_prompt (o : Offset) : Prompt (readSlicedResponseBody o) := by
  intro u
  unfold readSlicedResponseBody BodyReader.getSlicedBody
  split
  · nofun
  · split <;> nofun

/-- A call that waits in the body waits in the reader. -/
theorem readUpstreamResponse_pending (hs : u.shouldReadResponseHeader = false) (h0 : u.bodyReader.isStart = false)
    (h : readUpstreamResponse crates u = (.pending, v)) :
    ∃ r s, BodyReader.readBody crates.parseChunkSize (u.bodyReader, u.stream) = (.pending, r, s) ∧
      v = u.withRead (r, s) := by
  unfold readUpstreamResponse at h
  simp only [get_bind_apply, hs, Bool.false_eq_true, if_false] at h
  rw [bind_ok (isReadingResponseBodyFinished_of_not_start h0)] at h
  split at h
  · cases h
  · have h := Prompt.of_bind (fun _ => .bind isReadingResponseBodyFinished_prompt fun _ => .pure _) h
    have h : readResponseBody crates u = (.pending, v) := by
      refine Prompt.of_bind (fun o => ?_) h
      cases o with
      | none => exact .pure _
      | some o => exact .bind (readSlicedResponseBody_prompt o) fun _ => .pure _
    unfold readResponseBody at h
    rw [bind_ok (setResponseBodyReader_of_not_start h0), onReader, zoom_apply] at h
    rcases hr : BodyReader.readBody crates.parseChunkSize (u.bodyReader, u.stream) with ⟨o, r, s⟩
    rw [hr] at h
    cases h
    exact ⟨r, s, rfl, rfl⟩

/-- What comes of a call in the body is what comes of its read. -/
theorem readUpstreamResponse_congr (hs : u.shouldReadResponseHeader = false) (h0 : u.bodyReader.isStart = false)
    (hf : u.bodyReader.isFinished = false) {r : BodyReader} (hst : r.readState = u.bodyReader.readState)
    (hr : BodyReader.readBody crates.parseChunkSize (r, u.stream) =
      BodyReader.readBody crates.parseChunkSize (u.bodyReader, u.stream)) :
    readUpstreamResponse crates { u with bodyReader := r } = readUpstreamResponse crates u := by
  have h0' : ({ u with bodyReader := r } : Upstream).bodyReader.isStart = false := by
    simp only [BodyReader.isStart, hst]
    exact h0
  have hf' : r.isFinished = false := by
    simp only [BodyReader.isFinished, hst]
    exact hf
  have hread : readResponseBody crates { u with bodyReader := r } = readResponseBody crates u := by
    unfold readResponseBody onReader
    rw [bind_ok (setResponseBodyReader_of_not_start h0), bind_ok (setResponseBodyReader_of_not_start h0'),
      zoom_apply, zoom_apply, hr]
  have hbytes : readResponseBodyBytes crates { u with bodyReader := r } = readResponseBodyBytes crates u := by
    unfold readResponseBodyBytes
    rw [bind_apply, bind_apply, hread]
  unfold readUpstreamResponse
  simp only [get_bind_apply, hs, show ({ u with bodyReader := r } : Upstream).shouldReadResponseHeader = false from hs,
    Bool.false_eq_true, if_false]
  rw [bind_ok (isReadingResponseBodyFinished_of_not_start h0), bind_ok (isReadingResponseBodyFinished_of_not_start h0')]
  simp only [hf, hf', Bool.false_eq_true, if_false]
  rw [bind_apply, bind_apply, hbytes]

/-- A head is read into a buffer that is emptied first. -/
theorem readUpstreamResponse_buffer (hs : u.shouldReadResponseHeader = true) (b : Bytes) :
    readUpstreamResponse crates { u with buffer := b } = readUpstreamResponse crates u := by
  unfold readUpstreamResponse
  simp only [get_bind_apply, hs, show ({ u with buffer := b } : Upstream).shouldReadResponseHeader = true from hs,
    if_true]
  rw [bind_apply, bind_apply]
  rfl

/-- The mode of the body is set, once the head of a response with one is read. -/
def Moded (u : Upstream) : Prop := u.shouldReadResponseHeader = false → u.bodyReader.isStart = false

theorem withContentLengthRead_started (r : BodyReader) (n : Nat) (p : Bytes) :
    (r.withContentLengthRead n p).isStart = false := by
  cases n <;> rfl

theorem framedReader_started (h : ResponseHeader) (p : Bytes) (r : BodyReader) : (framedReader h p r).isStart = false := by
  unfold framedReader
  split
  · rfl
  · split
    · exact withContentLengthRead_started _ _ _
    · rfl

theorem setResponseBodyReader_moded (h : setResponseBodyReader u = (.ok (), v)) : v.Moded := by
  unfold setResponseBodyReader at h
  simp only [get_bind_apply] at h
  split at h
  · obtain ⟨bs, w, hb, h⟩ := of_bind_ok h
    have hw : w = u := by
      unfold bodyBytes at hb
      split at hb
      · cases hb
      · split at hb <;> cases hb
        rfl
    simp only [get_bind_apply, hw] at h
    split at h
    · cases h
      exact fun _ => withContentLengthRead_started _ _ _
    · obtain ⟨hd, w', hh, h⟩ := of_bind_ok h
      obtain ⟨hresp, hw'⟩ : u.responseHeader = some hd ∧ w' = u := by
        unfold getResponseHeaders at hh
        split at hh <;> cases hh
        exact ⟨‹_›, rfl⟩
      rw [hw'] at h
      split at h
      · obtain ⟨up, w'', hup, h⟩ := of_bind_ok h
        split at h
        · cases h
          exact fun _ => rfl
        · rw [setFramedReader_eq] at h
          cases h
          exact fun _ => framedReader_started _ _ _
      · rename_i h101
        split at h
        · rename_i hinf
          cases h
          intro hs
          simp only [shouldReadResponseHeader, hresp, if_neg h101, hinf] at hs
          cases hs
        · split at h
          · cases h
            exact fun _ => withContentLengthRead_started _ _ _
          · rw [setFramedReader_eq] at h
            cases h
            exact fun _ => framedReader_started _ _ _
  · rename_i hst
    cases h
    exact fun _ => by simpa using hst

theorem isReadingResponseBodyFinished_moded {b : Bool} (h : isReadingResponseBodyFinished u = (.ok b, v)) : v.Moded := by
  unfold isReadingResponseBodyFinished at h
  obtain ⟨_, w, hset, h⟩ := of_bind_ok h
  cases h
  exact setResponseBodyReader_moded hset

/-- A call that ends with a task leaves the mode set. -/
theorem readUpstreamResponse_moded {t : Task} (h : readUpstreamResponse crates u = (.ok t, v)) : v.Moded := by
  unfold readUpstreamResponse at h
  simp only [get_bind_apply] at h
  split at h
  · obtain ⟨_, w, -, h⟩ := of_bind_ok h
    rw [get_bind_apply] at h
    cases hresp : w.responseHeader with
    | none =>
      rw [hresp] at h
      cases h
    | some hd =>
      rw [hresp] at h
      obtain ⟨b, w', hfin, h⟩ := of_bind_ok h
      cases h
      exact isReadingResponseBodyFinished_moded hfin
  · obtain ⟨b, w, hfin, h⟩ := of_bind_ok h
    split at h
    · cases h
      exact isReadingResponseBodyFinished_moded hfin
    · obtain ⟨body, w', -, h⟩ := of_bind_ok h
      obtain ⟨b', w'', hfin', h⟩ := of_bind_ok h
      cases h
      exact isReadingResponseBodyFinished_moded hfin'

/-! ## Sessions that go on alike -/

/-- `u` has had reads dropped that `v` has not. It goes on as `v` does: a head is read
    into an emptied buffer, and the readers give the same. -/
structure Alike (crates : Crates) (u v : Upstream) : Prop where
  rest : ∃ b r, u = { v with buffer := b, bodyReader := r }
  head : v.shouldReadResponseHeader = true → u.bodyReader = v.bodyReader
  buffer : v.shouldReadResponseHeader = false → u.buffer = v.buffer
  moded : v.Moded
  state : u.bodyReader.readState = v.bodyReader.readState
  reads : v.bodyReader.isFinished = false → ∀ s,
    BodyReader.readBody crates.parseChunkSize (u.bodyReader, s) =
      BodyReader.readBody crates.parseChunkSize (v.bodyReader, s)

theorem Alike.refl (h : v.Moded) : Alike crates v v := ⟨⟨_, _, rfl⟩, fun _ => rfl, fun _ => rfl, h, rfl, fun _ _ => rfl⟩

theorem Alike.stream (h : Alike crates u v) : u.stream = v.stream := by
  obtain ⟨b, r, rfl⟩ := h.rest
  rfl

/-- What a call ends with, and its task leaves sessions alike. -/
theorem Alike.read (h : Alike crates u v) :
    (readUpstreamResponse crates u).1 = (readUpstreamResponse crates v).1 ∧
    (readUpstreamResponse crates u).2.stream = (readUpstreamResponse crates v).2.stream ∧
    ∀ t, (readUpstreamResponse crates v).1 = .ok t →
      Alike crates (readUpstreamResponse crates u).2 (readUpstreamResponse crates v).2 := by
  have same : readUpstreamResponse crates u = readUpstreamResponse crates v →
      (readUpstreamResponse crates u).1 = (readUpstreamResponse crates v).1 ∧
      (readUpstreamResponse crates u).2.stream = (readUpstreamResponse crates v).2.stream ∧
      ∀ t, (readUpstreamResponse crates v).1 = .ok t →
        Alike crates (readUpstreamResponse crates u).2 (readUpstreamResponse crates v).2 := by
    intro e
    rw [e]
    exact ⟨rfl, rfl, fun t ht => .refl (readUpstreamResponse_moded (Prod.ext ht rfl))⟩
  obtain ⟨⟨b, r, rfl⟩, hhead, hbuf, hmoded, hstate, hreads⟩ := h
  cases hs : v.shouldReadResponseHeader with
  | true =>
    obtain rfl : r = v.bodyReader := hhead hs
    exact same (readUpstreamResponse_buffer hs b)
  | false =>
    obtain rfl : b = v.buffer := hbuf hs
    have h0 := hmoded hs
    cases hf : v.bodyReader.isFinished with
    | true =>
      have hf' : r.isFinished = true := by
        simp only [BodyReader.isFinished, show r.readState = v.bodyReader.readState from hstate]
        exact hf
      have h0' : r.isStart = false := by
        simp only [BodyReader.isStart, show r.readState = v.bodyReader.readState from hstate]
        exact h0
      rw [readUpstreamResponse_finished hs h0 hf, readUpstreamResponse_finished (u := { v with bodyReader := r }) hs h0' hf']
      exact ⟨rfl, rfl, fun _ _ => ⟨⟨_, _, rfl⟩, hhead, hbuf, hmoded, hstate, hreads⟩⟩
    | false => exact same (readUpstreamResponse_congr hs h0 hf hstate (hreads hf _))

theorem respects_onWriter {α : Type} (x : Async (BodyWriter × Stream) α) : Respects (Alike crates) (onWriter x) := by
  intro u v h
  rcases h with ⟨⟨b, r, rfl⟩, hhead, hbuf, hmoded, hstate, hreads⟩
  exact ⟨rfl, ⟨b, r, rfl⟩, hhead, hbuf, hmoded, hstate, hreads⟩

theorem respects_forceClose : Respects (Alike crates) forceCloseResponseBodyReader := by
  intro u v h
  rcases h with ⟨⟨b, r, rfl⟩, hhead, hbuf, hmoded, hstate, hreads⟩
  rw [forceCloseResponseBodyReader_eq, forceCloseResponseBodyReader_eq]
  refine ⟨rfl, ?_⟩
  have hfin : r.isFinished = v.bodyReader.isFinished := by
    simp only [BodyReader.isFinished, show r.readState = v.bodyReader.readState from hstate]
  unfold forceClosed
  simp only [hfin]
  cases hc : v.upgrade && !v.bodyReader.isFinished with
  | false => exact ⟨⟨b, r, rfl⟩, hhead, hbuf, hmoded, hstate, hreads⟩
  | true =>
    refine ⟨⟨b, _, rfl⟩, fun hs => ?_, hbuf, fun _ => rfl, rfl, fun hf => by cases hf⟩
    obtain rfl : r = v.bodyReader := hhead hs
    rfl

theorem respects_writeUpstreamRequest (t : Task) : Respects (Alike crates) (writeUpstreamRequest t) := by
  unfold writeUpstreamRequest
  split
  · rename_i b e
    refine .bind ?_ fun _ => .bind ?_ fun _ => .pure _
    · cases b with
      | none => exact .pure _
      | some x => exact .ignore (respects_onWriter _)
    · cases e with
      | false => exact .pure _
      | true => exact .ignore (.bind (respects_onWriter _) fun _ => .bind respects_forceClose fun _ => .pure _)
  · exact .stop _

/-! ## What a drop leaves -/

theorem readHead_pending {α : Type} {parse : Bytes → HeadStatus α} {evs rest : List ReadEv} {readBuffer : Bytes}
    (h : readHead parse readBuffer evs = (.pending, rest)) : rest = [] := by
  have hends := ends_of_readHead h
  clear h
  generalize ho : Out.pending = o at hends
  induction hends with
  | waits => rfl
  | fails => cases ho
  | closed => cases ho
  | found => cases ho
  | more _ _ _ _ ih => exact ih ho

theorem isSessionUpgrade_prompt (h : ResponseHeader) : Prompt (isSessionUpgrade h) := by
  unfold isSessionUpgrade
  exact .bind isRequestUpgrade_prompt fun b => .ite (.pure _) (.pure _)

theorem readResponse_pending (h : readResponse crates u = (.pending, v)) :
    v = { u with buffer := [], stream := { u.stream with input := [] } } := by
  unfold readResponse at h
  rw [modify_bind_apply] at h
  have hloop : onStream (headLoop crates.parseResponse) { u with buffer := [] } = (.pending, v) := by
    refine Prompt.of_bind (fun o => ?_) h
    cases o with
    | none => exact .pure _
    | some x =>
      obtain ⟨readBuffer, size, parts⟩ := x
      refine .bind (.modify _) fun _ => ?_
      cases responseHeaderOf crates parts with
      | none => exact fun s hs => nomatch hs
      | some h => exact .bind (.modify _) fun _ => .bind (isSessionUpgrade_prompt h) fun _ => .modify _
  rw [onStream, zoom_apply] at hloop
  unfold headLoop at hloop
  rcases hr : readHead crates.parseResponse [] u.stream.input with ⟨o, rest⟩
  simp only [hr] at hloop
  cases hloop
  rw [readHead_pending hr]

/-- A head waited for has taken all there was, and nothing of it is kept. -/
theorem readUpstreamResponse_pending_head (hs : u.shouldReadResponseHeader = true)
    (h : readUpstreamResponse crates u = (.pending, v)) :
    v = { u with buffer := [], stream := { u.stream with input := [] } } := by
  unfold readUpstreamResponse at h
  simp only [get_bind_apply, hs, if_true] at h
  have hr : readResponse crates u = (.pending, v) := by
    refine Prompt.of_bind (fun _ => .bind .get fun w => ?_) h
    cases w.responseHeader with
    | none => exact fun s hs => nomatch hs
    | some h => exact .bind isReadingResponseBodyFinished_prompt fun _ => .pure _
  exact readResponse_pending hr

end Upstream

end Glaive.Session

namespace Glaive.Service

open Glaive.Lib
open Glaive.Session

variable {crates : Crates} {u u' v : Upstream} {k : Nat}

theorem dropUpstream_head (hs : u.shouldReadResponseHeader = true) (h : dropUpstream crates k u = some u') :
    u' = { u with buffer := [], stream := { u.stream with input := u.stream.input.drop k } } := by
  unfold dropUpstream at h
  simp only at h
  split at h
  · rename_i w hp
    rw [Upstream.readUpstreamResponse_pending_head (u := { u with
      stream := { u.stream with input := u.stream.input.take k } }) hs hp] at h
    cases h
    rfl
  · cases h

theorem dropUpstream_body (hs : u.shouldReadResponseHeader = false) (h0 : u.bodyReader.isStart = false)
    (h : dropUpstream crates k u = some u') :
    u' = { u with bodyReader := u.bodyReader.moved } ∧ (u.bodyReader.Steady → ∀ s,
      BodyReader.readBody crates.parseChunkSize (u.bodyReader.moved, s) =
        BodyReader.readBody crates.parseChunkSize (u.bodyReader, s)) := by
  unfold dropUpstream at h
  simp only at h
  split at h
  · rename_i w hp
    obtain ⟨r, s, hr, rfl⟩ := Upstream.readUpstreamResponse_pending (u := { u with
      stream := { u.stream with input := u.stream.input.take k } }) hs h0 hp
    obtain ⟨hin, rfl, rfl, hsteady⟩ := BodyReader.readBody_pending hr
    refine ⟨?_, hsteady⟩
    have hall : u.stream.input.take k ++ u.stream.input.drop k = u.stream.input := List.take_append_drop ..
    cases h
    simp only [Upstream.withRead, hall]
  · cases h

/-- A read dropped here loses nothing: no byte of a head has been read, or the reader
    is steady. -/
def Droppable (k : Nat) (u : Upstream) : Prop :=
  if u.shouldReadResponseHeader then u.stream.input.take k = [] else u.bodyReader.Steady

theorem Droppable.head (h : Droppable k u) (hs : u.shouldReadResponseHeader = true) : u.stream.input.take k = [] := by
  rwa [Droppable, if_pos hs] at h

theorem Droppable.body (h : Droppable k u) (hs : u.shouldReadResponseHeader = false) : u.bodyReader.Steady := by
  rwa [Droppable, if_neg (by rw [hs]; decide)] at h

theorem Alike.drop (h : Upstream.Alike crates u v) (hk : Droppable k u) (hd : dropUpstream crates k u = some u') :
    Upstream.Alike crates u' v := by
  obtain ⟨⟨b, r, rfl⟩, hhead, hbuf, hmoded, hstate, hreads⟩ := h
  cases hs : v.shouldReadResponseHeader with
  | true =>
    have hin : v.stream.input.drop k = v.stream.input := by
      have := List.take_append_drop k v.stream.input
      rwa [show v.stream.input.take k = [] from hk.head hs, List.nil_append] at this
    rw [dropUpstream_head (u := { v with buffer := b, bodyReader := r }) hs hd, show _ = _ from hin]
    exact ⟨⟨[], r, rfl⟩, hhead, fun h => (Bool.false_ne_true (h.symm.trans hs)).elim, hmoded, hstate, hreads⟩
  | false =>
    have h0 : r.isStart = false := by
      simp only [BodyReader.isStart, show r.readState = v.bodyReader.readState from hstate]
      exact hmoded hs
    obtain ⟨rfl, hagain⟩ := dropUpstream_body (u := { v with buffer := b, bodyReader := r }) hs h0 hd
    exact ⟨⟨b, r.moved, rfl⟩, fun h => (Bool.false_ne_true (hs.symm.trans h)).elim, hbuf, hmoded,
      (BodyReader.moved_readState r).trans hstate, fun hf s => (hagain (hk.body hs) s).trans (hreads hf s)⟩

/-! ## Runs without the drops -/

/-- The loop may read or write again. -/
def UpAt.Live : UpAt → Prop
  | .failing _ => False
  | .returned => False
  | _ => True

/-- The event with no read of the server dropped. -/
def Event.undropped : Event → Event
  | .upWrite _ => .upWrite none
  | .upClosed _ => .upClosed none
  | e => e

namespace Duplex

def withUp (x : Duplex) (u : Upstream) : Duplex := { x with up.session := u }

theorem downStart_withUp (x : Duplex) (u : Upstream) : (x.withUp u).downStart = x.downStart.map (·.withUp u) := by
  unfold downStart withUp
  cases x.down.place <;> try rfl
  cases x.down.session.getRetryBuffer <;> try rfl
  simp only
  split
  · rfl
  · split <;> rfl

theorem downTurn_withUp (x : Duplex) (u : Upstream) : (x.withUp u).downTurn = x.downTurn.map (·.withUp u) := by
  unfold downTurn withUp
  cases x.down.place <;> try rfl
  simp only
  split <;> rfl

theorem downRead_withUp (x : Duplex) (u : Upstream) :
    (x.withUp u).downRead crates = (x.downRead crates).map (·.withUp u) := by
  unfold downRead withUp
  cases x.down.place <;> try rfl
  simp only
  split
  · split <;> rfl
  · rfl

theorem downFail_withUp (x : Duplex) (u : Upstream) : (x.withUp u).downFail = x.downFail.map (·.withUp u) := by
  unfold downFail withUp
  cases x.down.place <;> try rfl
  simp only
  split
  · rfl
  · split <;> rfl

theorem downWrite_withUp (drop : Option Nat) (more : Nat) (x : Duplex) (u : Upstream) :
    (x.withUp u).downWrite crates drop more = (x.downWrite crates drop more).map (·.withUp u) := by
  unfold downWrite withUp
  cases x.down.place <;> try rfl
  simp only
  split
  · split
    · rfl
    · split <;> rfl
  · rfl

theorem downClosed_withUp (drop : Option Nat) (x : Duplex) (u : Upstream) :
    (x.withUp u).downClosed crates drop = (x.downClosed crates drop).map (·.withUp u) := by
  unfold downClosed withUp
  cases x.down.place <;> try rfl
  simp only
  split
  · split <;> rfl
  · rfl

theorem downElse_withUp (x : Duplex) (u : Upstream) : (x.withUp u).downElse = x.downElse.map (·.withUp u) := by
  unfold downElse withUp
  cases x.down.place <;> try rfl
  simp only
  split <;> rfl

theorem upTurn_withUp (x : Duplex) (u : Upstream) : (x.withUp u).upTurn = x.upTurn.map (·.withUp u) := by
  unfold upTurn withUp
  cases x.up.place <;> try rfl
  simp only
  split <;> rfl

theorem upFail_withUp (x : Duplex) (u : Upstream) : (x.withUp u).upFail = x.upFail.map (·.withUp u) := by
  unfold upFail withUp
  cases x.up.place <;> try rfl
  simp only
  split
  · rfl
  · split <;> rfl

/-- The events that neither read nor write the server. -/
def Aside : Event → Prop
  | .upRead => False
  | .upSend => False
  | .upWrite _ => False
  | .upClosed _ => False
  | _ => True

variable {x x' y : Duplex} {e : Event}

theorem step_withUp (he : Aside e) (x : Duplex) (u : Upstream) :
    step crates e (x.withUp u) = (step crates e x).map (·.withUp u) := by
  unfold step
  rw [show (x.withUp u).stopped = x.stopped from rfl]
  split
  · rfl
  · cases e with
    | downStart => exact downStart_withUp x u
    | downTurn => exact downTurn_withUp x u
    | downRead => exact downRead_withUp x u
    | downFail => exact downFail_withUp x u
    | downWrite drop more => exact downWrite_withUp drop more x u
    | downClosed drop => exact downClosed_withUp drop x u
    | downElse => exact downElse_withUp x u
    | upTurn => exact upTurn_withUp x u
    | upFail => exact upFail_withUp x u
    | upRead => exact he.elim
    | upSend => exact he.elim
    | upWrite drop => exact he.elim
    | upClosed drop => exact he.elim

theorem step_aside (he : Aside e) (h : step crates e x = some x') :
    x'.up.session = x.up.session ∧ (x'.up.place.Live → x.up.place.Live) := by
  obtain ⟨-, hm | hm⟩ := step_moves h
  · cases hm <;> exact ⟨rfl, id⟩
  · cases hm with
    | finish hp => exact ⟨rfl, fun h => h.elim⟩
    | select hp => exact ⟨rfl, fun _ => by rw [hp]; trivial⟩
    | failClosed => exact ⟨rfl, fun h => h.elim⟩
    | fail => exact ⟨rfl, fun h => h.elim⟩
    | _ => exact he.elim

/-- `x` has had reads of the server dropped that `y` has not; else they are the same,
    and go on alike. -/
structure Follows (crates : Crates) (x y : Duplex) : Prop where
  rest : ∃ u, x = y.withUp u
  stream : x.up.session.stream = y.up.session.stream
  alike : x.stopped = none → x.up.place.Live → Upstream.Alike crates x.up.session y.up.session

theorem Follows.aside (h : Follows crates x y) (he : Aside e) (hs : step crates e x = some x') :
    ∃ y', step crates e y = some y' ∧ Follows crates x' y' := by
  obtain ⟨hstop, -⟩ := step_moves hs
  obtain ⟨hsame, hlive⟩ := step_aside he hs
  obtain ⟨⟨u, rfl⟩, hstream, halike⟩ := h
  rw [step_withUp he, Option.map_eq_some_iff] at hs
  obtain ⟨y', hy, rfl⟩ := hs
  obtain ⟨hsame', -⟩ := step_aside he hy
  refine ⟨y', hy, ⟨u, rfl⟩, ?_, fun _ hl => ?_⟩
  · rw [hsame, hsame']
    exact hstream
  · rw [hsame, hsame']
    exact halike hstop (hlive hl)

theorem Follows.upRead (h : Follows crates x y) (hstop : x.stopped = none) (hs : x.upRead crates = some x') :
    ∃ y', y.upRead crates = some y' ∧ Follows crates x' y' := by
  obtain ⟨⟨u, rfl⟩, hstream, halike⟩ := h
  unfold Duplex.upRead withUp at hs
  unfold Duplex.upRead
  cases hp : y.up.place with
  | select =>
    have halike : Upstream.Alike crates u y.up.session := halike hstop (show y.up.place.Live by rw [hp]; trivial)
    simp only [hp] at hs ⊢
    split at hs
    · rename_i hd
      rw [if_pos hd]
      obtain ⟨ho, hst, hgo⟩ := halike.read
      rcases hu : Upstream.readUpstreamResponse crates u with ⟨o, u1⟩
      rcases hv : Upstream.readUpstreamResponse crates y.up.session with ⟨o', v1⟩
      rw [hu, hv] at ho hst hgo
      obtain rfl : o = o' := ho
      rw [hu] at hs
      cases o with
      | ok t =>
        cases hs
        exact ⟨_, rfl, ⟨u1, rfl⟩, hst, fun _ _ => hgo t rfl⟩
      | err e =>
        cases hs
        exact ⟨_, rfl, ⟨u1, rfl⟩, hst, fun _ hl => hl.elim⟩
      | pending => cases hs
      | panic t =>
        cases hs
        exact ⟨_, rfl, ⟨u1, rfl⟩, hst, nofun⟩
    · cases hs
  | _ => simp only [hp] at hs; cases hs

theorem Follows.upSend (h : Follows crates x y) (hstop : x.stopped = none) (hs : x.upSend = some x') :
    ∃ y', y.upSend = some y' ∧ Follows crates x' y' := by
  obtain ⟨⟨u, rfl⟩, hstream, halike⟩ := h
  unfold Duplex.upSend withUp at hs
  unfold Duplex.upSend
  cases hp : y.up.place with
  | sending t =>
    have halike : Upstream.Alike crates u y.up.session := halike hstop (show y.up.place.Live by rw [hp]; trivial)
    have hup : Upstream.isRequestUpgrade u = ((Upstream.isRequestUpgrade y.up.session).1, u) := by
      obtain ⟨b, r, rfl⟩ := halike.rest
      unfold Upstream.isRequestUpgrade
      cases y.up.session.requestHeader <;> rfl
    simp only [hp] at hs ⊢
    split at hs
    · rename_i hd
      rw [if_pos hd]
      rw [hup] at hs
      rcases hv : Upstream.isRequestUpgrade y.up.session with ⟨o, v⟩
      rw [hv] at hs
      cases o with
      | ok b =>
        cases b <;> cases hs
        · exact ⟨_, rfl, ⟨u, by simp only [withUp, hp]⟩, hstream, nofun⟩
        · exact ⟨_, rfl, ⟨u, rfl⟩, hstream, fun _ _ => halike⟩
      | err e => cases hs
      | pending => cases hs
      | panic t =>
        cases hs
        exact ⟨_, rfl, ⟨u, by simp only [withUp, hp]⟩, hstream, nofun⟩
    · rename_i hd
      rw [if_neg hd]
      split at hs
      · rename_i hroom
        rw [if_pos hroom]
        cases hs
        exact ⟨_, rfl, ⟨u, rfl⟩, hstream, fun _ _ => halike⟩
      · cases hs
  | _ => simp only [hp] at hs; cases hs

/-- A drop that loses nothing, in a live loop. -/
theorem Follows.dropped {drop : Option Nat} {u1 : Upstream} (h : Upstream.Alike crates x.up.session y.up.session)
    (hk : ∀ k, drop = some k → Droppable k x.up.session) (hd : x.up.dropped crates drop = some u1) :
    Upstream.Alike crates u1 y.up.session := by
  unfold UpLoop.dropped at hd
  cases drop with
  | none =>
    cases hd
    exact h
  | some k =>
    simp only at hd
    split at hd
    · exact Alike.drop h (hk k rfl) hd
    · cases hd

theorem Follows.upWrite {drop : Option Nat} (h : Follows crates x y) (hstop : x.stopped = none)
    (hk : ∀ k, drop = some k → Droppable k x.up.session) (hs : x.upWrite crates drop = some x') :
    ∃ y', y.upWrite crates none = some y' ∧ Follows crates x' y' := by
  obtain ⟨⟨u, rfl⟩, hstream, halike⟩ := h
  unfold Duplex.upWrite withUp at hs
  unfold Duplex.upWrite
  cases hp : y.up.place with
  | select =>
    have halike : Upstream.Alike crates u y.up.session := halike hstop (show y.up.place.Live by rw [hp]; trivial)
    cases hr : y.requests with
    | nil => simp only [hp, hr] at hs; cases hs
    | cons t rest =>
      simp only [hp, hr] at hs ⊢
      split at hs
      · rename_i hd
        rw [if_pos hd]
        split at hs
        · cases hs
        · rename_i u1 hdrop
          have halike1 : Upstream.Alike crates u1 y.up.session :=
            Follows.dropped (x := y.withUp u) halike hk (by simp only [withUp, hp]; exact hdrop)
          obtain ⟨ho, hgo⟩ := Upstream.respects_writeUpstreamRequest t u1 y.up.session halike1
          rcases hu : Upstream.writeUpstreamRequest t u1 with ⟨o, u2⟩
          rcases hv : Upstream.writeUpstreamRequest t y.up.session with ⟨o', v2⟩
          rw [hu, hv] at ho hgo
          obtain rfl : o = o' := ho
          simp only [hu] at hs
          simp only [UpLoop.dropped, hv]
          cases o with
          | ok b =>
            cases hs
            exact ⟨_, rfl, ⟨u2, rfl⟩, hgo.stream, fun _ _ => hgo⟩
          | err e =>
            cases hs
            exact ⟨_, rfl, ⟨u2, rfl⟩, hgo.stream, nofun⟩
          | pending => cases hs
          | panic t =>
            cases hs
            exact ⟨_, rfl, ⟨u2, rfl⟩, hgo.stream, nofun⟩
      · cases hs
  | _ => simp only [hp] at hs; cases hs

theorem Follows.upClosed {drop : Option Nat} (h : Follows crates x y) (hstop : x.stopped = none)
    (hk : ∀ k, drop = some k → Droppable k x.up.session) (hs : x.upClosed crates drop = some x') :
    ∃ y', y.upClosed crates none = some y' ∧ Follows crates x' y' := by
  obtain ⟨⟨u, rfl⟩, hstream, halike⟩ := h
  unfold Duplex.upClosed withUp at hs
  unfold Duplex.upClosed
  cases hp : y.up.place with
  | select =>
    have halike : Upstream.Alike crates u y.up.session := halike hstop (show y.up.place.Live by rw [hp]; trivial)
    simp only [hp] at hs ⊢
    split at hs
    · rename_i hc
      rw [if_pos hc]
      split at hs
      · cases hs
      · rename_i u1 hdrop
        have halike1 : Upstream.Alike crates u1 y.up.session :=
          Follows.dropped (x := y.withUp u) halike hk (by simp only [withUp, hp]; exact hdrop)
        cases hs
        exact ⟨_, rfl, ⟨u1, rfl⟩, halike1.stream, fun _ _ => halike1⟩
    · cases hs
  | _ => simp only [hp] at hs; cases hs

/-- Nothing is lost by the drop of the server's read that the event may hold. -/
def DropsNothing : Event → Duplex → Prop
  | .upWrite (some k), x => Droppable k x.up.session
  | .upClosed (some k), x => Droppable k x.up.session
  | _, _ => True

theorem Follows.step (h : Follows crates x y) (hd : DropsNothing e x) (hs : step crates e x = some x') :
    ∃ y', Duplex.step crates e.undropped y = some y' ∧ Follows crates x' y' := by
  by_cases he : Aside e
  · have hsame : e.undropped = e := by
      cases e with
      | upWrite => exact he.elim
      | upClosed => exact he.elim
      | _ => rfl
    rw [hsame]
    exact h.aside he hs
  · obtain ⟨hstop, -⟩ := step_moves hs
    have hstop' : y.stopped = none := by
      obtain ⟨u, rfl⟩ := h.rest
      exact hstop
    unfold Duplex.step at hs ⊢
    rw [if_neg (by rw [hstop]; decide)] at hs
    rw [if_neg (by rw [hstop']; decide)]
    cases e with
    | upRead => exact h.upRead hstop hs
    | upSend => exact h.upSend hstop hs
    | upWrite drop => exact h.upWrite hstop (by rintro k rfl; exact hd) hs
    | upClosed drop => exact h.upClosed hstop (by rintro k rfl; exact hd) hs
    | _ => exact (he trivial).elim

/-- A run whose drops of the server's read lose nothing goes as the run without them:
    the tasks are the same, and so are the bytes left on the server's socket. -/
theorem drops_lose_nothing (crates : Crates) (d : Downstream) (u : Upstream) (hu : u.responseHeader = none)
    (evs : List Event) (x : Duplex) (h : Run (Duplex.step crates) DropsNothing (.new d u) evs x) :
    ∃ y, Run (Duplex.step crates) (fun _ _ => True) (.new d u) (evs.map Event.undropped) y ∧
      y.sent = x.sent ∧ y.handed = x.handed ∧ y.responses = x.responses ∧ y.requests = x.requests ∧
      y.stopped = x.stopped ∧ y.up.session.stream = x.up.session.stream := by
  have hmoded : u.Moded := by
    intro hs
    simp only [Upstream.shouldReadResponseHeader, hu] at hs
    cases hs
  have hstart : Follows crates (.new d u) (.new d u) := ⟨⟨u, rfl⟩, rfl, fun _ _ => .refl hmoded⟩
  obtain ⟨y, hrun, ⟨v, rfl⟩, hstream, -⟩ := h.simulate Event.undropped
    (fun e s s' t hr hp hs => hr.step hp hs) hstart
  exact ⟨y, hrun, rfl, rfl, rfl, rfl, rfl, hstream.symm⟩

end Duplex

/-! ## A head in two reads -/

def splitCrates : Crates := .ofTables [postHead longField] [Upstream.okHead]

/-- A client that sends a head and then a byte of its body; a server whose head comes
    in two pieces. -/
def splitExchange : Out Unit × Sessions :=
  openExchange splitCrates
    (.new ⟨[.data (postHead longField).1, .data [120]], [], []⟩ (fun _ => 0),
      .new ⟨[.data (Upstream.okHead.1.take 20), .data (Upstream.okHead.1.drop 20)], [], []⟩ (fun _ => 0))

def splitDuplex : Duplex := .new splitExchange.2.1 splitExchange.2.2

theorem split_uploading : Duplex.Uploading (splitExchange.2.1.selected uploadHead []) [.data [120]] := by
  have hreader : (splitExchange.2.1.selected uploadHead []).bodyReader =
      splitExchange.2.1.bodyReader.withContentLengthRead 100 [] := upload_selectReader _
  refine ⟨rfl, ?_, ?_⟩
  · rw [hreader]
    refine ⟨0, 100, _, rfl, rfl, ?_, by decide, by decide⟩
    rw [List.nil_append, BodyReader.memory_length]
    decide
  · rw [hreader]; rfl

/-- The byte is in the channel, and both loops are at their turns. -/
theorem split_received :
    ∃ d', Run (Duplex.step splitCrates) (fun _ _ => True) splitDuplex [.downStart, .downTurn, .downRead]
      { splitDuplex with requests := [.body (some [120]) false], down := ⟨d', false, false, .turn⟩ } := by
  have hstart : Duplex.step splitCrates .downStart splitDuplex = some { splitDuplex with down.place := .turn } := rfl
  have hready : splitExchange.2.1.Ready uploadHead [] := ⟨rfl, ⟨_, rfl, rfl⟩, rfl⟩
  have hat : ({ splitDuplex with down.place := .turn } : Duplex).AtUpload splitCrates [.data [120]] :=
    ⟨rfl, rfl, rfl, _, Downstream.readDownstreamRequest_ready hready, split_uploading⟩
  obtain ⟨d', x', rfl, hrun, -⟩ := hat.byte rfl (by decide)
  exact ⟨d', .cons trivial hstart hrun⟩

/-- The byte is received and sent on, a read of the server dropped for it or not; then
    the server is read. -/
def splitEvents (drop : Option Nat) (last : Event) : List Event :=
  [.downStart, .downTurn, .downRead] ++ [.upTurn, .upWrite drop, .upTurn, .upRead, last]

theorem drops_lose_nothing_split :
    ∃ x, Run (Duplex.step splitCrates) Duplex.DropsNothing splitDuplex (splitEvents (some 0) .upSend) x ∧
      ∃ y, Run (Duplex.step splitCrates) (fun _ _ => True) splitDuplex ((splitEvents (some 0) .upSend).map Event.undropped) y ∧
        y.sent = x.sent ∧ y.handed = x.handed ∧ y.responses = x.responses ∧ y.requests = x.requests ∧
        y.stopped = x.stopped ∧ y.up.session.stream = x.up.session.stream := by
  obtain ⟨d', hrun⟩ := split_received
  have h1 := hrun.of_events (Q := Duplex.DropsNothing) fun e he s => by
    simp only [List.mem_cons, List.not_mem_nil, or_false] at he
    rcases he with rfl | rfl | rfl <;> trivial
  have hdrop : Droppable 0 splitDuplex.up.session := by
    rw [Droppable, if_pos (show splitDuplex.up.session.shouldReadResponseHeader = true from rfl)]
    rfl
  have h2 : ∃ x, Run (Duplex.step splitCrates) Duplex.DropsNothing splitDuplex (splitEvents (some 0) .upSend) x :=
    ⟨_, h1.append (.cons trivial rfl (.cons hdrop rfl (.cons trivial rfl (.cons trivial rfl (.cons trivial rfl (.nil _))))))⟩
  obtain ⟨x, hx⟩ := h2
  exact ⟨x, hx, Duplex.drops_lose_nothing splitCrates splitExchange.2.1 splitExchange.2.2 rfl _ x hx⟩

/-- The request's byte comes while the head is half read: the half is gone, and the
    rest is no head. Without the drop the response is read. -/
theorem head_lost :
    splitExchange.1 = .ok () ∧ ∃ x y,
      Run (Duplex.step splitCrates) (fun _ _ => True) splitDuplex (splitEvents (some 1) .upFail) x ∧
      Run (Duplex.step splitCrates) (fun _ _ => True) splitDuplex (splitEvents none .upSend) y ∧
      x.sent = [.failed (.other "invalid header name")] ∧ Upstream.statuses y.sent = [200] := by
  obtain ⟨d', hrun⟩ := split_received
  have hx : ∃ x, Run (Duplex.step splitCrates) (fun _ _ => True) splitDuplex (splitEvents (some 1) .upFail) x ∧
      x.sent = [.failed (.other "invalid header name")] :=
    ⟨_, hrun.append (.cons trivial rfl (.cons trivial rfl (.cons trivial rfl (.cons trivial rfl
      (.cons trivial rfl (.nil _)))))), rfl⟩
  have hy : ∃ y, Run (Duplex.step splitCrates) (fun _ _ => True) splitDuplex (splitEvents none .upSend) y ∧
      Upstream.statuses y.sent = [200] :=
    ⟨_, hrun.append (.cons trivial rfl (.cons trivial rfl (.cons trivial rfl (.cons trivial rfl
      (.cons trivial rfl (.nil _)))))), rfl⟩
  obtain ⟨x, hx, hxs⟩ := hx
  obtain ⟨y, hy, hys⟩ := hy
  exact ⟨by decide, x, y, hx, hy, hxs, hys⟩

end Glaive.Service
