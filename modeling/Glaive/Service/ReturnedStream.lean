/-
  Glaive.Service.ReturnedStream — the server's connection after an exchange
  (`core/src/service/proxy/duplex.rs`: `handle_process`, `handle_upstream`;
  `core/src/service/service.rs`: `handle_connection`, which returns it to the pool).

  - `returned_clean`: a run whose steps keep to the ends of the messages
    (`KeepsBoundary`) returns a connection that has the whole request on it, and of
    which a whole response and no more has been read (`Clean`).
  - `returned_dirty`: `handle_upstream` ends with the response, whatever is left of the
    request, and a connection that the server is about to close is returned as well.
-/

import Glaive.Service.DroppedReads
import Glaive.Service.RequestChannel
import Glaive.Service.RequestSent
import Glaive.Session.ResponseTaken

namespace Glaive.Service

open Glaive.Lib
open Glaive.Lib.Message (Framing)
open Glaive.Session

variable {crates : Crates} {req : RequestHeader} {out script : Bytes} {u u' : Upstream}

/-- The connection `s` stands between two exchanges: past `out` the whole body of `req`
    has been written, and of what the server sends, `script`, a whole response has been
    read that leaves the connection open. -/
structure Clean (crates : Crates) (req : RequestHeader) (out script : Bytes) (s : Stream) : Prop where
  request : ∃ body f, s.output = out ++ body ∧ Message.framing req.fields.forwarded = some f ∧ WholeRequestBody f body
  response : ∃ taken, script = taken ++ s.bytes ∧ Upstream.WholeResponse crates req taken

/-! ## While the response is read -/

/-- The server's session while its response is read. -/
structure Reading (crates : Crates) (req : RequestHeader) (out script : Bytes) (u : Upstream) : Prop where
  request : u.requestHeader = some req
  upgrade : u.upgrade = false
  sent : ∃ body, u.stream.output = out ++ body ∧ Sent req u.bodyWriter body
  taken : ∃ bs, script = bs ++ u.stream.bytes ∧ Upstream.Taking crates req u bs

/-- And once it is over. -/
structure Answered (crates : Crates) (req : RequestHeader) (out script : Bytes) (u : Upstream) : Prop where
  sent : ∃ body, u.stream.output = out ++ body ∧ Sent req u.bodyWriter body
  taken : ∃ bs, script = bs ++ u.stream.bytes ∧ Upstream.WholeResponse crates req bs

theorem Answered.clean (h : Answered crates req out script u) (hw : RequestWritten req u.bodyWriter) :
    Clean crates req out script u.stream := by
  obtain ⟨body, hout, hsent⟩ := h.sent
  obtain ⟨f, hf, hwhole⟩ := hsent.whole hw
  exact ⟨⟨body, f, hout, hf, hwhole⟩, h.taken⟩

theorem Reading.read (hl : Chunked.Local crates.parseChunkSize) (h : Reading crates req out script u)
    (hon : Upstream.ReadsOn crates req u) {t : Task}
    (hok : Upstream.readUpstreamResponse crates u = (.ok t, u')) :
    (t.isEnd = false → Reading crates req out script u') ∧ (t.isEnd = true → Answered crates req out script u') := by
  obtain ⟨body, hout, hsent⟩ := h.sent
  obtain ⟨bs, hscript, htaking⟩ := h.taken
  obtain ⟨bs', ht⟩ := htaking.read hl h.request h.upgrade hon hok
  have hsent' : ∃ body, u'.stream.output = out ++ body ∧ Sent req u'.bodyWriter body :=
    ⟨body, ht.output.trans hout, ht.writer ▸ hsent⟩
  have hscript' : script = bs ++ bs' ++ u'.stream.bytes := by
    rw [hscript, ht.bytes, List.append_assoc]
  exact ⟨fun he => ⟨ht.request.trans h.request, ht.upgrade, hsent', _, hscript', ht.more he⟩,
    fun he => ⟨hsent', _, hscript', ht.last he⟩⟩

theorem Reading.write (h : Reading crates req out script u) {t : Task} {e : Bool}
    (hx : ∀ n e, u.bodyWriter.writeState = .chunkedEncoding n → t ≠ .body (some []) e)
    (hok : Upstream.writeUpstreamRequest t u = (.ok e, u')) : Reading crates req out script u' := by
  obtain ⟨body, hout, hsent⟩ := h.sent
  obtain ⟨bs, hscript, htaking⟩ := h.taken
  obtain ⟨more, w, s, rfl, hin, hout', hsent'⟩ := hsent.write h.upgrade hx hok
  refine ⟨h.request, h.upgrade, ⟨_, by rw [hout', hout, List.append_assoc], hsent'⟩, bs, ?_, htaking.congr rfl rfl hin⟩
  rw [hscript]
  exact congrArg (bs ++ ·) (congrArg Stream.bytesOf hin).symm

/-- A dropped read that loses nothing. -/
theorem Reading.dropped (h : Reading crates req out script u) {k : Nat} (hk : Droppable k u)
    (hd : dropUpstream crates k u = some u') :
    Reading crates req out script u' ∧ u'.bodyWriter = u.bodyWriter := by
  obtain ⟨bs, hscript, htaking⟩ := h.taken
  cases htaking with
  | heads hs h0 hi hhead hfront =>
    have hin : u.stream.input.drop k = u.stream.input := by
      have := List.take_append_drop k u.stream.input
      rwa [hk.head hs, List.nil_append] at this
    rw [dropUpstream_head hs hd, hin]
    exact ⟨⟨h.request, h.upgrade, h.sent, bs, hscript, .heads hs h0 hi hhead hfront⟩, rfl⟩
  | length hs hheads hst hlen hn =>
    obtain ⟨rfl, -⟩ := dropUpstream_body hs (by simp [BodyReader.isStart, hst]) hd
    have hmoved : u.bodyReader.moved = u.bodyReader := by simp only [BodyReader.moved, hst]
    rw [hmoved]
    exact ⟨⟨h.request, h.upgrade, h.sent, _, hscript, .length hs hheads hst hlen hn⟩, rfl⟩
  | chunked hs hheads hbtw hskim hcrlf =>
    obtain ⟨⟨_, _, _, hst⟩, -⟩ := hbtw.holds.state
    obtain ⟨rfl, -⟩ := dropUpstream_body hs (by simp [BodyReader.isStart, hst]) hd
    obtain ⟨buf', hbtw'⟩ := (hk.body hs).between_moved hbtw
    exact ⟨⟨h.request, h.upgrade, h.sent, _, hscript, .chunked hs hheads hbtw' hskim hcrlf⟩, rfl⟩

/-! ## Runs -/

namespace Duplex

/-- The event keeps to the ends of the messages: a read of the server succeeds and takes
    no byte past the response, one that is dropped loses nothing, no empty chunk is
    written, and the loop does not end before the request is written. -/
def KeepsBoundary (crates : Crates) (req : RequestHeader) : Event → Duplex → Prop
  | .upRead, x => Upstream.ReadsOn crates req x.up.session
  | .upFail, _ => False
  | .upTurn, x => x.up.responseDone = true → RequestWritten req x.up.session.bodyWriter
  | .upWrite drop, x => (∀ k, drop = some k → Droppable k x.up.session) ∧
      ∀ n e, x.up.session.bodyWriter.writeState = .chunkedEncoding n → x.requests.head? ≠ some (.body (some []) e)
  | .upClosed drop, x => ∀ k, drop = some k → Droppable k x.up.session
  | _, _ => True

/-- What holds of the server's session, by where `handle_upstream` is. -/
structure Tidy (crates : Crates) (req : RequestHeader) (out script : Bytes) (x : Duplex) : Prop where
  reading : x.up.place.Live → x.up.responseDone = false → Reading crates req out script x.up.session
  answered : x.up.place.Live → x.up.responseDone = true →
    x.up.requestDone = true ∧ Answered crates req out script x.up.session
  returned : x.up.place = .returned → Clean crates req out script x.up.session.stream

variable {x x' : Duplex} {e : Event}

/-- With the place alone changed. -/
theorem Tidy.at_place (h : Tidy crates req out script x) (hlive : x.up.place.Live) (hsession : x'.up.session = x.up.session)
    (hreq : x'.up.requestDone = x.up.requestDone) (hresp : x'.up.responseDone = x.up.responseDone)
    (hplace : x'.up.place.Live) : Tidy crates req out script x' := by
  refine ⟨fun _ hd => ?_, fun _ hd => ?_, fun hp => ?_⟩
  · rw [hsession]
    exact h.reading hlive (hresp ▸ hd)
  · rw [hsession, hreq]
    exact h.answered hlive (hresp ▸ hd)
  · rw [hp] at hplace
    exact hplace.elim

theorem Tidy.dropped (h : Tidy crates req out script x) (hp : x.up.place = .select) {drop : Option Nat} {u1 : Upstream}
    (hk : ∀ k, drop = some k → Droppable k x.up.session) (hd : x.up.dropped crates drop = some u1) :
    (x.up.responseDone = false → Reading crates req out script u1 ∧ u1.bodyWriter = x.up.session.bodyWriter) ∧
      (x.up.responseDone = true → Answered crates req out script u1) := by
  have hlive : x.up.place.Live := by rw [hp]; trivial
  unfold UpLoop.dropped at hd
  cases drop with
  | none =>
    cases hd
    exact ⟨fun hr => ⟨h.reading hlive hr, rfl⟩, fun hr => (h.answered hlive hr).2⟩
  | some k =>
    simp only at hd
    split at hd
    · rename_i hr
      rw [Bool.not_eq_true'] at hr
      exact ⟨fun _ => (h.reading hlive hr).dropped (hk k rfl) hd, fun hr' => by rw [hr] at hr'; cases hr'⟩
    · cases hd

theorem Tidy.step (hl : Chunked.Local crates.parseChunkSize) (h : Tidy crates req out script x)
    (hb : KeepsBoundary crates req e x) (hs : step crates e x = some x') (hstop : x'.stopped = none) :
    Tidy crates req out script x' := by
  obtain ⟨-, hm | hm⟩ := step_moves hs
  · cases hm <;> exact ⟨h.reading, h.answered, h.returned⟩
  · cases hm with
    | finish hp hreq hresp =>
      have hlive : x.up.place.Live := by rw [hp]; trivial
      exact ⟨fun hl => hl.elim, fun hl => hl.elim, fun _ => (h.answered hlive hresp).2.clean (hb hresp)⟩
    | select hp => exact h.at_place (by rw [hp]; trivial) rfl rfl rfl trivial
    | read t u hp hresp hread =>
      obtain ⟨h1, h2⟩ := (h.reading (by rw [hp]; trivial) hresp).read hl hb hread
      exact ⟨fun _ he => h1 he, fun _ he => ⟨he, h2 he⟩, nofun⟩
    | readFails e u => exact ⟨fun hl => hl.elim, fun hl => hl.elim, nofun⟩
    | readPanics => cases hstop
    | sendClosed t hp => exact h.at_place (by rw [hp]; trivial) rfl rfl rfl trivial
    | sendStops => cases hstop
    | send t hp => exact h.at_place (by rw [hp]; trivial) rfl rfl rfl trivial
    | failClosed => exact hb.elim
    | fail => exact hb.elim
    | write drop t rest u u' e hp hr hreq hdrop hwrite =>
      have hresp : x.up.responseDone = false := by
        rw [Bool.eq_false_iff]
        intro hresp
        have := (h.answered (by rw [hp]; trivial) hresp).1
        rw [hreq] at this
        cases this
      obtain ⟨hu, hsame⟩ := (h.dropped hp hb.1 hdrop).1 hresp
      refine ⟨fun _ _ => hu.write (fun n e hn => ?_) hwrite, fun _ hd => ?_, nofun⟩
      · have := hb.2 n e (hsame ▸ hn)
        rw [hr] at this
        intro ht
        exact this (by rw [ht]; rfl)
      · rw [hresp] at hd
        cases hd
    | writeStops => cases hstop
    | closed drop u hp hr hdown hdrop =>
      obtain ⟨h1, h2⟩ := h.dropped hp hb hdrop
      exact ⟨fun _ hd => (h1 hd).1, fun _ hd => ⟨rfl, h2 hd⟩, nofun⟩

/-- A session the head has been written on. -/
theorem tidy_new (d : Downstream) {server s : Stream} {ms : Nat → Byte} (hout : s.output = out)
    (hin : s.input = server.input) :
    Tidy crates req out server.bytes (.new d { Upstream.new server ms with
      bodyWriter := Upstream.selectWriter req .new, requestHeader := some req, stream := s }) := by
  refine ⟨fun _ _ => ⟨rfl, rfl, ?_, ?_⟩, fun _ hd => (by cases hd), nofun⟩
  · exact ⟨[], by rw [List.append_nil]; exact hout, sent_start req _⟩
  · refine ⟨[], ?_, .heads rfl rfl (BodyReader.idle_new ms) (fun _ => rfl) .nil⟩
    rw [List.nil_append]
    exact (congrArg Stream.bytesOf hin).symm

/-- An exchange whose steps keep to the ends of the messages, and that ends with
    `Ok(stream)`, returns a clean connection. -/
theorem returned_clean (crates : Crates) (hl : Chunked.Local crates.parseChunkSize) (client server : Stream)
    (mc ms : Nat → Byte) (d : Downstream) (u : Upstream)
    (hopen : openExchange crates (.new client mc, .new server ms) = (.ok (), d, u)) (req : RequestHeader) (head : Bytes)
    (hreq : u.requestHeader = some req) (hhead : req.buildToBuffer = some head) (evs : List Event) (x : Duplex)
    (h : Run (Duplex.step crates) (KeepsBoundary crates req) (.new d u) evs x) (hok : x.isOk = true) :
    Clean crates req (server.output ++ head) server.bytes x.up.session.stream := by
  obtain ⟨req', s, buf, hb, hout, hin, rfl⟩ := openExchange_server hopen
  obtain rfl : req' = req := Option.some.inj hreq
  obtain rfl : buf = head := Option.some.inj (hb.symm.trans hhead)
  have htidy := h.invariant (I := fun x => x.stopped = none → Tidy crates req' (server.output ++ buf) server.bytes x)
    (fun e s t hs hb hst hstop => (hs (step_moves hst).1).step hl hb hst hstop) fun _ => tidy_new d hout hin
  unfold Duplex.isOk at hok
  simp only [Bool.and_eq_true, Option.isNone_iff_eq_none] at hok
  refine (htidy hok.1.1).returned ?_
  cases hp : x.up.place with
  | returned => rfl
  | _ => rw [hp] at hok; cases hok.2

end Duplex

/-! ## Exchanges that are read plainly -/

/-- The head comes alone, leaves the connection open and announces a length. -/
def headPlainly (crates : Crates) (req : RequestHeader) (input : List ReadEv) : Bool :=
  match readHead crates.parseResponse [] input with
  | (.ok (some (buf, size, parts)), _) => (Upstream.responseHeaderOf crates parts).all fun h =>
    decide (buf.drop size = []) && decide (200 ≤ h.status) &&
      !((Message.elements (h.fields.getHeaders connection)).any fun x => eqIgnoreCase x (ascii "close")) &&
      !Utils.isHeaderValueChunkEncoding (h.getHeader transferEncoding) &&
      match Upstream.framingOf req h with
      | some (.length n) => decide (Utils.getContentLengthValue (h.getHeader contentLength) = some n)
      | _ => false
  | _ => true

theorem readsOn_plainly (hs : u.shouldReadResponseHeader = true) (h : headPlainly crates req u.stream.input = true) :
    Upstream.ReadsOn crates req u := by
  rw [Upstream.ReadsOn, if_pos hs]
  intro buf size parts rest hd hread hb
  unfold headPlainly at h
  rw [hread] at h
  simp only [hb, Option.all_some, Bool.and_eq_true, decide_eq_true_eq, Bool.not_eq_true'] at h
  obtain ⟨⟨⟨⟨hnil, hst⟩, hclose⟩, hchunk⟩, hframed⟩ := h
  cases hf : Upstream.framingOf req hd with
  | none =>
    rw [hf] at hframed
    cases hframed
  | some f =>
    rw [hf] at hframed
    cases f with
    | chunked => cases hframed
    | length n =>
      refine .final (.length n) hst (fun hcarries => ?_) hf (fun _ => ⟨hchunk, of_decide_eq_true hframed⟩)
        (fun _ => hnil) (fun hc => by cases hc)
      obtain ⟨x, hx, hxc⟩ := hcarries
      exact List.any_eq_false.mp hclose x hx hxc

/-- A read of the socket takes what comes in one piece, at most. -/
theorem fill_le {r r' : BodyReader} {s s' : Stream} {bs : Bytes} {rest : List ReadEv} {n : Nat}
    (hrw : r.rewindBufSize = 0) (hin : s.input = .data bs :: rest) (h : r.fill s = (.ok n, r', s')) : n ≤ bs.length := by
  unfold BodyReader.fill at h
  split at h
  · cases h
  · simp only [hrw, if_true, Stream.read, hin] at h
    split at h
    · rename_i hread
      split at hread
      · cases hread
        cases h
        exact Nat.le_refl _
      · cases hread
        cases h
        exact List.length_take_le' ..
    all_goals cases h

/-- Each read takes one piece off the wire, of the head or of what is left of the body,
    and the loop ends when the request is written. -/
def keepsPlainly (crates : Crates) (req : RequestHeader) : Event → Duplex → Bool
  | .upRead, x =>
    if x.up.session.shouldReadResponseHeader then headPlainly crates req x.up.session.stream.input
    else
      match x.up.session.bodyReader.readState with
      | .partially _ toRead => decide (x.up.session.bodyReader.rewindBufSize = 0) &&
        match x.up.session.stream.input with
        | .data bs :: _ => decide (bs.length ≤ toRead)
        | _ => false
      | .chunked _ _ _ _ => false
      | _ => true
  | .upTurn, x => !x.up.responseDone ||
    match Message.framing req.fields.forwarded with
    | some (.length n) => decide (counted x.up.session.bodyWriter = some n)
    | _ => false
  | .upFail, _ => false
  | .upWrite drop, x => drop.isNone &&
    match x.up.session.bodyWriter.writeState with
    | .chunkedEncoding _ => false
    | _ => true
  | .upClosed drop, _ => drop.isNone
  | _, _ => true

theorem bodyReadsOn_plainly {read toRead : Nat} {bs : Bytes} {rest : List ReadEv}
    (hst : u.bodyReader.readState = .partially read toRead) (hrw : u.bodyReader.rewindBufSize = 0)
    (hin : u.stream.input = .data bs :: rest) (hle : bs.length ≤ toRead) : Upstream.BodyReadsOn crates u := by
  unfold Upstream.BodyReadsOn
  rw [hst]
  exact fun n r s hfill => (fill_le hrw hin hfill).trans hle

theorem keepsBoundary_plainly {e : Event} {x : Duplex} (h : keepsPlainly crates req e x = true) :
    Duplex.KeepsBoundary crates req e x := by
  cases e with
  | upRead =>
    simp only [keepsPlainly] at h
    by_cases hs : x.up.session.shouldReadResponseHeader = true
    · rw [if_pos hs] at h
      exact readsOn_plainly hs h
    · rw [if_neg hs] at h
      show Upstream.ReadsOn crates req x.up.session
      rw [Upstream.ReadsOn, if_neg hs]
      cases hst : x.up.session.bodyReader.readState with
      | partially read toRead =>
        simp only [hst, Bool.and_eq_true, decide_eq_true_eq] at h
        obtain ⟨hrw, h⟩ := h
        split at h
        · rename_i bs rest hin
          exact bodyReadsOn_plainly hst hrw hin (of_decide_eq_true h)
        · cases h
      | chunked =>
        rw [hst] at h
        cases h
      | _ =>
        unfold Upstream.BodyReadsOn
        rw [hst]
        trivial
  | upTurn =>
    intro hdone
    simp only [keepsPlainly, hdone, Bool.not_true, Bool.false_or] at h
    unfold RequestWritten
    split at h
    · rename_i n hf
      rw [hf]
      exact of_decide_eq_true h
    · cases h
  | upFail => cases h
  | upWrite drop =>
    simp only [keepsPlainly, Bool.and_eq_true, Option.isNone_iff_eq_none] at h
    obtain ⟨rfl, h⟩ := h
    refine ⟨fun k hk => absurd hk.symm (Option.some_ne_none k), fun n e hst => ?_⟩
    rw [hst] at h
    cases h
  | upClosed drop =>
    simp only [keepsPlainly, Option.isNone_iff_eq_none] at h
    subst h
    exact fun k hk => absurd hk.symm (Option.some_ne_none k)
  | _ => trivial

/-- A body each way is relayed, and the connection is clean. -/
theorem returned_clean_bodied :
    ∃ x, Run (Duplex.step bodiedCrates)
        (Duplex.KeepsBoundary bodiedCrates (Downstream.requestHeaderOf (postHead lengthFive).2))
        (.new bodiedExchange.2.1 bodiedExchange.2.2) bodiedEvents x ∧ x.isOk = true ∧
      x.up.session.stream = ⟨[], (postHead lengthFive).1 ++ ascii "abcde", []⟩ ∧
      Clean bodiedCrates (Downstream.requestHeaderOf (postHead lengthFive).2) ([] ++ (postHead lengthFive).1)
        (Stream.bytes ⟨[.data (answerHead lengthThree).1, .data (ascii "xyz")], [], []⟩) x.up.session.stream := by
  -- the memory the readers take is large: the run is evaluated once
  have hall : (stepAll (Duplex.step bodiedCrates)
      (fun e x => keepsPlainly bodiedCrates (Downstream.requestHeaderOf (postHead lengthFive).2) e x = true) bodiedEvents
      (.new bodiedExchange.2.1 bodiedExchange.2.2)).map (fun x => (x.isOk, x.up.session.stream)) =
      some (true, ⟨[], (postHead lengthFive).1 ++ ascii "abcde", []⟩) := by decide +kernel
  obtain ⟨x, hx, hend⟩ := Option.map_eq_some_iff.mp hall
  obtain ⟨hok, hstream⟩ := Prod.mk.inj hend
  have hkeep := (run_of_stepAll hx).imp (I := fun _ => True)
    (Q := Duplex.KeepsBoundary bodiedCrates (Downstream.requestHeaderOf (postHead lengthFive).2))
    (fun _ _ _ _ _ => trivial) (fun _ _ _ _ _ h => keepsBoundary_plainly h) trivial
  exact ⟨x, hkeep, hok, hstream, Duplex.returned_clean bodiedCrates Chunked.parseSizeLine_local _ _ _ _ _ _
    (Prod.ext (by decide) rfl) _ _ rfl (by decide) _ x hkeep hok⟩

/-! ## A response before the request is over, and a last response -/

/-- `POST / HTTP/1.1` with a content length, from a client that sends no body, to a
    server that answers at once. -/
def earlyExchange (length : Field) (answer : Bytes × ResponseParts) : Out Unit × Sessions :=
  openExchange (.ofTables [postHead length] [answer])
    (.new ⟨[.data (postHead length).1], [], []⟩ (fun _ => 0), .new ⟨[.data answer.1], [], []⟩ (fun _ => 0))

/-- The answer is read before anything of a body, and sent on. -/
def earlyEvents : List Event :=
  [.downStart, .downTurn, .upTurn, .upRead, .upSend, .upTurn, .downWrite none 0, .downTurn]

def lengthZero : Field := ⟨ascii "Content-Length", ascii "0", contentLength_token⟩

theorem connection_token : (ascii "Connection").all isTokenByte = true := by decide

def closingHead : Bytes × ResponseParts :=
  (ascii "HTTP/1.1 200 OK\r\nContent-Length: 0\r\nConnection: close\r\n\r\n",
    ⟨200, 1, some (ascii "OK"), [⟨ascii "Content-Length", ascii "0", contentLength_token⟩,
      ⟨ascii "Connection", ascii "close", connection_token⟩]⟩)

/-- The exchange ends with `Ok`, and its connection is not clean. -/
def ReturnsDirty (length : Field) (answer : Bytes × ResponseParts) : Prop :=
  (earlyExchange length answer).1 = .ok () ∧
  (Downstream.requestHeaderOf (postHead length).2).buildToBuffer = some (postHead length).1 ∧
  ∃ x, Run (Duplex.step (.ofTables [postHead length] [answer])) (fun _ _ => True)
      (.new (earlyExchange length answer).2.1 (earlyExchange length answer).2.2) earlyEvents x ∧ x.isOk = true ∧
    ¬ Clean (.ofTables [postHead length] [answer]) (Downstream.requestHeaderOf (postHead length).2)
      ([] ++ (postHead length).1) (Stream.bytes ⟨[.data answer.1], [], []⟩) x.up.session.stream

/-- The server still waits for the five bytes that are announced; the server is about to
    close. -/
theorem returned_dirty : ReturnsDirty lengthFive Upstream.okHead ∧ ReturnsDirty lengthZero closingHead := by
  constructor
  · refine ⟨by decide, by decide, ?_⟩
    have hrun : ∃ x, Run (Duplex.step (.ofTables [postHead lengthFive] [Upstream.okHead])) (fun _ _ => True)
        (.new (earlyExchange lengthFive Upstream.okHead).2.1 (earlyExchange lengthFive Upstream.okHead).2.2)
        earlyEvents x ∧ x.isOk = true ∧ x.up.session.stream.output = (postHead lengthFive).1 :=
      ⟨_, .cons trivial rfl (.cons trivial rfl (.cons trivial rfl (.cons trivial rfl (.cons trivial rfl
        (.cons trivial rfl (.cons trivial rfl (.cons trivial rfl (.nil _)))))))), rfl, by decide⟩
    obtain ⟨x, hx, hok, hout⟩ := hrun
    refine ⟨x, hx, hok, fun hc => ?_⟩
    obtain ⟨body, f, hout', hf, hwhole⟩ := hc.request
    have hbody : body = [] := by
      rw [hout, List.nil_append] at hout'
      exact List.append_right_eq_self.mp hout'.symm
    have hframing : Message.framing (Downstream.requestHeaderOf (postHead lengthFive).2).fields.forwarded =
        some (.length 5) := by decide
    cases hframing.symm.trans hf
    rw [hbody] at hwhole
    cases hwhole
  · refine ⟨by decide, by decide, ?_⟩
    have hrun : ∃ x, Run (Duplex.step (.ofTables [postHead lengthZero] [closingHead])) (fun _ _ => True)
        (.new (earlyExchange lengthZero closingHead).2.1 (earlyExchange lengthZero closingHead).2.2)
        earlyEvents x ∧ x.isOk = true :=
      ⟨_, .cons trivial rfl (.cons trivial rfl (.cons trivial rfl (.cons trivial rfl (.cons trivial rfl
        (.cons trivial rfl (.cons trivial rfl (.cons trivial rfl (.nil _)))))))), rfl⟩
    obtain ⟨x, hx, hok⟩ := hrun
    refine ⟨x, hx, hok, fun hc => ?_⟩
    obtain ⟨taken, -, heads, body, f, hheads, -, -⟩ := hc.response
    cases hheads with
    | mk _ hanswer _ hclose _ =>
      obtain ⟨more, parts, hp, hb⟩ := hanswer
      obtain ⟨e, he, rfl⟩ := parseTable_mem hp
      rw [List.mem_singleton.mp he] at hb
      cases hb
      exact hclose ⟨ascii "close", by decide, by decide⟩

end Glaive.Service
