/-
  Glaive.Service.Upload — a request body that is neither chunked nor an upgrade's, on its
  way through the two loops (`core/src/service/proxy/duplex.rs`: `copy_bidirectional`;
  `core/src/session/upstream.rs`: `write_upstream_request`).

  What is on the wire to the server, what waits in the channel and what the client's
  session may still read make, in this order, a front of the announced body
  (`Conveying`): no byte of it is lost, doubled, swapped or made up, whichever branch
  fires, wherever a read is dropped and whatever is answered meanwhile.

    · `upload_exact`: in any run, the server has the head and a front of the body, and
      all of it once the writer has counted it out.
    · `upload_whole`: left to itself, the relay brings over all of it.
-/

import Glaive.Service.ChannelDeadlock
import Glaive.Service.Framing
import Glaive.Service.Relay
import Glaive.Service.ResponseChannel
import Glaive.Service.ResponseLeft
import Glaive.Session.PlainLeft
import Glaive.Session.PlainReading
import Glaive.Session.BodyWriting

namespace Glaive.Session

open Glaive.Lib
open Glaive.Lib.Async

/-! ## Reading the server writes nothing to it -/

namespace Upstream

variable {crates : Crates}

/-- What a request is written with, and what is written. -/
def written (u : Upstream) : BodyWriter × Bytes := (u.bodyWriter, u.stream.output)

theorem readUpstreamResponse_written (crates : Crates) : Keeps written (readUpstreamResponse crates) := by
  have hreader : ∀ (u : Upstream) (r : BodyReader), written { u with bodyReader := r } = u.written := fun _ _ => rfl
  have hfinished := isReadingResponseBodyFinished_keeps hreader
  have hupgrade : Keeps written isRequestUpgrade := by
    intro u
    unfold isRequestUpgrade
    split <;> rfl
  have hread : Keeps written (readResponse crates) := by
    have hloop : Keeps written (onStream (headLoop crates.parseResponse)) := fun _ => rfl
    have hsession : ∀ h, Keeps written (isSessionUpgrade h) := fun h => .bind hupgrade fun _ => .ite (.pure _) (.pure _)
    refine .bind (.modify fun _ => rfl) fun _ => .bind hloop fun x => ?_
    cases x with
    | none => exact .pure _
    | some x =>
      refine .bind (.modify fun _ => rfl) fun _ => ?_
      cases responseHeaderOf crates x.2.2 with
      | none => exact .stop _
      | some h => exact .bind (.modify fun _ => rfl) fun _ => .bind (hsession h) fun _ => .modify fun _ => rfl
  have honReader : Keeps written (onReader (BodyReader.readBody crates.parseChunkSize)) := fun u =>
    congrArg (Prod.mk u.bodyWriter) (BodyReader.readBody_output crates.parseChunkSize (u.bodyReader, u.stream))
  unfold readUpstreamResponse
  refine .bind .get fun u => .ite (.bind hread fun _ => .bind .get fun u => ?_)
    (.bind hfinished fun _ => .ite (.pure _)
      (.bind (readResponseBodyBytes_keeps hreader honReader) fun _ => .bind hfinished fun _ => .pure _))
  cases u.responseHeader with
  | none => exact .stop _
  | some h => exact .bind hfinished fun _ => .pure _

end Upstream

end Glaive.Session

namespace Glaive.Service

open Glaive.Lib
open Glaive.Lib.Async
open Glaive.Session
open Glaive.Session.Downstream (ToRead)

variable {crates : Crates} {h : RequestHeader} {d d' : Downstream} {u u' : Upstream} {rest written : Bytes}

/-! ## Dropped reads -/

theorem dropUpstream_written {k : Nat} (hd : dropUpstream crates k u = some u') : u'.written = u.written := by
  unfold dropUpstream at hd
  have hkeeps := Upstream.readUpstreamResponse_written crates
    { u with stream := { u.stream with input := u.stream.input.take k } }
  simp only at hd
  split at hd
  · rename_i heq
    rw [heq] at hkeeps
    cases hd
    exact hkeeps
  · cases hd

theorem upDropped_written {l : UpLoop} {drop : Option Nat} (hd : l.dropped crates drop = some u) :
    u.written = l.session.written := by
  cases drop with
  | none =>
    cases hd
    rfl
  | some k =>
    simp only [UpLoop.dropped] at hd
    split at hd
    · exact dropUpstream_written hd
    · cases hd

/-- A read of the client that is dropped had handed out nothing. -/
theorem dropDownstream_toRead (hp : Plain h) {k : Nat} (ht : ToRead h d rest) (hd : dropDownstream crates k d = some d') :
    ToRead h d' rest := by
  have hwhole : ∀ d1 : Downstream, d1.stream = d.stream →
      { d1 with stream := { d1.stream with input := d1.stream.input.take k ++ d.stream.input.drop k } } = d1 := by
    intro d1 hs
    rw [← hs, List.take_append_drop]
  have hseen : ∃ rest', ToRead h { d with stream := { d.stream with input := d.stream.input.take k } } rest' := by
    cases ht with
    | start hr hi => exact ⟨_, .start ⟨hr.head, hr.preread, hr.start⟩ hi⟩
    | started hh hl =>
      cases hl with
      | length hst hb hrw hs => exact ⟨_, .started hh (.length hst hb hrw hs)⟩
      | untilClosed hst hb hrw hs => exact ⟨_, .started hh (.untilClosed hst hb hrw hs)⟩
      | finished hf => exact ⟨_, .started hh (.finished hf)⟩
  obtain ⟨rest', hseen⟩ := hseen
  have hreads : Downstream.Reads h _ _ (Downstream.readDownstreamRequest crates _) := hseen.reads hp
  unfold dropDownstream at hd
  simp only at hd
  generalize Downstream.readDownstreamRequest crates
    { d with stream := { d.stream with input := d.stream.input.take k } } = res at hd hreads
  cases hreads with
  | body => cases hd
  | fails => cases hd
  | panics => cases hd
  | waits hw =>
    cases hd
    rcases hw with rfl | ⟨preread, hready, rfl⟩
    · rw [hwhole d rfl]
      exact ht
    · have hready' : d.Ready h preread := ⟨hready.head, hready.preread, hready.start⟩
      have := hwhole (d.selected h preread) rfl
      exact this ▸ ht.selected hp hready'

theorem downDropped_toRead (hp : Plain h) {l : DownLoop} {permit : Bool} {drop : Option Nat}
    (ht : ToRead h l.session rest) (hd : l.dropped crates permit drop = some d) : ToRead h d rest := by
  cases drop with
  | none =>
    cases hd
    exact ht
  | some k =>
    simp only [DownLoop.dropped] at hd
    split at hd
    · exact dropDownstream_toRead hp ht hd
    · cases hd

/-! ## The server's writer -/

/-- The length the server's writer is set to. -/
def lengthOf (h : RequestHeader) : Option Nat := Utils.getContentLengthValue (h.getHeader contentLength)

theorem counted_start (hp : Plain h) (w : BodyWriter) :
    BodyWriter.Counted (lengthOf h) (Upstream.selectWriter h w) [] false := by
  unfold Upstream.selectWriter lengthOf
  rw [hp.upgrade, hp.chunked]
  simp only [Bool.false_eq_true, if_false]
  cases Utils.getContentLengthValue (h.getHeader contentLength) with
  | some total => exact BodyWriter.counted_length total
  | none => exact BodyWriter.counted_untilClosed

theorem announced_le {total : Nat} (hcl : lengthOf h = some total) (bs : Bytes) : (announced h bs).length ≤ total := by
  unfold lengthOf at hcl
  unfold announced
  rw [hcl]
  exact List.length_take_le ..

/-- A body task goes to the wire as it is. -/
theorem write_counted {ended : Bool} {bs : Bytes} {b : Option Bytes} {e e' : Bool}
    (hw : BodyWriter.Counted (lengthOf h) u.bodyWriter written ended) (hx : written ++ b.getD [] <+: announced h bs)
    (hend : ended = true → b.getD [] = []) (hok : Upstream.writeUpstreamRequest (.body b e) u = (.ok e', u')) :
    u'.stream.output = u.stream.output ++ b.getD [] ∧
      BodyWriter.Counted (lengthOf h) u'.bodyWriter (written ++ b.getD []) (ended || e) := by
  unfold Upstream.writeUpstreamRequest at hok
  obtain ⟨_, u1, h1, hok⟩ := of_bind_ok hok
  obtain ⟨_, u2, h2, hok⟩ := of_bind_ok hok
  cases hok
  have hbytes : u1.stream.output = u.stream.output ++ b.getD [] ∧
      BodyWriter.Counted (lengthOf h) u1.bodyWriter (written ++ b.getD []) ended := by
    cases b with
    | none =>
      cases h1
      rw [Option.getD_none, List.append_nil, List.append_nil]
      exact ⟨rfl, hw⟩
    | some x =>
      obtain ⟨n, u3, h3, h4⟩ := of_bind_ok h1
      cases h4
      obtain ⟨s, rfl, hout, -⟩ := Upstream.writeRequestBody_ok h3
      have hfits : ∀ total, lengthOf h = some total → (written ++ x).length ≤ total :=
        fun total hcl => hx.length_le.trans (announced_le hcl bs)
      obtain ⟨hemit, hw'⟩ := hw.emit hfits hend
      rw [hemit] at hout
      exact ⟨hout, hw'⟩
  cases e with
  | false =>
    cases h2
    rw [Bool.or_false]
    exact hbytes
  | true =>
    obtain ⟨n, u3, h3, h4⟩ := of_bind_ok h2
    cases h4
    have hshort : u1.bodyWriter.short = false := by
      unfold Upstream.finishWritingRequestBody Upstream.onWriter at h3
      obtain ⟨_, u4, h5, -⟩ := of_bind_ok h3
      obtain ⟨⟨w, s⟩, h6, -⟩ := of_zoom_ok h5
      exact BodyWriter.finish_not_short h6
    obtain ⟨hnil, hw'⟩ := hbytes.2.closing hshort
    obtain ⟨s, rfl, hout, -⟩ := Upstream.finishWritingRequestBody_ok h3
    rw [hnil, List.append_nil] at hout
    have hsame : ∀ v : Upstream, (Upstream.forceClosed v).stream = v.stream ∧
        (Upstream.forceClosed v).bodyWriter = v.bodyWriter := by
      intro v
      unfold Upstream.forceClosed
      split <;> exact ⟨rfl, rfl⟩
    rw [Bool.or_true, (hsame _).1, (hsame _).2]
    exact ⟨hout.trans hbytes.1, hw'⟩

/-! ## The channel -/

/-- The bytes of the body that a task carries. -/
def carried : Task → Bytes
  | .body b _ => b.getD []
  | _ => []

def endsBody : Task → Bool
  | .body _ e => e
  | _ => false

def queued (ts : List Task) : Bytes := (ts.map carried).flatten

/-- The body has ended, or does with one of the tasks. -/
def endedBy (ended : Bool) (ts : List Task) : Bool := ended || ts.any endsBody

/-- Where the body has ended, no more of it follows. -/
def Shut : Bool → List Task → Prop
  | _, [] => True
  | ended, t :: ts => (ended = true → carried t = []) ∧ Shut (ended || endsBody t) ts

theorem queued_concat (ts : List Task) (t : Task) : queued (ts ++ [t]) = queued ts ++ carried t := by
  simp [queued]

theorem endedBy_concat (ended : Bool) (ts : List Task) (t : Task) :
    endedBy ended (ts ++ [t]) = (endedBy ended ts || endsBody t) := by
  simp [endedBy, Bool.or_assoc]

theorem endedBy_cons (ended : Bool) (t : Task) (ts : List Task) :
    endedBy ended (t :: ts) = endedBy (ended || endsBody t) ts := by
  simp [endedBy, Bool.or_assoc]

theorem shut_concat (t : Task) : ∀ (ts : List Task) (ended : Bool),
    Shut ended (ts ++ [t]) ↔ Shut ended ts ∧ (endedBy ended ts = true → carried t = []) := by
  intro ts
  induction ts with
  | nil =>
    intro ended
    simp [Shut, endedBy]
  | cons t' ts ih =>
    intro ended
    simp only [List.cons_append, Shut, ih, endedBy_cons, and_assoc]

/-- `handle_downstream` may still read the client. -/
def DownAt.Reads : DownAt → Prop
  | .start => True
  | .turn => True
  | .select _ => True
  | _ => False

theorem readRequest_retryBuffer (crates : Crates) : Keeps Downstream.retryBuffer (Downstream.readRequest crates) := by
  have hloop : Keeps Downstream.retryBuffer (Downstream.onStream (headLoop crates.parseRequest)) := fun _ => rfl
  unfold Downstream.readRequest
  refine .bind (.modify fun _ => rfl) fun _ => .bind hloop fun r => ?_
  cases r with
  | none => exact .pure _
  | some r =>
    exact .bind (.modify fun _ => rfl) fun _ => .ite (.stop _) (.ite (.stop _) (.modify fun _ => rfl))

/-- Nothing is there to retry yet. -/
theorem openExchange_retry {client server : Stream} {mc ms : Nat → Byte}
    (hopen : openExchange crates (.new client mc, .new server ms) = (.ok (), d, u)) : d.getRetryBuffer = none := by
  unfold openExchange at hopen
  obtain ⟨_, p1, h1, h2⟩ := of_bind_ok hopen
  obtain ⟨req, p2, h3, h4⟩ := of_bind_ok h2
  obtain ⟨_, p3, h5, h6⟩ := of_bind_ok h4
  obtain ⟨d1, k1, rfl⟩ := of_zoom_ok h1
  obtain ⟨d2, k3, rfl⟩ := of_zoom_ok h3
  obtain ⟨u1, -, rfl⟩ := of_zoom_ok h5
  cases h6
  have hnone : d1.retryBuffer = none := by
    have := readRequest_retryBuffer crates (Downstream.new client mc)
    rwa [k1] at this
  have hsame : d2 = d1 := by
    unfold Downstream.getRequestHeaders at k3
    split at k3 <;> cases k3
    rfl
  subst hsame
  unfold Downstream.enableRetryBuffer Downstream.getRetryBuffer
  rw [hnone]
  rfl

namespace Duplex

/-- Past `base` the wire to the server has `written`, and the client's session may still
    read `rest`; `bs` is all that follows the head `h` on the client's wire. -/
structure Conveyed (h : RequestHeader) (base bs : Bytes) (x : Duplex) (written : Bytes) (ended : Bool)
    (rest : Bytes) : Prop where
  output : x.up.session.stream.output = base ++ written
  writer : BodyWriter.Counted (lengthOf h) x.up.session.bodyWriter written ended
  front : written ++ queued x.requests ++ rest <+: announced h bs
  shut : Shut ended x.requests
  spent : endedBy ended x.requests = true → rest = []
  left : x.down.place.Reads → ToRead h x.down.session rest
  retry : x.down.place = .start → x.down.session.getRetryBuffer = none

def Conveying (h : RequestHeader) (base bs : Bytes) (x : Duplex) : Prop :=
  ∃ written ended rest, x.Conveyed h base bs written ended rest

variable {base bs : Bytes} {x x' : Duplex} {ended : Bool}

/-! ## Steps -/

/-- The client's loop moves on and sends nothing. -/
theorem Conveyed.down (hx : x.Conveyed h base bs written ended rest) {rest' : Bytes} (hrest : rest' <+: rest)
    (hup : x'.up = x.up) (hreq : x'.requests = x.requests) (hplace : x'.down.place ≠ .start)
    (hleft : x'.down.place.Reads → ToRead h x'.down.session rest') : x'.Conveying h base bs := by
  refine ⟨written, ended, rest', ?_, ?_, ?_, ?_, ?_, hleft, fun hp => absurd hp hplace⟩
  · rw [hup]
    exact hx.output
  · rw [hup]
    exact hx.writer
  · rw [hreq]
    exact (List.prefix_append_right_inj _).mpr hrest |>.trans hx.front
  · rw [hreq]
    exact hx.shut
  · intro he
    rw [hreq] at he
    rw [hx.spent he] at hrest
    exact List.prefix_nil.mp hrest

/-- The client's loop sends a task. -/
theorem Conveyed.push (hx : x.Conveyed h base bs written ended rest) {t : Task} {rest' : Bytes}
    (hrest : carried t ++ rest' <+: rest) (hend : endsBody t = true → rest' = []) (hup : x'.up = x.up)
    (hreq : x'.requests = x.requests ++ [t]) (hplace : x'.down.place ≠ .start)
    (hleft : x'.down.place.Reads → ToRead h x'.down.session rest') : x'.Conveying h base bs := by
  have hover : endedBy ended x.requests = true → carried t = [] ∧ rest' = [] := by
    intro he
    rw [hx.spent he] at hrest
    exact List.append_eq_nil_iff.mp (List.prefix_nil.mp hrest)
  refine ⟨written, ended, rest', ?_, ?_, ?_, ?_, ?_, hleft, fun hp => absurd hp hplace⟩
  · rw [hup]
    exact hx.output
  · rw [hup]
    exact hx.writer
  · rw [hreq, queued_concat]
    have : written ++ (queued x.requests ++ carried t) ++ rest' = written ++ queued x.requests ++ (carried t ++ rest') := by
      simp only [List.append_assoc]
    rw [this]
    exact (List.prefix_append_right_inj _).mpr hrest |>.trans hx.front
  · rw [hreq, shut_concat]
    exact ⟨hx.shut, fun he => (hover he).1⟩
  · intro he
    rw [hreq, endedBy_concat, Bool.or_eq_true] at he
    rcases he with he | he
    · exact (hover he).2
    · exact hend he

theorem Conveying.down_step (hp : Plain h) (hx : x.Conveying h base bs) {e : Event} (hm : DownMoves crates x e x')
    (hs : x'.stopped = none) : x'.Conveying h base bs := by
  obtain ⟨written, ended, rest, hx⟩ := hx
  have hread : ∀ permit, x.down.place = .select permit → ToRead h x.down.session rest :=
    fun permit hplace => hx.left (by rw [hplace]; trivial)
  cases hm with
  | begin hplace =>
    exact hx.down List.prefix_rfl rfl rfl (by simp) fun _ => hx.left (by rw [hplace]; trivial)
  | beginClosed => cases hs
  | beginRetry buffer hplace hretry => cases hretry.symm.trans (hx.retry hplace)
  | finish => exact hx.down List.prefix_rfl rfl rfl (by simp) nofun
  | select permit hplace =>
    exact hx.down List.prefix_rfl rfl rfl (by simp) fun _ => hx.left (by rw [hplace]; trivial)
  | readBody b e d hplace _ hcall =>
    have hreads : Downstream.Reads h _ _ (Downstream.readDownstreamRequest crates _) := (hread true hplace).reads hp
    rw [hcall] at hreads
    cases hreads with
    | body ht hpre hend => exact hx.push (t := .body b e) hpre hend rfl rfl (by simp) fun _ => ht
  | readDone d hplace _ hcall =>
    have hreads : Downstream.Reads h _ _ (Downstream.readDownstreamRequest crates _) := (hread true hplace).reads hp
    rw [hcall] at hreads
    cases hreads
  | readFails => exact hx.down List.prefix_rfl rfl rfl (by simp) nofun
  | readPanics => cases hs
  | failClosed => exact hx.down List.prefix_rfl rfl rfl (by simp) nofun
  | fail e =>
    exact hx.push (t := .failed e) (List.nil_prefix : [] <+: rest) nofun rfl rfl (by simp) nofun
  | write permit drop more d d' e hplace _ _ hdrop hcall =>
    have hk := Downstream.writeDownstreamResponse_kept crates (x.responses.take (more + 1)) d
    rw [hcall] at hk
    obtain ⟨rest', ht, hrest⟩ := (downDropped_toRead hp (hread permit hplace) hdrop).kept hk
    exact hx.down hrest rfl rfl (by simp) fun _ => ht
  | writeStops => cases hs
  | closed permit drop d hplace _ _ _ hdrop =>
    exact hx.down List.prefix_rfl rfl rfl (by simp) fun _ => downDropped_toRead hp (hread permit hplace) hdrop
  | idle => exact hx.down List.prefix_rfl rfl rfl (by simp) nofun

/-- The server's loop moves on and writes nothing. -/
theorem Conveyed.up (hx : x.Conveyed h base bs written ended rest) (hdown : x'.down = x.down)
    (hreq : x'.requests = x.requests) (hup : x'.up.session.written = x.up.session.written) : x'.Conveying h base bs := by
  obtain ⟨hwriter, houtput⟩ := Prod.ext_iff.mp hup
  refine ⟨written, ended, rest, ?_, ?_, ?_, ?_, ?_, ?_, ?_⟩
  · exact (show x'.up.session.stream.output = _ from houtput).trans hx.output
  · rw [show x'.up.session.bodyWriter = x.up.session.bodyWriter from hwriter]
    exact hx.writer
  · rw [hreq]
    exact hx.front
  · rw [hreq]
    exact hx.shut
  · rw [hreq]
    exact hx.spent
  · rw [hdown]
    exact hx.left
  · rw [hdown]
    exact hx.retry

/-- The server's loop writes a task. -/
theorem Conveyed.pop (hx : x.Conveyed h base bs written ended rest) {b : Option Bytes} {e e' : Bool}
    {ts : List Task} (hreq : x.requests = .body b e :: ts) (hu : u.written = x.up.session.written)
    (hcall : Upstream.writeUpstreamRequest (.body b e) u = (.ok e', u')) (hdown : x'.down = x.down)
    (hreq' : x'.requests = ts) (hup : x'.up.session = u') : x'.Conveying h base bs := by
  obtain ⟨hwriter, houtput⟩ := Prod.ext_iff.mp hu
  have hshut := hx.shut
  have hover := hx.spent
  have hfront := hx.front
  rw [hreq] at hshut hover hfront
  have hqueued : queued (.body b e :: ts) = b.getD [] ++ queued ts := rfl
  have hsplit : written ++ queued (.body b e :: ts) ++ rest = written ++ b.getD [] ++ (queued ts ++ rest) := by
    rw [hqueued]
    simp only [List.append_assoc]
  rw [hsplit] at hfront
  have hw : BodyWriter.Counted (lengthOf h) u.bodyWriter written ended := by
    rw [show u.bodyWriter = x.up.session.bodyWriter from hwriter]
    exact hx.writer
  obtain ⟨hout, hw'⟩ := write_counted hw ((List.prefix_append ..).trans hfront) hshut.1 hcall
  refine ⟨written ++ b.getD [], ended || e, rest, ?_, ?_, ?_, ?_, ?_, ?_, ?_⟩
  · rw [hup, hout, show u.stream.output = x.up.session.stream.output from houtput, hx.output, List.append_assoc]
  · rw [hup]
    exact hw'
  · rw [hreq', List.append_assoc]
    exact hfront
  · rw [hreq']
    exact hshut.2
  · intro he
    rw [hreq'] at he
    exact hover ((endedBy_cons ..).trans he)
  · rw [hdown]
    exact hx.left
  · rw [hdown]
    exact hx.retry

theorem Conveying.up_step (hx : x.Conveying h base bs) {e : Event} (hm : UpMoves crates x e x')
    (hs : x'.stopped = none) : x'.Conveying h base bs := by
  obtain ⟨written, ended, rest, hx⟩ := hx
  have hkeeps := Upstream.readUpstreamResponse_written crates x.up.session
  cases hm with
  | finish => exact hx.up rfl rfl rfl
  | select => exact hx.up rfl rfl rfl
  | read t u _ _ hcall =>
    rw [hcall] at hkeeps
    exact hx.up rfl rfl hkeeps
  | readFails e u _ _ hcall =>
    rw [hcall] at hkeeps
    exact hx.up rfl rfl hkeeps
  | readPanics => cases hs
  | sendClosed => exact hx.up rfl rfl rfl
  | sendStops => cases hs
  | send => exact hx.up rfl rfl rfl
  | failClosed => exact hx.up rfl rfl rfl
  | fail => exact hx.up rfl rfl rfl
  | write drop t ts u u' e _ hreq _ hdrop hcall =>
    cases t with
    | body b e' => exact hx.pop hreq (upDropped_written hdrop) hcall rfl rfl rfl
    | _ => cases hcall
  | writeStops => cases hs
  | closed drop u _ _ _ hdrop => exact hx.up rfl rfl (upDropped_written hdrop)

theorem Conveying.step (hp : Plain h) (hx : x.Conveying h base bs) {e : Event}
    (hstep : Duplex.step crates e x = some x') (hs : x'.stopped = none) : x'.Conveying h base bs := by
  rcases (step_moves hstep).2 with hd | hu
  · exact hx.down_step hp hd hs
  · exact hx.up_step hu hs

/-! ## Runs -/

theorem uploading_new {client server : Stream} {mc ms : Nat → Byte}
    (hopen : openExchange crates (.new client mc, .new server ms) = (.ok (), d, u)) (hh : d.requestHeader = some h)
    (hp : Plain h) {preread : Bytes} (hpre : (Downstream.bodyBytes d).1 = .ok preread) :
    ∃ head, h.buildToBuffer = some head ∧
      (Duplex.new d u).Conveying h (server.output ++ head) (preread ++ d.stream.bytes) := by
  obtain ⟨req, preread', head, hready, hidle, -, hbuild, hout, hwriter, -⟩ := openExchange_ok hopen
  obtain rfl : req = h := Option.some.inj (hready.head.symm.trans hh)
  obtain ⟨o, ho, hget⟩ := hready.preread
  obtain rfl : preread' = preread := by
    rw [Downstream.bodyBytes_eq ho hget] at hpre
    exact Out.ok.inj hpre
  refine ⟨head, hbuild, [], false, _, ?_, ?_, List.prefix_rfl, trivial, nofun, fun _ => .start hready hidle,
    fun _ => openExchange_retry hopen⟩
  · rw [List.append_nil]
    exact hout
  · exact hwriter.symm ▸ counted_start hp .new

/-- What has been written is a front of the announced body. -/
theorem Conveyed.announced (hx : x.Conveyed h base bs written ended rest) : written <+: announced h bs := by
  have hfront := hx.front
  rw [List.append_assoc] at hfront
  exact (List.prefix_append ..).trans hfront

/-- In a run in which no loop fails, the server has been sent the head and a front of
    the announced body; all of it, where its writer has counted it out. -/
theorem upload_exact (crates : Crates) (client server : Stream) (mc ms : Nat → Byte) (d : Downstream) (u : Upstream)
    (hopen : openExchange crates (.new client mc, .new server ms) = (.ok (), d, u)) (h : RequestHeader)
    (hh : d.requestHeader = some h) (hp : Plain h) (preread : Bytes) (hpre : (Downstream.bodyBytes d).1 = .ok preread)
    (evs : List Event) (x : Duplex)
    (hrun : Run (Duplex.step crates) (fun _ _ => True) (Duplex.new d u) evs x) (hs : x.stopped = none) :
    ∃ head body, h.buildToBuffer = some head ∧ x.up.session.stream.output = server.output ++ head ++ body ∧
      body <+: announced h (preread ++ d.stream.bytes) ∧
      ∀ n, Utils.getContentLengthValue (h.getHeader contentLength) = some n →
        x.up.session.bodyWriter.finished = true → body = announced h (preread ++ d.stream.bytes) ∧ body.length = n := by
  obtain ⟨head, hbuild, hnew⟩ := uploading_new hopen hh hp hpre
  obtain ⟨written, ended, rest, hx⟩ := run_unstopped (fun _ _ _ hi _ => hi.step hp) hnew hrun hs
  have hfront := hx.announced
  refine ⟨head, written, hbuild, hx.output, hfront, fun n hcl hfin => ?_⟩
  have hle := announced_le hcl (preread ++ d.stream.bytes)
  have hn : n ≤ written.length := hx.writer.finished hfin hcl
  have hlen := hfront.length_le
  exact ⟨hfront.eq_of_length (by omega), by omega⟩

end Duplex

/-- One byte of a hundred is read and written. -/
theorem upload_exact_byte :
    uploadExchange.1 = .ok () ∧ ∃ evs x,
      Run (Duplex.step uploadCrates) (fun _ _ => True) (.new uploadExchange.2.1 uploadExchange.2.2) evs x ∧
      x.up.session.stream.output = (postHead longField).1 ++ [120] ∧
      ∃ head body, uploadHead.buildToBuffer = some head ∧ x.up.session.stream.output = [] ++ head ++ body ∧
        body <+: announced uploadHead ([] ++ uploadExchange.2.1.stream.bytes) := by
  let x0 : Duplex := .new uploadExchange.2.1 uploadExchange.2.2
  have hstart : Duplex.step uploadCrates .downStart x0 = some { x0 with down.place := .turn } := rfl
  have hat : ({ x0 with down.place := .turn } : Duplex).AtUpload uploadCrates
      (.data [120] :: ((List.replicate 30 120).map (fun b => .data [b]) ++ [.error (.os 104)])) :=
    ⟨rfl, rfl, rfl, _, Downstream.readDownstreamRequest_ready upload_ready, upload_uploading⟩
  obtain ⟨d', x1, rfl, hrun1, -⟩ := hat.byte rfl (by decide)
  have hrun : Run (Duplex.step uploadCrates) (fun _ _ => True) x0
      (.downStart :: ([.downTurn, .downRead] ++ [.upTurn, .upWrite none])) _ :=
    .cons trivial hstart (hrun1.append (.cons trivial rfl (.cons trivial rfl (.nil _))))
  obtain ⟨head, body, hbuild, hout, hfront, -⟩ := Duplex.upload_exact uploadCrates _ _ _ _ _ _ (Prod.ext (by decide) rfl)
    uploadHead rfl ⟨by decide, by decide⟩ [] rfl _ _ hrun rfl
  exact ⟨by decide, _, _, hrun, rfl, head, body, hbuild, hout, hfront⟩

/-! ## The relay left to itself -/

/-- A slice that ends the body is written, and the body is ended. -/
theorem relay_last (hs : d.bodyReader.isStart = false) (hf : d.bodyReader.isFinished = false) {o : Offset}
    {r : BodyReader} {s : Stream} {x : Bytes}
    (hr : BodyReader.readBody crates.parseChunkSize (d.bodyReader, d.stream) = (.ok (some o), r, s))
    (hx : r.getSlicedBody o = .ok x) (hrs : r.isStart = false) (hrf : r.isFinished = true)
    (hu : u.stream.Healthy) (hw : u.bodyWriter.writeState ≠ .start) (hshort : (u.sent (some x)).bodyWriter.short = false)
    (fuel : Nat) :
    relay crates (fuel + 1) (d, u) = some ((d.withRead (r, s)).stored x, (u.sent (some x)).ended) := by
  rw [relay, Downstream.readDownstreamRequest_slice hs hf hr hx hrs, hrf]
  simp only [Upstream.writeUpstreamRequest_body hu hw (some x) true fun _ => hshort]
  rfl

/-- The client's reader and the server's writer have the same count. -/
theorem relay_stocked (crates : Crates) {after : List ReadEv} :
    ∀ (k : Nat) {d : Downstream} {u : Upstream} {bs : Bytes} {read toRead : Nat},
    bs.length = k → BodyReader.Stocked d.bodyReader d.stream bs after → d.bodyReader.readState = .partially read toRead →
    0 < toRead → toRead ≤ bs.length → read + toRead < usizeEnd → u.stream.Healthy →
    u.bodyWriter = ⟨.contentLength (read + toRead) read⟩ →
    ∃ fuel d' u', relay crates fuel (d, u) = some (d', u') ∧
      u'.stream.output = u.stream.output ++ bs.take toRead ∧ u'.bodyWriter = ⟨.completed (read + toRead)⟩ := by
  intro k
  induction k using Nat.strong_induction_on with
  | _ k ih =>
    intro d u bs read toRead hk hstocked hst h0 hle hfits hu hw
    have hne : bs ≠ [] := by
      intro he
      rw [he, List.length_nil] at hle
      omega
    have hs : d.bodyReader.isStart = false := by simp [BodyReader.isStart, hst]
    have hf : d.bodyReader.isFinished = false := by simp [BodyReader.isFinished, hst]
    have hwst : u.bodyWriter.writeState ≠ .start := by rw [hw]; simp
    obtain ⟨x, bs', o, r, s, hx, rfl, hcall, hget, hnext, hst'⟩ :=
      hstocked.partially_call hne hst hfits
    have hpos := List.length_pos_of_ne_nil hx
    rw [List.length_append] at hk hle
    have hroom : ¬ read + toRead ≤ read := by omega
    have hsent : (u.sent (some (x.take toRead))).stream.output = u.stream.output ++ x.take toRead ∧
        (u.sent (some (x.take toRead))).bodyWriter = ⟨.contentLength (read + toRead) (read + min toRead x.length)⟩ := by
      unfold Upstream.sent Upstream.wrote BodyWriter.emit
      rw [hw]
      simp only [if_neg hroom, Nat.add_sub_cancel_left, List.take_take, Nat.min_self, List.length_take]
      exact ⟨trivial, by rw [← Nat.min_assoc, Nat.min_self]⟩
    by_cases hfull : toRead ≤ x.length
    · rw [if_pos hfull] at hst'
      rw [Nat.min_eq_left hfull] at hsent
      refine ⟨1, _, _, relay_last hs hf hcall hget (by simp [BodyReader.isStart, hst']) (by simp [BodyReader.isFinished, hst'])
        hu hwst ?_ 0, ?_, ?_⟩
      · rw [hsent.2]
        simp [BodyWriter.short]
      · rw [Upstream.ended_output, hsent.2, hsent.1, List.take_append_of_le_length hfull]
        exact List.append_nil _
      · have : ∀ v : Upstream, v.ended.bodyWriter = v.bodyWriter.closing.2 := by
          intro v
          unfold Upstream.ended Upstream.forceClosed
          split <;> rfl
        rw [this, hsent.2]
        rfl
    · rw [if_neg hfull] at hst'
      rw [Nat.min_eq_right (by omega)] at hsent
      have hrest := ih bs'.length (by omega) (d := (d.withRead (r, s)).stored (x.take toRead))
        (u := u.sent (some (x.take toRead))) rfl hnext hst' (by omega) (by omega) (by omega)
        (Upstream.sent_healthy hu _) (by rw [hsent.2]; congr 2; omega)
      obtain ⟨fuel, d', u', hrun, hout, hw'⟩ := hrest
      refine ⟨fuel + 1, d', u', ?_, ?_, ?_⟩
      · rw [relay_slice hs hf hcall hget (by simp [BodyReader.isStart, hst']) (by simp [BodyReader.isFinished, hst']) hu hwst]
        exact hrun
      · rw [hout, hsent.1, List.append_assoc, List.take_append, List.take_of_length_le (show x.length ≤ toRead by omega)]
      · rw [hw']
        congr 2
        omega

/-- A client that sends as much as its head announces, in any pieces: the server is sent
    the head and exactly that. -/
theorem upload_whole (crates : Crates) (client server : Stream) (hserver : server.Healthy) (mc ms : Nat → Byte)
    (d : Downstream) (u : Upstream) (hopen : openExchange crates (.new client mc, .new server ms) = (.ok (), d, u))
    (h : RequestHeader) (hh : d.requestHeader = some h) (hp : Plain h) (preread : Bytes)
    (hpre : (Downstream.bodyBytes d).1 = .ok preread) (n : Nat)
    (hcl : Utils.getContentLengthValue (h.getHeader contentLength) = some n) (h0 : 0 < n) (reads : List Bytes)
    (hreads : ∀ x ∈ reads, x ≠ []) (after : List ReadEv) (hin : d.stream.input = reads.map .data ++ after)
    (hlen : n ≤ (preread ++ reads.flatten).length) :
    ∃ fuel d' u' head, relay crates fuel (d, u) = some (d', u') ∧ h.buildToBuffer = some head ∧
      u'.stream.output = server.output ++ head ++ (preread ++ reads.flatten).take n ∧
      u'.bodyWriter = ⟨.completed n⟩ := by
  obtain ⟨req, preread', head, hready, hidle, -, hbuild, hout, hwriter, hhealthy⟩ := openExchange_ok hopen
  obtain rfl : req = h := Option.some.inj (hready.head.symm.trans hh)
  obtain ⟨o, ho, hget⟩ := hready.preread
  obtain rfl : preread' = preread := by
    rw [Downstream.bodyBytes_eq ho hget] at hpre
    exact Out.ok.inj hpre
  have hreader : (d.selected req preread').bodyReader =
      { d.bodyReader.setBuffer preread' with readState := .partially 0 n } := by
    obtain ⟨k, rfl⟩ : ∃ k, n = k + 1 := ⟨n - 1, by omega⟩
    unfold Downstream.selected Downstream.selectReader
    simp only [hp.upgrade, hp.chunked, hcl, Bool.false_eq_true, if_false]
    rfl
  have hstocked : BodyReader.Stocked (d.selected req preread').bodyReader d.stream (preread' ++ reads.flatten) after := by
    rw [hreader]
    exact BodyReader.stocked_setBuffer hidle ⟨reads, hin, hreads, rfl⟩ _
  have hw : u.bodyWriter = ⟨.contentLength (0 + n) 0⟩ := by
    rw [hwriter]
    unfold Upstream.selectWriter
    simp only [hp.upgrade, hp.chunked, hcl, Bool.false_eq_true, if_false, Nat.zero_add]
    rfl
  have hlt := Utils.getContentLengthValue_lt hcl
  obtain ⟨fuel, d', u', hrun, hout', hw'⟩ := relay_stocked crates _ (d := d.selected req preread') rfl hstocked
    (by rw [hreader]) h0 hlen (by unfold usizeEnd; omega) (hhealthy hserver) hw
  refine ⟨fuel, d', u', head, ?_, hbuild, ?_, ?_⟩
  · rw [relay_selected hready]
    exact hrun
  · rw [hout', hout]
  · rw [hw', Nat.zero_add]

/-- A client that announces five bytes, and sends `preread` with the head. -/
def postExchangeOf (preread : Bytes) (after : List ReadEv) : Out Unit × Sessions :=
  openExchange (postCrates lengthFive)
    (.new ⟨.data ((postHead lengthFive).1 ++ preread) :: after, [], []⟩ (fun _ => 0), .new ⟨[], [], []⟩ (fun _ => 0))

/-- Two bytes of five come with the head, and more than three behind it. -/
theorem upload_whole_five :
    ∃ fuel d' u' head, relay (postCrates lengthFive)
        fuel (postExchangeOf (ascii "ab") [.data (ascii "cd"), .data (ascii "efg")]).2 = some (d', u') ∧
      (Downstream.requestHeaderOf (postHead lengthFive).2).buildToBuffer = some head ∧
      u'.stream.output = [] ++ head ++ ascii "abcde" ∧ u'.bodyWriter = ⟨.completed 5⟩ :=
  upload_whole (postCrates lengthFive)
    ⟨.data ((postHead lengthFive).1 ++ ascii "ab") :: [.data (ascii "cd"), .data (ascii "efg")],
      [], []⟩ ⟨[], [], []⟩ rfl (fun _ => 0) (fun _ => 0) _ _ (Prod.ext (by decide) rfl)
    (Downstream.requestHeaderOf (postHead lengthFive).2) rfl ⟨by decide, by decide⟩ (ascii "ab") (by decide) 5
    (by decide) (by decide) [ascii "cd", ascii "efg"] (by decide) [] rfl
    (by decide)

end Glaive.Service
