/-
  Glaive.Service.Download — a response on its way through the two loops to the client
  (`core/src/service/proxy/duplex.rs`: `copy_bidirectional`; `core/src/session/upstream.rs`:
  `read_upstream_response`; `downstream.rs`: `write_downstream_response`).

  What has been read of the response is what was sent and the task on its way, and what
  was sent is what was handed on and what waits in the channel. The tasks follow one
  another as those of one response, the server's session may still read what comes next
  of it, and the wire has what was handed on (`Bringing`).

    · `download_exact`: in any run, the client has heads that others follow, then the
      last head and a front of the body that follows it on the server's wire (`Brought`);
      all of it, once the writer has counted it out.
-/

import Glaive.Service.ResponseChannel
import Glaive.Service.ResponseSent

namespace Glaive.Session

open Glaive.Lib
open Glaive.Lib.Async

namespace Downstream

variable {crates : Crates} {req : RequestHeader} {d d' : Downstream} {base data : Bytes} {o : HeadsRead}
  {ended : Bool}

/-! ## Reading the client leaves the answer alone -/

/-- All that a session answers with. -/
def answerSide (d : Downstream) :
    (Option RequestHeader × Option ResponseHeader × Bool × Bool × Bool) × BodyWriter × Bytes × Bytes :=
  ((d.requestHeader, d.responseHeader, d.ignoreResponseHeaders, d.updateResponseHeaders, d.upgrade),
    d.bodyWriter, d.writeBodyVecBuffer, d.stream.output)

theorem readDownstreamRequest_answerSide (crates : Crates) : Keeps answerSide (readDownstreamRequest crates) := by
  have hhead : Keeps answerSide getRequestHeaders := by
    intro d
    unfold getRequestHeaders
    split <;> rfl
  have hbytes : Keeps answerSide bodyBytes := by
    intro d
    unfold bodyBytes
    split
    · rfl
    · split <;> rfl
  have hreader : ∀ g : BodyReader → BodyReader, Keeps answerSide (setReader g) := fun _ _ => rfl
  have hset : Keeps answerSide setRequestBodyReader := by
    unfold setRequestBodyReader
    refine .bind .get fun d => .ite (.bind (.modify fun _ => rfl) fun _ => .bind hbytes fun p => .bind hhead fun h =>
      .bind (.ite (hreader _) (.pure ())) fun _ => .ite (hreader _) ?_) (.pure ())
    split
    · exact hreader _
    · split <;> exact hreader _
  have hfinished : Keeps answerSide isReadingRequestBodyFinished := .bind hset fun _ => .bind .get fun _ => .pure _
  have honReader : Keeps answerSide (onReader (BodyReader.readBody crates.parseChunkSize)) := fun d =>
    congrArg (fun out => (d.answerSide.1, d.bodyWriter, d.writeBodyVecBuffer, out))
      (BodyReader.readBody_output crates.parseChunkSize (d.bodyReader, d.stream))
  have hread : Keeps answerSide (readRequestBodyBytes crates) := by
    refine .bind (.bind hset fun _ => honReader) fun o => ?_
    cases o with
    | none => exact .pure _
    | some o => exact .bind (fun _ => rfl) fun _ => .bind (.modify fun _ => rfl) fun _ => .pure _
  have hidle : Keeps answerSide idle := fun d =>
    congrArg (fun out => (d.answerSide.1, d.bodyWriter, d.writeBodyVecBuffer, out)) (BodyReader.read_output d.stream 1)
  have hup : Keeps answerSide isRequestUpgrade := .bind hhead fun _ => .pure _
  exact .bind (.bind hfinished fun _ => .ite (.bind hidle fun _ => .ite (.stop _) (.stop _)) hread) fun b =>
    .bind (.andAlso _ hup) fun _ => .ite (.pure _) (.bind hfinished fun _ => .pure _)

theorem Replying.congr (hr : Replying req d) (hd : d'.answerSide = d.answerSide) : Replying req d' := by
  simp only [answerSide, Prod.mk.injEq] at hd
  obtain ⟨⟨hreq, -, hflag, hupdate, hup⟩, -⟩ := hd
  exact ⟨hreq.trans hr.request, hflag.trans hr.flag, hupdate.trans hr.update, hup.trans hr.upgrade⟩

theorem OnWire.congr (hs : OnWire crates req base d o data ended) (hd : d'.answerSide = d.answerSide) :
    OnWire crates req base d' o data ended := by
  simp only [answerSide, Prod.mk.injEq] at hd
  obtain ⟨⟨-, hresp, -, -, hup⟩, hw, hv, hout⟩ := hd
  cases hs with
  | heads hfront hold hsent hnew hnil =>
    refine .heads hfront (hout.trans hold) ?_ (hw.trans hnew) (hv.trans hnil)
    unfold isResponseHeaderSent
    rw [hresp, hup]
    exact hsent
  | body hfront hshown hlast hold hcount =>
    refine .body hfront hshown hlast (hout.trans hold) ⟨fun hc => ?_, fun hc => ?_⟩
    all_goals rw [hw, hv]
    · exact hcount.plain hc
    · exact hcount.chunked hc

end Downstream

end Glaive.Session

namespace Glaive.Service

open Glaive.Lib
open Glaive.Lib.Async
open Glaive.Session
open Glaive.Session.Downstream (Replying OnWire Fits followAll answerSide)
open Glaive.Session.Upstream (Asked Answering Seeking Behind ReadUpTo Unchunked bodyOf bodyLength)

variable {crates : Crates} {whole : Prop} {req : RequestHeader} {base wire : Bytes} {d d' : Downstream} {u u' : Upstream}

theorem dropDownstream_answerSide {k : Nat} (hd : dropDownstream crates k d = some d') :
    d'.answerSide = d.answerSide := by
  have hkeeps := Downstream.readDownstreamRequest_answerSide crates
    { d with stream := { d.stream with input := d.stream.input.take k } }
  unfold dropDownstream at hd
  simp only at hd
  split at hd
  · rename_i heq
    rw [heq] at hkeeps
    cases hd
    exact hkeeps
  · cases hd

theorem dropUpstream_unread {k : Nat} (hd : dropUpstream crates k u = some u') :
    u'.stream.bytes <:+ u.stream.bytes := by
  have hread := Upstream.readUpstreamResponse_unread crates
    { u with stream := { u.stream with input := u.stream.input.take k } }
  unfold dropUpstream at hd
  simp only at hd
  split at hd
  · rename_i u1 heq
    rw [heq] at hread
    cases hd
    obtain ⟨front, hfront⟩ := hread
    refine ⟨front, ?_⟩
    show front ++ Stream.bytesOf (u1.stream.input ++ u.stream.input.drop k) = Stream.bytesOf u.stream.input
    have hall : Stream.bytesOf u.stream.input =
        Stream.bytesOf (u.stream.input.take k) ++ Stream.bytesOf (u.stream.input.drop k) := by
      rw [← Stream.bytesOf_append, List.take_append_drop]
    rw [Stream.bytesOf_append, hall, ← List.append_assoc]
    exact congrArg (· ++ _) hfront
  · cases hd

theorem upDropped_unread {l : UpLoop} {drop : Option Nat} (hd : l.dropped crates drop = some u) :
    u.stream.bytes <:+ l.session.stream.bytes := by
  cases drop with
  | none =>
    cases hd
    exact List.suffix_rfl
  | some k =>
    simp only [UpLoop.dropped] at hd
    split at hd
    · exact dropUpstream_unread hd
    · cases hd

theorem downDropped_answerSide {l : DownLoop} {permit : Bool} {drop : Option Nat}
    (hd : l.dropped crates permit drop = some d) : d.answerSide = l.session.answerSide := by
  cases drop with
  | none =>
    cases hd
    rfl
  | some k =>
    simp only [DownLoop.dropped] at hd
    split at hd
    · exact dropDownstream_answerSide hd
    · cases hd

/-! ## The tasks of a response -/

theorem followAll_append (o : HeadsRead) (ts ts' : List Task) :
    followAll o (ts ++ ts') = (followAll o ts).bind fun o => followAll o ts' := by
  unfold followAll
  rw [List.foldlM_append]
  rfl

theorem followAll_concat (o : HeadsRead) (ts : List Task) (t : Task) :
    followAll o (ts ++ [t]) = (followAll o ts).bind fun o => follow o t := by
  rw [followAll_append]
  cases followAll o ts with
  | none => rfl
  | some o =>
    show [t].foldlM follow o = follow o t
    rw [List.foldlM_cons]
    cases follow o t <;> rfl

/-- Past the last head there is no other. -/
theorem followAll_last {ps : List ResponseHeader} {h : ResponseHeader} : ∀ {ts : List Task} {o : HeadsRead},
    followAll (ps, some h) ts = some o → o = (ps, some h) := by
  intro ts
  induction ts with
  | nil =>
    intro o hf
    cases hf
    rfl
  | cons t ts ih =>
    intro o hf
    unfold followAll at hf
    rw [List.foldlM_cons] at hf
    obtain ⟨o1, h1, h2⟩ := Option.bind_eq_some_iff.mp hf
    obtain rfl := follow_last h1
    exact ih h2

/-- The heads that came before stay. -/
theorem followAll_heads : ∀ {ts : List Task} {o o' : HeadsRead}, followAll o ts = some o' → o.1 <+: o'.1 := by
  intro ts
  induction ts with
  | nil =>
    intro o o' hf
    cases hf
    exact List.prefix_rfl
  | cons t ts ih =>
    intro o o' hf
    unfold followAll at hf
    rw [List.foldlM_cons] at hf
    obtain ⟨o1, h1, h2⟩ := Option.bind_eq_some_iff.mp hf
    refine List.IsPrefix.trans ?_ (ih h2)
    obtain ⟨ps, _ | h⟩ := o
    · cases t with
      | header h e =>
        cases h1
        unfold HeadsRead.next
        split
        · exact List.prefix_rfl
        · exact List.prefix_append ..
      | failed e =>
        cases h1
        exact List.prefix_rfl
      | _ => cases h1
    · rw [follow_last h1]

theorem dataOf_append (ts ts' : List Task) : dataOf (ts ++ ts') = dataOf ts ++ dataOf ts' := by
  simp [dataOf]

theorem dataOf_concat (ts : List Task) (t : Task) : dataOf (ts ++ [t]) = dataOf ts ++ t.data := by
  simp [dataOf]

/-- One of the tasks ends the response, and none that came to an error. -/
def Finishes (ts : List Task) : Prop := ∃ t ∈ ts, t.isEnd = true ∧ t.isFailed = false

theorem Finishes.mono {ts ts' : List Task} (hf : Finishes ts) (h : ts <+: ts') : Finishes ts' := by
  obtain ⟨t, ht, he⟩ := hf
  exact ⟨t, h.subset ht, he⟩

theorem Finishes.concat {ts : List Task} {t : Task} (hf : Finishes (ts ++ [t])) :
    Finishes ts ∨ t.isEnd = true ∧ t.isFailed = false := by
  obtain ⟨t', ht, he⟩ := hf
  rcases List.mem_append.mp ht with ht | ht
  · exact .inl ⟨t', ht, he⟩
  · rw [← List.mem_singleton.mp ht]
    exact .inr he

/-- A write that comes to the end was given it. -/
theorem finishes_of_write {ts : List Task} (hne : ts ≠ [])
    (hcall : Downstream.writeDownstreamResponse crates ts d = (.ok true, d')) : Finishes ts := by
  obtain ⟨hend, hnot⟩ := Downstream.writeDownstreamResponse_ok hne hcall
  rcases List.eq_nil_or_concat' ts with rfl | ⟨init, t, rfl⟩
  · exact absurd rfl hne
  · rw [lastEnd_snoc] at hend
    exact ⟨t, List.mem_append_right _ (List.mem_singleton_self t), hend.symm, hnot t (by simp)⟩

/-! ## The server's loop -/

/-- `handle_upstream` may still read the server. -/
def UpAt.Reads : UpAt → Prop
  | .turn => True
  | .select => True
  | .sending _ => True
  | _ => False

/-- The task on its way to the channel. -/
def UpAt.holds : UpAt → List Task
  | .sending t => [t]
  | _ => []

/-- The heads that came were read off the wire, and none of what is unread. What was read
    under the last one is a front of its body, as that follows the head on the wire; of a
    chunked body it is all, once the end was read. -/
structure Sound (crates : Crates) (whole : Prop) (req : RequestHeader) (wire unread : Bytes) (o : HeadsRead)
    (ts : List Task) : Prop where
  heads : ∃ rest, ReadUpTo crates whole o.1 wire rest ∧ unread <:+ rest
  body : ∀ h, o.2 = some h → ∃ bs, Behind crates whole o.1 wire h bs ∧ unread <:+ bs ∧
    (Unchunked req h → dataOf ts <+: bodyOf req h bs ∧ (dataOf ts).length + unread.length ≤ bs.length) ∧
    (¬ Unchunked req h → whole → bs.length < usizeEnd + unread.length →
      ∀ B after, IsChunked crates.parseChunkSize bs B after → dataOf ts <+: B.data ∧
        ∀ front, front <+: ts → Finishes front → dataOf front = B.data)

/-- What the loop may still read goes on from what it has. -/
inductive Serving (crates : Crates) (whole : Prop) (req : RequestHeader) (wire : Bytes) (l : UpLoop) :
    HeadsRead → Bytes → Prop
  | seeking {ps : List ResponseHeader} : ReadUpTo crates whole ps wire l.session.stream.bytes →
      (l.responseDone = false → Seeking crates whole ps wire l.session) → Serving crates whole req wire l (ps, none) []
  | answering {ps : List ResponseHeader} {h : ResponseHeader} {data : Bytes} :
      Answering crates whole ps req wire h data l.session → Serving crates whole req wire l (ps, some h) data

variable {l l' : UpLoop} {o : HeadsRead} {data : Bytes}

theorem Serving.sound {ts : List Task} (hs : Serving crates whole req wire l o data) (hdata : data = dataOf ts)
    (hend : ∀ front, front <+: ts → Finishes front → front = ts ∧ l.session.bodyReader.isFinished = true) :
    Sound crates whole req wire l.session.stream.bytes o ts := by
  subst hdata
  generalize hg : dataOf ts = data at hs
  cases hs with
  | seeking hread => exact ⟨⟨_, hread, List.suffix_rfl⟩, nofun⟩
  | answering ha =>
    obtain ⟨bs, hbehind, hunread, hplain, hchunks⟩ := ha.left
    refine ⟨?_, ?_⟩
    · obtain ⟨text, hread, -⟩ := hbehind
      exact ⟨_, hread, hunread.trans (List.suffix_append ..)⟩
    intro h he
    cases he
    refine ⟨bs, hbehind, hunread, fun hc => ?_, fun hc hw hfits B after hB => ⟨?_, fun front hfront hfin => ?_⟩⟩
    · obtain ⟨rest, -, hfront, hcount⟩ := hplain hc
      rw [hg]
      exact ⟨(List.prefix_append ..).trans hfront, by omega⟩
    · obtain ⟨rest, -, hall⟩ := hchunks hc hw hfits B after hB
      exact ⟨rest, hg ▸ hall⟩
    · obtain ⟨rest, hleft, hall⟩ := hchunks hc hw hfits B after hB
      obtain ⟨rfl, hdone⟩ := hend front hfront hfin
      rw [hleft.none_left hdone, List.append_nil] at hall
      exact hg.trans hall

/-- Reading on leaves what was read sound. -/
theorem Sound.mono {ts : List Task} {unread unread' : Bytes} (hs : Sound crates whole req wire unread o ts)
    (hsuffix : unread' <:+ unread) : Sound crates whole req wire unread' o ts := by
  have hlen := hsuffix.length_le
  obtain ⟨rest, hread, hrest⟩ := hs.heads
  refine ⟨⟨rest, hread, hsuffix.trans hrest⟩, fun h he => ?_⟩
  obtain ⟨bs, hbehind, hunread, hplain, hchunks⟩ := hs.body h he
  refine ⟨bs, hbehind, hsuffix.trans hunread, fun hc => ?_, fun hc hw hfits => hchunks hc hw (by omega)⟩
  obtain ⟨hfront, hcount⟩ := hplain hc
  exact ⟨hfront, by omega⟩

theorem Sound.fits {ts : List Task} {unread : Bytes} (hs : Sound crates whole req wire unread o ts)
    (hd : data <+: dataOf ts) : Fits req o data := by
  intro h he hc total ht
  obtain ⟨bs, -, -, hplain, -⟩ := hs.body h he
  exact (hd.trans (hplain hc).1).length_le.trans (Upstream.bodyOf_le ht bs)

/-- An error that comes after it changes nothing. -/
theorem Sound.failed {ts : List Task} {unread : Bytes} (hs : Sound crates whole req wire unread o ts) (e : IoError) :
    Sound crates whole req wire unread o (ts ++ [.failed e]) := by
  have hdata : dataOf (ts ++ [.failed e]) = dataOf ts := by
    rw [dataOf_concat]
    exact List.append_nil _
  refine ⟨hs.heads, fun h he => ?_⟩
  obtain ⟨bs, hbehind, hunread, hplain, hchunks⟩ := hs.body h he
  refine ⟨bs, hbehind, hunread, hdata ▸ hplain, fun hc hw hfits B after hB => ?_⟩
  obtain ⟨hfront, hall⟩ := hchunks hc hw hfits B after hB
  refine ⟨hdata ▸ hfront, fun front hf hfin => ?_⟩
  rcases List.prefix_concat_iff.mp hf with rfl | hf
  · rcases hfin.concat with hfin | ⟨-, hfailed⟩
    · exact hdata.trans (hall ts List.prefix_rfl hfin)
    · cases hfailed
  · exact hall front hf hfin

/-- A read that goes well. -/
theorem Serving.read (hs : Serving crates whole req wire l o data) (ha : Asked req l.session)
    (hup : Utils.isRequestUpgrade req = false) (hdone : l.responseDone = false)
    (hk : whole → l.session.shouldReadResponseHeader = true → Upstream.HeadAlone crates l.session) {t : Task}
    (hok : Upstream.readUpstreamResponse crates l.session = (.ok t, u)) :
    Asked req u ∧ ∃ o', follow o t = some o' ∧
      Serving crates whole req wire ⟨u, t.isEnd, t.isEnd, .sending t⟩ o' (data ++ t.data) := by
  cases hs with
  | seeking _ hseek =>
    obtain ⟨ha', h, e, rfl, hcase⟩ := (hseek hdone).read ha hup (fun hw => hk hw (hseek hdone).head) hok
    refine ⟨ha', _, rfl, ?_⟩
    unfold HeadsRead.next
    rcases hcase with ⟨hlast, hread, hnext⟩ | ⟨hlast, hnext⟩
    · rw [hlast]
      exact .seeking hread hnext
    · rw [hlast]
      exact .answering hnext
  | @answering ps h _ hans =>
    obtain ⟨ha', x, hgives, hnext⟩ := hans.read ha hok
    refine ⟨ha', (ps, some h), ?_, .answering ?_⟩
    · cases hgives <;> rfl
    · cases hgives with
      | body b e => cases b <;> exact hnext
      | done => exact hnext

theorem Serving.congr (hs : Serving crates whole req wire l o data) (hdone : l'.responseDone = l.responseDone)
    (hresp : l'.session.responseHeader = l.session.responseHeader) (hread : l'.session.bodyReader = l.session.bodyReader)
    (hin : l'.session.stream.input = l.session.stream.input) : Serving crates whole req wire l' o data := by
  cases hs with
  | seeking hold hseek =>
    refine .seeking ?_ fun hd => (hseek (hdone.symm.trans hd)).congr hresp hread hin
    unfold Stream.bytes
    rw [hin]
    exact hold
  | answering ha => exact .answering (ha.congr hresp hread hin)

/-- A read that is dropped. -/
theorem Serving.dropped (hs : Serving crates whole req wire l o data) (ha : Asked req l.session) {drop : Option Nat}
    (hk : whole → ∀ k, drop = some k → Droppable k l.session) (hd : l.dropped crates drop = some u) :
    Asked req u ∧ Serving crates whole req wire { l with session := u } o data := by
  cases drop with
  | none =>
    cases hd
    exact ⟨ha, hs⟩
  | some k =>
    simp only [UpLoop.dropped] at hd
    split at hd
    · rename_i hdone
      rw [Bool.not_eq_true'] at hdone
      cases hs with
      | seeking _ hseek =>
        have hseek' := (hseek hdone).drop (fun hw => hk hw k rfl) hd
        refine ⟨?_, .seeking hseek'.unread fun _ => hseek'⟩
        rw [dropUpstream_head (hseek hdone).head hd]
        exact ⟨ha.request, ha.upgrade⟩
      | answering hans =>
        refine ⟨?_, .answering (hans.drop (fun hw => hk hw k rfl) hd)⟩
        rw [(dropUpstream_body hans.inBody hans.started hd).1]
        exact ⟨ha.request, ha.upgrade⟩
    · cases hd

/-! ## Before the loops -/

/-- Nothing has been answered yet. -/
structure Unanswered (d : Downstream) : Prop where
  head : d.responseHeader = none
  flag : d.ignoreResponseHeaders = false
  update : d.updateResponseHeaders = true
  upgrade : d.upgrade = false
  writer : d.bodyWriter = .new
  gathered : d.writeBodyVecBuffer = []

theorem Unanswered.not_sent (hd : Unanswered d) : d.isResponseHeaderSent = false := by
  unfold Downstream.isResponseHeaderSent
  rw [hd.head]

theorem readRequest_unanswered (crates : Crates) : Stays Unanswered (Downstream.readRequest crates) := by
  have hloop : Stays Unanswered (Downstream.onStream (headLoop crates.parseRequest)) :=
    fun _ hd => ⟨hd.head, hd.flag, hd.update, hd.upgrade, hd.writer, hd.gathered⟩
  unfold Downstream.readRequest
  refine .bind (.modify fun _ hd => ⟨hd.head, hd.flag, hd.update, hd.upgrade, hd.writer, hd.gathered⟩) fun _ =>
    .bind hloop fun r => ?_
  cases r with
  | none => exact .pure _
  | some r =>
    exact .bind (.modify fun _ hd => ⟨hd.head, hd.flag, hd.update, hd.upgrade, hd.writer, hd.gathered⟩) fun _ =>
      .ite (.stop _) (.ite (.stop _)
        (.modify fun _ hd => ⟨rfl, hd.flag, hd.update, hd.upgrade, hd.writer, hd.gathered⟩))

theorem readRequest_output (crates : Crates) : Keeps (fun d => d.stream.output) (Downstream.readRequest crates) := by
  have hloop : Keeps (fun d => d.stream.output) (Downstream.onStream (headLoop crates.parseRequest)) := fun _ => rfl
  unfold Downstream.readRequest
  refine .bind (.modify fun _ => rfl) fun _ => .bind hloop fun r => ?_
  cases r with
  | none => exact .pure _
  | some r => exact .bind (.modify fun _ => rfl) fun _ => .ite (.stop _) (.ite (.stop _) (.modify fun _ => rfl))

theorem openExchange_unanswered {client server : Stream} {mc ms : Nat → Byte}
    (hopen : openExchange crates (.new client mc, .new server ms) = (.ok (), d, u)) :
    Unanswered d ∧ d.stream.output = client.output := by
  unfold openExchange at hopen
  obtain ⟨_, p1, h1, h2⟩ := of_bind_ok hopen
  obtain ⟨req, p2, h3, h4⟩ := of_bind_ok h2
  obtain ⟨_, p3, h5, h6⟩ := of_bind_ok h4
  obtain ⟨d1, k1, rfl⟩ := of_zoom_ok h1
  obtain ⟨d2, k3, rfl⟩ := of_zoom_ok h3
  obtain ⟨u1, -, rfl⟩ := of_zoom_ok h5
  cases h6
  have hd : Unanswered d1 := by
    have := readRequest_unanswered crates (.new client mc) ⟨rfl, rfl, rfl, rfl, rfl, rfl⟩
    rwa [k1] at this
  have hout : d1.stream.output = client.output := by
    have := readRequest_output crates (.new client mc)
    rwa [k1] at this
  have hsame : d2 = d1 := by
    unfold Downstream.getRequestHeaders at k3
    split at k3 <;> cases k3
    rfl
  subst hsame
  exact ⟨⟨hd.head, hd.flag, hd.update, hd.upgrade, hd.writer, hd.gathered⟩, hout⟩

namespace Duplex

/-- Nothing the server sends is lost: no byte of a head or of a size line by a read that
    is dropped, and none that comes with a head that others follow. -/
def LosesNothing (crates : Crates) : Event → Duplex → Prop
  | .upRead, x => x.up.session.shouldReadResponseHeader = true → Upstream.HeadAlone crates x.up.session
  | e, x => DropsNothing e x

/-- The tasks of the response that were read. -/
def given (x : Duplex) : List Task := x.sent ++ x.up.place.holds

/-- Past `base` the wire to the client has what was handed on, and what was read is what
    comes first of the response on `wire`. -/
structure Bringing (crates : Crates) (whole : Prop) (req : RequestHeader) (base wire : Bytes) (x : Duplex) : Prop where
  queued : x.sent = x.handed ++ x.responses
  unread : x.up.session.stream.bytes <:+ wire
  follows : ∃ o, followAll ([], none) x.given = some o ∧
    Sound crates whole req wire x.up.session.stream.bytes o x.given ∧
    (x.up.place.Reads → Asked req x.up.session ∧ Serving crates whole req wire x.up o (dataOf x.given))
  unfinished : x.up.place.Reads → x.up.responseDone = false → ¬ Finishes x.given
  replying : Replying req x.down.session
  gathered : x.down.session.writeBodyVecBuffer = []
  shown : ∃ o ended, followAll ([], none) x.handed = some o ∧
    OnWire crates req base x.down.session o (dataOf x.handed) ended ∧
    (ended = true → x.down.responseDone = true ∧ Finishes x.handed)

variable {x x' : Duplex}

/-! ## Steps -/

/-- The client's loop moves on, and writes nothing. -/
theorem Bringing.down (hx : x.Bringing crates whole req base wire) (hup : x'.up = x.up) (hsent : x'.sent = x.sent)
    (hhanded : x'.handed = x.handed) (hresp : x'.responses = x.responses)
    (hside : x'.down.session.answerSide = x.down.session.answerSide)
    (hdone : x.down.responseDone = true → x'.down.responseDone = true) : x'.Bringing crates whole req base wire := by
  have hgiven : x'.given = x.given := by
    unfold given
    rw [hsent, hup]
  obtain ⟨o, ended, hf, hs, he⟩ := hx.shown
  refine ⟨?_, hup ▸ hx.unread, ?_, ?_, hx.replying.congr hside, ?_, o, ended, hhanded ▸ hf, hhanded ▸ hs.congr hside,
    fun h => ⟨hdone (he h).1, hhanded ▸ (he h).2⟩⟩
  · rw [hsent, hhanded, hresp]
    exact hx.queued
  · rw [hgiven, hup]
    exact hx.follows
  · rw [hgiven, hup]
    exact hx.unfinished
  · exact (congrArg (fun y => y.2.2.1) hside).trans hx.gathered

/-- What is handed on is a front of what was read. -/
theorem Bringing.handed_front (hx : x.Bringing crates whole req base wire) {ts rest : List Task}
    (hts : x.responses = ts ++ rest) : x.given = x.handed ++ ts ++ (rest ++ x.up.place.holds) := by
  unfold given
  rw [hx.queued, hts]
  simp only [List.append_assoc]

/-- The client's loop writes tasks. -/
theorem Bringing.write (hx : x.Bringing crates whole req base wire) (hreq : Utils.isRequestUpgrade req = false)
    {ts rest : List Task} (hts : x.responses = ts ++ rest) (hne : ts ≠ []) (hd : d.answerSide = x.down.session.answerSide)
    (hdone : x.down.responseDone = false) {e : Bool}
    (hcall : Downstream.writeDownstreamResponse crates ts d = (.ok e, d')) (hup : x'.up = x.up) (hsent : x'.sent = x.sent)
    (hhanded : x'.handed = x.handed ++ ts) (hresp : x'.responses = rest) (hdown : x'.down = ⟨d', e, e, .turn⟩) :
    x'.Bringing crates whole req base wire := by
  have hgiven : x'.given = x.given := by
    unfold given
    rw [hsent, hup]
  have hfront := hx.handed_front hts
  obtain ⟨o, hf, hsound, hserves⟩ := hx.follows
  obtain ⟨o1, ended, hf1, hs, he⟩ := hx.shown
  obtain rfl : ended = false := by
    cases ended with
    | false => rfl
    | true => exact absurd (hdone.symm.trans (he rfl).1) Bool.false_ne_true
  -- what is written follows what was, and fits under the length
  rw [hfront, followAll_append] at hf
  obtain ⟨o2, hf2, hf3⟩ := Option.bind_eq_some_iff.mp hf
  have hf4 : followAll o1 ts = some o2 := by
    rw [followAll_append, hf1] at hf2
    exact hf2
  have hdata : dataOf x.handed ++ dataOf ts <+: dataOf x.given := by
    rw [hfront, dataOf_append, dataOf_append]
    exact List.prefix_append ..
  have hfits : Fits req o2 (dataOf x.handed ++ dataOf ts) := by
    intro h ho
    obtain ⟨ps, rfl⟩ : ∃ ps, o2 = (ps, some h) := ⟨o2.1, Prod.ext rfl ho⟩
    obtain rfl := followAll_last hf3
    exact hsound.fits hdata h rfl
  have hv : d.writeBodyVecBuffer = [] := (congrArg (fun y => y.2.2.1) hd).trans hx.gathered
  obtain ⟨hr', hs', hv'⟩ := (hs.congr hd).write (hx.replying.congr hd) hreq hv hne hf4 hfits hcall
  refine ⟨?_, hup ▸ hx.unread, ?_, ?_, ?_, ?_, o2, e, ?_, ?_, fun he => ?_⟩
  · rw [hsent, hhanded, hresp, hx.queued, hts, List.append_assoc]
  · rw [hgiven, hup]
    exact hx.follows
  · rw [hgiven, hup]
    exact hx.unfinished
  · rw [hdown]
    exact hr'
  · rw [hdown]
    exact hv'
  · rw [hhanded]
    exact hf2
  · rw [hhanded, dataOf_append, hdown]
    exact hs'
  · subst he
    obtain ⟨t, ht, hend⟩ := finishes_of_write hne hcall
    refine ⟨by rw [hdown], ?_⟩
    rw [hhanded]
    exact ⟨t, List.mem_append_right _ ht, hend⟩

theorem Bringing.down_step (hx : x.Bringing crates whole req base wire) (hreq : Utils.isRequestUpgrade req = false)
    {e : Event}     (hm : DownMoves crates x e x') (hs : x'.stopped = none) : x'.Bringing crates whole req base wire := by
  have hread : ∀ {o : Out Task} {d : Downstream}, Downstream.readDownstreamRequest crates x.down.session = (o, d) →
      d.answerSide = x.down.session.answerSide := by
    intro o d hcall
    have := Downstream.readDownstreamRequest_answerSide crates x.down.session
    rwa [hcall] at this
  cases hm with
  | begin => exact hx.down rfl rfl rfl rfl rfl id
  | beginClosed => cases hs
  | beginRetry => exact hx.down rfl rfl rfl rfl rfl id
  | finish => exact hx.down rfl rfl rfl rfl rfl id
  | select => exact hx.down rfl rfl rfl rfl rfl id
  | readBody b e d _ _ hcall => exact hx.down rfl rfl rfl rfl (hread hcall) id
  | readDone d _ _ hcall => exact hx.down rfl rfl rfl rfl (hread hcall) fun _ => rfl
  | readFails e d _ _ hcall => exact hx.down rfl rfl rfl rfl (hread hcall) id
  | readPanics => cases hs
  | failClosed => exact hx.down rfl rfl rfl rfl rfl id
  | fail => exact hx.down rfl rfl rfl rfl rfl id
  | write permit drop more d d' e _ hdone hmore hdrop hcall =>
    exact hx.write hreq (List.take_append_drop (more + 1) x.responses).symm (take_ne_nil hmore)
      (downDropped_answerSide hdrop) hdone hcall rfl rfl rfl rfl rfl
  | writeStops => cases hs
  | closed permit drop d _ _ _ _ hdrop =>
    exact hx.down rfl rfl rfl rfl (downDropped_answerSide hdrop) fun _ => rfl
  | idle => exact hx.down rfl rfl rfl rfl rfl id

/-- The server's loop moves on. -/
theorem Bringing.up (hx : x.Bringing crates whole req base wire) (hdown : x'.down = x.down)
    (hhanded : x'.handed = x.handed)
    (hqueued : x'.sent = x'.handed ++ x'.responses)
    (hunread : x'.up.session.stream.bytes <:+ x.up.session.stream.bytes)
    (hunfinished : x'.up.place.Reads → x'.up.responseDone = false → ¬ Finishes x'.given)
    (hfollows : ∀ o, followAll ([], none) x.given = some o →
      Sound crates whole req wire x'.up.session.stream.bytes o x.given →
      (x.up.place.Reads → Asked req x.up.session ∧ Serving crates whole req wire x.up o (dataOf x.given)) →
      ∃ o', followAll ([], none) x'.given = some o' ∧
        Sound crates whole req wire x'.up.session.stream.bytes o' x'.given ∧
        (x'.up.place.Reads → Asked req x'.up.session ∧ Serving crates whole req wire x'.up o' (dataOf x'.given))) :
    x'.Bringing crates whole req base wire := by
  obtain ⟨o, hf, hsound, hs⟩ := hx.follows
  refine ⟨hqueued, hunread.trans hx.unread, hfollows o hf (hsound.mono hunread) hs, hunfinished,
    hdown ▸ hx.replying, hdown ▸ hx.gathered, ?_⟩
  rw [hdown, hhanded]
  exact hx.shown

/-- It reads nothing. -/
theorem Bringing.up_same (hx : x.Bringing crates whole req base wire) (hdown : x'.down = x.down)
    (hhanded : x'.handed = x.handed)
    (hqueued : x'.sent = x'.handed ++ x'.responses)
    (hunread : x'.up.session.stream.bytes <:+ x.up.session.stream.bytes) (hgiven : x'.given = x.given)
    (hserves : x'.up.place.Reads → x.up.place.Reads ∧ x'.up.responseDone = x.up.responseDone ∧
      ∀ o, Asked req x.up.session → Serving crates whole req wire x.up o (dataOf x.given) →
      Asked req x'.up.session ∧ Serving crates whole req wire x'.up o (dataOf x.given)) :
    x'.Bringing crates whole req base wire := by
  refine hx.up hdown hhanded hqueued hunread (fun hr hdone => ?_) fun o hf hsound hs =>
    ⟨o, hgiven ▸ hf, hgiven ▸ hsound, fun hr => ?_⟩
  · obtain ⟨hr', hsame, -⟩ := hserves hr
    exact hgiven ▸ hx.unfinished hr' (hsame.symm.trans hdone)
  obtain ⟨hr', -, hkeep⟩ := hserves hr
  obtain ⟨ha, hserving⟩ := hs hr'
  rw [hgiven]
  exact hkeep o ha hserving

/-- It reads a task. -/
theorem Bringing.up_read (hx : x.Bringing crates whole req base wire) (hreq : Utils.isRequestUpgrade req = false)
    {t : Task}     (hplace : x.up.place = .select) (hdone : x.up.responseDone = false) (hk : whole → LosesNothing crates .upRead x)
    (hcall : Upstream.readUpstreamResponse crates x.up.session = (.ok t, u)) :
    ({ x with up := ⟨u, t.isEnd, t.isEnd, .sending t⟩ } : Duplex).Bringing crates whole req base wire := by
  have hgiven : ({ x with up := ⟨u, t.isEnd, t.isEnd, .sending t⟩ } : Duplex).given = x.given ++ [t] := by
    unfold given
    rw [hplace]
    exact congrArg (· ++ [t]) (List.append_nil x.sent).symm
  have hreads : x.up.place.Reads := by
    rw [hplace]
    trivial
  have hbefore := hx.unfinished hreads hdone
  have hunread := Upstream.readUpstreamResponse_unread crates x.up.session
  rw [hcall] at hunread
  refine hx.up rfl rfl hx.queued hunread (fun _ hend hfin => ?_) fun o hf _ hs => ?_
  · rw [hgiven] at hfin
    rcases hfin.concat with hfin | ⟨ht, -⟩
    · exact hbefore hfin
    · exact Bool.false_ne_true (hend.symm.trans ht)
  obtain ⟨ha, hserving⟩ := hs hreads
  obtain ⟨ha', o', hfollow, hserving'⟩ := hserving.read ha hreq hdone hk hcall
  rw [hgiven, dataOf_concat, followAll_concat, hf]
  refine ⟨o', hfollow, hserving'.sound (dataOf_concat x.given t).symm fun front hfront hfin => ?_,
    fun _ => ⟨ha', hserving'⟩⟩
  -- no task before it ended the response
  rcases List.prefix_concat_iff.mp hfront with rfl | hfront
  · rcases hfin.concat with hfin | ⟨ht, -⟩
    · exact absurd hfin hbefore
    · exact ⟨rfl, Upstream.readUpstreamResponse_end hcall ht⟩
  · exact absurd (hfin.mono hfront) hbefore

theorem Bringing.up_step (hx : x.Bringing crates whole req base wire) (hreq : Utils.isRequestUpgrade req = false) {e : Event}
    (hk : whole → LosesNothing crates e x) (hm : UpMoves crates x e x') (hs : x'.stopped = none) :
    x'.Bringing crates whole req base wire := by
  have hsame : ∀ {place : UpAt}, x.up.place = place → place.holds = [] → ∀ {place' : UpAt}, place'.holds = [] →
      x.sent ++ place'.holds = x.given := by
    intro place hplace hnil place' hnil'
    unfold given
    rw [hplace, hnil, hnil']
  cases hm with
  | finish hplace => exact hx.up_same rfl rfl hx.queued List.suffix_rfl (hsame hplace rfl rfl) nofun
  | select hplace =>
    exact hx.up_same rfl rfl hx.queued List.suffix_rfl (hsame hplace rfl rfl) fun _ =>
      ⟨by rw [hplace]; trivial, rfl, fun o ha hserving => ⟨ha, hserving.congr rfl rfl rfl rfl⟩⟩
  | read t u hplace hdone hcall => exact hx.up_read hreq hplace hdone hk hcall
  | readFails e u hplace _ hcall =>
    have hunread := Upstream.readUpstreamResponse_unread crates x.up.session
    rw [hcall] at hunread
    exact hx.up_same rfl rfl hx.queued hunread (hsame hplace rfl rfl) nofun
  | readPanics => cases hs
  | sendClosed t hplace _ hcall =>
    obtain ⟨o, -, -, hserves⟩ := hx.follows
    obtain ⟨ha, -⟩ := hserves (by rw [hplace]; trivial)
    rw [Upstream.isRequestUpgrade_eq ha.request, hreq] at hcall
    cases hcall
  | sendStops => cases hs
  | send t hplace =>
    refine hx.up_same rfl rfl (by rw [hx.queued, List.append_assoc]) List.suffix_rfl ?_ fun _ =>
      ⟨by rw [hplace]; trivial, rfl, fun o ha hserving => ⟨ha, hserving.congr rfl rfl rfl rfl⟩⟩
    unfold given
    rw [hplace]
    exact List.append_nil _
  | failClosed e hplace => exact hx.up_same rfl rfl hx.queued List.suffix_rfl (hsame hplace rfl rfl) nofun
  | fail e hplace =>
    refine hx.up rfl rfl (by rw [hx.queued, List.append_assoc]) List.suffix_rfl nofun fun o hf hsound _ =>
      ⟨o, ?_, ?_, nofun⟩
    all_goals
      have hgiven : x.sent ++ [.failed e] ++ UpAt.returned.holds = x.given ++ [.failed e] := by
        unfold given
        rw [hplace]
        exact (List.append_nil _).trans (congrArg (· ++ [_]) (List.append_nil x.sent).symm)
    · show followAll ([], none) (x.sent ++ [.failed e] ++ UpAt.returned.holds) = some o
      rw [hgiven, followAll_concat, hf]
      exact follow_failed o e
    · show Sound crates whole req wire x.up.session.stream.bytes o (x.sent ++ [.failed e] ++ UpAt.returned.holds)
      rw [hgiven]
      exact hsound.failed e
  | write drop t ts u u' e hplace _ _ hdrop hcall =>
    have hreads : x.up.place.Reads := by
      rw [hplace]
      trivial
    obtain ⟨_, -, -, hserves⟩ := hx.follows
    obtain ⟨ha, hserving⟩ := hserves hreads
    obtain ⟨ha', -⟩ := hserving.dropped ha (by rintro hw k rfl; exact hk hw) hdrop
    obtain ⟨w, s, rfl, hin⟩ := Upstream.writeUpstreamRequest_ok ha'.upgrade hcall
    have hunread : s.bytes <:+ x.up.session.stream.bytes := by
      unfold Stream.bytes
      rw [hin]
      exact upDropped_unread hdrop
    refine hx.up_same rfl rfl hx.queued hunread (hsame hplace rfl rfl) fun _ => ⟨hreads, rfl, fun o ha hserving => ?_⟩
    obtain ⟨-, hserving'⟩ := hserving.dropped ha (by rintro hw k rfl; exact hk hw) hdrop
    exact ⟨⟨ha'.request, ha'.upgrade⟩, hserving'.congr rfl rfl rfl hin⟩
  | writeStops => cases hs
  | closed drop u hplace _ _ hdrop =>
    refine hx.up_same rfl rfl hx.queued (upDropped_unread hdrop) (hsame hplace rfl rfl) fun _ =>
      ⟨by rw [hplace]; trivial, rfl, fun o ha hserving => ?_⟩
    obtain ⟨ha', hserving'⟩ := hserving.dropped ha (by rintro hw k rfl; exact hk hw) hdrop
    exact ⟨ha', hserving'.congr rfl rfl rfl rfl⟩

theorem Bringing.step (hx : x.Bringing crates whole req base wire) (hreq : Utils.isRequestUpgrade req = false) {e : Event}
    (hk : whole → LosesNothing crates e x) (hstep : Duplex.step crates e x = some x') (hs : x'.stopped = none) :
    x'.Bringing crates whole req base wire := by
  rcases (step_moves hstep).2 with hd | hu
  · exact hx.down_step hreq hd hs
  · exact hx.up_step hreq hk hu hs

/-! ## Runs -/

theorem bringing_new {client server : Stream} {mc ms : Nat → Byte}
    (hopen : openExchange crates (.new client mc, .new server ms) = (.ok (), d, u)) (hh : d.requestHeader = some req) :
    (Duplex.new d u).Bringing crates whole req client.output server.bytes := by
  obtain ⟨hunanswered, hout⟩ := openExchange_unanswered hopen
  obtain ⟨req', s, -, -, -, hin, rfl⟩ := openExchange_server hopen
  obtain ⟨_, _, _, hready, -, hasked, -⟩ := openExchange_ok hopen
  obtain rfl : req' = req := Option.some.inj (hasked.trans (hready.head.symm.trans hh))
  have hbytes : s.bytes = server.bytes := by
    unfold Stream.bytes
    rw [hin]
  have hseek : Seeking crates whole [] server.bytes
      { Upstream.new server ms with
        bodyWriter := Upstream.selectWriter req' .new, requestHeader := some req', stream := s } :=
    ⟨rfl, rfl, ⟨rfl, rfl⟩, rfl, [], hbytes, .nil⟩
  have hnone : ¬ Finishes [] := fun ⟨_, ht, _⟩ => absurd ht List.not_mem_nil
  have hwire : OnWire crates req' client.output d ([], none) [] false :=
    .heads .nil (hout.trans (List.append_nil _).symm) hunanswered.not_sent hunanswered.writer hunanswered.gathered
  refine ⟨rfl, hbytes ▸ List.suffix_rfl, ⟨_, rfl, ⟨⟨_, hseek.unread, List.suffix_rfl⟩, nofun⟩, fun _ => ⟨⟨rfl, rfl⟩, .seeking hseek.unread fun _ => hseek⟩⟩,
    fun _ _ => hnone, ?_, hunanswered.gathered, _, false, rfl, hwire, nofun⟩
  exact ⟨hh, hunanswered.flag, hunanswered.update, hunanswered.upgrade⟩

/-- What fits in the bytes before `unread` is of the body they hold. -/
theorem bodyOf_front {h : ResponseHeader} {bs unread : Bytes} (hd : data <+: bodyOf req h (bs ++ unread))
    (hlen : data.length ≤ bs.length) : data <+: bodyOf req h bs := by
  have hbs : ∀ {x : Bytes}, x <+: bs ++ unread → x.length ≤ bs.length → x <+: bs := fun hx hle =>
    List.prefix_of_prefix_length_le hx (List.prefix_append ..) hle
  unfold bodyOf at hd ⊢
  generalize bodyLength req h = length at hd ⊢
  cases length with
  | none => exact hbs hd hlen
  | some length =>
    obtain ⟨hd, hle⟩ := List.prefix_take_iff.mp hd
    exact List.prefix_take_iff.mpr ⟨hbs hd hlen, hle⟩

/-- Past `base` the client has been sent heads that others follow, the first of those read
    off `answer`, and nothing more or the last head, behind all of them, and a front of the
    body that follows it in `answer`; all of that body, where the writer has counted it out.
    Where nothing was lost, only heads that others follow come before it in `answer`, and a
    chunked body, that may go on in `unread`, is cut into chunks anew. -/
def Brought (crates : Crates) (whole : Prop) (req : RequestHeader) (base answer unread : Bytes) (d : Downstream) :
    Prop :=
  ∃ ps front rest, d.stream.output = base ++ front ++ rest ∧ Downstream.Interim crates ps front ∧
    (∃ read rest, ps <+: read ∧ ReadUpTo crates whole read answer rest) ∧
    (rest = [] ∨ ∃ h shown body bs, rest = shown ++ body ∧ Downstream.ShownAs crates h shown ∧
      Upstream.isLast h = true ∧ Behind crates whole ps answer h bs ∧
      (Unchunked req h → body <+: bodyOf req h bs ∧
        ∀ length, bodyLength req h = some length → d.bodyWriter.finished = true →
          body = bodyOf req h bs ∧ body.length = length) ∧
      (¬ Unchunked req h → whole → bs.length < usizeEnd →
        ∀ B after, IsChunked crates.parseChunkSize (bs ++ unread) B after → ∃ pieces ended,
          BodyWriter.Chunking d.bodyWriter pieces body ended ∧ pieces.flatten <+: B.data ∧
            (ended = true → pieces.flatten = B.data)))

/-- The client is sent what was read of the server, and all that it did not leave unread. -/
theorem Bringing.brought (hx : x.Bringing crates whole req base wire) :
    ∃ answer, wire = answer ++ x.up.session.stream.bytes ∧
      Brought crates whole req base answer x.up.session.stream.bytes x.down.session := by
  obtain ⟨answer, hanswer⟩ := hx.unread
  refine ⟨answer, hanswer.symm, ?_⟩
  obtain ⟨o, hf, hsound, -⟩ := hx.follows
  obtain ⟨o', ended, hf', hwire, hend⟩ := hx.shown
  have hgiven : x.given = x.handed ++ (x.responses ++ x.up.place.holds) := by
    rw [hx.handed_front (List.append_nil _).symm, List.nil_append, List.append_assoc]
  rw [hgiven] at hf hsound
  rw [followAll_append, hf'] at hf
  have hfront : dataOf x.handed <+: dataOf (x.handed ++ (x.responses ++ x.up.place.holds)) := by
    rw [dataOf_append]
    exact List.prefix_append ..
  have hread : ∃ read rest, o'.1 <+: read ∧ ReadUpTo crates whole read answer rest := by
    obtain ⟨_, ⟨passed, hwire, hpassed⟩, rest, rfl⟩ := hsound.heads
    refine ⟨o.1, rest, followAll_heads hf, passed, ?_, hpassed⟩
    rw [← hanswer, ← List.append_assoc] at hwire
    exact List.append_cancel_right hwire
  generalize hdata : dataOf x.handed = data at hwire hfront
  cases hwire with
  | heads hheads hout => exact ⟨_, _, [], hout.trans (List.append_nil _).symm, hheads, hread, .inl rfl⟩
  | @body ps h heads shown written _ _ hheads hshown hlast hout hcount =>
    obtain rfl := followAll_last hf
    obtain ⟨_, ⟨text, ⟨passed, hwire, hpassed⟩, hans⟩, ⟨bs, rfl⟩, hplain, hchunks⟩ := hsound.body h rfl
    have hbehind : Behind crates whole ps answer h bs := by
      refine ⟨text, ⟨passed, ?_, hpassed⟩, hans⟩
      rw [← hanswer, ← List.append_assoc text, ← List.append_assoc] at hwire
      exact List.append_cancel_right hwire
    refine ⟨ps, heads, shown ++ written, ?_, hheads, hread, .inr ⟨h, shown, written, bs, rfl, hshown, hlast, hbehind,
      fun hc => ?_, fun hc hw hfits B after hB => ?_⟩⟩
    · rw [hout]
      simp only [List.append_assoc]
    · obtain ⟨hcounted, hsplit⟩ := hcount.plain hc
      rw [hx.gathered, List.append_nil] at hsplit
      obtain ⟨hof, htaken⟩ := hplain hc
      rw [List.length_append] at htaken
      have hlen := hfront.length_le
      have hbody : written <+: bodyOf req h bs := by
        rw [hsplit] at hfront hlen
        exact bodyOf_front (hfront.trans hof) (by omega)
      refine ⟨hbody, fun length hl hfin => ?_⟩
      have hle := Upstream.bodyOf_le hl bs
      have hall : length ≤ written.length := hcounted.finished hfin hl
      have hlen := hbody.length_le
      exact ⟨hbody.eq_of_length (by omega), by omega⟩
    · obtain ⟨pieces, hw', hsplit⟩ := hcount.chunked hc
      rw [hx.gathered, List.append_nil] at hsplit
      obtain ⟨hbody, hall⟩ := hchunks hc hw (by rw [List.length_append]; omega) B after hB
      refine ⟨pieces, ended, hw', hsplit ▸ hfront.trans hbody, fun he => ?_⟩
      rw [← hsplit, ← hdata]
      exact hall x.handed (List.prefix_append ..) (hend he).2

theorem bringing_run {client server : Stream} {mc ms : Nat → Byte}
    (hopen : openExchange crates (.new client mc, .new server ms) = (.ok (), d, u)) (hh : d.requestHeader = some req)
    (hreq : Utils.isRequestUpgrade req = false) {evs : List Event}
    (hrun : Run (Duplex.step crates) (fun _ _ => True) (Duplex.new d u) evs x) (hs : x.stopped = none) :
    x.Bringing crates (Run (Duplex.step crates) (LosesNothing crates) (Duplex.new d u) evs x) req client.output
      server.bytes := by
  generalize hwhole : Run (Duplex.step crates) (LosesNothing crates) (Duplex.new d u) evs x = whole
  have hrun' : Run (Duplex.step crates) (fun e x => whole → LosesNothing crates e x) (Duplex.new d u) evs x := by
    subst hwhole
    by_cases hw : Run (Duplex.step crates) (LosesNothing crates) (Duplex.new d u) evs x
    · exact hw.imp (fun _ _ _ _ _ => trivial) (fun _ _ _ _ _ hp _ => hp) trivial
    · exact hrun.imp (fun _ _ _ _ _ => trivial) (fun _ _ _ _ _ _ h => absurd h hw) trivial
  exact run_unstopped (fun _ _ _ hi hk => hi.step hreq hk) (bringing_new hopen hh) hrun' hs

/-- In a run in which no loop fails, the client is sent heads and a front of the body as
    the server sent them, and of what the session has read of it. -/
theorem download_exact (crates : Crates) (client server : Stream) (mc ms : Nat → Byte) (d : Downstream) (u : Upstream)
    (hopen : openExchange crates (.new client mc, .new server ms) = (.ok (), d, u)) (req : RequestHeader)
    (hh : d.requestHeader = some req) (hreq : Utils.isRequestUpgrade req = false) (evs : List Event) (x : Duplex)
    (hrun : Run (Duplex.step crates) (fun _ _ => True) (Duplex.new d u) evs x) (hs : x.stopped = none) :
    ∃ answer, server.bytes = answer ++ x.up.session.stream.bytes ∧
      Brought crates (Run (Duplex.step crates) (LosesNothing crates) (Duplex.new d u) evs x) req client.output answer
        x.up.session.stream.bytes x.down.session :=
  (bringing_run hopen hh hreq hrun hs).brought

end Duplex

def threeHead : Bytes × ResponseParts :=
  (ascii "HTTP/1.1 200 OK\r\nContent-Length: 3\r\n\r\n",
    ⟨200, 1, some (ascii "OK"), [⟨ascii "Content-Length", ascii "3", contentLength_token⟩]⟩)

def threeCrates : Crates := .ofTables [getBytes] [threeHead]

/-- A server that sends two bytes of three with the head, and two more behind it. -/
def threeExchange : Out Unit × Sessions :=
  openExchange threeCrates
    (.new ⟨[.data getBytes.1], [], []⟩ (fun _ => 0),
      .new ⟨[.data (threeHead.1 ++ ascii "ab"), .data (ascii "cd")], [], []⟩ (fun _ => 0))

/-- The head and the first bytes are written in one batch. -/
def threeEvents : List Event :=
  [.downStart, .downTurn, .upTurn, .upRead, .upSend, .upTurn, .upRead, .upSend, .upTurn, .upRead, .upSend,
    .downWrite none 1, .downTurn, .downWrite none 0]

theorem three_alone (u : Upstream) : Upstream.HeadAlone threeCrates u := by
  intro buf size parts rest h hread hb hlast
  obtain ⟨e, hmem, rfl⟩ := parseTable_mem (readHead_some hread).1
  obtain rfl := List.mem_singleton.mp hmem
  cases hb
  cases hlast

/-- Three bytes of four are the body. -/
theorem download_exact_three :
    threeExchange.1 = .ok () ∧ ∃ x, Run (Duplex.step threeCrates) (Duplex.LosesNothing threeCrates)
        (.new threeExchange.2.1 threeExchange.2.2) threeEvents x ∧
      x.down.session.bodyWriter.finished = true ∧ ascii "abc" <:+ x.down.session.stream.output ∧
      ∃ answer, threeHead.1 ++ ascii "ab" ++ ascii "cd" = answer ++ x.up.session.stream.bytes ∧
        Duplex.Brought threeCrates (Run (Duplex.step threeCrates) (Duplex.LosesNothing threeCrates)
            (.new threeExchange.2.1 threeExchange.2.2) threeEvents x)
          (Downstream.requestHeaderOf getBytes.2) [] answer x.up.session.stream.bytes x.down.session := by
  -- the memory the readers take is large: the run is evaluated once
  have hall : (stepAll (Duplex.step threeCrates) (fun _ _ => True) threeEvents
      (.new threeExchange.2.1 threeExchange.2.2)).map (fun x => (x.stopped, x.down.session.bodyWriter.finished,
        decide (ascii "abc" <:+ x.down.session.stream.output))) = some (none, true, true) := by decide +kernel
  obtain ⟨x, hx, hend⟩ := Option.map_eq_some_iff.mp hall
  simp only [Prod.mk.injEq, decide_eq_true_eq] at hend
  obtain ⟨hs, hfin, hout⟩ := hend
  have hrun := run_of_stepAll hx
  have hloses := hrun.of_events (Q := Duplex.LosesNothing threeCrates) fun e he x => by
    simp only [threeEvents, List.mem_cons, List.not_mem_nil, or_false] at he
    have halone : Duplex.LosesNothing threeCrates .upRead x := fun _ => three_alone x.up.session
    rcases he with rfl | rfl | rfl | rfl | rfl | rfl | rfl | rfl | rfl | rfl | rfl | rfl | rfl | rfl <;>
      first | exact halone | trivial
  exact ⟨by decide, x, hloses, hfin, hout,
    Duplex.download_exact threeCrates _ _ _ _ _ _ (Prod.ext (by decide) rfl) _ rfl (by decide) _ _ hrun hs⟩

end Glaive.Service
