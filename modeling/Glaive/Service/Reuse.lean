/-
  Glaive.Service.Reuse — one connection to a server under one exchange after the other
  (`core/src/service/service.rs`: `handle_connection`; `proxy/duplex.rs`: `handle_process`).

  An exchange that ends with `Ok(stream)` returns its connection, and the next one is
  opened on it as it was left (`Reuses`). Each has a stretch of what the server sends to
  itself (`Own`): the stretches follow one another, its client is shown nothing of the
  others, and what it writes comes behind what the ones before it wrote.

    · `reuse_apart`: over any number of exchanges, whatever their loops did.
    · `reuse_matched`: where the loops kept to the ends of the messages and the server
      answers each request with one response, the stretch of an exchange is the response
      to its own request, and its client is shown heads and body of that (`Shows`).
-/

import Glaive.Service.Download
import Glaive.Service.ReturnedStream
import Glaive.Service.Upload
import Glaive.Session.ResponseCut

namespace Glaive.Service

open Glaive.Lib
open Glaive.Lib.Message (Framing)
open Glaive.Session

/-- An exchange on the connection `server`, the events of its loops, and where they end. -/
structure Turn where
  client : Stream
  server : Stream
  clientMemory : Nat → Byte
  serverMemory : Nat → Byte
  request : RequestHeader
  events : List Event
  last : Duplex

namespace Turn

variable (crates : Crates) (t : Turn)

def opened : Out Unit × Sessions :=
  openExchange crates (.new t.client t.clientMemory, .new t.server t.serverMemory)

def start : Duplex := .new (t.opened crates).2.1 (t.opened crates).2.2

/-- The connection as it is returned. -/
def returned : Stream := t.last.up.session.stream

/-- `handle_process` came to `Ok(stream)`. -/
structure Served : Prop where
  opened : (t.opened crates).1 = .ok ()
  request : (t.opened crates).2.1.requestHeader = some t.request
  upgrade : Utils.isRequestUpgrade t.request = false
  run : Run (Duplex.step crates) (fun _ _ => True) (t.start crates) t.events t.last
  ok : t.last.isOk = true

/-- The loops kept to the ends of the messages. -/
def Keeps : Prop :=
  Run (Duplex.step crates) (Duplex.KeepsBoundary crates t.request) (t.start crates) t.events t.last

/-- Of what the server sends, `answer` was the exchange's, and its client was shown nothing
    else. The server was sent the head and a front of the client's body. Where the loops kept
    to the ends of the messages, both messages are whole. -/
structure Own (answer : Bytes) : Prop where
  taken : t.server.bytes = answer ++ t.returned.bytes
  brought : Duplex.Brought crates
    (Run (Duplex.step crates) (Duplex.LosesNothing crates) (t.start crates) t.events t.last) t.request
    t.client.output answer t.returned.bytes t.last.down.session
  sent : Plain t.request → ∀ preread, (Downstream.bodyBytes (t.opened crates).2.1).1 = .ok preread →
    ∃ head body, t.request.buildToBuffer = some head ∧ t.returned.output = t.server.output ++ head ++ body ∧
      body <+: announced t.request (preread ++ (t.opened crates).2.1.stream.bytes)
  whole : Chunked.Local crates.parseChunkSize → t.Keeps crates →
    Run (Duplex.step crates) (Duplex.LosesNothing crates) (t.start crates) t.events t.last ∧
      Upstream.WholeResponse crates t.request answer ∧
      ∃ head body f, t.request.buildToBuffer = some head ∧ t.returned.output = t.server.output ++ head ++ body ∧
        Message.framing t.request.fields.forwarded = some f ∧ WholeRequestBody f body

/-- Past what was on it, the client's wire has heads that others follow, the first of those
    that `response` has, and then nothing or, behind all of them, its last head and a front
    of its body; all of the body, where the session's writer has counted it out. A chunked
    body is cut into chunks anew. -/
def Shows (response : Bytes) : Prop :=
  ∃ ps front rest, t.last.down.session.stream.output = t.client.output ++ front ++ rest ∧
    Downstream.Interim crates ps front ∧
    (∃ read after, ps <+: read ∧ Upstream.ReadUpTo crates True read response after) ∧
    (rest = [] ∨ ∃ text h body f shown sent, Upstream.ReadUpTo crates True ps response (text ++ body) ∧
      Upstream.IsAnswer crates text h ∧ Upstream.isLast h = true ∧ Upstream.framingOf t.request h = some f ∧
      Upstream.WholeResponseBody crates f body ∧ rest = shown ++ sent ∧ Downstream.ShownAs crates h shown ∧
      (Upstream.Unchunked t.request h → sent <+: Upstream.bodyOf t.request h body ∧
        ∀ length, Upstream.bodyLength t.request h = some length → t.last.down.session.bodyWriter.finished = true →
          sent = Upstream.bodyOf t.request h body) ∧
      (¬ Upstream.Unchunked t.request h → body.length < usizeEnd →
        ∀ B after, IsChunked crates.parseChunkSize (body ++ t.returned.bytes) B after → ∃ pieces ended,
          BodyWriter.Chunking t.last.down.session.bodyWriter pieces sent ended ∧ pieces.flatten <+: B.data ∧
            (ended = true → pieces.flatten = B.data)))

end Turn

variable {crates : Crates}

/-- A head that is not the last comes with nothing behind it, where a read keeps to the
    ends of the messages. -/
theorem Duplex.KeepsBoundary.losesNothing {req : RequestHeader} {e : Event} {x : Duplex}
    (h : KeepsBoundary crates req e x) : LosesNothing crates e x := by
  cases e with
  | upRead =>
    intro hs buf size parts rest hd hread hb hlast
    have hon : Upstream.ReadsOn crates req x.up.session := h
    rw [Upstream.ReadsOn, if_pos hs] at hon
    cases hon _ _ _ _ _ hread hb with
    | interim _ _ _ hsur => exact hsur
    | final f hst =>
      simp only [Upstream.isLast, ResponseHeader.isInformational, Bool.or_eq_false_iff, Bool.not_eq_false',
        Bool.and_eq_true, decide_eq_true_eq] at hlast
      omega
  | upWrite drop =>
    cases drop with
    | none => trivial
    | some k => exact h.1 k rfl
  | upClosed drop =>
    cases drop with
    | none => trivial
    | some k => exact h k rfl
  | _ => trivial

variable {t : Turn}

theorem Turn.Served.openExchange_eq (h : t.Served crates) :
    openExchange crates (.new t.client t.clientMemory, .new t.server t.serverMemory) =
      (.ok (), (t.opened crates).2.1, (t.opened crates).2.2) := Prod.ext h.opened rfl

theorem Turn.Served.over (h : t.Served crates) : t.last.stopped = none ∧ t.last.up.place = .returned := by
  have hok := h.ok
  unfold Duplex.isOk at hok
  simp only [Bool.and_eq_true, Option.isNone_iff_eq_none] at hok
  refine ⟨hok.1.1, ?_⟩
  cases hp : t.last.up.place with
  | returned => rfl
  | _ => rw [hp] at hok; cases hok.2

/-- The connection comes back clean, where the loops kept to the ends of the messages. -/
theorem Turn.Served.clean (hc : Chunked.Local crates.parseChunkSize) (h : t.Served crates) (hkeep : t.Keeps crates) :
    ∃ head, t.request.buildToBuffer = some head ∧
      Clean crates t.request (t.server.output ++ head) t.server.bytes t.returned := by
  obtain ⟨hs, hreturned⟩ := h.over
  obtain ⟨req, s, head, hbuild, hout, hin, hu⟩ := openExchange_server h.openExchange_eq
  obtain ⟨req', _, _, hready, -, hasked, -⟩ := openExchange_ok h.openExchange_eq
  obtain rfl : req' = t.request := Option.some.inj (hready.head.symm.trans h.request)
  obtain rfl : req = t.request := by
    rw [hu] at hasked
    exact Option.some.inj hasked
  have hnew : Duplex.Tidy crates t.request (t.server.output ++ head) t.server.bytes (t.start crates) := by
    unfold Turn.start
    rw [hu]
    exact Duplex.tidy_new _ hout hin
  have htidy := Duplex.run_unstopped (fun _ _ _ hi hb hstep => hi.step hc hb hstep) hnew hkeep hs
  exact ⟨head, hbuild, htidy.returned hreturned⟩

theorem Turn.Served.own (h : t.Served crates) : ∃ answer, t.Own crates answer := by
  have hopen := h.openExchange_eq
  obtain ⟨hs, -⟩ := h.over
  obtain ⟨answer, htaken, hbrought⟩ := (Duplex.bringing_run hopen h.request h.upgrade h.run hs).brought
  refine ⟨answer, htaken, hbrought, fun hp preread hpre => ?_, fun hc hkeep => ⟨?_, ?_⟩⟩
  · obtain ⟨head, hbuild, hnew⟩ := Duplex.uploading_new hopen h.request hp hpre
    obtain ⟨written, ended, rest, hx⟩ := Duplex.run_unstopped (fun _ _ _ hi _ => hi.step hp) hnew h.run hs
    exact ⟨head, written, hbuild, hx.output, hx.announced⟩
  · exact hkeep.imp (fun _ _ _ _ _ => trivial) (fun _ _ _ _ _ hp => hp.losesNothing) trivial
  · obtain ⟨head, hbuild, hclean⟩ := h.clean hc hkeep
    obtain ⟨body, f, hbody, hf, hwhole⟩ := hclean.request
    obtain ⟨answer', hanswer, hresp⟩ := hclean.response
    obtain rfl : answer' = answer := List.append_cancel_right (hanswer.symm.trans htaken)
    exact ⟨hresp, head, body, f, hbuild, hbody, hf, hwhole⟩

/-- `ts` are served on one connection, which is `s` before them and `s'` after. -/
inductive Reuses (crates : Crates) : Stream → List Turn → Stream → Prop
  | nil (s : Stream) : Reuses crates s [] s
  | cons {s' : Stream} {t : Turn} {ts : List Turn} : t.Served crates → Reuses crates t.returned ts s' →
      Reuses crates t.server (t :: ts) s'

/-- What the client is shown is of the response that the exchange read. -/
theorem Turn.Own.shows (hl : HeadLocal crates.parseResponse) (hc : Chunked.Local crates.parseChunkSize)
    {response : Bytes} (h : t.Own crates response) (hkeep : t.Keeps crates) : t.Shows crates response := by
  obtain ⟨hlossless, hwhole, -⟩ := h.whole hc hkeep
  obtain ⟨ps, front, rest, hout, hinterim, ⟨read, after, hps, hread⟩, hrest⟩ := h.brought
  refine ⟨ps, front, rest, hout, hinterim, ⟨read, after, hps, hread.imp fun _ => hlossless⟩, ?_⟩
  rcases hrest with hnil | ⟨hd, shown, body, bs, hsplit, hshown, hlast, ⟨text, hbehind, ha⟩, hplain, hchunks⟩
  · exact .inl hnil
  have hlast' : hd.isInformational = true → hd.status = 101 := by
    intro hinf
    simpa [Upstream.isLast, hinf] using hlast
  obtain ⟨passed, hall, hpassed⟩ := hbehind
  obtain ⟨f, hf, hbody⟩ := hwhole.at_last hl (hpassed.interims hlossless) ha hlast' hall
  refine .inr ⟨text, hd, bs, f, shown, body, ⟨passed, hall, hpassed.imp fun _ => hlossless⟩, ha, hlast, hf, hbody,
    hsplit, hshown, fun hun => ?_, fun hun hfits => hchunks hun hlossless hfits⟩
  obtain ⟨hfront, hcounted⟩ := hplain hun
  exact ⟨hfront, fun length hlen hfin => (hcounted length hlen hfin).1⟩

theorem Reuses.apart {s s' : Stream} {ts : List Turn} (h : Reuses crates s ts s') :
    ∃ answers, s.bytes = answers.flatten ++ s'.bytes ∧ List.Forall₂ (Turn.Own crates) ts answers := by
  induction h with
  | nil s => exact ⟨[], rfl, .nil⟩
  | cons hserved _ ih =>
    obtain ⟨answer, hown⟩ := hserved.own
    obtain ⟨answers, hbytes, hall⟩ := ih
    refine ⟨answer :: answers, ?_, .cons hown hall⟩
    rw [hown.taken, hbytes, List.flatten_cons, List.append_assoc]

/-- What the server sends is cut into stretches, one after the other, and each exchange
    has its own. -/
theorem reuse_apart (crates : Crates) (s s' : Stream) (ts : List Turn) (h : Reuses crates s ts s') :
    ∃ answers, s.bytes = answers.flatten ++ s'.bytes ∧ List.Forall₂ (Turn.Own crates) ts answers := h.apart

theorem own_whole (hc : Chunked.Local crates.parseChunkSize) {ts : List Turn} {answers : List Bytes}
    (hall : List.Forall₂ (Turn.Own crates) ts answers) (hkeep : ∀ t ∈ ts, t.Keeps crates) :
    List.Forall₂ (fun t answer => Upstream.WholeResponse crates t.request answer) ts answers := by
  induction hall with
  | nil => exact .nil
  | cons hown _ ih =>
    exact .cons (hown.whole hc (hkeep _ List.mem_cons_self)).2.1 (ih fun t ht => hkeep t (List.mem_cons_of_mem _ ht))

/-- The responses of the server and the stretches of the exchanges are the same. -/
theorem reuse_matched (crates : Crates) (hc : Chunked.Local crates.parseChunkSize) (hl : HeadLocal crates.parseResponse)
    (s s' : Stream) (ts : List Turn) (h : Reuses crates s ts s') (hkeep : ∀ t ∈ ts, t.Keeps crates)
    (responses : List Bytes) (rest : Bytes) (hsent : s.bytes = responses.flatten ++ rest)
    (hresp : List.Forall₂ (fun t response => Upstream.WholeResponse crates t.request response) ts responses) :
    List.Forall₂ (fun t response => t.Own crates response ∧ t.Shows crates response) ts responses ∧
      s'.bytes = rest := by
  obtain ⟨answers, hbytes, hall⟩ := h.apart
  have hfree : ∀ t : Turn, PrefixFree (Upstream.WholeResponse crates t.request) := fun t =>
    Upstream.wholeResponse_prefixFree hl hc t.request
  obtain ⟨rfl, hrest⟩ := PrefixFree.forall₂_unique hfree (own_whole hc hall hkeep) hresp (hbytes.symm.trans hsent)
  refine ⟨?_, hrest⟩
  have hboth := (List.forall₂_and_left ts _).mpr ⟨hkeep, hall⟩
  exact hboth.imp fun t response h => ⟨h.2, h.2.shows hl hc h.1⟩

/-! ## Two exchanges -/

def twoCrates : Crates :=
  .ofTables [postHead lengthFive, postHead lengthThree] [answerHead lengthThree, answerHead lengthFive]

/-- A client that sends `front` of its body with the head, and `rest` behind it. -/
def bodiedClient (length : Field) (front rest : Bytes) : Stream :=
  ⟨[.data ((postHead length).1 ++ front), .data rest], [], []⟩

def bodiedTurn (length : Field) (front rest : Bytes) (server : Stream) (last : Duplex) : Turn where
  client := bodiedClient length front rest
  server := server
  clientMemory _ := 0
  serverMemory _ := 0
  request := Downstream.requestHeaderOf (postHead length).2
  events := bodiedEvents
  last := last

/-- Its answer is taken off the connection, and no more. -/
theorem bodiedTurn_served (length : Field) (front rest : Bytes) (server returned : Stream)
    {opened : Out Unit × Sessions}
    (hopened : openExchange twoCrates (.new (bodiedClient length front rest) fun _ => 0, .new server fun _ => 0) = opened)
    (hopen : opened.1 = .ok ())
    (hreq : opened.2.1.requestHeader = some (Downstream.requestHeaderOf (postHead length).2))
    (hup : Utils.isRequestUpgrade (Downstream.requestHeaderOf (postHead length).2) = false)
    (hend : (stepAll (Duplex.step twoCrates)
        (fun e x => keepsPlainly twoCrates (Downstream.requestHeaderOf (postHead length).2) e x = true) bodiedEvents
        (.new opened.2.1 opened.2.2)).map (fun x => (x.isOk, x.up.session.stream)) = some (true, returned)) :
    ∃ x, (bodiedTurn length front rest server x).Served twoCrates ∧ (bodiedTurn length front rest server x).Keeps twoCrates ∧
      (bodiedTurn length front rest server x).returned = returned := by
  subst hopened
  obtain ⟨x, hx, hpair⟩ := Option.map_eq_some_iff.mp hend
  obtain ⟨hok, hreturned⟩ := Prod.mk.inj hpair
  have hrun := run_of_stepAll hx
  refine ⟨x, ⟨hopen, hreq, hup, ?_, hok⟩, ?_, hreturned⟩
  · exact hrun.imp (I := fun _ => True) (fun _ _ _ _ _ => trivial) (fun _ _ _ _ _ _ => trivial) trivial
  · exact hrun.imp (I := fun _ => True) (fun _ _ _ _ _ => trivial) (fun _ _ _ _ _ h => keepsBoundary_plainly h) trivial

/-- The server sends two answers, of three and of five bytes. -/
def twoAnswers : Stream :=
  ⟨[.data (answerHead lengthThree).1, .data (ascii "xyz"), .data (answerHead lengthFive).1, .data (ascii "12345")], [], []⟩

def oneAnswer : Stream :=
  ⟨[.data (answerHead lengthFive).1, .data (ascii "12345")], (postHead lengthFive).1 ++ ascii "abcde", []⟩

def noAnswer : Stream :=
  ⟨[], (postHead lengthFive).1 ++ ascii "abcde" ++ ((postHead lengthThree).1 ++ ascii "uvw"), []⟩

def firstTurn : Duplex → Turn := bodiedTurn lengthFive (ascii "ab") (ascii "cde") twoAnswers

def secondTurn : Duplex → Turn := bodiedTurn lengthThree (ascii "u") (ascii "vw") oneAnswer

theorem two_reuses : ∃ x y, Reuses twoCrates twoAnswers [firstTurn x, secondTurn y] noAnswer ∧
    (firstTurn x).Keeps twoCrates ∧ (secondTurn y).Keeps twoCrates := by
  -- the memory the readers take is large: each run is evaluated once
  obtain ⟨x, hx, hkeep, hreturned⟩ := bodiedTurn_served lengthFive (ascii "ab") (ascii "cde") twoAnswers oneAnswer
    rfl (by decide) rfl (by decide) (by decide +kernel)
  obtain ⟨y, hy, hkeep', hlast⟩ := bodiedTurn_served lengthThree (ascii "u") (ascii "vw") oneAnswer noAnswer
    rfl (by decide) rfl (by decide) (by decide +kernel)
  have hrest : Reuses twoCrates (firstTurn x).returned [secondTurn y] noAnswer := by
    rw [show (firstTurn x).returned = oneAnswer from hreturned, ← hlast]
    exact .cons hy (.nil _)
  exact ⟨x, y, .cons hx hrest, hkeep, hkeep'⟩

/-- A head that announces as much as follows it. -/
theorem wholeResponse_length {request : RequestHeader} {h : ResponseHeader} {text body : Bytes}
    (hanswer : Upstream.IsAnswer twoCrates text h) (hst : 200 ≤ h.status) (hclose : ¬ Upstream.CarriesClose h)
    (hf : Upstream.framingOf request h = some (.length body.length)) :
    Upstream.WholeResponse twoCrates request (text ++ body) :=
  ⟨[] ++ text, body, .length body.length, .mk .nil hanswer hst hclose hf, rfl, rfl⟩

theorem first_whole : Upstream.WholeResponse twoCrates (Downstream.requestHeaderOf (postHead lengthFive).2)
    ((answerHead lengthThree).1 ++ ascii "xyz") :=
  wholeResponse_length ⟨[], (answerHead lengthThree).2, by decide, rfl⟩ (by decide)
    (by unfold Upstream.CarriesClose; decide) (by decide)

theorem second_whole : Upstream.WholeResponse twoCrates (Downstream.requestHeaderOf (postHead lengthThree).2)
    ((answerHead lengthFive).1 ++ ascii "12345") :=
  wholeResponse_length ⟨[], (answerHead lengthFive).2, by decide, rfl⟩ (by decide)
    (by unfold Upstream.CarriesClose; decide) (by decide)

/-- Each exchange has its own of two answers. -/
theorem reuse_apart_two :
    ∃ x y, Reuses twoCrates twoAnswers [firstTurn x, secondTurn y] noAnswer ∧
      ∃ answers, twoAnswers.bytes = answers.flatten ++ noAnswer.bytes ∧
        List.Forall₂ (Turn.Own twoCrates) [firstTurn x, secondTurn y] answers := by
  obtain ⟨x, y, hall, -⟩ := two_reuses
  exact ⟨x, y, hall, reuse_apart twoCrates _ _ _ hall⟩

/-- And the answer to its own request. -/
theorem reuse_matched_two :
    ∃ x y, Reuses twoCrates twoAnswers [firstTurn x, secondTurn y] noAnswer ∧
      List.Forall₂ (fun t response => t.Own twoCrates response ∧ t.Shows twoCrates response) [firstTurn x, secondTurn y]
        [(answerHead lengthThree).1 ++ ascii "xyz", (answerHead lengthFive).1 ++ ascii "12345"] := by
  obtain ⟨x, y, hall, hx, hy⟩ := two_reuses
  have hkeep : ∀ t ∈ [firstTurn x, secondTurn y], t.Keeps twoCrates := by
    intro t ht
    simp only [List.mem_cons, List.not_mem_nil, or_false] at ht
    rcases ht with rfl | rfl
    · exact hx
    · exact hy
  exact ⟨x, y, hall, (reuse_matched twoCrates Chunked.parseSizeLine_local (parseTable_local (by decide)) _ _ _ hall hkeep
    [(answerHead lengthThree).1 ++ ascii "xyz", (answerHead lengthFive).1 ++ ascii "12345"] [] (by decide)
    (.cons first_whole (.cons second_whole .nil))).1⟩

end Glaive.Service
