/-
  Glaive.Service.ChannelDeadlock — both loops waiting to send to each other.

  A task read from the client goes into the slot its turn reserved. A failure of that
  read is sent past the slot, still held, and waits when the other 31 are taken; if
  `handle_upstream` waits on a full response channel then, neither goes on.

  - `never_deadlocked`: with a task fewer queued whenever a read of the client fails,
    no state is reached in which both wait.
  - `deadlock`: a client that sends 31 pieces of a body and breaks, and a server that
    sends 33 heads.
-/

import Glaive.Service.RequestChannel
import Glaive.Session.InterimHeads

namespace Glaive.Service

open Glaive.Lib
open Glaive.Session

variable {crates : Crates}

namespace Duplex

/-- `handle_downstream` is at a send on the request channel and cannot go on. -/
def DownBlocked (x : Duplex) : Prop :=
  (∃ e, x.down.place = .failing e) ∧ x.downFail = none ∨ x.down.place = .start ∧ x.downStart = none

/-- `handle_upstream` is at a send on the response channel and cannot go on. -/
def UpBlocked (x : Duplex) : Prop :=
  (∃ t, x.up.place = .sending t) ∧ x.upSend = none ∨ (∃ e, x.up.place = .failing e) ∧ x.upFail = none

/-- When a read of the client fails, the request channel has a slot besides the turn's. -/
def RoomToFail (crates : Crates) (e : Event) (x : Duplex) : Prop :=
  e = .downRead → (Downstream.readDownstreamRequest crates x.down.session).1.isErr = true →
    x.requests.length + 1 < channelSize

instance (e : Event) (x : Duplex) : Decidable (RoomToFail crates e x) := inferInstanceAs (Decidable (_ → _ → _))

structure HasRoom (x : Duplex) : Prop where
  failing : ∀ e, x.down.place = .failing e → x.requests.length + 1 < channelSize
  start : x.down.place = .start → x.requests = []

variable {x x' : Duplex}

theorem hasRoom_of_place (h1 : ∀ e, x.down.place ≠ .failing e) (h2 : x.down.place ≠ .start) : x.HasRoom :=
  ⟨fun e h => absurd h (h1 e), fun h => absurd h h2⟩

theorem HasRoom.step (hx : x.HasRoom) {e : Event} (hp : RoomToFail crates e x) (h : Duplex.step crates e x = some x') :
    x'.HasRoom := by
  rcases (step_moves h).2 with hd | hu
  · cases hd with
    | beginClosed => exact ⟨hx.failing, hx.start⟩
    | readFails err d hplace hreq hread =>
      have := hp rfl (by rw [hread]; rfl)
      exact ⟨fun _ _ => this, fun h => by cases h⟩
    | readPanics => exact ⟨hx.failing, hx.start⟩
    | writeStops => exact ⟨hx.failing, hx.start⟩
    | _ => exact hasRoom_of_place (by simp) (by simp)
  · cases hu with
    | write drop t rest u u' e hplace hreq =>
      refine ⟨fun e he => ?_, fun hs => ?_⟩
      · have := hx.failing e he
        rw [hreq, List.length_cons] at this
        show rest.length + 1 < channelSize
        omega
      · exact absurd (hreq.symm.trans (hx.start hs)) (by simp)
    | writeStops drop t rest u o hreq =>
      refine ⟨fun e he => ?_, fun hs => ?_⟩
      · have := hx.failing e he
        rw [hreq, List.length_cons] at this
        show rest.length + 1 < channelSize
        omega
      · exact absurd (hreq.symm.trans (hx.start hs)) (by simp)
    | _ => exact ⟨hx.failing, hx.start⟩

theorem HasRoom.not_blocked (hx : x.HasRoom) : ¬ x.DownBlocked := by
  intro h
  rcases h with ⟨⟨e, hp⟩, hn⟩ | ⟨hp, hn⟩
  · unfold downFail at hn
    simp only [hp, if_pos (hx.failing e hp)] at hn
    split at hn <;> cases hn
  · unfold downStart at hn
    simp only [hp, hx.start hp] at hn
    split at hn
    · cases hn
    · simp only [List.length_nil, channelSize, Nat.zero_lt_succ, if_true] at hn
      split at hn <;> cases hn

/-- No deadlock while a failed read of the client finds a slot to send its failure in. -/
theorem never_deadlocked (crates : Crates) (d : Downstream) (u : Upstream) (evs : List Event) (x : Duplex)
    (h : Run (Duplex.step crates) (RoomToFail crates) (.new d u) evs x) : ¬ (x.DownBlocked ∧ x.UpBlocked) := by
  have hx : x.HasRoom := h.invariant (fun _ _ _ hi hp hs => hi.step hp hs) ⟨nofun, fun _ => rfl⟩
  exact fun hb => hx.not_blocked hb.1

theorem never_deadlocked_failsEarly :
    ∃ x, Run (Duplex.step getCrates) (RoomToFail getCrates) (closedDuplex []) failsEarly x ∧
      ¬ (x.DownBlocked ∧ x.UpBlocked) := by
  have h := run_get (Duplex.step getCrates) (RoomToFail getCrates) failsEarly (closedDuplex []) (by decide)
  exact ⟨_, h, never_deadlocked getCrates _ _ failsEarly _ h⟩

/-! ## Filling the channels -/

/-- A client's session inside a body of known length, with `left` to be read. -/
structure Uploading (d : Downstream) (left : List ReadEv) : Prop where
  input : d.stream.input = left
  reader : ∃ read toRead buf, d.bodyReader.readState = .partially read toRead ∧ d.bodyReader.bodyBuffer = some buf ∧
    0 < buf.length ∧ left.length < toRead ∧ read + toRead < usizeEnd
  rewound : d.bodyReader.rewindBufSize = 0

theorem Uploading.reading {d : Downstream} {left : List ReadEv} (hd : Uploading d left) :
    d.bodyReader.isStart = false ∧ d.bodyReader.isFinished = false := by
  obtain ⟨read, toRead, buf, hst, -⟩ := hd.reader
  simp [BodyReader.isStart, BodyReader.isFinished, hst]

/-- A byte of the body is a body task, not the last. -/
theorem Uploading.byte (crates : Crates) {d : Downstream} {b : Byte} {left : List ReadEv} (hd : Uploading d (.data [b] :: left)) :
    ∃ d', Downstream.readDownstreamRequest crates d = (.ok (.body (some [b]) false), d') ∧ Uploading d' left := by
  obtain ⟨read, toRead, buf, hst, hbuf, hpos, hlt, hsum⟩ := hd.reader
  rw [List.length_cons] at hlt
  have hstream : d.stream.read buf.length = (.ok [b], { d.stream with input := left }) := by
    unfold Stream.read
    rw [hd.input]
    exact if_pos hpos
  have hfill := BodyReader.fill_read hbuf hd.rewound hstream
  have hoff : Offset.new 0 1 = some ⟨0, 1⟩ := rfl
  have hread : BodyReader.readBody crates.parseChunkSize (d.bodyReader, d.stream) = (.ok (some ⟨0, 1⟩),
      { d.bodyReader with rewindBufSize := 0, bodyBuffer := some (overwrite buf 0 [b]),
                          readState := .partially (read + 1) (toRead - 1) }, { d.stream with input := left }) := by
    unfold BodyReader.readBody BodyReader.readPartially
    simp only [hst]
    rw [hfill]
    simp only [BodyReader.takePartially, hst, List.length_singleton, BodyReader.give]
    rw [if_neg (by simp), if_neg (by omega), uadd_of_lt (by omega), hoff]
    rfl
  obtain ⟨hs, hf⟩ := hd.reading
  refine ⟨_, Downstream.readDownstreamRequest_slice hs hf hread (x := [b]) ?_ rfl, rfl, ?_, rfl⟩
  · have hslice : slice 0 [b].length (overwrite buf 0 [b]) = some [b] := BodyReader.slice_overwrite_zero hpos
    rw [List.length_singleton] at hslice
    simp only [BodyReader.getSlicedBody, Offset.get, hslice]
  · refine ⟨read + 1, toRead - 1, overwrite buf 0 [b], rfl, rfl, ?_, by omega, by omega⟩
    rw [length_overwrite (show 0 + [b].length ≤ buf.length from by rw [Nat.zero_add]; exact hpos)]
    exact hpos

theorem Uploading.error (crates : Crates) {d : Downstream} {e : IoError} {left : List ReadEv} (hd : Uploading d (.error e :: left)) :
    ∃ d', Downstream.readDownstreamRequest crates d = (.err e, d') := by
  obtain ⟨read, toRead, buf, hst, hbuf, hpos, hlt, hsum⟩ := hd.reader
  have hread : BodyReader.readBody crates.parseChunkSize (d.bodyReader, d.stream) =
      (.err e, { d.bodyReader with rewindBufSize := 0 }, { d.stream with input := left }) := by
    unfold BodyReader.readBody BodyReader.readPartially BodyReader.fill Stream.read
    simp only [hst, hbuf, hd.rewound, hd.input, if_true]
  obtain ⟨hs, hf⟩ := hd.reading
  exact ⟨_, Downstream.readDownstreamRequest_err hs hf hread⟩

/-- The client's side at its turn, with `left` to be read; the first read sets the
    session's reader. -/
structure AtUpload (crates : Crates) (x : Duplex) (left : List ReadEv) : Prop where
  going : x.stopped = none
  turn : x.down.place = .turn
  unread : x.down.requestDone = false
  session : ∃ d, Downstream.readDownstreamRequest crates x.down.session = Downstream.readDownstreamRequest crates d ∧
    Uploading d left

/-- A turn that reads a byte. -/
theorem AtUpload.byte {b : Byte} {left : List ReadEv} (hx : x.AtUpload crates (.data [b] :: left))
    (hup : x.up.place.isReturned = false) (hroom : x.requests.length < channelSize) :
    ∃ d' x', x' = { x with requests := x.requests ++ [.body (some [b]) false],
                           down := ⟨d', false, x.down.responseDone, .turn⟩ } ∧
      Run (Duplex.step crates) (fun _ _ => True) x [.downTurn, .downRead] x' ∧ x'.AtUpload crates left := by
  obtain ⟨d, hd, hup'⟩ := hx.session
  obtain ⟨d', hread, hd'⟩ := hup'.byte crates
  rw [← hd] at hread
  have h1 : Duplex.step crates .downTurn x = some { x with down.place := .select true } := by
    unfold Duplex.step downTurn
    simp [hx.going, hx.turn, hx.unread, hup, hroom]
  have h2 : Duplex.step crates .downRead { x with down.place := .select true } =
      some { x with requests := x.requests ++ [.body (some [b]) false],
                    down := ⟨d', false, x.down.responseDone, .turn⟩ } := by
    unfold Duplex.step downRead
    simp [hx.going, hx.unread, hread]
  exact ⟨d', _, rfl, .cons trivial h1 (.cons trivial h2 (.nil _)), hx.going, rfl, rfl, d', rfl, hd'⟩

/-- As many such turns as there are free slots. -/
theorem AtUpload.bytes (bs : Bytes) : ∀ {x : Duplex} {left : List ReadEv},
    x.AtUpload crates (bs.map (fun b => .data [b]) ++ left) → x.up.place.isReturned = false →
    x.requests.length + bs.length ≤ channelSize →
    ∃ evs x', Run (Duplex.step crates) (fun _ _ => True) x evs x' ∧ x'.AtUpload crates left ∧ x'.up = x.up ∧
      x'.responses = x.responses ∧ x'.requests.length = x.requests.length + bs.length := by
  induction bs with
  | nil => exact fun hx _ _ => ⟨[], _, .nil _, hx, rfl, rfl, rfl⟩
  | cons b bs ih =>
    intro x left hx hup hroom
    rw [List.length_cons] at hroom
    obtain ⟨d', x1, rfl, hrun1, hx1⟩ := hx.byte hup (by omega)
    have hl1 : (x.requests ++ [Task.body (some [b]) false]).length = x.requests.length + 1 := by
      rw [List.length_append, List.length_singleton]
    obtain ⟨evs, x2, hrun2, hx2, hup2, hr2, hl2⟩ := ih hx1 hup (by simp only [hl1]; omega)
    refine ⟨_, x2, hrun1.append hrun2, hx2, hup2, hr2, ?_⟩
    rw [hl2, hl1, List.length_cons]; omega

/-- A turn whose read fails. -/
theorem AtUpload.error {e : IoError} {left : List ReadEv} (hx : x.AtUpload crates (.error e :: left))
    (hup : x.up.place.isReturned = false) (hroom : x.requests.length < channelSize) :
    ∃ x', Run (Duplex.step crates) (fun _ _ => True) x [.downTurn, .downRead] x' ∧ x'.down.place = .failing e ∧
      x'.up = x.up ∧ x'.responses = x.responses ∧ x'.requests = x.requests := by
  obtain ⟨d, hd, hup'⟩ := hx.session
  obtain ⟨d', hread⟩ := hup'.error crates
  rw [← hd] at hread
  have h1 : Duplex.step crates .downTurn x = some { x with down.place := .select true } := by
    unfold Duplex.step downTurn
    simp [hx.going, hx.turn, hx.unread, hup, hroom]
  have h2 : Duplex.step crates .downRead { x with down.place := .select true } =
      some { x with down := ⟨d', x.down.requestDone, x.down.responseDone, .failing e⟩ } := by
    unfold Duplex.step downRead
    simp [hx.going, hx.unread, hread]
  exact ⟨_, .cons trivial h1 (.cons trivial h2 (.nil _)), rfl, rfl, rfl, rfl⟩

/-- The server's side at its turn, with `n` informational heads to be read, each by
    itself. -/
structure AtHeads (head : ResponseHead crates) (req : RequestHeader) (x : Duplex) (n : Nat) : Prop where
  going : x.stopped = none
  turn : x.up.place = .turn
  unread : x.up.responseDone = false
  request : x.up.session.requestHeader = some req
  expects : x.up.session.shouldReadResponseHeader = true
  start : x.up.session.bodyReader.isStart = true
  input : x.up.session.stream.input = List.replicate n (.data head.text)

variable {head : ResponseHead crates} {req : RequestHeader}

/-- A turn that reads a head. -/
theorem AtHeads.read {n : Nat} (hx : x.AtHeads head req (n + 1)) (hinf : head.header.isInformational = true)
    (h101 : head.header.status ≠ 101) (hm : req.method ≠ ascii "HEAD") :
    ∃ x', Run (Duplex.step crates) (fun _ _ => True) x [.upTurn, .upRead] x' ∧
      x'.up.place = .sending (.header head.header false) ∧ x'.down = x.down ∧ x'.requests = x.requests ∧
      x'.responses = x.responses ∧ ({ x' with up.place := .turn } : Duplex).AtHeads head req n := by
  have hread : readHead crates.parseResponse [] x.up.session.stream.input =
      (.ok (some (head.text ++ [], head.text.length, head.parts)), List.replicate n (.data head.text)) := by
    rw [hx.input, List.replicate_succ, readHead, if_neg (by simp)]
    simp only [List.nil_append, if_neg head.isHead.nonempty]
    have := head.isHead.complete []
    rw [List.append_nil] at this
    rw [this]
    simp
  have hsel : Upstream.selectResponseReader req head.header [] x.up.session.bodyReader = x.up.session.bodyReader := by
    unfold Upstream.selectResponseReader
    rw [if_pos hx.start, if_neg hm, if_neg h101, if_pos hinf]
  have hfin : x.up.session.bodyReader.isFinished = false := by
    have := hx.start
    unfold BodyReader.isStart at this
    rw [beq_iff_eq] at this
    unfold BodyReader.isFinished
    rw [this]
  have hcall := Upstream.readUpstreamResponse_of_readHead hx.request hx.expects head hread
  rw [hsel, hfin] at hcall
  have h1 : Duplex.step crates .upTurn x = some { x with up.place := .select } := by
    unfold Duplex.step upTurn
    simp [hx.going, hx.turn, hx.unread]
  have h2 : Duplex.step crates .upRead { x with up.place := .select } =
      some { x with up := ⟨x.up.session.headed req head [] (List.replicate n (.data head.text)), false, false,
                           .sending (.header head.header false)⟩ } := by
    unfold Duplex.step upRead
    simp [hx.going, hx.unread, hcall, Task.isEnd]
  refine ⟨_, .cons trivial h1 (.cons trivial h2 (.nil _)), rfl, rfl, rfl, rfl, hx.going, rfl, rfl, hx.request, ?_, ?_, rfl⟩
  · exact (Upstream.shouldRead_some rfl).mpr ⟨hinf, h101⟩
  · show (Upstream.selectResponseReader req head.header [] x.up.session.bodyReader).isStart = true
    rw [hsel]; exact hx.start

/-- As many such turns as there are free slots. -/
theorem AtHeads.heads (hinf : head.header.isInformational = true) (h101 : head.header.status ≠ 101)
    (hm : req.method ≠ ascii "HEAD") (n : Nat) : ∀ {x : Duplex} {m : Nat}, x.AtHeads head req (n + m) →
    x.down.place ≠ .returned → x.responses.length + n ≤ channelSize →
    ∃ evs x', Run (Duplex.step crates) (fun _ _ => True) x evs x' ∧ x'.AtHeads head req m ∧ x'.down = x.down ∧
      x'.requests = x.requests ∧ x'.responses.length = x.responses.length + n := by
  induction n with
  | zero => exact fun hx _ _ => ⟨[], _, .nil _, by rwa [Nat.zero_add] at hx, rfl, rfl, rfl⟩
  | succ n ih =>
    intro x m hx hdown hroom
    rw [Nat.succ_add] at hx
    obtain ⟨x1, hrun1, hp1, hd1, hq1, hr1, hx1⟩ := hx.read hinf h101 hm
    have hsend : Duplex.step crates .upSend x1 = some { x1 with
        responses := x1.responses ++ [.header head.header false]
        sent := x1.sent ++ [.header head.header false]
        up.place := .turn } := by
      unfold Duplex.step upSend
      rw [show x1.stopped = none from hx1.going, hp1]
      simp only [Option.isSome_none, Bool.false_eq_true, if_false, hd1, if_neg hdown, hr1]
      rw [if_pos (by omega)]
    have hx2 : ({ x1 with
        responses := x1.responses ++ [.header head.header false]
        sent := x1.sent ++ [.header head.header false]
        up.place := .turn } : Duplex).AtHeads head req (n + m) :=
      ⟨hx1.going, rfl, hx1.unread, hx1.request, hx1.expects, hx1.start, hx1.input⟩
    obtain ⟨evs, x3, hrun3, hx3, hd3, hq3, hr3⟩ := ih hx2 (by rw [← hd1] at hdown; exact hdown) (by
      show (x1.responses ++ [_]).length + n ≤ channelSize
      rw [List.length_append, hr1, List.length_singleton]; omega)
    refine ⟨_, x3, hrun1.append (.cons trivial hsend hrun3), hx3, hd3.trans hd1, hq3.trans hq1, ?_⟩
    rw [hr3]
    show (x1.responses ++ [_]).length + n = _
    rw [List.length_append, hr1, List.length_singleton]; omega

end Duplex

/-! ## Both channels full -/

def longField : Field := ⟨ascii "Content-Length", ascii "100", contentLength_token⟩

def processingHead : Bytes × ResponseParts :=
  (ascii "HTTP/1.1 102 Processing\r\n\r\n", ⟨102, 1, some (ascii "Processing"), []⟩)

def uploadCrates : Crates := .ofTables [postHead longField] [processingHead]

def processing : ResponseHead uploadCrates where
  text := processingHead.1
  parts := processingHead.2
  header := (Upstream.responseHeaderOf uploadCrates processingHead.2).getD ⟨0, .http11, none, .empty⟩
  isHead := parseTable_isHead [processingHead] (by decide) (by decide) (by decide)
  small := by decide
  built := rfl

/-- A client that sends 31 bytes of a body of 100, each by itself, and breaks; a server
    that sends 33 heads. -/
def uploadExchange : Out Unit × Sessions :=
  openExchange uploadCrates
    (.new ⟨.data (postHead longField).1 :: ((List.replicate 31 120).map (fun b => .data [b]) ++ [.error (.os 104)]),
        [], []⟩ (fun _ => 0),
      .new ⟨List.replicate 33 (.data processingHead.1), [], []⟩ (fun _ => 0))

def uploadHead : RequestHeader := Downstream.requestHeaderOf (postHead longField).2

theorem upload_ready : uploadExchange.2.1.Ready uploadHead [] := ⟨rfl, ⟨_, rfl, rfl⟩, rfl⟩

theorem upload_selectReader (r : BodyReader) :
    Downstream.selectReader uploadHead [] r = r.withContentLengthRead 100 [] := by
  have hte : Utils.isHeaderValueChunkEncoding (uploadHead.getHeader transferEncoding) = false := by decide
  have hcl : Utils.getContentLengthValue (uploadHead.getHeader contentLength) = some 100 := by decide
  unfold Downstream.selectReader
  rw [hte, hcl]; rfl

theorem upload_uploading : Duplex.Uploading (uploadExchange.2.1.selected uploadHead [])
    ((List.replicate 31 120).map (fun b => .data [b]) ++ [.error (.os 104)]) := by
  have hreader : (uploadExchange.2.1.selected uploadHead []).bodyReader =
      uploadExchange.2.1.bodyReader.withContentLengthRead 100 [] := upload_selectReader _
  refine ⟨rfl, ?_, ?_⟩
  · rw [hreader]
    refine ⟨0, 100, _, rfl, rfl, ?_, by decide, by decide⟩
    rw [List.nil_append, BodyReader.memory_length]
    decide
  · rw [hreader]; rfl

/-- The failure of the 32nd read waits for a slot, and the 33rd head for one the other
    way. -/
theorem deadlock :
    uploadExchange.1 = .ok () ∧ ∃ evs x,
      Run (Duplex.step uploadCrates) (fun _ _ => True) (.new uploadExchange.2.1 uploadExchange.2.2) evs x ∧
      x.DownBlocked ∧ x.UpBlocked := by
  let x0 : Duplex := .new uploadExchange.2.1 uploadExchange.2.2
  have hstart : Duplex.step uploadCrates .downStart x0 = some { x0 with down.place := .turn } := rfl
  have hat : ({ x0 with down.place := .turn } : Duplex).AtUpload uploadCrates
      ((List.replicate 31 120).map (fun b => .data [b]) ++ [.error (.os 104)]) :=
    ⟨rfl, rfl, rfl, _, Downstream.readDownstreamRequest_ready upload_ready, upload_uploading⟩
  obtain ⟨evs1, x1, hrun1, hx1, hup1, hr1, hl1⟩ := hat.bytes (List.replicate 31 120) rfl (by decide)
  have hheads : x1.AtHeads processing uploadHead (32 + 1) := by
    refine ⟨hx1.going, ?_, ?_, ?_, ?_, ?_, ?_⟩ <;> rw [hup1] <;> rfl
  obtain ⟨evs2, x2, hrun2, hx2, hdown2, hq2, hr2⟩ := Duplex.AtHeads.heads (by decide) (by decide) (by decide) 32 hheads
    (by rw [hx1.turn]; simp) (by rw [hr1]; decide)
  obtain ⟨x3, hrun3, hp3, hdown3, hq3, hr3, hx3⟩ := hx2.read (by decide) (by decide) (by decide)
  have hdown : x3.down = x1.down := hdown3.trans hdown2
  have hrequests : x3.requests.length = 31 := by
    rw [hq3, hq2, hl1]; decide
  have hresponses : x3.responses.length = 32 := by
    rw [hr3, hr2, hr1]; decide
  have hbreak : x3.AtUpload uploadCrates [.error (.os 104)] :=
    ⟨hx3.going, hdown ▸ hx1.turn, hdown ▸ hx1.unread, hdown ▸ hx1.session⟩
  obtain ⟨x4, hrun4, hp4, hup4, hr4, hq4⟩ := hbreak.error (by rw [hp3]; rfl) (by rw [hrequests]; decide)
  refine ⟨by decide, _, x4, .cons trivial hstart (((hrun1.append hrun2).append hrun3).append hrun4), ?_, ?_⟩
  · refine Or.inl ⟨⟨_, hp4⟩, ?_⟩
    unfold Duplex.downFail
    simp [hp4, hup4, hp3, UpAt.isReturned, hq4, hrequests, channelSize]
  · refine Or.inl ⟨⟨_, hup4 ▸ hp3⟩, ?_⟩
    unfold Duplex.upSend
    simp [hp4, hup4, hp3, hr4, hresponses, channelSize]

end Glaive.Service
