/-
  Glaive.Service.LoopFlags — the flags that end the two loops
  (`core/src/service/proxy/duplex.rs`: `handle_downstream`, `handle_upstream`).

  `response_done` is to come from the response, and `request_done` is to stay. Neither
  holds of every run: `Task::Done`, the end of an upgrade's chunked body, sets
  `response_done`; and each piece of the response that is not its last takes
  `request_done` back. `responseDone_iff` and `requestDone_iff` say of a run that nothing
  else goes wrong in it.
-/

import Glaive.Service.Framing
import Glaive.Service.Relay
import Glaive.Service.ResponseChannel
import Glaive.Session.RequestMode

namespace Glaive.Service

open Glaive.Lib
open Glaive.Session

variable {crates : Crates}

/-! ## Batches -/

/-- The last of the tasks ends the response. -/
def terminal (ts : List Task) : Bool := ts.getLast?.any Task.isEnd

theorem terminal_snoc (ts : List Task) (t : Task) : terminal (ts ++ [t]) = t.isEnd := by
  simp [terminal]

theorem lastEnd_eq_terminal {ts : List Task} (hne : ts ≠ []) (e : Bool) : lastEnd e ts = terminal ts := by
  rcases List.eq_nil_or_concat' ts with rfl | ⟨init, t, rfl⟩
  · exact absurd rfl hne
  · rw [lastEnd_snoc, terminal_snoc]

/-- A write that succeeds says whether its batch is terminal. -/
theorem writeDownstreamResponse_terminal {ts : List Task} (hne : ts ≠ []) {d d' : Downstream} {e : Bool}
    (h : Downstream.writeDownstreamResponse crates ts d = (.ok e, d')) : e = terminal ts := by
  rw [(Downstream.writeDownstreamResponse_ok hne h).1, lastEnd_eq_terminal hne]

/-- The event is a read of the client, or drops one. -/
def Event.readsClient : Event → Bool
  | .downRead => true
  | .downWrite drop _ => drop.isSome
  | .downClosed drop => drop.isSome
  | _ => false

namespace Duplex

variable {x x' : Duplex}

/-! ## The session of a run -/

theorem dropDownstream_moded {h : RequestHeader} {k : Nat} {d d' : Downstream} (hd : d.Moded h)
    (hdrop : dropDownstream crates k d = some d') : d'.Moded h := by
  unfold dropDownstream at hdrop
  simp only at hdrop
  have hseen : (Downstream.readDownstreamRequest crates
      { d with stream := { d.stream with input := d.stream.input.take k } }).2.Moded h :=
    Downstream.readDownstreamRequest_stays crates _ ⟨hd.head, hd.mode⟩
  split at hdrop
  · rename_i heq
    rw [heq] at hseen
    cases hdrop
    exact ⟨hseen.head, hseen.mode⟩
  · cases hdrop

theorem dropped_moded {h : RequestHeader} {l : DownLoop} {permit : Bool} {drop : Option Nat} {d : Downstream}
    (hl : l.session.Moded h) (hdrop : l.dropped crates permit drop = some d) : d.Moded h := by
  unfold DownLoop.dropped at hdrop
  split at hdrop
  · cases hdrop
    exact hl
  · split at hdrop
    · exact dropDownstream_moded hl hdrop
    · cases hdrop

/-- The client's session is that of the request until a loop stops. -/
theorem moded_step {h : RequestHeader} {e : Event} (hx : x.down.session.Moded h) (hs : step crates e x = some x')
    (hgo : x'.stopped = none) : x'.down.session.Moded h := by
  rcases (step_moves hs).2 with hd | hu
  · cases hd with
    | readBody b e d hp hreq hread =>
      have := Downstream.readDownstreamRequest_stays crates _ hx
      rwa [hread] at this
    | readDone d hp hreq hread =>
      have := Downstream.readDownstreamRequest_stays crates _ hx
      rwa [hread] at this
    | readFails e d hp hreq hread =>
      have := Downstream.readDownstreamRequest_stays crates _ hx
      rwa [hread] at this
    | readPanics => cases hgo
    | write permit drop more d d' e hp hresp hmore hdrop hwrite =>
      have := Downstream.writeDownstreamResponse_stays crates (x.responses.take (more + 1)) _ (dropped_moded hx hdrop)
      rwa [hwrite] at this
    | writeStops => cases hgo
    | closed permit drop d hp hresp hnil hret hdrop => exact dropped_moded hx hdrop
    | _ => exact hx
  · cases hu <;> exact hx

/-! ## `response_done` -/

/-- A batch that ends the response has been written to the client. -/
def EndWritten (e : Event) (x x' : Duplex) : Prop :=
  ∃ drop more, e = .downWrite drop more ∧ terminal (x.responses.take (more + 1)) = true ∧
    x'.handed = x.handed ++ x.responses.take (more + 1) ∧ x'.stopped = none

/-- The response channel was found closed. -/
def FoundClosed (e : Event) (x : Duplex) : Prop :=
  (∃ drop, e = .downClosed drop) ∧ x.responses = [] ∧ x.up.place.isReturned = true

/-- What a step may do to the relaying of the response: a read of the client leaves it at
    work, and the loop is left only once it is over. -/
structure RelaysOn (e : Event) (x x' : Duplex) : Prop where
  flag : x.down.responseDone = false → x'.down.responseDone = true → EndWritten e x x' ∨ FoundClosed e x
  request : e = .downRead → x.down.responseDone = false →
    x'.down.responseDone = false ∧ x'.down.place = .turn ∧ x'.stopped = none
  left : x'.down.place = .returned → x.down.place = .returned ∨ x'.down.responseDone = true

/-- No read of the client fails while the response is relayed, or ends an upgrade's
    chunked body. -/
def ClientReadsOn (crates : Crates) (e : Event) (x : Duplex) : Prop :=
  e = .downRead → x.down.responseDone = false →
    (∃ t, (Downstream.readDownstreamRequest crates x.down.session).1 = .ok t) ∧
    ¬ Downstream.EndsUpgradeBody crates x.down.session

/-- The failure of a read is on its way only when the response is over. -/
def FailsDone (x : Duplex) : Prop := ∀ err, x.down.place = .failing err → x.down.responseDone = true

/-- A read that stops the loop has given no task. -/
theorem downRead_stops (hs : step crates .downRead x = some x') (hstop : x'.stopped ≠ none) (t : Task) :
    (Downstream.readDownstreamRequest crates x.down.session).1 ≠ .ok t := by
  intro hread
  unfold step downRead at hs
  split at hs
  · cases hs
  · rename_i hgo
    simp only at hs
    split at hs
    · split at hs
      · split at hs <;> rename_i heq <;> rw [heq] at hread
        · cases hs
          exact hstop (by simpa using hgo)
        · cases hs
          exact hstop (by simpa using hgo)
        · rename_i hbody hdone
          cases hread
          rcases (Downstream.readDownstreamRequest_ok heq).2 with ⟨b, e, rfl⟩ | ⟨rfl, -⟩
          · exact hbody b e rfl
          · exact hdone rfl
        all_goals cases hread
      · cases hs
    · cases hs

theorem failsDone_step {e : Event} (hx : x.FailsDone) (he : ClientReadsOn crates e x) (hs : step crates e x = some x') :
    x'.FailsDone := by
  rcases (step_moves hs).2 with hd | hu
  · cases hd with
    | beginClosed => exact hx
    | readFails err d hp hreq hread =>
      intro _ _
      cases hf : x.down.responseDone with
      | true => rfl
      | false =>
        obtain ⟨t, ht⟩ := (he rfl hf).1
        rw [hread] at ht
        cases ht
    | readPanics => exact hx
    | writeStops => exact hx
    | _ => nofun
  · cases hu <;> exact hx

theorem relaysOn_of {h : RequestHeader} {e : Event} (hx : x.down.session.Moded h) (hfail : x.FailsDone)
    (he : ClientReadsOn crates e x) (hs : step crates e x = some x') : RelaysOn e x x' := by
  -- the flag as it was, and no read of the client
  have same : x'.down.responseDone = x.down.responseDone → e ≠ .downRead →
      (x'.down.place = .returned → x.down.place = .returned ∨ x'.down.responseDone = true) → RelaysOn e x x' := by
    intro heq hne hleft
    exact ⟨fun hf ht => absurd ((heq.symm.trans ht).symm.trans hf) (by simp), fun hr => absurd hr hne, hleft⟩
  rcases (step_moves hs).2 with hd | hu
  · cases hd with
    | finish hp hreq hresp => exact same rfl nofun fun _ => .inr hresp
    | readBody b e d hp hreq hread =>
      exact ⟨fun hf ht => absurd (hf.symm.trans ht) (by simp), fun _ hf => ⟨hf, rfl, (step_moves hs).1⟩, nofun⟩
    | readDone d hp hreq hread =>
      have hdone := (Downstream.readDownstreamRequest_done_iff hx).mp (by rw [hread])
      exact ⟨fun hf _ => absurd hdone (he rfl hf).2, fun _ hf => absurd hdone (he rfl hf).2, nofun⟩
    | readFails err d hp hreq hread =>
      have hno : x.down.responseDone ≠ false := by
        intro hf
        obtain ⟨t, ht⟩ := (he rfl hf).1
        rw [hread] at ht
        cases ht
      exact ⟨fun hf _ => absurd hf hno, fun _ hf => absurd hf hno, nofun⟩
    | readPanics t d =>
      have hno : x.down.responseDone ≠ false := by
        intro hf
        obtain ⟨t, ht⟩ := (he rfl hf).1
        exact downRead_stops hs nofun t ht
      exact ⟨fun hf _ => absurd hf hno, fun _ hf => absurd hf hno, .inl⟩
    | failClosed err hp => exact same rfl nofun fun _ => .inr (hfail err hp)
    | fail err hp => exact same rfl nofun fun _ => .inr (hfail err hp)
    | write permit drop more d d' e hp hresp hmore hdrop hwrite =>
      refine ⟨fun _ ht => .inl ⟨drop, more, rfl, ?_, rfl, (step_moves hs).1⟩, nofun, nofun⟩
      exact (writeDownstreamResponse_terminal (take_ne_nil hmore) hwrite).symm.trans ht
    | closed permit drop d hp hresp hnil hret hdrop =>
      exact ⟨fun _ _ => .inr ⟨⟨drop, rfl⟩, hnil, hret⟩, nofun, nofun⟩
    | idle permit hp hresp => exact same rfl nofun fun _ => .inr hresp
    | beginClosed => exact same rfl nofun .inl
    | writeStops => exact same rfl nofun .inl
    | _ => exact same rfl nofun nofun
  · cases hu <;> exact same rfl nofun .inl

theorem clientReadsOn_of {h : RequestHeader} {e : Event} (hx : x.down.session.Moded h) (hs : step crates e x = some x')
    (hr : RelaysOn e x x') : ClientReadsOn crates e x := by
  intro he hf
  subst he
  obtain ⟨hdone, hplace, hgo⟩ := hr.request rfl hf
  rcases (step_moves hs).2 with hd | hu
  · cases hd with
    | readBody b e d hp hreq hread =>
      refine ⟨⟨_, congrArg Prod.fst hread⟩, fun hend => ?_⟩
      have := (Downstream.readDownstreamRequest_done_iff hx).mpr hend
      rw [hread] at this
      cases this
    | readDone => cases hdone
    | readFails => cases hplace
    | readPanics => cases hgo
  · cases hu

/-- In every run of an exchange `response_done` comes of the response alone, and reads
    of the client leave its relaying at work, just if no read of the client fails while
    the response is relayed, or ends the chunked body of a request to upgrade. -/
theorem responseDone_iff (crates : Crates) (client server : Stream) (mc ms : Nat → Byte) (d : Downstream) (u : Upstream)
    (hopen : openExchange crates (.new client mc, .new server ms) = (.ok (), d, u)) (evs : List Event) (x : Duplex) :
    Run (step crates) (fun e y => ∀ z, step crates e y = some z → RelaysOn e y z) (.new d u) evs x ↔
      Run (step crates) (ClientReadsOn crates) (.new d u) evs x := by
  obtain ⟨req, preread, buf, hready, -⟩ := openExchange_ok hopen
  have hstart : d.Moded req := by
    refine ⟨hready.head, ?_⟩
    have := hready.start
    unfold BodyReader.isStart at this
    rw [beq_iff_eq.mp this]
    trivial
  have hstep : ∀ e y z, (y.stopped = none → y.down.session.Moded req) → step crates e y = some z →
      z.stopped = none → z.down.session.Moded req :=
    fun e y z hy hs hz => moded_step (hy (step_moves hs).1) hs hz
  constructor
  · intro h
    apply h.imp hstep
    · intro e y z hy hs hr
      exact clientReadsOn_of (hy (step_moves hs).1) hs (hr z hs)
    · exact fun _ => hstart
  · intro h
    have hcarry := h.carry (I := FailsDone) (fun e y z hy he hs => failsDone_step hy he hs) nofun
    apply hcarry.imp hstep
    · intro e y z hy hs he z' hs'
      exact relaysOn_of (hy (step_moves hs).1) he.1 he.2 hs'
    · exact fun _ => hstart

/-! ## `request_done` -/

/-- What a step may do to the two loops' `request_done`. -/
structure Keeps (x x' : Duplex) : Prop where
  down : x.down.requestDone = true → x'.down.requestDone = true
  up : x.up.requestDone = true → x'.up.requestDone = true

theorem Keeps.refl (x : Duplex) : Keeps x x := ⟨id, id⟩

theorem Keeps.trans {x'' : Duplex} (h : Keeps x x') (h' : Keeps x' x'') : Keeps x x'' :=
  ⟨h'.down ∘ h.down, h'.up ∘ h.up⟩

/-- The response read is at its end, or the read is no task. -/
def endsResponse : Out Task → Bool
  | .ok t => t.isEnd
  | _ => true

/-- With `request_done` set, a batch written is terminal, or its write fails; and a task
    read is the last of the response. -/
def OnlyLast (crates : Crates) (x : Duplex) : Event → Prop
  | .downWrite _ more => x.down.requestDone = true → terminal (x.responses.take (more + 1)) = true ∨
      ∀ b, (Downstream.writeDownstreamResponse crates (x.responses.take (more + 1)) x.down.session).1 ≠ .ok b
  | .upRead => x.up.requestDone = true →
      endsResponse (Upstream.readUpstreamResponse crates x.up.session).1 = true
  | _ => True

/-- No read of the client is polled once `request_done` is set. -/
theorem dropped_done {l : DownLoop} {permit : Bool} {drop : Option Nat} {d : Downstream} (hl : l.requestDone = true)
    (h : l.dropped crates permit drop = some d) : drop = none ∧ d = l.session := by
  cases drop with
  | none => cases h; exact ⟨rfl, rfl⟩
  | some k =>
    unfold DownLoop.dropped at h
    simp [hl] at h

/-- A write that stops the loop has not succeeded. -/
theorem downWrite_stops {drop : Option Nat} {more : Nat} (hs : step crates (.downWrite drop more) x = some x')
    (hstop : x'.stopped ≠ none) (hdone : x.down.requestDone = true) (b : Bool) :
    (Downstream.writeDownstreamResponse crates (x.responses.take (more + 1)) x.down.session).1 ≠ .ok b := by
  unfold step downWrite at hs
  split at hs
  · cases hs
  · rename_i hgo
    simp only at hs
    split at hs
    · split at hs
      · split at hs
        · cases hs
        · rename_i hdrop
          obtain ⟨-, rfl⟩ := dropped_done hdone hdrop
          split at hs <;> rename_i heq <;> rw [heq]
          · cases hs
            exact absurd (by simpa using hgo) hstop
          all_goals nofun
      · cases hs
    · cases hs

theorem upRead_stops (hs : step crates .upRead x = some x') (hstop : x'.stopped ≠ none) (t : Task) :
    (Upstream.readUpstreamResponse crates x.up.session).1 ≠ .ok t := by
  unfold step upRead at hs
  split at hs
  · cases hs
  · rename_i hgo
    simp only at hs
    split at hs
    · split at hs
      · split at hs <;> rename_i heq <;> rw [heq]
        · cases hs
          exact absurd (by simpa using hgo) hstop
        all_goals nofun
      · cases hs
    · cases hs

theorem keeps_iff_onlyLast {e : Event} (hs : step crates e x = some x') : Keeps x x' ↔ OnlyLast crates x e := by
  rcases (step_moves hs).2 with hd | hu
  · cases hd with
    | readBody b e d hp hreq hread =>
      exact ⟨fun _ => trivial, fun _ => ⟨fun ht => absurd (hreq.symm.trans ht) (by simp), id⟩⟩
    | readPanics => exact ⟨fun _ => trivial, fun _ => ⟨id, id⟩⟩
    | write permit drop more d d' e hp hresp hmore hdrop hwrite =>
      have he := writeDownstreamResponse_terminal (take_ne_nil hmore) hwrite
      constructor
      · exact fun hk hdone => .inl (he.symm.trans (hk.down hdone))
      · intro ho
        refine ⟨fun hdone => ?_, id⟩
        obtain ⟨-, rfl⟩ := dropped_done hdone hdrop
        rcases ho hdone with hterm | hfail
        · exact he.trans hterm
        · exact absurd (congrArg Prod.fst hwrite) (hfail e)
    | writeStops drop more d o =>
      exact ⟨fun _ hdone => .inr (downWrite_stops hs nofun hdone), fun _ => ⟨id, id⟩⟩
    | _ => exact ⟨fun _ => trivial, fun _ => ⟨id, id⟩⟩
  · cases hu with
    | read t u hp hresp hread =>
      constructor
      · intro hk hdone
        rw [hread]
        exact hk.up hdone
      · intro ho
        refine ⟨id, fun hdone => ?_⟩
        have := ho hdone
        rwa [hread] at this
    | readFails e u hp hresp hread =>
      refine ⟨fun _ _ => ?_, fun _ => ⟨id, id⟩⟩
      rw [hread]
      rfl
    | readPanics t u =>
      refine ⟨fun _ _ => ?_, fun _ => ⟨id, id⟩⟩
      unfold endsResponse
      split
      · rename_i heq
        exact absurd heq (upRead_stops hs nofun _)
      · rfl
    | write drop t rest u u' e hp hr hreq =>
      exact ⟨fun _ => trivial, fun _ => ⟨id, fun ht => absurd (hreq.symm.trans ht) (by simp)⟩⟩
    | closed drop u hp hr hret hdrop => exact ⟨fun _ => trivial, fun _ => ⟨id, fun _ => rfl⟩⟩
    | _ => exact ⟨fun _ => trivial, fun _ => ⟨id, id⟩⟩

/-- With `request_done` set no read of the client is polled. -/
theorem not_readsClient {e : Event} (hs : step crates e x = some x') (hdone : x.down.requestDone = true) :
    e.readsClient = false := by
  have hdrop : ∀ permit k, x.down.dropped crates permit (some k) = none := by
    intro permit k
    simp [DownLoop.dropped, hdone]
  unfold step at hs
  split at hs
  · cases hs
  · cases e with
    | downRead =>
      simp only [downRead, hdone] at hs
      split at hs <;> cases hs
    | downWrite drop more =>
      cases drop with
      | none => rfl
      | some k =>
        simp only [downWrite, hdrop] at hs
        split at hs
        · split at hs <;> cases hs
        · cases hs
    | downClosed drop =>
      cases drop with
      | none => rfl
      | some k =>
        simp only [downClosed, hdrop] at hs
        split at hs
        · split at hs <;> cases hs
        · cases hs
    | _ => rfl

/-- In every run of the loops `request_done`, once set, stays set in both, and then no
    read of the client is started, just if all that is written to the client and read
    from the server with it set is the end of the response. -/
theorem requestDone_iff (crates : Crates) (d : Downstream) (u : Upstream) (evs : List Event) (x : Duplex)
    (hrun : Run (step crates) (fun _ _ => True) (.new d u) evs x) :
    (∀ before middle after y z, evs = before ++ middle ++ after →
      Run (step crates) (fun _ _ => True) (.new d u) before y → Run (step crates) (fun _ _ => True) y middle z →
        (y.down.requestDone = true → z.down.requestDone = true ∧ ∀ e ∈ middle, e.readsClient = false) ∧
        (y.up.requestDone = true → z.up.requestDone = true)) ↔
      Run (step crates) (fun e y => OnlyLast crates y e) (.new d u) evs x := by
  have hiff := Run.between_iff (K := Keeps) Keeps.refl (fun _ _ _ => Keeps.trans) hrun
  constructor
  · intro h
    have hkeeps := hiff.mp fun before middle after y z he hy hz => by
      obtain ⟨h1, h2⟩ := h before middle after y z he hy hz
      exact ⟨fun hdone => (h1 hdone).1, h2⟩
    apply hkeeps.imp (I := fun _ => True)
    · exact fun _ _ _ _ _ => trivial
    · exact fun e y z _ hs hk => (keeps_iff_onlyLast hs).mp (hk z hs)
    · trivial
  · intro h before middle after y z he hy hz
    have hkeeps : Run (step crates) (fun e y => ∀ z, step crates e y = some z → Keeps y z) (.new d u) evs x := by
      apply h.imp (I := fun _ => True)
      · exact fun _ _ _ _ _ => trivial
      · exact fun e y z _ _ ho z' hs => (keeps_iff_onlyLast hs).mpr ho
      · trivial
    have hk := hiff.mpr hkeeps before middle after y z he hy hz
    refine ⟨fun hdone => ⟨hk.down hdone, fun e hmem => ?_⟩, hk.up⟩
    -- the state in which `e` happens comes after `y` too
    obtain ⟨first, last, rfl⟩ := List.append_of_mem hmem
    obtain ⟨w, hw, hrest⟩ := hz.split
    have hdone' := (hiff.mpr hkeeps before first (e :: last ++ after) y w (by simp [he]) hy hw).down hdone
    cases hrest with
    | cons _ hs _ => exact not_readsClient hs hdone'

/-! ## A turn that reads -/

theorem step_readDone {d : Downstream} (hgo : x.stopped = none) (hp : x.down.place = .select true)
    (hreq : x.down.requestDone = false)
    (hread : Downstream.readDownstreamRequest crates x.down.session = (.ok .done, d)) :
    step crates .downRead x = some { x with down := ⟨d, false, true, .turn⟩ } := by
  unfold step downRead
  simp [hgo, hp, hreq, hread]

theorem step_readBody {d : Downstream} {b : Option Bytes} {e : Bool} (hgo : x.stopped = none)
    (hp : x.down.place = .select true) (hreq : x.down.requestDone = false)
    (hread : Downstream.readDownstreamRequest crates x.down.session = (.ok (.body b e), d)) :
    step crates .downRead x =
      some { x with requests := x.requests ++ [.body b e], down := ⟨d, e, x.down.responseDone, .turn⟩ } := by
  unfold step downRead
  simp [hgo, hp, hreq, hread]

end Duplex

/-! ## A request that is over with its head -/

theorem upgrade_token : (ascii "Upgrade").all isTokenByte = true := by decide

def webSocket : Field := ⟨ascii "Upgrade", ascii "websocket", upgrade_token⟩

/-- A head in chunked coding, to upgrade or not. -/
def endedHead (upgrades : Bool) : Bytes × RequestParts :=
  if upgrades then
    (ascii "GET / HTTP/1.1\r\nUpgrade: websocket\r\nTransfer-Encoding: chunked\r\n\r\n",
      ⟨ascii "GET", ascii "/", 1, [webSocket, teChunked]⟩)
  else postHead teChunked

def fiveHead : Bytes × ResponseParts :=
  (ascii "HTTP/1.1 200 OK\r\nContent-Length: 5\r\n\r\n", ⟨200, 1, some (ascii "OK"), [lengthFive]⟩)

def endedCrates (upgrades : Bool) : Crates := .ofTables [endedHead upgrades] [fiveHead]

/-- The client sends the last size line with the head, and closes its side; the server
    sends a head and waits. -/
def endedExchange (upgrades : Bool) : Out Unit × Sessions :=
  openExchange (endedCrates upgrades)
    (.new ⟨[.data ((endedHead upgrades).1 ++ ascii "0\r\n\r\n"), .data []], [], []⟩ (fun _ => 0),
      .new ⟨[.data fiveHead.1], [], []⟩ (fun _ => 0))

def endedRequest (upgrades : Bool) : RequestHeader := Downstream.requestHeaderOf (endedHead upgrades).2

theorem ended_ready (upgrades : Bool) :
    (endedExchange upgrades).2.1.Ready (endedRequest upgrades) (ascii "0\r\n\r\n") := by
  cases upgrades <;> exact ⟨rfl, ⟨_, rfl, rfl⟩, rfl⟩

theorem ended_read (upgrades : Bool) :
    ∃ r, Downstream.readDownstreamRequest (endedCrates upgrades) (endedExchange upgrades).2.1 =
      (.ok (if upgrades then .done else .body none true),
        ((endedExchange upgrades).2.1.selected (endedRequest upgrades) (ascii "0\r\n\r\n")).withRead
          (r, (endedExchange upgrades).2.1.stream)) := by
  have hup : Utils.isRequestUpgrade (endedRequest upgrades) = upgrades := by cases upgrades <;> decide
  obtain ⟨r, hr⟩ := Downstream.readDownstreamRequest_emptyChunked (endedCrates upgrades) (ended_ready upgrades)
    (by cases upgrades <;> rfl) (by cases upgrades <;> decide) (by decide) (by decide) (show 3 ≤ _ by decide)
    (show Chunked.parseSizeLine _ = _ by decide)
  rw [hup] at hr
  exact ⟨r, hr⟩

/-- A read of the client gives a task, of a request to no upgrade. -/
def readsPlainly (crates : Crates) : Event → Duplex → Bool
  | .downRead, x => (match (Downstream.readDownstreamRequest crates x.down.session).1 with
      | .ok _ => true
      | _ => false) && !x.down.session.requestHeader.any Utils.isRequestUpgrade
  | _, _ => true

theorem clientReadsOn_plainly {e : Event} {x : Duplex} (h : readsPlainly crates e x = true) :
    Duplex.ClientReadsOn crates e x := by
  intro he _
  subst he
  simp only [readsPlainly, Bool.and_eq_true, Bool.not_eq_true'] at h
  obtain ⟨hread, hup⟩ := h
  constructor
  · split at hread
    · exact ⟨_, ‹_›⟩
    · cases hread
  · intro hends
    obtain ⟨h, hh, hu, -⟩ := hends
    rw [hh, Option.any_some, hu] at hup
    cases hup

/-- The response is over with its last bytes written, after two reads of the client. -/
theorem responseDone_bodied :
    ∃ x, x.down.responseDone = true ∧ x.isOk = true ∧
      Run (Duplex.step bodiedCrates) (fun e y => ∀ z, Duplex.step bodiedCrates e y = some z → Duplex.RelaysOn e y z)
        (.new bodiedExchange.2.1 bodiedExchange.2.2) bodiedEvents x := by
  have hall : (stepAll (Duplex.step bodiedCrates) (fun e x => readsPlainly bodiedCrates e x = true) bodiedEvents
      (.new bodiedExchange.2.1 bodiedExchange.2.2)).map (fun x => (x.down.responseDone, x.isOk)) =
      some (true, true) := by decide +kernel
  obtain ⟨x, hx, hend⟩ := Option.map_eq_some_iff.mp hall
  obtain ⟨hdone, hok⟩ := Prod.mk.inj hend
  have hreads := (run_of_stepAll hx).imp (I := fun _ => True) (Q := Duplex.ClientReadsOn bodiedCrates)
    (fun _ _ _ _ _ => trivial) (fun _ _ _ _ _ h => clientReadsOn_plainly h) trivial
  exact ⟨x, hdone, hok,
    (Duplex.responseDone_iff bodiedCrates _ _ _ _ _ _ (Prod.ext (by decide) rfl) bodiedEvents x).mpr hreads⟩

/-- `handle_downstream` at its first read of the client. -/
def endedDuplex (upgrades : Bool) : Duplex :=
  { Duplex.new (endedExchange upgrades).2.1 (endedExchange upgrades).2.2 with down.place := .select true }

theorem endedDuplex_reached (upgrades : Bool) :
    Run (Duplex.step (endedCrates upgrades)) (fun _ _ => True)
      (.new (endedExchange upgrades).2.1 (endedExchange upgrades).2.2) [.downStart, .downTurn] (endedDuplex upgrades) := by
  cases upgrades <;> exact .cons trivial rfl (.cons trivial rfl (.nil _))

/-- The upload is over for both loops. -/
def uploadOver : List Event := [.downStart, .downTurn, .downRead, .upTurn, .upWrite none]

/-- The last size line of an upgrade's body ends the relaying of a response of which
    nothing has come. -/
theorem responseDone_by_request :
    (endedExchange true).1 = .ok () ∧ ∃ y z,
      Run (Duplex.step (endedCrates true)) (fun _ _ => True) (.new (endedExchange true).2.1 (endedExchange true).2.2)
        [.downStart, .downTurn] y ∧ Duplex.step (endedCrates true) .downRead y = some z ∧
      y.down.responseDone = false ∧ z.down.responseDone = true ∧ z.handed = [] ∧ z.responses = [] ∧
      z.up.place.isReturned = false := by
  obtain ⟨r, hr⟩ := ended_read true
  have hstep := Duplex.step_readDone (x := endedDuplex true) rfl rfl rfl hr
  exact ⟨by decide, _, _, endedDuplex_reached true, hstep, rfl, rfl, rfl, rfl, rfl⟩

theorem requestDone_answersFirst :
    ∃ x, Run (Duplex.step getCrates) (fun _ _ => True) (closedDuplex [.data noContentHead.1]) answersFirst x ∧
      ∀ before middle after y z, answersFirst = before ++ middle ++ after →
        Run (Duplex.step getCrates) (fun _ _ => True) (closedDuplex [.data noContentHead.1]) before y →
        Run (Duplex.step getCrates) (fun _ _ => True) y middle z →
          (y.down.requestDone = true → z.down.requestDone = true ∧ ∀ e ∈ middle, e.readsClient = false) ∧
          (y.up.requestDone = true → z.up.requestDone = true) := by
  have honly : ∃ x, Run (Duplex.step getCrates) (fun e y => Duplex.OnlyLast getCrates y e)
      (closedDuplex [.data noContentHead.1]) answersFirst x :=
    ⟨_, .cons trivial rfl (.cons trivial rfl (.cons trivial rfl (.cons nofun rfl (.cons trivial rfl
      (.cons trivial rfl (.cons nofun rfl (.cons trivial rfl (.nil _))))))))⟩
  obtain ⟨x, hx⟩ := honly
  have hrun : Run (Duplex.step getCrates) (fun _ _ => True) (closedDuplex [.data noContentHead.1]) answersFirst x :=
    hx.imp (I := fun _ => True) (fun _ _ _ _ _ => trivial) (fun _ _ _ _ _ _ => trivial) trivial
  exact ⟨x, hrun, (Duplex.requestDone_iff getCrates _ _ answersFirst x hrun).mpr hx⟩

/-- A head is relayed, and the client is read again. -/
def headRelayed : List Event := [.upTurn, .upRead, .upSend, .downTurn, .downWrite none 0, .downTurn, .downRead]

/-- The head of the response takes `request_done` back in both loops: the client is read
    again, and its closed side ends the exchange with the response's body to come. -/
theorem requestDone_lost :
    (endedExchange false).1 = .ok () ∧ ∃ y z,
      Run (Duplex.step (endedCrates false)) (fun _ _ => True) (.new (endedExchange false).2.1 (endedExchange false).2.2)
        uploadOver y ∧ Run (Duplex.step (endedCrates false)) (fun _ _ => True) y headRelayed z ∧
      y.down.requestDone = true ∧ y.up.requestDone = true ∧ z.down.requestDone = false ∧ z.up.requestDone = false ∧
      z.down.place = .failing connectionClosed := by
  obtain ⟨r, hr⟩ := ended_read false
  have hstep := Duplex.step_readBody (x := endedDuplex false) rfl rfl rfl hr
  have hover := (endedDuplex_reached false).append
    (.cons trivial hstep (.cons (e := .upTurn) trivial rfl (.cons (e := .upWrite none) trivial rfl (.nil _))))
  exact ⟨by decide, _, _, hover, .cons trivial rfl (.cons trivial rfl (.cons trivial rfl (.cons trivial rfl
    (.cons trivial rfl (.cons trivial rfl (.cons trivial rfl (.nil _))))))), rfl, rfl, rfl, rfl, rfl⟩

end Glaive.Service
