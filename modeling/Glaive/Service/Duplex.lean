/-
  Glaive.Service.Duplex — the two loops of an exchange and the channels between them
  (`core/src/service/proxy/duplex.rs`: `copy_bidirectional`, `handle_downstream`,
  `handle_upstream`).

  `try_join!` polls both loops in one task, so they interleave at their awaits; an
  event is what one of them does between two awaits. In a `select!` any branch that is
  ready may fire, and the other's future is dropped there: `drop` says how much of the
  socket's script it had been polled on (`none` when it had not been polled). The
  script is all the socket will ever find, so what is not yet there is not told apart
  from what is not yet read.

  A channel is the list of what it holds. `try_reserve` takes a slot for one turn of the
  loop, and the slot counts while that turn lasts.

  `sent` and `handed` are what has gone into the response channel and what has been
  handed to `write_downstream_response`; no code reads them.
-/

import Glaive.Lib.Runs
import Glaive.Service.Exchange

namespace Glaive.Service

open Glaive.Lib
open Glaive.Session

/-- `BUFFER_SIZE`: the slots of a channel. -/
def channelSize : Nat := 32

/-! ## The loops -/

/-- Where `handle_downstream` is. -/
inductive DownAt where
  /-- Before the retry buffer is looked at. -/
  | start
  /-- At the loop's condition. -/
  | turn
  /-- In `select!`, with the slot it took, if there was one. -/
  | select (permit : Bool)
  /-- Sending `Task::Failed`. -/
  | failing (e : IoError)
  | returned
  deriving DecidableEq

structure DownLoop where
  session : Downstream
  requestDone : Bool
  responseDone : Bool
  place : DownAt

/-- Where `handle_upstream` is. -/
inductive UpAt where
  | turn
  | select
  /-- Sending a response task. -/
  | sending (t : Task)
  | failing (e : IoError)
  | returned

def UpAt.isReturned : UpAt → Bool
  | .returned => true
  | _ => false

structure UpLoop where
  session : Upstream
  requestDone : Bool
  responseDone : Bool
  place : UpAt

structure Duplex where
  down : DownLoop
  up : UpLoop
  /-- The channel to `handle_upstream`. -/
  requests : List Task
  /-- The channel to `handle_downstream`. -/
  responses : List Task
  sent : List Task
  handed : List Task
  /-- An `Err` of a loop, or a panic, ends both. -/
  stopped : Option (Out Unit)

def Duplex.new (d : Downstream) (u : Upstream) : Duplex where
  down := ⟨d, false, false, .start⟩
  up := ⟨u, false, false, .turn⟩
  requests := []
  responses := []
  sent := []
  handed := []
  stopped := none

/-- Both loops have returned: `copy_bidirectional` is `Ok(())`. -/
def Duplex.isOk (x : Duplex) : Bool := x.stopped.isNone && x.down.place == .returned && x.up.place.isReturned

/-! ## Futures dropped in `select!` -/

/-- A future polled on the first `k` pieces of the script, and dropped while it waits. -/
def dropDownstream (crates : Crates) (k : Nat) (d : Downstream) : Option Downstream :=
  let seen := { d with stream := { d.stream with input := d.stream.input.take k } }
  match Downstream.readDownstreamRequest crates seen with
  | (.pending, d') =>
    some { d' with stream := { d'.stream with input := d'.stream.input ++ d.stream.input.drop k } }
  | _ => none

def dropUpstream (crates : Crates) (k : Nat) (u : Upstream) : Option Upstream :=
  let seen := { u with stream := { u.stream with input := u.stream.input.take k } }
  match Upstream.readUpstreamResponse crates seen with
  | (.pending, u') =>
    some { u' with stream := { u'.stream with input := u'.stream.input ++ u.stream.input.drop k } }
  | _ => none

variable (crates : Crates)

/-- The session after a turn's read was dropped; the branch had to be enabled to be polled. -/
def DownLoop.dropped (l : DownLoop) (permit : Bool) : Option Nat → Option Downstream
  | none => some l.session
  | some k => if !l.requestDone && permit then dropDownstream crates k l.session else none

def UpLoop.dropped (l : UpLoop) : Option Nat → Option Upstream
  | none => some l.session
  | some k => if !l.responseDone then dropUpstream crates k l.session else none

/-! ## Events -/

inductive Event where
  | downStart
  | downTurn
  /-- The read of the client is ready. -/
  | downRead
  | downFail
  /-- The response channel is ready, and gives `more + 1` tasks. -/
  | downWrite (drop : Option Nat) (more : Nat)
  /-- The response channel is closed. -/
  | downClosed (drop : Option Nat)
  | downElse
  | upTurn
  /-- The read of the server is ready. -/
  | upRead
  | upSend
  | upFail
  /-- The request channel is ready. -/
  | upWrite (drop : Option Nat)
  | upClosed (drop : Option Nat)
  deriving DecidableEq, Repr

def channelClosed : IoError := .other "channel closed"

namespace Duplex

/-! ### `handle_downstream` -/

def downStart (x : Duplex) : Option Duplex :=
  match x.down.place with
  | .start =>
    match x.down.session.getRetryBuffer with
    | none => some { x with down.place := .turn }
    | some buffer =>
      if x.up.place.isReturned then some { x with stopped := some (.err channelClosed) }
      else if x.requests.length < channelSize then
        some { x with requests := x.requests ++ [.body (some buffer) x.down.requestDone], down.place := .turn }
      else none
  | _ => none

def downTurn (x : Duplex) : Option Duplex :=
  match x.down.place with
  | .turn =>
    if x.down.requestDone && x.down.responseDone then some { x with down.place := .returned }
    else some { x with down.place := .select (!x.up.place.isReturned && decide (x.requests.length < channelSize)) }
  | _ => none

def downRead (x : Duplex) : Option Duplex :=
  match x.down.place with
  | .select permit =>
    if !x.down.requestDone && permit then
      match Downstream.readDownstreamRequest crates x.down.session with
      | (.ok (.body reqBody endStream), d) =>
        some { x with requests := x.requests ++ [.body reqBody endStream],
                      down := { x.down with session := d, requestDone := endStream, place := .turn } }
      -- it is the response that is marked as done
      | (.ok .done, d) => some { x with down := { x.down with session := d, responseDone := true, place := .turn } }
      | (.ok _, d) =>
        some { x with down.session := d, stopped := some (.panic "unexpected downstream read task") }
      | (.err e, d) => some { x with down := { x.down with session := d, place := .failing e } }
      | (.pending, _) => none
      | (.panic t, d) => some { x with down.session := d, stopped := some (.panic t) }
    else none
  | _ => none

/-- The failure is sent with the turn's own slot still taken. -/
def downFail (x : Duplex) : Option Duplex :=
  match x.down.place with
  | .failing e =>
    if x.up.place.isReturned then some { x with down.place := .returned }
    else if x.requests.length + 1 < channelSize then
      some { x with requests := x.requests ++ [.failed e], down.place := .returned }
    else none
  | _ => none

def downWrite (drop : Option Nat) (more : Nat) (x : Duplex) : Option Duplex :=
  match x.down.place with
  | .select permit =>
    if !x.down.responseDone && decide (more < x.responses.length) then
      match x.down.dropped crates permit drop with
      | none => none
      | some d =>
        let tasks := x.responses.take (more + 1)
        let x := { x with responses := x.responses.drop (more + 1), handed := x.handed ++ tasks }
        match Downstream.writeDownstreamResponse crates tasks d with
        | (.ok isEnd, d) => some { x with down := ⟨d, isEnd, isEnd, .turn⟩ }
        | (.err e, d) => some { x with down.session := d, stopped := some (.err e) }
        | (.pending, _) => none
        | (.panic t, d) => some { x with down.session := d, stopped := some (.panic t) }
    else none
  | _ => none

def downClosed (drop : Option Nat) (x : Duplex) : Option Duplex :=
  match x.down.place with
  | .select permit =>
    if !x.down.responseDone && x.responses.isEmpty && x.up.place.isReturned then
      match x.down.dropped crates permit drop with
      | none => none
      | some d => some { x with down := { x.down with session := d, responseDone := true, place := .turn } }
    else none
  | _ => none

/-- `else => break`: both branches are disabled. -/
def downElse (x : Duplex) : Option Duplex :=
  match x.down.place with
  | .select permit =>
    if (x.down.requestDone || !permit) && x.down.responseDone then some { x with down.place := .returned } else none
  | _ => none

/-! ### `handle_upstream` -/

/-- One of the branches is enabled whenever the loop goes on, so `else` is not reached. -/
def upTurn (x : Duplex) : Option Duplex :=
  match x.up.place with
  | .turn =>
    if x.up.requestDone && x.up.responseDone then some { x with up.place := .returned }
    else some { x with up.place := .select }
  | _ => none

def upRead (x : Duplex) : Option Duplex :=
  match x.up.place with
  | .select =>
    if !x.up.responseDone then
      match Upstream.readUpstreamResponse crates x.up.session with
      | (.ok t, u) => some { x with up := ⟨u, t.isEnd, t.isEnd, .sending t⟩ }
      | (.err e, u) => some { x with up := { x.up with session := u, place := .failing e } }
      | (.pending, _) => none
      | (.panic t, u) => some { x with up.session := u, stopped := some (.panic t) }
    else none
  | _ => none

def upSend (x : Duplex) : Option Duplex :=
  match x.up.place with
  | .sending t =>
    if x.down.place = .returned then
      match Upstream.isRequestUpgrade x.up.session with
      | (.ok true, _) => some { x with up.place := .turn }
      | (.ok false, _) => some { x with stopped := some (.err channelClosed) }
      | (.panic t, _) => some { x with stopped := some (.panic t) }
      | _ => none
    else if x.responses.length < channelSize then
      some { x with responses := x.responses ++ [t], sent := x.sent ++ [t], up.place := .turn }
    else none
  | _ => none

def upFail (x : Duplex) : Option Duplex :=
  match x.up.place with
  | .failing e =>
    if x.down.place = .returned then some { x with up.place := .returned }
    else if x.responses.length < channelSize then
      some { x with responses := x.responses ++ [.failed e], sent := x.sent ++ [.failed e], up.place := .returned }
    else none
  | _ => none

def upWrite (drop : Option Nat) (x : Duplex) : Option Duplex :=
  match x.up.place, x.requests with
  | .select, t :: rest =>
    if !x.up.requestDone then
      match x.up.dropped crates drop with
      | none => none
      | some u =>
        let x := { x with requests := rest }
        match Upstream.writeUpstreamRequest t u with
        | (.ok isEnd, u) => some { x with up := { x.up with session := u, requestDone := isEnd, place := .turn } }
        | (.err e, u) => some { x with up.session := u, stopped := some (.err e) }
        | (.pending, _) => none
        | (.panic t, u) => some { x with up.session := u, stopped := some (.panic t) }
    else none
  | _, _ => none

def upClosed (drop : Option Nat) (x : Duplex) : Option Duplex :=
  match x.up.place with
  | .select =>
    if !x.up.requestDone && x.requests.isEmpty && x.down.place == .returned then
      match x.up.dropped crates drop with
      | none => none
      | some u => some { x with up := { x.up with session := u, requestDone := true, place := .turn } }
    else none
  | _ => none

/-- Nothing happens once a loop has failed. -/
def step (e : Event) (x : Duplex) : Option Duplex :=
  if x.stopped.isSome then none
  else
    match e with
    | .downStart => x.downStart
    | .downTurn => x.downTurn
    | .downRead => x.downRead crates
    | .downFail => x.downFail
    | .downWrite drop more => x.downWrite crates drop more
    | .downClosed drop => x.downClosed crates drop
    | .downElse => x.downElse
    | .upTurn => x.upTurn
    | .upRead => x.upRead crates
    | .upSend => x.upSend
    | .upFail => x.upFail
    | .upWrite drop => x.upWrite crates drop
    | .upClosed drop => x.upClosed crates drop

end Duplex

end Glaive.Service
