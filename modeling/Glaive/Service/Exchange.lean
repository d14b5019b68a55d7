/-
  Glaive.Service.Exchange — one exchange up to its duplex part
  (`core/src/service/proxy/duplex.rs`: `handle_process` before `copy_bidirectional`):
  the request head is read from the client and sent on to the server as it came.
-/

import Glaive.Session.DownstreamProofs
import Glaive.Session.UpstreamProofs

namespace Glaive.Service

open Glaive.Lib
open Glaive.Lib.Async
open Glaive.Session

/-- Both sessions of an exchange. -/
abbrev Sessions := Downstream × Upstream

def onDownstream {α : Type} (x : Downstream.M α) : Async Sessions α := zoom Prod.fst (fun p d => (d, p.2)) x

def onUpstream {α : Type} (x : Upstream.M α) : Async Sessions α := zoom Prod.snd (fun p u => (p.1, u)) x

def openExchange (crates : Crates) : Async Sessions Unit := do
  onDownstream (Downstream.readRequest crates)
  let reqHeader ← onDownstream Downstream.getRequestHeaders
  onUpstream (Upstream.writeRequestHeader reqHeader)
  modify fun p => (p.1.enableRetryBuffer, p.2)

variable {crates : Crates}

/-- A head was read, or the client closed without one. -/
theorem readRequest_ok {d d' : Downstream} (h : Downstream.readRequest crates d = (.ok (), d')) :
    d'.requestHeader = d.requestHeader ∨
      ∃ req preread, d'.Ready req preread ∧ d'.bodyReader = d.bodyReader.reStart := by
  by_cases hr : ∃ x rest, readHead crates.parseRequest [] d.stream.input = (.ok x, rest)
  · obtain ⟨x, rest, hr⟩ := hr
    cases x with
    | none =>
      cases (Downstream.readRequest_closed hr).symm.trans h
      exact .inl rfl
    | some x =>
      obtain ⟨readBuffer, size, parts⟩ := x
      rcases Downstream.readRequest_head hr with ⟨-, -, hok⟩ | ⟨-, _, _, hpanic⟩
      · cases hok.symm.trans h
        exact .inr ⟨_, _, ⟨rfl, ⟨_, rfl, offset_get (crates.requestSize _ _ _ (readHead_some hr).1)⟩, rfl⟩, rfl⟩
      · cases hpanic.symm.trans h
  · rcases Downstream.readRequest_stops fun x rest hx => hr ⟨x, rest, hx⟩ with ⟨_, _, herr⟩ | ⟨_, hp⟩
    · cases herr.symm.trans h
    · cases hp.symm.trans h

/-- After the head is sent on, both sessions have it, and the body's reading is to start. -/
theorem openExchange_ok {client server : Stream} {mc ms : Nat → Byte} {d : Downstream} {u : Upstream}
    (h : openExchange crates (.new client mc, .new server ms) = (.ok (), d, u)) :
    ∃ req preread buf, d.Ready req preread ∧ d.bodyReader.Idle ∧ u.requestHeader = some req ∧
      req.buildToBuffer = some buf ∧ u.stream.output = server.output ++ buf ∧
      u.bodyWriter = Upstream.selectWriter req .new ∧ (server.Healthy → u.stream.Healthy) := by
  unfold openExchange at h
  obtain ⟨_, p1, h1, h2⟩ := of_bind_ok h
  obtain ⟨req, p2, h3, h4⟩ := of_bind_ok h2
  obtain ⟨_, p3, h5, h6⟩ := of_bind_ok h4
  obtain ⟨d1, k1, rfl⟩ := of_zoom_ok h1
  obtain ⟨d2, k3, rfl⟩ := of_zoom_ok h3
  obtain ⟨u1, k5, rfl⟩ := of_zoom_ok h5
  cases h6
  obtain ⟨s, buf, hb, hout, -, hs, rfl⟩ := Upstream.writeRequestHeader_ok k5
  rcases readRequest_ok k1 with hn | ⟨req', preread, hr, hread⟩
  · unfold Downstream.getRequestHeaders at k3
    simp only [hn] at k3
    cases k3
  · have hg := Downstream.getRequestHeaders_eq hr.head
    cases hg.symm.trans k3
    refine ⟨req, preread, buf, ⟨hr.head, hr.preread, hr.start⟩, ?_, rfl, hb, hout, rfl, hs⟩
    show BodyReader.Idle d1.bodyReader
    rw [hread]
    exact ⟨rfl, rfl⟩

/-- All that has happened to the server's session by then. -/
theorem openExchange_server {client server : Stream} {mc ms : Nat → Byte} {d : Downstream} {u : Upstream}
    (h : openExchange crates (.new client mc, .new server ms) = (.ok (), d, u)) :
    ∃ req s buf, req.buildToBuffer = some buf ∧ s.output = server.output ++ buf ∧ s.input = server.input ∧
      u = { Upstream.new server ms with
        bodyWriter := Upstream.selectWriter req .new, requestHeader := some req, stream := s } := by
  unfold openExchange at h
  obtain ⟨_, p1, h1, h2⟩ := of_bind_ok h
  obtain ⟨req, p2, h3, h4⟩ := of_bind_ok h2
  obtain ⟨_, p3, h5, h6⟩ := of_bind_ok h4
  obtain ⟨d1, k1, rfl⟩ := of_zoom_ok h1
  obtain ⟨d2, k3, rfl⟩ := of_zoom_ok h3
  obtain ⟨u1, k5, rfl⟩ := of_zoom_ok h5
  cases h6
  obtain ⟨s, buf, hb, hout, hin, -, rfl⟩ := Upstream.writeRequestHeader_ok k5
  exact ⟨req, s, buf, hb, hout, hin, rfl⟩

/-! ## An exchange at hand -/

/-- `POST / HTTP/1.1` with one field. -/
def postHead (field : Field) : Bytes × RequestParts :=
  (ascii "POST / HTTP/1.1\r\n" ++ field.name ++ ascii ": " ++ field.value ++ crlf ++ crlf,
    ⟨ascii "POST", ascii "/", 1, [field]⟩)

def postCrates (field : Field) : Crates := .ofTables [postHead field] []

/-- The exchange of a client that sends `postHead field` in one read, and goes on with
    `after`. -/
def postExchange (field : Field) (after : List ReadEv) : Out Unit × Sessions :=
  openExchange (postCrates field)
    (.new ⟨.data (postHead field).1 :: after, [], []⟩ (fun _ => 0), .new ⟨[], [], []⟩ (fun _ => 0))

end Glaive.Service
