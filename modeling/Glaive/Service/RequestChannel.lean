/-
  Glaive.Service.RequestChannel — what `handle_upstream` receives.

  `write_upstream_request` panics on anything but a body task. Both places where a read
  went well send body tasks; the one where it failed sends `Task::Failed`, which is
  received unless `handle_upstream` has returned.
-/

import Glaive.Service.DuplexSteps
import Glaive.Service.Framing
import Glaive.Session.ResponseWriting

namespace Glaive.Service

open Glaive.Lib
open Glaive.Session

variable {crates : Crates}

namespace Duplex

/-- All that the channel to `handle_upstream` holds is body tasks. -/
def OnlyBodies (x : Duplex) : Prop := ∀ t ∈ x.requests, t.IsBody

/-- A failed read of the client is passed on only once `handle_upstream` has returned. -/
def FailsAfter (e : Event) (x : Duplex) : Prop := e = .downFail → x.up.place.isReturned = true

theorem OnlyBodies.snoc {x : Duplex} (hx : x.OnlyBodies) (b : Option Bytes) (e : Bool) :
    ∀ t ∈ x.requests ++ [.body b e], t.IsBody := by
  intro t ht
  rcases List.mem_append.mp ht with ht | ht
  · exact hx t ht
  · exact ⟨b, e, List.mem_singleton.mp ht⟩

theorem OnlyBodies.tail {x : Duplex} (hx : x.OnlyBodies) {t : Task} {rest : List Task} (h : x.requests = t :: rest) :
    ∀ t ∈ rest, t.IsBody := fun t ht => hx t (h ▸ List.mem_cons_of_mem _ ht)

theorem onlyBodies_step {e : Event} {x x' : Duplex} (hx : x.OnlyBodies) (hf : FailsAfter e x)
    (h : step crates e x = some x') : x'.OnlyBodies := by
  rcases (step_moves h).2 with hd | hu
  · cases hd with
    | beginRetry buffer => exact hx.snoc _ _
    | readBody b e d => exact hx.snoc _ _
    | fail e hp hr => exact absurd ((hf rfl).symm.trans hr) (by simp)
    | _ => exact hx
  · cases hu with
    | write drop t rest u u' e hp hr => exact hx.tail hr
    | writeStops drop t rest u o hr => exact hx.tail hr
    | _ => exact hx

/-- While no failure is passed on too early, `handle_upstream` receives body tasks only. -/
theorem received_bodies (crates : Crates) (d : Downstream) (u : Upstream) (evs : List Event) (x : Duplex)
    (h : Run (step crates) FailsAfter (.new d u) evs x) :
    x.OnlyBodies ∧ ∀ drop x', x.upWrite crates drop = some x' →
      ∃ b e rest, x.requests = .body b e :: rest ∧ x'.requests = rest := by
  have hx : x.OnlyBodies := h.invariant (fun _ _ _ hi hp hs => onlyBodies_step hi hp hs) (by
    intro t ht
    cases ht)
  refine ⟨hx, fun drop x' hw => ?_⟩
  have key : ∀ t rest, x.requests = t :: rest → ∃ b e rest', x.requests = .body b e :: rest' ∧ rest = rest' := by
    intro t rest hr
    obtain ⟨b, e, rfl⟩ := hx t (hr ▸ List.mem_cons_self ..)
    exact ⟨b, e, rest, hr, rfl⟩
  cases upWrite_moves hw with
  | write drop t rest u u' e hp hr => exact key t rest hr
  | writeStops drop t rest u o hr => exact key t rest hr

instance (e : Event) (x : Duplex) : Decidable (FailsAfter e x) := inferInstanceAs (Decidable (_ → _))

end Duplex

/-! ## A client that closes its side -/

def getBytes : Bytes × RequestParts := (ascii "GET / HTTP/1.1\r\n\r\n", ⟨ascii "GET", ascii "/", 1, []⟩)

def noContentHead : Bytes × ResponseParts :=
  (ascii "HTTP/1.1 204 No Content\r\n\r\n", ⟨204, 1, some (ascii "No Content"), []⟩)

def getCrates : Crates := .ofTables [getBytes] [noContentHead]

/-- The exchange of a client that sends a `GET` in one read and closes its side, and of
    a server that finds `server`. -/
def closedExchange (server : List ReadEv) : Out Unit × Sessions :=
  openExchange getCrates
    (.new ⟨[.data getBytes.1, .data []], [], []⟩ (fun _ => 0), .new ⟨server, [], []⟩ (fun _ => 0))

def closedDuplex (server : List ReadEv) : Duplex := .new (closedExchange server).2.1 (closedExchange server).2.2

/-- The response is all read before the client's read fails. -/
def failsLate : List Event := [.downStart, .downTurn, .upTurn, .upRead, .upSend, .upTurn, .downRead, .downFail]

/-- The client's read fails while the response is waited for. -/
def failsEarly : List Event := [.downStart, .downTurn, .upTurn, .downRead, .downFail]

theorem received_bodies_failsLate :
    ∃ x, Run (Duplex.step getCrates) Duplex.FailsAfter (closedDuplex [.data noContentHead.1]) failsLate x ∧
      x.isOk = true ∧ x.OnlyBodies ∧ ∀ drop x', x.upWrite getCrates drop = some x' →
        ∃ b e rest, x.requests = .body b e :: rest ∧ x'.requests = rest := by
  have h := run_get (Duplex.step getCrates) Duplex.FailsAfter failsLate (closedDuplex [.data noContentHead.1]) (by decide)
  exact ⟨_, h, by decide, Duplex.received_bodies getCrates _ _ failsLate _ h⟩

/-- `handle_upstream` receives the failure and panics. -/
theorem received_failure :
    (closedExchange []).1 = .ok () ∧ ∃ x x', Run (Duplex.step getCrates) (fun _ _ => True) (closedDuplex []) failsEarly x ∧
      ¬ x.OnlyBodies ∧ x.requests = [.failed connectionClosed] ∧ x.upWrite getCrates none = some x' ∧
      x'.stopped = some (.panic "unexpected request to write") := by
  have h := run_get (Duplex.step getCrates) (fun _ _ => True) failsEarly (closedDuplex []) (by decide)
  refine ⟨by decide, _, _, h, fun hb => ?_, rfl, rfl, rfl⟩
  obtain ⟨b, e, he⟩ := hb (.failed connectionClosed) (List.mem_cons_self ..)
  cases he

/-! ## An exchange with a body each way -/

def answerHead (field : Field) : Bytes × ResponseParts :=
  (ascii "HTTP/1.1 200 OK\r\n" ++ field.name ++ ascii ": " ++ field.value ++ crlf ++ crlf,
    ⟨200, 1, some (ascii "OK"), [field]⟩)

def lengthThree : Field := ⟨ascii "Content-Length", ascii "3", contentLength_token⟩

def bodiedCrates : Crates := .ofTables [postHead lengthFive] [answerHead lengthThree]

/-- Two of the client's five bytes come with its head, and the server's three behind its. -/
def bodiedExchange : Out Unit × Sessions :=
  openExchange bodiedCrates
    (.new ⟨[.data ((postHead lengthFive).1 ++ ascii "ab"), .data (ascii "cde")], [], []⟩ (fun _ => 0),
      .new ⟨[.data (answerHead lengthThree).1, .data (ascii "xyz")], [], []⟩ (fun _ => 0))

/-- The request is relayed in two pieces, then the response in two. -/
def bodiedEvents : List Event :=
  [.downStart, .downTurn, .downRead, .upTurn, .upWrite none, .downTurn, .downRead, .upTurn, .upWrite none, .upTurn,
    .upRead, .upSend, .downTurn, .downWrite none 0, .upTurn, .upRead, .upSend, .upTurn, .downTurn, .downWrite none 0,
    .downTurn]

end Glaive.Service
