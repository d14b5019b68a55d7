/-
  Glaive.Service.Opening — how an exchange opens, whatever the client sends
  (`core/src/session/downstream.rs`: `read_request`; `request.rs`: `RequestHeader::build`;
  `core/src/service/proxy/duplex.rs`: `handle_process` before `copy_bidirectional`).

  Every way to end or spoil a head ends in `Err`, but two: a connection closed before its
  first byte is `Ok` without a head, which `handle_process` then expects; and a head that
  `httparse` accepts is unwrapped through `http::Method` and `http::Uri`, which accept
  less. Without these two nothing panics (`opening_safe_iff`).
-/

import Glaive.Service.Exchange

namespace Glaive.Service

open Glaive.Lib
open Glaive.Lib.Async
open Glaive.Session

variable {crates : Crates} {client server : Stream} {mc ms : Nat → Byte}

theorem writeAll_no_panic {s : Stream} {bs : Bytes} {text : String} : (s.writeAll bs).1 ≠ .panic text := by
  unfold Stream.writeAll
  split <;> nofun

theorem writeRequestHeader_no_panic {req : RequestHeader} {u : Upstream} {text : String} :
    (Upstream.writeRequestHeader req u).1 ≠ .panic text := by
  intro h
  unfold Upstream.writeRequestHeader at h
  rw [bind_ok (Upstream.setRequestBodyWriter_eq req u)] at h
  obtain ⟨buf, hb⟩ := Option.isSome_iff_exists.mp req.buildToBuffer_isSome
  rw [hb] at h
  simp only at h
  split at h
  · cases h
  · cases h
  · cases h
  · rename_i hw
    exact writeAll_no_panic (congrArg Prod.fst hw)

/-- With a head read, nothing after it panics. -/
theorem openExchange_no_panic {d : Downstream} {req : RequestHeader} {text : String}
    (h : Downstream.readRequest crates (.new client mc) = (.ok (), d)) (hd : d.requestHeader = some req) :
    (openExchange crates (.new client mc, .new server ms)).1 ≠ .panic text := by
  have hread : onDownstream (Downstream.readRequest crates) (.new client mc, .new server ms) =
      (.ok (), d, .new server ms) := by
    unfold onDownstream
    simp only [zoom_apply, h]
  have hget : onDownstream Downstream.getRequestHeaders (d, .new server ms) = (.ok req, d, .new server ms) := by
    unfold onDownstream
    simp only [zoom_apply, Downstream.getRequestHeaders_eq hd]
  unfold openExchange
  rw [bind_ok hread, bind_ok hget, bind_apply]
  rcases hw : Upstream.writeRequestHeader req (.new server ms) with ⟨o, u⟩
  have hwrite : onUpstream (Upstream.writeRequestHeader req) (d, .new server ms) = (o, d, u) := by
    unfold onUpstream
    simp only [zoom_apply, hw]
  rw [hwrite]
  cases o with
  | ok _ => nofun
  | err e => nofun
  | pending => nofun
  | panic t => exact absurd (congrArg Prod.fst hw) writeRequestHeader_no_panic

/-- Where the head is not read, the exchange stops in the same way. -/
theorem openExchange_stops {o : Out Unit} {d : Downstream} (h : Downstream.readRequest crates (.new client mc) = (o, d))
    (ho : o ≠ .ok ()) : (openExchange crates (.new client mc, .new server ms)).1 = o := by
  have hread : onDownstream (Downstream.readRequest crates) (.new client mc, .new server ms) =
      (o, d, .new server ms) := by
    unfold onDownstream
    simp only [zoom_apply, h]
  unfold openExchange
  rw [bind_apply, hread]
  cases o with
  | ok u => exact absurd rfl ho
  | err e => rfl
  | pending => rfl
  | panic t => rfl

/-- What `http` makes of the head that comes, if one does: it takes the method and the
    target. -/
def Acceptable (crates : Crates) (input : List ReadEv) : Prop :=
  ∀ segs bs size parts rest, HeadComes crates.parseRequest [] input segs bs size parts rest →
    crates.validMethod parts.method = true ∧ crates.validUri parts.path = true

/-- For every client: `read_request` returns `Ok` only with the head that came, and
    neither it nor what follows it panics, just if the client does not close before its
    first byte and a head that comes is acceptable. -/
theorem opening_safe_iff (crates : Crates) (client server : Stream) (mc ms : Nat → Byte) :
    ((∀ d, Downstream.readRequest crates (.new client mc) = (.ok (), d) → ∃ segs bs size parts rest,
        HeadComes crates.parseRequest [] client.input segs bs size parts rest ∧
        d.requestHeader = some (Downstream.requestHeaderOf parts)) ∧
      (∀ text, (Downstream.readRequest crates (.new client mc)).1 ≠ .panic text) ∧
      ∀ text, (openExchange crates (.new client mc, .new server ms)).1 ≠ .panic text) ↔
    client.input.head? ≠ some (.data []) ∧ Acceptable crates client.input := by
  constructor
  · intro h
    rcases h with ⟨hhead, hpanic, -⟩
    constructor
    · intro hend
      obtain ⟨rest, hrest⟩ : ∃ rest, client.input = .data [] :: rest := by
        cases hi : client.input with
        | nil => rw [hi] at hend; cases hend
        | cons e rest => rw [hi] at hend; cases hend; exact ⟨rest, rfl⟩
      have hr : readHead crates.parseRequest [] client.input = (.ok none, rest) := by
        rw [hrest]
        rfl
      obtain ⟨_, _, _, _, _, -, hd⟩ := hhead _ (Downstream.readRequest_closed (d := .new client mc) hr)
      cases hd
    · intro segs bs size parts rest hcomes
      have hr := readHead_some_iff.mpr ⟨segs, bs, rfl, hcomes⟩
      rcases Downstream.readRequest_head (d := .new client mc) hr with ⟨hm, hu, -⟩ | ⟨-, text, d, hp⟩
      · exact ⟨hm, hu⟩
      · exact absurd (congrArg Prod.fst hp) (hpanic text)
  · intro h
    rcases h with ⟨hend, hacc⟩
    by_cases hr : ∃ x rest, readHead crates.parseRequest [] client.input = (.ok x, rest)
    · obtain ⟨x, rest, hr⟩ := hr
      cases x with
      | none => exact absurd (by rw [readHead_none hr]; rfl) hend
      | some x =>
        obtain ⟨buf, size, parts⟩ := x
        obtain ⟨segs, bs, -, hcomes⟩ := readHead_some_iff.mp hr
        rcases Downstream.readRequest_head (d := .new client mc) hr with ⟨-, -, hok⟩ | ⟨hno, -⟩
        · refine ⟨fun d hd => ?_, fun text => ?_, fun text => openExchange_no_panic hok rfl⟩
          · cases hok.symm.trans hd
            exact ⟨segs, bs, size, parts, rest, hcomes, rfl⟩
          · rw [hok]
            nofun
        · exact absurd (hacc segs bs size parts rest hcomes) hno
    · rcases Downstream.readRequest_stops (d := .new client mc) fun x rest hx => hr ⟨x, rest, hx⟩ with
        ⟨e, d, herr⟩ | ⟨d, hpend⟩
      · refine ⟨fun d hd => ?_, fun text => ?_, fun text => ?_⟩
        · cases herr.symm.trans hd
        · rw [herr]
          nofun
        · rw [openExchange_stops herr (by nofun)]
          nofun
      · refine ⟨fun d hd => ?_, fun text => ?_, fun text => ?_⟩
        · cases hpend.symm.trans hd
        · rw [hpend]
          nofun
        · rw [openExchange_stops hpend (by nofun)]
          nofun

/-- `GET http:///` is a head to `httparse`, and no URI. -/
def strictCrates : Crates :=
  { Crates.ofTables [(ascii "GET http:/// HTTP/1.1\r\n\r\n", ⟨ascii "GET", ascii "http:///", 1, []⟩)] [] with
    validUri := fun path => path != ascii "http:///" }

/-- A client that closes at once, and one that sends a target `http::Uri` does not take. -/
theorem opening_unsafe :
    (∃ d, Downstream.readRequest strictCrates (.new ⟨[.data []], [], []⟩ fun _ => 0) = (.ok (), d) ∧
      d.requestHeader = none) ∧
    (openExchange strictCrates (.new ⟨[.data []], [], []⟩ fun _ => 0, .new ⟨[], [], []⟩ fun _ => 0)).1 =
      .panic "Request header is not read yet" ∧
    (openExchange strictCrates (.new ⟨[.data (ascii "GET http:/// HTTP/1.1\r\n\r\n")], [], []⟩ fun _ => 0,
      .new ⟨[], [], []⟩ fun _ => 0)).1 = .panic "Failed to create base request" :=
  ⟨⟨_, rfl, rfl⟩, rfl, by decide +kernel⟩

end Glaive.Service
