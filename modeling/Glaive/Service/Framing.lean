/-
  Glaive.Service.Framing — where the gateway thinks a request body ends
  (`core/src/session/downstream.rs`: `set_request_body_reader`; `upstream.rs`:
  `set_request_body_writer`; `utils.rs`).

  - `modes_correspond_iff`: the mode the body is read in and the mode it is written in
    correspond exactly when the request is no upgrade. An upgrade sets the until-closed
    mode and does not return, so a later choice overrides it.
  - `framing_agrees_iff`: the mode is the framing of the forwarded head exactly when its
    fields come in the plain form the gateway reads (`PlainlyFramed`). The gateway reads
    the first line of a field, as one value, and forwards them all.
-/

import Glaive.Lib.MessageFraming
import Glaive.Service.Exchange

namespace Glaive.Service

open Glaive.Lib
open Glaive.Lib.Message (Framing)
open Glaive.Session

/-! ## Reading and writing -/

/-- The reader's mode and the writer's for one head correspond. -/
inductive Correspond (h : RequestHeader) : ReadState → WriteState → Prop
  | untilClosed : Correspond h (.http10 0) (.http10 0)
  | chunked : Utils.isRequestUpgrade h = false → Correspond h (.chunked 0 0 0 0) (.chunkedEncoding 0)
  | length (n : Nat) : Utils.isRequestUpgrade h = false → Correspond h (.partially 0 n) (.contentLength n 0)
  | empty (w : WriteState) : Utils.isRequestUpgrade h = false →
      Utils.isHeaderValueChunkEncoding (h.getHeader transferEncoding) = false →
      (Utils.getContentLengthValue (h.getHeader contentLength) = some 0 ∨
        h.version = .http11 ∧ Utils.getContentLengthValue (h.getHeader contentLength) = none) →
      Correspond h (.completed 0) w

theorem upgrade_version {h : RequestHeader} (hu : Utils.isRequestUpgrade h = true) : h.version = .http11 := by
  unfold Utils.isRequestUpgrade at hu
  rw [Bool.and_eq_true, beq_iff_eq] at hu
  exact hu.1

theorem Correspond.of_upgrade {h : RequestHeader} {r : ReadState} {w : WriteState} (hc : Correspond h r w)
    (hu : Utils.isRequestUpgrade h = true) : r = .http10 0 := by
  cases hc with
  | untilClosed => rfl
  | chunked h' => rw [hu] at h'; cases h'
  | length n h' => rw [hu] at h'; cases h'
  | empty w h' => rw [hu] at h'; cases h'

/-- The mode chosen is an upgrade's only under HTTP/1.0. -/
theorem selectReader_http11 {h : RequestHeader} (hv : h.version = .http11) (preread : Bytes) (r : BodyReader) :
    (Downstream.selectReader h preread r).readState ≠ .http10 0 := by
  unfold Downstream.selectReader
  split
  · simp [BodyReader.withChunkedRead, BodyReader.setBuffer]
  · split
    · rename_i n _
      cases n <;> simp [BodyReader.withContentLengthRead]
    · rw [hv]; simp [BodyReader.withContentLengthRead]

theorem correspond_of_not_upgrade {h : RequestHeader} (hu : Utils.isRequestUpgrade h = false) (preread : Bytes)
    (r : BodyReader) (w : BodyWriter) :
    Correspond h (Downstream.selectReader h preread r).readState (Upstream.selectWriter h w).writeState := by
  unfold Downstream.selectReader Upstream.selectWriter
  rw [hu]
  simp only [Bool.false_eq_true, if_false]
  cases hc : Utils.isHeaderValueChunkEncoding (h.getHeader transferEncoding) with
  | true => exact .chunked hu
  | false =>
    simp only [Bool.false_eq_true, if_false]
    cases hl : Utils.getContentLengthValue (h.getHeader contentLength) with
    | some n =>
      cases n with
      | zero => exact .empty _ hu hc (Or.inl hl)
      | succ n => exact .length _ hu
    | none =>
      cases hv : h.version with
      | http11 => exact .empty _ hu hc (Or.inr ⟨hv, hl⟩)
      | http10 => exact .untilClosed
      | http09 => exact .untilClosed

theorem modes_correspond_iff (h : RequestHeader) (preread : Bytes) (d : Downstream) (hd : d.Ready h preread)
    (u : Upstream) :
    Correspond h (Downstream.setRequestBodyReader d).2.bodyReader.readState
      (Upstream.setRequestBodyWriter h u).2.bodyWriter.writeState ↔ Utils.isRequestUpgrade h = false := by
  rw [Downstream.setRequestBodyReader_ready hd, Upstream.setRequestBodyWriter_eq]
  constructor
  · intro hc
    cases hu : Utils.isRequestUpgrade h with
    | false => rfl
    | true => exact absurd (hc.of_upgrade hu) (selectReader_http11 (upgrade_version hu) preread _)
  · intro hu
    exact correspond_of_not_upgrade hu preread _ _

/-- `GET / HTTP/1.1` with the field `Upgrade: websocket`, or without fields. -/
def getHead (upgrades : Bool) : RequestHeader :=
  ⟨ascii "GET", ascii "/", .http11,
    .ofParsed (if upgrades then [⟨ascii "Upgrade", ascii "websocket", by decide⟩] else [])⟩

/-- A session that has read `getHead` and nothing past it. -/
def getSession (upgrades : Bool) : Downstream :=
  { Downstream.new ⟨[], [], []⟩ (fun _ => 0) with
    requestHeader := some (getHead upgrades), bufBodyOffset := some ⟨0, 0⟩ }

theorem getSession_ready (upgrades : Bool) : (getSession upgrades).Ready (getHead upgrades) [] :=
  ⟨rfl, ⟨_, rfl, rfl⟩, rfl⟩

theorem modes_correspond_get :
    Correspond (getHead false) (Downstream.setRequestBodyReader (getSession false)).2.bodyReader.readState
      (Upstream.setRequestBodyWriter (getHead false) (.new ⟨[], [], []⟩ (fun _ => 0))).2.bodyWriter.writeState ↔
      Utils.isRequestUpgrade (getHead false) = false :=
  modes_correspond_iff (getHead false) [] (getSession false) (getSession_ready false) _

/-- The reader of an upgrade completes at once, its writer writes until closed. -/
theorem upgrade_modes_differ :
    (Downstream.setRequestBodyReader (getSession true)).2.bodyReader.readState = .completed 0 ∧
    (Upstream.setRequestBodyWriter (getHead true) (.new ⟨[], [], []⟩ (fun _ => 0))).2.bodyWriter.writeState = .http10 0 ∧
    ¬ Correspond (getHead true) (Downstream.setRequestBodyReader (getSession true)).2.bodyReader.readState
      (Upstream.setRequestBodyWriter (getHead true) (.new ⟨[], [], []⟩ (fun _ => 0))).2.bodyWriter.writeState := by
  have hr : (Downstream.setRequestBodyReader (getSession true)).2.bodyReader.readState = .completed 0 := by decide
  refine ⟨hr, by decide, fun hc => ?_⟩
  have := hc.of_upgrade (by decide)
  rw [hr] at this; cases this

/-! ## The gateway and the server -/

/-- The framing a reader's mode amounts to. -/
def chosenFraming : ReadState → Option Framing
  | .chunked 0 0 0 0 => some .chunked
  | .partially 0 n => some (.length n)
  | .completed 0 => some (.length 0)
  | _ => none

/-- The fields that frame the body come in a form the gateway reads in full: if there
    are transfer codings, the first line is `chunked` and the list ends in it; else, if
    there are content lengths, they are all one number, which is 0 or is the whole first
    line and below `2^63`. -/
def PlainlyFramed (h : RequestHeader) : Prop :=
  let codings := h.getHeaders transferEncoding
  let lengths := h.getHeaders contentLength
  (codings ≠ [] → Utils.isHeaderValueChunkEncoding codings.head? = true ∧ Message.endsInChunked codings = true) ∧
  (codings = [] → lengths ≠ [] → ∃ n, Message.oneNumber (Message.elements lengths) = some n ∧
    (n = 0 ∨ n < 2 ^ 63 ∧ lengths.head?.any isNumeral = true))

theorem framing_forwarded (h : RequestHeader) : Message.framing h.fields.forwarded =
    let codings := h.getHeaders transferEncoding
    let lengths := h.getHeaders contentLength
    if codings ≠ [] then (if Message.endsInChunked codings then some .chunked else none)
    else if lengths ≠ [] then (Message.oneNumber (Message.elements lengths)).map .length
    else some (.length 0) := by
  unfold Message.framing
  rw [h.fields.valuesOf_forwarded (ascii "transfer-encoding"), h.fields.valuesOf_forwarded (ascii "content-length"),
    show lowerName (ascii "transfer-encoding") = transferEncoding by decide,
    show lowerName (ascii "content-length") = contentLength by decide]
  rfl

/-- The framing chosen for an HTTP/1.1 head. -/
theorem chosenFraming_http11 {h : RequestHeader} (hv : h.version = .http11) (preread : Bytes) (r : BodyReader) :
    chosenFraming (Downstream.selectReader h preread r).readState = some
      (if Utils.isHeaderValueChunkEncoding (h.getHeader transferEncoding) then .chunked
        else .length ((Utils.getContentLengthValue (h.getHeader contentLength)).getD 0)) := by
  unfold Downstream.selectReader
  rw [hv]
  cases Utils.isHeaderValueChunkEncoding (h.getHeader transferEncoding) with
  | true => rfl
  | false =>
    cases Utils.getContentLengthValue (h.getHeader contentLength) with
    | none => rfl
    | some n => cases n <;> rfl

/-- A length the gateway reads off a line: the line is an element as it stands. -/
theorem getContentLengthValue_some {v : Bytes} {n : Nat} (h : Utils.getContentLengthValue (some v) = some n)
    (vs : List Bytes) : v ∈ Message.elements (v :: vs) ∧ ∃ m, parseI64 v = some m ∧ m = n := by
  unfold Utils.getContentLengthValue at h
  simp only at h
  cases hp : parseI64 v with
  | none => rw [hp] at h; cases h
  | some m =>
    rw [hp] at h
    simp only at h
    split at h
    · obtain ⟨hne, hb⟩ := parseI64_bytes hp
      refine ⟨Message.mem_elements_solid hne (fun b hbm => ?_) vs, m, rfl, ?_⟩
      · rcases hb b hbm with hd | rfl | rfl
        · exact Message.isSolid_of_isDigit hd
        · decide
        · decide
      · have := Option.some.inj h; omega
    · cases h

theorem getContentLengthValue_of_isNumeral {v : Bytes} (h : isNumeral v = true) :
    Utils.getContentLengthValue (some v) = if decNumber v < 2 ^ 63 then some (decNumber v) else none := by
  unfold Utils.getContentLengthValue
  simp only [parseI64_of_isNumeral h]
  by_cases hlt : decNumber v < 2 ^ 63
  · rw [fitI64_of_lt hlt, if_pos hlt]
    simp
  · rw [fitI64_of_not_lt hlt, if_neg hlt]

/-- Content lengths of one number `n`: the gateway reads `n` off the first line exactly
    when it is 0 or the line is its numeral. -/
theorem content_length_read {v : Bytes} {vs : List Bytes} {n : Nat}
    (hn : Message.oneNumber (Message.elements (v :: vs)) = some n) :
    (Utils.getContentLengthValue (some v)).getD 0 = n ↔ n = 0 ∨ n < 2 ^ 63 ∧ isNumeral v = true := by
  constructor
  · intro h
    cases hc : Utils.getContentLengthValue (some v) with
    | none => rw [hc] at h; exact Or.inl h.symm
    | some m =>
      rw [hc, Option.getD_some] at h
      subst h
      obtain ⟨hmem, k, hk, hkm⟩ := getContentLengthValue_some hc vs
      obtain ⟨h1, h2⟩ := Message.oneNumber_mem hn hmem
      rw [getContentLengthValue_of_isNumeral h1] at hc
      split at hc
      · exact Or.inr ⟨by omega, h1⟩
      · cases hc
  · intro h
    rcases h with rfl | ⟨hlt, hv⟩
    · cases hc : Utils.getContentLengthValue (some v) with
      | none => rfl
      | some m =>
        obtain ⟨hmem, _⟩ := getContentLengthValue_some hc vs
        obtain ⟨h1, h2⟩ := Message.oneNumber_mem hn hmem
        rw [getContentLengthValue_of_isNumeral h1] at hc
        split at hc
        · rw [Option.getD_some, ← Option.some.inj hc, h2]
        · cases hc
    · obtain ⟨hne, hd⟩ := isNumeral_digits hv
      have hmem := Message.mem_elements_solid hne (fun b hb => Message.isSolid_of_isDigit (hd b hb)) vs
      have h2 := (Message.oneNumber_mem hn hmem).2
      rw [getContentLengthValue_of_isNumeral hv, h2, if_pos hlt, Option.getD_some]

/-- The gateway's framing is that of the head it forwards exactly when the head is
    plainly framed. -/
theorem framing_agrees_iff (crates : Crates) (client server : Stream) (mc ms : Nat → Byte) (d : Downstream)
    (u : Upstream) (hopen : openExchange crates (.new client mc, .new server ms) = (.ok (), d, u)) (h : RequestHeader)
    (hh : d.requestHeader = some h) (hv : h.version = .http11) (hu : Utils.isRequestUpgrade h = false) :
    (∃ f, Message.framing h.fields.forwarded = some f ∧
      chosenFraming (Downstream.setRequestBodyReader d).2.bodyReader.readState = some f) ↔ PlainlyFramed h := by
  obtain ⟨req, preread, buf, hd, -⟩ := openExchange_ok hopen
  obtain rfl : req = h := Option.some.inj (hd.head.symm.trans hh)
  rw [Downstream.setRequestBodyReader_ready hd, framing_forwarded]
  simp only [Downstream.selected, chosenFraming_http11 hv]
  have hte : req.getHeader transferEncoding = (req.getHeaders transferEncoding).head? := rfl
  have hcl : req.getHeader contentLength = (req.getHeaders contentLength).head? := rfl
  rw [hte, hcl]
  unfold PlainlyFramed
  simp only
  generalize req.getHeaders transferEncoding = codings
  generalize req.getHeaders contentLength = lengths
  by_cases hc : codings = []
  · subst hc
    simp only [ne_eq, not_true_eq_false, if_false, List.head?_nil, Utils.isHeaderValueChunkEncoding, Bool.false_eq_true,
      false_implies, true_and, true_implies]
    cases lengths with
    | nil => simp [Utils.getContentLengthValue]
    | cons v vs =>
      simp only [reduceCtorEq, not_false_eq_true, if_true, List.head?_cons, true_implies, Option.any_some]
      constructor
      · intro h
        rcases h with ⟨f, h1, h2⟩
        obtain ⟨n, hn, rfl⟩ := Option.map_eq_some_iff.mp h1
        injection h2 with h2
        injection h2 with h2
        exact ⟨n, hn, (content_length_read hn).mp h2⟩
      · intro h
        rcases h with ⟨n, hn, hcond⟩
        exact ⟨.length n, by rw [hn]; rfl, by rw [(content_length_read hn).mpr hcond]⟩
  · simp only [ne_eq, hc, not_false_eq_true, if_true, true_implies, false_implies, and_true]
    cases h1 : Utils.isHeaderValueChunkEncoding codings.head? <;> cases h2 : Message.endsInChunked codings <;> simp

def lengthFive : Field := ⟨ascii "Content-Length", ascii "5", contentLength_token⟩

theorem framing_agrees_lengthFive :
    (∃ f, Message.framing (Downstream.requestHeaderOf (postHead lengthFive).2).fields.forwarded = some f ∧
      chosenFraming (Downstream.setRequestBodyReader (postExchange lengthFive []).2.1).2.bodyReader.readState = some f) ↔
      PlainlyFramed (Downstream.requestHeaderOf (postHead lengthFive).2) :=
  framing_agrees_iff (postCrates lengthFive) _ _ _ _ (postExchange lengthFive []).2.1 (postExchange lengthFive []).2.2
    (Prod.ext (by decide) rfl) (Downstream.requestHeaderOf (postHead lengthFive).2) rfl rfl (by decide)

def gzipChunked : Field := ⟨ascii "Transfer-Encoding", ascii "gzip, chunked", transferEncoding_token⟩

/-- A list of codings that ends in `chunked` is forwarded, and read as no body. -/
theorem framing_differs_gzipChunked :
    (postExchange gzipChunked []).1 = .ok () ∧
    ¬ ∃ f, Message.framing (Downstream.requestHeaderOf (postHead gzipChunked).2).fields.forwarded = some f ∧
      chosenFraming (Downstream.setRequestBodyReader (postExchange gzipChunked []).2.1).2.bodyReader.readState =
        some f := by
  have h1 : Message.framing (Downstream.requestHeaderOf (postHead gzipChunked).2).fields.forwarded =
      some .chunked := by decide
  have h2 : chosenFraming (Downstream.setRequestBodyReader (postExchange gzipChunked []).2.1).2.bodyReader.readState =
      some (.length 0) := by decide
  refine ⟨by decide, ?_⟩
  rw [h1, h2]
  simp

end Glaive.Service
