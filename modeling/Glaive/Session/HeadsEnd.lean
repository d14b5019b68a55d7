/-
  Glaive.Session.HeadsEnd — a server that closes before its response
  (`core/src/session/upstream.rs`: `read_response`, `read_upstream_response`;
  `response.rs`: `ResponseHeader::build`).

  An end of input within a head is an `Err`. One where a head would start is not: the
  loop returns `Ok` without a head, and `read_upstream_response` takes the head the
  session still holds. That panics when there is none, and mostly when there is one: the
  bytes past it are cut from a buffer that is cleared. On a HEAD request, where they are
  not asked for again, the head is given again at every call. A status below 100 panics
  too. `heads_end_iff` says when
  the calls give each head once and then an `Err`.
-/

import Glaive.Session.ResponseReading

namespace Glaive.Session

open Glaive.Lib
open Glaive.Lib.Async

/-! ## A script that closes -/

/-- No head comes in the pieces. -/
def Headless {α : Type} (parse : Bytes → HeadStatus α) (segs : List Bytes) : Prop :=
  ∀ grp bs size parts rest, ¬ HeadComes parse [] (segs.map .data) grp bs size parts rest

/-- The script a head comes in may go on after it. -/
theorem HeadComes.append {α : Type} {parse : Bytes → HeadStatus α} {readBuffer bs : Bytes} {evs rest : List ReadEv}
    {segs : List Bytes} {size : Nat} {parts : α} (h : HeadComes parse readBuffer evs segs bs size parts rest)
    (after : List ReadEv) : HeadComes parse readBuffer (evs ++ after) segs bs size parts (rest ++ after) := by
  obtain ⟨rfl, hne, hshort, hroom, hc⟩ := h
  exact ⟨by simp, hne, hshort, hroom, hc⟩

/-- A script has one first head. -/
theorem HeadComes.unique {α : Type} {parse : Bytes → HeadStatus α} {evs rest rest' : List ReadEv} {grp grp' : List Bytes}
    {bs bs' : Bytes} {size size' : Nat} {parts parts' : α} (h : HeadComes parse [] evs grp bs size parts rest)
    (h' : HeadComes parse [] evs grp' bs' size' parts' rest') :
    [] ++ grp.flatten ++ bs = [] ++ grp'.flatten ++ bs' ∧ size = size' ∧ parts = parts' ∧ rest = rest' := by
  have h1 := readHead_some_iff.mpr ⟨grp, bs, rfl, h⟩
  have h2 := readHead_some_iff.mpr ⟨grp', bs', rfl, h'⟩
  have heq := h1.symm.trans h2
  rw [Prod.mk.injEq, Out.ok.injEq, Option.some.injEq, Prod.mk.injEq, Prod.mk.injEq] at heq
  obtain ⟨⟨h3, h4, h5⟩, h6⟩ := heq
  exact ⟨h3, h4, h5, h6⟩

/-- What the loop makes of pieces and then the end of the input. -/
theorem readHead_closing {α : Type} (parse : Bytes → HeadStatus α) (after : List ReadEv) : ∀ {segs : List Bytes}
    (readBuffer : Bytes), (∀ x ∈ segs, x ≠ []) →
    (∃ grp bs segs' size parts, segs = grp ++ bs :: segs' ∧
      HeadComes parse readBuffer (segs.map .data) grp bs size parts (segs'.map .data)) ∨
    (readBuffer = [] ∧ segs = [] ∧
      readHead parse readBuffer (segs.map .data ++ .data [] :: after) = (.ok none, after)) ∨
    (readBuffer ++ segs.flatten ≠ [] ∧
      ∃ e rest, readHead parse readBuffer (segs.map .data ++ .data [] :: after) = (.err e, rest)) := by
  intro segs
  induction segs with
  | nil =>
    intro readBuffer _
    by_cases hb : readBuffer = []
    · rw [hb]
      exact .inr (.inl ⟨rfl, rfl, rfl⟩)
    · refine .inr (.inr ⟨by simpa using hb, ?_⟩)
      have hpos := List.length_pos_of_ne_nil hb
      rw [List.map_nil, List.nil_append]
      unfold readHead
      by_cases hmax : maxBufferSize < readBuffer.length
      · rw [if_pos hmax]
        exact ⟨_, _, rfl⟩
      · rw [if_neg hmax]
        simp only [if_true, if_pos hpos]
        exact ⟨_, _, rfl⟩
  | cons x segs ih =>
    intro readBuffer hne
    obtain ⟨hx, hsegs⟩ := List.forall_mem_cons.mp hne
    have hcat : readBuffer ++ (x :: segs).flatten ≠ [] := by
      intro h
      exact hx (List.append_eq_nil_iff.mp (List.append_eq_nil_iff.mp h).2).1
    rw [List.map_cons, List.cons_append]
    unfold readHead
    by_cases hmax : maxBufferSize < readBuffer.length
    · rw [if_pos hmax]
      exact .inr (.inr ⟨hcat, _, _, rfl⟩)
    · rw [if_neg hmax]
      simp only [if_neg hx]
      cases hp : parse (readBuffer ++ x) with
      | complete size parts =>
        refine .inl ⟨[], x, segs, size, parts, rfl, rfl, by simpa using hx, ?_, by simpa using hmax, by simpa using hp⟩
        intro pre post hnil hpre
        exact absurd (List.append_eq_nil_iff.mp hnil.symm).1 hpre
      | invalid text => exact .inr (.inr ⟨hcat, _, _, rfl⟩)
      | incomplete =>
        rcases ih (readBuffer ++ x) hsegs with ⟨grp, bs, segs', size, parts, rfl, hc⟩ | ⟨hnil, -⟩ | ⟨-, he⟩
        · exact .inl ⟨x :: grp, bs, segs', size, parts, rfl, hc.more hx hp⟩
        · exact absurd (List.append_eq_nil_iff.mp hnil).2 hx
        · exact .inr (.inr ⟨hcat, he⟩)

namespace Upstream

variable {crates : Crates} {u v : Upstream} {req : RequestHeader}

/-! ## One call for a head -/

/-- A status that is none panics. -/
theorem readUpstreamResponse_noStatus (hs : u.shouldReadResponseHeader = true) {buf : Bytes} {size : Nat}
    {parts : ResponseParts} {rest : List ReadEv}
    (hr : readHead crates.parseResponse [] u.stream.input = (.ok (some (buf, size, parts)), rest))
    (hh : responseHeaderOf crates parts = none) :
    (readUpstreamResponse crates u).1 = .panic "Failed to convert status code" := by
  have hloop : onStream (headLoop crates.parseResponse) { u with buffer := [] } =
      (.ok (some (buf, size, parts)), { u with buffer := [], stream := { u.stream with input := rest } }) := by
    unfold onStream headLoop
    rw [zoom_apply, hr]
  have hread : ∃ w, readResponse crates u = (.panic "Failed to convert status code", w) := by
    unfold readResponse
    simp only [modify_bind_apply]
    rw [bind_ok hloop]
    simp only [modify_bind_apply, hh]
    exact ⟨_, rfl⟩
  obtain ⟨w, hw⟩ := hread
  unfold readUpstreamResponse
  simp only [get_bind_apply, hs, if_true]
  rw [bind_apply, hw]

/-- An error of the loop is the error of the call. -/
theorem readUpstreamResponse_headErr (hs : u.shouldReadResponseHeader = true) {e : IoError} {rest : List ReadEv}
    (hr : readHead crates.parseResponse [] u.stream.input = (.err e, rest)) :
    (readUpstreamResponse crates u).1 = .err e := by
  have hloop : onStream (headLoop crates.parseResponse) { u with buffer := [] } =
      (.err e, { u with buffer := [], stream := { u.stream with input := rest } }) := by
    unfold onStream headLoop
    rw [zoom_apply, hr]
  have hcall : readResponse crates u =
      (.err e, { u with buffer := [], stream := { u.stream with input := rest } }) := by
    unfold readResponse
    simp only [modify_bind_apply]
    exact bind_err hloop
  unfold readUpstreamResponse
  simp only [get_bind_apply, hs, if_true]
  rw [bind_err hcall]

/-- To look for the end of a body is no reason for an `Err`. -/
theorem isReadingResponseBodyFinished_no_err (hreq : u.requestHeader = some req) {h : ResponseHeader}
    (hresp : u.responseHeader = some h) {e : IoError} : (isReadingResponseBodyFinished u).1 ≠ .err e := by
  by_cases hs : u.bodyReader.isStart = true
  · by_cases hb : ∃ o bs, u.bufBodyOffset = some o ∧ o.get u.buffer = some bs
    · obtain ⟨o, bs, ho, hg⟩ := hb
      unfold isReadingResponseBodyFinished
      rw [bind_ok (setResponseBodyReader_eq hreq hresp ho hg)]
      nofun
    · have hbytes : ∃ text w, bodyBytes u = (.panic text, w) := by
        unfold bodyBytes
        cases ho : u.bufBodyOffset with
        | none => exact ⟨_, _, rfl⟩
        | some o =>
          cases hg : o.get u.buffer with
          | some bs => exact absurd ⟨o, bs, ho, hg⟩ hb
          | none => simp only [hg]; exact ⟨_, _, rfl⟩
      obtain ⟨text, w, hbytes⟩ := hbytes
      have hset : setResponseBodyReader u = (.panic text, w) := by
        unfold setResponseBodyReader
        simp only [get_bind_apply, hs, if_true]
        rw [bind_apply, hbytes]
      unfold isReadingResponseBodyFinished
      rw [bind_apply, hset]
      nofun
  · rw [isReadingResponseBodyFinished_of_not_start (by simpa using hs)]
    nofun

/-- Where the input ends before a head starts, there is no `Err`. -/
theorem readUpstreamResponse_closed (hreq : u.requestHeader = some req) (hs : u.shouldReadResponseHeader = true)
    {rest : List ReadEv} (hr : readHead crates.parseResponse [] u.stream.input = (.ok none, rest)) {e : IoError} :
    (readUpstreamResponse crates u).1 ≠ .err e := by
  have hloop : onStream (headLoop crates.parseResponse) { u with buffer := [] } =
      (.ok none, { u with buffer := [], stream := { u.stream with input := rest } }) := by
    unfold onStream headLoop
    rw [zoom_apply, hr]
  obtain ⟨w, hread, hw⟩ : ∃ w, readResponse crates u = (.ok (), w) ∧ w.requestHeader = some req := by
    unfold readResponse
    simp only [modify_bind_apply]
    rw [bind_ok hloop]
    exact ⟨_, rfl, hreq⟩
  unfold readUpstreamResponse
  simp only [get_bind_apply, hs, if_true]
  rw [bind_ok hread]
  simp only [get_bind_apply]
  cases hresp : w.responseHeader with
  | none => nofun
  | some h =>
    have hno := isReadingResponseBodyFinished_no_err (e := e) hw hresp
    simp only
    rw [bind_apply]
    split
    · nofun
    · rename_i heq
      rw [heq] at hno
      intro he
      cases he
      exact hno rfl
    · nofun
    · nofun

/-! ## Heads and then an end -/

/-- Heads of the stream end one after the other, the last at `pos`. -/
inductive Boundary (crates : Crates) (whole : Bytes) : Nat → Prop
  | start : Boundary crates whole 0
  | next {pos size : Nat} {parts : ResponseParts} : Boundary crates whole pos →
      crates.parseResponse (whole.drop pos) = .complete size parts → Boundary crates whole (pos + size)

/-- A final head is in the stream: 101 ends the informational ones. -/
def FinalArrives (crates : Crates) (whole : Bytes) : Prop :=
  ∃ pos size parts, Boundary crates whole pos ∧ crates.parseResponse (whole.drop pos) = .complete size parts ∧
    (parts.code = 101 ∨ 200 ≤ parts.code)

/-- The calls give heads of the stream, each from reads of its own, and then an `Err`;
    `pos` bytes were read before. -/
inductive HeadsThenErr (crates : Crates) (whole : Bytes) : Nat → Upstream → Prop
  | err {pos : Nat} {u : Upstream} {e : IoError} : (readUpstreamResponse crates u).1 = .err e →
      HeadsThenErr crates whole pos u
  | head {pos size : Nat} {u v : Upstream} {h : ResponseHeader} {fin : Bool} {grp : List Bytes} {bs : Bytes}
      {parts : ResponseParts} : Boundary crates whole pos → readUpstreamResponse crates u = (.ok (.header h fin), v) →
      HeadComes crates.parseResponse [] u.stream.input grp bs size parts v.stream.input →
      responseHeaderOf crates parts = some h → HeadsThenErr crates whole (pos + (grp.flatten ++ bs).length) v →
      HeadsThenErr crates whole pos u

/-- The pieces bring heads of the stream, each from a piece that starts with it and with a
    status, and then at least one more piece, in which no head is complete. -/
inductive Trailed (crates : Crates) (whole : Bytes) : Nat → List Bytes → Prop
  | tail {pos : Nat} {segs : List Bytes} : segs ≠ [] → Headless crates.parseResponse segs → Trailed crates whole pos segs
  | head {pos size : Nat} {grp segs : List Bytes} {bs : Bytes} {parts : ResponseParts} : Boundary crates whole pos →
      HeadComes crates.parseResponse [] ((grp ++ bs :: segs).map .data) grp bs size parts (segs.map .data) →
      100 ≤ parts.code ∧ parts.code < 1000 → Trailed crates whole (pos + (grp.flatten ++ bs).length) segs →
      Trailed crates whole pos (grp ++ bs :: segs)

theorem responseHeaderOf_isSome (crates : Crates) (parts : ResponseParts) :
    (∃ h, responseHeaderOf crates parts = some h) ↔ 100 ≤ parts.code ∧ parts.code < 1000 := by
  unfold responseHeaderOf
  by_cases hc : (decide (100 ≤ parts.code) && decide (parts.code < 1000)) = true
  · rw [if_pos hc]
    exact ⟨fun _ => by simpa using hc, fun _ => ⟨_, rfl⟩⟩
  · rw [if_neg hc]
    constructor
    · intro h
      rcases h with ⟨_, ⟨⟩⟩
    · intro h
      exact absurd (by simpa using h) hc

theorem responseHeaderOf_status {parts : ResponseParts} {h : ResponseHeader} (hh : responseHeaderOf crates parts = some h) :
    h.status = parts.code := by
  unfold responseHeaderOf at hh
  split at hh
  · cases hh
    unfold ResponseHeader.setReasonPhrase
    split <;> rfl
  · cases hh

/-- A session that looks for a head, with the pieces still to come. -/
structure Awaiting (req : RequestHeader) (segs : List Bytes) (after : List ReadEv) (u : Upstream) : Prop where
  request : u.requestHeader = some req
  looks : u.shouldReadResponseHeader = true
  input : u.stream.input = segs.map .data ++ .data [] :: after

/-- The parser stops at the end of a head, whatever follows. -/
def Stable (crates : Crates) : Prop := ∀ buf size parts more, crates.parseResponse buf = .complete size parts →
  crates.parseResponse (buf ++ more) = .complete size parts

/-- After a head that is not final the session looks for the next. -/
theorem awaiting_next {segs segs' : List Bytes} {after : List ReadEv} {whole : Bytes} {pos size : Nat}
    {grp : List Bytes} {bs : Bytes} {parts : ResponseParts} {h : ResponseHeader} (stable : Stable crates)
    (hno : ¬ FinalArrives crates whole) (hpos : Boundary crates whole pos) (hu : Awaiting req segs after u)
    (hwhole : whole.drop pos = segs.flatten) (hsegs : segs = grp ++ bs :: segs')
    (hc : HeadComes crates.parseResponse [] (segs.map .data) grp bs size parts (segs'.map .data))
    (hh : responseHeaderOf crates parts = some h) :
    Awaiting req segs' after (readUpstreamResponse crates u).2 ∧
      whole.drop (pos + (grp.flatten ++ bs).length) = segs'.flatten := by
  have hcomes := hc.append (.data [] :: after)
  rw [← hu.input] at hcomes
  have hr := readHead_some_iff.mpr ⟨grp, bs, rfl, hcomes⟩
  have hcall := readUpstreamResponse_took hu.request hu.looks hr hh
  have hflat : segs.flatten = grp.flatten ++ bs ++ segs'.flatten := by
    rw [hsegs, List.flatten_append, List.flatten_cons, List.append_assoc]
  have hparse : crates.parseResponse (whole.drop pos) = .complete size parts := by
    rw [hwhole, hflat]
    exact stable _ _ _ _ hc.complete
  have hinterim : ¬ (parts.code = 101 ∨ 200 ≤ parts.code) := fun hf => hno ⟨pos, size, parts, hpos, hparse, hf⟩
  have hcode := (responseHeaderOf_isSome crates parts).mp ⟨h, hh⟩
  rw [hcall]
  refine ⟨⟨hu.request, ?_, rfl⟩, ?_⟩
  · refine (shouldRead_some (h := h) rfl).mpr ⟨?_, ?_⟩
    · unfold ResponseHeader.isInformational
      rw [responseHeaderOf_status hh]
      simp only [Bool.and_eq_true, decide_eq_true_eq]
      omega
    · rw [responseHeaderOf_status hh]
      omega
  · rw [← List.drop_drop, hwhole, hflat, List.drop_left]

theorem headsThenErr_of_trailed (stable : Stable crates) {after : List ReadEv} {whole : Bytes}
    (hno : ¬ FinalArrives crates whole) {pos : Nat} {segs : List Bytes} (ht : Trailed crates whole pos segs) :
    ∀ {u : Upstream}, Awaiting req segs after u → (∀ x ∈ segs, x ≠ []) → whole.drop pos = segs.flatten →
    HeadsThenErr crates whole pos u := by
  induction ht with
  | tail hsegs hless =>
    intro u hu hne _
    rcases readHead_closing crates.parseResponse after [] hne with ⟨grp, bs, segs', size, parts, -, hc⟩ | ⟨-, hnil, -⟩ | ⟨-, e, rest, he⟩
    · exact absurd hc (hless _ _ _ _ _)
    · exact absurd hnil hsegs
    · rw [← hu.input] at he
      exact .err (readUpstreamResponse_headErr hu.looks he)
  | @head pos size grp segs bs parts hpos hc hcode _ ih =>
    intro u hu hne hwhole
    obtain ⟨h, hh⟩ := (responseHeaderOf_isSome crates parts).mpr hcode
    obtain ⟨hv, hdrop⟩ := awaiting_next stable hno hpos hu hwhole rfl hc hh
    have hcomes := hc.append (.data [] :: after)
    rw [← hu.input] at hcomes
    have hcall := readUpstreamResponse_took hu.request hu.looks (readHead_some_iff.mpr ⟨grp, bs, rfl, hcomes⟩) hh
    rw [hcall] at hv
    refine .head hpos hcall hcomes hh (ih hv ?_ hdrop)
    exact fun x hx => hne x (List.mem_append_right _ (List.mem_cons_of_mem _ hx))

theorem trailed_of_headsThenErr (stable : Stable crates) {after : List ReadEv} {whole : Bytes}
    (hno : ¬ FinalArrives crates whole) {pos : Nat} {u : Upstream} (hh : HeadsThenErr crates whole pos u) :
    ∀ {segs : List Bytes}, Awaiting req segs after u → (∀ x ∈ segs, x ≠ []) → whole.drop pos = segs.flatten →
    Trailed crates whole pos segs := by
  induction hh with
  | @err pos u e he =>
    intro segs hu hne _
    rcases readHead_closing crates.parseResponse after [] hne with ⟨grp, bs, segs', size, parts, -, hc⟩ | ⟨-, hnil, hnone⟩ | ⟨hcat, e', rest, he'⟩
    · -- a head that comes is a task or a panic
      have hcomes := hc.append (.data [] :: after)
      rw [← hu.input] at hcomes
      have hr := readHead_some_iff.mpr ⟨grp, bs, rfl, hcomes⟩
      cases hb : responseHeaderOf crates parts with
      | some h =>
        rw [readUpstreamResponse_took hu.request hu.looks hr hb] at he
        cases he
      | none =>
        rw [readUpstreamResponse_noStatus hu.looks hr hb] at he
        cases he
    · rw [← hu.input] at hnone
      exact absurd he (readUpstreamResponse_closed hu.request hu.looks hnone)
    · refine .tail (fun hnil => hcat (by rw [hnil]; rfl)) ?_
      intro grp bs size parts rest hc
      have hcomes := hc.append (.data [] :: after)
      rw [readHead_some_iff.mpr ⟨grp, bs, rfl, hcomes⟩] at he'
      cases he'
  | @head pos size u v h fin grp bs parts hpos hcall hcomes hb _ ih =>
    intro segs hu hne hwhole
    rcases readHead_closing crates.parseResponse after [] hne with ⟨grp', bs', segs', size', parts', hsegs, hc⟩ | ⟨-, -, hnone⟩ | ⟨-, e', rest, he'⟩
    · have hcomes' := hc.append (.data [] :: after)
      rw [← hu.input] at hcomes'
      obtain ⟨hbuf, rfl, rfl, hrest⟩ := hcomes'.unique hcomes
      obtain ⟨hv, hdrop⟩ := awaiting_next stable hno hpos hu hwhole hsegs hc hb
      rw [hcall] at hv
      have hlen : (grp'.flatten ++ bs').length = (grp.flatten ++ bs).length := congrArg List.length hbuf
      rw [← hlen] at ih
      subst hsegs
      refine .head hpos hc ((responseHeaderOf_isSome crates parts').mp ⟨h, hb⟩) (ih hv ?_ hdrop)
      exact fun x hx => hne x (List.mem_append_right _ (List.mem_cons_of_mem _ hx))
    · rw [← hu.input, readHead_some_iff.mpr ⟨grp, bs, rfl, hcomes⟩] at hnone
      cases hnone
    · rw [← hu.input, readHead_some_iff.mpr ⟨grp, bs, rfl, hcomes⟩] at he'
      cases he'

/-- For every way to cut a stream that ends without a final head, the calls give each head
    once and then an `Err` just if every head that comes is read from its start and has a
    status, and at least one more piece comes before the end. And a call that a head comes
    to panics just if it has no status. -/
theorem heads_end_iff (crates : Crates) (stable : Stable crates) (req : RequestHeader) (u : Upstream)
    (hreq : u.requestHeader = some req) (hnew : u.responseHeader = none) (segs : List Bytes)
    (hne : ∀ x ∈ segs, x ≠ []) (after : List ReadEv) (hin : u.stream.input = segs.map .data ++ .data [] :: after)
    (hno : ¬ FinalArrives crates segs.flatten) :
    (HeadsThenErr crates segs.flatten 0 u ↔ Trailed crates segs.flatten 0 segs) ∧
      ∀ (v : Upstream) grp bs size parts rest, v.requestHeader = some req → v.shouldReadResponseHeader = true →
        HeadComes crates.parseResponse [] v.stream.input grp bs size parts rest →
        ((∀ text, (readUpstreamResponse crates v).1 ≠ .panic text) ↔ 100 ≤ parts.code ∧ parts.code < 1000) := by
  have hu : Awaiting req segs after u := ⟨hreq, by unfold shouldReadResponseHeader; rw [hnew], hin⟩
  refine ⟨⟨fun h => trailed_of_headsThenErr stable hno h hu hne rfl,
    fun h => headsThenErr_of_trailed stable hno h hu hne rfl⟩, ?_⟩
  intro v grp bs size parts rest hv hs hcomes
  have hr := readHead_some_iff.mpr ⟨grp, bs, rfl, hcomes⟩
  rw [← responseHeaderOf_isSome crates parts]
  cases hb : responseHeaderOf crates parts with
  | some h =>
    rw [readUpstreamResponse_took hv hs hr hb]
    exact ⟨fun _ => ⟨h, rfl⟩, fun _ _ => nofun⟩
  | none =>
    rw [readUpstreamResponse_noStatus hs hr hb]
    constructor
    · intro h
      exact absurd rfl (h _)
    · intro h
      rcases h with ⟨_, ⟨⟩⟩

/-! ## A server that says to continue -/

def continueText : Bytes := ascii "HTTP/1.1 100 Continue\r\n\r\n"

/-- The one head the parser knows, with the status `code`. -/
def statusCrates (code : Nat) : Crates := .ofTables [] [(continueText, ⟨code, 1, some (ascii "Continue"), []⟩)]

/-- A session that has sent a request, and what the server sends. -/
def awaiting (method : String) (input : List ReadEv) : Upstream :=
  { Upstream.new ⟨input, [], []⟩ (fun _ => 0) with requestHeader := some ⟨ascii method, ascii "/", .http11, .empty⟩ }

theorem statusCrates_stable (code : Nat) : Stable (statusCrates code) := by
  intro buf size parts more h
  change parseTable _ _ = _ at h ⊢
  unfold parseTable at h ⊢
  by_cases hp : continueText.isPrefixOf buf = true
  · have hp' : continueText.isPrefixOf (buf ++ more) = true :=
      List.isPrefixOf_iff_prefix.mpr ((List.isPrefixOf_iff_prefix.mp hp).trans (List.prefix_append ..))
    simp only [List.find?_cons, hp, hp'] at h ⊢
    exact h
  · simp only [List.find?_cons, hp, List.find?_nil] at h
    split at h <;> cases h

theorem heads_end_iff_continue :
    (HeadsThenErr (statusCrates 100) [continueText, [72]].flatten 0
        (awaiting "POST" ([continueText, [72]].map .data ++ .data [] :: [])) ↔
      Trailed (statusCrates 100) [continueText, [72]].flatten 0 [continueText, [72]]) ∧
      ∀ (v : Upstream) grp bs size parts rest, v.requestHeader = some ⟨ascii "POST", ascii "/", .http11, .empty⟩ →
        v.shouldReadResponseHeader = true →
        HeadComes (statusCrates 100).parseResponse [] v.stream.input grp bs size parts rest →
        ((∀ text, (readUpstreamResponse (statusCrates 100) v).1 ≠ .panic text) ↔
          100 ≤ parts.code ∧ parts.code < 1000) := by
  refine heads_end_iff (statusCrates 100) (statusCrates_stable 100) ⟨ascii "POST", ascii "/", .http11, .empty⟩
    (awaiting "POST" ([continueText, [72]].map .data ++ .data [] :: [])) rfl rfl [continueText, [72]] (by decide) [] rfl ?_
  intro h
  rcases h with ⟨pos, size, parts, -, hparse, hfinal⟩
  obtain ⟨e, he, rfl⟩ := parseTable_mem hparse
  rw [List.mem_singleton.mp he] at hfinal
  exact absurd hfinal (by decide)

/-- Closed before any byte, the call panics. Closed after the informational head, so does
    the second, or to a HEAD request the head is given again. A status of 99 panics. -/
theorem heads_do_not_end :
    (readUpstreamResponse (statusCrates 100) (awaiting "POST" [.data []])).1 =
      .panic "called `Option::unwrap()` on a `None` value" ∧
    (∃ h u, calls (statusCrates 100) 1 (awaiting "POST" [.data continueText, .data []]) = some ([.header h false], u) ∧
      (readUpstreamResponse (statusCrates 100) u).1 = .panic "range end index out of range") ∧
    (∃ h u, calls (statusCrates 100) 3 (awaiting "HEAD" [.data continueText, .data [], .data []]) =
      some ([.header h true, .header h true, .header h true], u)) ∧
    (readUpstreamResponse (statusCrates 99) (awaiting "POST" [.data continueText, .data []])).1 =
      .panic "Failed to convert status code" :=
  ⟨rfl, ⟨_, _, rfl, rfl⟩, ⟨_, _, rfl⟩, rfl⟩

end Upstream

end Glaive.Session
