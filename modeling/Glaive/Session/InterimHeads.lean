/-
  Glaive.Session.InterimHeads — informational heads before a response
  (`core/src/session/upstream.rs`: `read_response`, which reads every head from a buffer
  of its own).

  What a read brings past an informational head stays in the session's buffer, and the
  next head is looked for on the socket. `heads_followed_iff`: each head is looked for
  where the last one ended exactly when every informational head's end is the end of a
  read, and none of them is a 101, after which no head is read. Two segmentations of which
  this holds give the same heads and data (`followed_alike`).

  The mode of the body is chosen at the first head, by the method before the status. So
  for a `HEAD` request an informational head already ends the response
  (`interims_never_end_iff`).
-/

import Glaive.Session.ResponseWriting

namespace Glaive.Session

open Glaive.Lib

/-- The heads of some tasks. -/
def headsIn (ts : List Task) : List ResponseHeader :=
  ts.filterMap fun | .header h _ => some h | _ => none

theorem headsIn_body (b : Option Bytes) (e : Bool) (ts : List Task) : headsIn (.body b e :: ts) = headsIn ts := rfl

theorem Bodies.given {ts : List Task} {data : Bytes} (hb : Bodies ts data) : headsIn ts = [] ∧ dataOf ts = data := by
  have hbody : ∀ b e, Task.data (.body b e) = b.getD [] := fun b e => by cases b <;> rfl
  induction hb with
  | last b => exact ⟨rfl, by rw [dataOf, List.map_singleton, List.flatten_singleton, hbody]⟩
  | more b _ ih =>
    refine ⟨(headsIn_body ..).trans ih.1, ?_⟩
    rw [dataOf, List.map_cons, List.flatten_cons, hbody, ← dataOf, ih.2]

theorem Response.given {h : ResponseHeader} {ts : List Task} {data : Bytes} (hr : Response h ts data) :
    headsIn ts = [h] ∧ dataOf ts = data := by
  cases hr with
  | headOnly => exact ⟨rfl, rfl⟩
  | withBody hb => exact ⟨congrArg (h :: ·) hb.given.1, hb.given.2⟩

namespace Upstream

variable {crates : Crates} {u : Upstream} {req : RequestHeader} {after : List ReadEv}

/-- The text of some heads and what follows them. -/
def headsThen (interims : List (ResponseHead crates)) (rest : Bytes) : Bytes :=
  (interims.map (·.text)).flatten ++ rest

/-- The calls give each of the heads and then the final response, and after each head
    all that follows it is still to be read from the socket. -/
def Followed (final : ResponseHead crates) (wire data : Bytes) (after : List ReadEv) :
    List (ResponseHead crates) → Upstream → Prop
  | [], u => ∃ n ts u', calls crates n u = some (ts, u') ∧ Response final.header ts data
  | head :: interims, u => ∃ endStream u', readUpstreamResponse crates u = (.ok (.header head.header endStream), u') ∧
      u'.stream.bytes = headsThen interims (final.text ++ wire) ++ Stream.bytesOf after ∧
      Followed final wire data after interims u'

/-- Only a session that looks for a head gives one. -/
theorem shouldRead_of_header {h : ResponseHeader} {e : Bool} {u' : Upstream}
    (hr : readUpstreamResponse crates u = (.ok (.header h e), u')) : u.shouldReadResponseHeader = true := by
  cases hs : u.shouldReadResponseHeader with
  | true => rfl
  | false =>
    unfold readUpstreamResponse at hr
    simp only [Async.get_bind_apply, hs, Bool.false_eq_true, if_false] at hr
    obtain ⟨fin, u1, -, h2⟩ := Async.of_bind_ok hr
    cases fin with
    | true => cases h2
    | false =>
      obtain ⟨b, u2, -, h4⟩ := Async.of_bind_ok h2
      obtain ⟨fin', u3, -, h6⟩ := Async.of_bind_ok h4
      cases h6

theorem Followed.shouldRead {final : ResponseHead crates} {wire data : Bytes} {interims : List (ResponseHead crates)}
    (hf : Followed final wire data after interims u) : u.shouldReadResponseHeader = true := by
  cases interims with
  | cons head interims =>
    obtain ⟨e, u', hr, -⟩ := hf
    exact shouldRead_of_header hr
  | nil =>
    obtain ⟨n, ts, u', hc, hts⟩ := hf
    cases n with
    | zero => cases hc; cases hts
    | succ n =>
      rw [calls] at hc
      split at hc
      · rename_i t u1 hr
        obtain ⟨⟨ts', u2⟩, -, he⟩ := Option.map_eq_some_iff.mp hc
        cases he
        cases hts <;> exact shouldRead_of_header hr
      · cases hc

/-- An informational head chooses no body. -/
theorem interim_reader {r : BodyReader} (hr : Unset req r) {h : ResponseHeader} (hinf : h.isInformational = true)
    (h101 : h.status ≠ 101) (surplus : Bytes) : Unset req (selectResponseReader req h surplus r) := by
  unfold selectResponseReader
  rcases hr.state with hs | ⟨hm, hs⟩
  · rw [if_pos hs]
    by_cases hm : req.method = ascii "HEAD"
    · rw [if_pos hm]
      exact ⟨⟨hr.idle.rewound, hr.idle.size⟩, Or.inr ⟨hm, rfl⟩⟩
    · rw [if_neg hm, if_neg h101, if_pos hinf]
      exact hr
  · rw [if_neg (by simp [BodyReader.isStart, hs])]
    exact hr

theorem followed_iff (hparse : ∀ l, Chunked.Recognizes crates.parseChunkSize l) (final : ResponseHead crates)
    (hst : 200 ≤ final.header.status) {wire data : Bytes} (hd : Delimited req final.header wire after data) : ∀ (interims : List (ResponseHead crates)),
    (∀ i ∈ interims, i.header.isInformational = true) → ∀ {u : Upstream} {segs : List Bytes},
    u.requestHeader = some req → u.shouldReadResponseHeader = true → Unset req u.bodyReader →
    u.stream.input = segs.map .data ++ after → (∀ x ∈ segs, x ≠ []) →
    segs.flatten = headsThen interims (final.text ++ wire) →
    (Followed final wire data after interims u ↔
      (∀ i ∈ interims, i.header.status ≠ 101) ∧ ∀ k ∈ cuts (interims.map (·.text)), k ∈ cuts segs) := by
  intro interims
  induction interims with
  | nil =>
    intro _ u segs hreq hs hu hin hne hf
    obtain ⟨n, ts, u', hrun, hts, -⟩ := calls_final hparse hreq hs hu final hst hd hin hne hf
    refine iff_of_true ⟨n, ts, u', hrun, hts⟩ ⟨by simp, fun k hk => ?_⟩
    rw [List.map_nil, cuts, List.mem_singleton] at hk
    rw [hk]
    exact zero_mem_cuts segs
  | cons head interims ih =>
    intro hinf u segs hreq hs hu hin hne hf
    have hinf0 := hinf head (List.mem_cons_self ..)
    obtain ⟨surplus, segs', hcall, htail, hne', hcut, hcuts⟩ := readUpstreamResponse_head hreq hs head hin hne
      (show segs.flatten = head.text ++ headsThen interims (final.text ++ wire) by rw [hf]; simp [headsThen])
    have hnext := shouldRead_some (u := u.headed req head surplus (segs'.map .data ++ after)) (h := head.header) rfl
    have hbytes : (u.headed req head surplus (segs'.map .data ++ after)).stream.bytes =
        segs'.flatten ++ Stream.bytesOf after := by
      show Stream.bytesOf (segs'.map .data ++ after) = _
      rw [Stream.bytesOf_append, Stream.bytesOf_map_data]
    have hstep : ∀ (h101 : head.header.status ≠ 101) (hsur : surplus = []),
        (Followed final wire data after interims (u.headed req head surplus (segs'.map .data ++ after)) ↔
          (∀ i ∈ interims, i.header.status ≠ 101) ∧
            ∀ k ∈ cuts (interims.map (·.text)), head.text.length + k ∈ cuts segs) := by
      intro h101 hsur
      refine (ih (fun i hi => hinf i (List.mem_cons_of_mem _ hi))
        (u := u.headed req head surplus (segs'.map .data ++ after)) hreq (hnext.mpr ⟨hinf0, h101⟩)
        (interim_reader hu hinf0 h101 surplus) rfl hne' (by rw [htail, hsur]; rfl)).trans ?_
      exact and_congr_right fun _ => forall₂_congr fun k _ => hcuts hsur k
    rw [List.map_cons, forall_cuts_cons, List.forall_mem_cons]
    constructor
    · intro h
      rcases h with ⟨e, u', hr, hby, hfo⟩
      cases hcall.symm.trans hr
      have hsur : surplus = [] := by
        rw [hbytes, htail, List.append_assoc] at hby
        have := congrArg List.length hby
        simp only [List.length_append] at this
        exact List.eq_nil_of_length_eq_zero (by omega)
      have h101 := (hnext.mp hfo.shouldRead).2
      obtain ⟨h1, h2⟩ := (hstep h101 hsur).mp hfo
      exact ⟨⟨h101, h1⟩, zero_mem_cuts segs, h2⟩
    · intro h
      rcases h with ⟨⟨h101, h1⟩, -, h2⟩
      have hsur := hcut.mp (h2 0 (zero_mem_cuts _))
      refine ⟨_, _, hcall, ?_, (hstep h101 hsur).mpr ⟨h1, h2⟩⟩
      rw [hbytes, htail, hsur, List.nil_append]

/-- Informational heads and a final response are read as they come exactly when each
    informational head ends where a read does, and none is a 101. -/
theorem heads_followed_iff (crates : Crates) (hparse : ∀ l, Chunked.Recognizes crates.parseChunkSize l) (u : Upstream)
    (req : RequestHeader) (hu : Fresh u req) (interims : List (ResponseHead crates))
    (hinf : ∀ i ∈ interims, i.header.isInformational = true)
    (final : ResponseHead crates) (hst : 200 ≤ final.header.status) (wire data : Bytes) (after : List ReadEv)
    (hd : Delimited req final.header wire after data) (segs : List Bytes) (hne : ∀ x ∈ segs, x ≠ [])
    (hsplit : segs.flatten = headsThen interims (final.text ++ wire)) (hin : u.stream.input = segs.map .data ++ after) :
    Followed final wire data after interims u ↔
      (∀ i ∈ interims, i.header.status ≠ 101) ∧ ∀ k ∈ cuts (interims.map (·.text)), k ∈ cuts segs :=
  followed_iff hparse final hst hd interims hinf hu.request hu.unset.1 hu.unset.2 hin hne hsplit

/-- All that the calls give: the heads in turn, and the data of the final response. -/
theorem Followed.given {final : ResponseHead crates} {wire data : Bytes} : ∀ {interims : List (ResponseHead crates)}
    {u : Upstream}, Followed final wire data after interims u → ∃ n ts u', calls crates n u = some (ts, u') ∧
      headsIn ts = interims.map (·.header) ++ [final.header] ∧ dataOf ts = data := by
  intro interims
  induction interims with
  | nil =>
    rintro u ⟨n, ts, u', hcalls, hr⟩
    exact ⟨n, ts, u', hcalls, hr.given⟩
  | cons head interims ih =>
    rintro u ⟨e, u1, hcall, -, hrest⟩
    obtain ⟨n, ts, u', hcalls, hheads, hdata⟩ := ih hrest
    refine ⟨n + 1, .header head.header e :: ts, u', by rw [calls_succ hcall, hcalls]; rfl, ?_, hdata⟩
    exact congrArg (head.header :: ·) hheads

/-- Two ways to cut the same bytes into reads, in each of which every head is followed,
    give the same heads and the same data. -/
theorem followed_alike {final : ResponseHead crates} {wire data : Bytes} {interims : List (ResponseHead crates)}
    {u v : Upstream} (hu : Followed final wire data after interims u) (hv : Followed final wire data after interims v) :
    ∃ n ts u' m ts' v', calls crates n u = some (ts, u') ∧ calls crates m v = some (ts', v') ∧
      headsIn ts = headsIn ts' ∧ dataOf ts = dataOf ts' := by
  obtain ⟨n, ts, u', hcalls, hheads, hdata⟩ := hu.given
  obtain ⟨m, ts', v', hcalls', hheads', hdata'⟩ := hv.given
  exact ⟨n, ts, u', m, ts', v', hcalls, hcalls', hheads.trans hheads'.symm, hdata.trans hdata'.symm⟩

/-! ## A 100 before a 200 -/

def continueHead : Bytes × ResponseParts :=
  (ascii "HTTP/1.1 100 Continue\r\n\r\n", ⟨100, 1, some (ascii "Continue"), []⟩)

def okHead : Bytes × ResponseParts :=
  (ascii "HTTP/1.1 200 OK\r\nContent-Length: 0\r\n\r\n",
    ⟨200, 1, some (ascii "OK"), [⟨ascii "Content-Length", ascii "0", contentLength_token⟩]⟩)

def continueCrates : Crates := .ofTables [] [continueHead, okHead]

def responseHead (e : Bytes × ResponseParts) (he : e ∈ [continueHead, okHead]) : ResponseHead continueCrates where
  text := e.1
  parts := e.2
  header := (responseHeaderOf continueCrates e.2).getD ⟨0, .http11, none, .empty⟩
  isHead := by
    simp only [List.mem_cons, List.not_mem_nil, or_false] at he
    rcases he with rfl | rfl <;>
      exact parseTable_isHead [continueHead, okHead] (by decide) (by decide) (by decide)
  small := by
    simp only [List.mem_cons, List.not_mem_nil, or_false] at he
    rcases he with rfl | rfl <;> decide
  built := by
    simp only [List.mem_cons, List.not_mem_nil, or_false] at he
    rcases he with rfl | rfl <;> rfl

/-- A session that has sent a `GET`, to be answered with `segs`. -/
def answered (segs : List Bytes) : Upstream :=
  { Upstream.new ⟨segs.map .data, [], []⟩ (fun _ => 0) with
    requestHeader := some ⟨ascii "GET", ascii "/", .http11, .empty⟩ }

theorem heads_followed_continue :
    Followed (responseHead okHead (by decide)) [] [] [] [responseHead continueHead (by decide)]
        (answered [continueHead.1, okHead.1]) ↔
      (∀ i ∈ [responseHead continueHead (by decide)], i.header.status ≠ 101) ∧
        ∀ k ∈ cuts ([responseHead continueHead (by decide)].map (·.text)), k ∈ cuts [continueHead.1, okHead.1] :=
  heads_followed_iff continueCrates Chunked.parse_recognizes (answered [continueHead.1, okHead.1]) _ ⟨rfl, rfl, _, rfl⟩
    [responseHead continueHead (by decide)] (by decide) (responseHead okHead (by decide)) (by decide) [] [] []
    (.length (by unfold Bodiless; decide) (by decide) (by decide)) [continueHead.1, okHead.1] (by decide) (by decide)
    rfl

def statuses (ts : List Task) : List Nat :=
  ts.filterMap fun | .header h _ => some h.status | _ => none

/-- The same bytes in two reads, and in one: in one, the second head is lost. -/
theorem heads_lost :
    [continueHead.1, okHead.1].flatten = [continueHead.1 ++ okHead.1].flatten ∧
    ((calls continueCrates 2 (answered [continueHead.1, okHead.1])).map fun r => statuses r.1) = some [100, 200] ∧
    ((calls continueCrates 1 (answered [continueHead.1 ++ okHead.1])).map fun r => statuses r.1) = some [100] ∧
    ((calls continueCrates 2 (answered [continueHead.1 ++ okHead.1])).map fun r => statuses r.1) = none := by
  decide

/-! ## The flag of an informational head -/

/-- The tasks: each informational head, which ends nothing, then the final response. -/
def Relayed (final : ResponseHead crates) (data : Bytes) (interims : List (ResponseHead crates)) (u : Upstream) : Prop :=
  ∃ n ts u', calls crates (interims.length + n) u =
      some (interims.map (fun i => .header i.header false) ++ ts, u') ∧ Response final.header ts data

theorem readHead_alone (head : ResponseHead crates) (rest : List ReadEv) :
    readHead crates.parseResponse [] (.data head.text :: rest) =
      (.ok (some (head.text ++ [], head.text.length, head.parts)), rest) := by
  have hparse := head.isHead.complete []
  rw [List.append_nil] at hparse
  exact readHead_some_iff.mpr ⟨[], head.text, by simp, .one head.isHead.nonempty hparse rest⟩

/-- A head in a read of its own. -/
theorem readUpstreamResponse_alone (hreq : u.requestHeader = some req) (hs : u.shouldReadResponseHeader = true)
    (head : ResponseHead crates) {rest : List ReadEv} (hin : u.stream.input = .data head.text :: rest) :
    readUpstreamResponse crates u =
      (.ok (.header head.header (selectResponseReader req head.header [] u.bodyReader).isFinished),
        u.headed req head [] rest) :=
  readUpstreamResponse_of_readHead hreq hs head (hin ▸ readHead_alone head rest)

theorem relayed (hparse : ∀ l, Chunked.Recognizes crates.parseChunkSize l) (hm : req.method ≠ ascii "HEAD")
    (final : ResponseHead crates) (hst : 200 ≤ final.header.status) {wire data : Bytes}
    (hd : Delimited req final.header wire after data) {segs : List Bytes} (hne : ∀ x ∈ segs, x ≠ [])
    (hf : segs.flatten = final.text ++ wire) : ∀ (interims : List (ResponseHead crates)),
    (∀ i ∈ interims, i.header.isInformational = true ∧ i.header.status ≠ 101) → ∀ {u : Upstream},
    u.requestHeader = some req → u.shouldReadResponseHeader = true → Unset req u.bodyReader →
    u.stream.input = interims.map (fun i => .data i.text) ++ (segs.map .data ++ after) →
    Relayed final data interims u := by
  intro interims
  induction interims with
  | nil =>
    intro _ u hreq hs hu hin
    obtain ⟨n, ts, u', hrun, hts, -⟩ := calls_final hparse hreq hs hu final hst hd hin hne hf
    exact ⟨n, ts, u', by rw [List.length_nil, Nat.zero_add]; exact hrun, hts⟩
  | cons head interims ih =>
    intro hinf u hreq hs hu hin
    obtain ⟨hhead, hrest⟩ := List.forall_mem_cons.mp hinf
    have hstart : u.bodyReader.isStart = true := hu.state.resolve_right fun h => hm h.1
    have hin : u.stream.input = .data head.text :: (interims.map (fun i => .data i.text) ++ (segs.map .data ++ after)) :=
      hin
    have hcall := readUpstreamResponse_alone hreq hs head hin
    -- no mode is chosen at the head
    rw [select_interim hstart hhead.1 hhead.2 hm] at hcall
    have hfin : u.bodyReader.isFinished = false := by
      unfold BodyReader.isStart at hstart
      unfold BodyReader.isFinished
      cases hst : u.bodyReader.readState <;> simp_all
    rw [hfin] at hcall
    obtain ⟨n, ts, u', hrun, hts⟩ := ih hrest (u := u.headed req head [] (interims.map (fun i => .data i.text) ++
      (segs.map .data ++ after))) hreq ((shouldRead_some (h := head.header) rfl).mpr hhead)
      (interim_reader hu hhead.1 hhead.2 []) rfl
    refine ⟨n, ts, u', ?_, hts⟩
    rw [List.length_cons, Nat.succ_add, calls_succ hcall, hrun]
    rfl

/-- Informational heads that each come in a read of their own, before any final response:
    each is a task that ends nothing, and the response follows, exactly when the method is
    not `HEAD` or there is no such head. -/
theorem interims_never_end_iff (crates : Crates) (hparse : ∀ l, Chunked.Recognizes crates.parseChunkSize l)
    (u : Upstream) (req : RequestHeader) (hu : Fresh u req) (interims : List (ResponseHead crates))
    (hinf : ∀ i ∈ interims, i.header.isInformational = true ∧ i.header.status ≠ 101) (final : ResponseHead crates)
    (hst : 200 ≤ final.header.status) (wire data : Bytes) (after : List ReadEv)
    (hd : Delimited req final.header wire after data) (segs : List Bytes) (hne : ∀ x ∈ segs, x ≠ [])
    (hsplit : segs.flatten = final.text ++ wire)
    (hin : u.stream.input = interims.map (fun i => .data i.text) ++ (segs.map .data ++ after)) :
    Relayed final data interims u ↔ req.method ≠ ascii "HEAD" ∨ interims = [] := by
  by_cases hm : req.method = ascii "HEAD"
  · cases interims with
    | nil =>
      obtain ⟨n, ts, u', hrun, hts, -⟩ :=
        calls_final hparse hu.request hu.unset.1 hu.unset.2 final hst hd hin hne hsplit
      exact iff_of_true ⟨n, ts, u', by rw [List.length_nil, Nat.zero_add]; exact hrun, hts⟩ (.inr rfl)
    | cons head interims =>
      refine iff_of_false ?_ (by simp [hm])
      intro h
      obtain ⟨n, ts, u', hrun, -⟩ := h
      have hcall := readUpstreamResponse_alone hu.request hu.unset.1 head hin
      -- the method chooses a body of no bytes
      have hfin : (selectResponseReader req head.header [] u.bodyReader).isFinished = true := by
        obtain ⟨mem, hr⟩ := hu.reader
        unfold selectResponseReader
        rw [hr, if_pos (by rfl), if_pos hm]
        rfl
      rw [hfin] at hcall
      rw [List.length_cons, Nat.succ_add, calls_succ hcall] at hrun
      obtain ⟨_, -, he⟩ := Option.map_eq_some_iff.mp hrun
      cases he
  · exact iff_of_true (relayed hparse hm final hst hd hne hsplit interims hinf hu.request hu.unset.1 hu.unset.2 hin)
      (.inl hm)

theorem interims_never_end_continue :
    Relayed (responseHead okHead (by decide)) [] [responseHead continueHead (by decide)]
        (answered [continueHead.1, okHead.1]) ↔
      ascii "GET" ≠ ascii "HEAD" ∨ [responseHead continueHead (by decide)] = [] :=
  interims_never_end_iff continueCrates Chunked.parse_recognizes (answered [continueHead.1, okHead.1]) _
    ⟨rfl, rfl, _, rfl⟩ [responseHead continueHead (by decide)] (by decide) (responseHead okHead (by decide)) (by decide)
    [] [] [] (.length (by unfold Bodiless; decide) (by decide) (by decide)) [okHead.1] (by decide) (by decide) rfl

/-- A session that has sent a `HEAD`. -/
def answeredHead (segs : List Bytes) : Upstream :=
  { Upstream.new ⟨segs.map .data, [], []⟩ (fun _ => 0) with
    requestHeader := some ⟨ascii "HEAD", ascii "/", .http11, .empty⟩ }

/-- The 100 before the answer to a `HEAD` ends the response. -/
theorem interim_ends_head : ¬ ∀ (crates : Crates) (u : Upstream) (req : RequestHeader)
    (interims : List (ResponseHead crates)) (final : ResponseHead crates) (wire data : Bytes) (after : List ReadEv)
    (segs : List Bytes), (∀ l, Chunked.Recognizes crates.parseChunkSize l) → Fresh u req →
    (∀ i ∈ interims, i.header.isInformational = true ∧ i.header.status ≠ 101) → 200 ≤ final.header.status →
    Delimited req final.header wire after data → (∀ x ∈ segs, x ≠ []) → segs.flatten = final.text ++ wire →
    u.stream.input = interims.map (fun i => .data i.text) ++ (segs.map .data ++ after) →
    Relayed final data interims u := by
  intro h
  obtain ⟨n, ts, u', hrun, -⟩ := h continueCrates (answeredHead [continueHead.1, okHead.1]) _
    [responseHead continueHead (by decide)] (responseHead okHead (by decide)) [] [] [] [okHead.1]
    Chunked.parse_recognizes ⟨rfl, rfl, _, rfl⟩ (by decide) (by decide) (.bodiless (.inl rfl)) (by decide) (by decide) rfl
  have hcall := @readUpstreamResponse_alone continueCrates (answeredHead [continueHead.1, okHead.1])
    ⟨ascii "HEAD", ascii "/", .http11, .empty⟩ rfl rfl (responseHead continueHead (by decide)) [.data okHead.1] rfl
  rw [List.length_singleton, Nat.add_comm, calls_succ hcall] at hrun
  obtain ⟨_, -, he⟩ := Option.map_eq_some_iff.mp hrun
  cases he


end Upstream

end Glaive.Session
