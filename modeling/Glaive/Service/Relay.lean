/-
  Glaive.Service.Relay — a chunked request body on its way to the server: each task
  `Downstream::read_downstream_request` gives is written by
  `Upstream::write_upstream_request`, in order, until the body ends.

  The reader's slices end where its reads end, and the writer makes a chunk of each; an
  empty slice is written as the last chunk. `relay_chunked_iff`: the server reads one
  message with the client's data exactly when the request is no upgrade and every read
  ends at a good cut (`Chunked.goodCut`).
-/

import Glaive.Lib.ChunkCuts
import Glaive.Service.Exchange

namespace Glaive.Service

open Glaive.Lib
open Glaive.Lib.Chunked (Body Decoder Pull Spot Stepped At Pulled goodCut)
open Glaive.Session
open Glaive.Session.BodyReader (Holds Gives Feeds)

/-- Write the tasks read to the server, up to the one that ends the body. A task that is
    no body has nothing to write. -/
def relay (crates : Crates) : Nat → Sessions → Option Sessions
  | 0, _ => none
  | fuel + 1, (d, u) =>
    match Downstream.readDownstreamRequest crates d with
    | (.ok (.body body endStream), d) =>
      match Upstream.writeUpstreamRequest (.body body endStream) u with
      | (.ok true, u) => some (d, u)
      | (.ok false, u) => relay crates fuel (d, u)
      | _ => none
    | (.ok _, d) => some (d, u)
    | _ => none

variable {crates : Crates} {d : Downstream} {u : Upstream} {h : RequestHeader}

/-! ## One task -/

theorem relay_slice (hs : d.bodyReader.isStart = false) (hf : d.bodyReader.isFinished = false) {o : Offset}
    {r : BodyReader} {s : Stream} {x : Bytes}
    (hr : BodyReader.readBody crates.parseChunkSize (d.bodyReader, d.stream) = (.ok (some o), r, s))
    (hx : r.getSlicedBody o = .ok x) (hrs : r.isStart = false) (hrf : r.isFinished = false)
    (hu : u.stream.Healthy) (hw : u.bodyWriter.writeState ≠ .start) (fuel : Nat) :
    relay crates (fuel + 1) (d, u) = relay crates fuel ((d.withRead (r, s)).stored x, u.sent (some x)) := by
  rw [relay, Downstream.readDownstreamRequest_slice hs hf hr hx hrs, hrf]
  simp only [Upstream.writeUpstreamRequest_body hu hw (some x) false (by simp)]
  rfl

theorem relay_end (hs : d.bodyReader.isStart = false) (hf : d.bodyReader.isFinished = false) {r : BodyReader}
    {s : Stream} (hh : d.requestHeader = some h) (hup : Utils.isRequestUpgrade h = false)
    (hr : BodyReader.readBody crates.parseChunkSize (d.bodyReader, d.stream) = (.ok none, r, s))
    (hrs : r.isStart = false) (hrf : r.isFinished = true) (hu : u.stream.Healthy)
    (hw : u.bodyWriter.writeState ≠ .start) (hsh : u.bodyWriter.short = false) (fuel : Nat) :
    relay crates (fuel + 1) (d, u) = some (d.withRead (r, s), u.ended) := by
  rw [relay, Downstream.readDownstreamRequest_none hs hf hh hr hrs, hup, hrf]
  simp only [Bool.false_eq_true, if_false, Upstream.writeUpstreamRequest_body hu hw none true (fun _ => hsh)]
  rfl

theorem relay_upgrade_end (hs : d.bodyReader.isStart = false) (hf : d.bodyReader.isFinished = false) {r : BodyReader}
    {s : Stream} (hh : d.requestHeader = some h) (hup : Utils.isRequestUpgrade h = true)
    (hr : BodyReader.readBody crates.parseChunkSize (d.bodyReader, d.stream) = (.ok none, r, s))
    (hrs : r.isStart = false) (fuel : Nat) : relay crates (fuel + 1) (d, u) = some (d.withRead (r, s), u) := by
  rw [relay, Downstream.readDownstreamRequest_none hs hf hh hr hrs, hup]
  simp only [if_true]

theorem relay_fail (hs : d.bodyReader.isStart = false) (hf : d.bodyReader.isFinished = false) {e : IoError}
    {p : BodyReader × Stream}
    (hr : BodyReader.readBody crates.parseChunkSize (d.bodyReader, d.stream) = (.err e, p)) (fuel : Nat) :
    relay crates (fuel + 1) (d, u) = none := by
  have : ∀ t, (Downstream.readDownstreamRequest crates d).1 ≠ .ok t :=
    (Downstream.readDownstreamRequest_stop hs hf hr (by simp)).1
  rw [relay]
  split
  · rename_i heq; rw [heq] at this; exact absurd rfl (this _)
  · rename_i heq; rw [heq] at this; exact absurd rfl (this _)
  · rfl

theorem readBody_chunked {parse : Bytes → Chunked.ChunkStatus} {r : BodyReader} {s : Stream} {a b c n : Nat}
    (hst : r.readState = .chunked n a b c) : BodyReader.readBody parse (r, s) = r.readChunked parse s := by
  unfold BodyReader.readBody
  simp only [hst]

theorem holds_open {r : BodyReader} {read : Nat} {buf : Bytes} {dec : Decoder} (hh : Holds r read buf dec) :
    r.isStart = false ∧ r.isFinished = false := by
  obtain ⟨⟨a, b, c, hst⟩, -⟩ := hh.state
  simp [BodyReader.isStart, BodyReader.isFinished, hst]

/-! ## What goes on the wire -/

/-- The bytes of a task as chunks. -/
def chunkBytes : Option Bytes → Bytes
  | some x => BodyWriter.chunkOf x
  | none => []

theorem sent_chunked {n : Nat} (hw : u.bodyWriter = ⟨.chunkedEncoding n⟩) (b : Option Bytes) :
    (u.sent b).stream.output = u.stream.output ++ chunkBytes b ∧
      ∃ m, (u.sent b).bodyWriter = ⟨.chunkedEncoding m⟩ := by
  cases b with
  | none => exact ⟨(List.append_nil _).symm, n, hw⟩
  | some x =>
    unfold Upstream.sent Upstream.wrote BodyWriter.emit
    rw [hw]
    exact ⟨rfl, _, rfl⟩

theorem ended_chunked {n : Nat} (hw : u.bodyWriter = ⟨.chunkedEncoding n⟩) :
    u.ended.stream.output = u.stream.output ++ BodyWriter.lastChunk := by
  rw [Upstream.ended_output, hw]; rfl

/-- A relay in chunked mode that completes has written something more. -/
theorem relay_grows (hup : Utils.isRequestUpgrade h = false) : ∀ (fuel : Nat) {d d' : Downstream} {u u' : Upstream}
    {n : Nat}, d.requestHeader = some h → u.stream.Healthy → u.bodyWriter = ⟨.chunkedEncoding n⟩ →
    relay crates fuel (d, u) = some (d', u') → ∃ more, more ≠ [] ∧ u'.stream.output = u.stream.output ++ more := by
  intro fuel
  induction fuel with
  | zero => intro d d' u u' n _ _ _ hr; cases hr
  | succ fuel ih =>
    intro d d' u u' n hh hu hw hr
    rw [relay] at hr
    cases hread : Downstream.readDownstreamRequest crates d with
    | mk o d1 =>
      rw [hread] at hr
      cases o with
      | ok t =>
        obtain ⟨hh1, ⟨b, e, rfl⟩ | ⟨rfl, h', hh', hup'⟩⟩ := Downstream.readDownstreamRequest_ok hread
        · obtain ⟨hout, m, hm⟩ := sent_chunked hw b
          have hwr := Upstream.writeUpstreamRequest_body hu (by rw [hw]; simp) b e (fun _ => by rw [hm]; rfl)
          simp only [hwr] at hr
          cases e with
          | true =>
            simp only [if_true, Option.some.injEq, Prod.mk.injEq] at hr
            obtain ⟨rfl, rfl⟩ := hr
            refine ⟨chunkBytes b ++ BodyWriter.lastChunk, by simp [BodyWriter.lastChunk, ascii], ?_⟩
            rw [ended_chunked hm, hout, List.append_assoc]
          | false =>
            simp only [Bool.false_eq_true, if_false] at hr
            obtain ⟨more, hne, hmore⟩ := ih (hh1.trans hh) (Upstream.sent_healthy hu b) hm hr
            exact ⟨chunkBytes b ++ more, by simp [hne], by rw [hmore, hout, List.append_assoc]⟩
        · rw [hh] at hh'
          cases hh'
          rw [hup] at hup'; cases hup'
      | err e => cases hr
      | pending => cases hr
      | panic t => cases hr

/-! ## A reader and the cuts its reads make -/

/-- The reader stands at a spot of the body, and its socket will give `reads`, each in
    one read of a buffer of `cap` bytes. -/
structure Cutting (parse : Bytes → Chunked.ChunkStatus) (B : Body) (rest : Bytes) (cap : Nat) (after : List ReadEv)
    (r : BodyReader) (s : Stream) (dec : Decoder) (cs : List Chunked.Chunk) (off : Nat) (reads : List Bytes)
    (left : Bytes) : Prop where
  lines : ∀ l ∈ B.lines, Chunked.Recognizes parse l
  fits : (B.text ++ rest).length < usizeEnd
  capFits : cap < usizeEnd
  holds : ∃ buf read, r.bodyBuffer = some buf ∧ buf.length = cap ∧ Holds r read buf dec ∧ read + left.length < usizeEnd
  spot : Spot B rest dec cs off reads.flatten left
  input : s.input = reads.map .data ++ after
  sizes : ∀ x ∈ reads, x ≠ [] ∧ x.length ≤ cap

/-- All the cuts to come are good. -/
def GoodCuts (B : Body) (cs : List Chunked.Chunk) (off : Nat) (reads : List Bytes) : Prop :=
  ∀ k ∈ cuts reads, goodCut B.last cs (off + k) = true

variable {parse : Bytes → Chunked.ChunkStatus} {B : Body} {rest left : Bytes} {cap off : Nat} {after : List ReadEv}
  {r : BodyReader} {s : Stream} {dec : Decoder} {cs : List Chunked.Chunk} {reads : List Bytes}

/-- What a call comes to. -/
inductive Cut (parse : Bytes → Chunked.ChunkStatus) (B : Body) (rest : Bytes) (cap : Nat) (after : List ReadEv)
    (cs : List Chunked.Chunk) (off : Nat) (reads : List Bytes) (left : Bytes) (w : Nat) :
    Out (Option Offset) × BodyReader × Stream → Prop
  | done {r : BodyReader} {s : Stream} : left = [] → GoodCuts B cs off reads → r.isFinished = true →
      r.isStart = false → Cut parse B rest cap after cs off reads left w (.ok none, r, s)
  | slice {x left' : Bytes} {o : Offset} {r : BodyReader} {s : Stream} {dec' : Decoder} {cs' : List Chunked.Chunk}
      {off' : Nat} {reads' : List Bytes} : x ≠ [] → left = x ++ left' → r.getSlicedBody o = .ok x →
      Cutting parse B rest cap after r s dec' cs' off' reads' left' →
      (GoodCuts B cs off reads ↔ GoodCuts B cs' off' reads') → dec'.weight reads'.flatten.length < w →
      Cut parse B rest cap after cs off reads left w (.ok (some o), r, s)
  | empty {o : Offset} {r : BodyReader} {s : Stream} : ¬ GoodCuts B cs off reads → r.getSlicedBody o = .ok [] →
      r.isStart = false → r.isFinished = false → Cut parse B rest cap after cs off reads left w (.ok (some o), r, s)
  | fail {e : IoError} {p : BodyReader × Stream} : ¬ GoodCuts B cs off reads →
      Cut parse B rest cap after cs off reads left w (.err e, p)

theorem goodCuts_cons {x : Bytes} {xs : List Bytes} :
    GoodCuts B cs off (x :: xs) ↔ goodCut B.last cs off = true ∧ GoodCuts B cs (off + x.length) xs := by
  unfold GoodCuts
  rw [forall_cuts_cons, Nat.add_zero]
  simp only [Nat.add_assoc]

theorem goodCuts_first (hg : GoodCuts B cs off reads) : goodCut B.last cs off = true :=
  hg 0 (zero_mem_cuts reads)

/-- The socket gives the next of `reads`, whole. -/
theorem read_next {x : Bytes} {reads' : List Bytes} (hi : s.input = (x :: reads').map .data ++ after)
    (hle : x.length ≤ cap) :
    s.read cap = (.ok x, { s with input := reads'.map .data ++ after }) := by
  unfold Stream.read
  rw [hi]
  simp only [List.map_cons, List.cons_append, if_pos hle]

/-- From what a pull comes to, what the call does. -/
theorem cut_of_stepped {reach : Nat} {reads' : List Bytes} {read : Nat} {buf : Bytes} {w : Nat}
    {res : Pull × Decoder} {o : Out (Option Offset)} {r' : BodyReader} {s' : Stream}
    (hc : Cutting parse B rest cap after r s dec cs off reads left)
    (hs : Stepped B rest cs reach reads'.flatten left w res) (hg : Gives read buf res (o, r'))
    (hcuts : GoodCuts B cs off reads ↔ GoodCuts B cs reach reads') (hlen : buf.length = cap)
    (hi : s'.input = reads'.map .data ++ after) (hsz : ∀ x ∈ reads', x ≠ [] ∧ x.length ≤ cap)
    (hread : read + left.length < usizeEnd) :
    Cut parse B rest cap after cs off reads left w (o, r', s') := by
  cases hs with
  | done hl hall =>
    cases hg with
    | done hst =>
      refine .done hl (hcuts.mpr fun k _ => hall k) ?_ ?_
      · simp [BodyReader.isFinished, hst]
      · simp [BodyReader.isStart, hst]
  | @slice x left' dec' cs' off' hx hl hsp hshift hw =>
    cases hg with
    | slice hget hb hh =>
      have := congrArg List.length hl
      rw [List.length_append] at this
      refine .slice hx hl (BodyReader.getSlicedBody_of_get hb hget)
        ⟨hc.lines, hc.fits, hc.capFits, ⟨buf, _, hb, hlen, hh, by omega⟩, hsp, hi, hsz⟩ (hcuts.trans ?_) hw
      exact forall₂_congr fun k _ => by rw [hshift k]

theorem cut_of_bad {read : Nat} {buf : Bytes} {w : Nat}
    {res : Pull × Decoder} {o : Out (Option Offset)} {r' : BodyReader} {s' : Stream} (hg : Gives read buf res (o, r'))
    (hbad : ¬ GoodCuts B cs off reads) (hres : res.1 = .slice [] ∨ res.1 = .fail) :
    Cut parse B rest cap after cs off reads left w (o, r', s') := by
  cases hg with
  | slice hget hb hh =>
    rcases hres with hres | hres
    · cases hres
      obtain ⟨h1, h2⟩ := holds_open hh
      exact .empty hbad (BodyReader.getSlicedBody_of_get hb hget) h1 h2
    · cases hres
  | done => rcases hres with hres | hres <;> cases hres
  | fail => exact .fail hbad

theorem cutting_step (hc : Cutting parse B rest cap after r s dec cs off reads left) :
    ∃ res, BodyReader.readBody parse (r, s) = res ∧
      Cut parse B rest cap after cs off reads left (dec.weight reads.flatten.length) res := by
  obtain ⟨buf, read, hb, hlen, hh, hread⟩ := hc.holds
  obtain ⟨⟨_, _, _, hst⟩, -⟩ := hh.state
  rw [readBody_chunked hst]
  have hbuf : buf.length < usizeEnd := hlen ▸ hc.capFits
  have hat := hc.spot.at
  -- a decoder that reads has something to read
  have next : dec.reads = true → dec.held = [] → ∃ x reads', reads = x :: reads' ∧ x ≠ [] ∧
      Feeds buf.length dec x s { s with input := reads'.map .data ++ after } := by
    intro hrd hheld
    cases hrs : reads with
    | nil => exact absurd (by rw [hrs]; rfl) (hat.toCome_ne hrd)
    | cons x reads' =>
      obtain ⟨hx, hle⟩ := hc.sizes x (by rw [hrs]; exact List.mem_cons_self ..)
      refine ⟨x, reads', rfl, hx, ?_⟩
      unfold Feeds
      rw [if_pos hrd, hheld, hlen]
      exact ⟨read_next (hrs ▸ hc.input) hle, by simpa using hx⟩
  obtain ⟨toCome, htc⟩ : ∃ toCome, toCome = reads.flatten := ⟨_, rfl⟩
  have hsp := htc ▸ hc.spot
  cases hsp with
  | @ready pre cs held _ hB he =>
    have hline := hc.lines _ (Chunked.lineOf_mem pre cs hB)
    by_cases hheld : held = []
    · subst hheld
      obtain ⟨x, reads', rfl, hx, hio⟩ := next rfl rfl
      obtain ⟨buf', o, r', hcall, hlen', hg, -⟩ :=
        BodyReader.chunked_pull hc.lines hc.fits hb hbuf hh hat hio (by simp [Decoder.reads, hx]) hread
      refine ⟨_, hcall, ?_⟩
      have hcuts : GoodCuts B cs 0 (x :: reads') ↔ GoodCuts B cs x.length reads' := by
        rw [goodCuts_cons, Nat.zero_add]
        exact and_iff_right (Chunked.goodCut_zero _ _)
      rcases Spot.takeLine partialChunkHeadLimit hB hline hx (htc ▸ he) with hstep | ⟨hbad, hres⟩
      · refine cut_of_stepped hc (hstep.mono ?_) hg hcuts (hlen'.trans hlen) rfl
          (fun y hy => hc.sizes y (List.mem_cons_of_mem _ hy)) hread
        simp only [Decoder.weight, List.flatten_cons, List.length_append, List.length_nil]; omega
      · refine cut_of_bad hg (fun hgood => ?_) hres
        rw [goodCuts_first (hcuts.mp hgood)] at hbad; cases hbad
    · have hrd : Decoder.reads (.ready held) = false := by simp [Decoder.reads, hheld]
      obtain ⟨buf', o, r', hcall, hlen', hg, -⟩ :=
        BodyReader.chunked_pull hc.lines hc.fits hb hbuf hh hat
          (show Feeds buf.length (.ready held) [] s s by unfold Feeds; rw [hrd]; exact ⟨rfl, rfl⟩) (by simp [hrd]) hread
      refine ⟨_, hcall, ?_⟩
      have hp : Decoder.pull parse partialChunkHeadLimit [] (.ready held) =
          Chunked.takeLine parse partialChunkHeadLimit held := by simp only [Decoder.pull, List.append_nil]
      rw [hp] at hg
      rcases Spot.takeLine partialChunkHeadLimit hB hline hheld (htc ▸ he) with hstep | ⟨hbad, hres⟩
      · refine cut_of_stepped hc (hstep.mono ?_) hg Iff.rfl (hlen'.trans hlen) hc.input hc.sizes hread
        simp only [Decoder.weight]; omega
      · refine cut_of_bad hg (fun hgood => ?_) hres
        rw [goodCuts_first hgood] at hbad; cases hbad
  | @owing pre cs c o hB ho hone hlt =>
    obtain ⟨x, reads', rfl, hx, hio⟩ := next rfl rfl
    obtain ⟨buf', o', r', hcall, hlen', hg, -⟩ :=
      BodyReader.chunked_pull hc.lines hc.fits hb hbuf hh hat hio (by simp [Decoder.reads, hx]) hread
    refine ⟨_, hcall, ?_⟩
    rw [List.flatten_cons] at htc
    rcases Spot.takeOwed hB ho hone hlt hx htc.symm with ⟨hgood, hstep⟩ | ⟨hbad, hres⟩
    · have hcuts : GoodCuts B (c :: cs) (c.text.length - o.length) (x :: reads') ↔ _ := goodCuts_cons
      refine cut_of_stepped hc (hstep.mono ?_) hg (hcuts.trans (and_iff_right hgood)) (hlen'.trans hlen) rfl
        (fun y hy => hc.sizes y (List.mem_cons_of_mem _ hy)) hread
      simp only [Decoder.weight, List.flatten_cons]; omega
    · refine cut_of_bad hg (fun hgood => ?_) (Or.inl hres)
      rw [goodCuts_first hgood] at hbad; cases hbad

/-! ## The relay over all the cuts -/

theorem cutting_open (hc : Cutting parse B rest cap after r s dec cs off reads left) :
    r.isStart = false ∧ r.isFinished = false := by
  obtain ⟨_, _, _, _, hh, _⟩ := hc.holds
  exact holds_open hh

theorem chunkOf_eq_text {x : Bytes} (hx : x ≠ []) (hlt : x.length < usizeEnd) :
    BodyWriter.chunkOf x = (Chunked.encode x hx hlt).text := (Chunked.encode_text x hx hlt).symm

/-- From a spot on: with good cuts the relay writes the rest of the data as chunks and
    ends; after a bad one it writes a last chunk, and more behind it. -/
theorem relay_cutting (hup : Utils.isRequestUpgrade h = false) : ∀ (w : Nat) {d : Downstream} {u : Upstream} {n : Nat}
    {dec : Decoder} {cs : List Chunked.Chunk} {off : Nat} {reads : List Bytes} {left : Bytes},
    dec.weight reads.flatten.length = w →
    Cutting crates.parseChunkSize B rest cap after d.bodyReader d.stream dec cs off reads left →
    d.requestHeader = some h → u.stream.Healthy → u.bodyWriter = ⟨.chunkedEncoding n⟩ →
    (GoodCuts B cs off reads → ∃ fuel d' u' chunks, relay crates fuel (d, u) = some (d', u') ∧
      u'.stream.output = u.stream.output ++ (Chunked.wire chunks ++ BodyWriter.lastChunk) ∧
      Chunked.dataOf chunks = left) ∧
    (¬ GoodCuts B cs off reads → ∀ fuel d' u', relay crates fuel (d, u) = some (d', u') → ∃ chunks more, more ≠ [] ∧
      u'.stream.output = u.stream.output ++ (Chunked.wire chunks ++ (BodyWriter.lastChunk ++ more))) := by
  intro w
  induction w using Nat.strong_induction_on with
  | _ w ih =>
    intro d u n dec cs off reads left hweight hc hh hu hw
    obtain ⟨hs, hf⟩ := cutting_open hc
    have hws : u.bodyWriter.writeState ≠ .start := by rw [hw]; simp
    obtain ⟨res, hres, hcut⟩ := cutting_step hc
    cases hcut with
    | @done r s hl hgood hrf hrs =>
      refine ⟨fun _ => ⟨1, _, _, [], relay_end hs hf hh hup hres hrs hrf hu hws (by rw [hw]; rfl) 0, ?_, by simp [hl]⟩,
        fun hbad => absurd hgood hbad⟩
      rw [ended_chunked hw]; rfl
    | @slice x left' o r s dec' cs' off' reads' hx hl hget hc' hcuts hlt =>
      obtain ⟨hs', hf'⟩ := cutting_open hc'
      have hstep := relay_slice hs hf hres hget hs' hf' hu hws
      obtain ⟨hout, m, hm⟩ := sent_chunked hw (some x)
      obtain ⟨h1, h2⟩ := ih _ (hweight ▸ hlt) (d := (d.withRead (r, s)).stored x) (u := u.sent (some x)) rfl hc' hh
        (Upstream.sent_healthy hu _) hm
      have hxlt : x.length < usizeEnd := by
        obtain ⟨_, _, _, _, _, hread⟩ := hc.holds
        rw [hl, List.length_append] at hread; omega
      have hchunk : chunkBytes (some x) = (Chunked.encode x hx hxlt).text := chunkOf_eq_text hx hxlt
      rw [hout, hchunk] at h1 h2
      constructor
      · intro hgood
        obtain ⟨fuel, d', u', chunks, hrun, hout', hdata⟩ := h1 (hcuts.mp hgood)
        refine ⟨fuel + 1, d', u', Chunked.encode x hx hxlt :: chunks, (hstep fuel).trans hrun, ?_, ?_⟩
        · rw [hout', Chunked.wire_cons]; simp only [List.append_assoc]
        · rw [Chunked.dataOf_cons, hdata, hl]; rfl
      · intro hbad fuel d' u' hrun
        cases fuel with
        | zero => cases hrun
        | succ fuel =>
          obtain ⟨chunks, more, hne, hout'⟩ := h2 (fun hg => hbad (hcuts.mpr hg)) fuel d' u' ((hstep fuel).symm.trans hrun)
          refine ⟨Chunked.encode x hx hxlt :: chunks, more, hne, ?_⟩
          rw [hout', Chunked.wire_cons]; simp only [List.append_assoc]
    | @empty o r s hbad hget hrs hrf =>
      refine ⟨fun hgood => absurd hgood hbad, fun _ fuel d' u' hrun => ?_⟩
      cases fuel with
      | zero => cases hrun
      | succ fuel =>
        rw [relay_slice hs hf hres hget hrs hrf hu hws] at hrun
        obtain ⟨hout, m, hm⟩ := sent_chunked hw (some [])
        obtain ⟨more, hne, hmore⟩ := relay_grows (d := (d.withRead (r, s)).stored []) hup fuel hh
          (Upstream.sent_healthy hu _) hm hrun
        exact ⟨[], more, hne, by rw [hmore, hout, List.append_assoc]; rfl⟩
    | fail hbad =>
      refine ⟨fun hgood => absurd hgood hbad, fun _ fuel d' u' hrun => ?_⟩
      cases fuel with
      | zero => cases hrun
      | succ fuel => rw [relay_fail hs hf hres] at hrun; cases hrun

/-- A relay of an upgrade writes no more than the data that is left. -/
theorem relay_upgrade (hup : Utils.isRequestUpgrade h = true)
    (hlines : ∀ l ∈ B.lines, Chunked.Recognizes crates.parseChunkSize l) (hfits : (B.text ++ rest).length < usizeEnd) :
    ∀ (fuel : Nat) {d d' : Downstream} {u u' : Upstream} {n read : Nat} {dec : Decoder} {buf toCome left : Bytes},
      d.bodyReader.bodyBuffer = some buf → partialChunkHeadLimit < buf.length → buf.length < usizeEnd →
      Holds d.bodyReader read buf dec → At B rest dec toCome left → d.stream.Carries toCome after →
      read + left.length < usizeEnd → d.requestHeader = some h → u.stream.Healthy → u.bodyWriter = ⟨.http10 n⟩ →
      relay crates fuel (d, u) = some (d', u') →
      ∃ y, u'.stream.output = u.stream.output ++ y ∧ y.length ≤ left.length := by
  intro fuel
  induction fuel with
  | zero => intro d d' u u' n read dec buf toCome left _ _ _ _ _ _ _ _ _ _ hrun; cases hrun
  | succ fuel ih =>
    intro d d' u u' n read dec buf toCome left hb hbuf0 hbuf hdec hat hc hread hh hu hw hrun
    obtain ⟨hs, hf⟩ := holds_open hdec
    obtain ⟨⟨_, _, _, hst⟩, -⟩ := hdec.state
    obtain ⟨bs, toCome', buf', o, r', s', hcall, -, -, hc', hlen, hg, hpull⟩ :=
      BodyReader.chunked_step hlines hfits hb hbuf0 hbuf hdec hat hc hread
    rw [← readBody_chunked hst] at hcall
    generalize dec.pull crates.parseChunkSize partialChunkHeadLimit bs = res at hg hpull
    cases hpull with
    | done hl =>
      cases hg with
      | done hst' =>
        rw [relay_upgrade_end hs hf hh hup hcall (by simp [BodyReader.isStart, hst'])] at hrun
        cases hrun
        exact ⟨[], by simp, Nat.zero_le _⟩
    | @slice x left' dec' hl hat' hlt =>
      cases hg with
      | slice hget hb' hh' =>
        obtain ⟨hs', hf'⟩ := holds_open hh'
        have hlen' := congrArg List.length hl
        rw [List.length_append] at hlen'
        rw [relay_slice hs hf hcall (BodyReader.getSlicedBody_of_get hb' hget) hs' hf' hu (by rw [hw]; simp)] at hrun
        have hsent : (u.sent (some x)).stream.output = u.stream.output ++ x ∧
            (u.sent (some x)).bodyWriter = ⟨.http10 (n + x.length)⟩ := by
          unfold Upstream.sent Upstream.wrote BodyWriter.emit
          rw [hw]
          exact ⟨rfl, rfl⟩
        obtain ⟨y, hy, hyl⟩ := ih (d := (d.withRead (r', s')).stored x) hb' (by omega) (by omega) hh' hat' hc' (by omega)
          hh (Upstream.sent_healthy hu _) hsent.2 hrun
        exact ⟨x ++ y, by rw [hy, hsent.1, List.append_assoc], by rw [List.length_append]; omega⟩
    | tooLong =>
      cases hg with
      | fail => rw [relay_fail hs hf hcall] at hrun; cases hrun

/-- The reader a chunked request starts with, an upgrade or not. -/
theorem selected_chunked (preread : Bytes) (hidle : d.bodyReader.Idle)
    (hte : Utils.isHeaderValueChunkEncoding (h.getHeader transferEncoding) = true) :
    ∃ buf, (d.selected h preread).bodyReader.bodyBuffer = some buf ∧ buf.length = max bodyBufferSize preread.length ∧
      Holds (d.selected h preread).bodyReader 0 buf (.ready preread) := by
  unfold Downstream.selected Downstream.selectReader
  rw [hte]
  simp only [if_true]
  generalize hr : (if Utils.isRequestUpgrade h = true then d.bodyReader.withUntilClosedRead preread else d.bodyReader) = r
  have hr' : r.bodySize = bodyBufferSize ∧ (preread = [] → r.rewindBufSize = 0) := by
    split at hr <;> subst hr
    · refine ⟨hidle.size, fun hp => ?_⟩
      subst hp
      exact hidle.rewound
    · exact ⟨hidle.size, fun _ => hidle.rewound⟩
  obtain ⟨buf, hb, hlen, hrw, hs⟩ := BodyReader.setBuffer_holds (r := { r with readState := .chunked 0 0 0 0 }) hr'.2
  rw [show BodyReader.bodySize { r with readState := .chunked 0 0 0 0 } = bodyBufferSize from hr'.1] at hlen
  exact ⟨buf, hb, hlen, .fresh rfl hrw hs⟩

theorem relay_selected {preread : Bytes} (hd : d.Ready h preread) (fuel : Nat) :
    relay crates fuel (d, u) = relay crates fuel (d.selected h preread, u) := by
  cases fuel with
  | zero => rfl
  | succ fuel => rw [relay, relay, Downstream.readDownstreamRequest_ready hd]

/-- A request with a chunked body, its head sent on: the body's bytes are split between
    the preread ones and `reads`. -/
structure ChunkedStart (crates : Crates) (d : Downstream) (u : Upstream) (h : RequestHeader) (preread : Bytes)
    (B : Body) (rest : Bytes) (reads : List Bytes) (after : List ReadEv) : Prop where
  ready : d.Ready h preread
  idle : d.bodyReader.Idle
  chunked : Utils.isHeaderValueChunkEncoding (h.getHeader transferEncoding) = true
  lines : ∀ l ∈ B.lines, Chunked.Recognizes crates.parseChunkSize l
  fits : (B.text ++ rest).length < usizeEnd
  sizes : ∀ x ∈ reads, x ≠ [] ∧ x.length ≤ max bodyBufferSize preread.length
  split : preread ++ reads.flatten = B.text ++ rest
  input : d.stream.input = reads.map .data ++ after
  healthy : u.stream.Healthy
  writer : u.bodyWriter = Upstream.selectWriter h .new

/-- What the relay writes, the server reads as the client's message. -/
def Delivered (crates : Crates) (B : Body) (d : Downstream) (u : Upstream) : Prop :=
  ∃ fuel d' u' body, relay crates fuel (d, u) = some (d', u') ∧ u'.stream.output = u.stream.output ++ body ∧
    Chunked.Reads body B.data []

namespace ChunkedStart

variable {preread : Bytes}

theorem of_open {client server : Stream} (hserver : server.Healthy) {mc ms : Nat → Byte}
    (hopen : openExchange crates (.new client mc, .new server ms) = (.ok (), d, u))
    (hh : d.requestHeader = some h) (hpre : (Downstream.bodyBytes d).1 = .ok preread)
    (hte : Utils.isHeaderValueChunkEncoding (h.getHeader transferEncoding) = true)
    (hlines : ∀ l ∈ B.lines, Chunked.Recognizes crates.parseChunkSize l)
    (hfits : (B.text ++ rest).length < usizeEnd)
    (hreads : ∀ x ∈ reads, x ≠ [] ∧ x.length ≤ max bodyBufferSize preread.length)
    (hsplit : preread ++ reads.flatten = B.text ++ rest) (hinput : d.stream.input = reads.map .data ++ after) :
    ChunkedStart crates d u h preread B rest reads after := by
  obtain ⟨req, preread', headBuf, hready, hidle, -, -, -, hwriter, hhealthy⟩ := openExchange_ok hopen
  obtain rfl : req = h := Option.some.inj (hready.head.symm.trans hh)
  obtain ⟨o, ho, hget⟩ := hready.preread
  obtain rfl : preread' = preread := by
    rw [Downstream.bodyBytes_eq ho hget] at hpre
    exact Out.ok.inj hpre
  exact ⟨hready, hidle, hte, hlines, hfits, hreads, hsplit, hinput, hhealthy hserver, hwriter⟩

theorem bounds (hs : ChunkedStart crates d u h preread B rest reads after) :
    B.data.length < usizeEnd ∧ max bodyBufferSize preread.length < usizeEnd := by
  have hdata := B.data_length_le
  have hpl := congrArg List.length hs.split
  have hfits := hs.fits
  rw [List.length_append, List.length_append] at hpl
  rw [List.length_append] at hfits
  unfold bodyBufferSize usizeEnd at *
  omega

/-- An upgrade's body is written as it is, without chunks. -/
theorem not_delivered_upgrade (hs : ChunkedStart crates d u h preread B rest reads after)
    (hup : Utils.isRequestUpgrade h = true) : ¬ Delivered crates B d u := by
  intro h
  rcases h with ⟨fuel, d', u', body, hrun, hout, hreads⟩
  obtain ⟨hdata, hcap⟩ := hs.bounds
  obtain ⟨buf, hb, hlen, hdec⟩ := selected_chunked preread hs.idle hs.chunked
  have hw : u.bodyWriter = ⟨.http10 0⟩ := by
    rw [hs.writer]; simp [Upstream.selectWriter, hup, BodyWriter.withUntilClosedWrite]
  rw [relay_selected hs.ready] at hrun
  obtain ⟨y, hy, hyl⟩ := relay_upgrade hup hs.lines hs.fits fuel hb
    (by rw [hlen]; unfold partialChunkHeadLimit bodyBufferSize; omega) (hlen ▸ hcap) hdec (Chunked.at_start hs.split)
    ⟨reads, hs.input, fun x hx => (hs.sizes x hx).1, rfl⟩ (by omega) hs.ready.head hs.healthy hw hrun
  rw [hy] at hout
  obtain rfl := List.append_cancel_left hout
  have := hreads.length
  omega

theorem run (hs : ChunkedStart crates d u h preread B rest reads after) (hup : Utils.isRequestUpgrade h = false) :
    (GoodCuts B B.chunks preread.length reads → ∃ fuel d' u' chunks, relay crates fuel (d, u) = some (d', u') ∧
      u'.stream.output = u.stream.output ++ (Chunked.wire chunks ++ BodyWriter.lastChunk) ∧
      Chunked.dataOf chunks = B.data) ∧
    (¬ GoodCuts B B.chunks preread.length reads → ∀ fuel d' u', relay crates fuel (d, u) = some (d', u') →
      ∃ chunks more, more ≠ [] ∧
        u'.stream.output = u.stream.output ++ (Chunked.wire chunks ++ (BodyWriter.lastChunk ++ more))) := by
  obtain ⟨hdata, hcap⟩ := hs.bounds
  obtain ⟨buf, hb, hlen, hdec⟩ := selected_chunked preread hs.idle hs.chunked
  have hw : u.bodyWriter = ⟨.chunkedEncoding 0⟩ := by
    rw [hs.writer]; simp [Upstream.selectWriter, hup, hs.chunked, BodyWriter.withChunkedEncodingWrite]
  have hcut : Cutting crates.parseChunkSize B rest (max bodyBufferSize preread.length) after
      (d.selected h preread).bodyReader d.stream (.ready preread) B.chunks preread.length reads B.data :=
    ⟨hs.lines, hs.fits, hcap, ⟨buf, 0, hb, hlen, hdec, by omega⟩, .ready (show B.chunks = [] ++ B.chunks from rfl) hs.split,
      hs.input, hs.sizes⟩
  simp only [relay_selected hs.ready]
  exact relay_cutting hup _ (d := d.selected h preread) rfl hcut hs.ready.head hs.healthy hw

theorem delivered (hs : ChunkedStart crates d u h preread B rest reads after)
    (hup : Utils.isRequestUpgrade h = false) (hg : GoodCuts B B.chunks preread.length reads) : Delivered crates B d u := by
  obtain ⟨fuel, d', u', chunks, hrun, hout, hd⟩ := (hs.run hup).1 hg
  refine ⟨fuel, d', u', _, hrun, hout, ?_⟩
  have := Chunked.Reads.wire_append chunks (Chunked.reads_last [])
  rw [List.append_nil, List.append_nil, hd] at this
  exact this

/-- A chunk of an empty slice ends the message, and more follows it. -/
theorem not_delivered_cut (hs : ChunkedStart crates d u h preread B rest reads after)
    (hup : Utils.isRequestUpgrade h = false) (hg : ¬ GoodCuts B B.chunks preread.length reads) :
    ¬ Delivered crates B d u := by
  intro h
  rcases h with ⟨fuel, d', u', body, hrun, hout, hreads⟩
  obtain ⟨chunks, more, hne, hout'⟩ := (hs.run hup).2 hg fuel d' u' hrun
  rw [hout] at hout'
  obtain rfl := List.append_cancel_left hout'
  have := Chunked.Reads.wire_append chunks (Chunked.reads_last more)
  exact hne (hreads.unique this).2.symm

end ChunkedStart

/-- The server reads the client's message exactly when the request is no upgrade and
    every read of the body ends at a good cut. -/
theorem relay_chunked_iff (crates : Crates) (hparse : ∀ l, Chunked.Recognizes crates.parseChunkSize l)
    (client server : Stream) (hserver : server.Healthy) (mc ms : Nat → Byte) (d : Downstream) (u : Upstream)
    (hopen : openExchange crates (.new client mc, .new server ms) = (.ok (), d, u)) (h : RequestHeader)
    (hh : d.requestHeader = some h)
    (hte : Utils.isHeaderValueChunkEncoding (h.getHeader transferEncoding) = true) (preread : Bytes)
    (hpre : (Downstream.bodyBytes d).1 = .ok preread) (B : Body) (rest : Bytes)
    (hfits : (B.text ++ rest).length < usizeEnd) (reads : List Bytes)
    (hreads : ∀ x ∈ reads, x ≠ [] ∧ x.length ≤ max bodyBufferSize preread.length)
    (hsplit : preread ++ reads.flatten = B.text ++ rest) (after : List ReadEv)
    (hinput : d.stream.input = reads.map .data ++ after) :
    Delivered crates B d u ↔ Utils.isRequestUpgrade h = false ∧ GoodCuts B B.chunks preread.length reads := by
  have hs := ChunkedStart.of_open hserver hopen hh hpre hte (fun l _ => hparse l) hfits hreads hsplit hinput
  constructor
  · intro hd
    cases hup : Utils.isRequestUpgrade h with
    | true => exact absurd hd (hs.not_delivered_upgrade hup)
    | false => exact ⟨rfl, by_contra fun hg => hs.not_delivered_cut hup hg hd⟩
  · intro h
    rcases h with ⟨hup, hg⟩
    exact hs.delivered hup hg

def teChunked : Field := ⟨ascii "Transfer-Encoding", ascii "chunked", transferEncoding_token⟩

/-- A client that sends a body in two reads. -/
def chunkedPost (a b : String) : Out Unit × Sessions :=
  postExchange teChunked [.data (ascii a), .data (ascii b)]

theorem relay_chunked_inside_data :
    Delivered (postCrates teChunked) BodyReader.twoChunks
      (chunkedPost "1;x\r\na\r\n2\r\nb" "c\r\n0\r\n\r\n").2.1 (chunkedPost "1;x\r\na\r\n2\r\nb" "c\r\n0\r\n\r\n").2.2 ↔
      Utils.isRequestUpgrade (Downstream.requestHeaderOf (postHead teChunked).2) = false ∧
        GoodCuts BodyReader.twoChunks BodyReader.twoChunks.chunks 0
          [ascii "1;x\r\na\r\n2\r\nb", ascii "c\r\n0\r\n\r\n"] :=
  relay_chunked_iff (postCrates teChunked) Chunked.parse_recognizes _ ⟨[], [], []⟩ rfl (fun _ => 0) (fun _ => 0) _ _
    (Prod.ext (by decide) rfl) _ rfl (by decide) [] (by decide) BodyReader.twoChunks (ascii "\r\n") (by decide)
    [ascii "1;x\r\na\r\n2\r\nb", ascii "c\r\n0\r\n\r\n"] (by decide) (by decide) [] (by decide)

/-- A read that ends with the size line: the server reads an empty body first. -/
theorem relay_cut_after_line :
    (chunkedPost "1;x\r\n" "a\r\n2\r\nbc\r\n0\r\n\r\n").1 = .ok () ∧
    ¬ Delivered (postCrates teChunked) BodyReader.twoChunks
      (chunkedPost "1;x\r\n" "a\r\n2\r\nbc\r\n0\r\n\r\n").2.1
      (chunkedPost "1;x\r\n" "a\r\n2\r\nbc\r\n0\r\n\r\n").2.2 := by
  refine ⟨by decide, ?_⟩
  have hs : ChunkedStart (postCrates teChunked) (chunkedPost "1;x\r\n" "a\r\n2\r\nbc\r\n0\r\n\r\n").2.1
      (chunkedPost "1;x\r\n" "a\r\n2\r\nbc\r\n0\r\n\r\n").2.2
      (Downstream.requestHeaderOf (postHead teChunked).2) [] BodyReader.twoChunks (ascii "\r\n")
      [ascii "1;x\r\n", ascii "a\r\n2\r\nbc\r\n0\r\n\r\n"] [] :=
    ChunkedStart.of_open (show Stream.Healthy ⟨[], [], []⟩ from rfl) (Prod.ext (by decide) rfl) rfl (by decide) (by decide)
      (fun l _ => Chunked.parse_recognizes l) (by decide) (by decide) (by decide) (by decide)
  refine hs.not_delivered_cut (by decide) (fun hg => ?_)
  exact absurd (hg 5 (by decide)) (by decide)

end Glaive.Service
