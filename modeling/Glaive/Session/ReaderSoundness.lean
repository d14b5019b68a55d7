/-
  Glaive.Session.ReaderSoundness — what the body reader takes for a chunked body,
  whatever it is given.

  A call that ends with a value got the bytes it asked for and made no sum past `2^64`
  (`readChunked_ok`), so it is a pull of the decoder the reader holds. A run of such
  calls that completes has taken what `Glaive.Lib.LooseChunks` says a decoder takes. That
  is a chunked body only if the stream has CRLF behind the data of each chunk, and digits
  on each size line (`completed_wellFormed_iff`).
-/

import Glaive.Lib.HexLines
import Glaive.Session.ReaderProofs

namespace Glaive.Session

open Glaive.Lib
open Glaive.Lib.Chunked (ChunkStatus Decoder Pull Local Shaped Skim WellFormed crlfAfterData digitsOnLines)

namespace BodyReader

variable {parseChunkSize : Bytes → ChunkStatus}

/-! ## A call that ends with a value -/

theorem fill_ok {r r1 : BodyReader} {buf : Bytes} {s s1 : Stream} {n : Nat} (hb : r.bodyBuffer = some buf)
    (h : r.fill s = (.ok n, r1, s1)) :
    r.rewindBufSize ≠ 0 ∧ s1 = s ∨ r.rewindBufSize = 0 ∧ ∃ bs, s.read buf.length = (.ok bs, s1) ∧ n = bs.length := by
  unfold fill at h
  rw [hb] at h
  simp only at h
  split at h
  · rename_i hrw
    rcases hr : s.read buf.length with ⟨res, s2⟩
    rw [hr] at h
    cases res with
    | ok bs =>
      simp only [Prod.mk.injEq, Out.ok.injEq] at h
      obtain ⟨rfl, -, rfl⟩ := h
      exact Or.inr ⟨hrw, bs, rfl, rfl⟩
    | err e => cases h
    | pending => cases h
    | panic t => cases h
  · rename_i hrw
    simp only [Prod.mk.injEq, Out.ok.injEq] at h
    exact Or.inl ⟨hrw, h.2.2.symm⟩

/-- The bytes a call finds in the buffer are those behind the head and those it reads. -/
theorem fill_taken {r r1 : BodyReader} {s s1 : Stream} {n : Nat} (h : r.fill s = (.ok n, r1, s1)) :
    r1.readState = r.readState ∧ r1.rewindBufSize = 0 ∧
      ∃ bs, s.bytes = bs ++ s1.bytes ∧ s.SameWrites s1 ∧ n = r.rewindBufSize + bs.length := by
  cases hb : r.bodyBuffer with
  | none =>
    unfold fill at h
    rw [hb] at h
    cases h
  | some buf =>
    by_cases hrw : r.rewindBufSize = 0
    · rcases fill_ok hb h with ⟨hne, -⟩ | ⟨-, bs, hr, hn⟩
      · exact absurd hrw hne
      · rw [fill_read hb hrw hr] at h
        cases h
        obtain ⟨hbytes, -, hw⟩ := Stream.read_ok hr
        exact ⟨rfl, rfl, bs, hbytes, hw, by omega⟩
    · rw [fill_rewind hb hrw] at h
      cases h
      exact ⟨rfl, rfl, [], rfl, ⟨rfl, rfl⟩, rfl⟩

theorem give_ok {r r' : BodyReader} {x : Option (ReadState × Offset)} {o : Option Offset}
    (h : r.give x = (.ok o, r')) : ∃ st off, x = some (st, off) ∧ r' = { r with readState := st } := by
  unfold give at h
  split at h
  · cases h
    exact ⟨_, _, rfl, rfl⟩
  · cases h

/-- A call in the mode of a known length. -/
theorem readPartially_ok {r r' : BodyReader} {s s' : Stream} {read toRead : Nat} {o : Option Offset}
    (hst : r.readState = .partially read toRead) (h : r.readPartially s = (.ok o, r', s')) :
    ∃ n r1, r.fill s = (.ok n, r1, s') ∧ r'.rewindBufSize = 0 ∧
      (toRead ≤ n ∧ r'.readState = .completed (read + toRead) ∨
        n < toRead ∧ r'.readState = .partially (read + n) (toRead - n)) := by
  unfold readPartially at h
  rcases hfill : r.fill s with ⟨res, r1, s1⟩
  rw [hfill] at h
  cases res with
  | ok n =>
    obtain ⟨hsame, hrw, -⟩ := fill_taken hfill
    simp only [takePartially, hsame, hst, Prod.mk.injEq] at h
    obtain ⟨ho, hr, rfl⟩ := h
    refine ⟨n, r1, rfl, ?_⟩
    by_cases hn : n = 0
    · rw [if_pos hn] at ho
      cases ho
    · rw [if_neg hn] at ho hr
      by_cases hle : toRead ≤ n
      · rw [if_pos hle] at ho hr
        obtain ⟨st, off, hx, rfl⟩ := give_ok (Prod.ext ho hr)
        obtain ⟨total, htotal, hx⟩ := Option.bind_eq_some_iff.mp hx
        obtain ⟨off', -, he⟩ := Option.bind_eq_some_iff.mp hx
        cases he
        exact ⟨hrw, Or.inl ⟨hle, congrArg _ (uadd_eq_some htotal).1⟩⟩
      · rw [if_neg hle] at ho hr
        obtain ⟨st, off, hx, rfl⟩ := give_ok (Prod.ext ho hr)
        obtain ⟨total, htotal, hx⟩ := Option.bind_eq_some_iff.mp hx
        obtain ⟨off', -, he⟩ := Option.bind_eq_some_iff.mp hx
        cases he
        exact ⟨hrw, Or.inr ⟨by omega, by rw [(uadd_eq_some htotal).1]⟩⟩
  | err e => cases h
  | pending => cases h
  | panic t => cases h

/-- A call at the front of the buffer got some bytes. -/
theorem fillChunked_of_ok {r r' : BodyReader} {read stop expecting : Nat} {s s' : Stream} {o : Option Offset}
    (hst : r.readState = .chunked read 0 stop expecting) (hok : r.readChunked parseChunkSize s = (.ok o, r', s')) :
    ∃ n e r1, r.fillChunked stop expecting s = (.ok (n, e), r1, s') ∧ n ≠ 0 := by
  unfold readChunked at hok
  simp only [hst, if_true] at hok
  rcases hf : r.fillChunked stop expecting s with ⟨res, r1, s1⟩
  rw [hf] at hok
  cases res with
  | ok ne =>
    obtain ⟨n, e⟩ := ne
    simp only [Prod.mk.injEq] at hok
    obtain ⟨ho, -, rfl⟩ := hok
    refine ⟨n, e, r1, rfl, ?_⟩
    intro he
    subst he
    unfold takeChunked enter at ho
    rw [if_pos rfl] at ho
    split at ho <;> cases ho
  | err e => cases hok
  | pending => cases hok
  | panic t => cases hok

/-- It has read what it waits for, and some. -/
theorem feeds_of_ok {r r' : BodyReader} {read : Nat} {buf : Bytes} {d : Decoder} {s s' : Stream} {o : Option Offset}
    (hb : r.bodyBuffer = some buf) (h : Holds r read buf d)
    (hok : r.readChunked parseChunkSize s = (.ok o, r', s')) : ∃ bs, Feeds buf.length d bs s s' := by
  have fresh : ∀ n, r.readState = .chunked read 0 0 n → r.rewindBufSize = 0 →
      ∃ bs, s.read buf.length = (.ok bs, s') ∧ bs ≠ [] := by
    intro n hst hrw
    obtain ⟨n, e, r1, hf, hn⟩ := fillChunked_of_ok hst hok
    unfold fillChunked at hf
    rw [if_pos rfl] at hf
    rcases hfill : r.fill s with ⟨res, r2, s2⟩
    rw [hfill] at hf
    cases res with
    | ok m =>
      simp only [Prod.mk.injEq, Out.ok.injEq] at hf
      obtain ⟨⟨rfl, -⟩, -, rfl⟩ := hf
      rcases fill_ok hb hfill with ⟨hne, -⟩ | ⟨-, bs, hr, rfl⟩
      · exact absurd hrw hne
      · exact ⟨bs, hr, fun e => hn (by rw [e]; rfl)⟩
    | err e => cases hf
    | pending => cases hf
    | panic t => cases hf
  cases h with
  | @fresh p hst hrw hs =>
    by_cases hp : p = []
    · subst hp
      obtain ⟨bs, hr, hne⟩ := fresh 0 hst hrw
      exact ⟨bs, by simpa [Feeds, Decoder.reads, Decoder.held] using ⟨hr, hne⟩⟩
    · refine ⟨[], ?_⟩
      rw [Feeds, if_neg (by simp [Decoder.reads, hp])]
      obtain ⟨n, e, r1, hf, -⟩ := fillChunked_of_ok hst hok
      have hpos := List.length_pos_of_ne_nil hp
      simp only [fillChunked, if_true, fill_rewind hb (show r.rewindBufSize ≠ 0 by omega), Prod.mk.injEq] at hf
      exact ⟨rfl, hf.2.2.symm⟩
  | @multi p start stop hst h0 hrw hs hp =>
    refine ⟨[], ?_⟩
    rw [Feeds, if_neg (by simp [Decoder.reads, hp])]
    simp only [readChunked, hst, if_neg (show start ≠ 0 by omega), Prod.mk.injEq] at hok
    exact ⟨rfl, hok.2.2.symm⟩
  | @stalled hd stop hst hne hlim hle hrw hs =>
    have hpos := List.length_pos_of_ne_nil hne
    obtain ⟨-, hstop, -⟩ := slice_eq_some hs
    obtain ⟨n, e, r1, hf, hn⟩ := fillChunked_of_ok hst hok
    simp only [fillChunked, if_neg (show stop ≠ 0 by omega), hb, usub_of_le hle, Option.bind_some, hs] at hf
    rw [length_overwrite (by omega)] at hf
    rcases hr : s.read (buf.length - hd.length) with ⟨res, s2⟩
    rw [hr] at hf
    cases res with
    | ok bs =>
      refine ⟨bs, ?_⟩
      rw [Feeds, if_pos (show (Decoder.stalled hd).reads = true from rfl)]
      simp only at hf
      split at hf
      · cases hf
      · simp only [Prod.mk.injEq] at hf
        obtain ⟨-, -, rfl⟩ := hf
        exact ⟨hr, by simp [Decoder.held, hne]⟩
    | err e => cases hf
    | pending => cases hf
    | panic t => cases hf
  | @owing n hst hn hrw =>
    obtain ⟨bs, hr, hne⟩ := fresh n hst hrw
    exact ⟨bs, by simpa [Feeds, Decoder.reads, Decoder.held] using ⟨hr, hne⟩⟩

theorem partialChunk_some {read a b c k m : Nat} {st : ReadState}
    (h : (ReadState.chunked read a b c).partialChunk k m = some st) : read + k < usizeEnd := by
  obtain ⟨_, hm, -⟩ := Option.map_eq_some_iff.mp h
  exact (uadd_eq_some hm).2

theorem multiChunk_some {read a b c k m : Nat} {st : ReadState}
    (h : (ReadState.chunked read a b c).multiChunk k m = some st) : read + k < usizeEnd := by
  obtain ⟨_, hm, -⟩ := Option.map_eq_some_iff.mp h
  exact (uadd_eq_some hm).2

theorem chunkAt_some {read s0 stop start bufLen i n : Nat} {x : ReadState × Offset} (hi : i ≤ bufLen)
    (h : chunkAt (.chunked read s0 stop 0) start bufLen i n = some x) :
    i + n + 2 < usizeEnd ∧ read + min n (bufLen - i) < usizeEnd := by
  unfold chunkAt at h
  simp only [Option.bind_eq_bind, Option.bind_eq_some_iff] at h
  obtain ⟨a, ha, b, hb, h⟩ := h
  obtain ⟨rfl, -⟩ := uadd_eq_some ha
  obtain ⟨rfl, hend⟩ := uadd_eq_some hb
  refine ⟨hend, ?_⟩
  split at h
  · split at h
    · rw [usub_of_le hi, Option.bind_some] at h
      obtain ⟨st, hst, -⟩ := Option.bind_eq_some_iff.mp h
      have := partialChunk_some hst
      omega
    · rw [Option.bind_some] at h
      obtain ⟨st, hst, -⟩ := Option.bind_eq_some_iff.mp h
      have := partialChunk_some hst
      omega
  · obtain ⟨k, -, h⟩ := Option.bind_eq_some_iff.mp h
    obtain ⟨st, hst, -⟩ := Option.bind_eq_some_iff.mp h
    have := multiChunk_some hst
    omega

theorem parseChunkedBuf_ok (hl : Local parseChunkSize) {r r' : BodyReader} {read start stop : Nat} {buf avail : Bytes}
    {o : Option Offset} (hb : r.bodyBuffer = some buf) (hst : ∃ s0, r.readState = .chunked read s0 stop 0)
    (hs : slice start stop buf = some avail) (hread : read < usizeEnd)
    (hok : r.parseChunkedBuf parseChunkSize start stop = (.ok o, r')) :
    (∀ x d, Chunked.takeLine parseChunkSize partialChunkHeadLimit avail = (.slice x, d) →
      read + x.length < usizeEnd) ∧
    ∀ i n, parseChunkSize avail = .complete i n → i ≤ avail.length ∧ (n ≠ 0 → i + n + 2 < usizeEnd) := by
  obtain ⟨s0, hst⟩ := hst
  unfold parseChunkedBuf at hok
  rw [hb, Option.bind_some, hs] at hok
  simp only at hok
  unfold Chunked.takeLine
  cases hp : parseChunkSize avail with
  | complete i n =>
    rw [hp] at hok
    simp only at hok ⊢
    have hi := hl.within _ _ _ hp
    by_cases hn : n = 0
    · subst hn
      refine ⟨fun x d h => by simp at h, fun i' n' h => ?_⟩
      cases h
      exact ⟨hi, fun h => absurd rfl h⟩
    · rw [if_neg hn] at hok ⊢
      obtain ⟨st, off, hy, -⟩ := give_ok hok
      rw [hst] at hy
      obtain ⟨h1, h2⟩ := chunkAt_some hi hy
      refine ⟨fun x d h => ?_, fun i' n' h => ?_⟩
      · cases h
        rw [List.length_take, List.length_drop]; exact h2
      · cases h
        exact ⟨hi, fun _ => h1⟩
  | incomplete =>
    refine ⟨fun x d h => ?_, nofun⟩
    simp only at h
    split at h
    · cases h
    · cases h; exact hread
  | invalid => exact ⟨nofun, nofun⟩

theorem takeOwed_ok {r r' : BodyReader} {read n : Nat} {avail : Bytes} {o : Option Offset}
    (hst : ∃ s0, r.readState = .chunked read s0 avail.length 0) (hne : avail ≠ []) (hn : 0 < n)
    (hok : r.takeChunked parseChunkSize 0 avail.length n = (.ok o, r')) :
    avail.length + 2 < usizeEnd ∧ read + (avail.take (n - 2)).length < usizeEnd := by
  obtain ⟨s0, hst⟩ := hst
  have hpos := List.length_pos_of_ne_nil hne
  have hpay : (if 2 < n then n - 2 else 0) = n - 2 := by split <;> omega
  unfold takeChunked at hok
  rw [if_neg (by omega), if_pos hn, hpay] at hok
  cases h2 : uadd avail.length 2 with
  | none => rw [h2] at hok; cases hok
  | some end2 =>
    obtain ⟨rfl, hend⟩ := uadd_eq_some h2
    rw [h2] at hok
    simp only at hok
    refine ⟨hend, ?_⟩
    rw [List.length_take]
    split at hok
    · obtain ⟨st, off, hy, -⟩ := give_ok hok
      rw [hst] at hy
      obtain ⟨st, hst', -⟩ := Option.bind_eq_some_iff.mp hy
      have := partialChunk_some hst'
      omega
    · split at hok
      · obtain ⟨st, off, hy, -⟩ := give_ok hok
        rw [hst] at hy
        obtain ⟨st, hst', -⟩ := Option.bind_eq_some_iff.mp hy
        have := partialChunk_some hst'
        omega
      · obtain ⟨st, off, hy, -⟩ := give_ok hok
        rw [hst] at hy
        obtain ⟨st, hst', -⟩ := Option.bind_eq_some_iff.mp hy
        have := multiChunk_some hst'
        omega

theorem Feeds.bytes {cap : Nat} {d : Decoder} {bs : Bytes} {s s' : Stream} (h : Feeds cap d bs s s') :
    s.bytes = bs ++ s'.bytes := by
  unfold Feeds at h
  split at h
  · exact (Stream.read_ok h.1).1
  · obtain ⟨rfl, rfl⟩ := h; rfl

theorem Feeds.sameWrites {cap : Nat} {d : Decoder} {bs : Bytes} {s s' : Stream} (h : Feeds cap d bs s s') :
    s.SameWrites s' := by
  unfold Feeds at h
  split at h
  · exact (Stream.read_ok h.1).2.2
  · obtain ⟨-, rfl⟩ := h
    exact ⟨rfl, rfl⟩

/-- It is one pull of the decoder the reader holds, and the sizes stay below `2^64`. -/
theorem readChunked_ok (hl : Local parseChunkSize) {r r' : BodyReader} {read : Nat} {buf : Bytes} {d : Decoder}
    {s s' : Stream} {o : Option Offset} (hb : r.bodyBuffer = some buf) (h : Holds r read buf d)
    (hbuf : buf.length < usizeEnd) (hread : read < usizeEnd)
    (hok : r.readChunked parseChunkSize s = (.ok o, r', s')) :
    ∃ bs buf', Feeds buf.length d bs s s' ∧ buf'.length = buf.length ∧ d.Fits parseChunkSize bs ∧
      Gives read buf' (d.pull parseChunkSize partialChunkHeadLimit bs) (.ok o, r') ∧
      ∀ x d', d.pull parseChunkSize partialChunkHeadLimit bs = (.slice x, d') → read + x.length < usizeEnd := by
  obtain ⟨bs, hio⟩ := feeds_of_ok hb h hok
  obtain ⟨r1, buf1, start, stop, hfed⟩ := readChunked_fed parseChunkSize hb h hbuf hio
  obtain ⟨expecting, hcall, hcase⟩ := hfed.call
  have htake : r1.takeChunked parseChunkSize start stop expecting = (.ok o, r') := by
    rw [hok, Prod.mk.injEq, Prod.mk.injEq] at hcall
    exact Prod.ext hcall.1.symm hcall.2.1.symm
  have hfits : d.Fits parseChunkSize bs ∧ ∀ x d', d.pull parseChunkSize partialChunkHeadLimit bs = (.slice x, d') →
      read + x.length < usizeEnd := by
    cases d with
    | finished => exact absurd rfl h.state.2
    | failed => exact absurd rfl h.ne_failed
    | ready held =>
      obtain ⟨-, rfl⟩ := hcase.resolve_left (by simp)
      rw [takeChunked_line hfed.stop_ne] at htake
      exact (parseChunkedBuf_ok hl hfed.buffer hfed.state hfed.window hread htake).symm
    | stalled head =>
      obtain ⟨-, rfl⟩ := hcase.resolve_left (by simp)
      rw [takeChunked_line hfed.stop_ne] at htake
      exact (parseChunkedBuf_ok hl hfed.buffer hfed.state hfed.window hread htake).symm
    | owing n =>
      rcases hcase with ⟨he, hn, rfl⟩ | ⟨hno, -⟩
      · cases he
        have hstop : stop = bs.length := by
          have hlen := length_of_slice hfed.window
          change bs.length = stop - 0 at hlen
          omega
        subst hstop
        obtain ⟨h1, h2⟩ := takeOwed_ok hfed.state hfed.nonempty hn htake
        refine ⟨h1, fun x d' hx => ?_⟩
        cases hx; exact h2
      · exact absurd rfl (hno n)
  obtain ⟨buf', o', r'', he, hlen, hg⟩ := readChunked_refines hb h hbuf hread hfits.1 hfits.2 hio
  rw [hok, Prod.mk.injEq, Prod.mk.injEq] at he
  obtain ⟨rfl, rfl, -⟩ := he
  exact ⟨bs, buf', hio, hlen, hfits.1, hg, hfits.2⟩

/-! ## Runs that complete -/

theorem readAll_skim (hl : Local parseChunkSize) : ∀ (calls : Nat) {r r' : BodyReader} {read : Nat} {buf seen : Bytes}
    {d : Decoder} {s s' : Stream} {slices : List Bytes}, r.bodyBuffer = some buf → Holds r read buf d →
    buf.length < usizeEnd → read < usizeEnd → Skim parseChunkSize d seen →
    readAll parseChunkSize calls (r, s) = some (slices, r', s') →
    ∃ taken, s.bytes = taken ++ s'.bytes ∧ Skim parseChunkSize .finished (seen ++ taken) ∧
      ∃ total, r'.readState = .completed total := by
  intro calls
  induction calls with
  | zero => intro r r' read buf seen d s s' slices _ _ _ _ _ hrun; cases hrun
  | succ calls ih =>
    intro r r' read buf seen d s s' slices hb h hbuf hread hseen hrun
    have hd := h.state.2
    rw [readAll, h.readBody_eq] at hrun
    rcases hcall : r.readChunked parseChunkSize s with ⟨o, r1, s1⟩
    rw [hcall] at hrun
    cases o with
    | ok o =>
      obtain ⟨bs, buf', hio, hlen, -, hg, hbound⟩ := readChunked_ok hl hb h hbuf hread hcall
      have hbytes := hio.bytes
      generalize hpull : d.pull parseChunkSize partialChunkHeadLimit bs = res at hg
      cases hg with
      | @slice x d' o r1 hget hb' hh' =>
        have hseen' := hseen.pull hl _ hd hpull (by simp)
        simp only at hrun
        split at hrun
        · rw [Option.map_eq_some_iff] at hrun
          obtain ⟨⟨l', y⟩, hy, he⟩ := hrun
          simp only [Prod.mk.injEq] at he
          obtain ⟨-, rfl⟩ := he
          obtain ⟨taken, h1, h2, h3⟩ := ih hb' hh' (by omega) (hbound _ _ hpull) hseen' hy
          refine ⟨bs ++ taken, by rw [hbytes, h1, List.append_assoc], ?_, h3⟩
          rw [← List.append_assoc]; exact h2
        · cases hrun
      | done hdone =>
        have hseen' := hseen.pull hl _ hd hpull (by simp)
        simp only [Option.some.injEq, Prod.mk.injEq] at hrun
        obtain ⟨-, rfl, rfl⟩ := hrun
        exact ⟨bs, hbytes, hseen', _, hdone⟩
    | err e => cases hrun
    | pending => cases hrun
    | panic t => cases hrun

/-- A reader in chunked mode that completes has consumed a well-formed chunked body if
    the stream has a CRLF behind the data of each chunk and a hex digit at the front of
    each size line, and only then. -/
theorem completed_wellFormed_iff (hl : Local parseChunkSize) (hs : Shaped parseChunkSize) (mem : Nat → Byte) (preread : Bytes)
    (hfits : preread.length < usizeEnd) (s : Stream) {calls : Nat} {slices : List Bytes} {r : BodyReader} {s' : Stream}
    (hrun : readAll parseChunkSize calls ((new mem).withChunkedRead preread, s) = some (slices, r, s')) :
    (∃ total, r.readState = .completed total) ∧ ∃ taken, s.bytes = taken ++ s'.bytes ∧
      (WellFormed (preread ++ taken) ↔ crlfAfterData parseChunkSize (preread ++ s.bytes) = true ∧
        digitsOnLines parseChunkSize (preread ++ s.bytes) = true) := by
  obtain ⟨buf, hb, hlen, hrw, hslice⟩ := setBuffer_holds (r := { new mem with readState := .chunked 0 0 0 0 }) (p := preread)
    fun _ => rfl
  have hbuf : buf.length < usizeEnd := by
    rw [hlen]
    show max bodyBufferSize preread.length < usizeEnd
    unfold bodyBufferSize usizeEnd at *; omega
  obtain ⟨taken, h1, h2, h3⟩ := readAll_skim hl calls hb (.fresh rfl hrw hslice) hbuf (by decide) (Skim.ready []) hrun
  refine ⟨h3, taken, h1, ?_⟩
  rw [Chunked.looseWire_nil, List.nil_append] at h2
  generalize hseen : preread ++ taken = seen at h2
  cases h2 with
  | finished cs rest hlast =>
    rw [h1, ← List.append_assoc preread, hseen]
    exact Chunked.wellFormed_iff hl hs hlast rest s'.bytes

theorem completed_wellFormed_twoChunks :
    ∃ calls slices r s', readAll Chunked.parseSizeLine calls ((new fun _ => 0).withChunkedRead (ascii "1;"),
        ⟨[.data (ascii "x\r\na\r"), .data (ascii "\n2\r\nbc\r\n0\r\n\r\n")], [], []⟩) = some (slices, r, s') ∧
      ∃ taken, ascii "x\r\na\r\n2\r\nbc\r\n0\r\n\r\n" = taken ++ s'.bytes ∧
        (WellFormed (ascii "1;" ++ taken) ↔
          crlfAfterData Chunked.parseSizeLine (ascii "1;x\r\na\r\n2\r\nbc\r\n0\r\n\r\n") = true ∧
          digitsOnLines Chunked.parseSizeLine (ascii "1;x\r\na\r\n2\r\nbc\r\n0\r\n\r\n") = true) := by
  obtain ⟨w, hw⟩ := serving_withChunkedRead (p := ascii "1;") (s := ⟨[.data (ascii "x\r\na\r"),
      .data (ascii "\n2\r\nbc\r\n0\r\n\r\n")], [], []⟩) (idle_new fun _ => 0)
    (fun l (_ : l ∈ twoChunks.lines) => Chunked.parse_recognizes l) (by decide)
    (show (twoChunks.text ++ ascii "\r\n").length < usizeEnd by decide) rfl
    ⟨[ascii "x\r\na\r", ascii "\n2\r\nbc\r\n0\r\n\r\n"], rfl, by decide, rfl⟩
  obtain ⟨slices, r, s', hrun, -, -⟩ := serving_readAll w hw
  exact ⟨_, slices, r, s', hrun,
    (completed_wellFormed_iff Chunked.parseSizeLine_local Chunked.parseSizeLine_shaped (fun _ => 0) (ascii "1;") (by decide) _ hrun).2⟩

/-- With bytes held no read is made. -/
theorem readChunked_ready (parseChunkSize : Bytes → ChunkStatus) {r : BodyReader} {read : Nat} {buf held : Bytes}
    (hb : r.bodyBuffer = some buf) (h : Holds r read buf (.ready held)) (hne : held ≠ []) (hbuf : buf.length < usizeEnd)
    (hread0 : read < usizeEnd)
    (hfit : ∀ i n, parseChunkSize held = .complete i n → i ≤ held.length ∧ (n ≠ 0 → i + n + 2 < usizeEnd))
    (hread : ∀ x d', Chunked.takeLine parseChunkSize partialChunkHeadLimit held = (.slice x, d') →
      read + x.length < usizeEnd) (s : Stream) :
    ∃ buf' o r', r.readChunked parseChunkSize s = (o, r', s) ∧ buf'.length = buf.length ∧
      Gives read buf' (Chunked.takeLine parseChunkSize partialChunkHeadLimit held) (o, r') := by
  have hio : Feeds buf.length (.ready held) [] s s := by
    rw [Feeds, if_neg (by simp [Decoder.reads, hne])]
    exact ⟨rfl, rfl⟩
  rw [← List.append_nil held] at hfit hread ⊢
  exact readChunked_refines hb h hbuf hread0 hfit hread hio

/-- `1\r\naXX0\r\n`: the two bytes behind the data are passed over unseen. -/
theorem completed_illFormed :
    ∃ r, readAll Chunked.parseSizeLine 3 ((new fun _ => 0).withChunkedRead (ascii "1\r\naXX0\r\n"), ⟨[], [], []⟩) =
        some ([ascii "a"], r, ⟨[], [], []⟩) ∧ r.readState = .completed 1 ∧
      ¬ WellFormed (ascii "1\r\naXX0\r\n") := by
  obtain ⟨buf, hb, hlen, hrw, hs⟩ := setBuffer_holds (r := { new (fun _ => 0) with readState := .chunked 0 0 0 0 })
    (p := ascii "1\r\naXX0\r\n") fun _ => rfl
  have hbuf : buf.length < usizeEnd := by
    rw [hlen]
    show max bodyBufferSize 9 < usizeEnd
    decide
  have hparse1 : Chunked.parseSizeLine (ascii "1\r\naXX0\r\n") = .complete 3 1 := by decide
  have hparse2 : Chunked.parseSizeLine (ascii "0\r\n") = .complete 3 0 := by decide
  have hpull1 : Chunked.takeLine Chunked.parseSizeLine partialChunkHeadLimit (ascii "1\r\naXX0\r\n") =
      (.slice (ascii "a"), .ready (ascii "0\r\n")) := by decide
  have hpull2 : Chunked.takeLine Chunked.parseSizeLine partialChunkHeadLimit (ascii "0\r\n") =
      (.done, .finished) := by decide
  obtain ⟨buf1, o1, r1, h1, hlen1, hg1⟩ := readChunked_ready Chunked.parseSizeLine hb (.fresh rfl hrw hs) (by decide) hbuf
    (by decide) (fun i n h => by rw [hparse1] at h; cases h; decide)
    (fun x d h => by rw [hpull1] at h; cases h; decide) ⟨[], [], []⟩
  rw [hpull1] at hg1
  cases hg1 with
  | @slice _ _ o1 r1 hget hb1 hh1 =>
    obtain ⟨buf2, o2, r2, h2, -, hg2⟩ := readChunked_ready Chunked.parseSizeLine hb1 hh1 (by decide) (by omega)
      (by decide) (fun i n h => by rw [hparse2] at h; cases h; decide)
      (fun x d h => by rw [hpull2] at h; cases h) ⟨[], [], []⟩
    rw [hpull2] at hg2
    cases hg2 with
    | done hst2 =>
      have e1 : readBody Chunked.parseSizeLine ((new fun _ => 0).withChunkedRead (ascii "1\r\naXX0\r\n"), ⟨[], [], []⟩) =
          (.ok (some o1), r1, ⟨[], [], []⟩) := h1
      have e2 : readBody Chunked.parseSizeLine (r1, ⟨[], [], []⟩) = (.ok none, r2, ⟨[], [], []⟩) :=
        (hh1.readBody_eq _ _).trans h2
      refine ⟨r2, ?_, hst2, ?_⟩
      · rw [readAll, e1]
        simp only [getSlicedBody_of_get hb1 hget]
        rw [readAll, e2]
        rfl
      · let c : Chunked.LooseChunk Chunked.parseSizeLine :=
          ⟨ascii "1\r\n", ascii "a", ascii "XX", by decide, by decide, by decide⟩
        have hlast : Chunked.IsLine Chunked.parseSizeLine (ascii "0\r\n") 0 := by unfold Chunked.IsLine; decide
        intro hgood
        have hgood' : WellFormed (Chunked.looseWire [c] ++ (ascii "0\r\n" ++ [])) := hgood
        rw [Chunked.wellFormed_iff Chunked.parseSizeLine_local Chunked.parseSizeLine_shaped hlast [] [],
          List.append_nil, Chunked.crlfAfterData_iff Chunked.parseSizeLine_local hlast] at hgood'
        exact absurd (hgood'.1 c (List.mem_singleton_self c)) (by decide)

end BodyReader

end Glaive.Session
