/-
  Glaive.Session.Interruptions — calls of `read_chunked` cut off at their read of the
  socket, before a byte has come (`core/src/session/reader.rs`; `select!` drops the
  future, or the read fails).

  All such a call leaves behind is the partial size line moved to the front of the
  buffer (`moved`); the state still says it stands where it stood. The next call moves
  what it finds there, which is the line again only where the move did not write over
  what it had yet to move (`Steady`, `interruptions_harmless_iff`).
-/

import Glaive.Session.ReaderSoundness

namespace Glaive.Session

open Glaive.Lib
open Glaive.Lib.Chunked (ChunkStatus Decoder Pull Local)

namespace BodyReader

variable {parseChunkSize : Bytes → ChunkStatus}

/-! ## Moving bytes to the front -/

/-- Once bytes are moved to the front, what stands where they stood. -/
theorem slice_moved {buf head : Bytes} {p : Nat} (h : slice p (p + head.length) buf = some head) :
    slice p (p + head.length) (overwrite buf 0 head) = some (head.drop p ++ head.drop (head.length - p)) := by
  obtain ⟨-, hle, hhead⟩ := slice_eq_some h
  have hlen : (overwrite buf 0 head).length = buf.length := length_overwrite (by omega)
  rw [slice_of_le (by omega) (by omega), List.drop_take, Nat.add_sub_cancel_left]
  rw [List.drop_take, Nat.add_sub_cancel_left] at hhead
  congr 1
  simp only [overwrite, List.take_zero, List.nil_append, Nat.zero_add, List.drop_append, List.drop_drop]
  by_cases hp : p < head.length
  · -- the ranges overlap
    have h1 : (head.drop p).length = head.length - p := List.length_drop
    rw [List.take_append, h1, List.take_of_length_le (by rw [h1]; omega)]
    congr 1
    rw [show head.length - (head.length - p) = p by omega, show head.length + (p - head.length) = head.length by omega]
    have h2 : head.drop (head.length - p) = ((buf.drop p).take head.length).drop (head.length - p) := by rw [← hhead]
    rw [h2, List.drop_take, List.drop_drop]
    congr 2 <;> omega
  · rw [List.drop_eq_nil_of_le (by omega), List.nil_append, List.nil_append, show head.length - p = 0 by omega,
      List.drop_zero, show head.length + (p - head.length) = p by omega]
    exact hhead.symm

/-- The bytes stand there still if they do not overlap the front, or repeat over the
    distance they are moved. -/
theorem slice_moved_iff {buf head : Bytes} {p : Nat} (h : slice p (p + head.length) buf = some head) :
    slice p (p + head.length) (overwrite buf 0 head) = some head ↔ head.drop p = head.take (head.length - p) := by
  rw [slice_moved h, Option.some.injEq]
  constructor
  · intro he
    have h1 : head = head.take (head.length - p) ++ head.drop (head.length - p) := (List.take_append_drop _ _).symm
    exact List.append_cancel_right (he.trans h1)
  · intro he
    rw [he, List.take_append_drop]

theorem overwrite_twice (buf head : Bytes) : overwrite (overwrite buf 0 head) 0 head = overwrite buf 0 head := by
  simp only [overwrite, List.take_zero, List.nil_append, Nat.zero_add]
  rw [List.drop_append, List.drop_eq_nil_of_le (Nat.le_refl _), List.nil_append, Nat.sub_self, List.drop_zero]

/-! ## A call that is cut off -/

/-- The call gets nothing: it is dropped at its read, or the read fails. -/
inductive Interrupted (parseChunkSize : Bytes → ChunkStatus) (r r' : BodyReader) : Prop
  | cancelled {s : Stream} : s.input = [] → r.readChunked parseChunkSize s = (.pending, r', s) →
      Interrupted parseChunkSize r r'
  | failed {s : Stream} {e : IoError} {rest : List ReadEv} : s.input = .error e :: rest →
      r.readChunked parseChunkSize s = (.err e, r', { s with input := rest }) → Interrupted parseChunkSize r r'

inductive Interrupts (parseChunkSize : Bytes → ChunkStatus) : Nat → BodyReader → BodyReader → Prop
  | none (r : BodyReader) : Interrupts parseChunkSize 0 r r
  | one {k : Nat} {r r' r'' : BodyReader} : Interrupted parseChunkSize r r' → Interrupts parseChunkSize k r' r'' →
      Interrupts parseChunkSize (k + 1) r r''

/-- A partial size line moved to the front. -/
def moved (r : BodyReader) : BodyReader :=
  match r.readState, r.bodyBuffer with
  | .chunked _ 0 stop n, some buf =>
    if stop = 0 then r
    else
      match slice (stop - n) stop buf with
      | some head => { r with bodyBuffer := some (overwrite buf 0 head) }
      | none => r
  | _, _ => r

/-- A partial size line keeps its place when it is moved: it does not overlap the front
    of the buffer, or repeats over the distance to it. -/
def Steady (r : BodyReader) : Prop :=
  ∀ read stop n buf head, r.readState = .chunked read 0 stop n → stop ≠ 0 → r.bodyBuffer = some buf →
    slice (stop - n) stop buf = some head → head.drop (stop - n) = head.take (n - (stop - n))

/-- What a reader in chunked mode is, between calls. -/
structure Between (r : BodyReader) (read : Nat) (buf : Bytes) (d : Decoder) : Prop where
  buffer : r.bodyBuffer = some buf
  holds : Holds r read buf d
  length : buf.length < usizeEnd
  read : read < usizeEnd

variable {r r' : BodyReader} {read : Nat} {buf : Bytes} {d : Decoder}

/-- Only a partial size line is moved. -/
theorem Between.moved_eq (h : Between r read buf d) (hd : ∀ head, d ≠ .stalled head) : r.moved = r := by
  have hb := h.buffer
  cases h.holds with
  | fresh hst => simp only [BodyReader.moved, hst, hb, if_true]
  | @multi p start stop hst h0 =>
    cases start with
    | zero => omega
    | succ n => simp only [BodyReader.moved, hst]
  | @stalled head => exact absurd rfl (hd head)
  | owing hst => simp only [BodyReader.moved, hst, hb, if_true]

/-- A reader with a partial size line, and where the line stands. -/
structure Stalled (r : BodyReader) (read : Nat) (buf head : Bytes) (p : Nat) : Prop where
  state : r.readState = .chunked read 0 (p + head.length) head.length
  buffer : r.bodyBuffer = some buf
  nonempty : head ≠ []
  limit : head.length ≤ partialChunkHeadLimit
  rewound : r.rewindBufSize = 0
  window : slice p (p + head.length) buf = some head
  length : buf.length < usizeEnd
  read : read < usizeEnd

variable {head : Bytes} {p : Nat}

theorem Between.stalled (h : Between r read buf (.stalled head)) : ∃ p, Stalled r read buf head p := by
  obtain ⟨hb, hh, hl, hr⟩ := h
  cases hh with
  | @stalled _ stop hst hne hlim hle hrw hs =>
    obtain ⟨p, rfl⟩ : ∃ p, stop = p + head.length := ⟨stop - head.length, by omega⟩
    rw [Nat.add_sub_cancel] at hs
    exact ⟨p, hst, hb, hne, hlim, hrw, hs, hl, hr⟩

theorem Between.stalled_of_state (h : Between r read buf d) {read' stop n : Nat}
    (hst : r.readState = .chunked read' 0 stop n) (hstop : stop ≠ 0) : ∃ head, d = .stalled head := by
  cases h.holds with
  | fresh hst' => rw [hst', ReadState.chunked.injEq] at hst; omega
  | multi hst' h0 => rw [hst', ReadState.chunked.injEq] at hst; omega
  | @stalled head => exact ⟨head, rfl⟩
  | owing hst' => rw [hst', ReadState.chunked.injEq] at hst; omega

theorem Stalled.between (h : Stalled r read buf head p) : Between r read buf (.stalled head) :=
  ⟨h.buffer, .stalled h.state h.nonempty h.limit (by omega) h.rewound (by rw [Nat.add_sub_cancel]; exact h.window),
    h.length, h.read⟩

theorem Stalled.stop_ne (h : Stalled r read buf head p) : p + head.length ≠ 0 := by
  have := List.length_pos_of_ne_nil h.nonempty
  omega

theorem Stalled.moved_eq (h : Stalled r read buf head p) :
    r.moved = { r with bodyBuffer := some (overwrite buf 0 head) } := by
  simp only [BodyReader.moved, h.state, h.buffer, if_neg h.stop_ne, Nat.add_sub_cancel, h.window]

/-- The line that stands there once it is moved. -/
theorem Stalled.moved (h : Stalled r read buf head p) :
    ∃ head', Stalled r.moved read (overwrite buf 0 head) head' p ∧ head'.length = head.length ∧
      (head' = head ↔ head.drop p = head.take (head.length - p)) := by
  obtain ⟨-, hstop, -⟩ := slice_eq_some h.window
  have hlen : (overwrite buf 0 head).length = buf.length := length_overwrite (by omega)
  have hs := slice_moved h.window
  have hlen' := length_of_slice hs
  rw [Nat.add_sub_cancel_left] at hlen'
  refine ⟨head.drop p ++ head.drop (head.length - p), ?_, hlen', ?_⟩
  · refine ⟨by rw [h.moved_eq, hlen']; exact h.state, by rw [h.moved_eq], ?_, by rw [hlen']; exact h.limit,
      by rw [h.moved_eq]; exact h.rewound, by rw [hlen']; exact hs, by rw [hlen]; exact h.length, h.read⟩
    intro e
    rw [e, List.length_nil] at hlen'
    exact h.nonempty (List.length_eq_zero_iff.mp hlen'.symm)
  · rw [← slice_moved_iff h.window, hs, Option.some.injEq]

theorem Between.moved (h : Between r read buf d) :
    ∃ buf' d', Between r.moved read buf' d' := by
  by_cases hd : ∃ head, d = .stalled head
  · obtain ⟨head, rfl⟩ := hd
    obtain ⟨p, hs⟩ := h.stalled
    obtain ⟨head', hs', -, -⟩ := hs.moved
    exact ⟨_, _, hs'.between⟩
  · rw [h.moved_eq fun head e => hd ⟨head, e⟩]
    exact ⟨_, _, h⟩

/-! ## What a call that is cut off leaves -/

theorem give_ne_pending (x : Option (ReadState × Offset)) : (r.give x).1 ≠ .pending := by
  cases x <;> simp [give, overflow]

theorem takeChunked_ne_pending (start stop expecting : Nat) :
    (r.takeChunked parseChunkSize start stop expecting).1 ≠ .pending := by
  have henter : ∀ st (o : Out (Option Offset)), o ≠ .pending → (r.enter st o).1 ≠ .pending := by
    intro st o ho
    cases st with
    | none => simp [enter, overflow]
    | some st => exact ho
  unfold takeChunked
  split
  · exact henter _ _ (by simp)
  · split
    · split
      · simp [overflow]
      · split
        · exact give_ne_pending _
        · dsimp only
          split <;> exact give_ne_pending _
    · unfold parseChunkedBuf
      split
      · simp [outOfRange]
      · split
        · split
          · exact henter _ _ (by simp)
          · exact give_ne_pending _
        · split
          · exact henter _ _ (by simp)
          · exact give_ne_pending _
        · exact henter _ _ (by simp)

theorem fill_cut (hb : r.bodyBuffer = some buf) (hrw : r.rewindBufSize = 0) :
    (∀ s s', s.read buf.length = (.pending, s') → r.fill s = (.pending, r, s')) ∧
    ∀ s e s', s.read buf.length = (.err e, s') → r.fill s = (.err e, r, s') := by
  obtain ⟨st, b, size, rw, mem⟩ := r
  simp only at hb hrw
  subst hb hrw
  refine ⟨fun s s' hs => ?_, fun s e s' hs => ?_⟩ <;> simp only [fill, if_true, hs]

/-- A call either makes no read, or makes one and stops there if nothing comes. -/
theorem Between.readChunked_cut (parseChunkSize : Bytes → ChunkStatus) (h : Between r read buf d) :
    (d.reads = false ∧ ∀ s, (r.readChunked parseChunkSize s).2.2 = s ∧
      (r.readChunked parseChunkSize s).1 ≠ .pending) ∨
    ∃ cap, (∀ s s', s.read cap = (.pending, s') → r.readChunked parseChunkSize s = (.pending, r.moved, s')) ∧
      ∀ s e s', s.read cap = (.err e, s') → r.readChunked parseChunkSize s = (.err e, r.moved, s') := by
  have hb := h.buffer
  have front : ∀ n, r.readState = .chunked read 0 0 n → r.rewindBufSize = 0 → r.moved = r →
      ∃ cap, (∀ s s', s.read cap = (.pending, s') → r.readChunked parseChunkSize s = (.pending, r.moved, s')) ∧
      ∀ s e s', s.read cap = (.err e, s') → r.readChunked parseChunkSize s = (.err e, r.moved, s') := by
    intro n hst hrw hm
    obtain ⟨hpending, herr⟩ := fill_cut hb hrw
    refine ⟨buf.length, fun s s' hs => ?_, fun s e s' hs => ?_⟩
    · simp only [readChunked, hst, if_true, fillChunked, hpending s s' hs, hm]
    · simp only [readChunked, hst, if_true, fillChunked, herr s e s' hs, hm]
  cases hh : h.holds with
  | @fresh p hst hrw hs =>
    by_cases hp : p = []
    · subst hp
      exact Or.inr (front 0 hst hrw (h.moved_eq (by simp)))
    · have hpos := List.length_pos_of_ne_nil hp
      refine Or.inl ⟨by simp [Decoder.reads, hp], fun s => ?_⟩
      simp only [readChunked, hst, if_true, fillChunked, fill_rewind hb (show r.rewindBufSize ≠ 0 by omega)]
      exact ⟨trivial, takeChunked_ne_pending _ _ _⟩
  | @multi p start stop hst h0 hrw hs hp =>
    refine Or.inl ⟨by simp [Decoder.reads, hp], fun s => ?_⟩
    simp only [readChunked, hst, if_neg (show start ≠ 0 by omega)]
    exact ⟨trivial, takeChunked_ne_pending _ _ _⟩
  | @stalled head stop =>
    obtain ⟨p, hs⟩ := h.stalled
    refine Or.inr ⟨(overwrite buf 0 head).length - head.length, fun s s' hr => ?_, fun s e s' hr => ?_⟩ <;>
      simp only [readChunked, hs.state, if_true, fillChunked, if_neg hs.stop_ne, hs.buffer,
        usub_of_le (Nat.le_add_left head.length p), Nat.add_sub_cancel, Option.bind_some, hs.window, hr, hs.moved_eq]
  | @owing n hst hn hrw => exact Or.inr (front n hst hrw (h.moved_eq (by simp)))

/-- It leaves the partial size line moved to the front, and nothing else. -/
theorem Between.interrupted (h : Between r read buf d) (hi : Interrupted parseChunkSize r r') :
    r' = r.moved := by
  rcases h.readChunked_cut parseChunkSize with ⟨-, hno⟩ | ⟨cap, hpending, herr⟩
  · cases hi with
    | @cancelled s hs hc => exact absurd (by rw [hc]) (hno s).2
    | @failed s e rest hs hc =>
      have hsame := (hno s).1
      rw [hc] at hsame
      have hin : rest = s.input := congrArg Stream.input hsame
      rw [hs] at hin
      exact absurd (congrArg List.length hin) (by simp)
  · cases hi with
    | @cancelled s hs hc =>
      have := hpending s s (by simp only [Stream.read, hs])
      rw [hc, Prod.mk.injEq, Prod.mk.injEq] at this
      exact this.2.1
    | @failed s e rest hs hc =>
      have := herr s e { s with input := rest } (by simp only [Stream.read, hs])
      rw [hc, Prod.mk.injEq, Prod.mk.injEq] at this
      exact this.2.1

theorem Between.interrupts {k : Nat} (h : Between r read buf d)
    (hi : Interrupts parseChunkSize k r r') : ∃ buf' d', Between r' read buf' d' := by
  induction hi generalizing buf d with
  | none => exact ⟨_, _, h⟩
  | one h1 _ ih =>
    obtain ⟨_, _, hm⟩ := h.moved
    rw [← h.interrupted h1] at hm
    exact ih hm

/-- With a partial size line held, a call can be cut off. -/
theorem Stalled.interrupted (parseChunkSize : Bytes → ChunkStatus) (h : Stalled r read buf head p) :
    Interrupted parseChunkSize r r.moved := by
  rcases h.between.readChunked_cut parseChunkSize with ⟨-, hno⟩ | ⟨cap, hpending, -⟩
  · exact absurd (by
      simp only [readChunked, h.state, if_true, fillChunked, if_neg h.stop_ne, h.buffer,
        usub_of_le (Nat.le_add_left head.length p), Nat.add_sub_cancel, Option.bind_some, h.window, Stream.read])
      (hno ⟨[], [], []⟩).2
  · exact .cancelled (s := ⟨[], [], []⟩) rfl (hpending _ _ rfl)

/-! ## Where it does no harm -/

theorem Stalled.steady_iff (h : Stalled r read buf head p) :
    Steady r ↔ head.drop p = head.take (head.length - p) := by
  constructor
  · intro hst
    have := hst _ _ _ _ head h.state h.stop_ne h.buffer (by rw [Nat.add_sub_cancel]; exact h.window)
    rwa [Nat.add_sub_cancel] at this
  · intro he read' stop n buf' head' hst _ hb hs
    rw [h.state] at hst
    rw [h.buffer] at hb
    cases hst
    cases hb
    rw [Nat.add_sub_cancel] at hs ⊢
    rw [h.window, Option.some.injEq] at hs
    rw [← hs]
    exact he

theorem Between.steady (h : Between r read buf d) (hd : ∀ head, d ≠ .stalled head) : Steady r := by
  intro read' stop n buf' head hst hstop _ _
  obtain ⟨head, he⟩ := h.stalled_of_state hst hstop
  exact absurd he (hd head)

/-- A steady line is moved to the same place by the next call. -/
theorem Steady.readChunked_moved (parseChunkSize : Bytes → ChunkStatus) (hst : Steady r)
    (hstate : r.readState = .chunked read 0 (p + head.length) head.length) (hstop : p + head.length ≠ 0)
    (hb : r.bodyBuffer = some buf) (hs : slice p (p + head.length) buf = some head) :
    r.moved = { r with bodyBuffer := some (overwrite buf 0 head) } ∧
      ∀ s, r.moved.readChunked parseChunkSize s = r.readChunked parseChunkSize s := by
  have hm : r.moved = { r with bodyBuffer := some (overwrite buf 0 head) } := by
    simp only [BodyReader.moved, hstate, hb, if_neg hstop, Nat.add_sub_cancel, hs]
  have hsteady := hst _ _ _ _ head hstate hstop hb (by rw [Nat.add_sub_cancel]; exact hs)
  rw [Nat.add_sub_cancel] at hsteady
  have hs' := (slice_moved_iff hs).mpr hsteady
  refine ⟨hm, fun s => ?_⟩
  rw [hm]
  simp only [readChunked, hstate, if_true, fillChunked, if_neg hstop, hb, usub_of_le (Nat.le_add_left head.length p),
    Nat.add_sub_cancel, Option.bind_some, hs, hs', overwrite_twice]

/-- And the reader holds what it held. -/
theorem Steady.between_moved (hst : Steady r) (h : Between r read buf d) : ∃ buf', Between r.moved read buf' d := by
  by_cases hd : ∃ head, d = .stalled head
  · obtain ⟨head, rfl⟩ := hd
    obtain ⟨p, hs⟩ := h.stalled
    obtain ⟨head', hs', -, hiff⟩ := hs.moved
    obtain rfl := hiff.mpr (hs.steady_iff.mp hst)
    exact ⟨_, hs'.between⟩
  · rw [h.moved_eq fun head e => hd ⟨head, e⟩]
    exact ⟨_, h⟩

theorem Steady.moved (parseChunkSize : Bytes → ChunkStatus) (hst : Steady r) (h : Between r read buf d) :
    Steady r.moved ∧ ∀ s, r.moved.readChunked parseChunkSize s = r.readChunked parseChunkSize s := by
  by_cases hd : ∃ head, d = .stalled head
  · obtain ⟨head, rfl⟩ := hd
    obtain ⟨p, hs⟩ := h.stalled
    obtain ⟨head', hs', -, hiff⟩ := hs.moved
    have hsteady := hs.steady_iff.mp hst
    obtain rfl := hiff.mpr hsteady
    exact ⟨hs'.steady_iff.mpr hsteady,
      (hst.readChunked_moved parseChunkSize hs.state hs.stop_ne hs.buffer hs.window).2⟩
  · rw [h.moved_eq fun head e => hd ⟨head, e⟩]
    exact ⟨hst, fun _ => rfl⟩

theorem Steady.interrupts {k : Nat} (hst : Steady r) (h : Between r read buf d)
    (hi : Interrupts parseChunkSize k r r') :
    Steady r' ∧ ∀ s, r'.readChunked parseChunkSize s = r.readChunked parseChunkSize s := by
  induction hi generalizing buf d with
  | none => exact ⟨hst, fun _ => rfl⟩
  | one h1 _ ih =>
    obtain ⟨_, _, hm⟩ := h.moved
    obtain ⟨hst', heq⟩ := hst.moved parseChunkSize h
    rw [← h.interrupted h1] at hm hst' heq
    obtain ⟨hst'', heq'⟩ := ih hst' hm
    exact ⟨hst'', fun s => (heq' s).trans (heq s)⟩

/-! ## Any mode -/

theorem read_pending {s s' : Stream} {cap : Nat} (h : s.read cap = (.pending, s')) : s.input = [] ∧ s' = s := by
  unfold Stream.read at h
  split at h
  · rename_i hs
    cases h
    exact ⟨hs, rfl⟩
  · cases h
  · split at h <;> cases h

theorem fill_pending {s s' : Stream} (h : r.fill s = (.pending, r', s')) : s.input = [] ∧ s' = s ∧ r' = r := by
  unfold fill at h
  split at h
  · cases h
  · simp only at h
    split at h
    · rename_i hrw
      split at h
      · cases h
      · cases h
      · rename_i hread
        obtain ⟨hin, rfl⟩ := read_pending hread
        cases h
        exact ⟨hin, rfl, by rw [← hrw]⟩
      · cases h
    · cases h

theorem takePartially_ne_pending (n : Nat) : (r.takePartially n).1 ≠ .pending := by
  unfold takePartially
  split
  · split
    · simp
    · split <;> exact give_ne_pending _
  · simp [wrongReadMode]

theorem takeUntilClosed_ne_pending (n : Nat) : (r.takeUntilClosed n).1 ≠ .pending := by
  unfold takeUntilClosed
  split
  · split
    · simp
    · exact give_ne_pending _
  · simp [wrongReadMode]

theorem fillChunked_pending (parseChunkSize : Bytes → ChunkStatus) {s s' : Stream} {stop n : Nat} (hst : r.readState = .chunked read 0 stop n)
    (h : r.fillChunked stop n s = (.pending, r', s')) :
    s.input = [] ∧ s' = s ∧ r' = r.moved ∧
      (Steady r → ∀ s2, r'.readChunked parseChunkSize s2 = r.readChunked parseChunkSize s2) := by
  unfold fillChunked at h
  split at h
  · rename_i hstop
    split at h
    · cases h
    · cases h
    · rename_i hf
      obtain ⟨hin, hs, hr⟩ := fill_pending hf
      rw [hs, hr] at h
      cases h
      have hm : r.moved = r := by
        unfold BodyReader.moved
        rw [hst, hstop]
        cases r.bodyBuffer <;> rfl
      exact ⟨hin, rfl, hm.symm, fun _ _ => rfl⟩
    · cases h
  · rename_i hstop
    split at h
    · cases h
    · rename_i buf hb
      split at h
      · cases h
      · rename_i head hhead
        simp only at h
        split at h
        · split at h <;> cases h
        · cases h
        · rename_i hread
          obtain ⟨hin, rfl⟩ := read_pending hread
          cases h
          obtain ⟨p, hp, hs⟩ := Option.bind_eq_some_iff.mp hhead
          obtain ⟨hle, rfl⟩ : n ≤ stop ∧ p = stop - n := by
            unfold usub at hp
            split at hp
            · cases hp
              exact ⟨‹_›, rfl⟩
            · cases hp
          have hlen := length_of_slice hs
          obtain rfl : n = head.length := by omega
          obtain ⟨p, rfl⟩ : ∃ p, stop = p + head.length := ⟨stop - head.length, by omega⟩
          rw [Nat.add_sub_cancel] at hs
          have hm : r.moved = { r with bodyBuffer := some (overwrite buf 0 head) } := by
            simp only [BodyReader.moved, hst, hb, if_neg hstop, Nat.add_sub_cancel, hs]
          rw [← hm]
          exact ⟨hin, rfl, rfl, fun hsteady => (hsteady.readChunked_moved parseChunkSize hst hstop hb hs).2⟩
        · cases h

theorem moved_readState (r : BodyReader) : r.moved.readState = r.readState := by
  unfold BodyReader.moved
  split
  · split
    · rfl
    · split <;> rfl
  · rfl

/-- A call that waits has read nothing, and its reader is left as it was but for a
    partial size line. -/
theorem readBody_pending {s s' : Stream} (h : readBody parseChunkSize (r, s) = (.pending, r', s')) :
    s.input = [] ∧ s' = s ∧ r' = r.moved ∧
      (Steady r → ∀ s2, readBody parseChunkSize (r', s2) = readBody parseChunkSize (r, s2)) := by
  cases hst : r.readState with
  | start => simp only [readBody, hst] at h; cases h
  | completed n => simp only [readBody, hst] at h; cases h
  | done n => simp only [readBody, hst] at h; cases h
  | partially n m =>
    have hm : r.moved = r := by simp only [BodyReader.moved, hst]
    simp only [readBody, hst, readPartially] at h
    split at h
    · exact absurd (congrArg Prod.fst h) (takePartially_ne_pending _)
    · cases h
    · rename_i hf
      obtain ⟨hin, hs, hr⟩ := fill_pending hf
      rw [hs, hr] at h
      cases h
      exact ⟨hin, rfl, hm.symm, fun _ _ => rfl⟩
    · cases h
  | http10 n =>
    have hm : r.moved = r := by simp only [BodyReader.moved, hst]
    simp only [readBody, hst, readUntilClosed] at h
    split at h
    · exact absurd (congrArg Prod.fst h) (takeUntilClosed_ne_pending _)
    · cases h
    · rename_i hf
      obtain ⟨hin, hs, hr⟩ := fill_pending hf
      rw [hs, hr] at h
      cases h
      exact ⟨hin, rfl, hm.symm, fun _ _ => rfl⟩
    · cases h
  | chunked n start stop k =>
    simp only [readBody, hst, readChunked] at h
    split at h
    · rename_i h0
      subst h0
      split at h
      · exact absurd (congrArg Prod.fst h) (takeChunked_ne_pending _ _ _)
      · cases h
      · rename_i hf
        obtain ⟨hin, rfl, rfl, hagain⟩ := fillChunked_pending parseChunkSize hst hf
        cases h
        refine ⟨hin, rfl, rfl, fun hsteady s2 => ?_⟩
        simp only [readBody, moved_readState, hst]
        exact hagain hsteady s2
      · cases h
    · exact absurd (congrArg Prod.fst h) (takeChunked_ne_pending _ _ _)

/-! ## What a call shows -/

/-- The bytes of the buffer the state refers to. -/
def held (r : BodyReader) : Option Bytes :=
  match r.readState with
  | .chunked _ start stop n =>
    if start ≠ 0 then r.bodyBuffer.bind (slice start stop)
    else if stop ≠ 0 then r.bodyBuffer.bind (slice (stop - n) stop)
    else r.bodyBuffer.bind (slice 0 r.rewindBufSize)
  | _ => none

/-- How a call ends, with the bytes of its slice. -/
def contents : Out (Option Offset) × BodyReader × Stream → Out (Option Bytes)
  | (.ok (some o), r, _) =>
    match r.getSlicedBody o with
    | .ok bs => .ok (some bs)
    | .err e => .err e
    | .pending => .pending
    | .panic t => .panic t
  | (.ok none, _, _) => .ok none
  | (.err e, _, _) => .err e
  | (.pending, _, _) => .pending
  | (.panic t, _, _) => .panic t

/-- Two calls end alike, with the same bytes, state and bytes held, and took the same
    bytes of their sockets. -/
structure Agree (x y : Out (Option Offset) × BodyReader × Stream) : Prop where
  contents : contents x = contents y
  state : x.2.1.readState = y.2.1.readState
  held : x.2.1.held = y.2.1.held
  stream : x.2.2 = y.2.2

theorem Agree.refl (x : Out (Option Offset) × BodyReader × Stream) : Agree x x := ⟨rfl, rfl, rfl, rfl⟩

theorem Stalled.held_eq (h : Stalled r read buf head p) : r.held = some head := by
  simp only [held, h.state, ne_eq, not_true_eq_false, if_false, if_pos h.stop_ne, h.buffer, Option.bind_some,
    Nat.add_sub_cancel]
  exact h.window

/-- A call that ends with a value is a pull. -/
theorem Between.readChunked_ok (hl : Local parseChunkSize) (h : Between r read buf d) {s s' : Stream}
    {o : Option Offset} (hok : r.readChunked parseChunkSize s = (.ok o, r', s')) :
    ∃ bs q d', d.pull parseChunkSize partialChunkHeadLimit bs = (q, d') ∧ Feeds buf.length d bs s s' ∧
      ((∃ x buf', q = .slice x ∧ contents (.ok o, r', s') = .ok (some x) ∧
          Between r' (read + x.length) buf' d') ∨
        q = .done ∧ o = none ∧ r'.readState = .completed read) := by
  obtain ⟨bs, buf', hio, hlen, -, hg, hbound⟩ := BodyReader.readChunked_ok hl h.buffer h.holds h.length h.read hok
  have hlen' := h.length
  generalize hpull : d.pull parseChunkSize partialChunkHeadLimit bs = res at hg
  refine ⟨bs, res.1, res.2, hpull, hio, ?_⟩
  cases hg with
  | @slice x d' o r1 hget hb' hh' =>
    refine Or.inl ⟨x, buf', rfl, ?_, hb', hh', by omega, hbound _ _ hpull⟩
    simp only [contents, getSlicedBody_of_get hb' hget]
  | done hdone => exact Or.inr ⟨rfl, rfl, hdone⟩

/-- Nothing is held of a size line but what the parser wants more of. -/
theorem pull_stalled {bs : Bytes} {q : Pull}
    (h : d.pull parseChunkSize partialChunkHeadLimit bs = (q, .stalled head)) :
    parseChunkSize head = .incomplete ∧ (∀ held, d = .stalled held → head = held ++ bs) := by
  have hsettle : ∀ (n : Nat) (avail : Bytes), Chunked.settle n avail ≠ .stalled head := by
    intro n avail
    unfold Chunked.settle
    split <;> simp
  have hline : ∀ avail, Chunked.takeLine parseChunkSize partialChunkHeadLimit avail = (q, .stalled head) →
      parseChunkSize head = .incomplete ∧ head = avail := by
    intro avail ht
    unfold Chunked.takeLine at ht
    split at ht
    · split at ht
      · cases ht
      · exact absurd (congrArg Prod.snd ht) (hsettle _ _)
    · rename_i hp
      split at ht
      · cases ht
      · cases ht
        exact ⟨hp, rfl⟩
    · cases ht
  cases d with
  | ready held => exact ⟨(hline _ h).1, fun _ e => by cases e⟩
  | stalled held =>
    refine ⟨(hline _ h).1, fun _ e => ?_⟩
    cases e
    exact (hline _ h).2
  | owing n => exact absurd (congrArg Prod.snd h) (hsettle _ _)
  | finished => cases h
  | failed => cases h

/-! ## Where it does harm -/

theorem Gives.contents_slice {x : Bytes} {o : Out (Option Offset)} (h : Gives read buf (.slice x, d) (o, r)) (s : Stream) :
    (∃ o', o = .ok o') ∧ contents (o, r, s) = .ok (some x) := by
  cases h with
  | slice hget hb => exact ⟨⟨_, rfl⟩, by simp only [contents, getSlicedBody_of_get hb hget]⟩

/-- What comes is put behind the line that is held. -/
theorem Stalled.readChunked_data (h : Stalled r read buf head p) {bs : Bytes} (hbs : bs.length ≤ buf.length - head.length)
    (hfit : (Decoder.stalled head).Fits parseChunkSize bs)
    (hread : ∀ x d', Chunked.takeLine parseChunkSize partialChunkHeadLimit (head ++ bs) = (.slice x, d') →
      read + x.length < usizeEnd) (after : List ReadEv) :
    ∃ buf1 o r1, r.readChunked parseChunkSize ⟨.data bs :: after, [], []⟩ = (o, r1, ⟨after, [], []⟩) ∧
      buf1.length = buf.length ∧
      Gives read buf1 (Chunked.takeLine parseChunkSize partialChunkHeadLimit (head ++ bs)) (o, r1) := by
  refine readChunked_refines h.buffer h.between.holds h.length h.read hfit hread ?_
  rw [Feeds, if_pos (show (Decoder.stalled head).reads = true from rfl)]
  refine ⟨?_, by simp [Decoder.held, h.nonempty]⟩
  simp only [Stream.read, Decoder.held]
  exact if_pos hbs

/-- At the end of the input one more call shows the line that is held. -/
theorem Stalled.readChunked_eof (h : Stalled r read buf head p) (hinc : parseChunkSize head = .incomplete)
    (after : List ReadEv) :
    ∃ o r1 buf1 p1, r.readChunked parseChunkSize ⟨.data [] :: after, [], []⟩ = (.ok o, r1, ⟨after, [], []⟩) ∧
      contents (.ok o, r1, ⟨after, [], []⟩) = .ok (some []) ∧ Stalled r1 read buf1 head p1 := by
  have hline : Chunked.takeLine parseChunkSize partialChunkHeadLimit (head ++ []) = (.slice [], .stalled head) := by
    simp only [List.append_nil, Chunked.takeLine, hinc, if_neg (Nat.not_lt.mpr h.limit)]
  have hfit : (Decoder.stalled head).Fits parseChunkSize [] := by
    intro i n hp
    rw [Decoder.held, List.append_nil, hinc] at hp
    cases hp
  obtain ⟨buf1, o, r1, hcall, hlen, hg⟩ := h.readChunked_data (Nat.zero_le _) hfit
    (fun x d' hx => by rw [hline] at hx; cases hx; exact h.read) after
  rw [hline] at hg
  obtain ⟨⟨o, rfl⟩, hcont⟩ := hg.contents_slice ⟨after, [], []⟩
  cases hg with
  | slice _ hb' hh' =>
    obtain ⟨p1, hs1⟩ := (Between.mk hb' hh' (hlen ▸ h.length) h.read).stalled
    exact ⟨_, r1, buf1, p1, hcall, hcont, hs1⟩

theorem Stalled.harmed (hl : Local parseChunkSize) (h : Stalled r read buf head p)
    (hinc : parseChunkSize head = .incomplete) (hns : ¬ Steady r) :
    ∃ s, (r.readChunked parseChunkSize s).1 ≠ .pending ∧
      ¬ Agree (r.moved.readChunked parseChunkSize s) (r.readChunked parseChunkSize s) := by
  obtain ⟨head', hs', hlen, hiff⟩ := h.moved
  rw [h.steady_iff, ← hiff] at hns
  obtain ⟨o, r1, buf1, p1, hcall, hcont, hs1⟩ := h.readChunked_eof hinc []
  refine ⟨⟨[.data []], [], []⟩, by rw [hcall]; simp, fun hagree => hns ?_⟩
  rw [hcall] at hagree
  obtain ⟨hc, hst, hheld, -⟩ := hagree
  rw [hcont] at hc
  rcases hcall' : r.moved.readChunked parseChunkSize ⟨[.data []], [], []⟩ with ⟨o2, r2, s2⟩
  rw [hcall'] at hc hst hheld
  simp only at hst hheld
  cases o2 with
  | ok o2 =>
    obtain ⟨bs, q, d2, hpull, hio, hcase⟩ :=
      hs'.between.readChunked_ok hl hcall'
    have hbs : bs = [] := (List.append_eq_nil_iff.mp hio.bytes.symm).1
    subst hbs
    rcases hcase with ⟨x, buf2, rfl, -, hbtw⟩ | ⟨-, -, hdone⟩
    · -- the line is held again, as it stands
      obtain ⟨head2, rfl⟩ := hbtw.stalled_of_state (hst.trans hs1.state) hs1.stop_ne
      obtain ⟨p2, hs2⟩ := hbtw.stalled
      have h2 := (pull_stalled hpull).2 _ rfl
      rw [List.append_nil] at h2
      rw [hs2.held_eq, hs1.held_eq, Option.some.injEq] at hheld
      rw [← hheld, h2]
    · rw [hs1.state, hdone] at hst
      cases hst
  | err e => cases hc
  | pending => cases hc
  | panic t => cases hc

/-- The readers in chunked mode: set to it, or left in it by a call, whatever calls
    were cut off before that one. -/
inductive Reached (parseChunkSize : Bytes → ChunkStatus) : BodyReader → Prop
  | start {r : BodyReader} {preread : Bytes} : r.Idle → preread.length < usizeEnd →
      Reached parseChunkSize (r.withChunkedRead preread)
  | call {k : Nat} {r r1 r' : BodyReader} {s s' : Stream} {o : Option Offset} {read start stop n : Nat} :
      Reached parseChunkSize r → Interrupts parseChunkSize k r r1 →
      r1.readChunked parseChunkSize s = (.ok o, r', s') → r'.readState = .chunked read start stop n →
      Reached parseChunkSize r'

theorem Reached.between (hl : Local parseChunkSize) (h : Reached parseChunkSize r) :
    ∃ read buf d, Between r read buf d ∧ ∀ head, d = .stalled head → parseChunkSize head = .incomplete := by
  induction h with
  | @start r preread hi hfits =>
    obtain ⟨buf, hb, hlen, hrw, hs⟩ := setBuffer_holds (r := { r with readState := .chunked 0 0 0 0 }) (p := preread)
      fun _ => hi.rewound
    refine ⟨0, buf, .ready preread, ⟨hb, .fresh rfl hrw hs, ?_, by decide⟩, by simp⟩
    rw [hlen, show ({ r with readState := ReadState.chunked 0 0 0 0 } : BodyReader).bodySize = bodyBufferSize from hi.size]
    unfold bodyBufferSize usizeEnd at *
    omega
  | call _ hi hcall hst ih =>
    obtain ⟨read, buf, d, hbtw, -⟩ := ih
    obtain ⟨_, _, hbtw1⟩ := hbtw.interrupts hi
    obtain ⟨bs, q, d', hpull, -, hcase⟩ := hbtw1.readChunked_ok hl hcall
    rcases hcase with ⟨x, buf', rfl, -, hbtw'⟩ | ⟨-, -, hdone⟩
    · refine ⟨_, _, _, hbtw', ?_⟩
      intro head he
      subst he
      exact (pull_stalled hpull).1
    · rw [hdone] at hst
      cases hst

/-- A chunk, and the front of a size line with an extension. -/
def tornLine : Bytes := ascii "1\r\na\r\n1;abcdefg"

/-- The reader that was given it, two calls later: bytes 6 to 15 are the size line. -/
def tornReader (mem : Nat → Byte) : BodyReader :=
  { (new mem).withChunkedRead tornLine with readState := .chunked 1 0 15 9, rewindBufSize := 0 }

theorem tornBuffer (mem : Nat → Byte) :
    ∃ buf, ((new mem).withChunkedRead tornLine).bodyBuffer = some buf ∧ buf.length = bodyBufferSize ∧
      slice 0 15 buf = some tornLine ∧ slice 6 15 buf = some (ascii "1;abcdefg") := by
  obtain ⟨buf, hb, hlen, -, hs⟩ := setBuffer_holds (r := { new mem with readState := .chunked 0 0 0 0 })
    (p := tornLine) fun _ => rfl
  refine ⟨buf, hb, ?_, hs, ?_⟩
  · rw [hlen]
    show max bodyBufferSize tornLine.length = bodyBufferSize
    decide
  · have := slice_slice (y := ascii "1;abcdefg") hs (i := 6) (j := 15) (by decide)
    simpa using this

theorem tornReader_stalled (mem : Nat → Byte) :
    ∃ buf, Stalled (tornReader mem) 1 buf (ascii "1;abcdefg") 6 ∧ buf.length = bodyBufferSize := by
  obtain ⟨buf, hb, hlen, -, hwin⟩ := tornBuffer mem
  exact ⟨buf, ⟨rfl, hb, by decide, by decide, rfl, hwin, by rw [hlen]; decide, by decide⟩, hlen⟩

theorem readChunked_tornLine (hst : r.readState = .chunked 0 0 0 0) (hb : r.bodyBuffer = some buf)
    (hrw : r.rewindBufSize = 15) (hs : slice 0 15 buf = some tornLine) (s : Stream) :
    r.readChunked Chunked.parseSizeLine s =
      (.ok (some ⟨3, 4⟩), { r with readState := .chunked 1 6 15 0, rewindBufSize := 0 }, s) := by
  have hparse : Chunked.parseSizeLine tornLine = .complete 3 1 := by decide
  have hat : chunkAt (.chunked 0 0 15 0) 0 tornLine.length 3 1 = some (.chunked 1 6 15 0, ⟨3, 4⟩) := by decide
  simp only [readChunked, hst, if_true, fillChunked, fill_rewind hb (show _ ≠ 0 by rw [hrw]; decide), hrw,
    ReadState.newBuf]
  rw [takeChunked_line (by decide)]
  simp only [parseChunkedBuf, hb, Option.bind_some, hs, hparse, Nat.one_ne_zero, if_false, hat, give]

theorem readChunked_tornHead (hst : r.readState = .chunked 1 6 15 0) (hb : r.bodyBuffer = some buf)
    (hs : slice 6 15 buf = some (ascii "1;abcdefg")) (s : Stream) :
    r.readChunked Chunked.parseSizeLine s = (.ok (some ⟨0, 0⟩), { r with readState := .chunked 1 0 15 9 }, s) := by
  have hparse : Chunked.parseSizeLine (ascii "1;abcdefg") = .incomplete := by decide
  have hlen : (ascii "1;abcdefg").length = 9 := by decide
  simp only [readChunked, hst]
  rw [if_neg (by decide), takeChunked_line (by decide)]
  simp only [parseChunkedBuf, hb, Option.bind_some, hs, hparse, hst, hlen,
    if_neg (show ¬ partialChunkHeadLimit < 9 by decide)]
  rw [← hb]
  rfl

theorem tornReader_reached (mem : Nat → Byte) : Reached Chunked.parseSizeLine (tornReader mem) := by
  obtain ⟨buf, hb, -, hs, hwin⟩ := tornBuffer mem
  have h1 := readChunked_tornLine rfl hb rfl hs ⟨[], [], []⟩
  have h2 := readChunked_tornHead rfl hb hwin ⟨[], [], []⟩ (r := { (new mem).withChunkedRead tornLine with
    readState := .chunked 1 6 15 0, rewindBufSize := 0 })
  exact .call (.call (.start (idle_new mem) (by decide)) (.none _) h1 rfl) (.none _) h2 rfl

/-- Calls cut off at their read change nothing if the partial size line the reader
    holds, if any, is steady; otherwise one is enough to change what the next call
    shows. -/
theorem interruptions_harmless_iff (hl : Local parseChunkSize) (h : Reached parseChunkSize r) :
    (∀ (j k : Nat) (r1 r2 : BodyReader) (s : Stream), Interrupts parseChunkSize j r r1 →
      Interrupts parseChunkSize k r1 r2 → (r1.readChunked parseChunkSize s).1 ≠ .pending →
      Agree (r2.readChunked parseChunkSize s) (r1.readChunked parseChunkSize s)) ↔ Steady r := by
  obtain ⟨read, buf, d, hbtw, hinc⟩ := h.between hl
  constructor
  · intro hall
    by_contra hns
    by_cases hd : ∃ head, d = .stalled head
    · obtain ⟨head, rfl⟩ := hd
      obtain ⟨p, hs⟩ := hbtw.stalled
      obtain ⟨s, hdone, hno⟩ := hs.harmed hl (hinc head rfl) hns
      exact hno (hall 0 1 _ _ s (.none r) (.one (hs.interrupted parseChunkSize) (.none _)) hdone)
    · exact hns (hbtw.steady fun head e => hd ⟨head, e⟩)
  · intro hst j k r1 r2 s hj hk _
    obtain ⟨_, _, hbtw1⟩ := hbtw.interrupts hj
    obtain ⟨hst1, -⟩ := hst.interrupts hbtw hj
    rw [(hst1.interrupts hbtw1 hk).2 s]
    exact Agree.refl _

theorem interruptions_harmless_tornReader :
    (∀ (j k : Nat) (r1 r2 : BodyReader) (s : Stream), Interrupts Chunked.parseSizeLine j (tornReader fun _ => 0) r1 →
      Interrupts Chunked.parseSizeLine k r1 r2 → (r1.readChunked Chunked.parseSizeLine s).1 ≠ .pending →
      Agree (r2.readChunked Chunked.parseSizeLine s) (r1.readChunked Chunked.parseSizeLine s)) ↔
      Steady (tornReader fun _ => 0) :=
  interruptions_harmless_iff Chunked.parseSizeLine_local (tornReader_reached _)

/-- With the next bytes the reader gives the chunk. Cut off once before they come, it
    finds `efgbcdefg` for a size line and fails. -/
theorem interrupted_call_fails :
    ∃ r, Reached Chunked.parseSizeLine (tornReader fun _ => 0) ∧
      Interrupts Chunked.parseSizeLine 1 (tornReader fun _ => 0) r ∧
      contents ((tornReader fun _ => 0).readChunked Chunked.parseSizeLine ⟨[.data (ascii "\r\nx\r\n")], [], []⟩) =
        .ok (some (ascii "x")) ∧
      (r.readChunked Chunked.parseSizeLine ⟨[.data (ascii "\r\nx\r\n")], [], []⟩).1.isErr := by
  obtain ⟨buf, hs, hlen⟩ := tornReader_stalled fun _ => 0
  obtain ⟨head', hs', hlen', -⟩ := hs.moved
  have hhead' : head' = ascii "efgbcdefg" := by
    have hwin := hs'.window
    rw [hlen', slice_moved hs.window, Option.some.injEq] at hwin
    rw [← hwin]
    decide
  subst hhead'
  have hpull : Chunked.takeLine Chunked.parseSizeLine partialChunkHeadLimit (ascii "1;abcdefg" ++ ascii "\r\nx\r\n") =
      (.slice (ascii "x"), .ready []) := by decide
  have hpull' : Chunked.takeLine Chunked.parseSizeLine partialChunkHeadLimit (ascii "efgbcdefg" ++ ascii "\r\nx\r\n") =
      (.fail, .failed) := by decide
  have hfit : (Decoder.stalled (ascii "1;abcdefg")).Fits Chunked.parseSizeLine (ascii "\r\nx\r\n") := by
    intro i n hp
    rw [show Chunked.parseSizeLine _ = .complete 11 1 from by decide] at hp
    cases hp
    decide
  have hfit' : (Decoder.stalled (ascii "efgbcdefg")).Fits Chunked.parseSizeLine (ascii "\r\nx\r\n") := by
    intro i n hp
    rw [show Chunked.parseSizeLine _ = .invalid from by decide] at hp
    cases hp
  refine ⟨_, tornReader_reached _, .one (hs.interrupted _) (.none _), ?_, ?_⟩
  · obtain ⟨buf1, o, r1, hcall, -, hg⟩ := hs.readChunked_data (by rw [hlen]; decide) hfit
      (fun x d' hx => by rw [hpull] at hx; cases hx; decide) []
    rw [hpull] at hg
    rw [hcall]
    exact (hg.contents_slice _).2
  · obtain ⟨buf1, o, r1, hcall, -, hg⟩ := hs'.readChunked_data
      (by rw [length_overwrite (by rw [hlen]; decide), hlen]; decide) hfit'
      (fun x d' hx => by rw [hpull'] at hx; cases hx) []
    rw [hpull'] at hg
    rw [hcall]
    cases hg with
    | fail => rfl

end BodyReader

end Glaive.Session
