/-
  Glaive.Stream.WriteVec — a buffer of several parts written to a socket
  (`core/src/stream/write_vec.rs`: `AsyncWriteVec::poll_write_vec`, `WriteVecAll::poll`).

  A writer is the script of what its writes will end in: so many bytes taken of what it is
  offered, none of them, an error, or nothing yet. Whatever the script, the polls of one
  `write_vec_all` deliver a prefix of the buffer's bytes, each once and in order, and end
  as the script says (`write_vec_all_exact`). A socket's `write_all`, which the sessions
  are written over, is what that comes to (`poll_as_writeAll`).
-/

import Glaive.Lib.Runs
import Glaive.Session.Writer

namespace Glaive.WriteVec

open Glaive.Lib

/-! ## Buffers of parts -/

/-- A `Buf` chained of contiguous parts: what is left of each. -/
abbrev Buf : Type := List Bytes

namespace Buf

def hasRemaining (buf : Buf) : Bool := buf.any fun part => !part.isEmpty

/-- The first part that has something left. -/
def chunk : Buf → Bytes
  | [] => []
  | part :: parts => if part.isEmpty then chunk parts else part

/-- The first parts that have something left, at most `maxBufs`. -/
def chunksVectored (maxBufs : Nat) (buf : Buf) : List Bytes := (buf.filter fun part => !part.isEmpty).take maxBufs

/-- `none`: it panics, there is not that much left. -/
def advance : Buf → Nat → Option Buf
  | [], n => if n = 0 then some [] else none
  | part :: parts, n =>
    if n ≤ part.length then some (part.drop n :: parts) else (advance parts (n - part.length)).map ([] :: ·)

theorem hasRemaining_iff (buf : Buf) : buf.hasRemaining = true ↔ buf.flatten ≠ [] := by
  unfold hasRemaining
  rw [List.any_eq_true, Ne, List.flatten_eq_nil_iff]
  simp

theorem advance_flatten : ∀ {buf : Buf} {n : Nat}, n ≤ buf.flatten.length →
    ∃ buf', buf.advance n = some buf' ∧ buf'.flatten = buf.flatten.drop n := by
  intro buf
  induction buf with
  | nil =>
    intro n hn
    rw [List.flatten_nil, List.length_nil, Nat.le_zero] at hn
    subst hn
    exact ⟨[], rfl, rfl⟩
  | cons part parts ih =>
    intro n hn
    rw [List.flatten_cons, List.length_append] at hn
    by_cases hle : n ≤ part.length
    · refine ⟨part.drop n :: parts, ?_, ?_⟩
      · unfold advance
        rw [if_pos hle]
      · rw [List.flatten_cons, List.flatten_cons, List.drop_append_of_le_length hle]
    · obtain ⟨buf', hadv, hflat⟩ := ih (n := n - part.length) (by omega)
      refine ⟨[] :: buf', ?_, ?_⟩
      · unfold advance
        rw [if_neg hle, hadv]
        rfl
      · rw [List.flatten_cons, List.nil_append, hflat, List.flatten_cons, List.drop_append,
          List.drop_eq_nil_of_le (Nat.le_of_not_le hle), List.nil_append]

theorem chunk_prefix (buf : Buf) : buf.chunk <+: buf.flatten := by
  induction buf with
  | nil => exact List.prefix_refl _
  | cons part parts ih =>
    unfold chunk
    by_cases hp : part.isEmpty = true
    · rw [if_pos hp, List.flatten_cons, List.isEmpty_iff.mp hp, List.nil_append]
      exact ih
    · rw [if_neg hp]
      exact List.prefix_append ..

theorem chunk_ne_nil {buf : Buf} (h : buf.flatten ≠ []) : buf.chunk ≠ [] := by
  induction buf with
  | nil => exact absurd rfl h
  | cons part parts ih =>
    unfold chunk
    by_cases hp : part.isEmpty = true
    · rw [if_pos hp]
      apply ih
      rwa [List.flatten_cons, List.isEmpty_iff.mp hp, List.nil_append] at h
    · rw [if_neg hp]
      exact fun hnil => hp (List.isEmpty_iff.mpr hnil)

theorem filter_flatten (buf : Buf) : (buf.filter fun part => !part.isEmpty).flatten = buf.flatten := by
  induction buf with
  | nil => rfl
  | cons part parts ih =>
    rw [List.filter_cons]
    cases part with
    | nil => exact ih
    | cons b bs =>
      rw [if_pos (by rfl), List.flatten_cons, List.flatten_cons, ih]

theorem chunksVectored_prefix (maxBufs : Nat) (buf : Buf) : (buf.chunksVectored maxBufs).flatten <+: buf.flatten := by
  unfold chunksVectored
  rw [← filter_flatten buf]
  refine ⟨((buf.filter fun part => !part.isEmpty).drop maxBufs).flatten, ?_⟩
  rw [← List.flatten_append, List.take_append_drop]

theorem chunksVectored_ne_nil {maxBufs : Nat} (hmax : maxBufs ≠ 0) {buf : Buf} (h : buf.flatten ≠ []) :
    (buf.chunksVectored maxBufs).flatten ≠ [] := by
  rw [← filter_flatten buf] at h
  unfold chunksVectored
  obtain ⟨k, rfl⟩ := Nat.exists_eq_succ_of_ne_zero hmax
  cases hl : buf.filter fun part => !part.isEmpty with
  | nil =>
    rw [hl] at h
    exact absurd rfl h
  | cons part parts =>
    have hpart : part ∈ buf.filter fun part => !part.isEmpty := by
      rw [hl]
      exact List.mem_cons_self ..
    have hne := (List.mem_filter.mp hpart).2
    rw [List.take_succ_cons, List.flatten_cons]
    cases part with
    | nil => cases hne
    | cons b bs => simp

end Buf

/-! ## Writers -/

/-- What one write ends in: at most `n` of the bytes offered are taken. -/
inductive WriteEv where
  | pending
  | takes (n : Nat)
  | error (e : IoError)
  deriving DecidableEq, Repr

/-- An `AsyncWrite`; a write past the script waits. -/
structure Writer where
  isWriteVectored : Bool
  script : List WriteEv
  delivered : Bytes
  deriving DecidableEq, Repr

namespace Writer

def pollWrite (w : Writer) (offered : Bytes) : Out Nat × Writer :=
  match w.script with
  | [] => (.pending, w)
  | .pending :: rest => (.pending, { w with script := rest })
  | .error e :: rest => (.err e, { w with script := rest })
  | .takes n :: rest =>
    (.ok (min n offered.length), { w with script := rest, delivered := w.delivered ++ offered.take n })

/-- The slices in order, as if they were one. -/
def pollWriteVectored (w : Writer) (slices : List Bytes) : Out Nat × Writer := w.pollWrite slices.flatten

end Writer

/-! ## The two futures -/

def maxBufs : Nat := 64

def pollWriteVec : Async (Buf × Writer) Nat := fun (buf, w) =>
  if !buf.hasRemaining then (.ok 0, (buf, w))
  else
    match if w.isWriteVectored then w.pollWriteVectored (buf.chunksVectored maxBufs) else w.pollWrite buf.chunk with
    | (.ok n, w) =>
      match buf.advance n with
      | some buf => (.ok n, (buf, w))
      | none => (.panic "cannot advance past `remaining`", (buf, w))
    | (.err e, w) => (.err e, (buf, w))
    | (.pending, w) => (.pending, (buf, w))
    | (.panic t, w) => (.panic t, (buf, w))

/-- `ErrorKind::WriteZero`. -/
def writeZero : IoError := .other "write zero"

def writeLoop : Nat → Async (Buf × Writer) Unit
  | 0 => Async.stop .pending
  | fuel + 1 => do
    let s ← Async.get
    if s.1.hasRemaining then
      let n ← pollWriteVec
      if n = 0 then Async.stop (.err writeZero) else writeLoop fuel
    else return

/-- `WriteVecAll::poll`: each round of the loop is a write of the script. -/
def poll : Async (Buf × Writer) Unit := fun s => writeLoop (s.2.script.length + 1) s

/-! ## One write -/

variable {buf : Buf} {w : Writer}

/-- What one write offers: some of the bytes that are left, from the first on. -/
def Offers (buf : Buf) (offered : Bytes) : Prop := offered ≠ [] ∧ offered <+: buf.flatten

/-- Where a write of `offered` leaves the buffer. -/
theorem pollWrite_advance {offered : Bytes} (ho : offered <+: buf.flatten) (n : Nat) :
    ∃ buf' : Buf, buf.advance (min n offered.length) = some buf' ∧
      offered.take n ++ buf'.flatten = buf.flatten := by
  obtain ⟨rest, hrest⟩ := ho
  have hle : min n offered.length ≤ buf.flatten.length := by
    rw [← hrest, List.length_append]
    omega
  obtain ⟨buf', hadv, hflat⟩ := Buf.advance_flatten hle
  refine ⟨buf', hadv, ?_⟩
  have htake : offered.take n = buf.flatten.take (min n offered.length) := by
    rw [← hrest, List.take_append_of_le_length (Nat.min_le_right ..), ← List.take_take, List.take_length]
  rw [htake, hflat, List.take_append_drop]

theorem pollWriteVec_cases (h : buf.hasRemaining = true) :
    ∃ offered, Offers buf offered ∧
      match w.script with
      | [] => pollWriteVec (buf, w) = (.pending, (buf, w))
      | .pending :: rest => pollWriteVec (buf, w) = (.pending, (buf, { w with script := rest }))
      | .error e :: rest => pollWriteVec (buf, w) = (.err e, (buf, { w with script := rest }))
      | .takes n :: rest => ∃ buf' : Buf, offered.take n ++ buf'.flatten = buf.flatten ∧
          pollWriteVec (buf, w) = (.ok (min n offered.length),
            (buf', { w with script := rest, delivered := w.delivered ++ offered.take n })) := by
  have hleft := (Buf.hasRemaining_iff buf).mp h
  obtain ⟨offered, ho, hpoll⟩ : ∃ offered, Offers buf offered ∧
      (if w.isWriteVectored then w.pollWriteVectored (buf.chunksVectored maxBufs) else w.pollWrite buf.chunk) =
        w.pollWrite offered := by
    cases hv : w.isWriteVectored with
    | true => exact ⟨_, ⟨Buf.chunksVectored_ne_nil (by decide) hleft, Buf.chunksVectored_prefix ..⟩, rfl⟩
    | false => exact ⟨_, ⟨Buf.chunk_ne_nil hleft, Buf.chunk_prefix buf⟩, rfl⟩
  refine ⟨offered, ho, ?_⟩
  unfold pollWriteVec
  simp only [h, Bool.not_true, Bool.false_eq_true, if_false]
  rw [hpoll]
  unfold Writer.pollWrite
  cases hs : w.script with
  | nil => rfl
  | cons ev rest =>
    cases ev with
    | pending => rfl
    | error e => rfl
    | takes n =>
      obtain ⟨buf', hadv, hflat⟩ := pollWrite_advance ho.2 n
      refine ⟨buf', hflat, ?_⟩
      simp only [hadv]

/-! ## One poll -/

/-- How a poll ends, after the writes that took something: with what part of the script,
    and what of it is still to come. -/
inductive Stops : Bool → List WriteEv → List WriteEv → Out Unit → Prop
  | done {rest : List WriteEv} : Stops false [] rest (.ok ())
  | zero {rest : List WriteEv} : Stops true [.takes 0] rest (.err writeZero)
  | error {e : IoError} {rest : List WriteEv} : Stops true [.error e] rest (.err e)
  | pending {rest : List WriteEv} : Stops true [.pending] rest .pending
  | exhausted : Stops true [] [] .pending

theorem Stops.ok_iff {remaining : Bool} {last rest : List WriteEv} {o : Out Unit} (h : Stops remaining last rest o) :
    o = .ok () ↔ remaining = false := by
  cases h <;> simp

/-- What a poll makes of a buffer and a writer. -/
structure Polled (s : Buf × Writer) (o : Out Unit) (t : Buf × Writer) : Prop where
  /-- What is delivered is what is no longer left. -/
  sent : ∃ sent, t.2.delivered = s.2.delivered ++ sent ∧ sent ++ t.1.flatten = s.1.flatten
  script : ∃ taken last, s.2.script = taken ++ last ++ t.2.script ∧ (∀ ev ∈ taken, ∃ n, 0 < n ∧ ev = .takes n) ∧
    Stops t.1.hasRemaining last t.2.script o

theorem Polled.stays {s t : Buf × Writer} {o : Out Unit} {last : List WriteEv} (hbuf : t.1.flatten = s.1.flatten)
    (hdelivered : t.2.delivered = s.2.delivered) (hscript : s.2.script = last ++ t.2.script)
    (hstops : Stops t.1.hasRemaining last t.2.script o) : Polled s o t :=
  ⟨⟨[], by rw [hdelivered, List.append_nil], by rw [hbuf, List.nil_append]⟩,
    ⟨[], last, by rw [hscript, List.nil_append], fun _ h => (List.not_mem_nil h).elim, hstops⟩⟩

/-- A write that takes something, and then a poll. -/
theorem Polled.after {s t : Buf × Writer} {o : Out Unit} {buf' : Buf} {rest : List WriteEv} {x : Bytes} {n : Nat}
    (hn : 0 < n) (hscript : s.2.script = .takes n :: rest) (hflat : x ++ buf'.flatten = s.1.flatten)
    (h : Polled (buf', { s.2 with script := rest, delivered := s.2.delivered ++ x }) o t) : Polled s o t := by
  obtain ⟨⟨sent, hdelivered, hsent⟩, taken, last, hrest, htaken, hstops⟩ := h
  refine ⟨⟨x ++ sent, ?_, ?_⟩, .takes n :: taken, last, ?_, ?_, hstops⟩
  · rw [hdelivered, List.append_assoc]
  · rw [List.append_assoc, hsent, hflat]
  · rw [hscript, List.cons_append, List.cons_append]
    exact congrArg _ hrest
  · intro ev hev
    rcases List.mem_cons.mp hev with rfl | hev
    · exact ⟨n, hn, rfl⟩
    · exact htaken ev hev

theorem writeLoop_polled : ∀ (fuel : Nat) (s : Buf × Writer), s.2.script.length < fuel →
    Polled s (writeLoop fuel s).1 (writeLoop fuel s).2 := by
  intro fuel
  induction fuel with
  | zero => exact fun s h => absurd h (Nat.not_lt_zero _)
  | succ fuel ih =>
    intro s hfuel
    obtain ⟨buf, w⟩ := s
    unfold writeLoop
    rw [Async.get_bind_apply]
    cases hleft : buf.hasRemaining with
    | false =>
      simp only [Bool.false_eq_true, if_false]
      exact .stays (t := (buf, w)) rfl rfl rfl (by rw [hleft]; exact .done)
    | true =>
      obtain ⟨offered, ho, hcases⟩ := pollWriteVec_cases (w := w) hleft
      simp only [if_true]
      rw [Async.bind_apply]
      cases hs : w.script with
      | nil =>
        rw [hs] at hcases
        rw [hcases]
        exact .stays rfl rfl rfl (by rw [hleft, hs]; exact .exhausted)
      | cons ev rest =>
        rw [hs] at hcases
        cases ev with
        | pending =>
          rw [hcases]
          exact .stays rfl rfl hs (by rw [hleft]; exact .pending)
        | error e =>
          rw [hcases]
          exact .stays rfl rfl hs (by rw [hleft]; exact .error)
        | takes n =>
          obtain ⟨buf', hflat, hpoll⟩ := hcases
          rw [hpoll]
          have hpos : 0 < offered.length := List.length_pos_iff.mpr ho.1
          by_cases hn : n = 0
          · -- nothing was taken, and the buffer is as it was
            subst hn
            have hsame : buf'.flatten = buf.flatten := hflat
            have hleft' : buf'.hasRemaining = true := by
              rw [Buf.hasRemaining_iff, hsame]
              exact (Buf.hasRemaining_iff buf).mp hleft
            simp only [Nat.zero_min, if_true, Async.stop_apply]
            exact .stays hsame (List.append_nil _) hs (by rw [hleft']; exact .zero)
          · simp only
            rw [if_neg (by omega)]
            apply Polled.after (Nat.pos_of_ne_zero hn) hs hflat
            apply ih
            rw [hs, List.length_cons] at hfuel
            exact Nat.lt_of_succ_lt_succ hfuel

theorem poll_polled (s : Buf × Writer) : Polled s (poll s).1 (poll s).2 :=
  writeLoop_polled _ s (Nat.lt_succ_self _)

/-- A write that takes some bytes is one of the script. -/
theorem pollWriteVec_script {s t : Buf × Writer} {n : Nat} (hleft : s.1.hasRemaining = true)
    (h : pollWriteVec s = (.ok n, t)) : t.2.script.length < s.2.script.length := by
  obtain ⟨buf, w⟩ := s
  obtain ⟨offered, -, hcases⟩ := pollWriteVec_cases (w := w) hleft
  cases hs : w.script with
  | nil =>
    rw [hs] at hcases
    cases h.symm.trans hcases
  | cons ev rest =>
    rw [hs] at hcases
    cases ev with
    | pending => cases h.symm.trans hcases
    | error e => cases h.symm.trans hcases
    | takes k =>
      obtain ⟨buf', -, hpoll⟩ := hcases
      cases h.symm.trans hpoll
      exact Nat.lt_succ_self rest.length

/-- More rounds than writes of the script are as good as any. -/
theorem writeLoop_enough : ∀ (fuel fuel' : Nat) (s : Buf × Writer), s.2.script.length < fuel →
    s.2.script.length < fuel' → writeLoop fuel s = writeLoop fuel' s := by
  intro fuel
  induction fuel with
  | zero => exact fun _ s h => absurd h (Nat.not_lt_zero _)
  | succ fuel ih =>
    intro fuel' s h h'
    obtain ⟨fuel', rfl⟩ := Nat.exists_eq_succ_of_ne_zero (Nat.ne_of_gt (Nat.zero_lt_of_lt h'))
    unfold writeLoop
    rw [Async.get_bind_apply, Async.get_bind_apply]
    cases hleft : s.1.hasRemaining with
    | false => rfl
    | true =>
      simp only [if_true]
      rw [Async.bind_apply, Async.bind_apply]
      cases hpoll : pollWriteVec s with
      | mk o t =>
        cases o with
        | ok n =>
          have hless := pollWriteVec_script hleft hpoll
          by_cases hn : n = 0
          · simp only [if_pos hn]
          · simp only [if_neg hn]
            exact ih fuel' t (by omega) (by omega)
        | err e => rfl
        | pending => rfl
        | panic text => rfl

/-- The loop as the source has it, without a count of its rounds. -/
theorem poll_eq (s : Buf × Writer) : poll s =
    if s.1.hasRemaining then
      (do
        let n ← pollWriteVec
        if n = 0 then Async.stop (.err writeZero) else poll : Async (Buf × Writer) Unit) s
    else (.ok (), s) := by
  unfold poll
  rw [writeLoop, Async.get_bind_apply]
  cases hleft : s.1.hasRemaining with
  | false => rfl
  | true =>
    simp only [if_true]
    rw [Async.bind_apply, Async.bind_apply]
    cases hpoll : pollWriteVec s with
    | mk o t =>
      cases o with
      | ok n =>
        by_cases hn : n = 0
        · simp only [if_pos hn]
        · simp only [if_neg hn]
          exact writeLoop_enough _ _ t (pollWriteVec_script hleft hpoll) (Nat.lt_succ_self _)
      | err e => rfl
      | pending => rfl
      | panic text => rfl

/-! ## Polled again -/

/-- A poll that waits; the future is polled again. -/
def repoll (_ : Unit) (s : Buf × Writer) : Option (Buf × Writer) :=
  match poll s with
  | (.pending, t) => some t
  | _ => none

theorem repoll_eq {s t : Buf × Writer} (h : repoll () s = some t) : poll s = (.pending, t) := by
  unfold repoll at h
  split at h
  · rename_i heq
    cases h
    exact heq
  · cases h

/-- Some of the bytes of a buffer are delivered, and the others are left. -/
def Delivers (buf : Buf) (before : Bytes) (t : Buf × Writer) (sent : Bytes) : Prop :=
  t.2.delivered = before ++ sent ∧ sent ++ t.1.flatten = buf.flatten

theorem run_delivers {s t : Buf × Writer} {polls : List Unit} (h : Run repoll (fun _ _ => True) s polls t) :
    ∃ sent, Delivers s.1 s.2.delivered t sent := by
  induction h with
  | nil s => exact ⟨[], (List.append_nil _).symm, rfl⟩
  | @cons s t u e _ _ hs _ ih =>
    have hpoll := poll_polled s
    rw [repoll_eq hs] at hpoll
    obtain ⟨sent1, hd1, hs1⟩ := hpoll.sent
    obtain ⟨sent2, hd2, hs2⟩ := ih
    refine ⟨sent1 ++ sent2, ?_, ?_⟩
    · rw [hd2, hd1, List.append_assoc]
    · rw [List.append_assoc, hs2, hs1]

theorem run_poll {buf : Buf} {w : Writer} {polls : List Unit} {s : Buf × Writer}
    (h : Run repoll (fun _ _ => True) (buf, w) polls s) :
    ∃ sent, Delivers buf w.delivered (poll s).2 sent ∧ ((poll s).1 = .ok () ↔ sent = buf.flatten) := by
  obtain ⟨sent1, hd1, hs1⟩ := run_delivers h
  obtain ⟨⟨sent2, hd2, hs2⟩, _, _, -, -, hstops⟩ := poll_polled s
  have hflat : (sent1 ++ sent2) ++ (poll s).2.1.flatten = buf.flatten := by
    rw [List.append_assoc, hs2, hs1]
  refine ⟨sent1 ++ sent2, ⟨?_, hflat⟩, ?_⟩
  · rw [hd2, hd1, List.append_assoc]
  · have hleft : sent1 ++ sent2 = buf.flatten ↔ (poll s).2.1.hasRemaining = false := by
      rw [← Bool.not_eq_true, Buf.hasRemaining_iff, not_not, ← hflat]
      simp
    rw [hleft]
    exact hstops.ok_iff

/-- Of any buffer, to any writer, after any number of polls that waited: what a poll and
    those before it have delivered is a prefix of the buffer, of which the rest is left.
    The poll ends with `Ok` just if that is all of it, with `WriteZero` where a write takes
    nothing, and else as the write does that ends it. -/
theorem write_vec_all_exact (buf : Buf) (w : Writer) (polls : List Unit) (s : Buf × Writer)
    (h : Run repoll (fun _ _ => True) (buf, w) polls s) :
    ∃ sent, Delivers buf w.delivered (poll s).2 sent ∧ ((poll s).1 = .ok () ↔ sent = buf.flatten) ∧
      ∃ taken last, s.2.script = taken ++ last ++ (poll s).2.2.script ∧
        (∀ ev ∈ taken, ∃ n, 0 < n ∧ ev = .takes n) ∧
        Stops (poll s).2.1.hasRemaining last (poll s).2.2.script (poll s).1 := by
  obtain ⟨sent, hdelivers, hok⟩ := run_poll h
  exact ⟨sent, hdelivers, hok, (poll_polled s).script⟩

/-- Three bytes in two parts, to a writer that takes one, waits and takes the others. -/
def twoParts : Buf × Writer := ([[1, 2], [3]], ⟨true, [.takes 1, .pending, .takes 9], []⟩)

theorem write_vec_all_exact_twoParts :
    ∃ s, Run repoll (fun _ _ => True) twoParts [()] s ∧ ∃ sent, Delivers twoParts.1 [] (poll s).2 sent ∧
      ((poll s).1 = .ok () ↔ sent = twoParts.1.flatten) ∧
      ∃ taken last, s.2.script = taken ++ last ++ (poll s).2.2.script ∧
        (∀ ev ∈ taken, ∃ n, 0 < n ∧ ev = .takes n) ∧
        Stops (poll s).2.1.hasRemaining last (poll s).2.2.script (poll s).1 := by
  have hrun := run_get repoll (fun _ _ => True) [()] twoParts (by rfl)
  exact ⟨_, hrun, write_vec_all_exact _ _ [()] _ hrun⟩

/-! ## What the sessions rely on -/

/-- The buffer of a chunk: its size line, the body and what ends it. -/
def chunkBuf (x : Bytes) : Buf := [toHex x.length ++ crlf, x, crlf]

theorem chunkBuf_flatten (x : Bytes) : (chunkBuf x).flatten = Session.BodyWriter.chunkOf x := by
  unfold chunkBuf Session.BodyWriter.chunkOf
  simp

/-- What a poll leaves delivered is what `write_all` on a socket leaves under some fault:
    all the bytes with `Ok`, and else the first of them. -/
theorem poll_as_writeAll (buf : Buf) (w : Writer) (polls : List Unit) (s : Buf × Writer)
    (h : Run repoll (fun _ _ => True) (buf, w) polls s) :
    ∃ fault, ((⟨[], w.delivered, [fault]⟩ : Stream).writeAll buf.flatten).2.output = (poll s).2.2.delivered ∧
      (((⟨[], w.delivered, [fault]⟩ : Stream).writeAll buf.flatten).1 = .ok () ↔ (poll s).1 = .ok ()) := by
  obtain ⟨sent, ⟨hdelivered, hleft⟩, hok⟩ := run_poll h
  by_cases hall : sent = buf.flatten
  · refine ⟨none, ?_, ?_⟩
    · rw [hdelivered, hall]
      rfl
    · rw [hok]
      exact ⟨fun _ => hall, fun _ => rfl⟩
  · refine ⟨some sent.length, ?_, ?_⟩
    · rw [hdelivered, ← hleft]
      show w.delivered ++ (sent ++ _).take sent.length = _
      rw [List.take_left]
    · rw [hok]
      constructor
      · intro h
        cases h
      · intro h
        exact absurd h hall

end Glaive.WriteVec
