/-
  Glaive.Session.RequestMode — which mode the client's body reader is in, over any use of
  the session (`core/src/session/downstream.rs`: `read_downstream_request`,
  `write_downstream_response`).

  A read moves a reader within its mode or ends it (`readBody_goes`), and a session only
  sets the mode its request has (`Moded`). So `Task::Done`, which a read gives when an
  upgrade's reader has no more, is the end of a chunked body (`readDownstreamRequest_done_iff`).
-/

import Glaive.Session.DownstreamProofs
import Glaive.Session.ReaderSoundness

namespace Glaive.Session

open Glaive.Lib
open Glaive.Lib.Async
open Glaive.Lib.Chunked (ChunkStatus)

/-! ## Reads and modes -/

/-- The states a reader may be in after some reads from a state. -/
inductive ReadState.Goes : ReadState → ReadState → Prop
  | same (st : ReadState) : Goes st st
  | chunked {read start stop n read' start' stop' n' : Nat} :
      Goes (.chunked read start stop n) (.chunked read' start' stop' n')
  | partially {read n read' n' : Nat} : Goes (.partially read n) (.partially read' n')
  | http10 {read read' : Nat} : Goes (.http10 read) (.http10 read')
  | completed {st : ReadState} {total : Nat} : Goes st (.completed total)
  | done {st : ReadState} {read : Nat} : Goes st (.done read)

namespace ReadState

variable {st st' st'' : ReadState} {n m : Nat}

theorem Goes.trans (h : st.Goes st') (h' : st'.Goes st'') : st.Goes st'' := by
  cases h' with
  | same => exact h
  | completed => exact .completed
  | done => exact .done
  | chunked =>
    cases h with
    | same => exact .chunked
    | chunked => exact .chunked
  | partially =>
    cases h with
    | same => exact .partially
    | partially => exact .partially
  | http10 =>
    cases h with
    | same => exact .http10
    | http10 => exact .http10

theorem Goes.ne_start (h : st.Goes st') (hst : st ≠ .start) : st' ≠ .start := by
  cases h with
  | same => exact hst
  | _ => nofun

theorem finish_goes (h : st.finish n = some st') : st.Goes st' := by
  cases st with
  | partially read toRead =>
    obtain ⟨_, -, rfl⟩ := Option.map_eq_some_iff.mp h
    exact .completed
  | chunked read start stop m =>
    obtain ⟨_, -, rfl⟩ := Option.map_eq_some_iff.mp h
    exact .completed
  | http10 read =>
    obtain ⟨_, -, rfl⟩ := Option.map_eq_some_iff.mp h
    exact .completed
  | _ => cases h; exact .same _

theorem finishDone_goes (h : st.finishDone n = some st') : st.Goes st' := by
  cases st with
  | partially read toRead =>
    obtain ⟨_, -, rfl⟩ := Option.map_eq_some_iff.mp h
    exact .done
  | chunked read start stop m =>
    obtain ⟨_, -, rfl⟩ := Option.map_eq_some_iff.mp h
    exact .done
  | http10 read =>
    obtain ⟨_, -, rfl⟩ := Option.map_eq_some_iff.mp h
    exact .done
  | _ => cases h; exact .same _

theorem partialChunk_goes (h : st.partialChunk n m = some st') : st.Goes st' := by
  cases st with
  | chunked read start stop k =>
    obtain ⟨_, -, rfl⟩ := Option.map_eq_some_iff.mp h
    exact .chunked
  | _ => cases h; exact .same _

theorem multiChunk_goes (h : st.multiChunk n m = some st') : st.Goes st' := by
  cases st with
  | chunked read start stop k =>
    obtain ⟨_, -, rfl⟩ := Option.map_eq_some_iff.mp h
    exact .chunked
  | _ => cases h; exact .same _

theorem partialChunkHead_goes (st : ReadState) (n m : Nat) : st.Goes (st.partialChunkHead n m) := by
  cases st with
  | chunked read start stop k => exact .chunked
  | _ => exact .same _

theorem newBuf_goes (st : ReadState) (n : Nat) : st.Goes (st.newBuf n) := by
  cases st with
  | chunked read start stop k => exact .chunked
  | _ => exact .same _

end ReadState

namespace BodyReader

variable {r : BodyReader} {s : Stream} {parseChunkSize : Bytes → ChunkStatus}

theorem enter_goes {α : Type} {st : Option ReadState} {o : Out α} (h : ∀ st', st = some st' → r.readState.Goes st') :
    r.readState.Goes (r.enter st o).2.readState := by
  cases st with
  | none => exact .same _
  | some st => exact h st rfl

theorem give_goes {x : Option (ReadState × Offset)} (h : ∀ st o, x = some (st, o) → r.readState.Goes st) :
    r.readState.Goes (r.give x).2.readState := by
  cases x with
  | none => exact .same _
  | some p => exact h p.1 p.2 rfl

theorem fill_readState (r : BodyReader) (s : Stream) : (r.fill s).2.1.readState = r.readState := by
  unfold fill
  split
  · rfl
  · simp only
    split
    · split <;> rfl
    · rfl

theorem takePartially_goes (r : BodyReader) (n : Nat) : r.readState.Goes (r.takePartially n).2.readState := by
  unfold takePartially
  split
  · rename_i read toRead hst
    split
    · exact .done
    · split
      · apply give_goes
        intro st o h
        obtain ⟨total, -, h⟩ := Option.bind_eq_some_iff.mp h
        obtain ⟨_, -, h⟩ := Option.bind_eq_some_iff.mp h
        cases h
        exact .completed
      · apply give_goes
        intro st o h
        obtain ⟨total, -, h⟩ := Option.bind_eq_some_iff.mp h
        obtain ⟨_, -, h⟩ := Option.bind_eq_some_iff.mp h
        cases h
        rw [hst]
        exact .partially
  · exact .same _

theorem takeUntilClosed_goes (r : BodyReader) (n : Nat) : r.readState.Goes (r.takeUntilClosed n).2.readState := by
  unfold takeUntilClosed
  split
  · rename_i read hst
    split
    · exact .completed
    · apply give_goes
      intro st o h
      obtain ⟨total, -, h⟩ := Option.bind_eq_some_iff.mp h
      obtain ⟨_, -, h⟩ := Option.bind_eq_some_iff.mp h
      cases h
      rw [hst]
      exact .http10
  · exact .same _

theorem chunkAt_goes {st st' : ReadState} {start len i n : Nat} {o : Offset}
    (h : chunkAt st start len i n = some (st', o)) : st.Goes st' := by
  unfold chunkAt at h
  obtain ⟨_, -, h⟩ := Option.bind_eq_some_iff.mp h
  obtain ⟨_, -, h⟩ := Option.bind_eq_some_iff.mp h
  -- in one buffer or not, the chunk's end is one of the two transitions
  have last : ∀ {x : Option ReadState} {a k : Nat}, (∀ st1, x = some st1 → st.Goes st1) →
      (x.bind fun st1 => (uadd start a).bind fun b => (Offset.new b k).bind fun o => some (st1, o)) = some (st', o) →
      st.Goes st' := by
    intro x a k hx h
    obtain ⟨st1, hst, h⟩ := Option.bind_eq_some_iff.mp h
    obtain ⟨_, -, h⟩ := Option.bind_eq_some_iff.mp h
    obtain ⟨_, -, h⟩ := Option.bind_eq_some_iff.mp h
    cases h
    exact hx _ hst
  split at h
  · simp only at h
    split at h
    · obtain ⟨_, -, h⟩ := Option.bind_eq_some_iff.mp h
      exact last (fun _ => ReadState.partialChunk_goes) h
    · exact last (fun _ => ReadState.partialChunk_goes) h
  · obtain ⟨_, -, h⟩ := Option.bind_eq_some_iff.mp h
    exact last (fun _ => ReadState.multiChunk_goes) h

theorem parseChunkedBuf_goes (r : BodyReader) (start stop : Nat) :
    r.readState.Goes (r.parseChunkedBuf parseChunkSize start stop).2.readState := by
  unfold parseChunkedBuf
  split
  · exact .same _
  · split
    · split
      · exact enter_goes fun _ => ReadState.finish_goes
      · exact give_goes fun _ _ => chunkAt_goes
    · split
      · exact enter_goes fun _ => ReadState.finishDone_goes
      · apply give_goes
        intro st o h
        obtain ⟨_, -, h⟩ := Option.bind_eq_some_iff.mp h
        cases h
        exact ReadState.partialChunkHead_goes ..
    · exact enter_goes fun _ => ReadState.finishDone_goes

theorem takeChunked_goes (r : BodyReader) (start stop n : Nat) :
    r.readState.Goes (r.takeChunked parseChunkSize start stop n).2.readState := by
  unfold takeChunked
  split
  · exact enter_goes fun _ => ReadState.finishDone_goes
  · split
    · split
      · exact .same _
      · split
        · apply give_goes
          intro st o h
          obtain ⟨st1, hst, h⟩ := Option.bind_eq_some_iff.mp h
          obtain ⟨_, -, h⟩ := Option.bind_eq_some_iff.mp h
          cases h
          exact ReadState.partialChunk_goes hst
        · simp only
          split
          · apply give_goes
            intro st o h
            obtain ⟨st1, hst, h⟩ := Option.bind_eq_some_iff.mp h
            obtain ⟨_, -, h⟩ := Option.bind_eq_some_iff.mp h
            cases h
            exact ReadState.partialChunk_goes hst
          · apply give_goes
            intro st o h
            obtain ⟨st1, hst, h⟩ := Option.bind_eq_some_iff.mp h
            obtain ⟨_, -, h⟩ := Option.bind_eq_some_iff.mp h
            cases h
            exact ReadState.multiChunk_goes hst
    · exact parseChunkedBuf_goes ..

theorem fillChunked_goes (r : BodyReader) (stop n : Nat) (s : Stream) :
    r.readState.Goes (r.fillChunked stop n s).2.1.readState := by
  unfold fillChunked
  split
  · have h := fill_readState r s
    split <;> rename_i heq <;> rw [heq] at h
    · rw [← h]
      exact ReadState.newBuf_goes ..
    all_goals rw [← h]; exact .same _
  · split
    · exact .same _
    · split
      · exact .same _
      · simp only
        split
        · split
          · exact .same _
          · exact ReadState.newBuf_goes ..
        all_goals exact .same _

/-- A read keeps the reader in its mode, or ends it. -/
theorem readBody_goes (parseChunkSize : Bytes → ChunkStatus) (r : BodyReader) (s : Stream) :
    r.readState.Goes (readBody parseChunkSize (r, s)).2.1.readState := by
  cases hst : r.readState with
  | start =>
    simp only [readBody, hst]
    exact .same _
  | completed total =>
    simp only [readBody, hst]
    exact .same _
  | done read =>
    simp only [readBody, hst]
    exact .same _
  | partially read toRead =>
    simp only [readBody, hst, readPartially]
    have h := fill_readState r s
    split <;> rename_i heq <;> rw [heq] at h
    · rw [← hst, ← h]
      exact takePartially_goes ..
    all_goals rw [← hst, ← h]; exact .same _
  | chunked read start stop n =>
    simp only [readBody, hst, readChunked]
    split
    · have h := fillChunked_goes r stop n s
      split <;> rename_i heq <;> rw [heq, hst] at h
      · exact h.trans (takeChunked_goes ..)
      all_goals exact h
    · rw [← hst]
      exact takeChunked_goes ..
  | http10 read =>
    simp only [readBody, hst, readUntilClosed]
    have h := fill_readState r s
    split <;> rename_i heq <;> rw [heq] at h
    · rw [← hst, ← h]
      exact takeUntilClosed_goes ..
    all_goals rw [← hst, ← h]; exact .same _

theorem give_some (r : BodyReader) (x : Option (ReadState × Offset)) : (r.give x).1 ≠ .ok none := by
  cases x <;> nofun

/-- A body of known length comes to no end but with its last bytes. -/
theorem readPartially_some (r : BodyReader) (s : Stream) : (r.readPartially s).1 ≠ .ok none := by
  unfold readPartially takePartially
  split
  · simp only
    split
    · split
      · nofun
      · split <;> exact give_some _ _
    · nofun
  all_goals nofun

end BodyReader

/-! ## The mode of a request -/

/-- A mode that a request with head `h` can put its reader in, or its end. -/
def ModeFits (h : RequestHeader) : ReadState → Prop
  | .chunked _ _ _ _ => Utils.isHeaderValueChunkEncoding (h.getHeader transferEncoding) = true
  | .http10 _ => Utils.isRequestUpgrade h = false
  | _ => True

theorem ModeFits.goes {h : RequestHeader} {st st' : ReadState} (hm : ModeFits h st) (hg : st.Goes st') :
    ModeFits h st' := by
  cases hg with
  | same => exact hm
  | chunked => exact hm
  | http10 => exact hm
  | partially => trivial
  | completed => trivial
  | done => trivial

namespace Downstream

/-- The session of a request with head `h`. -/
structure Moded (h : RequestHeader) (d : Downstream) : Prop where
  head : d.requestHeader = some h
  mode : ModeFits h d.bodyReader.readState

variable {crates : Crates} {d d' : Downstream} {h : RequestHeader}

theorem selectReader_fits (h : RequestHeader) (preread : Bytes) (r : BodyReader) :
    ModeFits h (selectReader h preread r).readState := by
  unfold selectReader
  by_cases hte : Utils.isHeaderValueChunkEncoding (h.getHeader transferEncoding) = true
  · rw [if_pos hte]
    exact hte
  · rw [if_neg hte]
    split
    · rename_i n _
      cases n <;> trivial
    · split
      · trivial
      · rename_i hv
        show Utils.isRequestUpgrade h = false
        unfold Utils.isRequestUpgrade
        rw [Bool.and_eq_false_iff, beq_eq_false_iff_ne]
        exact .inl hv

/-! ## Reading -/

/-- The reader is set by the request's head, or the session is as it was. -/
theorem setRequestBodyReader_cases (hh : d.requestHeader = some h) :
    (∃ preread, d.Ready h preread ∧ setRequestBodyReader d = (.ok (), d.selected h preread)) ∨
    d.bodyReader.isStart = false ∧ setRequestBodyReader d = (.ok (), d) ∨
    d.bodyReader.isStart = true ∧ (setRequestBodyReader d).2.bodyReader = d.bodyReader ∧
      (setRequestBodyReader d).2.requestHeader = some h ∧ (setRequestBodyReader d).1 ≠ .ok () := by
  cases hs : d.bodyReader.isStart with
  | false => exact .inr (.inl ⟨rfl, setRequestBodyReader_of_not_start hs⟩)
  | true =>
    have bad : ∀ {o : Out Bytes}, (∀ bs, o ≠ .ok bs) →
        bodyBytes { d with retryBuffer := d.retryBuffer.map .clearBuffer } =
          (o, { d with retryBuffer := d.retryBuffer.map .clearBuffer }) →
        (setRequestBodyReader d).2.bodyReader = d.bodyReader ∧ (setRequestBodyReader d).2.requestHeader = some h ∧
          (setRequestBodyReader d).1 ≠ .ok () := by
      intro o ho hb
      unfold setRequestBodyReader
      simp only [get_bind_apply, hs, if_true, modify_bind_apply]
      rw [bind_apply, hb]
      cases o with
      | ok bs => exact absurd rfl (ho bs)
      | err e => exact ⟨rfl, hh, nofun⟩
      | pending => exact ⟨rfl, hh, nofun⟩
      | panic t => exact ⟨rfl, hh, nofun⟩
    cases ho : d.bufBodyOffset with
    | none => exact .inr (.inr ⟨rfl, bad (o := unwrapNone) nofun (by simp only [bodyBytes, ho])⟩)
    | some o =>
      cases hg : o.get d.buffer with
      | none => exact .inr (.inr ⟨rfl, bad (o := outOfRange) nofun (by simp only [bodyBytes, ho, hg])⟩)
      | some preread =>
        have hd : d.Ready h preread := ⟨hh, ⟨o, ho, hg⟩, hs⟩
        exact .inl ⟨preread, hd, setRequestBodyReader_ready hd⟩

theorem setRequestBodyReader_stays : Stays (Moded h) setRequestBodyReader := by
  intro d hd
  rcases setRequestBodyReader_cases hd.head with ⟨preread, -, hset⟩ | ⟨-, hset⟩ | ⟨-, hr, hh, -⟩
  · rw [hset]
    exact ⟨hd.head, selectReader_fits ..⟩
  · rw [hset]
    exact hd
  · exact ⟨hh, hr ▸ hd.mode⟩

theorem onReader_stays : Stays (Moded h) (onReader (BodyReader.readBody crates.parseChunkSize)) :=
  fun d hd => ⟨hd.head, hd.mode.goes (BodyReader.readBody_goes _ d.bodyReader d.stream)⟩

theorem onStream_stays {α : Type} (x : Async Stream α) : Stays (Moded h) (onStream x) :=
  fun _ hd => ⟨hd.head, hd.mode⟩

theorem getRequestHeaders_stays : Stays (Moded h) getRequestHeaders := by
  intro d hd
  rw [getRequestHeaders_eq hd.head]
  exact hd

theorem isRequestUpgrade_stays : Stays (Moded h) isRequestUpgrade := .bind getRequestHeaders_stays fun _ => .pure _

theorem isReadingRequestBodyFinished_stays : Stays (Moded h) isReadingRequestBodyFinished :=
  .bind setRequestBodyReader_stays fun _ => .bind .get fun _ => .pure _

theorem modify_stays {f : Downstream → Downstream} (hhead : ∀ d, (f d).requestHeader = d.requestHeader)
    (hreader : ∀ d, (f d).bodyReader = d.bodyReader) : Stays (Moded h) (modify f) :=
  .modify fun d hd => ⟨(hhead d).trans hd.head, hreader d ▸ hd.mode⟩

theorem readRequestBodyBytes_stays : Stays (Moded h) (readRequestBodyBytes crates) := by
  refine .bind (.bind setRequestBodyReader_stays fun _ => onReader_stays) fun o => ?_
  cases o with
  | none => exact .pure _
  | some o =>
    have hslice : Stays (Moded h) (readSlicedRequestBody o) := fun _ => id
    exact .bind hslice fun _ => .bind (modify_stays (fun _ => rfl) fun _ => rfl) fun _ => .pure _

theorem readRequestBodyOrIdle_stays : Stays (Moded h) (readRequestBodyOrIdle crates) :=
  .bind isReadingRequestBodyFinished_stays fun _ =>
    .ite (.bind (onStream_stays _) fun _ => .ite (.stop _) (.stop _)) readRequestBodyBytes_stays

theorem readDownstreamRequest_stays (crates : Crates) : Stays (Moded h) (readDownstreamRequest crates) :=
  .bind readRequestBodyOrIdle_stays fun _ => .bind (.andAlso _ isRequestUpgrade_stays) fun _ =>
    .ite (.pure _) (.bind isReadingRequestBodyFinished_stays fun _ => .pure _)

/-! ## Writing -/

theorem setReader_zero_stays (preread : Bytes) : Stays (Moded h) (setReader (·.withContentLengthRead 0 preread)) :=
  fun _ hd => ⟨hd.head, trivial⟩

theorem onWriter_stays {α : Type} (x : Async (BodyWriter × Stream) α) : Stays (Moded h) (onWriter x) :=
  fun _ hd => ⟨hd.head, hd.mode⟩

theorem setWriter_stays (f : BodyWriter → BodyWriter) : Stays (Moded h) (setWriter f) :=
  modify_stays (fun _ => rfl) fun _ => rfl

theorem isSessionUpgrade_stays (resp : ResponseHeader) : Stays (Moded h) (isSessionUpgrade resp) :=
  .bind isRequestUpgrade_stays fun _ => .ite (.pure _) (.pure _)

theorem setResponseBodyWriter_stays (resp : ResponseHeader) : Stays (Moded h) (setResponseBodyWriter resp) := by
  unfold setResponseBodyWriter orElse
  refine .bind (.ite (.pure _) (.bind getRequestHeaders_stays fun _ => .pure _)) fun _ =>
    .ite (setWriter_stays _) (.ite (.pure _) (.bind (isSessionUpgrade_stays resp) fun _ =>
      .ite (setWriter_stays _) (.ite (setWriter_stays _) ?_)))
  split <;> exact setWriter_stays _

theorem sendHeaders_stays (resp : ResponseHeader) : Stays (Moded h) (sendHeaders crates resp) := by
  unfold sendHeaders
  split
  · exact .stop _
  · intro d hd
    simp only
    split <;> exact ⟨hd.head, hd.mode⟩

theorem updateHeaders_stays (resp : ResponseHeader) : Stays (Moded h) (updateHeaders crates resp) :=
  .bind .get fun _ => .ite (.pure _) (.pure _)

theorem isIgnoringResponseHeaders_stays (code : Nat) : Stays (Moded h) (isIgnoringResponseHeaders code) := by
  have hexpect : Stays (Moded h) isRequestExpectContinue := .bind getRequestHeaders_stays fun _ => .pure _
  exact .bind .get fun _ => .andAlso _ (.bind (.andAlso _ hexpect) fun _ => .pure _)

theorem writeResponseHeaders_stays (resp : ResponseHeader) : Stays (Moded h) (writeResponseHeaders crates resp) := by
  have htimeout : Stays (Moded h) (modify fun d => { d with keepaliveTimeout := .set none }) :=
    modify_stays (fun _ => rfl) fun _ => rfl
  have hupgrade : Stays (Moded h) (modify fun d => { d with upgrade := true }) :=
    modify_stays (fun _ => rfl) fun _ => rfl
  exact .bind (.andAlso _ (isIgnoringResponseHeaders_stays _)) fun _ => .ite (.pure _) (.bind .get fun _ =>
    .ite (.pure _) (.bind (updateHeaders_stays resp) fun resp => .bind (.ite htimeout (.pure _)) fun _ =>
      .bind (.ite (.bind (isSessionUpgrade_stays resp) fun _ => .bind (.ite hupgrade (setReader_zero_stays [])) fun _ =>
        setResponseBodyWriter_stays resp) (.pure _)) fun _ => sendHeaders_stays resp))

theorem vectoredWriteResponseBody_stays : Stays (Moded h) vectoredWriteResponseBody :=
  .bind .get fun _ => .ite (.pure _) fun _ hd => ⟨hd.head, hd.mode⟩

theorem finishWritingResponseBody_stays : Stays (Moded h) finishWritingResponseBody :=
  .bind (onWriter_stays _) fun _ => .bind (.bind .get fun _ => .ite (setReader_zero_stays []) (.pure _)) fun _ =>
    .pure _

theorem writeResponseTask_stays (t : Task) : Stays (Moded h) (writeResponseTask crates t) := by
  cases t with
  | header resp e => exact .bind (writeResponseHeaders_stays resp) fun _ => .pure _
  | body b e =>
    cases b with
    | none => exact .pure _
    | some b => exact .bind (.ite (.pure _) (.ignore (onWriter_stays _))) fun _ => .pure _
  | trailer => exact .pure _
  | done => exact .pure _
  | failed e => exact .stop _

theorem vectoredResponseTask_stays (t : Task) : Stays (Moded h) (vectoredResponseTask crates t) := by
  cases t with
  | header resp e => exact .bind (writeResponseHeaders_stays resp) fun _ => .pure _
  | body b e =>
    cases b with
    | none => exact .pure _
    | some b => exact .bind (modify_stays (fun _ => rfl) fun _ => rfl) fun _ => .pure _
  | trailer => exact .pure _
  | done => exact .pure _
  | failed e => exact .bind (.ignore vectoredWriteResponseBody_stays) fun _ => .stop _

theorem vectoredTasks_stays : ∀ (ts : List Task) (e : Bool), Stays (Moded h) (vectoredTasks crates e ts) := by
  intro ts
  induction ts with
  | nil => exact fun e => .pure _
  | cons t ts ih => exact fun _ => .bind (vectoredResponseTask_stays t) ih

theorem writeDownstreamResponse_stays (crates : Crates) (ts : List Task) :
    Stays (Moded h) (writeDownstreamResponse crates ts) := by
  have hfinish : ∀ e : Bool, Stays (Moded h) (if e then ignore finishWritingResponseBody else pure ()) :=
    fun e => .ite (.ignore finishWritingResponseBody_stays) (.pure _)
  match ts with
  | [] => exact .pure _
  | [t] => exact .bind (writeResponseTask_stays t) fun e => .bind (hfinish e) fun _ => .pure _
  | t :: t' :: ts =>
    exact .bind (vectoredTasks_stays _ _) fun e => .bind (.ignore vectoredWriteResponseBody_stays) fun _ =>
      .bind (hfinish e) fun _ => .pure _

/-! ## The end of an upgrade's body -/

/-- The next read of the client takes the last size line of the chunked body of a request
    to upgrade. -/
def EndsUpgradeBody (crates : Crates) (d : Downstream) : Prop :=
  ∃ h, d.requestHeader = some h ∧ Utils.isRequestUpgrade h = true ∧
    Utils.isHeaderValueChunkEncoding (h.getHeader transferEncoding) = true ∧
    (setRequestBodyReader d).2.bodyReader.isFinished = false ∧
    (BodyReader.readBody crates.parseChunkSize
      ((setRequestBodyReader d).2.bodyReader, (setRequestBodyReader d).2.stream)).1 = .ok none

/-- Once the reader is set, the same read goes on. -/
theorem readDownstreamRequest_set (crates : Crates) {d0 : Downstream} (hh : d.requestHeader = some h)
    (hset : setRequestBodyReader d = (.ok (), d0)) :
    d0.bodyReader.isStart = false ∧ readDownstreamRequest crates d = readDownstreamRequest crates d0 := by
  rcases setRequestBodyReader_cases hh with ⟨preread, hd, hs⟩ | ⟨hstart, hs⟩ | ⟨-, -, -, hno⟩
  · cases hs.symm.trans hset
    exact ⟨selectReader_isStart .., readDownstreamRequest_ready hd⟩
  · cases hs.symm.trans hset
    exact ⟨hstart, rfl⟩
  · exact absurd (congrArg Prod.fst hset) hno

theorem idle_not_ok {b : Option Bytes} :
    (show M (Option Bytes) from do
      let read ← idle
      if read = [] then stop (.err connectionClosed) else stop (.err connectError)) d ≠ (.ok b, d') := by
  intro hi
  obtain ⟨read, d1, -, h2⟩ := of_bind_ok hi
  split at h2 <;> cases h2

/-- What a read that comes to `Task::Done` has seen. -/
theorem readDownstreamRequest_done (hh : d.requestHeader = some h)
    (hr : readDownstreamRequest crates d = (.ok .done, d')) :
    ∃ d0, setRequestBodyReader d = (.ok (), d0) ∧ d0.bodyReader.isFinished = false ∧
      (BodyReader.readBody crates.parseChunkSize (d0.bodyReader, d0.stream)).1 = .ok none := by
  unfold readDownstreamRequest at hr
  obtain ⟨b, d1, h1, h2⟩ := of_bind_ok hr
  obtain ⟨up, d2, h3, h4⟩ := of_bind_ok h2
  cases b with
  | some b =>
    cases h3
    obtain ⟨e, d3, -, h6⟩ := of_bind_ok h4
    cases h6
  | none =>
    unfold readRequestBodyOrIdle isReadingRequestBodyFinished at h1
    obtain ⟨fin, d0, h5, h6⟩ := of_bind_ok h1
    obtain ⟨_, _, hset, h7⟩ := of_bind_ok h5
    cases h7
    obtain ⟨hstart, -⟩ := readDownstreamRequest_set crates hh hset
    cases hf : d0.bodyReader.isFinished with
    | true =>
      rw [hf, if_pos rfl] at h6
      exact absurd h6 idle_not_ok
    | false =>
      refine ⟨d0, hset, hf, ?_⟩
      rw [hf] at h6
      unfold readRequestBodyBytes at h6
      obtain ⟨o, d3, h8, h9⟩ := of_bind_ok h6
      cases o with
      | some o =>
        obtain ⟨_, _, -, h10⟩ := of_bind_ok h9
        cases h10
      | none =>
        rw [readRequestBody_of_not_start hstart rfl] at h8
        exact congrArg Prod.fst h8

theorem readDownstreamRequest_ends (hh : d.requestHeader = some h) (hup : Utils.isRequestUpgrade h = true)
    (hstart : d.bodyReader.isStart = false) (hfin : d.bodyReader.isFinished = false)
    (hread : (BodyReader.readBody crates.parseChunkSize (d.bodyReader, d.stream)).1 = .ok none) :
    (readDownstreamRequest crates d).1 = .ok .done := by
  have hgoes := BodyReader.readBody_goes crates.parseChunkSize d.bodyReader d.stream
  rcases hx : BodyReader.readBody crates.parseChunkSize (d.bodyReader, d.stream) with ⟨o, r, s⟩
  rw [hx] at hread hgoes
  cases hread
  have hrs : r.isStart = false := by
    unfold BodyReader.isStart at hstart ⊢
    rw [beq_eq_false_iff_ne] at hstart ⊢
    exact hgoes.ne_start hstart
  rw [readDownstreamRequest_none hstart hfin hh hx hrs, if_pos hup]

/-- A read of the client comes to `Task::Done` just when it ends the chunked body of a
    request to upgrade. -/
theorem readDownstreamRequest_done_iff (hd : Moded h d) :
    (readDownstreamRequest crates d).1 = .ok .done ↔ EndsUpgradeBody crates d := by
  constructor
  · intro hr
    have hr' : readDownstreamRequest crates d = (.ok .done, (readDownstreamRequest crates d).2) := Prod.ext hr rfl
    obtain ⟨d0, hset, hfin, hread⟩ := readDownstreamRequest_done hd.head hr'
    obtain ⟨-, ⟨_, _, hb⟩ | ⟨-, _, hh, hup⟩⟩ := readDownstreamRequest_ok hr'
    · cases hb
    · cases hd.head.symm.trans hh
      refine ⟨h, hh, hup, ?_, by rw [hset]; exact hfin, by rw [hset]; exact hread⟩
      have hmode : ModeFits h d0.bodyReader.readState := by
        have := (setRequestBodyReader_stays d hd).mode
        rwa [hset] at this
      obtain ⟨hstart, -⟩ := readDownstreamRequest_set crates hd.head hset
      cases hst : d0.bodyReader.readState with
      | start => simp [BodyReader.isStart, hst] at hstart
      | completed n => simp [BodyReader.isFinished, hst] at hfin
      | done n => simp [BodyReader.isFinished, hst] at hfin
      | partially n m =>
        simp only [BodyReader.readBody, hst] at hread
        exact absurd hread (BodyReader.readPartially_some _ _)
      | chunked a b c e => rw [hst] at hmode; exact hmode
      | http10 n =>
        rw [hst] at hmode
        exact absurd (hup.symm.trans hmode) (by simp)
  · intro h
    rcases h with ⟨h', hh, hup, -, hfin, hread⟩
    have hh0 : (setRequestBodyReader d).2.requestHeader = some h' := (keeps_setRequestBodyReader d).trans hh
    rcases setRequestBodyReader_cases hh with ⟨preread, -, hs⟩ | ⟨-, hs⟩ | ⟨hstart, hsame, -, -⟩
    · obtain ⟨hstart, hset⟩ := readDownstreamRequest_set crates hh hs
      rw [hs] at hfin hread hh0
      rw [hset]
      exact readDownstreamRequest_ends hh0 hup hstart hfin hread
    · obtain ⟨hstart, -⟩ := readDownstreamRequest_set crates hh hs
      rw [hs] at hfin hread
      exact readDownstreamRequest_ends hh hup hstart hfin hread
    · -- a reader that was not set cannot be read
      rw [hsame] at hread
      unfold BodyReader.isStart at hstart
      simp only [BodyReader.readBody, beq_iff_eq.mp hstart] at hread
      cases hread

/-- A chunked body that ends with its first size line, preread with the head. -/
theorem readDownstreamRequest_emptyChunked (crates : Crates) {preread : Bytes} {index : Nat} (hd : d.Ready h preread)
    (hsize : d.bodyReader.bodySize = bodyBufferSize)
    (hte : Utils.isHeaderValueChunkEncoding (h.getHeader transferEncoding) = true) (hne : preread ≠ [])
    (hfits : preread.length < usizeEnd) (hindex : index ≤ preread.length)
    (hlast : crates.parseChunkSize preread = .complete index 0) :
    ∃ r, readDownstreamRequest crates d =
      (.ok (if Utils.isRequestUpgrade h then .done else .body none true), (d.selected h preread).withRead (r, d.stream)) := by
  let r0 : BodyReader :=
    { (if Utils.isRequestUpgrade h then d.bodyReader.withUntilClosedRead preread else d.bodyReader) with
      readState := .chunked 0 0 0 0 }
  have hreader : (d.selected h preread).bodyReader = r0.setBuffer preread := by
    show selectReader _ _ _ = _
    unfold selectReader
    rw [if_pos hte]
    rfl
  have hsize0 : r0.bodySize = bodyBufferSize := by
    show BodyReader.bodySize (if _ then _ else _) = _
    split <;> exact hsize
  obtain ⟨buf, hb, hlen, hrw, hs⟩ := BodyReader.setBuffer_holds (r := r0) (p := preread) fun he => absurd he hne
  have hbuf : buf.length < usizeEnd := by
    rw [hlen, hsize0]
    unfold bodyBufferSize usizeEnd at *
    omega
  have hpull : Chunked.takeLine crates.parseChunkSize partialChunkHeadLimit preread = (.done, .finished) := by
    unfold Chunked.takeLine
    rw [hlast]
    rfl
  obtain ⟨buf', o, r, hread, -, hg⟩ := BodyReader.readChunked_ready crates.parseChunkSize hb
    (.fresh rfl hrw hs) hne hbuf (by decide) (fun i n hp => by
      cases hlast.symm.trans hp
      exact ⟨hindex, fun hz => absurd rfl hz⟩) (fun x d' hx => by
      cases hpull.symm.trans hx) d.stream
  rw [hpull] at hg
  cases hg with
  | done hst =>
    have hfin : (d.selected h preread).bodyReader.isFinished = false := by rw [hreader]; rfl
    have hcall : BodyReader.readBody crates.parseChunkSize
        ((d.selected h preread).bodyReader, (d.selected h preread).stream) = (.ok none, r, d.stream) := by
      rw [hreader]
      exact hread
    refine ⟨r, ?_⟩
    rw [readDownstreamRequest_ready hd, readDownstreamRequest_none (selectReader_isStart ..) hfin hd.head hcall
      (by simp [BodyReader.isStart, hst])]
    simp [BodyReader.isFinished, hst]

end Downstream

end Glaive.Session
