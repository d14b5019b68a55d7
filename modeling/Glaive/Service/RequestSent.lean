/-
  Glaive.Service.RequestSent — how much of a request body is on the wire to the server
  (`core/src/session/upstream.rs`: `write_upstream_request`; `writer.rs`).

  The writer's count is the number of body bytes written, or what is written is chunks
  (`Sent`); once the writer says that the announced body is written, all of it is
  (`Sent.whole`). An empty buffer written as a chunk reads as the last chunk.
-/

import Glaive.Service.Framing
import Glaive.Session.RoundTrip

namespace Glaive.Service

open Glaive.Lib
open Glaive.Lib.Async
open Glaive.Lib.Message (Framing)
open Glaive.Session
open Glaive.Session.BodyWriter (chunkOf chunkedWire)

/-- A whole request body as it stands on the wire: the bytes announced, or chunks and
    the last chunk. -/
def WholeRequestBody : Framing → Bytes → Prop
  | .length n, body => body.length = n
  | .chunked, body => ∃ bufs : List Bytes, (∀ x ∈ bufs, x ≠ []) ∧ body = chunkedWire bufs

/-- The mode chosen for the request body is the chunked one. -/
def writesChunks (req : RequestHeader) : Bool :=
  !Utils.isRequestUpgrade req && Utils.isHeaderValueChunkEncoding (req.getHeader transferEncoding)

/-- The size a writer has counted, when it is not in chunked mode. -/
def counted (w : BodyWriter) : Option Nat :=
  match w.writeState with
  | .completed written => some written
  | .contentLength _ written => some written
  | .http10 written => some written
  | .start => none
  | .chunkedEncoding _ => none

/-- The body that the head `req` announces is written, as far as the writer knows. -/
def RequestWritten (req : RequestHeader) (w : BodyWriter) : Prop :=
  match Message.framing req.fields.forwarded with
  | some (.length n) => counted w = some n
  | some .chunked => writesChunks req = true ∧ w.finished = true
  | none => False

/-- `body` has been written by a writer that is now `w`. -/
inductive Sent (req : RequestHeader) : BodyWriter → Bytes → Prop
  | plain {w : BodyWriter} {body : Bytes} : writesChunks req = false → counted w = some body.length → Sent req w body
  | chunks (bufs : List Bytes) (n : Nat) : writesChunks req = true → (∀ x ∈ bufs, x ≠ []) →
      Sent req ⟨.chunkedEncoding n⟩ (bufs.map chunkOf).flatten
  | ended (bufs : List Bytes) (n : Nat) : writesChunks req = true → (∀ x ∈ bufs, x ≠ []) →
      Sent req ⟨.completed n⟩ (chunkedWire bufs)

variable {req : RequestHeader} {w : BodyWriter} {body : Bytes}

theorem sent_start (req : RequestHeader) (w : BodyWriter) : Sent req (Upstream.selectWriter req w) [] := by
  unfold Upstream.selectWriter
  cases hu : Utils.isRequestUpgrade req with
  | true => exact .plain (by simp [writesChunks, hu]) rfl
  | false =>
    cases hc : Utils.isHeaderValueChunkEncoding (req.getHeader transferEncoding) with
    | true => exact .chunks [] 0 (by simp [writesChunks, hu, hc]) (by simp)
    | false =>
      have hplain : writesChunks req = false := by simp [writesChunks, hc]
      cases Utils.getContentLengthValue (req.getHeader contentLength) with
      | some n => exact .plain hplain rfl
      | none => exact .plain hplain rfl

theorem Sent.emit (h : Sent req w body) {x : Bytes} (hx : ∀ n, w.writeState = .chunkedEncoding n → x ≠ []) :
    Sent req (w.emit x).2 (body ++ (w.emit x).1) := by
  cases h with
  | plain hp hc =>
    unfold BodyWriter.emit
    unfold counted at hc
    cases hst : w.writeState with
    | start => rw [hst] at hc; cases hc
    | chunkedEncoding n => rw [hst] at hc; cases hc
    | completed n =>
      refine .plain hp ?_
      rw [List.append_nil, counted]
      exact hc
    | contentLength total n =>
      rw [hst] at hc
      obtain rfl := Option.some.inj hc
      simp only
      split
      · refine .plain hp ?_
        rw [List.append_nil, counted, hst]
      · refine .plain hp ?_
        rw [List.length_append, List.length_take]
        rfl
    | http10 n =>
      rw [hst] at hc
      obtain rfl := Option.some.inj hc
      refine .plain hp ?_
      rw [List.length_append]
      rfl
  | chunks bufs n hch hne =>
    have : Sent req ⟨.chunkedEncoding (n + x.length)⟩ ((bufs ++ [x]).map chunkOf).flatten := by
      refine .chunks _ _ hch fun y hy => ?_
      rcases List.mem_append.mp hy with hy | hy
      · exact hne y hy
      · rw [List.mem_singleton.mp hy]
        exact hx n rfl
    rw [List.map_append, List.flatten_append, List.map_singleton, List.flatten_singleton] at this
    exact this
  | ended bufs n hch hne =>
    have : Sent req ⟨.completed n⟩ (chunkedWire bufs ++ []) := by
      rw [List.append_nil]
      exact .ended bufs n hch hne
    exact this

theorem Sent.closing (h : Sent req w body) : Sent req w.closing.2 (body ++ w.closing.1) := by
  cases h with
  | plain hp hc =>
    unfold BodyWriter.closing
    unfold counted at hc
    cases hst : w.writeState with
    | start => rw [hst] at hc; cases hc
    | chunkedEncoding n => rw [hst] at hc; cases hc
    | completed n =>
      refine .plain hp ?_
      rw [List.append_nil, counted]
      exact hc
    | contentLength total n =>
      rw [hst] at hc
      refine .plain hp ?_
      rw [List.append_nil]
      exact hc
    | http10 n =>
      rw [hst] at hc
      refine .plain hp ?_
      rw [List.append_nil]
      exact hc
  | chunks bufs n hch hne => exact .ended bufs n hch hne
  | ended bufs n hch hne =>
    have : Sent req ⟨.completed n⟩ (chunkedWire bufs ++ []) := by
      rw [List.append_nil]
      exact .ended bufs n hch hne
    exact this

/-- Chunks are written only where the head announces them. -/
theorem framing_of_writesChunks {n : Nat} (h : writesChunks req = true) :
    Message.framing req.fields.forwarded ≠ some (.length n) := by
  unfold writesChunks at h
  rw [Bool.and_eq_true] at h
  have hte : req.getHeaders transferEncoding ≠ [] := by
    intro he
    have hnone : req.getHeader transferEncoding = none := by
      rw [show req.getHeader transferEncoding = (req.getHeaders transferEncoding).head? from rfl, he]
      rfl
    rw [hnone] at h
    cases h.2
  rw [framing_forwarded]
  simp only [ne_eq, hte, not_false_eq_true, if_true]
  split <;> simp

/-- What the writer says is written is the whole body. -/
theorem Sent.whole (h : Sent req w body) (hw : RequestWritten req w) :
    ∃ f, Message.framing req.fields.forwarded = some f ∧ WholeRequestBody f body := by
  unfold RequestWritten at hw
  cases hf : Message.framing req.fields.forwarded with
  | none => rw [hf] at hw; exact hw.elim
  | some f =>
    rw [hf] at hw
    refine ⟨f, rfl, ?_⟩
    cases f with
    | length n =>
      cases h with
      | plain _ hc => exact Option.some.inj (hc.symm.trans hw)
      | chunks bufs n hch => exact absurd hf (framing_of_writesChunks hch)
      | ended bufs n hch => exact absurd hf (framing_of_writesChunks hch)
    | chunked =>
      cases h with
      | plain hp _ => exact absurd (hp.symm.trans hw.1) (by simp)
      | chunks bufs n => cases hw.2
      | ended bufs n _ hne => exact ⟨bufs, hne, rfl⟩

variable {u u' : Upstream}

/-- A task written to the server, and what else the call leaves as it was. -/
theorem Sent.write (h : Sent req u.bodyWriter body) (hup : u.upgrade = false) {t : Task} {e : Bool}
    (hx : ∀ n e, u.bodyWriter.writeState = .chunkedEncoding n → t ≠ .body (some []) e)
    (hok : Upstream.writeUpstreamRequest t u = (.ok e, u')) :
    ∃ bs w s, u' = { u with bodyWriter := w, stream := s } ∧ s.input = u.stream.input ∧
      s.output = u.stream.output ++ bs ∧ Sent req w (body ++ bs) := by
  unfold Upstream.writeUpstreamRequest at hok
  cases t with
  | body b endStream =>
    obtain ⟨_, u1, h1, hok⟩ := of_bind_ok hok
    obtain ⟨_, u2, h2, hok⟩ := of_bind_ok hok
    cases hok
    -- the task's bytes
    have hbytes : ∃ bs w s, u1 = { u with bodyWriter := w, stream := s } ∧ s.input = u.stream.input ∧
        s.output = u.stream.output ++ bs ∧ Sent req w (body ++ bs) := by
      cases b with
      | none =>
        cases h1
        exact ⟨[], _, _, rfl, rfl, (List.append_nil _).symm, by rw [List.append_nil]; exact h⟩
      | some x =>
        obtain ⟨n, u3, h3, h4⟩ := of_bind_ok h1
        cases h4
        obtain ⟨s, rfl, hout, hin⟩ := Upstream.writeRequestBody_ok h3
        refine ⟨_, _, _, rfl, hin, hout, h.emit fun n hn => ?_⟩
        intro he
        subst he
        exact hx n _ hn rfl
    obtain ⟨bs, w, s, rfl, hin, hout, hsent⟩ := hbytes
    -- and the end of the body
    cases e with
    | false =>
      cases h2
      exact ⟨bs, w, s, rfl, hin, hout, hsent⟩
    | true =>
      obtain ⟨n, u3, h3, h4⟩ := of_bind_ok h2
      cases h4
      obtain ⟨s', rfl, hout', hin'⟩ := Upstream.finishWritingRequestBody_ok h3
      refine ⟨bs ++ w.closing.1, w.closing.2, s', ?_, hin'.trans hin, ?_, ?_⟩
      · rw [Upstream.forceClosed, if_neg (by simp [hup])]
      · rw [hout', hout, List.append_assoc]
      · rw [← List.append_assoc]
        exact hsent.closing
  | _ => cases hok

end Glaive.Service
