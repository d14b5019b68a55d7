/-
  Glaive.Session.RoundTrip — the chunked writer against the chunked reader
  (`core/src/session/writer.rs`: `write_by_chunked_encoding`, `finish_chunked_encoding`;
  `reader.rs`: `read_chunked`).

  `chunked_round_trip`: what the writer makes of some buffers, the reader makes the
  buffers of again, however it is split between preread bytes and reads, and both count
  the same bytes.
-/

import Glaive.Lib.ChunkCuts
import Glaive.Session.ReaderProofs
import Glaive.Session.Writer

namespace Glaive.Session

open Glaive.Lib
open Glaive.Lib.Async
open Glaive.Lib.Chunked (ChunkStatus)

namespace BodyWriter

/-- `write_body` with each buffer, then `finish`. -/
def writeBodies : List Bytes → Async (BodyWriter × Stream) (Option Nat)
  | [] => finish
  | x :: xs => do
    let _ ← writeBody x
    writeBodies xs

/-- The chunks of some buffers, and the last chunk. -/
def chunkedWire (bufs : List Bytes) : Bytes := (bufs.map chunkOf).flatten ++ lastChunk

theorem writeBodies_chunked : ∀ (bufs : List Bytes) (n : Nat) {s : Stream}, s.Healthy →
    writeBodies bufs (⟨.chunkedEncoding n⟩, s) =
      (.ok (some (n + bufs.flatten.length)), ⟨.completed (n + bufs.flatten.length)⟩,
        { s with output := s.output ++ chunkedWire bufs }) := by
  intro bufs
  induction bufs with
  | nil =>
    intro n s hs
    unfold writeBodies finish chunkedWire
    simp only [writing, Stream.writeAll_healthy hs]
    rfl
  | cons x xs ih =>
    intro n s hs
    have hw : writeBody x (⟨.chunkedEncoding n⟩, s) =
        (.ok (some x.length), ⟨.chunkedEncoding (n + x.length)⟩, { s with output := s.output ++ chunkOf x }) := by
      unfold writeBody
      simp only [writeByChunkedEncoding, Stream.writeAll_healthy hs]
      rfl
    have hs' : Stream.Healthy { s with output := s.output ++ chunkOf x } := hs
    unfold writeBodies
    rw [bind_ok hw, ih (n + x.length) hs']
    simp only [chunkedWire, List.map_cons, List.flatten_cons, List.length_append, List.append_assoc, Nat.add_assoc]

/-- The buffers as the chunks of a body. -/
theorem exists_chunks : ∀ (bufs : List Bytes), (∀ x ∈ bufs, x ≠ []) → (chunkedWire bufs).length < usizeEnd →
    ∃ cs : List Chunked.Chunk, Chunked.wire cs = (bufs.map chunkOf).flatten ∧ Chunked.dataOf cs = bufs.flatten ∧
      ∀ c ∈ cs, ∃ n h, c.line = Chunked.hexLine n h := by
  intro bufs
  induction bufs with
  | nil => exact fun _ _ => ⟨[], rfl, rfl, by simp⟩
  | cons x xs ih =>
    intro hne hfits
    have hlen : (chunkedWire (x :: xs)).length = (chunkOf x).length + (chunkedWire xs).length := by
      simp only [chunkedWire, List.map_cons, List.flatten_cons, List.length_append, Nat.add_assoc]
    have hx : x.length < usizeEnd := by
      have : x.length ≤ (chunkOf x).length := by
        simp only [chunkOf, List.length_append]; omega
      omega
    obtain ⟨cs, h1, h2, h3⟩ := ih (fun y hy => hne y (List.mem_cons_of_mem _ hy)) (by omega)
    refine ⟨Chunked.encode x (hne x (List.mem_cons_self ..)) hx :: cs, ?_, ?_, ?_⟩
    · rw [Chunked.wire_cons, Chunked.encode_text, h1]; rfl
    · rw [Chunked.dataOf_cons, h2]; rfl
    · exact List.forall_mem_cons.mpr ⟨⟨x.length, hx, rfl⟩, h3⟩

end BodyWriter

open BodyWriter (writeBodies chunkedWire)
open BodyReader (readAll)

/-- What is written in chunked mode is read back in chunked mode. -/
theorem chunked_round_trip (parseChunkSize : Bytes → ChunkStatus)
    (hparse : ∀ n h, Chunked.Recognizes parseChunkSize (Chunked.hexLine n h)) (bufs : List Bytes)
    (hne : ∀ x ∈ bufs, x ≠ []) (hfits : (chunkedWire bufs).length < usizeEnd) (w : BodyWriter) (out : Stream)
    (hout : out.Healthy) :
    ∃ n, writeBodies bufs (w.withChunkedEncodingWrite, out) =
        (.ok (some n), ⟨.completed n⟩, { out with output := out.output ++ chunkedWire bufs }) ∧
      ∀ (mem : Nat → Byte) (preread : Bytes) (reads : List Bytes) (s : Stream) (after : List ReadEv),
        (∀ x ∈ reads, x ≠ []) → preread ++ reads.flatten = chunkedWire bufs → s.input = reads.map .data ++ after →
        ∃ calls slices r s', readAll parseChunkSize calls ((BodyReader.new mem).withChunkedRead preread, s) =
            some (slices, r, s') ∧ slices.flatten = bufs.flatten ∧ r.readState = .completed n := by
  refine ⟨bufs.flatten.length, ?_, fun mem preread reads s after hreads hsplit hs => ?_⟩
  · have := BodyWriter.writeBodies_chunked bufs 0 hout
    rwa [Nat.zero_add] at this
  · obtain ⟨cs, hwire, hdata, hlines⟩ := BodyWriter.exists_chunks bufs hne hfits
    -- the body ends with the last size line; its empty trailer follows
    let B : Chunked.Body := ⟨cs, Chunked.hexLine 0 (by decide), Chunked.hexLine_size 0 (by decide)⟩
    have htext : B.text ++ crlf = chunkedWire bufs := by
      show Chunked.wire cs ++ (Chunked.hexLine 0 (by decide)).text ++ crlf = _
      rw [hwire, Chunked.hexLine_text, List.append_assoc]; rfl
    have hhex : ∀ l ∈ B.lines, ∃ n h, l = Chunked.hexLine n h := by
      intro l hl
      rcases List.mem_append.mp hl with hl | hl
      · obtain ⟨c, hc, rfl⟩ := List.mem_map.mp hl
        exact hlines c hc
      · exact ⟨0, by decide, List.mem_singleton.mp hl⟩
    have hshort : ∀ l ∈ B.lines, l.text.length ≤ partialChunkHeadLimit := by
      intro l hl
      obtain ⟨n, h, rfl⟩ := hhex l hl
      have := length_toHex_le h
      simp only [Chunked.hexLine_text, List.length_append, crlf, List.length_cons, List.length_nil,
        partialChunkHeadLimit]
      omega
    obtain ⟨weight, hserve⟩ := BodyReader.serving_withChunkedRead (BodyReader.idle_new mem)
      (fun l hl => by obtain ⟨n, h, rfl⟩ := hhex l hl; exact hparse n h) hshort (htext ▸ hfits)
      (hsplit.trans htext.symm) (s := s) ⟨reads, hs, hreads, rfl⟩
    have hserved := BodyReader.serving_readAll weight hserve
    rw [show B.data = bufs.flatten from hdata] at hserved
    exact ⟨_, hserved⟩

/-- A buffer of one digit's length, and one of which the digit is a letter. -/
theorem chunked_round_trip_twoBuffers :
    ∃ n, writeBodies [ascii "abc", ascii "defghijklmnop"] (BodyWriter.new.withChunkedEncodingWrite, ⟨[], [], []⟩) =
        (.ok (some n), ⟨.completed n⟩,
          ⟨[], chunkedWire [ascii "abc", ascii "defghijklmnop"], []⟩) ∧
      ∀ (mem : Nat → Byte) (preread : Bytes) (reads : List Bytes) (s : Stream) (after : List ReadEv),
        (∀ x ∈ reads, x ≠ []) → preread ++ reads.flatten = chunkedWire [ascii "abc", ascii "defghijklmnop"] →
        s.input = reads.map .data ++ after →
        ∃ calls slices r s', readAll Chunked.parseSizeLine calls
            ((BodyReader.new mem).withChunkedRead preread, s) = some (slices, r, s') ∧
          slices.flatten = [ascii "abc", ascii "defghijklmnop"].flatten ∧ r.readState = .completed n :=
  chunked_round_trip Chunked.parseSizeLine (fun n h => Chunked.parse_recognizes (Chunked.hexLine n h))
    [ascii "abc", ascii "defghijklmnop"] (by decide) (by decide) .new ⟨[], [], []⟩ rfl

end Glaive.Session
