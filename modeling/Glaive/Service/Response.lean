/-
  Glaive.Service.Response — a final response on its way to the client: the tasks
  `Upstream::read_upstream_response` gives, in any batches, written by
  `Downstream::write_downstream_response` (`core/src/service/proxy/duplex.rs`).

  `response_relayed`: the client gets one head and a body that holds the response's
  data, for every cut of the server's bytes and every batching of the tasks.
-/

import Glaive.Session.InterimHeads
import Glaive.Session.ResponseWriting

namespace Glaive.Service

open Glaive.Lib
open Glaive.Session
open Glaive.Session.Downstream (writeAll onlyLast)

theorem response_relayed (crates : Crates) (hparse : ∀ l, Chunked.Recognizes crates.parseChunkSize l) (u : Upstream)
    (req : RequestHeader) (hu : u.Fresh req) (hup : Utils.isRequestUpgrade req = false) (head : ResponseHead crates)
    (hst : 200 ≤ head.header.status) (wire data : Bytes) (after : List ReadEv)
    (hd : Upstream.Delimited req head.header wire after data) (segs : List Bytes) (hne : ∀ x ∈ segs, x ≠ [])
    (hsplit : segs.flatten = head.text ++ wire) (hin : u.stream.input = segs.map .data ++ after) (d : Downstream)
    (hreq : d.requestHeader = some req) (hnone : d.responseHeader = none) (hv : d.writeBodyVecBuffer = [])
    (hs : d.stream.Healthy) :
    ∃ n tasks u', Upstream.calls crates n u = some (tasks, u') ∧ Response head.header tasks data ∧
      ∀ groups : List (List Task), (∀ g ∈ groups, g ≠ []) → groups.flatten = tasks →
        ∃ d' buf body, writeAll crates groups d = some (onlyLast groups.length, d') ∧
          (d.updated crates head.header).buildToBuffer crates = some buf ∧
          d'.stream.output = d.stream.output ++ buf ++ body ∧
          Decodes (Downstream.setResponseBodyWriter (d.updated crates head.header) d).2.bodyWriter.writeState
            body data := by
  obtain ⟨n, tasks, u', hrun, ht, -⟩ :=
    Upstream.calls_final hparse hu.request hu.unset.1 hu.unset.2 head hst hd hin hne hsplit
  refine ⟨n, tasks, u', hrun, ht, fun groups hg hgs => ?_⟩
  rw [Downstream.setResponseBodyWriter_eq hreq]
  exact Downstream.writeAll_response hs hreq hup hnone hv hst hd ht hg hgs

/-! ## A chunked response -/

def chunkedHead : Bytes × ResponseParts :=
  (ascii "HTTP/1.1 200 OK\r\nTransfer-Encoding: chunked\r\n\r\n",
    ⟨200, 1, some (ascii "OK"), [⟨ascii "Transfer-Encoding", ascii "chunked", transferEncoding_token⟩]⟩)

/-- A head whose codings are a list that ends in `chunked`. -/
def gzipChunkedHead : Bytes × ResponseParts :=
  (ascii "HTTP/1.1 200 OK\r\nTransfer-Encoding: gzip, chunked\r\n\r\n",
    ⟨200, 1, some (ascii "OK"), [⟨ascii "Transfer-Encoding", ascii "gzip, chunked", transferEncoding_token⟩]⟩)

def chunkedCrates : Crates := .ofTables [] [chunkedHead, gzipChunkedHead]

def chunkedResponse : ResponseHead chunkedCrates where
  text := chunkedHead.1
  parts := chunkedHead.2
  header := (Upstream.responseHeaderOf chunkedCrates chunkedHead.2).getD ⟨0, .http11, none, .empty⟩
  isHead := parseTable_isHead [chunkedHead, gzipChunkedHead] (by decide) (by decide) (by decide)
  small := by decide
  built := rfl

def gzipChunkedResponse : ResponseHead chunkedCrates where
  text := gzipChunkedHead.1
  parts := gzipChunkedHead.2
  header := (Upstream.responseHeaderOf chunkedCrates gzipChunkedHead.2).getD ⟨0, .http11, none, .empty⟩
  isHead := parseTable_isHead [chunkedHead, gzipChunkedHead] (by decide) (by decide) (by decide)
  small := by decide
  built := rfl

/-- The client's session, with the request of `Upstream.answered`. -/
def getClient : Downstream :=
  { Downstream.new ⟨[], [], []⟩ (fun _ => 0) with
    requestHeader := some ⟨ascii "GET", ascii "/", .http11, .empty⟩ }

theorem response_relayed_twoChunks :
    ∃ n tasks u', Upstream.calls chunkedCrates n (.answered [chunkedHead.1 ++ ascii "1;", ascii "x\r\na\r\n2\r\nb",
        ascii "c\r\n0\r\n\r\n"]) = some (tasks, u') ∧ Response chunkedResponse.header tasks (ascii "abc") ∧
      ∀ groups : List (List Task), (∀ g ∈ groups, g ≠ []) → groups.flatten = tasks →
        ∃ d' buf body, writeAll chunkedCrates groups getClient = some (onlyLast groups.length, d') ∧
          (getClient.updated chunkedCrates chunkedResponse.header).buildToBuffer chunkedCrates = some buf ∧
          d'.stream.output = getClient.stream.output ++ buf ++ body ∧
          Decodes (Downstream.setResponseBodyWriter (getClient.updated chunkedCrates chunkedResponse.header)
            getClient).2.bodyWriter.writeState body (ascii "abc") :=
  response_relayed chunkedCrates Chunked.parse_recognizes _ _ ⟨rfl, rfl, _, rfl⟩ (by decide) chunkedResponse (by decide)
    (BodyReader.twoChunks.text ++ ascii "\r\n") (ascii "abc") []
    (.chunked BodyReader.twoChunks (ascii "\r\n") (by unfold Upstream.Bodiless; decide) (by decide) (by decide)
      (by decide)) [chunkedHead.1 ++ ascii "1;", ascii "x\r\na\r\n2\r\nb", ascii "c\r\n0\r\n\r\n"] (by decide)
    (by decide) rfl getClient rfl rfl rfl rfl

/-! ## Size lines past the limits -/

/-- A chunked response whose first bytes after the head are no size line the reader
    takes: no response comes of it. -/
theorem no_response {p : Bytes} (hp : p ≠ [])
    (hbad : Chunked.parseSizeLine p = .invalid ∨
      Chunked.parseSizeLine p = .incomplete ∧ partialChunkHeadLimit < p.length) (segs : List Bytes) (data : Bytes) :
    ¬ ∃ n tasks u', Upstream.calls chunkedCrates n (.answered ((chunkedHead.1 ++ p) :: segs)) = some (tasks, u') ∧
      Response chunkedResponse.header tasks data := by
  intro h
  rcases h with ⟨n, tasks, u', hrun, ht⟩
  have hhead : readHead chunkedCrates.parseResponse []
      (Upstream.answered ((chunkedHead.1 ++ p) :: segs)).stream.input =
      (.ok (some (chunkedResponse.text ++ p, chunkedResponse.text.length, chunkedResponse.parts)), segs.map .data) := by
    show readHead _ _ (.data (chunkedResponse.text ++ p) :: segs.map .data) = _
    rw [readHead, if_neg (show ¬ maxBufferSize < ([] : Bytes).length by decide)]
    simp only [List.nil_append, List.append_eq_nil_iff, hp, and_false, if_false]
    rw [chunkedResponse.isHead.complete]
  have hreq : (Upstream.answered ((chunkedHead.1 ++ p) :: segs)).requestHeader =
    some ⟨ascii "GET", ascii "/", .http11, .empty⟩ := rfl
  have h1 := Upstream.readUpstreamResponse_of_readHead hreq rfl chunkedResponse hhead
  generalize hu1 : Upstream.headed _ _ chunkedResponse p _ = u1 at h1
  obtain ⟨e, r, hread⟩ := BodyReader.readBody_badLine (BodyReader.idle_new fun _ => 0) hp hbad
    ⟨segs.map .data, [], []⟩
  have h2 : (Upstream.readUpstreamResponse chunkedCrates u1).1 = .err e := by
    subst hu1
    exact Upstream.readUpstreamResponse_err rfl rfl rfl hread
  cases n with
  | zero => cases hrun; cases ht
  | succ n =>
    rw [Upstream.calls_succ h1] at hrun
    cases n with
    | zero =>
      cases hrun
      cases ht with
      | withBody hb => cases hb
    | succ n =>
      rw [Upstream.calls] at hrun
      split at hrun
      · rename_i heq
        rw [heq] at h2; cases h2
      · cases hrun

/-- A body under `gzip, chunked` is taken as it stands, up to the close. -/
theorem gzipChunked_raw {data : Bytes} (hdata : data ≠ ascii "0\r\n\r\n") :
    ¬ ∃ n tasks u', Upstream.calls chunkedCrates n (.answered [gzipChunkedHead.1, ascii "0\r\n\r\n", []]) =
        some (tasks, u') ∧ Response gzipChunkedResponse.header tasks data := by
  intro h
  rcases h with ⟨n, tasks, u', hrun, ht⟩
  have hparse : ∀ l, Chunked.Recognizes chunkedCrates.parseChunkSize l := Chunked.parse_recognizes
  have hd : Upstream.Delimited ⟨ascii "GET", ascii "/", .http11, .empty⟩ gzipChunkedResponse.header
      (ascii "0\r\n\r\n") [.data []] (ascii "0\r\n\r\n") :=
    .untilClosed (by unfold Upstream.Bodiless; decide) (by decide) (by decide) (by decide)
  have hin : (Upstream.answered [gzipChunkedHead.1, ascii "0\r\n\r\n", []]).stream.input =
      [gzipChunkedHead.1, ascii "0\r\n\r\n"].map .data ++ [.data []] := rfl
  obtain ⟨m, ts, u1, hrun', ht', -⟩ := Upstream.calls_final hparse rfl rfl ⟨BodyReader.idle_new _, Or.inl rfl⟩
    gzipChunkedResponse (by decide) hd hin (by decide) rfl
  exact hdata (Upstream.calls_response_unique hrun ht hrun' ht')

/-- A size line of 17 digits; one with an extension of 8191 bytes of which all but the
    end comes in one read; and a chunked body under a list of codings. -/
theorem response_lost :
    (¬ ∃ n tasks u', Upstream.calls chunkedCrates n
        (.answered [chunkedHead.1 ++ ascii "00000000000000001\r\na\r\n0\r\n\r\n"]) = some (tasks, u') ∧
      Response chunkedResponse.header tasks (ascii "a")) ∧
    (¬ ∃ n tasks u', Upstream.calls chunkedCrates n
        (.answered [chunkedHead.1 ++ (ascii "1;" ++ List.replicate 8191 120), ascii "\r\na\r\n0\r\n\r\n"]) =
          some (tasks, u') ∧
      Response chunkedResponse.header tasks (ascii "a")) ∧
    ¬ ∃ n tasks u', Upstream.calls chunkedCrates n (.answered [gzipChunkedHead.1, ascii "0\r\n\r\n", []]) =
        some (tasks, u') ∧ Response gzipChunkedResponse.header tasks [] := by
  refine ⟨no_response (by decide) (Or.inl (by decide)) _ _,
    no_response (List.append_ne_nil_of_left_ne_nil (by decide) _) (Or.inr ⟨Chunked.parseSizeLine_longExt _, ?_⟩) _ _, gzipChunked_raw (by decide)⟩
  rw [List.length_append, List.length_replicate]
  decide

end Glaive.Service
