/-
  Glaive.Session.ResponseText — a response head that was read, written again
  (`core/src/session/upstream.rs`: `read_response`; `response.rs`: `ResponseHeader`).

  The parser is told to allow values that go on over several lines, and gives them with
  the line breaks inside; `read_response` makes header values of them unchecked, and
  `build_to_buffer` writes them as they are. A strict reader, which continues no line,
  then does not see the head that was read. `response_strict_iff`: that is all that goes
  wrong.
-/

import Glaive.Session.RequestText
import Glaive.Session.ResponseReading

namespace Glaive.Session

open Glaive.Lib
open Glaive.Lib.Async
open Glaive.Lib.Head (ResponseText headText statusLine readResponseHead trimmed)
open Glaive.Lib.Message (trimBlanks valuesOf)

/-- What `httparse` says of a response head it accepts: a line break in a value comes
    from a value on several lines, and the ends of values are trimmed. -/
structure ResponsesParsed (crates : Crates) : Prop where
  version : ∀ buf size parts, crates.parseResponse buf = .complete size parts → parts.version ≤ 1
  reason : ∀ buf size parts, crates.parseResponse buf = .complete size parts →
    ∃ reason, parts.reason = some reason ∧ reason.all isValueByte = true
  values : ∀ buf size parts, crates.parseResponse buf = .complete size parts →
    ∀ x ∈ parts.headers, trimBlanks x.value = x.value ∧ ∀ b ∈ x.value, isValueByte b = true ∨ b = cr ∨ b = lf

variable {crates : Crates} {u v : Upstream} {parts : ResponseParts} {h : ResponseHeader}

/-- A head was taken, and stands in the buffer, or none was. -/
theorem readResponse_buffer (hok : Upstream.readResponse crates u = (.ok (), v)) :
    v.buffer = [] ∨ ∃ size parts h, crates.parseResponse v.buffer = .complete size parts ∧
      Upstream.responseHeaderOf crates parts = some h ∧ v.responseHeader = some h := by
  cases hreq : u.requestHeader with
  | some req =>
    rcases Upstream.readResponse_ok hreq hok with ⟨rest, -, rfl⟩ | ⟨buf, size, parts, rest, h, hr, hh, rfl⟩
    · exact .inl rfl
    · exact .inr ⟨size, parts, h, (readHead_some hr).1, hh, rfl⟩
  | none =>
    unfold Upstream.readResponse at hok
    rw [modify_bind_apply] at hok
    obtain ⟨x, u1, h1, hok⟩ := of_bind_ok hok
    obtain ⟨s, -, rfl⟩ := of_zoom_ok h1
    cases x with
    | none =>
      cases hok
      exact .inl rfl
    | some x =>
      obtain ⟨buf, size, parts⟩ := x
      simp only [modify_bind_apply] at hok
      -- the head asks for the request, which is not there
      cases hb : Upstream.responseHeaderOf crates parts with
      | none => rw [hb] at hok; cases hok
      | some h =>
        rw [hb] at hok
        simp only [modify_bind_apply] at hok
        obtain ⟨up, u2, h2, -⟩ := of_bind_ok hok
        unfold Upstream.isSessionUpgrade at h2
        obtain ⟨up', u3, h3, -⟩ := of_bind_ok h2
        unfold Upstream.isRequestUpgrade at h3
        simp only [hreq] at h3
        cases h3

/-- `read_response` has taken a head, which the parser gives as `parts`. -/
structure Received (crates : Crates) (u v : Upstream) (parts : ResponseParts) (h : ResponseHeader) : Prop where
  ok : Upstream.readResponse crates u = (.ok (), v)
  taken : v.buffer ≠ []
  parsed : ∃ size, crates.parseResponse v.buffer = .complete size parts
  head : v.responseHeader = some h

theorem Received.built (hr : Received crates u v parts h) : Upstream.responseHeaderOf crates parts = some h := by
  rcases readResponse_buffer hr.ok with hb | ⟨size, parts', h', hp, hh, hv⟩
  · exact absurd hb hr.taken
  · obtain ⟨size', hp'⟩ := hr.parsed
    cases hp.symm.trans hp'
    cases hv.symm.trans hr.head
    exact hh

/-- What is shown of a reason phrase that is set. -/
theorem ResponseHeader.getReasonPhrase_set (h : ResponseHeader) (reason : Bytes) :
    (h.setReasonPhrase crates (some reason)).getReasonPhrase crates = some reason := by
  unfold ResponseHeader.setReasonPhrase ResponseHeader.getReasonPhrase
  by_cases hc : some reason = crates.canonicalReason h.status
  · rw [if_pos hc]
    exact hc.symm
  · rw [if_neg hc]
    rfl

theorem ResponseHeader.setReasonPhrase_keeps (crates : Crates) (h : ResponseHeader) (reason : Option Bytes) :
    (h.setReasonPhrase crates reason).status = h.status ∧ (h.setReasonPhrase crates reason).version = h.version := by
  unfold ResponseHeader.setReasonPhrase
  split <;> exact ⟨rfl, rfl⟩

theorem ResponseHeader.buildToBuffer_eq (reason : Bytes) (hreason : h.getReasonPhrase crates = some reason) :
    h.buildToBuffer crates = some (headText (statusLine h.version.raw (threeDigits h.status) reason) h.fields.forwarded) := by
  unfold ResponseHeader.buildToBuffer
  rw [h.fields.build_eq, hreason]
  rfl

theorem responseHeaderOf_spec {reason : Bytes} (hreason : parts.reason = some reason)
    (hh : Upstream.responseHeaderOf crates parts = some h) :
    parts.code < 1000 ∧ h.fields = .ofParsed parts.headers ∧
      h.buildToBuffer crates =
        some (headText (statusLine (minorVersion parts.version).raw (threeDigits parts.code) reason) h.fields.forwarded) := by
  unfold Upstream.responseHeaderOf at hh
  split at hh
  · rename_i hcode
    rw [Bool.and_eq_true, decide_eq_true_eq, decide_eq_true_eq] at hcode
    obtain rfl := Option.some.inj hh
    obtain ⟨hstatus, hversion⟩ := ResponseHeader.setReasonPhrase_keeps crates
      ⟨parts.code, minorVersion parts.version, none, .empty⟩ parts.reason
    refine ⟨hcode.2, rfl, ?_⟩
    rw [ResponseHeader.buildToBuffer_eq reason]
    · simp only [hstatus, hversion]
    · rw [hreason]
      exact ResponseHeader.getReasonPhrase_set _ reason
  · cases hh

/-- What is read is the head that came. -/
structure SameHead (parts : ResponseParts) (t : ResponseText) : Prop where
  version : t.minor = parts.version
  status : t.status = parts.code
  reason : some t.reason = parts.reason
  values : ∀ name ≠ [], valuesOf name t.fields =
    (parts.headers.filter fun x => eqIgnoreCase x.name name).map Field.value

/-- A head that is written strictly: it reads back as what came, and each field is one
    line. -/
def StrictlyWritten (crates : Crates) (parts : ResponseParts) (h : ResponseHeader) : Prop :=
  ∃ text t, h.buildToBuffer crates = some text ∧ readResponseHead headAlphabet text = some t ∧ SameHead parts t ∧
    (∀ e ∈ h.fields.forwarded, cr ∉ e.2 ∧ lf ∉ e.2) ∧ text.count lf = h.fields.forwarded.length + 2

/-- A parsed field is sent on. -/
theorem Fields.forwarded_of_mem {l : List Field} {x : Field} (hx : x ∈ l) (hne : x.name ≠ []) :
    ∃ e ∈ (Fields.ofParsed l).forwarded, e.2 = x.value := by
  have hv : x.value ∈ (Fields.ofParsed l).getHeaders (lowerName x.name) := by
    rw [Fields.getHeaders_ofParsed _ (by simpa [lowerName] using hne)]
    exact List.mem_map_of_mem (List.mem_filter.mpr ⟨hx, by simp⟩)
  rw [← Fields.forwarded_values] at hv
  obtain ⟨e, he, hev⟩ := List.mem_map.mp hv
  exact ⟨e, (List.mem_filter.mp he).1, hev⟩

theorem minorOf_minorVersion {n : Nat} (h : n ≤ 1) : Head.minorOf (minorVersion n).raw = some n := by
  match n, h with
  | 0, _ => decide
  | 1, _ => decide

/-- For every head that is read: it is written strictly exactly when no value of it is on
    several lines. -/
theorem response_strict_iff (hp : ResponsesParsed crates) (hr : Received crates u v parts h) :
    StrictlyWritten crates parts h ↔ ∀ x ∈ parts.headers, x.name ≠ [] → cr ∉ x.value ∧ lf ∉ x.value := by
  obtain ⟨size, hparsed⟩ := hr.parsed
  obtain ⟨reason, hreason, hall⟩ := hp.reason _ _ _ hparsed
  obtain ⟨hcode, hfields, hbuild⟩ := responseHeaderOf_spec hreason hr.built
  constructor
  · intro hs x hx hne
    obtain ⟨_, _, -, -, -, hno, -⟩ := hs
    rw [hfields] at hno
    obtain ⟨e, he, hev⟩ := Fields.forwarded_of_mem hx hne
    exact hev ▸ hno e he
  · intro hno
    have hsound : ∀ e ∈ h.fields.forwarded,
        headAlphabet.Holds e ∧ trimBlanks e.2 = e.2 ∧ cr ∉ e.2 ∧ lf ∉ e.2 := by
      rw [hfields]
      intro e he
      obtain ⟨x, hx, hne, rfl⟩ := Fields.mem_forwarded_ofParsed he
      obtain ⟨htrim, hbytes⟩ := hp.values _ _ _ hparsed x hx
      obtain ⟨hcr, hlf⟩ := hno x hx hne
      refine ⟨⟨hne, x.token, List.all_eq_true.mpr fun b hb => ?_⟩, htrim, hcr, hlf⟩
      rcases hbytes b hb with hb' | rfl | rfl
      · exact hb'
      · exact absurd hb hcr
      · exact absurd hb hlf
    have hminor := minorOf_minorVersion (hp.version _ _ _ hparsed)
    have hread := Head.readResponseHead_headText (A := headAlphabet) hminor rfl (threeDigits_digits hcode) hall
      fun e he => (hsound e he).1
    refine ⟨_, _, hbuild, hread, ⟨rfl, decNumber_threeDigits hcode, hreason.symm, fun name hne => ?_⟩,
      fun e he => (hsound e he).2.2, ?_⟩
    · rw [(Fields.trimmed_values_iff h.fields).mpr (fun e he => (hsound e he).2.1) name, hfields,
        Fields.getHeaders_ofParsed _ (by simpa [lowerName] using hne)]
      congr 2
      funext x
      unfold eqIgnoreCase
      rw [Bool.beq_eq_decide_eq]
      rfl
    · exact Head.count_lf_headText (A := headAlphabet) (Head.statusLine_no_break (A := headAlphabet) hminor
        (threeDigits_digits hcode) hall) fun e he => (hsound e he).1

/-! ## A value on two lines -/

/-- `X: a`, with `b` on the next line. -/
def xName : Bytes := ascii "X"

theorem xName_token : xName.all isTokenByte = true := by decide

def foldedHead : Bytes × ResponseParts :=
  (ascii "HTTP/1.1 200 OK\r\nX: a\r\n b\r\n\r\n",
    ⟨200, 1, some (ascii "OK"), [⟨xName, ascii "a\r\n b", xName_token⟩]⟩)

/-- The same on one line. -/
def unfoldedHead : Bytes × ResponseParts :=
  (ascii "HTTP/1.1 200 OK\r\nX: a b\r\n\r\n", ⟨200, 1, some (ascii "OK"), [⟨xName, ascii "a b", xName_token⟩]⟩)

theorem head_parsed {head : Bytes × ResponseParts} (hv : head.2.version ≤ 1) (hr : head.2.reason = some (ascii "OK"))
    (hx : head.2.headers.all (fun x => trimBlanks x.value == x.value &&
      x.value.all fun b => isValueByte b || b == cr || b == lf) = true) :
    ResponsesParsed (.ofTables [] [head]) := by
  have hmem : ∀ buf size parts, (Crates.ofTables [] [head]).parseResponse buf = .complete size parts → parts = head.2 := by
    intro buf size parts h
    obtain ⟨e, he, hp⟩ := parseTable_mem h
    rw [List.mem_singleton] at he
    rw [← hp, he]
  refine ⟨fun buf size parts h => ?_, fun buf size parts h => ?_, fun buf size parts h => ?_⟩
  · exact hmem _ _ _ h ▸ hv
  · exact ⟨ascii "OK", hmem _ _ _ h ▸ hr, by decide⟩
  · rw [hmem _ _ _ h]
    intro x hm
    have hall := List.all_eq_true.mp hx x hm
    rw [Bool.and_eq_true, beq_iff_eq, List.all_eq_true] at hall
    exact ⟨hall.1, fun b hb => by simpa [or_assoc] using hall.2 b hb⟩

def answered (head : Bytes × ResponseParts) : Upstream :=
  { Upstream.new ⟨[.data head.1], [], []⟩ (fun _ => 0) with requestHeader := some getAHead.toRequestHeader }

theorem head_received {head : Bytes × ResponseParts} {h : ResponseHeader} (hne : head.1 ≠ [])
    (hp : (Crates.ofTables [] [head]).parseResponse head.1 = .complete head.1.length head.2)
    (hh : Upstream.responseHeaderOf (.ofTables [] [head]) head.2 = some h) :
    Received (.ofTables [] [head]) (answered head)
      ((answered head).tookHead getAHead.toRequestHeader h head.1 head.1.length []) head.2 h := by
  refine ⟨Upstream.readResponse_took (by rfl) ?_ hh, hne, ⟨_, hp⟩, rfl⟩
  exact readHead_some_iff.mpr ⟨[], head.1, rfl, .one hne hp []⟩

def builtHead (head : Bytes × ResponseParts) : ResponseHeader :=
  ⟨head.2.code, minorVersion head.2.version, head.2.reason, .ofParsed head.2.headers⟩

/-- The second line is written as it came. -/
theorem folded_value_written : ¬ ∀ (crates : Crates) (u v : Upstream) (parts : ResponseParts) (h : ResponseHeader),
    ResponsesParsed crates → Received crates u v parts h → StrictlyWritten crates parts h := by
  intro hall
  obtain ⟨_, _, -, -, -, hno, -⟩ := hall _ _ _ foldedHead.2 (builtHead foldedHead)
    (head_parsed (by decide) rfl (by decide)) (head_received (by decide) (by rfl) (by rfl))
  obtain ⟨e, he, hv⟩ := Fields.forwarded_of_mem (l := foldedHead.2.headers) (List.mem_cons_self ..) (by decide)
  have hcr := (hno e he).1
  rw [hv] at hcr
  exact hcr (by decide)

theorem response_strict_unfolded :
    StrictlyWritten (.ofTables [] [unfoldedHead]) unfoldedHead.2 (builtHead unfoldedHead) ↔
      ∀ x ∈ unfoldedHead.2.headers, x.name ≠ [] → cr ∉ x.value ∧ lf ∉ x.value :=
  response_strict_iff (head_parsed (by decide) rfl (by decide)) (head_received (by decide) (by rfl) (by rfl))

end Glaive.Session
