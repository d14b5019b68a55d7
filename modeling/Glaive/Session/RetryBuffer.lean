/-
  Glaive.Session.RetryBuffer — the body bytes kept to send a request again, over any
  requests of one session (`core/src/session/downstream.rs`: `enable_retry_buffer`,
  `get_retry_buffer`; `buffer.rs`: `StorageBuffer`).

  The buffer holds the bytes of the request whose body was begun last, or says that they
  were too many (`Records`). It is not cleared with a new head but where the reader is set
  for its body. So what `get_retry_buffer` answers is of the current request just if its
  body has been begun, or if nothing of the one before it was kept
  (`retry_buffer_current_iff`).
-/

import Glaive.Session.RequestMode
import Glaive.Lib.Runs

namespace Glaive.Session

open Glaive.Lib
open Glaive.Lib.Async

namespace StorageBuffer

/-! ## What a buffer says -/

/-- The buffer has been given `bytes` in all, and has kept them if they fit. -/
structure Records (b : StorageBuffer) (bytes : Bytes) : Prop where
  capacity : b.capacity = bodyBufLimit
  truncated : b.truncated = decide (bodyBufLimit < bytes.length)
  buffer : bytes.length ≤ bodyBufLimit → b.buffer = bytes

theorem new_records : (new bodyBufLimit).Records [] := ⟨rfl, rfl, fun _ => rfl⟩

theorem clearBuffer_records {b : StorageBuffer} {bytes : Bytes} (h : b.Records bytes) : b.clearBuffer.Records [] :=
  ⟨h.capacity, rfl, fun _ => rfl⟩

theorem writeBuffer_records {b : StorageBuffer} {bytes : Bytes} (h : b.Records bytes) (x : Bytes) :
    (b.writeBuffer x).Records (bytes ++ x) := by
  obtain ⟨hcap, htrunc, hbuf⟩ := h
  rcases Nat.lt_or_ge bodyBufLimit bytes.length with hlong | hfits
  · have hb : b.writeBuffer x = { b with truncated := true } := by
      unfold writeBuffer
      rw [htrunc, decide_eq_true hlong]
      rfl
    rw [hb]
    refine ⟨hcap, ?_, fun hle => ?_⟩
    · symm
      apply decide_eq_true
      rw [List.length_append]
      omega
    · rw [List.length_append] at hle
      omega
  · have hb : b.buffer = bytes := hbuf hfits
    have ht : b.truncated = false := by rw [htrunc, decide_eq_false (Nat.not_lt.mpr hfits)]
    unfold writeBuffer
    rw [ht, hb]
    by_cases hx : bytes.length + x.length ≤ b.capacity
    · rw [if_pos (by simpa using hx)]
      rw [hcap] at hx
      refine ⟨hcap, ?_, fun _ => rfl⟩
      symm
      apply decide_eq_false
      rw [List.length_append]
      omega
    · rw [if_neg (by simpa using hx)]
      rw [hcap] at hx
      refine ⟨hcap, ?_, fun hle => ?_⟩
      · symm
        apply decide_eq_true
        rw [List.length_append]
        omega
      · rw [List.length_append] at hle
        omega

end StorageBuffer

namespace Downstream

variable {crates : Crates} {d d' : Downstream}

/-- The retry buffer, when there is one, has been given `bytes` in all. -/
def Recorded (d : Downstream) (bytes : Bytes) : Prop := ∀ b, d.retryBuffer = some b → b.Records bytes

theorem getRetryBuffer_eq {bytes : Bytes} (h : d.Recorded bytes) : d.getRetryBuffer =
    if d.retryBuffer.isNone ∨ bytes = [] ∨ bodyBufLimit < bytes.length then none else some bytes := by
  unfold getRetryBuffer
  cases hb : d.retryBuffer with
  | none => rfl
  | some b =>
    obtain ⟨-, htrunc, hbuf⟩ := h b hb
    rw [Option.bind_some, htrunc]
    by_cases hlong : bodyBufLimit < bytes.length
    · rw [if_pos (decide_eq_true hlong), if_pos (.inr (.inr hlong))]
    · rw [if_neg (by simpa using hlong), StorageBuffer.getBuffer, hbuf (Nat.le_of_not_lt hlong)]
      cases bytes with
      | nil => rfl
      | cons x xs =>
        rw [if_neg (by simp), if_neg (by simpa using hlong)]

/-! ## What the calls do to it -/

/-- A head comes from the socket. -/
def headComes (crates : Crates) (d : Downstream) : Bool :=
  match (readHead crates.parseRequest [] d.stream.input).1 with
  | .ok (some _) => true
  | _ => false

/-- A head that comes takes the reader to its start, and another read leaves it. The
    retry buffer stays. -/
theorem readRequest_cases (crates : Crates) (d : Downstream) :
    (∃ text, (readRequest crates d).1 = .panic text) ∨
      (readRequest crates d).2.retryBuffer = d.retryBuffer ∧
        (readRequest crates d).2.bodyReader = if headComes crates d then d.bodyReader.reStart else d.bodyReader := by
  unfold readRequest headComes
  rw [modify_bind_apply, bind_apply]
  unfold onStream headLoop
  rw [zoom_apply]
  cases readHead crates.parseRequest [] d.stream.input with
  | mk o rest =>
    simp only
    cases o with
    | err e => exact .inr ⟨rfl, rfl⟩
    | pending => exact .inr ⟨rfl, rfl⟩
    | panic t => exact .inl ⟨t, rfl⟩
    | ok found =>
      cases found with
      | none => exact .inr ⟨rfl, rfl⟩
      | some p =>
        obtain ⟨readBuffer, size, parts⟩ := p
        simp only [modify_bind_apply]
        by_cases hm : crates.validMethod parts.method = true
        · by_cases hu : crates.validUri parts.path = true
          · simp only [hm, hu, Bool.not_true, Bool.false_eq_true, if_false]
            exact .inr ⟨rfl, rfl⟩
          · simp only [hm, hu, Bool.not_true, Bool.false_eq_true, if_false, Bool.not_false, if_true]
            exact .inl ⟨_, rfl⟩
        · simp only [hm, Bool.not_false, if_true]
          exact .inl ⟨_, rfl⟩

theorem selectReader_not_start (h : RequestHeader) (preread : Bytes) (r : BodyReader) :
    (selectReader h preread r).isStart = false := by
  unfold selectReader
  split
  · rfl
  · split
    · rename_i n _
      cases n <;> rfl
    · split <;> rfl

/-- A reader that is at its start is set, and the retry buffer cleared with it. -/
theorem setRequestBodyReader_total (d : Downstream) :
    (∃ text, (setRequestBodyReader d).1 = .panic text) ∨
      ∃ d1, setRequestBodyReader d = (.ok (), d1) ∧ d1.bodyReader.isStart = false ∧
        d1.retryBuffer = if d.bodyReader.isStart then d.retryBuffer.map .clearBuffer else d.retryBuffer := by
  cases hs : d.bodyReader.isStart with
  | false => exact .inr ⟨d, setRequestBodyReader_of_not_start hs, hs, rfl⟩
  | true =>
    cases ho : d.bufBodyOffset with
    | none =>
      have hpanic : (setRequestBodyReader d).1 = unwrapNone := by
        unfold setRequestBodyReader
        rw [get_bind_apply, if_pos hs, modify_bind_apply, bind_apply]
        simp only [bodyBytes, ho]
        rfl
      exact .inl ⟨_, hpanic⟩
    | some o =>
      cases hg : o.get d.buffer with
      | none =>
        have hpanic : (setRequestBodyReader d).1 = outOfRange := by
          unfold setRequestBodyReader
          rw [get_bind_apply, if_pos hs, modify_bind_apply, bind_apply]
          simp only [bodyBytes, ho, hg]
          rfl
        exact .inl ⟨_, hpanic⟩
      | some preread =>
        cases hh : d.requestHeader with
        | none =>
          have hpanic : (setRequestBodyReader d).1 = .panic "Request header is not read yet" := by
            unfold setRequestBodyReader
            rw [get_bind_apply, if_pos hs, modify_bind_apply, bind_apply]
            simp only [bodyBytes, ho, hg]
            rw [bind_apply]
            simp only [getRequestHeaders, hh]
          exact .inl ⟨_, hpanic⟩
        | some h =>
          refine .inr ⟨_, setRequestBodyReader_ready ⟨hh, ⟨o, ho, hg⟩, hs⟩, ?_, rfl⟩
          exact selectReader_not_start ..

/-- What a body read that does not panic makes of the retry buffer: it is cleared where the
    reader was at its start, and given what the read returns. -/
theorem readRequestBodyBytes_cases (crates : Crates) (d : Downstream) :
    (∃ text, (readRequestBodyBytes crates d).1 = .panic text) ∨
      (readRequestBodyBytes crates d).2.bodyReader.isStart = false ∧
        ∃ kept, kept = (if d.bodyReader.isStart then d.retryBuffer.map .clearBuffer else d.retryBuffer) ∧
          ((∃ bytes, (readRequestBodyBytes crates d).1 = .ok (some bytes) ∧
              (readRequestBodyBytes crates d).2.retryBuffer = kept.map (·.writeBuffer bytes)) ∨
            (∀ bytes, (readRequestBodyBytes crates d).1 ≠ .ok (some bytes)) ∧
              (readRequestBodyBytes crates d).2.retryBuffer = kept) := by
  rcases setRequestBodyReader_total d with ⟨text, hpanic⟩ | ⟨d1, hset, hstart, hkept⟩
  · have hread : (readRequestBodyBytes crates d).1 = .panic text := by
      unfold readRequestBodyBytes readRequestBody
      rw [bind_apply, bind_apply]
      cases hset : setRequestBodyReader d with
      | mk o d1 =>
        rw [hset] at hpanic
        cases hpanic
        rfl
    exact .inl ⟨text, hread⟩
  · have hgoes := BodyReader.readBody_goes crates.parseChunkSize d1.bodyReader d1.stream
    cases hr : BodyReader.readBody crates.parseChunkSize (d1.bodyReader, d1.stream) with
    | mk o p =>
      rw [hr] at hgoes
      have hns : p.1.isStart = false := by
        have hst : d1.bodyReader.readState ≠ .start := by
          intro he
          rw [BodyReader.isStart, he] at hstart
          cases hstart
        have hne := hgoes.ne_start hst
        unfold BodyReader.isStart
        rw [beq_eq_false_iff_ne]
        exact hne
      have hbody : readRequestBody crates d = (o, d1.withRead p) := by
        unfold readRequestBody
        rw [bind_ok hset]
        unfold onReader
        rw [zoom_apply, hr]
        rfl
      unfold readRequestBodyBytes
      rw [bind_apply, hbody]
      cases o with
      | err e => exact .inr ⟨hns, _, hkept, .inr ⟨fun _ => by simp, rfl⟩⟩
      | pending => exact .inr ⟨hns, _, hkept, .inr ⟨fun _ => by simp, rfl⟩⟩
      | panic t => exact .inl ⟨t, rfl⟩
      | ok found =>
        cases found with
        | none => exact .inr ⟨hns, _, hkept, .inr ⟨fun _ => by simp, rfl⟩⟩
        | some offset =>
          simp only
          rw [bind_apply]
          unfold readSlicedRequestBody
          have hslice : (d1.withRead p).bodyReader = p.1 := rfl
          rw [hslice]
          cases hget : p.1.getSlicedBody offset with
          | ok bytes => exact .inr ⟨hns, _, hkept, .inl ⟨bytes, rfl, rfl⟩⟩
          | panic t => exact .inl ⟨t, rfl⟩
          | err e => exact .inr ⟨hns, _, hkept, .inr ⟨fun _ => by simp, rfl⟩⟩
          | pending => exact .inr ⟨hns, _, hkept, .inr ⟨fun _ => by simp, rfl⟩⟩

/-! ## Any calls on a session -/

/-- The calls, with what comes on the socket before each. -/
inductive RetryCall where
  | readRequest (arriving : List ReadEv)
  | enableRetryBuffer
  | readRequestBodyBytes (arriving : List ReadEv)

/-- A session, and what is to be known of its body reads. -/
structure RetryTrace where
  session : Downstream
  /-- What the body reads of the current request have returned. -/
  given : Bytes
  /-- What those of the request begun last returned to a buffer, while the current one's
      body is not begun. -/
  earlier : Bytes

namespace RetryTrace

/-- The body of the current request is begun. -/
def begun (x : RetryTrace) : Bool := !x.session.bodyReader.isStart

/-- What the retry buffer has been given. -/
def recorded (x : RetryTrace) : Bytes := if x.begun then x.given else x.earlier

def arrive (arriving : List ReadEv) (d : Downstream) : Downstream :=
  { d with stream.input := d.stream.input ++ arriving }

/-- One call; `none` when it panics, and where the buffer is enabled after a body byte. -/
def step (crates : Crates) : RetryCall → RetryTrace → Option RetryTrace
  | .readRequest arriving, x =>
    let d := arrive arriving x.session
    match readRequest crates d with
    | (.panic _, _) => none
    | (_, d') => some (if headComes crates d then
        ⟨d', [], if d.retryBuffer.isSome then x.recorded else []⟩ else { x with session := d' })
  | .enableRetryBuffer, x => if x.given = [] then some { x with session := x.session.enableRetryBuffer } else none
  | .readRequestBodyBytes arriving, x =>
    match readRequestBodyBytes crates (arrive arriving x.session) with
    | (.panic _, _) => none
    | (.ok (some bytes), d') => some { x with session := d', given := x.given ++ bytes }
    | (_, d') => some { x with session := d' }

def new (s : Stream) (mem : Nat → Byte) : RetryTrace := ⟨Downstream.new s mem, [], []⟩

/-- Nothing is given before the body is begun, and the buffer says what it was given. -/
structure Sound (x : RetryTrace) : Prop where
  given : x.begun = false → x.given = []
  earlier : x.session.retryBuffer = none → x.earlier = []
  recorded : x.session.Recorded x.recorded

variable {x y : RetryTrace}

theorem recorded_begun (h : x.begun = true) : x.recorded = x.given := if_pos h

theorem recorded_waiting (h : x.begun = false) : x.recorded = x.earlier := if_neg (by simp [h])

theorem sound_new (s : Stream) (mem : Nat → Byte) : (new s mem).Sound :=
  ⟨fun _ => rfl, fun _ => rfl, fun b hb => by cases hb⟩

theorem sound_readRequest {arriving : List ReadEv} (hx : x.Sound) (h : step crates (.readRequest arriving) x = some y) :
    y.Sound := by
  obtain ⟨hgiven, hearlier, hrecorded⟩ := hx
  simp only [step] at h
  cases hread : readRequest crates (arrive arriving x.session) with
  | mk o d' =>
    have hcases := readRequest_cases crates (arrive arriving x.session)
    rw [hread] at h hcases
    rcases hcases with ⟨text, hpanic⟩ | ⟨hretry, hreader⟩
    · cases hpanic
      cases h
    · have hy : y = if headComes crates (arrive arriving x.session) then
          ⟨d', [], if x.session.retryBuffer.isSome then x.recorded else []⟩ else { x with session := d' } := by
        cases o <;> cases h <;> rfl
      cases hcomes : headComes crates (arrive arriving x.session) with
      | true =>
        rw [hcomes, if_pos rfl] at hy hreader
        have hbegun : y.begun = false := by
          rw [hy]
          show (!d'.bodyReader.isStart) = false
          rw [hreader]
          rfl
        subst hy
        refine ⟨fun _ => rfl, fun hnone => ?_, fun b hb => ?_⟩
        · rw [show x.session.retryBuffer = none from hretry.symm.trans hnone]
          rfl
        · have hb' : x.session.retryBuffer = some b := hretry.symm.trans hb
          rw [recorded_waiting hbegun]
          simp only [hb', Option.isSome_some, if_true]
          exact hrecorded b hb'
      | false =>
        rw [hcomes, if_neg (by simp)] at hy hreader
        have hbegun : y.begun = x.begun := by
          rw [hy]
          show (!d'.bodyReader.isStart) = _
          rw [hreader]
          rfl
        have hrec : y.recorded = x.recorded := by
          unfold recorded
          rw [hbegun, hy]
        refine ⟨fun hb => ?_, fun hnone => ?_, fun b hb => ?_⟩
        · rw [hbegun] at hb
          rw [hy]
          exact hgiven hb
        · rw [hy] at hnone ⊢
          exact hearlier (hretry.symm.trans hnone)
        · rw [hy] at hb
          rw [hrec]
          exact hrecorded b (hretry.symm.trans hb)

theorem sound_enableRetryBuffer (hx : x.Sound) (h : step crates .enableRetryBuffer x = some y) : y.Sound := by
  obtain ⟨hgiven, hearlier, hrecorded⟩ := hx
  simp only [step] at h
  split at h
  · rename_i hempty
    cases h
    refine ⟨hgiven, ?_, fun b hb => ?_⟩
    · intro hnone
      cases hnone
    have hb' : x.session.retryBuffer.getD (.new bodyBufLimit) = b := Option.some.inj hb
    cases hold : x.session.retryBuffer with
    | some old =>
      rw [hold] at hb'
      cases hb'
      exact hrecorded old hold
    | none =>
      rw [hold] at hb'
      have hrec : x.recorded = [] := by
        unfold recorded
        rw [hempty, hearlier hold, ite_self]
      show b.Records x.recorded
      rw [hrec, ← hb']
      exact StorageBuffer.new_records
  · cases h

/-- A buffer that is cleared as the reader is set has been given nothing of the current
    request. -/
theorem Sound.kept (hx : x.Sound) {kept : Option StorageBuffer}
    (hkept : kept = if x.session.bodyReader.isStart then x.session.retryBuffer.map .clearBuffer
      else x.session.retryBuffer) :
    (∀ b, kept = some b → b.Records x.given) ∧ (kept = none → x.session.retryBuffer = none) := by
  cases hs : x.session.bodyReader.isStart with
  | true =>
    rw [hs, if_pos rfl] at hkept
    subst hkept
    refine ⟨fun b hb => ?_, Option.map_eq_none_iff.mp⟩
    obtain ⟨old, hold, rfl⟩ := Option.map_eq_some_iff.mp hb
    rw [hx.given (by simp [begun, hs])]
    exact StorageBuffer.clearBuffer_records (hx.recorded old hold)
  | false =>
    rw [hs, if_neg (by simp)] at hkept
    subst hkept
    refine ⟨fun b hb => ?_, id⟩
    have hrec := hx.recorded b hb
    rwa [recorded_begun (by simp [begun, hs])] at hrec

theorem sound_readRequestBodyBytes {arriving : List ReadEv} (hx : x.Sound)
    (h : step crates (.readRequestBodyBytes arriving) x = some y) : y.Sound := by
  simp only [step] at h
  have hcases := readRequestBodyBytes_cases crates (arrive arriving x.session)
  cases hread : readRequestBodyBytes crates (arrive arriving x.session) with
  | mk o d' =>
    rw [hread] at h hcases
    rcases hcases with ⟨text, hpanic⟩ | ⟨hstart, kept, hkept, hrest⟩
    · cases hpanic
      cases h
    · obtain ⟨hkeeps, hnone⟩ := hx.kept hkept
      rcases hrest with ⟨bytes, ho, hretry⟩ | ⟨ho, hretry⟩
      · cases ho
        cases h
        have hbegun : begun ⟨d', x.given ++ bytes, x.earlier⟩ = true := by simpa [begun] using hstart
        refine ⟨fun hb => ?_, fun hn => ?_, fun b hb => ?_⟩
        · rw [hbegun] at hb
          cases hb
        · exact hx.earlier (hnone (Option.map_eq_none_iff.mp (hretry.symm.trans hn)))
        · obtain ⟨old, hold, rfl⟩ := Option.map_eq_some_iff.mp (hretry.symm.trans hb)
          rw [recorded_begun hbegun]
          exact StorageBuffer.writeBuffer_records (hkeeps old hold) bytes
      · have hy : y = { x with session := d' } := by
          cases o with
          | panic t => cases h
          | err e => cases h; rfl
          | pending => cases h; rfl
          | ok found =>
            cases found with
            | none => cases h; rfl
            | some bytes => exact absurd rfl (ho bytes)
        subst hy
        have hbegun : begun { x with session := d' } = true := by simpa [begun] using hstart
        refine ⟨fun hb => ?_, fun hn => ?_, fun b hb => ?_⟩
        · rw [hbegun] at hb
          cases hb
        · exact hx.earlier (hnone (hretry.symm.trans hn))
        · rw [recorded_begun hbegun]
          exact hkeeps b (hretry.symm.trans hb)

theorem step_sound {c : RetryCall} (hx : x.Sound) (h : step crates c x = some y) : y.Sound := by
  cases c with
  | readRequest arriving => exact sound_readRequest hx h
  | enableRetryBuffer => exact sound_enableRetryBuffer hx h
  | readRequestBodyBytes arriving => exact sound_readRequestBodyBytes hx h

/-- What `get_retry_buffer` answers is all that the body reads of the current request have
    returned, and within the limit. -/
def Current (x : RetryTrace) : Prop :=
  ∀ b, x.session.getRetryBuffer = some b → b = x.given ∧ b.length ≤ bodyBufLimit

/-- In any order of calls, what `get_retry_buffer` answers is current just if the body of
    the request is begun, or nothing of an earlier one is left in the buffer: it was not
    enabled, was given nothing, or too much. -/
theorem retry_buffer_current_iff (crates : Crates) (s : Stream) (mem : Nat → Byte) (calls : List RetryCall)
    (x : RetryTrace) (h : Run (step crates) (fun _ _ => True) (new s mem) calls x) :
    x.Current ↔ x.begun = true ∨ x.earlier = [] ∨ bodyBufLimit < x.earlier.length := by
  have hx : x.Sound := Run.invariant (fun _ _ _ hi _ hs => step_sound hi hs) h (sound_new s mem)
  unfold Current
  rw [getRetryBuffer_eq hx.recorded]
  cases hb : x.begun with
  | true =>
    rw [recorded_begun hb]
    refine ⟨fun _ => .inl rfl, fun _ b hget => ?_⟩
    split at hget
    · cases hget
    · rename_i hfits
      cases hget
      exact ⟨rfl, Nat.le_of_not_lt fun hlong => hfits (.inr (.inr hlong))⟩
  | false =>
    rw [recorded_waiting hb, hx.given hb]
    constructor
    · intro hcur
      apply Or.inr
      by_contra hleft
      have hsome : x.session.retryBuffer.isNone ≠ true := by
        intro hnone
        exact hleft (.inl (hx.earlier (Option.isNone_iff_eq_none.mp hnone)))
      have hget := hcur x.earlier (if_neg fun h => h.elim hsome hleft)
      exact hleft (.inl hget.1)
    · intro hleft b hget
      rcases hleft with hbad | hleft
      · cases hbad
      · rw [if_pos (.inr hleft)] at hget
        cases hget

/-! ## Two requests on one session -/

theorem readRequestBodyBytes_set {d1 : Downstream} (hset : setRequestBodyReader d = (.ok (), d1)) {o : Offset}
    {r : BodyReader} {s : Stream} {x : Bytes}
    (hr : BodyReader.readBody crates.parseChunkSize (d1.bodyReader, d1.stream) = (.ok (some o), r, s))
    (hx : r.getSlicedBody o = .ok x) :
    readRequestBodyBytes crates d = (.ok (some x), (d1.withRead (r, s)).stored x) := by
  have hbody : readRequestBody crates d = (.ok (some o), d1.withRead (r, s)) := by
    unfold readRequestBody onReader
    rw [bind_ok hset, zoom_apply, hr]
    rfl
  have hslice : readSlicedRequestBody o (d1.withRead (r, s)) = (.ok x, d1.withRead (r, s)) := by
    unfold readSlicedRequestBody
    exact congrArg (·, _) hx
  unfold readRequestBodyBytes
  rw [bind_ok hbody]
  simp only
  rw [bind_ok hslice]
  rfl

/-- A body that came whole with its head is one read. -/
theorem readRequestBodyBytes_preread (crates : Crates) {h : RequestHeader} {preread : Bytes}
    (hd : d.Ready h preread) (hup : Utils.isRequestUpgrade h = false)
    (hte : Utils.isHeaderValueChunkEncoding (h.getHeader transferEncoding) = false)
    (hlen : Utils.getContentLengthValue (h.getHeader contentLength) = some preread.length) (hne : preread ≠ [])
    (hfits : preread.length < usizeEnd) :
    ∃ d' : Downstream, readRequestBodyBytes crates d = (.ok (some preread), d') ∧ d'.stream = d.stream ∧
      d'.retryBuffer = (d.retryBuffer.map StorageBuffer.clearBuffer).map (·.writeBuffer preread) := by
  obtain ⟨n, hn⟩ := Nat.exists_eq_succ_of_ne_zero (fun h0 => hne (List.eq_nil_of_length_eq_zero h0))
  obtain ⟨buf, hb, -, hrw, hs⟩ := BodyReader.setBuffer_holds (r := d.bodyReader) (p := preread) fun h => absurd h hne
  let r : BodyReader := { d.bodyReader.setBuffer preread with readState := .partially 0 preread.length }
  have hsel : (d.selected h preread).bodyReader = r := by
    show selectReader h preread (if Utils.isRequestUpgrade h then _ else d.bodyReader) = r
    unfold selectReader
    rw [hup, hte, hlen, hn]
    simp only [r, hn]
    rfl
  have hfill : r.fill d.stream = (.ok preread.length, { r with rewindBufSize := 0 }, d.stream) := by
    rw [BodyReader.fill_rewind (r := r) hb (by show (d.bodyReader.setBuffer preread).rewindBufSize ≠ 0; omega)]
    rw [show r.rewindBufSize = preread.length from hrw]
  have hread : BodyReader.readBody crates.parseChunkSize
      ((d.selected h preread).bodyReader, (d.selected h preread).stream) = (.ok (some ⟨0, preread.length⟩),
        { r with rewindBufSize := 0, readState := .completed (0 + preread.length) }, d.stream) := by
    rw [hsel]
    show BodyReader.readPartially r d.stream = _
    unfold BodyReader.readPartially
    rw [hfill]
    simp only
    rw [BodyReader.takePartially_full rfl (by omega) (Nat.le_refl _) (by omega)]
  exact ⟨_, readRequestBodyBytes_set (setRequestBodyReader_ready hd) hread
    (BodyReader.getSlicedBody_of_get hb hs), rfl, rfl⟩

/-- A request with a body of two bytes. -/
def postTwo : Bytes × RequestParts :=
  (ascii "POST /a HTTP/1.1\r\nContent-Length: 2\r\n\r\n",
    ⟨ascii "POST", ascii "/a", 1, [⟨ascii "Content-Length", ascii "2", contentLength_token⟩]⟩)

def postTwoCrates : Crates := .ofTables [postTwo] []

/-- The head comes with the body `hi`. -/
def postHi : List ReadEv := [.data (postTwo.1 ++ ascii "hi")]

theorem readRequest_postHi {d : Downstream} (hin : d.stream.input = []) :
    ∃ d' : Downstream, readRequest postTwoCrates (arrive postHi d) = (.ok (), d') ∧
      headComes postTwoCrates (arrive postHi d) = true ∧
      d'.Ready (requestHeaderOf postTwo.2) (ascii "hi") ∧ d'.stream.input = [] ∧ d'.retryBuffer = d.retryBuffer := by
  have hinput : (arrive postHi d).stream.input = postHi := by
    show d.stream.input ++ postHi = postHi
    rw [hin]
    rfl
  have hr : readHead postTwoCrates.parseRequest [] (arrive postHi d).stream.input =
      (.ok (some (postTwo.1 ++ ascii "hi", postTwo.1.length, postTwo.2)), []) := by
    rw [hinput]
    rfl
  have hcomes : headComes postTwoCrates (arrive postHi d) = true := by
    unfold headComes
    rw [hr]
  rcases readRequest_head hr with ⟨-, -, hok⟩ | ⟨hno, -⟩
  · exact ⟨_, hok, hcomes, ⟨rfl, ⟨_, rfl, rfl⟩, rfl⟩, rfl, rfl⟩
  · exact absurd ⟨rfl, rfl⟩ hno

/-- A request, its body to a buffer, and the head of another request. -/
def postTwice : List RetryCall :=
  [.readRequest postHi, .enableRetryBuffer, .readRequestBodyBytes [], .readRequest postHi]

theorem postTwice_run :
    ∃ x, Run (step postTwoCrates) (fun _ _ => True) (new ⟨[], [], []⟩ fun _ => 0) postTwice x ∧
      x.session.getRetryBuffer = some (ascii "hi") ∧ x.given = [] := by
  obtain ⟨d1, hread1, hcomes1, hready1, hin1, hretry1⟩ :=
    @readRequest_postHi (Downstream.new ⟨[], [], []⟩ fun _ => 0) rfl
  have hready : (arrive [] d1.enableRetryBuffer).Ready (requestHeaderOf postTwo.2) (ascii "hi") :=
    ⟨hready1.head, hready1.preread, hready1.start⟩
  obtain ⟨d2, hread2, hs2, hretry2⟩ := readRequestBodyBytes_preread postTwoCrates hready (by decide) (by decide)
    (by decide) (by decide) (by decide)
  have hin2 : d2.stream.input = [] := by
    rw [hs2]
    show d1.stream.input ++ [] = []
    rw [hin1]
    rfl
  obtain ⟨d3, hread3, hcomes3, hready3, -, hretry3⟩ := readRequest_postHi hin2
  have hbuffer : d3.retryBuffer = some ⟨ascii "hi", bodyBufLimit, false⟩ := by
    rw [hretry3, hretry2]
    show ((some (d1.retryBuffer.getD (.new bodyBufLimit))).map StorageBuffer.clearBuffer).map _ = _
    rw [hretry1]
    rfl
  have hget : d3.getRetryBuffer = some (ascii "hi") := by
    unfold getRetryBuffer
    rw [hbuffer]
    rfl
  refine ⟨_, .cons trivial (?_ : step postTwoCrates _ _ = some ⟨d1, [], []⟩) <|
      .cons trivial (?_ : step postTwoCrates _ _ = some ⟨d1.enableRetryBuffer, [], []⟩) <|
      .cons trivial (?_ : step postTwoCrates _ _ = some ⟨d2, ascii "hi", []⟩) <|
      .cons trivial (?_ : step postTwoCrates _ _ = some ⟨d3, [], if (arrive postHi d2).retryBuffer.isSome then
        recorded ⟨d2, ascii "hi", []⟩ else []⟩) (.nil _), hget, rfl⟩
  · unfold step new
    simp only [hread1, hcomes1, if_true]
    rfl
  · rfl
  · unfold step
    simp only [hread2]
    rfl
  · unfold step
    simp only [hread3, hcomes3, if_true]

theorem retry_buffer_current_iff_kept :
    ∃ x, Run (step postTwoCrates) (fun _ _ => True) (new ⟨[], [], []⟩ fun _ => 0) postTwice x ∧
      (x.Current ↔ x.begun = true ∨ x.earlier = [] ∨ bodyBufLimit < x.earlier.length) := by
  obtain ⟨x, h, -⟩ := postTwice_run
  exact ⟨x, h, retry_buffer_current_iff postTwoCrates ⟨[], [], []⟩ (fun _ => 0) postTwice x h⟩

/-- After the head of a second request the buffer answers with the body of the first. -/
theorem retry_buffer_not_current :
    ∃ x, Run (step postTwoCrates) (fun _ _ => True) (new ⟨[], [], []⟩ fun _ => 0) postTwice x ∧
      x.session.getRetryBuffer = some (ascii "hi") ∧ x.given = [] ∧ ¬ x.Current := by
  obtain ⟨x, h, hget, hgiven⟩ := postTwice_run
  refine ⟨x, h, hget, hgiven, fun hcur => ?_⟩
  have hnil := (hcur _ hget).1
  rw [hgiven] at hnil
  exact absurd hnil (by decide)

end RetryTrace

end Downstream

end Glaive.Session
