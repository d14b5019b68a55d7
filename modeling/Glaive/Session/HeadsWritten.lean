/-
  Glaive.Session.HeadsWritten — what becomes of the heads handed to one session's
  response, in turn (`core/src/session/downstream.rs`: `write_response_headers`,
  `is_ignoring_response_headers`).

  Nothing follows a final head or an upgrade taken (`isResponseHeaderSent`). The ignore
  flag drops informational heads by the test `status != 100 && !(status == 100 &&
  expect)`, of which the second half never decides: every 100 passes, expected or not,
  and every 101 is dropped, also one that answers an upgrade. `heads_proper_iff`: these
  two are all that goes wrong.
-/

import Glaive.Session.ResponseWriting

namespace Glaive.Session.Downstream

open Glaive.Lib
open Glaive.Lib.Async

variable {crates : Crates} {req : RequestHeader} {d : Downstream}

/-! ## What is asked -/

inductive Fate where
  | dropped
  /-- On the wire, as these bytes. -/
  | written (text : Bytes)
  /-- The write failed, with part of the head on the wire. -/
  | failed
  deriving DecidableEq, Repr

/-- No head may follow it. -/
def endsHeads (req : RequestHeader) (resp : ResponseHeader) : Bool := !resp.isInformational || answersUpgrade req resp

/-- Nothing of these that is on the wire ends the heads. -/
def Open (req : RequestHeader) (l : List (ResponseHeader × Fate)) : Prop :=
  ∀ x ∈ l, x.2 ≠ .dropped → endsHeads req x.1 = false

/-- The heads on the wire are as they should be: one final head at most, nothing behind
    it or behind an upgrade taken; no answer to an upgrade dropped before that; and with
    the flag set, a 100 where it is expected, and of the others no informational one but
    a 101. -/
structure Proper (req : RequestHeader) (ignore : Bool) (l : List (ResponseHeader × Fate)) : Prop where
  single : (l.filter fun x => x.2 != .dropped && !x.1.isInformational).length ≤ 1
  last : ∀ a x b, l = a ++ x :: b → x.2 ≠ .dropped → endsHeads req x.1 = true → ∀ y ∈ b, y.2 = .dropped
  upgrade : ∀ a x b, l = a ++ x :: b → Open req a → answersUpgrade req x.1 = true → x.2 ≠ .dropped
  proceed : ignore = true → ∀ a x b, l = a ++ x :: b → Open req a → x.1.status = 100 →
    (x.2 ≠ .dropped ↔ Utils.isRequestExpectContinue req = true)
  others : ignore = true → ∀ x ∈ l, x.1.isInformational = true → x.1.status ≠ 100 → x.1.status ≠ 101 → x.2 = .dropped

/-! ## What happens -/

def ignored (ignore : Bool) (resp : ResponseHeader) : Bool := resp.isInformational && (ignore && resp.status != 100)

/-- The fates of heads in turn; `sent` when none may follow. -/
inductive Plan (req : RequestHeader) (ignore : Bool) : Bool → List (ResponseHeader × Fate) → Prop
  | nil (sent : Bool) : Plan req ignore sent []
  | dropped {sent : Bool} {h : ResponseHeader} {l : List (ResponseHeader × Fate)} : (ignored ignore h || sent) = true →
      Plan req ignore sent l → Plan req ignore sent ((h, .dropped) :: l)
  | written {h : ResponseHeader} {text : Bytes} {l : List (ResponseHeader × Fate)} : ignored ignore h = false →
      Plan req ignore (endsHeads req h) l → Plan req ignore false ((h, .written text) :: l)
  | failed {h : ResponseHeader} {l : List (ResponseHeader × Fate)} : ignored ignore h = false → l = [] →
      Plan req ignore false ((h, .failed) :: l)

variable {ignore sent : Bool} {l : List (ResponseHeader × Fate)}

theorem Plan.all_dropped (h : Plan req ignore true l) : ∀ y ∈ l, y.2 = .dropped := by
  induction l with
  | nil => exact List.forall_mem_nil _
  | cons x l ih =>
    cases h with
    | dropped _ h => exact List.forall_mem_cons.mpr ⟨rfl, ih h⟩

/-- Where the heads stand after some of them. -/
theorem Plan.split : ∀ {a : List (ResponseHeader × Fate)} {sent : Bool} {x : ResponseHeader × Fate}
    {b : List (ResponseHeader × Fate)}, Plan req ignore sent (a ++ x :: b) →
    ∃ sent', Plan req ignore sent' (x :: b) ∧ (sent' = false ↔ sent = false ∧ Open req a) := by
  intro a
  induction a with
  | nil =>
    intro sent x b h
    exact ⟨sent, h, fun hs => ⟨hs, List.forall_mem_nil _⟩, And.left⟩
  | cons y a ih =>
    intro sent x b h
    cases h with
    | dropped hd h =>
      obtain ⟨sent', h', hiff⟩ := ih h
      refine ⟨sent', h', hiff.trans (and_congr_right fun _ => ?_)⟩
      unfold Open
      rw [List.forall_mem_cons]
      exact ⟨fun ho => ⟨fun hne => absurd rfl hne, ho⟩, And.right⟩
    | @written y text _ hi h =>
      obtain ⟨sent', h', hiff⟩ := ih h
      refine ⟨sent', h', hiff.trans ?_⟩
      unfold Open
      rw [List.forall_mem_cons]
      exact ⟨fun ho => ⟨rfl, fun _ => ho.1, ho.2⟩, fun ho => ⟨ho.2.1 (by simp), ho.2.2⟩⟩
    | failed _ hnil => exact absurd hnil (by simp)

/-- A head before which none on the wire ends the heads is dropped if it is ignored, and
    only then. -/
theorem Plan.open_iff (h : Plan req ignore false l) {a b : List (ResponseHeader × Fate)} {x : ResponseHeader × Fate}
    (hl : l = a ++ x :: b) (ho : Open req a) : x.2 ≠ .dropped ↔ ignored ignore x.1 = false := by
  subst hl
  obtain ⟨sent', h', hiff⟩ := h.split
  obtain rfl : sent' = false := hiff.mpr ⟨rfl, ho⟩
  cases h' with
  | dropped hd =>
    rw [Bool.or_false] at hd
    simp [hd]
  | written hi => simp [hi]
  | failed hi => simp [hi]

theorem Plan.last (h : Plan req ignore false l) {a b : List (ResponseHeader × Fate)} {x : ResponseHeader × Fate}
    (hl : l = a ++ x :: b) (hx : x.2 ≠ .dropped) (he : endsHeads req x.1 = true) : ∀ y ∈ b, y.2 = .dropped := by
  subst hl
  obtain ⟨sent', h', -⟩ := h.split
  cases h' with
  | dropped => exact absurd rfl hx
  | written hi h' =>
    rw [show endsHeads req _ = true from he] at h'
    exact h'.all_dropped
  | failed _ hnil =>
    subst hnil
    exact List.forall_mem_nil _

theorem Plan.not_ignored : ∀ {l : List (ResponseHeader × Fate)} {sent : Bool}, Plan req ignore sent l →
    ∀ x ∈ l, x.2 ≠ .dropped → ignored ignore x.1 = false := by
  intro l
  induction l with
  | nil => exact fun _ => List.forall_mem_nil _
  | cons y l ih =>
    intro sent h
    cases h with
    | dropped _ h => exact List.forall_mem_cons.mpr ⟨fun hne => absurd rfl hne, ih h⟩
    | written hi h => exact List.forall_mem_cons.mpr ⟨fun _ => hi, ih h⟩
    | failed hi hnil =>
      subst hnil
      exact List.forall_mem_cons.mpr ⟨fun _ => hi, List.forall_mem_nil _⟩

theorem Plan.finals_le : ∀ {l : List (ResponseHeader × Fate)} {sent : Bool}, Plan req ignore sent l →
    (l.filter fun x => x.2 != .dropped && !x.1.isInformational).length ≤ if sent then 0 else 1 := by
  intro l
  induction l with
  | nil => intro sent _; exact Nat.zero_le _
  | cons y l ih =>
    intro sent h
    cases h with
    | dropped _ h =>
      rw [List.filter_cons_of_neg (by simp)]
      exact ih h
    | @written y text _ _ h =>
      cases hy : y.isInformational with
      | true =>
        rw [List.filter_cons_of_neg (by simp [hy])]
        refine (ih h).trans ?_
        split <;> simp
      | false =>
        have hend : endsHeads req y = true := by rw [endsHeads, hy]; rfl
        have hle := ih h
        rw [hend, if_pos rfl] at hle
        rw [List.filter_cons_of_pos (by simp [hy]), List.length_cons]
        simp only [Bool.false_eq_true, if_false]
        omega
    | @failed y _ _ hnil =>
      subst hnil
      refine (List.length_filter_le _ _).trans ?_
      simp

theorem answersUpgrade_status {resp : ResponseHeader} (h : answersUpgrade req resp = true) : resp.status = 101 := by
  unfold answersUpgrade Utils.isResponseUpgrade at h
  simp only [Bool.and_eq_true, beq_iff_eq] at h
  exact h.2.2

theorem isInformational_of_status {resp : ResponseHeader} (h : resp.status = 100 ∨ resp.status = 101) :
    resp.isInformational = true := by
  unfold ResponseHeader.isInformational
  rw [Bool.and_eq_true, decide_eq_true_eq, decide_eq_true_eq]
  omega

/-- With the flag set, before the first final head: no answer to an upgrade, and no 100
    that is not expected. -/
def Meets (req : RequestHeader) (heads : List ResponseHeader) : Prop :=
  ∀ a x b, heads = a ++ x :: b → (∀ y ∈ a, y.isInformational = true) →
    answersUpgrade req x = false ∧ (x.status = 100 → Utils.isRequestExpectContinue req = true)

/-- With the flag set, what ends the heads is a final one. -/
theorem Plan.open_of_informational (h : Plan req true sent l) (hl : ∀ x ∈ l, x.1.isInformational = true) : Open req l := by
  intro x hx hne
  have hi := h.not_ignored x hx hne
  rw [ignored, hl x hx, Bool.true_and, Bool.true_and, bne_eq_false_iff_eq] at hi
  rw [endsHeads, hl x hx, Bool.not_true, Bool.false_or]
  cases ha : answersUpgrade req x.1 with
  | false => rfl
  | true =>
    have := answersUpgrade_status ha
    omega

theorem Plan.informational_of_open (h : Plan req true false l) (ho : Open req l) : ∀ x ∈ l, x.1.isInformational = true := by
  intro x hx
  obtain ⟨a, b, hl⟩ := List.append_of_mem hx
  cases hinf : x.1.isInformational with
  | true => rfl
  | false =>
    have hne := (h.open_iff hl fun y hy => ho y (hl ▸ List.mem_append_left _ hy)).mpr (by rw [ignored, hinf, Bool.false_and])
    have := ho x hx hne
    rw [endsHeads, hinf] at this
    cases this

theorem Plan.front {a b : List (ResponseHeader × Fate)} : ∀ {sent : Bool}, Plan req ignore sent (a ++ b) →
    Plan req ignore sent a := by
  induction a with
  | nil => exact fun _ => .nil _
  | cons y a ih =>
    intro sent h
    cases h with
    | dropped hd h => exact .dropped hd (ih h)
    | written hi h => exact .written hi (ih h)
    | failed hi hnil => exact .failed hi (List.append_eq_nil_iff.mp hnil).1

/-- The heads are as they should be exactly when, with the flag set, those before the
    first final one are none the flag's test takes for another. -/
theorem Plan.proper_iff (h : Plan req ignore false l) : Proper req ignore l ↔ ignore = false ∨ Meets req (l.map Prod.fst) := by
  constructor
  · intro hp
    cases ignore with
    | false => exact .inl rfl
    | true =>
      refine .inr fun a x b hl hinf => ?_
      obtain ⟨a', c, rfl, rfl, hc⟩ := List.map_eq_append_iff.mp hl
      obtain ⟨y, b', rfl, rfl, rfl⟩ := List.map_eq_cons_iff.mp hc
      have ho : Open req a' := h.front.open_of_informational fun z hz => hinf _ (List.mem_map_of_mem hz)
      have hopen := h.open_iff rfl ho
      refine ⟨?_, fun h100 => ?_⟩
      · cases ha : answersUpgrade req y.1 with
        | false => rfl
        | true =>
          have hst := answersUpgrade_status ha
          have hi := hopen.mp (hp.upgrade _ _ _ rfl ho ha)
          rw [ignored, isInformational_of_status (.inr hst), hst] at hi
          cases hi
      · refine (hp.proceed rfl _ _ _ rfl ho h100).mp (hopen.mpr ?_)
        rw [ignored, h100]
        exact Bool.and_false _
  · intro hc
    refine ⟨h.finals_le, fun a x b hl => h.last hl, ?_, ?_, ?_⟩
    · intro a x b hl ho ha
      refine (h.open_iff hl ho).mpr ?_
      cases ignore with
      | false => exact Bool.and_false _
      | true =>
        subst hl
        have hm := hc.resolve_left (by simp) (a.map Prod.fst) x.1 (b.map Prod.fst) (by simp)
          (by
            intro y hy
            obtain ⟨z, hz, rfl⟩ := List.mem_map.mp hy
            exact h.front.informational_of_open ho z hz)
        rw [ha] at hm
        cases hm.1
    · intro hig a x b hl ho h100
      subst hig hl
      have hm := hc.resolve_left (by simp) (a.map Prod.fst) x.1 (b.map Prod.fst) (by simp)
        (by
          intro y hy
          obtain ⟨z, hz, rfl⟩ := List.mem_map.mp hy
          exact h.front.informational_of_open ho z hz)
      have hne : x.2 ≠ .dropped := (h.open_iff rfl ho).mpr (by rw [ignored, h100]; exact Bool.and_false _)
      exact ⟨fun _ => hm.2 h100, fun _ => hne⟩
    · intro hig x hx hinf h100 h101
      subst hig
      by_cases hd : x.2 = .dropped
      · exact hd
      · have hi := h.not_ignored x hx hd
        rw [ignored, hinf, Bool.true_and, Bool.true_and, bne_eq_false_iff_eq] at hi
        exact absurd hi h100

/-! ## The calls -/

/-- `write_response_headers` with each head in turn, until one of the calls fails. -/
def fates (crates : Crates) : List ResponseHeader → Downstream → List (ResponseHeader × Fate) × Downstream
  | [], d => ([], d)
  | h :: hs, d =>
    match writeResponseHeaders crates h d with
    | (.ok (), d') =>
      let text := d'.stream.output.drop d.stream.output.length
      let (l, d'') := fates crates hs d'
      ((h, if text.isEmpty then .dropped else .written text) :: l, d'')
    | (_, d') => ([(h, .failed)], d')

theorem fates_cons_ok {h : ResponseHeader} {hs : List ResponseHeader} {d' : Downstream} {text : Bytes}
    (hw : writeResponseHeaders crates h d = (.ok (), d')) (ho : d'.stream.output = d.stream.output ++ text) :
    fates crates (h :: hs) d =
      ((h, if text.isEmpty then .dropped else .written text) :: (fates crates hs d').1, (fates crates hs d').2) := by
  rw [fates, hw]
  simp only [ho, List.drop_left]

theorem fates_cons_err {h : ResponseHeader} {hs : List ResponseHeader} {d' : Downstream} {e : IoError}
    (hw : writeResponseHeaders crates h d = (.err e, d')) : fates crates (h :: hs) d = ([(h, .failed)], d') := by
  rw [fates, hw]

/-- The bytes of the heads written. -/
def wire (l : List (ResponseHeader × Fate)) : Bytes :=
  l.flatMap fun x => match x.2 with
    | .written text => text
    | _ => []

/-- The heads handed over, and the wire with those written. -/
structure Shown (crates : Crates) (heads : List ResponseHeader) (d d' : Downstream)
    (l : List (ResponseHeader × Fate)) : Prop where
  handed : l.map Prod.fst <+: heads
  all : (∀ x ∈ l, x.2 ≠ .failed) → l.map Prod.fst = heads
  texts : ∀ h text, (h, .written text) ∈ l →
    ∃ d1 : Downstream, (d1.updated crates h).buildToBuffer crates = some text
  wire : ∃ part, d'.stream.output = d.stream.output ++ wire l ++ part ∧ ((∀ x ∈ l, x.2 ≠ .failed) → part = [])

/-- What holds of a session between heads. -/
structure Between (req : RequestHeader) (ignore : Bool) (d : Downstream) : Prop where
  request : d.requestHeader = some req
  flag : d.ignoreResponseHeaders = ignore
  upgrade : d.isResponseHeaderSent = false → d.upgrade = false

theorem prepared_keeps (crates : Crates) (d : Downstream) (req : RequestHeader) (resp : ResponseHeader) :
    (d.prepared crates req resp).requestHeader = d.requestHeader ∧
      (d.prepared crates req resp).ignoreResponseHeaders = d.ignoreResponseHeaders ∧
      (d.prepared crates req resp).stream = d.stream ∧
      (d.prepared crates req resp).upgrade = (d.upgrade || answersUpgrade req resp) := by
  have hno : ¬ (resp.status = 101 ∨ resp.isInformational = false) → answersUpgrade req resp = false := by
    intro h
    cases ha : answersUpgrade req resp with
    | false => rfl
    | true => exact absurd (.inl (answersUpgrade_status ha)) h
  unfold prepared
  by_cases hc : resp.status = 101 ∨ resp.isInformational = false
  · rw [if_pos hc]
    cases answersUpgrade req resp <;> by_cases h101 : resp.status = 101 <;> simp [h101]
  · rw [if_neg hc, hno hc]
    by_cases h101 : resp.status = 101 <;> simp [h101]

theorem raw_ne_nil (v : Version) : v.raw ≠ [] := by
  cases v <;> decide

theorem buildToBuffer_ne_nil {resp : ResponseHeader} {text : Bytes} (h : resp.buildToBuffer crates = some text) :
    text ≠ [] := by
  unfold ResponseHeader.buildToBuffer at h
  obtain ⟨ls, -, rfl⟩ := Option.map_eq_some_iff.mp h
  simp [raw_ne_nil]

/-- One call, of a head that is not dropped. -/
theorem Between.call (crates : Crates) (hb : Between req ignore d) (resp : ResponseHeader) (hd : d.headDropped resp = false) :
    ∃ text, (d.updated crates resp).buildToBuffer crates = some text ∧
      ((∃ d', writeResponseHeaders crates resp d = (.ok (), d') ∧ Between req ignore d' ∧
          d'.stream.output = d.stream.output ++ text ∧ d'.isResponseHeaderSent = endsHeads req resp) ∨
        ∃ e d' k, writeResponseHeaders crates resp d = (.err e, d') ∧
          d'.stream.output = d.stream.output ++ text.take k) := by
  obtain ⟨text, htext⟩ := Option.isSome_iff_exists.mp ((d.updated crates resp).buildToBuffer_isSome crates)
  refine ⟨text, htext, ?_⟩
  obtain ⟨hreq, hflag, hstream, hup⟩ := prepared_keeps crates d req resp
  have hnot : d.upgrade = false := hb.upgrade (by
    unfold headDropped at hd
    exact (Bool.or_eq_false_iff.mp hd).2)
  rw [hnot, Bool.false_or] at hup
  rw [writeResponseHeaders_prepared hb.request hd]
  unfold sendHeaders
  rw [htext]
  simp only [hstream]
  have hsent : ∀ s : Stream, isResponseHeaderSent { d.prepared crates req resp with
      stream := s, responseHeader := some (d.updated crates resp) } = endsHeads req resp := by
    intro s
    simp only [isResponseHeaderSent, updated_isInformational, hup]
    rfl
  have hnext : ∀ s : Stream, Between req ignore { d.prepared crates req resp with
      stream := s, responseHeader := some (d.updated crates resp) } := by
    intro s
    refine ⟨hreq.trans hb.request, hflag.trans hb.flag, fun he => ?_⟩
    rw [hsent, endsHeads, Bool.or_eq_false_iff] at he
    exact hup.trans he.2
  rcases d.stream.writeAll_cases text with ⟨s', hw, hout⟩ | ⟨k, s', hw, hout⟩
  · rw [hw]
    exact .inl ⟨_, rfl, hnext s', hout, hsent s'⟩
  · rw [hw]
    exact .inr ⟨_, _, k, rfl, hout⟩

theorem headDropped_eq (hb : Between req ignore d) (resp : ResponseHeader) :
    d.headDropped resp = (ignored ignore resp || d.isResponseHeaderSent) := by
  rw [headDropped, ignored, hb.flag]

theorem fates_shown (crates : Crates) : ∀ (heads : List ResponseHeader) {d : Downstream}, Between req ignore d →
    Plan req ignore d.isResponseHeaderSent (fates crates heads d).1 ∧
      Shown crates heads d (fates crates heads d).2 (fates crates heads d).1 := by
  intro heads
  induction heads with
  | nil =>
    intro d _
    refine ⟨.nil _, List.nil_prefix, fun _ => rfl, ?_, [], ?_, fun _ => rfl⟩
    · intro h text hm
      cases hm
    · simp [fates, wire]
  | cons h hs ih =>
    intro d hb
    cases hd : d.headDropped h with
    | true =>
      obtain ⟨hplan, hshown⟩ := ih hb
      rw [fates_cons_ok (writeResponseHeaders_dropped hd) (List.append_nil _).symm]
      rw [headDropped_eq hb] at hd
      refine ⟨.dropped hd hplan, ?_, ?_, ?_, ?_⟩
      · exact List.prefix_cons_inj h |>.mpr hshown.handed
      · intro hall
        exact congrArg (h :: ·) (hshown.all (List.forall_mem_cons.mp hall).2)
      · intro h' text hm
        rcases List.mem_cons.mp hm with hm | hm
        · cases hm
        · exact hshown.texts h' text hm
      · obtain ⟨part, hw, hp⟩ := hshown.wire
        exact ⟨part, hw, fun hall => hp (List.forall_mem_cons.mp hall).2⟩
    | false =>
      have hparts := Bool.or_eq_false_iff.mp (headDropped_eq hb h ▸ hd)
      rw [hparts.2]
      obtain ⟨text, htext, ⟨d', hcall, hb', hout, hsent⟩ | ⟨e, d', k, hcall, hout⟩⟩ := hb.call crates h hd
      · obtain ⟨hplan, hshown⟩ := ih hb'
        rw [hsent] at hplan
        rw [fates_cons_ok hcall hout, List.isEmpty_eq_false_iff.mpr (buildToBuffer_ne_nil htext), if_neg Bool.false_ne_true]
        refine ⟨.written hparts.1 hplan, ?_, ?_, ?_, ?_⟩
        · exact List.prefix_cons_inj h |>.mpr hshown.handed
        · intro hall
          exact congrArg (h :: ·) (hshown.all (List.forall_mem_cons.mp hall).2)
        · intro h' text' hm
          rcases List.mem_cons.mp hm with hm | hm
          · cases hm
            exact ⟨d, htext⟩
          · exact hshown.texts h' text' hm
        · obtain ⟨part, hw, hp⟩ := hshown.wire
          refine ⟨part, ?_, fun hall => hp (List.forall_mem_cons.mp hall).2⟩
          rw [hw, hout]
          simp only [wire, List.flatMap_cons, List.append_assoc]
      · rw [fates_cons_err hcall]
        have hno : ¬ ∀ x ∈ [(h, Fate.failed)], x.2 ≠ .failed := fun hall => hall _ (List.mem_singleton.mpr rfl) rfl
        refine ⟨.failed hparts.1 rfl, ?_, fun hall => absurd hall hno, ?_, text.take k, ?_, fun hall => absurd hall hno⟩
        · exact List.prefix_cons_inj h |>.mpr List.nil_prefix
        · intro h' text' hm
          rw [List.mem_singleton] at hm
          cases hm
        · rw [hout]
          simp [wire]

/-- Of the heads of a response, handed over until a call fails, those written are on the
    wire in turn; and they are as they should be exactly when the flag is not set, or
    none of them before the first final one answers an upgrade or is a 100 that is not
    expected. -/
theorem heads_proper_iff (crates : Crates) (heads : List ResponseHeader) (hreq : d.requestHeader = some req)
    (hnone : d.responseHeader = none) (hup : d.upgrade = false) :
    Shown crates heads d (fates crates heads d).2 (fates crates heads d).1 ∧
      (Proper req d.ignoreResponseHeaders (fates crates heads d).1 ↔
        d.ignoreResponseHeaders = false ∨ Meets req ((fates crates heads d).1.map Prod.fst)) := by
  obtain ⟨hplan, hshown⟩ := fates_shown crates heads ⟨hreq, rfl, fun _ => hup⟩
  have hsent : d.isResponseHeaderSent = false := by rw [isResponseHeaderSent, hnone]
  rw [hsent] at hplan
  exact ⟨hshown, hplan.proper_iff⟩

/-! ## An upgrade's answer under the flag -/

def tunnelHead : RequestHeader :=
  ⟨ascii "GET", ascii "/", .http11, Fields.empty.appendHeader (ascii "Upgrade") (ascii "websocket")⟩

def switchingHead : ResponseHeader := ⟨101, .http11, none, .empty⟩

/-- A session that has read an upgrade request, and ignores informational heads. -/
def tunnelSession : Downstream :=
  { Downstream.new ⟨[], [], []⟩ (fun _ => 0) with requestHeader := some tunnelHead, ignoreResponseHeaders := true }

/-- The answer to the upgrade is dropped. -/
theorem upgrade_answer_dropped : ¬ ∀ (crates : Crates) (req : RequestHeader) (d : Downstream)
    (heads : List ResponseHeader), d.requestHeader = some req → d.responseHeader = none → d.upgrade = false →
    Proper req d.ignoreResponseHeaders (fates crates heads d).1 := by
  intro h
  have hp := h (.ofTables [] []) tunnelHead tunnelSession [switchingHead] rfl rfl rfl
  have hf : (fates (.ofTables [] []) [switchingHead] tunnelSession).1 = [(switchingHead, .dropped)] := by
    unfold fates
    rw [writeResponseHeaders_dropped (by decide)]
    rfl
  rw [hf] at hp
  exact hp.upgrade [] _ [] rfl (List.forall_mem_nil _) (by decide) rfl

/-- A head that is neither, and a final one. -/
theorem heads_proper_final :
    Shown (.ofTables [] []) [⟨103, .http11, none, .empty⟩, ⟨200, .http11, none, .empty⟩] tunnelSession
        (fates (.ofTables [] []) [⟨103, .http11, none, .empty⟩, ⟨200, .http11, none, .empty⟩] tunnelSession).2
        (fates (.ofTables [] []) [⟨103, .http11, none, .empty⟩, ⟨200, .http11, none, .empty⟩] tunnelSession).1 ∧
      (Proper tunnelHead true
          (fates (.ofTables [] []) [⟨103, .http11, none, .empty⟩, ⟨200, .http11, none, .empty⟩] tunnelSession).1 ↔
        true = false ∨ Meets tunnelHead ((fates (.ofTables [] [])
          [⟨103, .http11, none, .empty⟩, ⟨200, .http11, none, .empty⟩] tunnelSession).1.map Prod.fst)) :=
  @heads_proper_iff tunnelHead tunnelSession (.ofTables [] [])
    [⟨103, .http11, none, .empty⟩, ⟨200, .http11, none, .empty⟩] rfl rfl rfl

end Glaive.Session.Downstream
