/-
  Glaive.Session.ReadHead — the loop that reads a head (`core/src/session/downstream.rs`:
  `read_request`; `upstream.rs`: `read_response`). Both sessions read and parse in the
  same way until the parser is content; what they make of the head is theirs.

  The buffer of the loop is its own: it starts empty at every call, and a future
  dropped at the read takes it along. `read_buf` grows it, so the next piece of the
  script is what one read takes, whatever its length.
-/

import Glaive.Lib.SizeLine
import Glaive.Session.Reader
import Glaive.Session.Header

namespace Glaive.Session

open Glaive.Lib

def maxBufferSize : Nat := 8192

def requestLarger : IoError := .other "request larger than 8192"

/-- A head that is complete, with all the bytes read: its size, and what it parses to.
    `none` is a connection closed before any byte. -/
def readHead {α : Type} (parse : Bytes → HeadStatus α) :
    Bytes → List ReadEv → Out (Option (Bytes × Nat × α)) × List ReadEv
  | readBuffer, [] => (if maxBufferSize < readBuffer.length then .err requestLarger else .pending, [])
  | readBuffer, ev :: rest =>
    if maxBufferSize < readBuffer.length then (.err requestLarger, ev :: rest)
    else
      match ev with
      | .error e => (.err e, rest)
      | .data bs =>
        if bs = [] then (if 0 < readBuffer.length then .err connectionClosed else .ok none, rest)
        else
          match parse (readBuffer ++ bs) with
          | .complete size parts => (.ok (some (readBuffer ++ bs, size, parts)), rest)
          | .incomplete => readHead parse (readBuffer ++ bs) rest
          | .invalid text => (.err (.other text), rest)

/-- The loop over a session's socket, from its empty buffer. -/
def headLoop {α : Type} (parse : Bytes → HeadStatus α) : Async Stream (Option (Bytes × Nat × α)) := fun s =>
  let (o, rest) := Session.readHead parse [] s.input
  (o, { s with input := rest })

variable {α : Type} {parse : Bytes → HeadStatus α}

/-- How the loop goes on from a buffer and a script, with what it returns and what it
    leaves of the script. -/
inductive LoopEnds (parse : Bytes → HeadStatus α) :
    Bytes → List ReadEv → Out (Option (Bytes × Nat × α)) → List ReadEv → Prop
  | waits (readBuffer : Bytes) : LoopEnds parse readBuffer [] .pending []
  | fails (readBuffer : Bytes) (evs rest : List ReadEv) (e : IoError) : LoopEnds parse readBuffer evs (.err e) rest
  | closed (rest : List ReadEv) : LoopEnds parse [] (.data [] :: rest) (.ok none) rest
  | found {readBuffer bs : Bytes} {size : Nat} {parts : α} (rest : List ReadEv) : readBuffer.length ≤ maxBufferSize →
      bs ≠ [] → parse (readBuffer ++ bs) = .complete size parts →
      LoopEnds parse readBuffer (.data bs :: rest) (.ok (some (readBuffer ++ bs, size, parts))) rest
  | more {readBuffer bs : Bytes} {evs rest : List ReadEv} {o : Out (Option (Bytes × Nat × α))} :
      readBuffer.length ≤ maxBufferSize → bs ≠ [] → parse (readBuffer ++ bs) = .incomplete →
      LoopEnds parse (readBuffer ++ bs) evs o rest → LoopEnds parse readBuffer (.data bs :: evs) o rest

theorem readHead_ends : ∀ (evs : List ReadEv) (readBuffer : Bytes),
    LoopEnds parse readBuffer evs (readHead parse readBuffer evs).1 (readHead parse readBuffer evs).2 := by
  intro evs
  induction evs with
  | nil =>
    intro readBuffer
    unfold readHead
    split
    · exact .fails ..
    · exact .waits _
  | cons ev evs ih =>
    intro readBuffer
    unfold readHead
    split
    · exact .fails ..
    · rename_i hroom
      cases ev with
      | error e => exact .fails ..
      | data bs =>
        simp only
        split
        · rename_i hbs
          split
          · exact .fails ..
          · rename_i hlen
            rw [hbs, List.eq_nil_of_length_eq_zero (by omega : readBuffer.length = 0)]
            exact .closed _
        · rename_i hbs
          split
          · rename_i hp
            exact .found _ (Nat.le_of_not_lt hroom) hbs hp
          · rename_i hp
            exact .more (Nat.le_of_not_lt hroom) hbs hp (ih _)
          · exact .fails ..

theorem ends_of_readHead {evs rest : List ReadEv} {readBuffer : Bytes} {o : Out (Option (Bytes × Nat × α))}
    (h : readHead parse readBuffer evs = (o, rest)) : LoopEnds parse readBuffer evs o rest := by
  have hends := @readHead_ends α parse evs readBuffer
  rw [h] at hends
  exact hends

/-- A complete head parses from what was read, and no byte of the script is lost. -/
theorem readHead_some {evs rest : List ReadEv} {readBuffer buf : Bytes} {size : Nat} {parts : α}
    (h : readHead parse readBuffer evs = (.ok (some (buf, size, parts)), rest)) :
    parse buf = .complete size parts ∧ readBuffer ++ Stream.bytesOf evs = buf ++ Stream.bytesOf rest := by
  have hends := ends_of_readHead h
  clear h
  generalize ho : Out.ok (some (buf, size, parts)) = o at hends
  induction hends with
  | waits => cases ho
  | fails => cases ho
  | closed => cases ho
  | found rest _ _ hp =>
    cases ho
    exact ⟨hp, by simp [Stream.bytesOf]⟩
  | more _ _ _ _ ih =>
    obtain ⟨hp, hbytes⟩ := ih ho
    exact ⟨hp, by rw [Stream.bytesOf, ← List.append_assoc, hbytes]⟩

/-- The loop stops with a head, an end or an error, or waits. -/
theorem readHead_no_panic {text : String} {evs : List ReadEv} {readBuffer : Bytes} :
    (readHead parse readBuffer evs).1 ≠ .panic text := by
  intro h
  have hends := @readHead_ends α parse evs readBuffer
  rw [h] at hends
  generalize (readHead parse readBuffer evs).2 = rest at hends
  clear h
  generalize ho : Out.panic text = o at hends
  induction hends with
  | waits => cases ho
  | fails => cases ho
  | closed => cases ho
  | found => cases ho
  | more _ _ _ _ ih => exact ih ho

/-- A head comes to the loop: in `segs` and then `bs`, with which the parser is content
    for the first time, and before which no more than a buffer has come. -/
structure HeadComes (parse : Bytes → HeadStatus α) (readBuffer : Bytes) (evs : List ReadEv) (segs : List Bytes)
    (bs : Bytes) (size : Nat) (parts : α) (rest : List ReadEv) : Prop where
  script : evs = segs.map .data ++ .data bs :: rest
  nonempty : ∀ x ∈ segs ++ [bs], x ≠ []
  short : ∀ pre post, segs = pre ++ post → pre ≠ [] → parse (readBuffer ++ pre.flatten) = .incomplete
  room : (readBuffer ++ segs.flatten).length ≤ maxBufferSize
  complete : parse (readBuffer ++ segs.flatten ++ bs) = .complete size parts

/-- A head in one read. -/
theorem HeadComes.one {text : Bytes} {size : Nat} {parts : α} (hne : text ≠ []) (hp : parse text = .complete size parts)
    (rest : List ReadEv) : HeadComes parse [] (.data text :: rest) [] text size parts rest := by
  refine ⟨rfl, ?_, ?_, Nat.zero_le _, hp⟩
  · intro x hx
    obtain rfl := List.mem_singleton.mp hx
    exact hne
  · intro pre post hnil hpre
    exact absurd (List.append_eq_nil_iff.mp hnil.symm).1 hpre

theorem HeadComes.more {readBuffer x bs : Bytes} {evs rest : List ReadEv} {segs : List Bytes} {size : Nat} {parts : α}
    (h : HeadComes parse (readBuffer ++ x) evs segs bs size parts rest) (hx : x ≠ [])
    (hp : parse (readBuffer ++ x) = .incomplete) :
    HeadComes parse readBuffer (.data x :: evs) (x :: segs) bs size parts rest := by
  obtain ⟨rfl, hne, hshort, hroom, hc⟩ := h
  refine ⟨rfl, ?_, ?_, ?_, ?_⟩
  · intro y hy
    rcases List.mem_cons.mp hy with rfl | hy
    · exact hx
    · exact hne y hy
  · intro pre post hsegs hpre
    obtain ⟨y, pre, rfl⟩ := List.exists_cons_of_ne_nil hpre
    rw [List.cons_append, List.cons.injEq] at hsegs
    obtain ⟨rfl, rfl⟩ := hsegs
    rw [List.flatten_cons, ← List.append_assoc]
    cases pre with
    | nil => simpa using hp
    | cons z pre => exact hshort _ post rfl (List.cons_ne_nil z pre)
  · rwa [List.flatten_cons, ← List.append_assoc]
  · rwa [List.flatten_cons, ← List.append_assoc readBuffer]

/-- A head comes to a loop that ends with one. -/
theorem LoopEnds.comes {readBuffer : Bytes} {evs rest : List ReadEv} {o : Out (Option (Bytes × Nat × α))}
    (h : LoopEnds parse readBuffer evs o rest) {buf : Bytes} {size : Nat} {parts : α}
    (ho : o = .ok (some (buf, size, parts))) :
    ∃ segs bs, buf = readBuffer ++ segs.flatten ++ bs ∧ HeadComes parse readBuffer evs segs bs size parts rest := by
  induction h with
  | waits => cases ho
  | fails => cases ho
  | closed => cases ho
  | @found readBuffer bs _ _ rest hroom hbs hp =>
    cases ho
    refine ⟨[], bs, by simp, rfl, by simpa using hbs, ?_, by simpa using hroom, by simpa using hp⟩
    intro pre post hnil hpre
    exact absurd (List.append_eq_nil_iff.mp hnil.symm).1 hpre
  | @more readBuffer bs _ _ _ _ hbs hp _ ih =>
    obtain ⟨segs, bs', hbuf, hcomes⟩ := ih ho
    exact ⟨bs :: segs, bs', by rw [hbuf]; simp, hcomes.more hbs hp⟩

/-- A loop to which a head comes ends with it. -/
theorem HeadComes.ends {size : Nat} {parts : α} {bs : Bytes} {rest : List ReadEv} : ∀ {segs : List Bytes}
    {evs : List ReadEv} {readBuffer : Bytes}, HeadComes parse readBuffer evs segs bs size parts rest →
    readHead parse readBuffer evs = (.ok (some (readBuffer ++ segs.flatten ++ bs, size, parts)), rest) := by
  intro segs
  induction segs with
  | nil =>
    rintro evs readBuffer ⟨rfl, hne, -, hroom, hc⟩
    rw [List.flatten_nil, List.append_nil] at hc hroom ⊢
    have hbs : bs ≠ [] := hne bs (by simp)
    show readHead parse readBuffer (.data bs :: rest) = _
    rw [readHead, if_neg (Nat.not_lt.mpr hroom)]
    simp only [if_neg hbs, hc]
  | cons x segs ih =>
    rintro evs readBuffer ⟨rfl, hne, hshort, hroom, hc⟩
    have hx : x ≠ [] := hne x (by simp)
    have hp : parse (readBuffer ++ x) = .incomplete := by
      simpa using hshort [x] segs rfl (List.cons_ne_nil x [])
    rw [List.flatten_cons, ← List.append_assoc] at hroom hc ⊢
    have hle : readBuffer.length ≤ maxBufferSize := by
      rw [List.length_append, List.length_append] at hroom
      omega
    have hrest : readHead parse (readBuffer ++ x) (segs.map .data ++ .data bs :: rest) =
        (.ok (some (readBuffer ++ x ++ segs.flatten ++ bs, size, parts)), rest) := by
      refine ih ⟨rfl, fun y hy => hne y (List.mem_cons_of_mem _ hy), fun pre post hsegs hpre => ?_, hroom, hc⟩
      have hmore := hshort (x :: pre) post (by rw [hsegs, List.cons_append]) (List.cons_ne_nil x pre)
      rwa [List.flatten_cons, ← List.append_assoc] at hmore
    show readHead parse readBuffer (.data x :: (segs.map .data ++ .data bs :: rest)) = _
    rw [readHead, if_neg (Nat.not_lt.mpr hle)]
    simp only [if_neg hx, hp]
    exact hrest

/-- The loop ends with a head just if one comes to it. -/
theorem readHead_some_iff {buf : Bytes} {size : Nat} {parts : α} {rest : List ReadEv} {evs : List ReadEv}
    {readBuffer : Bytes} : readHead parse readBuffer evs = (.ok (some (buf, size, parts)), rest) ↔
      ∃ segs bs, buf = readBuffer ++ segs.flatten ++ bs ∧ HeadComes parse readBuffer evs segs bs size parts rest := by
  constructor
  · exact fun h => (ends_of_readHead h).comes rfl
  · rintro ⟨segs, bs, rfl, hcomes⟩
    exact hcomes.ends

/-- Closed before any byte of a head. -/
theorem readHead_none {evs rest : List ReadEv} (h : readHead parse [] evs = (.ok none, rest)) :
    evs = .data [] :: rest := by
  have key : ∀ {readBuffer : Bytes} {evs rest : List ReadEv} {o : Out (Option (Bytes × Nat × α))},
      LoopEnds parse readBuffer evs o rest → o = .ok none → readBuffer = [] ∧ evs = .data [] :: rest := by
    intro readBuffer evs rest o hends
    induction hends with
    | waits => exact fun ho => nomatch ho
    | fails => exact fun ho => nomatch ho
    | closed rest => exact fun _ => ⟨rfl, rfl⟩
    | found => exact fun ho => nomatch ho
    | more _ hbs _ _ ih => exact fun ho => absurd (List.append_eq_nil_iff.mp (ih ho).1).2 hbs
  exact (key (ends_of_readHead h) rfl).2

/-- `text` is a head: whatever follows it the parser ends there and gives `parts`, and
    short of it the parser wants more. -/
structure IsHead (parse : Bytes → HeadStatus α) (text : Bytes) (parts : α) : Prop where
  nonempty : text ≠ []
  complete : ∀ more, parse (text ++ more) = .complete text.length parts
  short : ∀ p more, text = p ++ more → more ≠ [] → parse p = .incomplete

/-- However a head and what follows it are cut, the loop ends with the piece that
    completes the head. What that piece holds past the head is read too. -/
theorem readHead_head {text : Bytes} {parts : α} (after : List ReadEv) (hh : IsHead parse text parts)
    (hmax : text.length ≤ maxBufferSize) : ∀ (segs : List Bytes) {readBuffer more tail : Bytes},
    text = readBuffer ++ more → more ≠ [] → (∀ x ∈ segs, x ≠ []) → segs.flatten = more ++ tail →
    ∃ surplus segs', readHead parse readBuffer (segs.map .data ++ after) =
        (.ok (some (text ++ surplus, text.length, parts)), segs'.map .data ++ after) ∧
      tail = surplus ++ segs'.flatten ∧ (∀ x ∈ segs', x ≠ []) ∧ (more.length ∈ cuts segs ↔ surplus = []) ∧
      (surplus = [] → ∀ k, k ∈ cuts segs' ↔ more.length + k ∈ cuts segs) := by
  intro segs
  induction segs with
  | nil =>
    intro readBuffer more tail _ hm _ hf
    exact absurd (List.append_eq_nil_iff.mp hf.symm).1 hm
  | cons x xs ih =>
    intro readBuffer more tail ht hm hne hf
    have hx := hne x (List.mem_cons_self ..)
    have hpos := List.length_pos_of_ne_nil hm
    have hlen := congrArg List.length ht
    rw [List.length_append] at hlen
    rw [List.map_cons, List.cons_append, readHead, if_neg (by omega)]
    simp only [if_neg hx]
    rw [List.flatten_cons] at hf
    -- the piece ends inside the head, or holds its end
    rcases append_split hf with ⟨more', hm', rfl, hxs⟩ | ⟨surplus, rfl, htail⟩
    · rw [← List.append_assoc] at ht
      rw [hh.short _ _ ht hm']
      obtain ⟨surplus, segs', h1, h2, h3, h4, h5⟩ := ih ht hm' (fun y hy => hne y (List.mem_cons_of_mem _ hy)) hxs
      have hcut : ∀ k, (x ++ more').length + k ∈ cuts (x :: xs) ↔ more'.length + k ∈ cuts xs := by
        intro k
        rw [mem_cuts_cons, List.length_append]
        rw [List.length_append] at hpos
        constructor
        · intro h
          rcases h with h0 | ⟨j, hj, he⟩
          · omega
          · rwa [show more'.length + k = j by omega]
        · exact fun hk => Or.inr ⟨_, hk, by omega⟩
      exact ⟨surplus, segs', h1, h2, h3, (hcut 0).trans h4, fun hs k => (h5 hs k).trans (hcut k).symm⟩
    · rw [← List.append_assoc, ← ht, hh.complete]
      refine ⟨surplus, xs, rfl, htail, fun y hy => hne y (List.mem_cons_of_mem _ hy), ?_, ?_⟩
      · rw [mem_cuts_cons, List.length_append]
        constructor
        · intro h
          rcases h with h0 | ⟨j, hj, he⟩
          · omega
          · exact List.eq_nil_of_length_eq_zero (by omega)
        · intro he
          subst he
          exact Or.inr ⟨0, zero_mem_cuts xs, rfl⟩
      · intro he k
        subst he
        rw [mem_cuts_cons, List.length_append]
        constructor
        · exact fun hk => Or.inr ⟨k, hk, rfl⟩
        · intro h
          rcases h with h0 | ⟨j, hj, he⟩
          · omega
          · rw [List.length_nil] at he
            rwa [show k = j by omega]

/-- What is past the head in the bytes read. -/
theorem offset_get {size : Nat} {buf : Bytes} (h : size ≤ buf.length) :
    (Offset.mk size buf.length).get buf = some (buf.drop size) := by
  unfold Offset.get
  rw [slice_of_le h (Nat.le_refl _), List.take_length]

/-! ## Parsers that know some heads -/

/-- A parser by a table: a text of the table at the front is that head, a strict prefix
    of one wants more. -/
def parseTable (table : List (Bytes × α)) (buf : Bytes) : HeadStatus α :=
  match table.find? fun e => e.1.isPrefixOf buf with
  | some e => .complete e.1.length e.2
  | none => if table.any fun e => buf.isPrefixOf e.1 then .incomplete else .invalid "invalid header name"

/-- A head comes from the table, and is at the front. -/
theorem parseTable_front {table : List (Bytes × α)} {buf : Bytes} {size : Nat} {parts : α}
    (h : parseTable table buf = .complete size parts) : ∃ e ∈ table, e.1 <+: buf ∧ e.1.length = size ∧ e.2 = parts := by
  unfold parseTable at h
  split at h
  · rename_i e he
    injection h with h1 h2
    exact ⟨e, List.mem_of_find?_eq_some he, List.isPrefixOf_iff_prefix.mp (List.find?_some he :), h1, h2⟩
  · split at h <;> cases h

theorem parseTable_size (table : List (Bytes × α)) (buf : Bytes) (size : Nat) (parts : α)
    (h : parseTable table buf = .complete size parts) : size ≤ buf.length := by
  obtain ⟨e, -, hfront, rfl, -⟩ := parseTable_front h
  exact hfront.length_le

theorem parseTable_mem {table : List (Bytes × α)} {buf : Bytes} {size : Nat} {parts : α}
    (h : parseTable table buf = .complete size parts) : ∃ e ∈ table, e.2 = parts := by
  obtain ⟨e, he, -, -, hparts⟩ := parseTable_front h
  exact ⟨e, he, hparts⟩

theorem parseTable_isHead (table : List (Bytes × α)) {e : Bytes × α} (he : e ∈ table) (hne : e.1 ≠ [])
    (hfree : ∀ x ∈ table, x.1.isPrefixOf e.1 = true ∨ e.1.isPrefixOf x.1 = true → x = e) :
    IsHead (parseTable table) e.1 e.2 := by
  refine ⟨hne, fun more => ?_, fun p more hp hm => ?_⟩
  · unfold parseTable
    cases hf : table.find? fun x => x.1.isPrefixOf (e.1 ++ more) with
    | none =>
      have := List.find?_eq_none.mp hf e he
      exact absurd (List.isPrefixOf_iff_prefix.mpr (List.prefix_append ..)) this
    | some x =>
      have hx : x.1.isPrefixOf (e.1 ++ more) = true := by simpa using List.find?_some hf
      rw [List.isPrefixOf_iff_prefix] at hx
      obtain rfl : x = e := by
        refine hfree x (List.mem_of_find?_eq_some hf) ?_
        rw [List.isPrefixOf_iff_prefix, List.isPrefixOf_iff_prefix]
        exact List.prefix_or_prefix_of_prefix hx (List.prefix_append ..)
      rfl
  · unfold parseTable
    have hpe : p <+: e.1 := ⟨more, hp.symm⟩
    cases hf : table.find? fun x => x.1.isPrefixOf p with
    | none =>
      have : (table.any fun x => p.isPrefixOf x.1) = true :=
        List.any_eq_true.mpr ⟨e, he, List.isPrefixOf_iff_prefix.mpr hpe⟩
      simp only [this, if_true]
    | some x =>
      have hx : x.1.isPrefixOf p = true := by simpa using List.find?_some hf
      rw [List.isPrefixOf_iff_prefix] at hx
      obtain rfl : x = e := hfree x (List.mem_of_find?_eq_some hf)
        (Or.inl (List.isPrefixOf_iff_prefix.mpr (hx.trans hpe)))
      have h1 := hx.length_le
      have h2 := congrArg List.length hp
      have h3 := List.length_pos_of_ne_nil hm
      rw [List.length_append] at h2; omega

def Crates.ofTables (requests : List (Bytes × RequestParts)) (responses : List (Bytes × ResponseParts)) : Crates where
  parseRequest := parseTable requests
  parseResponse := parseTable responses
  requestSize := parseTable_size requests
  responseSize := parseTable_size responses
  parseChunkSize := Chunked.parseSizeLine
  validMethod _ := true
  validUri _ := true
  canonicalReason _ := none
  httpDate := ascii "Thu, 01 Jan 1970 00:00:00 GMT"

end Glaive.Session
