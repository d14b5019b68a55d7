/-
  Glaive.Proxy.HeaderFilters — the headers the gateway puts into and takes out of what it
  forwards (`glaive/src/proxy.rs`: `upstream_request_filter`, `response_filter`;
  `glaive/src/def.rs`: `Headers`).

  The parsers of `http` for names and values are a parameter, `HttpCrate`. Both filters
  unwrap them, and neither the configuration nor the builder checks the texts: a request
  of a cluster with a text that is no name panics.

  Proved: an insertion appends, so what the other side sent under the name stays, and
  stays first; only `Server` and the names of the cache are written over
  (`header_filters`).
-/

import Glaive.Proxy.Request

namespace Glaive.Proxy

open Glaive.Lib

/-! ## Configuration -/

structure InsertHeader where
  key : Text
  value : Text

structure RemoveHeader where
  key : Text

structure Headers where
  insert : Option (List InsertHeader)
  remove : Option (List RemoveHeader)

namespace Def

structure Request where
  headers : Option Headers

structure Response where
  headers : Option Headers

end Def

/-- What `http` says of texts. -/
structure HttpCrate where
  /-- `HeaderName::from_str`. -/
  nameFromStr : Text → Option Text
  /-- `HeaderValue::from_str`. -/
  valueFromStr : Text → Option Bytes

/-! ## The filters -/

/-- `replace(' ', "-")`. -/
def dashed (key : Text) : Text := key.map fun c => if c = ' ' then '-' else c

def unwrapResult {σ α : Type} (o : Option α) : Async σ α :=
  match o with
  | some a => pure a
  | none => Async.stop (.panic "called `Result::unwrap()` on an `Err` value")

def insertHeaders (http : HttpCrate) : List InsertHeader → Async (HeaderMap Text Bytes) Unit
  | [] => pure ()
  | insertion :: rest => do
    let headerKey ← unwrapResult (http.nameFromStr (dashed insertion.key))
    let headerValue ← unwrapResult (http.valueFromStr insertion.value)
    Async.modify fun m => m.append headerKey headerValue
    insertHeaders http rest

/-- A text that is no name takes nothing out. -/
def removeHeader (http : HttpCrate) (m : HeaderMap Text Bytes) (key : Text) : HeaderMap Text Bytes :=
  match http.nameFromStr key with
  | some headerKey => m.remove headerKey
  | none => m

def removeHeaders (http : HttpCrate) (deletions : List RemoveHeader) (m : HeaderMap Text Bytes) : HeaderMap Text Bytes :=
  deletions.foldl (fun m deletion => removeHeader http m (dashed deletion.key)) m

/-- The block both filters have. -/
def editHeaders (http : HttpCrate) : Option Headers → Async (HeaderMap Text Bytes) Unit
  | none => pure ()
  | some headers => do
    match headers.insert with
    | some insert => insertHeaders http insert
    | none => pure ()
    match headers.remove with
    | some remove => Async.modify (removeHeaders http remove)
    | none => pure ()

/-- `request` is that of the cluster the request goes to. -/
def upstreamRequestFilter (http : HttpCrate) (request : Option Def.Request) : Async (HeaderMap Text Bytes) Unit :=
  editHeaders http (request.bind Def.Request.headers)

/-- `CachePhase`; `disabled`: whether that is deferred. -/
inductive CachePhase where
  | disabled (deferred : Bool)
  | hit
  | miss
  | stale
  | expired
  | revalidated
  | revalidatedNoCache
  | other
  deriving DecidableEq, Repr

/-- What `session.cache` says. -/
structure CacheState where
  enabled : Bool
  phase : CachePhase
  /-- In milliseconds. -/
  lockDuration : Option Nat

def CacheState.status (cache : CacheState) : String :=
  if cache.enabled then
    match cache.phase with
    | .hit => "hit"
    | .miss => "miss"
    | .stale => "stale"
    | .expired => "expired"
    | .revalidated | .revalidatedNoCache => "revalidated"
    | _ => "invalid"
  else
    match cache.phase with
    | .disabled true => "deferred"
    | _ => "no-cache"

def headerValue (s : String) : Bytes := s.toList.map fun c => UInt8.ofNat c.toNat

/-- `response` is that of the cluster the request went to. -/
def responseFilter (http : HttpCrate) (response : Option Def.Response) (cache : CacheState) :
    Async (HeaderMap Text Bytes) Unit := do
  editHeaders http (response.bind Def.Response.headers)
  Async.modify fun m => m.insert (headerName "Server") (headerValue "Glaive Gateway")
  Async.modify fun m => m.insert (headerName "x-cache-status") (headerValue cache.status)
  match cache.lockDuration with
  | some d => Async.modify fun m => m.insert (headerName "x-cache-lock-time-ms") (headerValue (toString d))
  | none => pure ()

/-! ## What an edit does to each name -/

variable {http : HttpCrate}

/-- Name and value of an insertion are such. -/
def InsertHeader.Valid (http : HttpCrate) (insertion : InsertHeader) : Prop :=
  (http.nameFromStr (dashed insertion.key)).isSome ∧ (http.valueFromStr insertion.value).isSome

/-- What is inserted under `name`, in order. -/
def insertedUnder (http : HttpCrate) (name : Text) (insertions : List InsertHeader) : List Bytes :=
  (insertions.filter fun i => http.nameFromStr (dashed i.key) = some name).filterMap fun i => http.valueFromStr i.value

def removedName (http : HttpCrate) (name : Text) (deletions : List RemoveHeader) : Bool :=
  deletions.any fun d => http.nameFromStr (dashed d.key) = some name

theorem insertHeaders_ok : ∀ {insertions : List InsertHeader} (m : HeaderMap Text Bytes),
    (∀ i ∈ insertions, i.Valid http) → ∃ m', insertHeaders http insertions m = (.ok (), m') ∧
      ∀ name, m'.getAll name = m.getAll name ++ insertedUnder http name insertions := by
  intro insertions
  induction insertions with
  | nil => exact fun m _ => ⟨m, rfl, fun name => (List.append_nil _).symm⟩
  | cons i insertions ih =>
    intro m hv
    obtain ⟨hi, hrest⟩ := List.forall_mem_cons.mp hv
    obtain ⟨k, hk⟩ := Option.isSome_iff_exists.mp hi.1
    obtain ⟨v, hval⟩ := Option.isSome_iff_exists.mp hi.2
    obtain ⟨m', hm', hall⟩ := ih (m.append k v) hrest
    refine ⟨m', ?_, fun name => ?_⟩
    · unfold insertHeaders
      rw [hk, hval]
      exact hm'
    · rw [hall]
      unfold insertedUnder
      by_cases hn : name = k
      · subst hn
        rw [HeaderMap.getAll_append_self, List.filter_cons_of_pos (by simpa using hk), List.filterMap_cons, hval,
          List.append_assoc, List.singleton_append]
      · have hne : ¬ http.nameFromStr (dashed i.key) = some name := by
          rw [hk]
          exact fun h => hn (Option.some.inj h).symm
        rw [HeaderMap.getAll_append_ne m hn, List.filter_cons_of_neg (by simpa using hne)]

theorem insertHeaders_invalid : ∀ {insertions : List InsertHeader} (m : HeaderMap Text Bytes),
    (∃ i ∈ insertions, ¬ i.Valid http) →
    (insertHeaders http insertions m).1 = .panic "called `Result::unwrap()` on an `Err` value" := by
  intro insertions
  induction insertions with
  | nil =>
    intro m h
    obtain ⟨i, hi, -⟩ := h
    cases hi
  | cons i insertions ih =>
    intro m h
    unfold insertHeaders
    cases hk : http.nameFromStr (dashed i.key) with
    | none => rfl
    | some k =>
      cases hval : http.valueFromStr i.value with
      | none => rfl
      | some v =>
        refine ih (m.append k v) ?_
        obtain ⟨j, hj, hbad⟩ := h
        rcases List.mem_cons.mp hj with rfl | hj
        · exact absurd ⟨by rw [hk]; rfl, by rw [hval]; rfl⟩ hbad
        · exact ⟨j, hj, hbad⟩

theorem removeHeaders_getAll (name : Text) : ∀ (deletions : List RemoveHeader) (m : HeaderMap Text Bytes),
    (removeHeaders http deletions m).getAll name = if removedName http name deletions then [] else m.getAll name := by
  intro deletions
  induction deletions with
  | nil => exact fun m => rfl
  | cons d deletions ih =>
    intro m
    rw [removeHeaders, List.foldl_cons]
    refine (ih _).trans ?_
    have hcons : removedName http name (d :: deletions) =
        (decide (http.nameFromStr (dashed d.key) = some name) || removedName http name deletions) := List.any_cons
    rw [hcons]
    by_cases hrest : removedName http name deletions = true
    · rw [if_pos hrest, hrest, Bool.or_true, if_pos rfl]
    · rw [if_neg hrest]
      rw [Bool.not_eq_true] at hrest
      rw [hrest, Bool.or_false]
      unfold removeHeader
      cases hk : http.nameFromStr (dashed d.key) with
      | none => rw [if_neg (by simp)]
      | some k =>
        simp only
        rw [HeaderMap.getAll_remove]
        by_cases hn : name = k
        · rw [if_pos hn, if_pos (by simp [hn])]
        · rw [if_neg hn, if_neg (by simp [Ne.symm hn])]

def Headers.insertions (headers : Option Headers) : List InsertHeader := (headers.bind Headers.insert).getD []

def Headers.deletions (headers : Option Headers) : List RemoveHeader := (headers.bind Headers.remove).getD []

theorem editHeaders_eq (http : HttpCrate) (headers : Option Headers) (m : HeaderMap Text Bytes) :
    editHeaders http headers m = (do
      insertHeaders http (Headers.insertions headers)
      Async.modify (removeHeaders http (Headers.deletions headers)) : Async (HeaderMap Text Bytes) Unit) m := by
  cases headers with
  | none => rfl
  | some headers =>
    obtain ⟨insert, remove⟩ := headers
    cases insert with
    | none => cases remove <;> rfl
    | some insert =>
      cases remove with
      | some remove => rfl
      | none =>
        show (insertHeaders http insert >>= fun _ => pure ()) m =
          (insertHeaders http insert >>= fun _ => Async.modify (removeHeaders http [])) m
        rw [Async.bind_apply, Async.bind_apply]
        rfl

/-- The values of a name after an edit: none where it is taken out, else those it had and
    then those inserted. -/
def edited (http : HttpCrate) (headers : Option Headers) (m : HeaderMap Text Bytes) (name : Text) : List Bytes :=
  if removedName http name (Headers.deletions headers) then []
  else m.getAll name ++ insertedUnder http name (Headers.insertions headers)

/-- An edit panics just where a text it inserts is no name or no value. -/
theorem editHeaders_spec (http : HttpCrate) (headers : Option Headers) (m : HeaderMap Text Bytes) :
    (∃ m', editHeaders http headers m = (.ok (), m') ∧ (∀ i ∈ Headers.insertions headers, i.Valid http) ∧
        ∀ name, m'.getAll name = edited http headers m name) ∨
      ((editHeaders http headers m).1 = .panic "called `Result::unwrap()` on an `Err` value" ∧
        ∃ i ∈ Headers.insertions headers, ¬ i.Valid http) := by
  rw [editHeaders_eq]
  by_cases hv : ∀ i ∈ Headers.insertions headers, i.Valid http
  · obtain ⟨m1, h1, hall⟩ := insertHeaders_ok m hv
    refine .inl ⟨removeHeaders http (Headers.deletions headers) m1, by rw [Async.bind_ok h1]; rfl, hv, fun name => ?_⟩
    rw [removeHeaders_getAll, hall]
    rfl
  · have hbad : ∃ i ∈ Headers.insertions headers, ¬ i.Valid http := by
      simpa only [not_forall, exists_prop] using hv
    refine .inr ⟨?_, hbad⟩
    have hpanic := insertHeaders_invalid m hbad
    rw [Async.bind_apply]
    rcases h1 : insertHeaders http (Headers.insertions headers) m with ⟨o, m1⟩
    rw [h1] at hpanic
    cases hpanic
    rfl

theorem editHeaders_ok_iff (http : HttpCrate) (headers : Option Headers) (m : HeaderMap Text Bytes) :
    (editHeaders http headers m).1 = .ok () ↔ ∀ i ∈ Headers.insertions headers, i.Valid http := by
  rcases editHeaders_spec http headers m with ⟨m', h, hv, -⟩ | ⟨hpanic, i, hi, hbad⟩
  · rw [h]
    exact ⟨fun _ => hv, fun _ => rfl⟩
  · rw [hpanic]
    exact ⟨nofun, fun hv => absurd (hv i hi) hbad⟩

theorem editHeaders_panic_iff (http : HttpCrate) (headers : Option Headers) (m : HeaderMap Text Bytes) :
    (editHeaders http headers m).1 = .panic "called `Result::unwrap()` on an `Err` value" ↔
      ∃ i ∈ Headers.insertions headers, ¬ i.Valid http := by
  rcases editHeaders_spec http headers m with ⟨m', h, hv, -⟩ | ⟨hpanic, hbad⟩
  · rw [h]
    refine ⟨fun he => ?_, fun hbad => ?_⟩
    · cases he
    · obtain ⟨i, hi, hbad⟩ := hbad
      exact absurd (hv i hi) hbad
  · exact ⟨fun _ => hbad, fun _ => hpanic⟩

theorem editHeaders_getAll {headers : Option Headers} {m m' : HeaderMap Text Bytes}
    (h : editHeaders http headers m = (.ok (), m')) (name : Text) : m'.getAll name = edited http headers m name := by
  rcases editHeaders_spec http headers m with ⟨m1, h1, -, hall⟩ | ⟨hpanic, -⟩
  · cases h.symm.trans h1
    exact hall name
  · rw [h] at hpanic
    cases hpanic

/-- What `response_filter` does after the edit does not fail. -/
theorem responseFilter_fst (http : HttpCrate) (response : Option Def.Response) (cache : CacheState)
    (m : HeaderMap Text Bytes) : (responseFilter http response cache m).1 =
      (editHeaders http (response.bind Def.Response.headers) m).1 := by
  unfold responseFilter
  rw [Async.bind_apply]
  rcases editHeaders http (response.bind Def.Response.headers) m with ⟨o, m1⟩
  cases o with
  | ok _ =>
    simp only [Async.modify_bind_apply]
    cases cache.lockDuration with
    | none => rfl
    | some d => rfl
  | err e => rfl
  | pending => rfl
  | panic text => rfl

/-! ## What leaves the gateway -/

/-- A response has under each name what the server sent and then what is configured, but
    `Server` and the names of the cache are the gateway's own. -/
structure ResponseEdited (http : HttpCrate) (headers : Option Headers) (cache : CacheState)
    (before after : HeaderMap Text Bytes) : Prop where
  server : after.getAll (headerName "Server") = [headerValue "Glaive Gateway"]
  status : after.getAll (headerName "x-cache-status") = [headerValue cache.status]
  lockTime : ∀ d, cache.lockDuration = some d →
    after.getAll (headerName "x-cache-lock-time-ms") = [headerValue (toString d)]
  others : ∀ name, name ≠ headerName "Server" → name ≠ headerName "x-cache-status" →
    (cache.lockDuration = none ∨ name ≠ headerName "x-cache-lock-time-ms") →
    after.getAll name = edited http headers before name

theorem responseFilter_edited {response : Option Def.Response} {cache : CacheState} {m m' : HeaderMap Text Bytes}
    (h : responseFilter http response cache m = (.ok (), m')) :
    ResponseEdited http (response.bind Def.Response.headers) cache m m' := by
  obtain ⟨_, m1, h1, h2⟩ := Async.of_bind_ok h
  rw [Async.modify_bind_apply, Async.modify_bind_apply] at h2
  have hedit := editHeaders_getAll h1
  have hss : headerName "Server" ≠ headerName "x-cache-status" := by decide
  have hsl : headerName "Server" ≠ headerName "x-cache-lock-time-ms" := by decide
  have hcl : headerName "x-cache-status" ≠ headerName "x-cache-lock-time-ms" := by decide
  cases hd : cache.lockDuration with
  | none =>
    rw [hd] at h2
    cases h2
    refine ⟨?_, HeaderMap.getAll_insert_self .., by simp [hd], fun name h1 h2 _ => ?_⟩
    · rw [HeaderMap.getAll_insert_ne _ hss, HeaderMap.getAll_insert_self]
    · rw [HeaderMap.getAll_insert_ne _ h2, HeaderMap.getAll_insert_ne _ h1, hedit]
  | some d =>
    rw [hd] at h2
    cases h2
    refine ⟨?_, ?_, fun d' hd' => ?_, fun name h1 h2 h3 => ?_⟩
    · rw [HeaderMap.getAll_insert_ne _ hsl, HeaderMap.getAll_insert_ne _ hss, HeaderMap.getAll_insert_self]
    · rw [HeaderMap.getAll_insert_ne _ hcl, HeaderMap.getAll_insert_self]
    · cases hd.symm.trans hd'
      exact HeaderMap.getAll_insert_self ..
    · rw [hd] at h3
      rw [HeaderMap.getAll_insert_ne _ (h3.resolve_left (by simp)), HeaderMap.getAll_insert_ne _ h2,
        HeaderMap.getAll_insert_ne _ h1, hedit]

/-- Every request that is forwarded, and every response. A request has under each name what
    the client sent and then what is configured, or nothing where the name is taken out. A
    response has so too, but for the gateway's own names, whatever the server sent and the
    configuration inserts. A filter returns just where the texts it inserts are names and
    values, and panics just where one is not. -/
theorem header_filters (http : HttpCrate) (request : Option Def.Request) (response : Option Def.Response)
    (cache : CacheState) (m : HeaderMap Text Bytes) :
    (((upstreamRequestFilter http request m).1 = .ok () ↔
          ∀ i ∈ Headers.insertions (request.bind Def.Request.headers), i.Valid http) ∧
        ((upstreamRequestFilter http request m).1 = .panic "called `Result::unwrap()` on an `Err` value" ↔
          ∃ i ∈ Headers.insertions (request.bind Def.Request.headers), ¬ i.Valid http)) ∧
      (((responseFilter http response cache m).1 = .ok () ↔
          ∀ i ∈ Headers.insertions (response.bind Def.Response.headers), i.Valid http) ∧
        ((responseFilter http response cache m).1 = .panic "called `Result::unwrap()` on an `Err` value" ↔
          ∃ i ∈ Headers.insertions (response.bind Def.Response.headers), ¬ i.Valid http)) ∧
      (∀ m', upstreamRequestFilter http request m = (.ok (), m') →
        ∀ name, m'.getAll name = edited http (request.bind Def.Request.headers) m name) ∧
      ∀ m', responseFilter http response cache m = (.ok (), m') →
        ResponseEdited http (response.bind Def.Response.headers) cache m m' := by
  refine ⟨⟨?_, ?_⟩, ⟨?_, ?_⟩, fun m' h => ?_, fun m' h => responseFilter_edited h⟩
  · exact editHeaders_ok_iff http _ m
  · exact editHeaders_panic_iff http _ m
  · rw [responseFilter_fst, editHeaders_ok_iff]
  · rw [responseFilter_fst, editHeaders_panic_iff]
  · exact editHeaders_getAll h

end Glaive.Proxy
