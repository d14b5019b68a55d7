/-
  Glaive.Proxy.Path — the path a request is forwarded with (`glaive/src/path.rs`:
  `select_cluster`, as `request_filter` calls it).

  The router is chosen by the first segment `/b` of the path, and the first place where
  the text `/b` is found is that segment (`removeFirst_leads`): before it are slashes
  only. So the forwarded path is right. The query is not: `select_cluster` is given
  `uri.path()`, and the URI it makes of it has none (`forwarded_uri_iff`).
-/

import Mathlib.Data.List.TakeWhile
import Glaive.Proxy.RequestFilter

namespace Glaive.Proxy

open Glaive.Lib

variable {R : Type}

/-! ## The parser of URIs -/

/-- What `http::Uri` says of the texts it accepts. -/
structure UriLaws (parseUri : Text → Option Uri) : Prop where
  /-- A path ends where a query or a fragment starts. -/
  clean : ∀ {t u}, parseUri t = some u → '?' ∉ u.path ∧ '#' ∉ u.path
  /-- Origin form, without a query: `path` is the text. -/
  origin : ∀ {t u}, parseUri ('/' :: t) = some u → '?' ∉ '/' :: t → '#' ∉ '/' :: t →
    u.path = '/' :: t ∧ u.query = none

/-! ## The first segment -/

/-- `b` is the first segment of the path, after `n` slashes of no segment. -/
structure Leads (n : Nat) (b rest path : Text) : Prop where
  path_eq : path = List.replicate n '/' ++ ('/' :: (b ++ rest))
  nonempty : b ≠ []
  noSlash : '/' ∉ b
  ends : rest = [] ∨ ∃ t, rest = '/' :: t

theorem splitOn_noSep {a : Char} (xs : Text) : ∀ s ∈ xs.splitOn a, a ∉ s := by
  induction xs with
  | nil => simp
  | cons x xs ih =>
    intro s hs
    rw [List.splitOn_cons_eq_if_modifyHead] at hs
    by_cases hx : x == a
    · rw [if_pos hx, List.mem_cons] at hs
      rcases hs with rfl | hs
      · exact List.not_mem_nil
      · exact ih s hs
    · rw [if_neg hx] at hs
      cases hl : xs.splitOn a with
      | nil => exact absurd hl (List.splitOn_ne_nil a xs)
      | cons y ys =>
        rw [hl, List.modifyHead_cons, List.mem_cons] at hs
        rcases hs with rfl | hs
        · intro hmem
          rcases List.mem_cons.mp hmem with rfl | hmem
          · exact hx (by simp)
          · exact ih y (by rw [hl]; exact List.mem_cons_self ..) hmem
        · exact ih s (by rw [hl]; exact List.mem_cons_of_mem _ hs)

/-- The base of a path is one segment. -/
theorem basePath_single (uri : Text) : ∃ b, basePath uri = '/' :: b ∧ '/' ∉ b := by
  unfold basePath
  cases h : (uri.splitOn '/').filter (fun s => !s.isEmpty) with
  | nil => exact ⟨[], rfl, List.not_mem_nil⟩
  | cons b bs =>
    refine ⟨b, rfl, splitOn_noSep uri b ?_⟩
    exact (List.mem_filter.mp (by rw [h]; exact List.mem_cons_self ..)).1

theorem Leads.basePath {n : Nat} {b rest path : Text} (h : Leads n b rest path) : basePath path = '/' :: b := by
  obtain ⟨rfl, hb, hslash, hrest⟩ := h
  have hsplit : ∃ more, (b ++ rest).splitOn '/' = b :: more := by
    rcases hrest with rfl | ⟨t, rfl⟩
    · exact ⟨[], by rw [List.append_nil, List.splitOn_eq_singleton hslash]⟩
    · refine ⟨t.splitOn '/', ?_⟩
      rw [List.splitOn_append_cons_self, List.splitOn_eq_singleton hslash]
      rfl
  obtain ⟨more, hmore⟩ := hsplit
  have hfilter : ((List.replicate n '/' ++ '/' :: (b ++ rest)).splitOn '/').filter (fun s => !s.isEmpty) =
      b :: more.filter (fun s => !s.isEmpty) := by
    induction n with
    | zero =>
      rw [List.replicate_zero, List.nil_append, List.splitOn_cons_eq_if_modifyHead, if_pos (by simp), hmore]
      simp [hb]
    | succ n ih =>
      rw [List.replicate_succ, List.cons_append, List.splitOn_cons_eq_if_modifyHead, if_pos (by simp)]
      simpa using ih
  unfold Proxy.basePath
  rw [hfilter]

/-- Only slashes stand before the first segment, so that it is the first to match. -/
theorem removeFirst_leads {n : Nat} {b rest path : Text} (h : Leads n b rest path) :
    removeFirst ('/' :: b) path = List.replicate n '/' ++ rest := by
  obtain ⟨rfl, hb, hslash, -⟩ := h
  obtain ⟨c, cs, rfl⟩ := List.exists_cons_of_ne_nil hb
  have hc : c ≠ '/' := fun hc => hslash (by simp [hc])
  induction n with
  | zero =>
    have hpre : ('/' :: c :: cs).isPrefixOf ('/' :: (c :: cs ++ rest)) = true :=
      List.isPrefixOf_iff_prefix.mpr ⟨rest, rfl⟩
    show removeFirst ('/' :: c :: cs) ('/' :: (c :: cs ++ rest)) = rest
    unfold removeFirst
    rw [if_pos hpre]
    rw [← List.cons_append, List.drop_left]
  | succ n ih =>
    rw [List.replicate_succ, List.cons_append, List.cons_append]
    have hpre : ¬ ('/' :: c :: cs).isPrefixOf ('/' :: (List.replicate n '/' ++ '/' :: c :: (cs ++ rest))) = true := by
      intro hpre
      cases n <;> simp [List.isPrefixOf, List.replicate_succ, hc] at hpre
    unfold removeFirst
    rw [List.cons_append, if_neg hpre]
    exact congrArg ('/' :: ·) ih

/-- What is left of a path starts with a slash. -/
theorem Leads.rooted {n : Nat} {b rest path : Text} (h : Leads n b rest path) :
    ∃ t, orRoot (List.replicate n '/' ++ rest) = '/' :: t ∧ ∀ c ∈ '/' :: t, c ∈ path := by
  obtain ⟨rfl, -, -, hrest⟩ := h
  have hroot : '/' ∈ List.replicate n '/' ++ '/' :: (b ++ rest) := by simp
  cases n with
  | succ n =>
    refine ⟨List.replicate n '/' ++ rest, rfl, fun c hc => ?_⟩
    rw [← List.cons_append, ← List.replicate_succ, List.mem_append] at hc
    rcases hc with hc | hc
    · exact List.mem_append_left _ hc
    · simp [hc]
  | zero =>
    rcases hrest with rfl | ⟨t, rfl⟩
    · refine ⟨[], rfl, fun c hc => ?_⟩
      rw [List.mem_singleton.mp hc]
      exact hroot
    · exact ⟨t, rfl, fun c hc => by simp at hc ⊢; tauto⟩

/-! ## The URI that is forwarded -/

/-- A request goes on with the path that is left of its own, and without a query. -/
theorem selectCluster_forwards {ex : Externals R} (laws : UriLaws ex.parseUri) {prefixMap : List (Text × Nat)}
    {f f' : Filter R} {t : Text} (hreq : ex.parseUri t = some f.session.uri) {n : Nat} {b rest : Text}
    (hlead : Leads n b rest f.session.uri.path)
    (h : selectCluster ex prefixMap f.session.uri.path f = (.ok false, f')) :
    f'.session.uri.path = orRoot (List.replicate n '/' ++ rest) ∧ f'.session.uri.query = none := by
  obtain ⟨-, -, -, -, _, e, -, he, -, hparse⟩ := selectCluster_ok h
  have hfront : e.1 = '/' :: b := by
    have := List.find?_some he
    rw [← hlead.basePath]
    exact of_decide_eq_true this
  rw [hfront, removeFirst_leads hlead] at hparse
  obtain ⟨u, hu, hsub⟩ := hlead.rooted
  rw [hu] at hparse ⊢
  obtain ⟨hq, hf⟩ := laws.clean hreq
  exact laws.origin hparse (fun hc => hq (hsub _ hc)) (fun hc => hf (hsub _ hc))

/-- When the router lets a request go on, the URI it forwards has the path without the
    segment that chose the cluster, and it has the query of the request just if the
    request has none. -/
theorem forwarded_uri_iff (ex : Externals R) (laws : UriLaws ex.parseUri) (prefixMap : List (Text × Nat))
    (f f' : Filter R) (hreq : ∃ t, ex.parseUri t = some f.session.uri) (n : Nat) (b rest : Text)
    (hlead : Leads n b rest f.session.uri.path)
    (h : selectCluster ex prefixMap f.session.uri.path f = (.ok false, f')) :
    (f'.session.uri.path = orRoot (List.replicate n '/' ++ rest) ∧ f'.session.uri.query = f.session.uri.query) ↔
      f.session.uri.query = none := by
  obtain ⟨t, ht⟩ := hreq
  obtain ⟨hpath, hquery⟩ := selectCluster_forwards laws ht hlead h
  constructor
  · intro h
    rcases h with ⟨-, hkept⟩
    rw [← hkept, hquery]
  · intro hnone
    exact ⟨hpath, by rw [hquery, hnone]⟩

/-- Origin form: the path, then the query after a question mark; a fragment goes. -/
def originForm (t : Text) : Option Uri :=
  if t.head? = some '/' then
    let pathAndQuery := t.takeWhile (· ≠ '#')
    let path := pathAndQuery.takeWhile (· ≠ '?')
    some ⟨path, if '?' ∈ pathAndQuery then some (pathAndQuery.drop (path.length + 1)) else none, pathAndQuery⟩
  else none

theorem takeWhile_ne_not_mem (c : Char) (t : Text) : c ∉ t.takeWhile (· ≠ c) := by
  intro hc
  have := List.mem_takeWhile_imp hc
  simp at this

theorem takeWhile_ne_self {c : Char} {t : Text} (h : c ∉ t) : t.takeWhile (· ≠ c) = t := by
  rw [List.takeWhile_eq_self_iff]
  intro d hd
  apply decide_eq_true
  intro he
  subst he
  exact h hd

theorem originForm_laws : UriLaws originForm where
  clean := by
    intro t u h
    unfold originForm at h
    by_cases hr : t.head? = some '/'
    · rw [if_pos hr] at h
      cases h
      refine ⟨takeWhile_ne_not_mem '?' _, fun hc => ?_⟩
      exact takeWhile_ne_not_mem '#' t ((List.takeWhile_sublist _).mem hc)
    · rw [if_neg hr] at h
      cases h
  origin := by
    intro t u h hq hf
    unfold originForm at h
    rw [if_pos (by rfl)] at h
    cases h
    rw [takeWhile_ne_self hf, takeWhile_ne_self hq, if_neg hq]
    exact ⟨rfl, rfl⟩

def originExternals : Externals Unit := { plainExternals with parseUri := originForm }

/-- A request for `target` at the router. -/
def requestFor (target : String) : Filter Unit :=
  ⟨⟨(originForm target.toList).getD ⟨[], none, []⟩, HeaderMap.empty, none, false, [], none⟩, newCtx, ()⟩

theorem forwarded_uri_iff_plain :
    ((selectCluster originExternals [("/a".toList, 0)] "//a/b/a".toList (requestFor "//a/b/a")).2.session.uri.path =
        "//b/a".toList ∧
      (selectCluster originExternals [("/a".toList, 0)] "//a/b/a".toList (requestFor "//a/b/a")).2.session.uri.query =
        (requestFor "//a/b/a").session.uri.query) ↔ (requestFor "//a/b/a").session.uri.query = none :=
  forwarded_uri_iff originExternals originForm_laws [("/a".toList, 0)] (requestFor "//a/b/a")
    (selectCluster originExternals [("/a".toList, 0)] "//a/b/a".toList (requestFor "//a/b/a")).2
    ⟨"//a/b/a".toList, by decide⟩ 1 "a".toList "/b/a".toList
    ⟨by decide, by decide, by decide, .inr ⟨"b/a".toList, rfl⟩⟩
    (Prod.ext (show (selectCluster originExternals [("/a".toList, 0)] "//a/b/a".toList
      (requestFor "//a/b/a")).1 = .ok false by decide) rfl)

/-- `/a/b?x=1` is forwarded as `/b`. -/
theorem forwarded_uri_no_query :
    ∃ f', selectCluster originExternals [("/a".toList, 0)] (requestFor "/a/b?x=1").session.uri.path
        (requestFor "/a/b?x=1") = (.ok false, f') ∧
      originForm "/a/b?x=1".toList = some (requestFor "/a/b?x=1").session.uri ∧
      Leads 0 "a".toList "/b".toList (requestFor "/a/b?x=1").session.uri.path ∧
      (requestFor "/a/b?x=1").session.uri.query = some "x=1".toList ∧ f'.session.uri.path = "/b".toList ∧
      f'.session.uri.query = none :=
  ⟨_, Prod.ext (show (selectCluster originExternals [("/a".toList, 0)] (requestFor "/a/b?x=1").session.uri.path
      (requestFor "/a/b?x=1")).1 = .ok false by decide) rfl, by decide,
    ⟨by decide, by decide, by decide, .inr ⟨"b".toList, rfl⟩⟩, by decide, by decide, by decide⟩

end Glaive.Proxy
