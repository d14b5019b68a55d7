/-
  Glaive.Proxy.Guards — the guards a cluster can have: limiters and authentication
  (`glaive/src/limiter.rs`: `LimiterProvider`; `glaive/src/auth.rs`: `AuthProvider`;
  `glaive/src/def.rs`; `glaive/src/cluster.rs`: `ClusterMetadata`).

  A guard that returns `false` lets the request on. What that says of the request is
  `KeyAccepted` and `JwtAccepted` for the credential checks and `overLimit` for a
  limiter.
-/

import Glaive.Proxy.Request

namespace Glaive.Proxy

open Glaive.Lib

/-! ## Configuration -/

structure Key where
  allowed : List Text

structure Jwt where
  secret : Text

inductive AuthType where
  | key (key : Key)
  | jwt (jwt : Jwt)
  | external

structure IpWhitelist where
  whitelist : List Text

structure Consumer where
  name : Text
  acl : List Text

structure BasicLimiter where
  limit : Int

/-- `RatelimitType` has one variant, `Basic`. -/
structure Limiter where
  globalLimit : Option BasicLimiter
  client : Option BasicLimiter

structure RouteConfig where
  paths : Option (List Text)

structure ClusterMetadata where
  name : Text
  limiter : Option Limiter
  /-- How often a request is sent again when no connection is made. -/
  retry : Option Nat
  auth : Option AuthType
  ip : Option IpWhitelist
  consumers : Option (List Consumer)
  routes : Option (List RouteConfig)

structure ProxyRouter where
  clusters : List ClusterMetadata
  prefixMap : List (Text × Nat)
  consumers : Option (List Consumer)

variable {R : Type}

/-! ## `LimiterProvider` -/

/-- Too many requests were seen under this identity, with this one. -/
def overLimit (ex : Externals R) (maxReqLimit : Int) (id : Text) (rate : R) : Bool := maxReqLimit < (ex.observe rate id).2

def tooManyRequest (maxReqLimit : Int) : Async (Filter R) Bool := do
  errorResponse 429 "Too many request"
    [("X-Rate-Limit-Limit".toList, (toString maxReqLimit).toList), ("X-Rate-Limit-Remaining".toList, ['0']),
      ("X-Rate-Limit-Reset".toList, ['1'])]
  return true

/-- Both limiters count the request under an identity, and let it on when there is none. -/
def observeLimit (ex : Externals R) (maxReqLimit : Int) (identity : Option Text) : Async (Filter R) Bool := do
  match identity with
  | none => return false
  | some id =>
    let f ← Async.get
    Async.modify fun f => { f with rate := (ex.observe f.rate id).1 }
    if overLimit ex maxReqLimit id f.rate then tooManyRequest maxReqLimit else return false

def globalLimiter (ex : Externals R) (maxReqLimit : Int) : Async (Filter R) Bool := do
  let f ← Async.get
  observeLimit ex maxReqLimit f.ctx.clusterIdentity

def clientLimiter (ex : Externals R) (maxReqLimit : Int) : Async (Filter R) Bool := do
  let f ← Async.get
  observeLimit ex maxReqLimit (f.ctx.clientCredentials.or f.ctx.clientAddress)

/-- A limiter lets a request on that has no identity, or is within the limit under it. -/
theorem observeLimit_ok {ex : Externals R} {maxReqLimit : Int} {identity : Option Text} {f f' : Filter R}
    (h : observeLimit ex maxReqLimit identity f = (.ok false, f')) :
    f'.session = f.session ∧ f'.ctx = f.ctx ∧
      ∀ id, identity = some id → overLimit ex maxReqLimit id f.rate = false ∧ f'.rate = (ex.observe f.rate id).1 := by
  unfold observeLimit at h
  cases identity with
  | none => cases h; exact ⟨rfl, rfl, nofun⟩
  | some id =>
    simp only [Async.get_bind_apply, Async.modify_bind_apply] at h
    cases ho : overLimit ex maxReqLimit id f.rate with
    | true =>
      rw [ho, if_pos rfl] at h
      obtain ⟨_, _, -, h⟩ := Async.of_bind_ok h
      cases h
    | false =>
      rw [ho, if_neg (by simp)] at h
      cases h
      refine ⟨rfl, rfl, fun id' hid => ?_⟩
      cases hid
      exact ⟨ho, rfl⟩

/-! ## `AuthProvider` -/

/-- The credential of an Authorization value. -/
def bearer (value : Text) : Text := Session.Utils.trim (trimStartMatches "Bearer ".toList value)

def basicKey (key : Key) : Async (Filter R) Bool := do
  let f ← Async.get
  match f.session.headers.get (headerName "Authorization") with
  | none => reject 403 "Key is required"
  | some creds =>
    match fromUtf8 creds with
    | none => reject 502 "Unable to parse key"
    | some credsStr => if key.allowed.contains (bearer credsStr) then return false else reject 403 "Invalid API Key"

/-- The consumer of a token among those of the cluster, and its access control lists. -/
def authorize (router : ProxyRouter) (cluster : ClusterMetadata) (claims : Claims) : Async (Filter R) Bool :=
  match cluster.consumers with
  | none => pure false
  | some consumers =>
    match consumers.find? fun consumer => claims.consumer = consumer.name with
    | none => reject 403 "Unauthorized consumer"
    | some consumer =>
      match router.consumers with
      | none => reject 502 "Undefined consumer"
      | some defConsumer =>
        match defConsumer.find? fun owner => consumer.name = owner.name with
        | none => reject 502 "Consumer not found"
        | some owner =>
          if owner.acl.any fun item => consumer.acl.any (· = item) then pure false
          else reject 403 "Unauthorized access control"

def basicJwt (ex : Externals R) (router : ProxyRouter) (cluster : ClusterMetadata) (jwt : Jwt) : Async (Filter R) Bool := do
  let f ← Async.get
  match f.session.headers.get (headerName "Authorization") with
  | none => reject 403 "Token is required"
  | some token =>
    match fromUtf8 token with
    | none => reject 400 "Unable to parse token"
    | some parsedToken =>
      match ex.decode jwt.secret (bearer parsedToken) with
      | .error error => reject 403 ("Invalid Token: " ++ error)
      | .ok claims => authorize router cluster claims

/-- The request carries one of the keys. -/
def KeyAccepted (key : Key) (headers : HeaderMap Text Bytes) : Prop :=
  ∃ creds text, headers.get (headerName "Authorization") = some creds ∧ fromUtf8 creds = some text ∧
    bearer text ∈ key.allowed

/-- The cluster names the consumer, and the gateway gives it an item of its list there. -/
def Authorized (router : ProxyRouter) (cluster : ClusterMetadata) (claims : Claims) : Prop :=
  ∀ consumers, cluster.consumers = some consumers → ∃ consumer ∈ consumers, consumer.name = claims.consumer ∧
    ∃ defConsumer, router.consumers = some defConsumer ∧ ∃ owner ∈ defConsumer, owner.name = claims.consumer ∧
      ∃ item ∈ owner.acl, item ∈ consumer.acl

/-- The request carries a token that decodes, of a consumer that is let in. -/
def JwtAccepted (ex : Externals R) (router : ProxyRouter) (cluster : ClusterMetadata) (jwt : Jwt)
    (headers : HeaderMap Text Bytes) : Prop :=
  ∃ token text claims, headers.get (headerName "Authorization") = some token ∧ fromUtf8 token = some text ∧
    ex.decode jwt.secret (bearer text) = .ok claims ∧ Authorized router cluster claims

theorem basicKey_ok {key : Key} {f f' : Filter R} (h : basicKey key f = (.ok false, f')) :
    KeyAccepted key f.session.headers := by
  unfold basicKey at h
  rw [Async.get_bind_apply] at h
  cases hg : f.session.headers.get (headerName "Authorization") with
  | none => rw [hg] at h; exact absurd (reject_ok h) (by simp)
  | some creds =>
    rw [hg] at h
    cases hu : fromUtf8 creds with
    | none => simp only [hu] at h; exact absurd (reject_ok h) (by simp)
    | some text =>
      simp only [hu] at h
      by_cases hk : key.allowed.contains (bearer text)
      · exact ⟨creds, text, hg, hu, List.contains_iff_mem.mp hk⟩
      · rw [if_neg hk] at h
        exact absurd (reject_ok h) (by simp)

theorem authorize_ok {router : ProxyRouter} {cluster : ClusterMetadata} {claims : Claims} {f f' : Filter R}
    (h : authorize router cluster claims f = (.ok false, f')) : Authorized router cluster claims := by
  intro consumers hc
  unfold authorize at h
  rw [hc] at h
  simp only at h
  cases hf : consumers.find? fun consumer => claims.consumer = consumer.name with
  | none => rw [hf] at h; exact absurd (reject_ok h) (by simp)
  | some consumer =>
    have hname : claims.consumer = consumer.name := by simpa using List.find?_some hf
    rw [hf] at h
    cases hr : router.consumers with
    | none => rw [hr] at h; exact absurd (reject_ok h) (by simp)
    | some defConsumer =>
      rw [hr] at h
      simp only at h
      cases ho : defConsumer.find? fun owner => consumer.name = owner.name with
      | none => rw [ho] at h; exact absurd (reject_ok h) (by simp)
      | some owner =>
        have howner : consumer.name = owner.name := by simpa using List.find?_some ho
        rw [ho] at h
        simp only at h
        by_cases ha : owner.acl.any fun item => consumer.acl.any (· = item)
        · obtain ⟨item, hitem, hany⟩ := List.any_eq_true.mp ha
          obtain ⟨item', hitem', he⟩ := List.any_eq_true.mp hany
          rw [of_decide_eq_true he] at hitem'
          exact ⟨consumer, List.mem_of_find?_eq_some hf, hname.symm, defConsumer, rfl, owner,
            List.mem_of_find?_eq_some ho, (hname.trans howner).symm, item, hitem, hitem'⟩
        · rw [if_neg ha] at h
          exact absurd (reject_ok h) (by simp)

theorem basicJwt_ok {ex : Externals R} {router : ProxyRouter} {cluster : ClusterMetadata} {jwt : Jwt}
    {f f' : Filter R} (h : basicJwt ex router cluster jwt f = (.ok false, f')) :
    JwtAccepted ex router cluster jwt f.session.headers := by
  unfold basicJwt at h
  rw [Async.get_bind_apply] at h
  cases hg : f.session.headers.get (headerName "Authorization") with
  | none => rw [hg] at h; exact absurd (reject_ok h) (by simp)
  | some token =>
    rw [hg] at h
    cases hu : fromUtf8 token with
    | none => simp only [hu] at h; exact absurd (reject_ok h) (by simp)
    | some text =>
      simp only [hu] at h
      cases hd : ex.decode jwt.secret (bearer text) with
      | error e => rw [hd] at h; exact absurd (reject_ok h) (by simp)
      | ok claims =>
        rw [hd] at h
        exact ⟨token, text, claims, hg, hu, hd, authorize_ok h⟩

end Glaive.Proxy
