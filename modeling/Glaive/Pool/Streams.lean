/-
  Glaive.Pool.Streams — the streams to the upstream peers, from the dial to the close
  (`core/src/pool/stream.rs`: `StreamManager`; `core/src/service/peer.rs`: `UpstreamPeer`;
  `core/src/service/service.rs`: `handle_connection`; `core/src/pool/pool.rs`:
  `connection_idle_timeout`).

  A request gets a stream, found in the pool or newly dialled, and has it to itself until
  it returns it or fails, which drops it. A returned stream goes into the pool under its
  file descriptor, and where its peer has a timeout, with a task that waits for one of
  three things: the stream is picked up, its entry is dropped by the cache, the time is
  over. Requests and tasks run on any worker thread, one whole call at a time (see
  `Glaive.Pool.StaleEntries`). Of the kernel it is asked that a new socket gets a
  descriptor that is not open.
-/

import Glaive.Pool.Entries

namespace Glaive.Pool

open Glaive.Lib

structure UpstreamPeer (A : Type) where
  name : String
  service : String
  address : A
  /-- In seconds. -/
  connectionTimeout : Option Nat
  deriving DecidableEq, Repr

/-- `hasher` is what the hash of the name, the service and the address finishes with. -/
def UpstreamPeer.getGroupId {A : Type} (hasher : String × String × A → ConnectionGroupId) (p : UpstreamPeer A) :
    ConnectionGroupId := hasher (p.name, p.service, p.address)

/-- A socket, and the address it is connected to. -/
structure Stream (A : Type) where
  fd : ConnectionId
  address : A
  deriving DecidableEq, Repr

def Stream.getUniqueId {A : Type} (s : Stream A) : ConnectionId := s.fd

/-- A task in `connection_idle_timeout`. -/
structure IdleTask where
  metadata : ConnectionMetadata
  /-- The insertion whose two notifiers it has. -/
  listens : Nat
  done : Bool
  deriving DecidableEq, Repr

structure StreamManager (Q : Type → Type) (C : Type → Type → Type) (A : Type) where
  connectionPool : Shared Q C (Stream A)
  /-- The insertions whose pickup notifier has sent `true`. -/
  pickedUp : List Nat
  /-- The insertions whose removal notifier has been told. -/
  removed : List Nat
  /-- What the requests in progress have. -/
  used : List (UpstreamPeer A × Stream A)
  tasks : List IdleTask

namespace StreamManager

variable {Q : Type → Type} [BoundedQueue Q] {C : Type → Type → Type} [RecencyCache C] {A : Type}
variable (hasher : String × String × A → ConnectionGroupId)

def new (poolSize : Nat) : StreamManager Q C A := ⟨Shared.init poolSize, [], [], [], []⟩

/-- The pool has the only reference to the stream it gives away, so the `Arc` unwraps. -/
def findConnectionStream (t : ThreadId) (first : Nat) (peer : UpstreamPeer A) (m : StreamManager Q C A) :
    Option (Stream A) × StreamManager Q C A :=
  match m.connectionPool.pool.getConnectionFromPool t (peer.getGroupId hasher) first with
  | (some (n, stream), pool) =>
    (some stream, { m with connectionPool := { m.connectionPool with pool := pool }, pickedUp := n :: m.pickedUp })
  | (none, pool) => (none, { m with connectionPool := { m.connectionPool with pool := pool } })

/-- With whether the stream is reused. `dialled`: the descriptor of the socket, where the
    peer takes the connection. -/
def getStreamConnection (t : ThreadId) (first : Nat) (peer : UpstreamPeer A) (dialled : Option ConnectionId)
    (m : StreamManager Q C A) : Option (Stream A × Bool) × StreamManager Q C A :=
  match findConnectionStream hasher t first peer m with
  | (some stream, m) => (some (stream, true), m)
  | (none, m) => (dialled.map fun fd => (⟨fd, peer.address⟩, false), m)

/-- The entry the cache drops for the new one has its removal notifier told. -/
def returnStreamConnection (t : ThreadId) (peer : UpstreamPeer A) (stream : Stream A) (m : StreamManager Q C A) :
    Option (StreamManager Q C A) :=
  let metadata : ConnectionMetadata := ⟨peer.getGroupId hasher, stream.getUniqueId⟩
  (Shared.step (.add t metadata stream) m.connectionPool).map fun pool =>
    { m with
      connectionPool := pool
      removed := match m.connectionPool.pool.evictedBy t metadata with
        | some (id, _) => (pool.created t id).toList ++ m.removed
        | none => m.removed
      tasks := if peer.connectionTimeout.isSome then m.tasks ++ [⟨metadata, m.connectionPool.clock, false⟩] else m.tasks }

/-- The receiver is ready: `true` was sent, or the sender went with its connection. -/
def pickupReady (m : StreamManager Q C A) (task : IdleTask) : Bool :=
  decide (task.listens ∈ m.pickedUp) || !(m.connectionPool.pool.held task.metadata.groupId).any (·.2.1 == task.listens)

/-- One poll of the `biased` `select!`; `elapsed`: the sleep is over. `none` while it
    waits. -/
def connectionIdleTimeout (t : ThreadId) (elapsed : Bool) (task : IdleTask) (m : StreamManager Q C A) :
    Option (StreamManager Q C A) :=
  if m.pickupReady task then some m
  else if task.listens ∈ m.removed then some m
  else if elapsed then
    (m.connectionPool.pool.removeConnection t task.metadata).map fun pool =>
      { m with connectionPool := { m.connectionPool with pool := pool } }
  else none

/-! ## Requests and tasks -/

inductive Event (A : Type) where
  /-- A connection is handled: it gets its stream, or panics. -/
  | get (t : ThreadId) (first : Nat) (peer : UpstreamPeer A) (dialled : Option ConnectionId)
  /-- `handle_process` is `Ok`: the stream is returned. -/
  | giveBack (t : ThreadId) (i : Nat)
  /-- It is not: the request panics, and its stream is closed. -/
  | fail (i : Nat)
  | poll (t : ThreadId) (i : Nat) (elapsed : Bool)

def step (e : Event A) (m : StreamManager Q C A) : Option (StreamManager Q C A) :=
  match e with
  | .get t first peer dialled =>
    match getStreamConnection hasher t first peer dialled m with
    | (some (stream, _), m) => some { m with used := m.used ++ [(peer, stream)] }
    | (none, m) => some m
  | .giveBack t i =>
    match m.used[i]? with
    | some (peer, stream) => returnStreamConnection hasher t peer stream { m with used := m.used.eraseIdx i }
    | none => none
  | .fail i => if i < m.used.length then some { m with used := m.used.eraseIdx i } else none
  | .poll t i elapsed =>
    match m.tasks[i]? with
    | some task =>
      if task.done then none
      else (connectionIdleTimeout t elapsed task m).map fun m => { m with tasks := m.tasks.set i { task with done := true } }
    | none => none

/-- What the pool holds, in any group. -/
def Idle (m : StreamManager Q C A) (g : ConnectionGroupId) (x : ConnectionId × Nat × Stream A) : Prop :=
  x ∈ m.connectionPool.pool.held g

/-- Some request has the descriptor, or the pool. -/
def IsOpen (m : StreamManager Q C A) (fd : ConnectionId) : Prop :=
  (∃ u ∈ m.used, u.2.fd = fd) ∨ ∃ g x, m.Idle g x ∧ x.2.2.fd = fd

/-- Requests are for known peers, and a new socket gets a descriptor that is not open. -/
def Promise (peers : List (UpstreamPeer A)) : Event A → StreamManager Q C A → Prop
  | .get _ _ peer dialled, m => peer ∈ peers ∧ ∀ fd, dialled = some fd → ¬ m.IsOpen fd
  | _, _ => True

/-- Returns run on these workers. -/
def Event.On (ws : List ThreadId) : Event A → Prop
  | .giveBack t _ => t ∈ ws
  | _ => True

instance (ws : List ThreadId) : (e : Event A) → Decidable (e.On ws)
  | .giveBack t _ => inferInstanceAs (Decidable (t ∈ ws))
  | .get .. => .isTrue trivial
  | .fail _ => .isTrue trivial
  | .poll .. => .isTrue trivial

end StreamManager

/-! ## What holds throughout -/

namespace StreamManager

variable {Q : Type → Type} [BoundedQueue Q] {C : Type → Type → Type} [RecencyCache C] {A : Type}
variable {hasher : String × String × A → ConnectionGroupId} {peers : List (UpstreamPeer A)} {n : Nat}
variable {m m' : StreamManager Q C A}

/-- The peers of one group have one address. -/
def OneAddress (hasher : String × String × A → ConnectionGroupId) (peers : List (UpstreamPeer A)) : Prop :=
  ∀ p ∈ peers, ∀ q ∈ peers, p.getGroupId hasher = q.getGroupId hasher → p.address = q.address

structure Inv (n : Nat) (m : StreamManager Q C A) : Prop where
  kept : m.connectionPool.Kept n
  fd : ∀ g x, m.Idle g x → x.2.2.fd = x.1
  apart : ∀ g x u, m.Idle g x → u ∈ m.used → u.2.fd ≠ x.1
  used : (m.used.map (·.2.fd)).Nodup
  told : ∀ g x, m.Idle g x → x.2.1 ∉ m.pickedUp ∧ x.2.1 ∉ m.removed
  task : ∀ t ∈ m.tasks, ∀ g x, m.Idle g x → x.2.1 = t.listens →
    g = t.metadata.groupId ∧ x.1 = t.metadata.uniqueId ∧ t.done = false
  past : ∀ k, k ∈ m.pickedUp ∨ k ∈ m.removed ∨ (∃ t ∈ m.tasks, t.listens = k) → k < m.connectionPool.clock

theorem inv_new (n : Nat) : (new n : StreamManager Q C A).Inv n where
  kept := Shared.kept_init n
  fd := nofun
  apart := nofun
  used := List.nodup_nil
  told := nofun
  task := nofun
  past k h := by
    rcases h with h | h | ⟨t, h, -⟩
    · cases h
    · cases h
    · cases h

/-- Connections leave the pool, and notifiers of connections that are not in it are told. -/
theorem Inv.less (h : m.Inv n) {pool : ConnectionPool Q C (Nat × Stream A)} (pickedUp : List Nat)
    (hkept : ({ m.connectionPool with pool := pool } : Shared Q C (Stream A)).Kept n)
    (hidle : ∀ g x, x ∈ pool.held g → m.Idle g x) (hpicked : ∀ g x, x ∈ pool.held g → x.2.1 ∉ pickedUp)
    (hpast : ∀ k ∈ pickedUp, k < m.connectionPool.clock) :
    ({ m with connectionPool := { m.connectionPool with pool := pool }, pickedUp := pickedUp } :
      StreamManager Q C A).Inv n := by
  refine ⟨hkept, fun g x hx => h.fd g x (hidle g x hx), fun g x u hx hu => h.apart g x u (hidle g x hx) hu, h.used,
    fun g x hx => ⟨hpicked g x hx, (h.told g x (hidle g x hx)).2⟩,
    fun t ht g x hx => h.task t ht g x (hidle g x hx), fun k hk => ?_⟩
  rcases hk with hk | hk
  · exact hpast k hk
  · exact h.past k (.inr hk)

/-- A stream whose descriptor is not open is used. -/
theorem Inv.use (h : m.Inv n) {stream : Stream A} (hopen : ¬ m.IsOpen stream.fd) (p : UpstreamPeer A) :
    ({ m with used := m.used ++ [(p, stream)] } : StreamManager Q C A).Inv n := by
  refine ⟨h.kept, h.fd, fun g x u hx hu => ?_, ?_, h.told, h.task, h.past⟩
  · rcases List.mem_append.mp hu with hu | hu
    · exact h.apart g x u hx hu
    · rw [List.mem_singleton.mp hu]
      intro he
      exact hopen (.inr ⟨g, x, hx, (h.fd g x hx).trans he.symm⟩)
  · show ((m.used ++ [(p, stream)]).map (·.2.fd)).Nodup
    rw [List.map_append, List.nodup_append]
    refine ⟨h.used, List.nodup_singleton _, fun a ha b hb => ?_⟩
    obtain ⟨u, hu, rfl⟩ := List.mem_map.mp ha
    rw [List.map_singleton, List.mem_singleton] at hb
    rw [hb]
    intro he
    exact hopen (.inl ⟨u, hu, he⟩)

/-- A used stream is out of use. -/
theorem Inv.unuse (h : m.Inv n) (i : Nat) :
    ({ m with used := m.used.eraseIdx i } : StreamManager Q C A).Inv n :=
  ⟨h.kept, h.fd, fun g x u hx hu => h.apart g x u hx ((List.eraseIdx_sublist ..).subset hu),
    ((List.eraseIdx_sublist ..).map _).nodup h.used, h.told, h.task, h.past⟩

/-- What a checkout does: the stream comes out of the group of the peer, or is dialled. -/
theorem Inv.get_spec (h : m.Inv n) {t : ThreadId} {first : Nat} {peer : UpstreamPeer A}
    {dialled : Option ConnectionId} (hp : Promise peers (.get t first peer dialled) m)
    (hs : step hasher (.get t first peer dialled) m = some m') :
    m'.Inv n ∧ (∀ g x, m'.Idle g x → m.Idle g x) ∧ ∀ u ∈ m'.used, u ∈ m.used ∨ u.1 = peer ∧
      (u.2.address = peer.address ∨ ∃ k, m.Idle (peer.getGroupId hasher) (u.2.fd, k, u.2)) := by
  obtain ⟨-, hfresh⟩ := hp
  rcases h.kept.find t (peer.getGroupId hasher) first with
    ⟨p, hfind, -, hkept, hheld⟩ | ⟨id, ⟨k, stream⟩, p, hfind, hmem, hkept, hheld⟩
  · have hidle : ∀ g x, x ∈ p.held g → m.Idle g x := fun g x hx => by rw [hheld] at hx; exact hx
    have hless := h.less m.pickedUp hkept hidle (fun g x hx => (h.told g x (hidle g x hx)).1)
      fun k hk => h.past k (.inl hk)
    simp only [step, getStreamConnection, findConnectionStream, hfind] at hs
    cases dialled with
    | none =>
      cases hs
      exact ⟨hless, hidle, fun u hu => .inl hu⟩
    | some fd =>
      cases hs
      refine ⟨hless.use (fun hopen => hfresh fd rfl ?_) peer, hidle, fun u hu => ?_⟩
      · exact hopen.imp_right fun ⟨g, x, hx, hfd⟩ => ⟨g, x, hidle g x hx, hfd⟩
      · refine (List.mem_append.mp hu).imp_right fun hu => ?_
        rw [List.mem_singleton.mp hu]
        exact ⟨rfl, .inl rfl⟩
  · simp only [step, getStreamConnection, findConnectionStream, hfind] at hs
    cases hs
    have hfd : stream.fd = id := h.fd _ _ hmem
    have hgone : ∀ g x, x ∈ p.held g → x ≠ (id, k, stream) := by
      intro g x hx he
      obtain ⟨hx', hne⟩ := (hheld g x).mp hx
      subst he
      exact hne (h.kept.once g _ _ _ hx' hmem rfl).1 rfl
    have hidle : ∀ g x, x ∈ p.held g → m.Idle g x := fun g x hx => ((hheld g x).mp hx).1
    have hless := h.less (k :: m.pickedUp) hkept hidle (fun g x hx => ?_) fun k' hk' => ?_
    · refine ⟨hless.use (fun hopen => ?_) peer, hidle, fun u hu => ?_⟩
      · rcases hopen with ⟨u, hu, hufd⟩ | ⟨g, x, hx, hxfd⟩
        · exact h.apart _ _ u hmem hu (hufd.trans hfd)
        · have hid : x.1 = id := by rw [← h.fd g x (hidle g x hx)]; exact hxfd.trans hfd
          exact hgone g x hx (h.kept.once g _ _ _ (hidle g x hx) hmem hid).2
      · refine (List.mem_append.mp hu).imp_right fun hu => ?_
        rw [List.mem_singleton.mp hu]
        exact ⟨rfl, .inr ⟨k, hfd.symm ▸ hmem⟩⟩
    · intro hin
      rcases List.mem_cons.mp hin with he | hin
      · exact hgone g x hx (h.kept.number (hidle g x hx) hmem he).2
      · exact (h.told g x (hidle g x hx)).1 hin
    · rcases List.mem_cons.mp hk' with rfl | hk'
      · exact h.kept.past hmem
      · exact h.past k' (.inl hk')

/-- The stream of a request is none of another. -/
theorem Inv.other (h : m.Inv n) {i : Nat} {u : UpstreamPeer A × Stream A} (hu : m.used[i]? = some u) :
    u ∈ m.used ∧ ∀ v ∈ m.used.eraseIdx i, v.2.fd ≠ u.2.fd := by
  obtain ⟨hi, rfl⟩ := List.getElem?_eq_some_iff.mp hu
  refine ⟨List.getElem_mem hi, fun v hv he => ?_⟩
  have hnodup := ((List.getElem_cons_eraseIdx_perm hi).map (fun w => w.2.fd)).nodup_iff.mpr h.used
  rw [List.map_cons, List.nodup_cons] at hnodup
  exact hnodup.1 (he ▸ List.mem_map_of_mem hv)

/-- What a return does: the stream goes in, and what the cache drops goes out. -/
theorem Inv.return_spec (h : m.Inv n) (hn : 0 < n) {t : ThreadId} {i : Nat} {peer : UpstreamPeer A}
    {stream : Stream A} (hu : m.used[i]? = some (peer, stream)) :
    ∃ m', returnStreamConnection hasher t peer stream { m with used := m.used.eraseIdx i } = some m' ∧
      m'.Inv n ∧ m'.used = m.used.eraseIdx i ∧
      m'.tasks = (if peer.connectionTimeout.isSome then
        m.tasks ++ [⟨⟨peer.getGroupId hasher, stream.fd⟩, m.connectionPool.clock, false⟩] else m.tasks) ∧
      m'.connectionPool.clock = m.connectionPool.clock + 1 ∧
      ∀ g x, m'.Idle g x → g = peer.getGroupId hasher ∧ x = (stream.fd, m.connectionPool.clock, stream) ∨ m.Idle g x := by
  obtain ⟨hin, hother⟩ := h.other hu
  have hfresh : Shared.Fresh (.add t ⟨peer.getGroupId hasher, stream.fd⟩ stream) m.connectionPool := by
    intro g hmem
    obtain ⟨x, hx, hid⟩ := List.mem_map.mp hmem
    exact h.apart g x _ hx hin hid.symm
  obtain ⟨s', hs', hkept, hclock, hcreated, hheld, hdropped⟩ := h.kept.add hn hfresh
  have htasks : ∀ task ∈ (if peer.connectionTimeout.isSome then
      m.tasks ++ [⟨⟨peer.getGroupId hasher, stream.fd⟩, m.connectionPool.clock, false⟩] else m.tasks),
      task ∈ m.tasks ∨ task = ⟨⟨peer.getGroupId hasher, stream.fd⟩, m.connectionPool.clock, false⟩ := by
    intro task htask
    split at htask
    · exact (List.mem_append.mp htask).imp id List.mem_singleton.mp
    · exact .inl htask
  -- what the dropped entry's notifier tells is of no connection that stays
  have hold : ∀ e, m.connectionPool.pool.evictedBy t ⟨peer.getGroupId hasher, stream.fd⟩ = some e → ∀ k,
      s'.created t e.1 = some k → m.connectionPool.created t e.1 = some k := by
    intro e he k hk
    rw [hcreated, Shared.update_created, if_neg fun hno => (hdropped e he).1 hno.2] at hk
    exact hk
  have htold : ∀ k, k ∈ (match m.connectionPool.pool.evictedBy t ⟨peer.getGroupId hasher, stream.fd⟩ with
      | some (id, _) => (s'.created t id).toList ++ m.removed
      | none => m.removed) → k ∈ m.removed ∨ ∃ e,
        m.connectionPool.pool.evictedBy t ⟨peer.getGroupId hasher, stream.fd⟩ = some e ∧
          m.connectionPool.created t e.1 = some k := by
    intro k hk
    cases he : m.connectionPool.pool.evictedBy t ⟨peer.getGroupId hasher, stream.fd⟩ with
    | none =>
      rw [he] at hk
      exact .inl hk
    | some e =>
      rw [he] at hk
      rcases List.mem_append.mp hk with hk | hk
      · exact .inr ⟨e, rfl, hold e he k (Option.mem_toList.mp hk)⟩
      · exact .inl hk
  refine ⟨_, by unfold returnStreamConnection; exact congrArg (Option.map _) hs', ⟨hkept, fun g x hx => ?_, fun g x u hx hu' => ?_, ?_,
    fun g x hx => ⟨?_, fun hx' => ?_⟩, fun task htask g x hx hlistens => ?_, fun k hk => ?_⟩, rfl, rfl, hclock,
    fun g x hx => ?_⟩
  · rcases (hheld g x).mp hx with ⟨-, rfl⟩ | ⟨hx, -⟩
    · rfl
    · exact h.fd g x hx
  · rcases (hheld g x).mp hx with ⟨-, rfl⟩ | ⟨hx, -⟩
    · exact hother u hu'
    · exact h.apart g x u hx ((List.eraseIdx_sublist ..).subset hu')
  · exact ((List.eraseIdx_sublist ..).map _).nodup h.used
  · rcases (hheld g x).mp hx with ⟨rfl, rfl⟩ | ⟨hx, -⟩
    · exact fun hno => Nat.lt_irrefl _ (h.past _ (.inl hno))
    · exact (h.told g x hx).1
  · rcases (hheld g x).mp hx with ⟨rfl, rfl⟩ | ⟨hx, hkeeps⟩
    · rcases htold _ hx' with hno | ⟨e, -, hc⟩
      · exact Nat.lt_irrefl _ (h.past _ (.inr (.inl hno)))
      · exact Nat.lt_irrefl _ (h.kept.inv.past _ _ _ hc)
    · rcases htold _ hx' with hno | ⟨e, he, hc⟩
      · exact (h.told g x hx).2 hno
      · obtain ⟨hid, hg⟩ := h.kept.dropped (hdropped e he).2 hx hc
        rcases hkeeps e he with hno | hno
        · exact hno hid
        · exact hno hg
  · rcases htasks task htask with htask | rfl
    · rcases (hheld g x).mp hx with ⟨-, rfl⟩ | ⟨hx, -⟩
      · exact absurd (h.past _ (.inr (.inr ⟨task, htask, hlistens.symm⟩))) (Nat.lt_irrefl _)
      · exact h.task task htask g x hx hlistens
    · rcases (hheld g x).mp hx with ⟨rfl, rfl⟩ | ⟨hx, -⟩
      · exact ⟨rfl, rfl, rfl⟩
      · have hlt := h.kept.past hx
        rw [hlistens] at hlt
        exact absurd hlt (Nat.lt_irrefl _)
  · have hlt : k ∈ m.pickedUp ∨ k ∈ m.removed ∨ (∃ task ∈ m.tasks, task.listens = k) ∨ k = m.connectionPool.clock ∨
        k < m.connectionPool.clock := by
      rcases hk with hk | hk | ⟨task, htask, rfl⟩
      · exact .inl hk
      · rcases htold _ hk with hk | ⟨e, -, hc⟩
        · exact .inr (.inl hk)
        · exact .inr (.inr (.inr (.inr (h.kept.inv.past _ _ _ hc))))
      · rcases htasks task htask with htask | rfl
        · exact .inr (.inr (.inl ⟨task, htask, rfl⟩))
        · exact .inr (.inr (.inr (.inl rfl)))
    show k < s'.clock
    rw [hclock]
    rcases hlt with hk | hk | hk | rfl | hk
    · exact Nat.lt_succ_of_lt (h.past k (.inl hk))
    · exact Nat.lt_succ_of_lt (h.past k (.inr (.inl hk)))
    · exact Nat.lt_succ_of_lt (h.past k (.inr (.inr hk)))
    · exact Nat.lt_succ_self _
    · exact Nat.lt_succ_of_lt hk
  · rcases (hheld g x).mp hx with hx | ⟨hx, -⟩
    · exact .inl hx
    · exact .inr hx

/-- The task is done once its connection is not in the pool. -/
theorem Inv.finish (h : m.Inv n) {i : Nat} {task : IdleTask} (htask : m.tasks[i]? = some task)
    (hgone : ∀ g x, m.Idle g x → x.2.1 ≠ task.listens) :
    ({ m with tasks := m.tasks.set i { task with done := true } } : StreamManager Q C A).Inv n := by
  have hmem : ∀ t ∈ m.tasks.set i { task with done := true }, t ∈ m.tasks ∨ t = { task with done := true } :=
    fun t ht => List.mem_or_eq_of_mem_set ht
  refine ⟨h.kept, h.fd, h.apart, h.used, h.told, fun t ht g x hx hlistens => ?_, fun k hk => ?_⟩
  · rcases hmem t ht with ht | rfl
    · exact h.task t ht g x hx hlistens
    · exact absurd hlistens (hgone g x hx)
  · rcases hk with hk | hk | ⟨t, ht, rfl⟩
    · exact h.past k (.inl hk)
    · exact h.past k (.inr (.inl hk))
    · rcases hmem t ht with ht | rfl
      · exact h.past _ (.inr (.inr ⟨t, ht, rfl⟩))
      · exact h.past _ (.inr (.inr ⟨task, List.mem_of_getElem? htask, rfl⟩))

/-- A poll ends the task once its connection is not in the pool, and takes out that
    connection at most. -/
theorem Inv.timeout_spec (h : m.Inv n) {i : Nat} {task : IdleTask} (htask : m.tasks[i]? = some task)
    (t : ThreadId) (elapsed : Bool) (hs : connectionIdleTimeout t elapsed task m = some m') :
    m'.Inv n ∧ m'.tasks = m.tasks ∧ m'.used = m.used ∧
      m'.connectionPool.lastAdder = m.connectionPool.lastAdder ∧
      ∀ g x, m'.Idle g x ↔ m.Idle g x ∧ x.2.1 ≠ task.listens := by
  have hin := List.mem_of_getElem? htask
  unfold connectionIdleTimeout at hs
  split at hs
  · cases hs
    rename_i hready
    refine ⟨h, rfl, rfl, rfl, fun g x => ⟨fun hx => ⟨hx, fun hlistens => ?_⟩, fun hx => hx.1⟩⟩
    rcases Bool.or_eq_true_iff.mp hready with hsent | hdropped
    · exact (h.told g x hx).1 (hlistens ▸ of_decide_eq_true hsent)
    · obtain ⟨rfl, -, -⟩ := h.task task hin g x hx hlistens
      rw [Bool.not_eq_true', List.any_eq_false] at hdropped
      exact hdropped x hx (beq_iff_eq.mpr hlistens)
  · rename_i hready
    split at hs
    · cases hs
      refine ⟨h, rfl, rfl, rfl, fun g x => ⟨fun hx => ⟨hx, fun hlistens => ?_⟩, fun hx => hx.1⟩⟩
      exact (h.told g x hx).2 (hlistens ▸ ‹_›)
    · split at hs
      · -- the connection is still there, so what is held under its id is it
        rw [pickupReady, Bool.or_eq_true, not_or, Bool.not_eq_true', Bool.not_eq_false, List.any_eq_true] at hready
        obtain ⟨y, hy, hylistens⟩ := hready.2
        rw [beq_iff_eq] at hylistens
        obtain ⟨-, hyid, -⟩ := h.task task hin _ y hy hylistens
        obtain ⟨p, hp, hkept, hheld⟩ := h.kept.close t (m := task.metadata)
          fun g x hx hid => (h.kept.once g _ x y hx hy (hid.trans hyid.symm)).1
        rw [hp] at hs
        cases hs
        have hidle : ∀ g x, x ∈ p.held g ↔ m.Idle g x ∧ x.2.1 ≠ task.listens := by
          intro g x
          rw [hheld]
          refine and_congr_right fun hx => ?_
          constructor
          · intro hne hlistens
            obtain ⟨hg, hid, -⟩ := h.task task hin g x hx hlistens
            exact hne hg hid
          · intro hne hg hid
            have heq := (h.kept.once g _ x y hx hy (hid.trans hyid.symm)).2
            exact hne (heq ▸ hylistens)
        exact ⟨h.less m.pickedUp hkept (fun g x hx => ((hidle g x).mp hx).1)
          (fun g x hx => (h.told g x ((hidle g x).mp hx).1).1) (fun k hk => h.past k (.inl hk)), rfl, rfl, rfl, hidle⟩
      · cases hs

theorem Inv.poll_spec (h : m.Inv n) {t : ThreadId} {i : Nat} {elapsed : Bool} {task : IdleTask}
    (htask : m.tasks[i]? = some task) (hs : step hasher (.poll t i elapsed) m = some m') :
    m'.Inv n ∧ task.done = false ∧ m'.tasks = m.tasks.set i { task with done := true } ∧
      m'.used = m.used ∧ m'.connectionPool.lastAdder = m.connectionPool.lastAdder ∧
      ∀ g x, m'.Idle g x ↔ m.Idle g x ∧ x.2.1 ≠ task.listens := by
  simp only [step, htask] at hs
  split at hs
  · cases hs
  · rename_i hdone
    obtain ⟨m1, h1, rfl⟩ := Option.map_eq_some_iff.mp hs
    obtain ⟨hinv, htasks, hused, hadder, hidle⟩ := h.timeout_spec htask t elapsed h1
    refine ⟨?_, Bool.eq_false_iff.mpr hdone, by show m1.tasks.set i _ = _; rw [htasks], hused, hadder, hidle⟩
    have hin : m1.tasks[i]? = some task := by rw [htasks]; exact htask
    exact hinv.finish hin fun g x hx => ((hidle g x).mp hx).2

theorem Inv.step (h : m.Inv n) (hn : 0 < n) {e : Event A} (hp : Promise peers e m)
    (hs : StreamManager.step hasher e m = some m') : m'.Inv n := by
  cases e with
  | get t first peer dialled => exact (h.get_spec hp hs).1
  | giveBack t i =>
    simp only [StreamManager.step] at hs
    split at hs
    · rename_i peer stream hu
      obtain ⟨m1, h1, hinv, -⟩ := h.return_spec hn hu
      cases h1.symm.trans hs
      exact hinv
    · cases hs
  | fail i =>
    simp only [StreamManager.step] at hs
    split at hs
    · cases hs
      exact h.unuse i
    · cases hs
  | poll t i elapsed =>
    cases htask : m.tasks[i]? with
    | none =>
      simp only [StreamManager.step, htask] at hs
      cases hs
    | some task => exact (h.poll_spec htask hs).1

theorem inv_run (hn : 0 < n) {evs : List (Event A)}
    (h : Run (StreamManager.step hasher) (Promise peers) (new n) evs m) : m.Inv n :=
  h.invariant (fun _ _ _ hi hp hs => hi.step hn hp hs) (inv_new n)

/-! ## Where a stream leads -/

/-- A stream leads to the address of its peer, or of one of the group it is idle under. -/
structure Addressed (hasher : String × String × A → ConnectionGroupId) (peers : List (UpstreamPeer A))
    (m : StreamManager Q C A) : Prop where
  idle : ∀ g x, m.Idle g x → ∃ p ∈ peers, p.getGroupId hasher = g ∧ p.address = x.2.2.address
  used : ∀ u ∈ m.used, u.1 ∈ peers ∧ u.2.address = u.1.address

theorem Addressed.step (ha : m.Addressed hasher peers) (h : m.Inv n) (hn : 0 < n) (hone : OneAddress hasher peers)
    {e : Event A} (hp : Promise peers e m) (hs : StreamManager.step hasher e m = some m') :
    m'.Addressed hasher peers := by
  cases e with
  | get t first peer dialled =>
    obtain ⟨-, hidle, hused⟩ := h.get_spec hp hs
    refine ⟨fun g x hx => ha.idle g x (hidle g x hx), fun u hu => ?_⟩
    rcases hused u hu with hu | ⟨rfl, haddress | ⟨k, hmem⟩⟩
    · exact ha.used u hu
    · exact ⟨hp.1, haddress⟩
    · obtain ⟨q, hq, hgroup, haddress⟩ := ha.idle _ _ hmem
      exact ⟨hp.1, haddress.symm.trans (hone q hq u.1 hp.1 hgroup)⟩
  | giveBack t i =>
    simp only [StreamManager.step] at hs
    split at hs
    · rename_i peer stream hu
      obtain ⟨m1, h1, -, hused, -, -, hidle⟩ := h.return_spec hn hu
      cases h1.symm.trans hs
      refine ⟨fun g x hx => ?_, fun u hu => ha.used u ((List.eraseIdx_sublist ..).subset (hused ▸ hu))⟩
      rcases hidle g x hx with ⟨rfl, rfl⟩ | hx
      · obtain ⟨hpeer, haddress⟩ := ha.used _ (h.other hu).1
        exact ⟨peer, hpeer, rfl, haddress.symm⟩
      · exact ha.idle g x hx
    · cases hs
  | fail i =>
    simp only [StreamManager.step] at hs
    split at hs
    · cases hs
      exact ⟨ha.idle, fun u hu => ha.used u ((List.eraseIdx_sublist ..).subset hu)⟩
    · cases hs
  | poll t i elapsed =>
    cases htask : m.tasks[i]? with
    | none =>
      simp only [StreamManager.step, htask] at hs
      cases hs
    | some task =>
      obtain ⟨-, -, -, hused, -, hidle⟩ := h.poll_spec htask hs
      exact ⟨fun g x hx => ha.idle g x ((hidle g x).mp hx).1, fun u hu => ha.used u (hused ▸ hu)⟩

theorem addressed_run (hn : 0 < n) (hone : OneAddress hasher peers) {evs : List (Event A)}
    (h : Run (StreamManager.step hasher) (Promise peers) (new n) evs m) : m.Addressed hasher peers := by
  have hboth := h.invariant (I := fun m => m.Inv n ∧ m.Addressed hasher peers)
    (fun _ _ _ hi hp hs => ⟨hi.1.step hn hp hs, hi.2.step hi.1 hn hone hp hs⟩) ⟨inv_new n, ⟨nofun, nofun⟩⟩
  exact hboth.2

/-! ## Who has a stream -/

/-- Each open socket is in one place: with one request, or in the pool once, under its
    descriptor. The stream of a request leads to the address of its peer. -/
theorem one_owner (hn : 0 < n) (hone : OneAddress hasher peers) {evs : List (Event A)}
    (h : Run (StreamManager.step hasher) (Promise peers) (new n) evs m) :
    (m.used.map (·.2.fd)).Nodup ∧
      (∀ g x, m.Idle g x → x.2.2.fd = x.1 ∧ ∀ u ∈ m.used, u.2.fd ≠ x.2.2.fd) ∧
      (∀ g g' x x', m.Idle g x → m.Idle g' x' → x.2.2.fd = x'.2.2.fd → g = g' ∧ x = x') ∧
      ∀ u ∈ m.used, u.2.address = u.1.address := by
  have hi := inv_run hn h
  refine ⟨hi.used, fun g x hx => ⟨hi.fd g x hx, fun u hu => ?_⟩, fun g g' x x' hx hx' hfd => ?_,
    fun u hu => ((addressed_run hn hone h).used u hu).2⟩
  · rw [hi.fd g x hx]
    exact hi.apart g x u hx hu
  · rw [hi.fd g x hx, hi.fd g' x' hx'] at hfd
    exact hi.kept.once g g' x x' hx hx' hfd

section

variable [DecidableEq A]

/-- `Promise`, as it is checked: idle streams are in groups of peers. -/
def promised (hasher : String × String × A → ConnectionGroupId) (peers : List (UpstreamPeer A)) (e : Event A)
    (m : StreamManager Q C A) : Bool :=
  match e with
  | .get _ _ peer dialled => decide (peer ∈ peers) && dialled.all fun fd =>
      m.used.all (·.2.fd != fd) && peers.all fun p => (m.connectionPool.pool.held (p.getGroupId hasher)).all (·.2.2.fd != fd)
  | _ => true

omit [RecencyCache C] in
theorem Addressed.promise (ha : m.Addressed hasher peers) {e : Event A} (h : promised hasher peers e m = true) :
    Promise peers e m := by
  cases e with
  | get t first peer dialled =>
    rw [promised, Bool.and_eq_true, decide_eq_true_eq] at h
    refine ⟨h.1, fun fd hfd hopen => ?_⟩
    have hall := h.2
    rw [hfd, Option.all_some, Bool.and_eq_true, List.all_eq_true, List.all_eq_true] at hall
    rcases hopen with ⟨u, hu, he⟩ | ⟨g, x, hx, he⟩
    · exact bne_iff_ne.mp (hall.1 u hu) he
    · obtain ⟨p, hp, rfl, -⟩ := ha.idle g x hx
      exact bne_iff_ne.mp (List.all_eq_true.mp (hall.2 p hp) x hx) he
  | giveBack t i => trivial
  | fail i => trivial
  | poll t i elapsed => trivial

theorem promise_run (hn : 0 < n) (hone : OneAddress hasher peers) {evs : List (Event A)}
    (h : Run (StreamManager.step hasher) (fun e m => promised hasher peers e m = true) (new n) evs m) :
    Run (StreamManager.step hasher) (Promise peers) (new n) evs m := by
  have hchecked := h.carry (I := fun m => m.Inv n ∧ m.Addressed hasher peers)
    (fun _ _ _ hi hp hs => ⟨hi.1.step hn (hi.2.promise hp) hs, hi.2.step hi.1 hn hone (hi.2.promise hp) hs⟩)
    ⟨inv_new n, ⟨nofun, nofun⟩⟩
  exact hchecked.imp (I := fun _ => True) (fun _ _ _ _ _ => trivial) (fun _ _ _ _ _ hp => hp.1.2.promise hp.2) trivial

end

/-- One node with a timeout and one without; the hash is the address. -/
def watched : UpstreamPeer UInt64 := ⟨"node 1", "service", 1, some 60⟩

def unwatched : UpstreamPeer UInt64 := ⟨"node 2", "service", 2, none⟩

def byAddress (key : String × String × UInt64) : ConnectionGroupId := key.2.2

theorem byAddress_oneAddress : OneAddress byAddress [watched, unwatched] := fun _ _ _ _ h => h

/-- The stream on descriptor 5 is returned, picked up and closed, and the next one to the
    node has its descriptor. -/
def comesAgain : List (Event UInt64) :=
  [.get 1 0 watched (some 5), .giveBack 2 0, .get 1 0 watched none, .fail 0, .get 3 0 watched (some 5)]

/-- It is returned too, and two streams to the other node are dialled. -/
def bothIdle : List (Event UInt64) :=
  [.giveBack 3 0, .get 1 0 unwatched (some 6), .get 2 0 unwatched (some 7), .giveBack 2 1]

def managerAfter (evs : List (Event UInt64)) : StreamManager ListQueue ListCache UInt64 :=
  (stepAll (StreamManager.step byAddress) (fun e m => promised byAddress [watched, unwatched] e m = true) evs (new 2)).getD
    (new 2)

theorem managerAfter_run {evs : List (Event UInt64)}
    (h : (stepAll (StreamManager.step byAddress) (fun e m => promised byAddress [watched, unwatched] e m = true) evs
      (new 2 : StreamManager ListQueue ListCache UInt64)).isSome) :
    Run (StreamManager.step byAddress) (Promise [watched, unwatched]) (new 2) evs (managerAfter evs) := by
  obtain ⟨m, hm⟩ := Option.isSome_iff_exists.mp h
  rw [managerAfter, hm, Option.getD_some]
  exact promise_run (by decide) byAddress_oneAddress (run_of_stepAll hm)

theorem bothIdle_run : Run (StreamManager.step byAddress) (Promise [watched, unwatched]) (new 2)
    (comesAgain ++ bothIdle) (managerAfter (comesAgain ++ bothIdle)) := managerAfter_run (by decide)

/-- A request has the stream on descriptor 6, and 5 and 7 are idle. -/
theorem one_owner_reused :
    (managerAfter (comesAgain ++ bothIdle)).Idle 1 (5, 1, ⟨5, 1⟩) ∧
      (managerAfter (comesAgain ++ bothIdle)).Idle 2 (7, 2, ⟨7, 2⟩) ∧
      (managerAfter (comesAgain ++ bothIdle)).used = [(unwatched, ⟨6, 2⟩)] ∧
      ∀ u ∈ (managerAfter (comesAgain ++ bothIdle)).used, u.2.fd ≠ 5 ∧ u.2.address = u.1.address := by
  obtain ⟨-, hidle, -, haddress⟩ := one_owner (by decide) byAddress_oneAddress bothIdle_run
  have hfive : (managerAfter (comesAgain ++ bothIdle)).Idle 1 (5, 1, ⟨5, 1⟩) := by unfold Idle; decide
  have hseven : (managerAfter (comesAgain ++ bothIdle)).Idle 2 (7, 2, ⟨7, 2⟩) := by unfold Idle; decide
  exact ⟨hfive, hseven, by decide, fun u hu => ⟨(hidle 1 _ hfive).2 u hu, haddress u hu⟩⟩

/-! ## Idle timeouts -/

/-- Getting a stream adds nothing to the pool and spawns no task. -/
theorem get_frame {t : ThreadId} {first : Nat} {peer : UpstreamPeer A} {dialled : Option ConnectionId}
    (hs : StreamManager.step hasher (.get t first peer dialled) m = some m') :
    m'.tasks = m.tasks ∧ m'.connectionPool.lastAdder = m.connectionPool.lastAdder := by
  have hfind : (findConnectionStream hasher t first peer m).2.tasks = m.tasks ∧
      (findConnectionStream hasher t first peer m).2.connectionPool.lastAdder = m.connectionPool.lastAdder := by
    unfold findConnectionStream
    split
    · exact ⟨rfl, rfl⟩
    · exact ⟨rfl, rfl⟩
  have hget : (getStreamConnection hasher t first peer dialled m).2 = (findConnectionStream hasher t first peer m).2 := by
    unfold getStreamConnection
    split
    · rename_i heq
      rw [heq]
    · rename_i heq
      rw [heq]
  rw [← hget] at hfind
  simp only [StreamManager.step] at hs
  split at hs
  · rename_i heq
    cases hs
    rw [heq] at hfind
    exact hfind
  · rename_i heq
    cases hs
    rw [heq] at hfind
    exact hfind

/-- A task stays, and listens to the same notifiers. -/
theorem Inv.listens_step (h : m.Inv n) (hn : 0 < n) {e : Event A}
    (hs : StreamManager.step hasher e m = some m') {i : Nat} {task : IdleTask} (htask : m.tasks[i]? = some task) :
    ∃ task', m'.tasks[i]? = some task' ∧ task'.listens = task.listens := by
  cases e with
  | get t first peer dialled => exact ⟨task, by rw [(get_frame hs).1]; exact htask, rfl⟩
  | giveBack t j =>
    simp only [StreamManager.step] at hs
    split at hs
    · rename_i peer stream hu
      obtain ⟨m1, h1, -, -, htasks, -⟩ := h.return_spec hn hu
      cases h1.symm.trans hs
      refine ⟨task, ?_, rfl⟩
      rw [htasks]
      split
      · rw [List.getElem?_append_left (List.getElem?_eq_some_iff.mp htask).1]
        exact htask
      · exact htask
    · cases hs
  | fail j =>
    simp only [StreamManager.step] at hs
    split at hs
    · cases hs
      exact ⟨task, htask, rfl⟩
    · cases hs
  | poll t j elapsed =>
    cases hj : m.tasks[j]? with
    | none =>
      simp only [StreamManager.step, hj] at hs
      cases hs
    | some other =>
      obtain ⟨-, -, htasks, -⟩ := h.poll_spec hj hs
      rw [htasks]
      by_cases hij : j = i
      · subst hij
        cases htask.symm.trans hj
        exact ⟨_, List.getElem?_set_self (List.getElem?_eq_some_iff.mp htask).1, rfl⟩
      · exact ⟨task, by rw [List.getElem?_set_ne hij]; exact htask, rfl⟩

/-- Where its peer has a timeout, a returned stream is watched as long as it is idle: a
    task is there, and when its sleep is over takes that connection out of the pool and
    no other. -/
theorem timeout_watches (hn : 0 < n) {evs evs' : List (Event A)} {m1 m2 : StreamManager Q C A}
    (h : Run (StreamManager.step hasher) (Promise peers) (new n) evs m) {t : ThreadId}
    {i : Nat} {peer : UpstreamPeer A} {stream : Stream A} (hu : m.used[i]? = some (peer, stream))
    (htimeout : peer.connectionTimeout.isSome) (hback : StreamManager.step hasher (.giveBack t i) m = some m1)
    (hlater : Run (StreamManager.step hasher) (Promise peers) m1 evs' m2) {g : ConnectionGroupId}
    {x : ConnectionId × Nat × Stream A} (hx : m2.Idle g x) (hnumber : x.2.1 = m.connectionPool.clock) :
    ∃ j, ∀ u, ∃ m3, StreamManager.step hasher (.poll u j true) m2 = some m3 ∧
      ∀ g' y, m3.Idle g' y ↔ m2.Idle g' y ∧ ¬ (g' = g ∧ y = x) := by
  have hi := inv_run hn h
  obtain ⟨m1', h1, hi1, -, htasks, -⟩ := hi.return_spec hn (t := t) hu
  have hm1 : m1' = m1 := by
    simp only [StreamManager.step, hu] at hback
    exact Option.some.inj (h1.symm.trans hback)
  subst hm1
  rw [if_pos htimeout] at htasks
  -- the task spawned with the return, at its place in the list
  have hspawned : ∃ task, m1'.tasks[m.tasks.length]? = some task ∧ task.listens = m.connectionPool.clock :=
    ⟨_, by rw [htasks, List.getElem?_concat_length], rfl⟩
  obtain ⟨hi2, task, htask, hlistens⟩ : m2.Inv n ∧
      ∃ task, m2.tasks[m.tasks.length]? = some task ∧ task.listens = m.connectionPool.clock := by
    refine hlater.invariant (I := fun m' => m'.Inv n ∧
      ∃ task, m'.tasks[m.tasks.length]? = some task ∧ task.listens = m.connectionPool.clock) ?_ ⟨hi1, hspawned⟩
    rintro e a b ⟨ha, task, htask, hlistens⟩ hp hs
    obtain ⟨task', htask', hsame⟩ := ha.listens_step hn hs htask
    exact ⟨ha.step hn hp hs, task', htask', hsame.trans hlistens⟩
  obtain ⟨hg, -, hdone⟩ := hi2.task task (List.mem_of_getElem? htask) g x hx (hnumber.trans hlistens.symm)
  refine ⟨m.tasks.length, fun u => ?_⟩
  obtain ⟨m3, h3⟩ : ∃ m3, StreamManager.step hasher (.poll u m.tasks.length true) m2 = some m3 := by
    simp only [StreamManager.step, htask, hdone, Bool.false_eq_true, if_false]
    unfold connectionIdleTimeout
    split
    · exact ⟨_, rfl⟩
    · split
      · exact ⟨_, rfl⟩
      · obtain ⟨p, hp, -⟩ := ConnectionPool.removeConnection_spec hi2.kept.inv.sound u task.metadata
        rw [if_pos rfl, hp]
        exact ⟨_, rfl⟩
  refine ⟨m3, h3, fun g' y => ?_⟩
  rw [(hi2.poll_spec htask h3).2.2.2.2.2 g' y]
  refine and_congr_right fun hy => not_congr ?_
  rw [hlistens, ← hnumber]
  constructor
  · exact fun he => hi2.kept.number hy hx he
  · intro he
    rw [he.2]

/-- The second stream on descriptor 5 is watched by the second task. -/
theorem timeout_watches_reused :
    ∃ j, ∀ u, ∃ m, StreamManager.step byAddress (.poll u j true) (managerAfter (comesAgain ++ bothIdle)) = some m ∧
      ∀ g' y, m.Idle g' y ↔ (managerAfter (comesAgain ++ bothIdle)).Idle g' y ∧ ¬ (g' = 1 ∧ y = (5, 1, ⟨5, 1⟩)) := by
  obtain ⟨m, hbefore, hafter⟩ := bothIdle_run.split
  cases hbefore.unique (managerAfter_run (by decide : (stepAll _ _ comesAgain _).isSome))
  cases hafter with
  | cons _ hback hlater =>
    have hused : (managerAfter comesAgain).used[0]? = some (watched, ⟨5, 1⟩) := by decide
    have hidle : (managerAfter (comesAgain ++ bothIdle)).Idle 1 (5, 1, ⟨5, 1⟩) := by unfold Idle; decide
    exact timeout_watches (by decide) hbefore hused rfl hback hlater hidle rfl

/-! ## How many streams are idle -/

theorem Inv.adder_step (h : m.Inv n) {ws : List ThreadId}
    (hws : ∀ id t, m.connectionPool.lastAdder id = some t → t ∈ ws) {e : Event A} (he : e.On ws)
    (hs : StreamManager.step hasher e m = some m') : ∀ id t, m'.connectionPool.lastAdder id = some t → t ∈ ws := by
  cases e with
  | get t first peer dialled =>
    rw [(get_frame hs).2]
    exact hws
  | giveBack t j =>
    simp only [StreamManager.step] at hs
    split at hs
    · obtain ⟨s, hadd, rfl⟩ := Option.map_eq_some_iff.mp hs
      simp only [Shared.step] at hadd
      obtain ⟨p, -, rfl⟩ := Option.map_eq_some_iff.mp hadd
      intro id u hu
      simp only [Function.update_apply] at hu
      split at hu
      · cases hu
        exact he
      · exact hws id u hu
    · cases hs
  | fail j =>
    simp only [StreamManager.step] at hs
    split at hs
    · cases hs
      exact hws
    · cases hs
  | poll t j elapsed =>
    cases hj : m.tasks[j]? with
    | none =>
      simp only [StreamManager.step, hj] at hs
      cases hs
    | some task =>
      rw [(h.poll_spec hj hs).2.2.2.2.1]
      exact hws

theorem length_flatMap_le {α β : Type} {f : α → List β} (hf : ∀ a, (f a).length ≤ n) (l : List α) :
    (l.flatMap f).length ≤ n * l.length := by
  induction l with
  | nil => exact Nat.zero_le _
  | cons a l ih =>
    rw [List.flatMap_cons, List.length_append, List.length_cons, Nat.mul_succ]
    have := hf a
    omega

/-- Entries that went stale and entries dropped for another's connection notwithstanding,
    each worker that returns streams keeps `n` of them idle at most. -/
theorem idle_bounded (hn : 0 < n) {ws : List ThreadId} {evs : List (Event A)}
    (h : Run (StreamManager.step hasher) (fun e m => Promise peers e m ∧ e.On ws) (new n) evs m)
    (groups : List ConnectionGroupId) (hgroups : groups.Nodup) :
    (groups.flatMap m.connectionPool.pool.held).length ≤ n * ws.length := by
  obtain ⟨hi, hws⟩ : m.Inv n ∧ ∀ id t, m.connectionPool.lastAdder id = some t → t ∈ ws := by
    refine h.invariant (I := fun m' => m'.Inv n ∧
      ∀ id t, m'.connectionPool.lastAdder id = some t → t ∈ ws) ?_ ⟨inv_new n, nofun⟩
    rintro e a b ⟨ha, hws⟩ ⟨hp, he⟩ hs
    exact ⟨ha.step hn hp hs, ha.adder_step hws he hs⟩
  have hids : ((groups.flatMap m.connectionPool.pool.held).map Prod.fst).Nodup := by
    rw [List.map_flatMap, List.nodup_flatMap]
    refine ⟨fun g _ => hi.kept.inv.sound.nodup g, hgroups.imp fun {g g'} hne => ?_⟩
    intro id hid hid'
    obtain ⟨x, hx, rfl⟩ := List.mem_map.mp hid
    obtain ⟨x', hx', he⟩ := List.mem_map.mp hid'
    exact hne (hi.kept.once g g' x x' hx hx' he.symm).1
  have hsub : (groups.flatMap m.connectionPool.pool.held).map Prod.fst ⊆
      ws.flatMap fun t => (m.connectionPool.pool.cached t).map Prod.fst := by
    intro id hid
    obtain ⟨x, hx, rfl⟩ := List.mem_map.mp hid
    obtain ⟨g, -, hx⟩ := List.mem_flatMap.mp hx
    obtain ⟨t, ht, -⟩ := hi.kept.inv.stored g x.1 x.2.1 x.2.2 hx
    obtain ⟨e, he, heid, -⟩ := hi.kept.entry g x t hx ht
    exact List.mem_flatMap.mpr ⟨t, hws _ t ht, heid ▸ List.mem_map_of_mem he⟩
  have hlength := (List.subperm_of_subset hids hsub).length_le
  rw [List.length_map] at hlength
  refine Nat.le_trans hlength (length_flatMap_le (fun t => ?_) ws)
  rw [List.length_map]
  exact hi.kept.fits t

/-- Two workers and two groups. -/
theorem idle_bounded_reused :
    ([1, 2].flatMap (managerAfter (comesAgain ++ bothIdle)).connectionPool.pool.held).length ≤ 2 * [2, 3].length := by
  have hon : ∀ e ∈ comesAgain ++ bothIdle, e.On [2, 3] := by decide
  exact idle_bounded (by decide) (bothIdle_run.both (bothIdle_run.of_events fun e he _ => hon e he)) [1, 2] (by decide)

end StreamManager

end Glaive.Pool
