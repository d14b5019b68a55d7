/-
  Glaive.Lib.Io — sockets as scripts, and the ways an `async fn` over one can stop.

  A socket is the list of what its successive reads find and the list of how its
  successive writes end; every run of a program over it is a run over some script, so
  a statement about every script is about every peer and every segmentation. A read
  that finds more bytes than its buffer takes what fits and leaves the rest.

  An `async fn` ends with a value, an `Err`, or a panic, or waits at an await when the
  script has nothing more for it. A future dropped there leaves the state it had
  reached, which is the state returned with `pending`.
-/

import Glaive.Lib.Bytes

namespace Glaive.Lib

/-- `std::io::Error`: made by the code (`ErrorKind::Other` with a text), given by the
    system, or a text around another one. -/
inductive IoError where
  | other (text : String)
  | os (code : Nat)
  | wrapped (text : String) (cause : IoError)
  deriving DecidableEq, Repr

inductive Out (α : Type) where
  | ok (a : α)
  | err (e : IoError)
  | pending
  | panic (text : String)
  deriving DecidableEq, Repr

def Out.isErr {α : Type} : Out α → Bool
  | .err _ => true
  | _ => false

/-- Code over a state `σ` that may stop early, in whatever state it has reached. -/
abbrev Async (σ α : Type) : Type := σ → Out α × σ

namespace Async

variable {σ α β : Type}

instance : Monad (Async σ) where
  pure a s := (.ok a, s)
  bind x f s := match x s with
    | (.ok a, s) => f a s
    | (.err e, s) => (.err e, s)
    | (.pending, s) => (.pending, s)
    | (.panic t, s) => (.panic t, s)

def get : Async σ σ := fun s => (.ok s, s)

def modify (f : σ → σ) : Async σ Unit := fun s => (.ok (), f s)

/-- Stop here with `o`. -/
def stop (o : Out α) : Async σ α := fun s => (o, s)

/-- Run code over a part of the state. -/
def zoom {τ : Type} (part : σ → τ) (put : σ → τ → σ) (x : Async τ α) : Async σ α := fun s =>
  let r := x (part s)
  (r.1, put s r.2)

/-- Run for the effect and the errors. -/
def ignore (x : Async σ α) : Async σ Unit := do
  let _ ← x
  return

/-- `a && b`: `b` is not run when `a` is false. -/
def andAlso (a : Bool) (b : Async σ Bool) : Async σ Bool := if a then b else pure false

/-- `a || b`. -/
def orElse (a : Bool) (b : Async σ Bool) : Async σ Bool := if a then pure true else b

@[simp] theorem andAlso_false (b : Async σ Bool) : andAlso false b = pure false := rfl
@[simp] theorem andAlso_true (b : Async σ Bool) : andAlso true b = b := rfl
@[simp] theorem orElse_false (b : Async σ Bool) : orElse false b = b := rfl
@[simp] theorem orElse_true (b : Async σ Bool) : orElse true b = pure true := rfl
@[simp] theorem pure_apply (a : α) (s : σ) : (pure a : Async σ α) s = (.ok a, s) := rfl
@[simp] theorem modify_apply (f : σ → σ) (s : σ) : modify f s = (.ok (), f s) := rfl
@[simp] theorem stop_apply (o : Out α) (s : σ) : (stop o : Async σ α) s = (o, s) := rfl
@[simp] theorem zoom_apply {τ : Type} (part : σ → τ) (put : σ → τ → σ) (x : Async τ α) (s : σ) :
    zoom part put x s = ((x (part s)).1, put s (x (part s)).2) := rfl

theorem bind_apply (x : Async σ α) (f : α → Async σ β) (s : σ) : (x >>= f) s = match x s with
    | (.ok a, s) => f a s
    | (.err e, s) => (.err e, s)
    | (.pending, s) => (.pending, s)
    | (.panic t, s) => (.panic t, s) := rfl

@[simp] theorem pure_bind_apply (a : α) (f : α → Async σ β) (s : σ) : ((pure a : Async σ α) >>= f) s = f a s := rfl
@[simp] theorem get_bind_apply (f : σ → Async σ β) (s : σ) : ((get : Async σ σ) >>= f) s = f s s := rfl
@[simp] theorem modify_bind_apply (g : σ → σ) (f : Unit → Async σ β) (s : σ) : (modify g >>= f) s = f () (g s) := rfl

theorem bind_ok {x : Async σ α} {f : α → Async σ β} {s s' : σ} {a : α} (h : x s = (.ok a, s')) :
    (x >>= f) s = f a s' := by rw [bind_apply, h]

theorem bind_err {x : Async σ α} {f : α → Async σ β} {s s' : σ} {e : IoError} (h : x s = (.err e, s')) :
    (x >>= f) s = (.err e, s') := by rw [bind_apply, h]

theorem ignore_ok {x : Async σ α} {s s' : σ} {a : α} (h : x s = (.ok a, s')) : ignore x s = (.ok (), s') := by
  unfold ignore; rw [bind_ok h]; rfl

theorem ignore_snd (x : Async σ α) (s : σ) : (ignore x s).2 = (x s).2 := by
  unfold ignore
  rw [bind_apply]
  split <;> rename_i h <;> rw [h]
  rfl

/-- A sequence ends with a value only through its first part's value. -/
theorem of_bind_ok {x : Async σ α} {f : α → Async σ β} {s t : σ} {b : β} (h : (x >>= f) s = (.ok b, t)) :
    ∃ a s', x s = (.ok a, s') ∧ f a s' = (.ok b, t) := by
  rw [bind_apply] at h
  split at h
  · exact ⟨_, _, ‹_›, h⟩
  all_goals cases h

theorem of_zoom_ok {τ : Type} {part : σ → τ} {put : σ → τ → σ} {x : Async τ α} {s s' : σ} {a : α}
    (h : zoom part put x s = (.ok a, s')) : ∃ t, x (part s) = (.ok a, t) ∧ s' = put s t := by
  rw [zoom_apply, Prod.mk.injEq] at h
  exact ⟨_, Prod.ext h.1 rfl, h.2.symm⟩

/-! ## What code leaves alone -/

/-- Running `x` does not change `f` of the state, however it ends. -/
def Keeps {τ : Type} (f : σ → τ) (x : Async σ α) : Prop := ∀ s, f (x s).2 = f s

variable {τ : Type} {f : σ → τ}

theorem Keeps.pure (a : α) : Keeps f (Pure.pure a : Async σ α) := fun _ => rfl

theorem Keeps.get : Keeps f (Async.get : Async σ σ) := fun _ => rfl

theorem Keeps.stop (o : Out α) : Keeps f (Async.stop o : Async σ α) := fun _ => rfl

theorem Keeps.modify {g : σ → σ} (h : ∀ s, f (g s) = f s) : Keeps f (Async.modify g) := h

theorem Keeps.comp {υ : Type} {x : Async σ α} (g : τ → υ) (h : Keeps f x) : Keeps (fun s => g (f s)) x :=
  fun s => congrArg g (h s)

theorem Keeps.bind {x : Async σ α} {y : α → Async σ β} (hx : Keeps f x) (hy : ∀ a, Keeps f (y a)) :
    Keeps f (x >>= y) := by
  intro s
  have h := hx s
  rw [bind_apply]
  split <;> rename_i heq <;> rw [heq] at h
  · exact (hy _ _).trans h
  all_goals exact h

theorem Keeps.ite {c : Prop} [Decidable c] {x y : Async σ α} (hx : Keeps f x) (hy : Keeps f y) :
    Keeps f (if c then x else y) := by split <;> assumption

theorem Keeps.andAlso (a : Bool) {x : Async σ Bool} (hx : Keeps f x) : Keeps f (Async.andAlso a x) := by
  cases a
  · exact Keeps.pure false
  · exact hx

/-! ## What code keeps true -/

/-- Running `x` from a state in `I` leaves one in `I`, however it ends. -/
def Stays (I : σ → Prop) (x : Async σ α) : Prop := ∀ s, I s → I (x s).2

variable {I : σ → Prop}

theorem Stays.pure (a : α) : Stays I (Pure.pure a : Async σ α) := fun _ => id

theorem Stays.get : Stays I (Async.get : Async σ σ) := fun _ => id

theorem Stays.stop (o : Out α) : Stays I (Async.stop o : Async σ α) := fun _ => id

theorem Stays.modify {g : σ → σ} (h : ∀ s, I s → I (g s)) : Stays I (Async.modify g) := h

theorem Stays.bind {x : Async σ α} {y : α → Async σ β} (hx : Stays I x) (hy : ∀ a, Stays I (y a)) :
    Stays I (x >>= y) := by
  intro s hs
  have h := hx s hs
  rw [bind_apply]
  split <;> rename_i heq <;> rw [heq] at h
  · exact hy _ _ h
  all_goals exact h

theorem Stays.ignore {x : Async σ α} (hx : Stays I x) : Stays I (Async.ignore x) := .bind hx fun _ => .pure _

theorem Stays.ite {c : Prop} [Decidable c] {x y : Async σ α} (hx : Stays I x) (hy : Stays I y) :
    Stays I (if c then x else y) := by split <;> assumption

theorem Stays.andAlso (a : Bool) {x : Async σ Bool} (hx : Stays I x) : Stays I (Async.andAlso a x) := by
  cases a
  · exact Stays.pure false
  · exact hx

/-! ## Code that does not wait -/

def Prompt (x : Async σ α) : Prop := ∀ s, (x s).1 ≠ .pending

theorem Prompt.pure (a : α) : Prompt (Pure.pure a : Async σ α) := nofun

theorem Prompt.get : Prompt (Async.get : Async σ σ) := nofun

theorem Prompt.modify (g : σ → σ) : Prompt (Async.modify g) := nofun

theorem Prompt.bind {x : Async σ α} {y : α → Async σ β} (hx : Prompt x) (hy : ∀ a, Prompt (y a)) :
    Prompt (x >>= y) := by
  intro s
  have h := hx s
  rw [bind_apply]
  split <;> rename_i heq
  · exact hy _ _
  · nofun
  · rw [heq] at h
    exact absurd rfl h
  · nofun

theorem Prompt.ite {c : Prop} [Decidable c] {x y : Async σ α} (hx : Prompt x) (hy : Prompt y) :
    Prompt (if c then x else y) := by split <;> assumption

/-- A sequence waits in its first part, if the second does not. -/
theorem Prompt.of_bind {x : Async σ α} {y : α → Async σ β} {s t : σ} (hy : ∀ a, Prompt (y a))
    (h : (x >>= y) s = (.pending, t)) : x s = (.pending, t) := by
  rw [bind_apply] at h
  split at h
  · exact absurd (congrArg Prod.fst h) (hy _ _)
  · cases h
  · rename_i heq
    cases h
    exact heq
  · cases h

/-! ## Code that does not tell states apart -/

/-- From states alike in `R`, `x` ends alike and leaves states alike. -/
def Respects (R : σ → σ → Prop) (x : Async σ α) : Prop := ∀ s t, R s t → (x s).1 = (x t).1 ∧ R (x s).2 (x t).2

variable {R : σ → σ → Prop}

theorem Respects.pure (a : α) : Respects R (Pure.pure a : Async σ α) := fun _ _ h => ⟨rfl, h⟩

theorem Respects.stop (o : Out α) : Respects R (Async.stop o : Async σ α) := fun _ _ h => ⟨rfl, h⟩

theorem Respects.bind {x : Async σ α} {y : α → Async σ β} (hx : Respects R x) (hy : ∀ a, Respects R (y a)) :
    Respects R (x >>= y) := by
  intro s t h
  obtain ⟨h1, h2⟩ := hx s t h
  rw [bind_apply, bind_apply]
  rcases hs : x s with ⟨o, s'⟩
  rcases ht : x t with ⟨o', t'⟩
  rw [hs, ht] at h1 h2
  obtain rfl : o = o' := h1
  cases o with
  | ok a => exact hy a _ _ h2
  | err e => exact ⟨rfl, h2⟩
  | pending => exact ⟨rfl, h2⟩
  | panic text => exact ⟨rfl, h2⟩

theorem Respects.ignore {x : Async σ α} (hx : Respects R x) : Respects R (Async.ignore x) :=
  .bind hx fun _ => .pure _

/-! ## Code through a view -/

/-- Through the view `f` of its state `x` does what `y` does, and ends as it does. -/
def Seen (f : σ → τ) (x : Async σ α) (y : Async τ α) : Prop := ∀ s, y (f s) = ((x s).1, f (x s).2)

section

variable {x : Async σ α} {y : Async τ α}

theorem Seen.refl (x : Async σ α) : Seen id x x := fun _ => rfl

theorem Seen.pure (a : α) : Seen f (Pure.pure a : Async σ α) (Pure.pure a) := fun _ => rfl

theorem Seen.bind {k : α → Async σ β} {l : α → Async τ β} (hx : Seen f x y) (hk : ∀ a, Seen f (k a) (l a)) :
    Seen f (x >>= k) (y >>= l) := by
  intro s
  rw [bind_apply, bind_apply, hx s]
  rcases x s with ⟨o, s'⟩
  cases o with
  | ok a => exact hk a s'
  | err e => rfl
  | pending => rfl
  | panic text => rfl

theorem Seen.ite {p : Prop} [Decidable p] {x' : Async σ α} {y' : Async τ α} (h : Seen f x y) (h' : Seen f x' y') :
    Seen f (if p then x else x') (if p then y else y') := by
  by_cases hp : p
  · rw [if_pos hp, if_pos hp]
    exact h
  · rw [if_neg hp, if_neg hp]
    exact h'

/-- What is known of the view is known of the state behind it. -/
theorem Seen.lift (h : Seen f x y) {s : σ} {t : τ} {r : Out α} (hy : y (f s) = (r, t)) :
    ∃ s', x s = (r, s') ∧ f s' = t := by
  obtain ⟨hout, hview⟩ := Prod.mk.inj ((h s).symm.trans hy)
  exact ⟨(x s).2, Prod.ext hout rfl, hview⟩

end

end Async

/-! ## Sockets -/

/-- What one read finds: bytes, none of them at the end of the input, or an error. -/
inductive ReadEv where
  | data (bs : Bytes)
  | error (e : IoError)
  deriving DecidableEq, Repr

structure Stream where
  input : List ReadEv
  output : Bytes
  /-- For each write to come: `none` when it succeeds, else the bytes taken before it
      fails. A write past the list succeeds. -/
  faults : List (Option Nat)
  deriving DecidableEq, Repr

namespace Stream

/-- A read into a buffer of `cap` bytes. -/
def read (s : Stream) (cap : Nat) : Out Bytes × Stream :=
  match s.input with
  | [] => (.pending, s)
  | .error e :: rest => (.err e, { s with input := rest })
  | .data bs :: rest =>
    if bs.length ≤ cap then (.ok bs, { s with input := rest })
    else (.ok (bs.take cap), { s with input := .data (bs.drop cap) :: rest })

def brokenPipe : IoError := .os 32

/-- `write_all`. -/
def writeAll (s : Stream) (bs : Bytes) : Out Unit × Stream :=
  match s.faults with
  | [] => (.ok (), { s with output := s.output ++ bs })
  | none :: rest => (.ok (), { s with output := s.output ++ bs, faults := rest })
  | some k :: rest => (.err brokenPipe, { s with output := s.output ++ bs.take k, faults := rest })

/-- The bytes a script still holds. -/
def bytesOf : List ReadEv → Bytes
  | [] => []
  | .data bs :: rest => bs ++ bytesOf rest
  | .error _ :: rest => bytesOf rest

def bytes (s : Stream) : Bytes := bytesOf s.input

/-- Every write will succeed. -/
def Healthy (s : Stream) : Prop := s.faults = []

@[simp] theorem bytesOf_append (a b : List ReadEv) : bytesOf (a ++ b) = bytesOf a ++ bytesOf b := by
  induction a with
  | nil => rfl
  | cons e a ih => cases e <;> simp [bytesOf, ih]

@[simp] theorem bytesOf_map_data (l : List Bytes) : bytesOf (l.map .data) = l.flatten := by
  induction l with
  | nil => rfl
  | cons bs l ih => simp [bytesOf, ih]

theorem bytesOf_ends (n : Nat) : bytesOf (List.replicate n (.data [])) = [] := by
  induction n with
  | zero => rfl
  | succ n ih =>
    rw [List.replicate_succ, bytesOf, ih]
    rfl

theorem writeAll_healthy {s : Stream} (h : s.Healthy) (bs : Bytes) :
    s.writeAll bs = (.ok (), { s with output := s.output ++ bs }) := by
  unfold writeAll; rw [h]

theorem writeAll_ok {s s' : Stream} {bs : Bytes} (h : s.writeAll bs = (.ok (), s')) :
    s'.output = s.output ++ bs ∧ s'.input = s.input := by
  unfold writeAll at h
  split at h <;> cases h <;> exact ⟨rfl, rfl⟩

/-- A write puts all its bytes on the wire, or some of the first and fails. -/
theorem writeAll_cases (s : Stream) (bs : Bytes) :
    (∃ s', s.writeAll bs = (.ok (), s') ∧ s'.output = s.output ++ bs) ∨
      ∃ k s', s.writeAll bs = (.err brokenPipe, s') ∧ s'.output = s.output ++ bs.take k := by
  unfold writeAll
  split
  · exact .inl ⟨_, rfl, rfl⟩
  · exact .inl ⟨_, rfl, rfl⟩
  · exact .inr ⟨_, _, rfl, rfl⟩

theorem Healthy.writeAll {s s' : Stream} {bs : Bytes} (hs : s.Healthy) (h : s.writeAll bs = (.ok (), s')) :
    s'.Healthy := by
  rw [writeAll_healthy hs] at h
  cases h
  exact hs

/-- What a read leaves alone. -/
def SameWrites (s s' : Stream) : Prop := s'.output = s.output ∧ s'.faults = s.faults

/-- A read takes bytes off the front of the script and touches nothing else. -/
theorem read_ok {cap : Nat} {s s' : Stream} {bs : Bytes} (h : s.read cap = (.ok bs, s')) :
    s.bytes = bs ++ s'.bytes ∧ bs.length ≤ cap ∧ s.SameWrites s' := by
  unfold read at h
  split at h
  · cases h
  · cases h
  · rename_i x rest hi
    split at h
    · rename_i hle
      simp only [Prod.mk.injEq, Out.ok.injEq] at h
      obtain ⟨rfl, rfl⟩ := h
      exact ⟨by simp [bytes, bytesOf, hi], hle, rfl, rfl⟩
    · simp only [Prod.mk.injEq, Out.ok.injEq] at h
      obtain ⟨rfl, rfl⟩ := h
      refine ⟨?_, List.length_take_le _ _, rfl, rfl⟩
      simp only [bytes, bytesOf, hi]
      rw [← List.append_assoc, List.take_append_drop]

/-- No read of it fails. -/
def Errorless (s : Stream) : Prop := ∀ e, .error e ∉ s.input

theorem read_ne_panic (s s' : Stream) (cap : Nat) (t : String) : s.read cap ≠ (.panic t, s') := by
  intro h
  unfold read at h
  split at h
  · cases h
  · cases h
  · split at h <;> cases h

theorem Errorless.read {s s' : Stream} {cap : Nat} {o : Out Bytes} (hs : s.Errorless) (h : s.read cap = (o, s')) :
    s'.Errorless ∧ ∀ e, o ≠ .err e := by
  unfold Stream.read at h
  split at h
  · cases h
    exact ⟨hs, nofun⟩
  · rename_i e rest hi
    exact absurd (hi ▸ List.mem_cons_self ..) (hs e)
  · rename_i bs rest hi
    have hrest : ∀ e, .error e ∉ rest := fun e he => hs e (hi ▸ List.mem_cons_of_mem _ he)
    split at h
    · cases h
      exact ⟨hrest, nofun⟩
    · cases h
      refine ⟨fun e he => ?_, nofun⟩
      rcases List.mem_cons.mp he with he | he
      · cases he
      · exact hrest e he

/-- The script gives `bs`, in non-empty pieces, and goes on with `after`. -/
def Carries (s : Stream) (bs : Bytes) (after : List ReadEv) : Prop :=
  ∃ segs : List Bytes, s.input = segs.map .data ++ after ∧ (∀ x ∈ segs, x ≠ []) ∧ segs.flatten = bs

theorem carries_nil {s : Stream} {after : List ReadEv} (h : s.Carries [] after) : s.input = after := by
  obtain ⟨segs, hi, hne, hf⟩ := h
  cases segs with
  | nil => exact hi
  | cons x l =>
    have := hne x (List.mem_cons_self ..)
    simp [this] at hf

/-- However the bytes are cut, a read with room gives some of what is to come. -/
theorem Carries.read {s : Stream} {bs : Bytes} {after : List ReadEv} (h : s.Carries bs after) (hbs : bs ≠ [])
    {cap : Nat} (hcap : 0 < cap) :
    ∃ x bs' s', s.read cap = (.ok x, s') ∧ x ≠ [] ∧ bs = x ++ bs' ∧ s'.Carries bs' after := by
  obtain ⟨segs, hi, hne, rfl⟩ := h
  cases segs with
  | nil => exact absurd rfl hbs
  | cons x l =>
    have hx := hne x (List.mem_cons_self ..)
    have hl : ∀ y ∈ l, y ≠ [] := fun y hy => hne y (List.mem_cons_of_mem _ hy)
    unfold Stream.read
    rw [hi]
    simp only [List.map_cons, List.cons_append]
    by_cases hc : x.length ≤ cap
    · rw [if_pos hc]
      exact ⟨x, l.flatten, _, rfl, hx, rfl, l, rfl, hl, rfl⟩
    · rw [if_neg hc]
      refine ⟨x.take cap, x.drop cap ++ l.flatten, _, rfl, ?_, ?_, x.drop cap :: l, rfl, ?_, rfl⟩
      · intro e
        have := congrArg List.length e
        simp only [List.length_take, List.length_nil] at this; omega
      · rw [← List.append_assoc, List.take_append_drop]; rfl
      · intro y hy
        rcases List.mem_cons.mp hy with rfl | hy
        · intro e
          have := congrArg List.length e
          simp only [List.length_drop, List.length_nil] at this; omega
        · exact hl y hy

end Stream

end Glaive.Lib
