/-
  Glaive.Lib.Interleaved — calls that are made at once on one shared state. Each call is a
  thread, which takes one atomic step after the other; calls begin and take their steps in
  any order. What a step keeps of the shared state, of its own thread and of the others,
  every order of steps keeps.
-/

import Glaive.Lib.Runs

namespace Glaive.Lib

variable {σ L α ε : Type}

/-- `threads`: where each call is, in the order they began. -/
structure Threads (σ L : Type) where
  shared : σ
  threads : List L

namespace Interleaved

/-- A call begins, or the `i`th call takes its next step. -/
inductive Event (α ε : Type) where
  | enter (call : α)
  | take (i : Nat) (e : ε)

/-- `start`: where a call begins. `act`: its step from some place, `none` once it has
    returned. -/
def step (start : Nat → α → L) (act : L → ε → σ → Option (σ × L)) : Event α ε → Threads σ L → Option (Threads σ L)
  | .enter call, s => some ⟨s.shared, s.threads ++ [start s.threads.length call]⟩
  | .take i e, s =>
    s.threads[i]?.bind fun l => (act l e s.shared).map fun r => ⟨r.1, s.threads.set i r.2⟩

/-- A call that no other step comes between. -/
def alone (act : L → ε → σ → Option (σ × L)) : List ε → L → σ → Option (σ × L)
  | [], l, s => some (s, l)
  | e :: es, l, s => (act l e s).bind fun r => alone act es r.2 r.1

variable {start : Nat → α → L} {act : L → ε → σ → Option (σ × L)} {s s' : Threads σ L}

theorem step_take {i : Nat} {e : ε} (h : step start act (.take i e) s = some s') :
    ∃ l shared l', s.threads[i]? = some l ∧ act l e s.shared = some (shared, l') ∧
      s' = ⟨shared, s.threads.set i l'⟩ := by
  obtain ⟨l, hl, h⟩ := Option.bind_eq_some_iff.mp h
  obtain ⟨r, hr, h⟩ := Option.map_eq_some_iff.mp h
  exact ⟨l, r.1, r.2, hl, hr, h.symm⟩

/-- The thread that steps, and any other. -/
theorem getElem_set {i j : Nat} {l m : L} (h : (s.threads.set i l)[j]? = some m) :
    (j = i ∧ m = l) ∨ (j ≠ i ∧ s.threads[j]? = some m) := by
  by_cases hj : j = i
  · subst hj
    rw [List.getElem?_set_self'] at h
    cases hold : s.threads[j]? with
    | none => rw [hold] at h; cases h
    | some old => rw [hold] at h; cases h; exact .inl ⟨rfl, rfl⟩
  · rw [List.getElem?_set_ne fun hij => hj hij.symm] at h
    exact .inr ⟨hj, h⟩

/-- How many threads are at some places, when one of them steps. -/
theorem countP_set {i : Nat} {l : L} (p : L → Bool) (h : s.threads[i]? = some l) (l' : L) :
    (s.threads.set i l').countP p + (if p l then 1 else 0) = s.threads.countP p + (if p l' then 1 else 0) := by
  obtain ⟨hi, rfl⟩ := List.getElem?_eq_some_iff.mp h
  have hpos : (if p s.threads[i] = true then 1 else 0) ≤ s.threads.countP p := by
    split
    · exact List.countP_pos_iff.mpr ⟨_, List.getElem_mem hi, ‹_›⟩
    · exact Nat.zero_le _
  rw [List.countP_set hi]
  omega

/-- `I` holds of the number of calls so far and the shared state, and `A` of each thread
    with the shared state. -/
structure Kept (I : Nat → σ → Prop) (A : Nat → L → σ → Prop) (s : Threads σ L) : Prop where
  shared : I s.threads.length s.shared
  each : ∀ i l, s.threads[i]? = some l → A i l s.shared

variable {I : Nat → σ → Prop} {A : Nat → L → σ → Prop}

theorem kept_nil {x : σ} (h : I 0 x) : Kept I A ⟨x, []⟩ := ⟨h, fun i l hl => by cases hl⟩

theorem Kept.enter (h : Kept I A s) {l : L} (hshared : I (s.threads.length + 1) s.shared)
    (hstart : A s.threads.length l s.shared) : Kept I A ⟨s.shared, s.threads ++ [l]⟩ := by
  refine ⟨?_, fun i m hm => ?_⟩
  · show I (s.threads ++ [l]).length s.shared
    rw [List.length_append]
    exact hshared
  · rcases Nat.lt_or_ge i s.threads.length with hi | hi
    · rw [List.getElem?_append_left hi] at hm
      exact h.each i m hm
    · rw [List.getElem?_append_right hi, List.getElem?_singleton] at hm
      split at hm
      · cases hm
        have heq : i = s.threads.length := by omega
        rw [heq]
        exact hstart
      · cases hm

/-- A step that keeps `I` and its own `A`, and the `A` of the others whatever they are at. -/
theorem Kept.take (h : Kept I A s) {i : Nat} {l : L} {shared : σ} (hshared : I s.threads.length shared)
    (hown : A i l shared) (hothers : ∀ j m, j ≠ i → s.threads[j]? = some m → A j m s.shared → A j m shared) :
    Kept I A ⟨shared, s.threads.set i l⟩ := by
  refine ⟨?_, fun j m hm => ?_⟩
  · show I (s.threads.set i l).length shared
    rw [List.length_set]
    exact hshared
  · rcases getElem_set hm with ⟨rfl, rfl⟩ | ⟨hj, hm⟩
    · exact hown
    · exact hothers j m hj hm (h.each j m hm)

/-- What a call begins with, and what each step keeps, any step keeps. -/
theorem Kept.step {e : Event α ε}
    (hstart : ∀ n call x, I n x → I (n + 1) x ∧ A n (start n call) x)
    (hact : ∀ i l e shared l', s.threads[i]? = some l → act l e s.shared = some (shared, l') →
      I s.threads.length shared ∧ A i l' shared ∧
        ∀ j m, j ≠ i → s.threads[j]? = some m → A j m s.shared → A j m shared)
    (h : Kept I A s) (hs : Interleaved.step start act e s = some s') : Kept I A s' := by
  cases e with
  | enter call =>
    cases hs
    obtain ⟨hshared, hnew⟩ := hstart s.threads.length call s.shared h.shared
    exact h.enter hshared hnew
  | take i e =>
    obtain ⟨l, shared, l', hl, ha, rfl⟩ := step_take hs
    obtain ⟨hshared, hown, hothers⟩ := hact i l e shared l' hl ha
    exact h.take hshared hown hothers

end Interleaved

end Glaive.Lib
