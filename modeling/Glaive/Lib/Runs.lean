/-
  Glaive.Lib.Runs — runs of a system that takes one event at a time: what every step
  keeps, every run keeps, and a step for step likeness of two systems is one of runs.
-/

namespace Glaive.Lib

variable {σ ε : Type} {step : ε → σ → Option σ} {P : ε → σ → Prop}

/-- The events take `s` to `t`, each under `P`. -/
inductive Run (step : ε → σ → Option σ) (P : ε → σ → Prop) : σ → List ε → σ → Prop
  | nil (s : σ) : Run step P s [] s
  | cons {s t u : σ} {e : ε} {evs : List ε} : P e s → step e s = some t → Run step P t evs u →
      Run step P s (e :: evs) u

namespace Run

/-- What holds at the start and is kept by every step holds at the end. -/
theorem invariant {I : σ → Prop} (hstep : ∀ e s t, I s → P e s → step e s = some t → I t) {s t : σ} {evs : List ε}
    (h : Run step P s evs t) : I s → I t := by
  induction h with
  | nil => exact id
  | cons hp hs _ ih => exact fun hi => ih (hstep _ _ _ hi hp hs)

/-- It holds before every step too. -/
theorem carry {I : σ → Prop} (hstep : ∀ e s t, I s → P e s → step e s = some t → I t) {s t : σ} {evs : List ε}
    (h : Run step P s evs t) : I s → Run step (fun e s => I s ∧ P e s) s evs t := by
  induction h with
  | nil s => exact fun _ => .nil s
  | cons hp hs _ ih => exact fun hi => .cons ⟨hi, hp⟩ hs (ih (hstep _ _ _ hi hp hs))

theorem append {s t u : σ} {evs evs' : List ε} (h : Run step P s evs t) (h' : Run step P t evs' u) :
    Run step P s (evs ++ evs') u := by
  induction h with
  | nil => exact h'
  | cons hp hs _ ih => exact .cons hp hs (ih h')

/-- A demand that the events meet in any state is met by the run. -/
theorem of_events {Q : ε → σ → Prop} {s t : σ} {evs : List ε} (h : Run step P s evs t) :
    (∀ e ∈ evs, ∀ s, Q e s) → Run step Q s evs t := by
  induction h with
  | nil s => exact fun _ => .nil s
  | cons _ hs _ ih =>
    exact fun hq => .cons (hq _ (List.mem_cons_self ..) _) hs (ih fun e he => hq e (List.mem_cons_of_mem _ he))

/-- Where an invariant turns one demand on steps into another, every run that meets the
    first meets the second. -/
theorem imp {I : σ → Prop} {Q : ε → σ → Prop} (hstep : ∀ e s t, I s → step e s = some t → I t)
    (hpq : ∀ e s t, I s → step e s = some t → P e s → Q e s) {s t : σ} {evs : List ε} (h : Run step P s evs t) :
    I s → Run step Q s evs t := by
  induction h with
  | nil s => exact fun _ => .nil s
  | cons hp hs _ ih => exact fun hi => .cons (hpq _ _ _ hi hs hp) hs (ih (hstep _ _ _ hi hs))

theorem split {s u : σ} : ∀ {evs evs' : List ε}, Run step P s (evs ++ evs') u →
    ∃ t, Run step P s evs t ∧ Run step P t evs' u := by
  intro evs
  induction evs generalizing s with
  | nil => exact fun h => ⟨s, .nil s, h⟩
  | cons e evs ih =>
    intro evs' h
    cases h with
    | cons hp hs h =>
      obtain ⟨t, h1, h2⟩ := ih h
      exact ⟨t, .cons hp hs h1, h2⟩

/-- The same events lead to the same state, whatever is demanded of them. -/
theorem unique {Q : ε → σ → Prop} {s t t' : σ} {evs : List ε} (h : Run step P s evs t) :
    Run step Q s evs t' → t = t' := by
  induction h with
  | nil => intro h'; cases h'; rfl
  | cons _ hs _ ih =>
    intro h'
    cases h' with
    | cons _ hs' h' => cases hs.symm.trans hs'; exact ih h'

/-- A run that meets two demands meets both. -/
theorem both {Q : ε → σ → Prop} {s t : σ} {evs : List ε} (h : Run step P s evs t) :
    Run step Q s evs t → Run step (fun e s => P e s ∧ Q e s) s evs t := by
  induction h with
  | nil s => exact fun _ => .nil s
  | cons hp hs _ ih =>
    intro h'
    cases h' with
    | cons hq hs' h' => cases hs.symm.trans hs'; exact .cons ⟨hp, hq⟩ hs (ih h')

/-- What each step holds to the state before it, a run holds to its start. -/
theorem related {K : σ → σ → Prop} (hrefl : ∀ s, K s s) (htrans : ∀ s t u, K s t → K t u → K s u) {s t : σ}
    {evs : List ε} (h : Run step (fun e x => ∀ y, step e x = some y → K x y) s evs t) : K s t := by
  induction h with
  | nil s => exact hrefl s
  | cons hp hs _ ih => exact htrans _ _ _ (hp _ hs) ih

/-- What holds between any two states of a run, the later one after the earlier, is
    what holds across each step. -/
theorem between_iff {K : σ → σ → Prop} (hrefl : ∀ s, K s s) (htrans : ∀ s t u, K s t → K t u → K s u) {s u : σ}
    {evs : List ε} (h : Run step P s evs u) :
    (∀ before middle after x y, evs = before ++ middle ++ after → Run step P s before x → Run step P x middle y →
      K x y) ↔ Run step (fun e x => ∀ y, step e x = some y → K x y) s evs u := by
  constructor
  · intro hk
    induction h with
    | nil s => exact .nil s
    | @cons s t u e evs hp hs h ih =>
      refine .cons (fun y hy => ?_) hs (ih fun before middle after x y he hx hy => ?_)
      · cases hs.symm.trans hy
        exact hk [] [e] evs _ _ rfl (.nil s) (.cons hp hs (.nil _))
      · subst he
        exact hk (e :: before) middle after _ _ rfl (.cons hp hs hx) hy
  · intro hk before middle after x y he hx hy
    subst he
    obtain ⟨y', hbefore, -⟩ := hk.split
    obtain ⟨x', hx', hmiddle⟩ := hbefore.split
    cases hx.unique hx'
    cases hy.unique hmiddle
    exact hmiddle.related hrefl htrans

/-- Two runs step by step, the second by `f` of the events of the first. -/
theorem simulate {R : σ → σ → Prop} (f : ε → ε)
    (hstep : ∀ e s s' t, R s s' → P e s → step e s = some t → ∃ t', step (f e) s' = some t' ∧ R t t')
    {s t : σ} {evs : List ε} (h : Run step P s evs t) : ∀ {s' : σ}, R s s' →
    ∃ t', Run step (fun _ _ => True) s' (evs.map f) t' ∧ R t t' := by
  induction h with
  | nil s => exact fun hr => ⟨_, .nil _, hr⟩
  | cons hp hs _ ih =>
    intro s' hr
    obtain ⟨t1, h1, hr1⟩ := hstep _ _ _ _ hr hp hs
    obtain ⟨t2, h2, hr2⟩ := ih hr1
    exact ⟨t2, .cons trivial h1 h2, hr2⟩

/-- Where an invariant makes two demands on steps one, the same runs meet them. -/
theorem congr {I : σ → Prop} {A B : ε → σ → Prop}
    (hstep : ∀ e s t, I s → P e s → step e s = some t → I t) (hab : ∀ e s, I s → P e s → (A e s ↔ B e s)) {s t : σ}
    {evs : List ε} (hi : I s) :
    Run step (fun e s => P e s ∧ A e s) s evs t ↔ Run step (fun e s => P e s ∧ B e s) s evs t := by
  constructor
  · intro h
    induction h with
    | nil s => exact .nil s
    | cons hp hs _ ih =>
      exact .cons ⟨hp.1, (hab _ _ hi hp.1).mp hp.2⟩ hs (ih (hstep _ _ _ hi hp.1 hs))
  · intro h
    induction h with
    | nil s => exact .nil s
    | cons hp hs _ ih =>
      exact .cons ⟨hp.1, (hab _ _ hi hp.1).mpr hp.2⟩ hs (ih (hstep _ _ _ hi hp.1 hs))

/-- Where a step leads to no bad state just if it meets the demand `A`, no state of a
    run is bad just if each of its steps meets `A`. -/
theorem avoids_iff {I : σ → Prop} {bad : σ → Prop} {A : ε → σ → Prop}
    (hstep : ∀ e s t, I s → step e s = some t → I t)
    (hbad : ∀ e s t, I s → ¬ bad s → step e s = some t → (¬ bad t ↔ A e s)) {s t : σ} {evs : List ε} (hi : I s)
    (hs : ¬ bad s) :
    Run step (fun _ s => ¬ bad s) s evs t ∧ ¬ bad t ↔ Run step A s evs t := by
  constructor
  · intro h
    rcases h with ⟨h, ht⟩
    induction h with
    | nil s => exact .nil s
    | @cons s u t e evs hp hs' rest ih =>
      have hu : ¬ bad u := by
        cases rest with
        | nil => exact ht
        | cons hp _ _ => exact hp
      exact .cons ((hbad _ _ _ hi hp hs').mp hu) hs' (ih (hstep _ _ _ hi hs') hu ht)
  · intro h
    induction h with
    | nil s => exact ⟨.nil s, hs⟩
    | cons ha hs' _ ih =>
      obtain ⟨h1, h2⟩ := ih (hstep _ _ _ hi hs') ((hbad _ _ _ hi hs hs').mpr ha)
      exact ⟨.cons hs hs' h1, h2⟩

end Run

/-- Take the events one after the other, each under `P`. -/
def stepAll (step : ε → σ → Option σ) (P : ε → σ → Prop) [∀ e s, Decidable (P e s)] : List ε → σ → Option σ
  | [], s => some s
  | e :: evs, s => if P e s then (step e s).bind (stepAll step P evs) else none

theorem run_of_stepAll [∀ e s, Decidable (P e s)] : ∀ {evs : List ε} {s t : σ}, stepAll step P evs s = some t →
    Run step P s evs t := by
  intro evs
  induction evs with
  | nil => intro s t h; cases h; exact .nil s
  | cons e evs ih =>
    intro s t h
    unfold stepAll at h
    split at h
    · obtain ⟨u, hu, ht⟩ := Option.bind_eq_some_iff.mp h
      exact .cons ‹_› hu (ih ht)
    · cases h

/-- The run of some events, when there is one. -/
theorem run_get (step : ε → σ → Option σ) (P : ε → σ → Prop) [∀ e s, Decidable (P e s)] (evs : List ε) (s : σ)
    (h : (stepAll step P evs s).isSome) :
    Run step P s evs ((stepAll step P evs s).get h) :=
  run_of_stepAll (Option.some_get h).symm

end Glaive.Lib
