import Mathlib.Data.List.Basic

/-!
# Runs of a system

A system takes one labelled step at a time; a step that is not possible gives nothing.  A run is a
list of steps, and its condition is one on every step and the state before it.

* `invariant`: what every step keeps holds at the end of a run;
* `Meets.of_invariant`: what an invariant says about a step holds of every step of a run;
* `good_iff_meets`: what a run keeps exactly when each of its steps meets the condition;
* `always_iff_meets`: what holds all along exactly when each of its steps meets the condition;
* `Meets.append`, `run_append`: runs put together.
-/

set_option autoImplicit false

namespace Runs

variable {State Label : Type}

/-- The state behind some steps, when each of them is possible. -/
def run (step : State → Label → Option State) : State → List Label → Option State
  | s, [] => some s
  | s, l :: ls => (step s l).bind fun s' => run step s' ls

/-- Whether every step of a run meets a condition in the state before it. -/
def Meets (step : State → Label → Option State) (cond : State → Label → Prop) :
    State → List Label → Prop
  | _, [] => True
  | s, l :: ls => cond s l ∧ ∀ s', step s l = some s' → Meets step cond s' ls

/-- What holds in every state of a run, the first one and the last one included. -/
def Always (step : State → Label → Option State) (P : State → Prop) (s : State) (ls : List Label) :
    Prop :=
  ∀ before after s', ls = before ++ after → run step s before = some s' → P s'

variable {step : State → Label → Option State} {cond cond' : State → Label → Prop}

theorem run_cons {s s'' : State} {l : Label} {ls : List Label} (h : run step s (l :: ls) = some s'') :
    ∃ s', step s l = some s' ∧ run step s' ls = some s'' :=
  Option.bind_eq_some_iff.mp h

theorem run_step {s s' : State} {l : Label} (h : step s l = some s') (ls : List Label) :
    run step s (l :: ls) = run step s' ls := by
  simp only [run, h, Option.bind_some]

/-- A run of steps that are always possible. -/
theorem run_total (f : State → Label → State) (s : State) (ls : List Label) :
    run (fun s l => some (f s l)) s ls = some (ls.foldl f s) := by
  induction ls generalizing s with
  | nil => rfl
  | cons l ls ih => exact ih (f s l)

theorem run_append (s : State) (ls ls' : List Label) :
    run step s (ls ++ ls') = (run step s ls).bind fun s' => run step s' ls' := by
  induction ls generalizing s with
  | nil => rfl
  | cons l ls ih =>
    cases hstep : step s l with
    | none => simp [run, hstep]
    | some s' => simp [run, hstep, ih]

/-- A run in two parts. -/
theorem run_split {s s'' : State} {ls ls' : List Label} (h : run step s (ls ++ ls') = some s'') :
    ∃ s', run step s ls = some s' ∧ run step s' ls' = some s'' := by
  rw [run_append] at h
  exact Option.bind_eq_some_iff.mp h

theorem Meets.cons {s s' : State} {l : Label} {ls : List Label} (hcond : cond s l)
    (hstep : step s l = some s') (hrest : Meets step cond s' ls) : Meets step cond s (l :: ls) := by
  refine ⟨hcond, ?_⟩
  intro s'' hstep'
  rw [hstep] at hstep'
  cases hstep'
  exact hrest

theorem Meets.append {s : State} {ls ls' : List Label} (h : Meets step cond s (ls ++ ls')) :
    Meets step cond s ls ∧ ∀ s', run step s ls = some s' → Meets step cond s' ls' := by
  induction ls generalizing s with
  | nil =>
    refine ⟨trivial, ?_⟩
    intro s' hrun
    cases hrun
    exact h
  | cons l ls ih =>
    obtain ⟨hcond, hrest⟩ := h
    refine ⟨⟨hcond, fun s' hstep => (ih (hrest s' hstep)).1⟩, ?_⟩
    intro s'' hrun
    obtain ⟨s', hstep, hrun⟩ := run_cons hrun
    exact (ih (hrest s' hstep)).2 s'' hrun

theorem Meets.and {s : State} {ls : List Label} (h : Meets step cond s ls)
    (h' : Meets step cond' s ls) : Meets step (fun s l => cond s l ∧ cond' s l) s ls := by
  induction ls generalizing s with
  | nil => trivial
  | cons l ls ih =>
    exact ⟨⟨h.1, h'.1⟩, fun s' hstep => ih (h.2 s' hstep) (h'.2 s' hstep)⟩

/-- A condition that every label of the run meets wherever it stands. -/
theorem Meets.of_forall {s : State} {ls : List Label} (h : ∀ l ∈ ls, ∀ s, cond s l) :
    Meets step cond s ls := by
  induction ls generalizing s with
  | nil => trivial
  | cons l ls ih =>
    refine ⟨h l List.mem_cons_self s, fun s' _ => ih fun l' hmem => ?_⟩
    exact h l' (List.mem_cons_of_mem l hmem)

/-- **The invariant rule**: what every step keeps, when it meets the condition, holds at the end of
every run that meets it. -/
theorem invariant {I : State → Prop}
    (hstep : ∀ s l s', I s → cond s l → step s l = some s' → I s') {s s' : State} {ls : List Label}
    (hs : I s) (hmeets : Meets step cond s ls) (hrun : run step s ls = some s') : I s' := by
  induction ls generalizing s with
  | nil =>
    cases hrun
    exact hs
  | cons l ls ih =>
    obtain ⟨hcond, hrest⟩ := hmeets
    obtain ⟨s₁, hfirst, hrun⟩ := run_cons hrun
    exact ih (hstep s l s₁ hs hcond hfirst) (hrest s₁ hfirst) hrun

/-- What an invariant says about the next step holds of every step. -/
theorem Meets.of_invariant {I : State → Prop}
    (hstep : ∀ s l s', I s → cond s l → step s l = some s' → I s')
    (hnext : ∀ s l, I s → cond s l → cond' s l) {s : State} {ls : List Label} (hs : I s)
    (hmeets : Meets step cond s ls) : Meets step cond' s ls := by
  induction ls generalizing s with
  | nil => trivial
  | cons l ls ih =>
    obtain ⟨hcond, hrest⟩ := hmeets
    exact ⟨hnext s l hs hcond, fun s' hfirst => ih (hstep s l s' hs hcond hfirst) (hrest s' hfirst)⟩

/-- What no step brings back once it is lost was there at the start, when it is there at the end. -/
theorem run_back {Good : State → Prop} (hback : ∀ s l s', step s l = some s' → Good s' → Good s)
    {s s' : State} {ls : List Label} (hrun : run step s ls = some s') (h : Good s') : Good s := by
  induction ls generalizing s with
  | nil =>
    cases hrun
    exact h
  | cons l ls ih =>
    obtain ⟨s₁, hfirst, hrest⟩ := run_cons hrun
    exact hback s l s₁ hfirst (ih hrest)

/-- **The exact rule**: what no step brings back once it is lost, and what a step keeps exactly when
it meets the condition, a run keeps exactly when all its steps meet it. -/
theorem good_iff_meets {I Good : State → Prop} (hinv : ∀ s l s', I s → step s l = some s' → I s')
    (hback : ∀ s l s', step s l = some s' → Good s' → Good s)
    (hstep : ∀ s l s', I s → Good s → step s l = some s' → (Good s' ↔ cond s l)) {s s' : State}
    {ls : List Label} (hs : I s) (hgood : Good s) (hrun : run step s ls = some s') :
    Good s' ↔ Meets step cond s ls := by
  induction ls generalizing s with
  | nil =>
    cases hrun
    exact iff_of_true hgood trivial
  | cons l ls ih =>
    obtain ⟨s₁, hfirst, hrest⟩ := run_cons hrun
    have hiff := hstep s l s₁ hs hgood hfirst
    have hs₁ := hinv s l s₁ hs hfirst
    constructor
    · intro hend
      have hgood₁ := run_back hback hrest hend
      exact .cons (hiff.mp hgood₁) hfirst ((ih hs₁ hgood₁ hrest).mp hend)
    · rintro ⟨hcond, hmeets⟩
      exact (ih hs₁ (hiff.mpr hcond) hrest).mpr (hmeets s₁ hfirst)

theorem always_nil {P : State → Prop} {s : State} : Always step P s [] ↔ P s := by
  constructor
  · intro h
    exact h [] [] s rfl rfl
  · intro h before after s' heq hrun
    obtain ⟨rfl, -⟩ := List.append_eq_nil_iff.mp heq.symm
    cases hrun
    exact h

theorem always_cons {P : State → Prop} {s s₁ : State} {l : Label} {ls : List Label}
    (hfirst : step s l = some s₁) : Always step P s (l :: ls) ↔ P s ∧ Always step P s₁ ls := by
  constructor
  · intro h
    refine ⟨h [] (l :: ls) s rfl rfl, ?_⟩
    intro before after s' heq hrun
    refine h (l :: before) after s' (by rw [heq, List.cons_append]) ?_
    rw [run_step hfirst, hrun]
  · rintro ⟨hs, hrest⟩ before after s' heq hrun
    cases before with
    | nil =>
      cases hrun
      exact hs
    | cons l' before =>
      obtain ⟨rfl, rfl⟩ := List.cons_eq_cons.mp heq
      rw [run_step hfirst] at hrun
      exact hrest before after s' rfl hrun

/-- What a step keeps exactly when it meets the condition holds all along a run exactly when all its
steps meet it. -/
theorem always_iff_meets {I Good : State → Prop} (hinv : ∀ s l s', I s → step s l = some s' → I s')
    (hstep : ∀ s l s', I s → Good s → step s l = some s' → (Good s' ↔ cond s l)) {s s' : State}
    {ls : List Label} (hs : I s) (hgood : Good s) (hrun : run step s ls = some s') :
    Always step Good s ls ↔ Meets step cond s ls := by
  induction ls generalizing s with
  | nil => exact iff_of_true (always_nil.mpr hgood) trivial
  | cons l ls ih =>
    obtain ⟨s₁, hfirst, hrest⟩ := run_cons hrun
    have hiff := hstep s l s₁ hs hgood hfirst
    have hs₁ := hinv s l s₁ hs hfirst
    rw [always_cons hfirst]
    constructor
    · rintro ⟨-, halways⟩
      have hgood₁ : Good s₁ := halways [] ls s₁ rfl rfl
      exact .cons (hiff.mp hgood₁) hfirst ((ih hs₁ hgood₁ hrest).mp halways)
    · rintro ⟨hcond, hmeets⟩
      exact ⟨hgood, (ih hs₁ (hiff.mpr hcond) hrest).mpr (hmeets s₁ hfirst)⟩

end Runs
