import Mathlib.Data.List.Basic

/-!
# Transducers

A transducer keeps a state and answers each input with a list of outputs.  Stream adapters are
transducers: one call, one input, any number of events out.

* `run` feeds a list of inputs through; `outputs_append` and `final_append` split a run, `tagged`
  keeps the input each output answers.
* `final_induction` / `outputs_induction`: what one step preserves, a whole run preserves.
* A *fallible* step may answer with an error.  `runAll` is the loop that stops at the first error
  and keeps nothing of what it had collected; `total` answers an error with no output.  Where no
  step of the run fails the two agree (`runAll_eq_run`).
* `comp` feeds the outputs of one transducer to a second one; `run_comp` says a run of the
  composition is a run of the first followed by a run of the second.
-/

set_option autoImplicit false

namespace Transducer

variable {σ τ ι μ ο ε : Type}

/-- One step: the outputs and the next state. -/
abbrev Step (σ ι ο : Type) := σ → ι → List ο × σ

/-- Feed the inputs through, in order. -/
def run (step : Step σ ι ο) : σ → List ι → List ο × σ
  | s, [] => ([], s)
  | s, i :: is =>
    let r := step s i
    let rest := run step r.2 is
    (r.1 ++ rest.1, rest.2)

/-- The outputs of a run. -/
def outputs (step : Step σ ι ο) (s : σ) (is : List ι) : List ο := (run step s is).1

/-- The state a run ends in. -/
def final (step : Step σ ι ο) (s : σ) (is : List ι) : σ := (run step s is).2

section
variable (step : Step σ ι ο)

@[simp] theorem outputs_nil (s : σ) : outputs step s [] = [] := rfl

@[simp] theorem final_nil (s : σ) : final step s [] = s := rfl

@[simp] theorem outputs_cons (s : σ) (i : ι) (is : List ι) :
    outputs step s (i :: is) = (step s i).1 ++ outputs step (step s i).2 is := rfl

@[simp] theorem final_cons (s : σ) (i : ι) (is : List ι) :
    final step s (i :: is) = final step (step s i).2 is := rfl

theorem final_append (s : σ) (xs ys : List ι) :
    final step s (xs ++ ys) = final step (final step s xs) ys := by
  induction xs generalizing s with
  | nil => rfl
  | cons x xs ih => simp [ih]

theorem outputs_append (s : σ) (xs ys : List ι) :
    outputs step s (xs ++ ys) = outputs step s xs ++ outputs step (final step s xs) ys := by
  induction xs generalizing s with
  | nil => rfl
  | cons x xs ih => simp [ih]

theorem run_append (s : σ) (xs ys : List ι) : run step s (xs ++ ys) =
    (outputs step s xs ++ outputs step (final step s xs) ys, final step (final step s xs) ys) :=
  Prod.ext (outputs_append step s xs ys) (final_append step s xs ys)

end

/-- Inputs under another name: a run over them is a run of the step that knows that name. -/
theorem run_map {κ : Type} {step : Step σ ι ο} {step' : Step σ κ ο} {f : κ → ι}
    (h : ∀ s k, step s (f k) = step' s k) :
    ∀ (ks : List κ) (s : σ), run step s (ks.map f) = run step' s ks
  | [], _ => rfl
  | k :: ks, s => by
    rw [List.map_cons, run, run, h s k]
    simp only [run_map h ks]

/-- Outputs under another name. -/
theorem outputs_rename {π : Type} {step : Step σ ι ο} {step' : Step σ ι π} {f : ο → π}
    (h : ∀ s i, step' s i = ((step s i).1.map f, (step s i).2)) (is : List ι) (s : σ) :
    outputs step' s is = (outputs step s is).map f := by
  induction is generalizing s with
  | nil => rfl
  | cons i is ih => rw [outputs_cons, outputs_cons, h, List.map_append, ih]

/-- Inputs that stand for several of a finer step each: a run leads to the same state, and what is
seen of its outputs is what is seen of the finer run's. -/
theorem run_expand {κ π α : Type} {step : Step σ ι ο} {fine : Step σ κ π} {expand : ι → List κ}
    {f : ο → List α} {g : π → List α}
    (hstate : ∀ s i, (step s i).2 = final fine s (expand i))
    (hout : ∀ s i, (step s i).1.flatMap f = (outputs fine s (expand i)).flatMap g) :
    ∀ (is : List ι) (s : σ),
      final step s is = final fine s (is.flatMap expand) ∧
        (outputs step s is).flatMap f = (outputs fine s (is.flatMap expand)).flatMap g
  | [], _ => ⟨rfl, rfl⟩
  | i :: is, s => by
    obtain ⟨hfinal, houts⟩ := run_expand hstate hout is (step s i).2
    rw [List.flatMap_cons, final_append, outputs_append, List.flatMap_append, outputs_cons,
      final_cons, List.flatMap_append, hfinal, houts, hout, hstate]
    exact ⟨rfl, rfl⟩

/-- An output of a run answers one of its inputs, in the state the inputs before it lead to. -/
theorem mem_outputs_iff (step : Step σ ι ο) {o : ο} {s : σ} {is : List ι} :
    o ∈ outputs step s is ↔
      ∃ pre i post, is = pre ++ i :: post ∧ o ∈ (step (final step s pre) i).1 := by
  constructor
  · intro h
    induction is generalizing s with
    | nil => simp at h
    | cons i is ih =>
      rw [outputs_cons, List.mem_append] at h
      rcases h with h | h
      · exact ⟨[], i, is, rfl, h⟩
      · obtain ⟨pre, j, post, rfl, hj⟩ := ih h
        exact ⟨i :: pre, j, post, rfl, hj⟩
  · rintro ⟨pre, i, post, rfl, h⟩
    rw [outputs_append, outputs_cons]
    exact List.mem_append_right _ (List.mem_append_left _ h)

/-- Every output with the input it answers. -/
def tagged (step : Step σ ι ο) : σ → List ι → List (ι × ο)
  | _, [] => []
  | s, i :: is => (step s i).1.map (i, ·) ++ tagged step (step s i).2 is

section
variable (step : Step σ ι ο)

theorem tagged_append (s : σ) (xs ys : List ι) :
    tagged step s (xs ++ ys) = tagged step s xs ++ tagged step (final step s xs) ys := by
  induction xs generalizing s with
  | nil => rfl
  | cons x xs ih => simp [tagged, ih]

/-- A tagged output answers its input, in the state the inputs before it lead to. -/
theorem mem_tagged_iff {i : ι} {o : ο} {s : σ} {is : List ι} : (i, o) ∈ tagged step s is ↔
    ∃ pre post, is = pre ++ i :: post ∧ o ∈ (step (final step s pre) i).1 := by
  constructor
  · intro h
    induction is generalizing s with
    | nil => cases h
    | cons j is ih =>
      rcases List.mem_append.mp h with h | h
      · obtain ⟨o', ho, heq⟩ := List.mem_map.mp h
        obtain ⟨rfl, rfl⟩ := Prod.mk.inj heq
        exact ⟨[], is, rfl, ho⟩
      · obtain ⟨pre, post, rfl, ho⟩ := ih h
        exact ⟨j :: pre, post, rfl, ho⟩
  · rintro ⟨pre, post, rfl, ho⟩
    rw [tagged_append]
    exact List.mem_append_right _ (List.mem_append_left _ (List.mem_map_of_mem ho))

/-- What outputs show, where each input's outputs show what the input does. -/
theorem outputs_filterMap {α : Type} {g : ο → Option α} {f : ι → Option α} {s : σ} {is : List ι}
    (h : ∀ pre i post, is = pre ++ i :: post →
      (step (final step s pre) i).1.filterMap g = (f i).toList) :
    (outputs step s is).filterMap g = is.filterMap f := by
  induction is generalizing s with
  | nil => rfl
  | cons i is ih =>
    have hhead := h [] i is rfl
    rw [final_nil] at hhead
    have htail := ih (s := (step s i).2) fun pre j post heq => h (i :: pre) j post (heq ▸ rfl)
    rw [outputs_cons, List.filterMap_append, hhead, htail, List.filterMap_cons]
    cases f i <;> rfl

/-- Without the inputs, the tagged outputs are the outputs. -/
theorem map_snd_tagged (s : σ) (is : List ι) : (tagged step s is).map (·.2) = outputs step s is := by
  induction is generalizing s with
  | nil => rfl
  | cons i is ih => simp [tagged, ih, Function.comp_def]

end

section
variable {step : Step σ ι ο} {I : σ → Prop} {P : ι → Prop} {Q : ο → Prop}

/-- What every admissible step preserves holds at the end of the run. -/
theorem final_induction (hstep : ∀ s i, I s → P i → I (step s i).2) :
    ∀ (is : List ι) (s : σ), I s → (∀ i ∈ is, P i) → I (final step s is)
  | [], _, hs, _ => hs
  | i :: is, s, hs, hp => by
    have hi := hstep s i hs (hp i List.mem_cons_self)
    exact final_induction hstep is _ hi fun j hj => hp j (List.mem_cons_of_mem _ hj)

/-- What every step without output preserves holds at the end of a run without output. -/
theorem final_of_silent (hstep : ∀ s i, (step s i).1 = [] → I s → I (step s i).2) :
    ∀ (is : List ι) (s : σ), outputs step s is = [] → I s → I (final step s is)
  | [], _, _, hs => hs
  | i :: is, s, hout, hs => by
    rw [outputs_cons, List.append_eq_nil_iff] at hout
    exact final_of_silent hstep is _ hout.2 (hstep s i hout.1 hs)

/-- What every output of an admissible step satisfies, every output of the run satisfies. -/
theorem outputs_induction (hstep : ∀ s i, I s → P i → I (step s i).2)
    (hout : ∀ s i, I s → P i → ∀ o ∈ (step s i).1, Q o) :
    ∀ (is : List ι) (s : σ), I s → (∀ i ∈ is, P i) → ∀ o ∈ outputs step s is, Q o
  | [], _, _, _, o, ho => by simp at ho
  | i :: is, s, hs, hp, o, ho => by
    have hi := hp i List.mem_cons_self
    rw [outputs_cons, List.mem_append] at ho
    rcases ho with ho | ho
    · exact hout s i hs hi o ho
    · exact outputs_induction hstep hout is _ (hstep s i hs hi)
        (fun j hj => hp j (List.mem_cons_of_mem _ hj)) o ho

/-- What every output of every step satisfies, every output of a run satisfies. -/
theorem outputs_forall (hout : ∀ s i, ∀ o ∈ (step s i).1, Q o) (is : List ι) (s : σ) :
    ∀ o ∈ outputs step s is, Q o :=
  outputs_induction (fun _ _ _ _ => trivial) (fun s i (_ : True) (_ : True) => hout s i) is s
    trivial fun _ _ => trivial

end

/-! ## Fallible steps -/

/-- A step that may fail; the state it leaves behind is kept either way. -/
abbrev FallibleStep (ε σ ι ο : Type) := σ → ι → Except ε (List ο) × σ

/-- What reaches the outside: an error carries no output. -/
def emitted : Except ε (List ο) → List ο
  | .ok xs => xs
  | .error _ => []

@[simp] theorem emitted_ok (xs : List ο) : emitted (.ok xs : Except ε (List ο)) = xs := rfl

@[simp] theorem emitted_error (e : ε) : emitted (.error e : Except ε (List ο)) = [] := rfl

/-- The step with its errors answered by silence. -/
def total (f : FallibleStep ε σ ι ο) : Step σ ι ο := fun s i => (emitted (f s i).1, (f s i).2)

/-- Collect the outputs until the first error, which discards them. -/
def runAll (f : FallibleStep ε σ ι ο) : σ → List ι → Except ε (List ο) × σ
  | s, [] => (.ok [], s)
  | s, i :: is =>
    match f s i with
    | (.error e, s') => (.error e, s')
    | (.ok xs, s') =>
      match runAll f s' is with
      | (.error e, s'') => (.error e, s'')
      | (.ok ys, s'') => (.ok (xs ++ ys), s'')

/-- No step of the run fails. -/
def NoError (f : FallibleStep ε σ ι ο) : σ → List ι → Prop
  | _, [] => True
  | s, i :: is => (∃ xs, (f s i).1 = .ok xs) ∧ NoError f (f s i).2 is

/-- Without an error the collecting loop is the run. -/
theorem runAll_eq_run {f : FallibleStep ε σ ι ο} :
    ∀ {is : List ι} {s : σ}, NoError f s is →
      runAll f s is = (.ok (run (total f) s is).1, (run (total f) s is).2)
  | [], _, _ => rfl
  | i :: is, s, ⟨⟨xs, hxs⟩, hrest⟩ => by
    have ih := runAll_eq_run hrest
    have hfi : f s i = (.ok xs, (f s i).2) := by rw [← hxs]
    rw [runAll, hfi]
    simp only [ih]
    simp only [run, total, hxs, emitted_ok]

/-- Inputs that a fallible step takes as another one takes what they stand for. -/
theorem runAll_of_steps {f : FallibleStep ε σ ι ο} {step : Step σ μ ο} {is : List ι} {ms : List μ}
    (h : List.Forall₂ (fun i m => ∀ s, f s i = (.ok (step s m).1, (step s m).2)) is ms) (s : σ) :
    runAll f s is = (.ok (outputs step s ms), final step s ms) := by
  induction h generalizing s with
  | nil => rfl
  | @cons i m is ms hstep hrest ih =>
    rw [runAll, hstep]
    simp only [ih]
    rfl

theorem noError_append {f : FallibleStep ε σ ι ο} {xs ys : List ι} {s : σ} :
    NoError f s (xs ++ ys) ↔ NoError f s xs ∧ NoError f (final (total f) s xs) ys := by
  induction xs generalizing s with
  | nil => simp [NoError]
  | cons x xs ih =>
    rw [List.cons_append, NoError, NoError, ih, and_assoc]
    rfl

/-- No step fails when none does in the state the inputs before it lead to. -/
theorem noError_iff {f : FallibleStep ε σ ι ο} {is : List ι} {s : σ} :
    NoError f s is ↔ ∀ pre i post, is = pre ++ i :: post →
      ∃ xs, (f (final (total f) s pre) i).1 = .ok xs := by
  constructor
  · rintro h pre i post rfl
    exact (noError_append.mp h).2.1
  · intro h
    induction is generalizing s with
    | nil => trivial
    | cons i is ih =>
      refine ⟨h [] i is rfl, ih ?_⟩
      rintro pre j post rfl
      exact h (i :: pre) j post rfl

/-- A run that fails somewhere answers with an error. -/
theorem runAll_of_error {f : FallibleStep ε σ ι ο} {is : List ι} {s : σ} (h : ¬ NoError f s is) :
    ∃ e, (runAll f s is).1 = .error e := by
  induction is generalizing s with
  | nil => exact absurd trivial h
  | cons i is ih =>
    unfold runAll
    split
    · exact ⟨_, rfl⟩
    · rename_i xs s' hf
      have hrest : ¬ NoError f s' is := by
        intro hr
        refine h ⟨⟨xs, by rw [hf]⟩, ?_⟩
        rw [hf]
        exact hr
      obtain ⟨e, he⟩ := ih hrest
      split
      · exact ⟨_, rfl⟩
      · rename_i ys s'' hr
        rw [hr] at he
        cases he

/-- The second part of a run starts where the first ended, unless that failed. -/
theorem runAll_append {f : FallibleStep ε σ ι ο} (xs ys : List ι) (s : σ) :
    runAll f s (xs ++ ys) =
      match runAll f s xs with
      | (.error e, s') => (.error e, s')
      | (.ok as, s') =>
        match runAll f s' ys with
        | (.error e, s'') => (.error e, s'')
        | (.ok bs, s'') => (.ok (as ++ bs), s'') := by
  induction xs generalizing s with
  | nil =>
    simp only [List.nil_append, runAll]
    split <;> (rename_i h; exact h)
  | cons x xs ih =>
    rw [List.cons_append, runAll, runAll]
    split
    · rfl
    · rename_i zs s' hf
      rw [ih s']
      rcases runAll f s' xs with ⟨_ | as, s''⟩
      · rfl
      · rcases hys : runAll f s'' ys with ⟨_ | bs, t⟩
        · simp only [hys]
        · simp only [hys, List.append_assoc]

/-- What every answered step preserves, a run that may stop at an error preserves. -/
theorem runAll_induction {f : FallibleStep ε σ ι ο} {I : σ → Prop} {P : ι → Prop}
    (hstep : ∀ s i, I s → P i → I (f s i).2) :
    ∀ (is : List ι) (s : σ), I s → (∀ i ∈ is, P i) → I (runAll f s is).2
  | [], _, hs, _ => hs
  | i :: is, s, hs, hp => by
    have hi := hstep s i hs (hp i List.mem_cons_self)
    have hrest : ∀ j ∈ is, P j := fun j hj => hp j (List.mem_cons_of_mem _ hj)
    unfold runAll
    split
    · rename_i e s' hf
      rw [hf] at hi
      exact hi
    · rename_i xs s' hf
      rw [hf] at hi
      have ih := runAll_induction hstep is s' hi hrest
      split <;> (rename_i h; rw [h] at ih; exact ih)

/-- What every answer of an admissible step satisfies, every output of the loop satisfies. -/
theorem runAll_outputs {f : FallibleStep ε σ ι ο} {P : ι → Prop} {Q : ο → Prop}
    (hout : ∀ s i, P i → ∀ o ∈ emitted (f s i).1, Q o) :
    ∀ (is : List ι) (s : σ), (∀ i ∈ is, P i) → ∀ o ∈ emitted (runAll f s is).1, Q o
  | [], _, _, o, ho => by simp [runAll] at ho
  | i :: is, s, hp, o, ho => by
    have hi := hout s i (hp i List.mem_cons_self)
    have hrest : ∀ j ∈ is, P j := fun j hj => hp j (List.mem_cons_of_mem _ hj)
    unfold runAll at ho
    split at ho
    · simp at ho
    · rename_i xs s' hf
      rw [hf] at hi
      have ih := runAll_outputs hout is s' hrest
      split at ho
      · simp at ho
      · rename_i ys s'' hr
        rw [hr] at ih
        rw [emitted_ok, List.mem_append] at ho
        rcases ho with ho | ho
        · exact hi o ho
        · exact ih o ho

/-! ## Composition -/

/-- Feed what the first transducer answers to the second. -/
def comp (f : Step σ ι μ) (g : Step τ μ ο) : Step (σ × τ) ι ο := fun st i =>
  let r := f st.1 i
  let q := run g st.2 r.1
  (q.1, (r.2, q.2))

theorem run_comp (f : Step σ ι μ) (g : Step τ μ ο) :
    ∀ (is : List ι) (s : σ) (t : τ), run (comp f g) (s, t) is =
      ((run g t (run f s is).1).1, ((run f s is).2, (run g t (run f s is).1).2))
  | [], _, _ => rfl
  | i :: is, s, t => by
    have ih := run_comp f g is (f s i).2 (final g t (f s i).1)
    have hout := outputs_append g t (f s i).1 (outputs f (f s i).2 is)
    have hfin := final_append g t (f s i).1 (outputs f (f s i).2 is)
    unfold outputs final at *
    simp only [run, comp] at *
    rw [ih, hout, hfin]

end Transducer
