import Mathlib.Data.List.Induction
import AnyConverter.Lib.Transducer

/-!
# Runs that end

Some outputs of a transducer are terminal: nothing should follow them.

* `EndsAtMostOnce` states it of a list of outputs;
* `endsAtMostOnce_iff`: where every step ends its own outputs properly and the state records the
  end, a run ends once at most just when every step after the end is silent.
-/

set_option autoImplicit false

namespace Transducer

variable {σ ι ο : Type} {terminal : ο → Bool} {xs ys : List ο}

/-- Every terminal output is the last one. -/
def EndsAtMostOnce (terminal : ο → Bool) (os : List ο) : Prop :=
  ∀ body o rest, os = body ++ o :: rest → terminal o = true → rest = []

theorem endsAtMostOnce_silent (h : ∀ o ∈ xs, terminal o = false) : EndsAtMostOnce terminal xs := by
  intro body o rest hsplit ho
  rw [h o (by simp [hsplit])] at ho
  cases ho

theorem endsAtMostOnce_singleton (o : ο) : EndsAtMostOnce terminal [o] := by
  intro body p rest hsplit _
  rcases body with _ | ⟨q, body⟩
  · exact (List.cons.inj hsplit).2.symm
  · simp at hsplit

namespace EndsAtMostOnce

theorem left (h : EndsAtMostOnce terminal (xs ++ ys)) : EndsAtMostOnce terminal xs := by
  intro body o rest hsplit ho
  have hrest := h body o (rest ++ ys) (by simp [hsplit]) ho
  exact (List.append_eq_nil_iff.mp hrest).1

/-- Nothing follows a terminal output. -/
theorem right_eq_nil (h : EndsAtMostOnce terminal (xs ++ ys))
    (hend : ∃ o ∈ xs, terminal o = true) : ys = [] := by
  obtain ⟨o, hmem, ho⟩ := hend
  obtain ⟨body, rest, rfl⟩ := List.append_of_mem hmem
  have hrest := h body o (rest ++ ys) (by simp) ho
  exact (List.append_eq_nil_iff.mp hrest).2

theorem append (hxs : ∀ o ∈ xs, terminal o = false) (hys : EndsAtMostOnce terminal ys) :
    EndsAtMostOnce terminal (xs ++ ys) := by
  intro body o rest hsplit ho
  rcases List.append_eq_append_iff.mp hsplit with ⟨mid, -, hmid⟩ | ⟨mid, hmid, hrest⟩
  · exact hys mid o rest hmid ho
  · rcases mid with _ | ⟨p, mid⟩
    · exact hys [] o rest hrest.symm ho
    · obtain ⟨rfl, -⟩ := List.cons.inj hrest
      rw [hxs o (by simp [hmid])] at ho
      cases ho

/-- Only which outputs are terminal matters. -/
theorem map (h : EndsAtMostOnce terminal xs) : EndsAtMostOnce id (xs.map terminal) := by
  intro body b rest hsplit hb
  obtain ⟨front, tail, rfl, -, htail⟩ := List.map_eq_append_iff.mp hsplit
  obtain ⟨o, back, rfl, ho, hback⟩ := List.map_eq_cons_iff.mp htail
  obtain rfl := h front o back rfl (ho.trans hb)
  exact hback.symm

end EndsAtMostOnce

/-- Every step before the end ends at most once and records whether it did; a silent step after
the end keeps the record. -/
structure RecordsEnd (step : Step σ ι ο) (terminal : ο → Bool) (ended : σ → Bool) : Prop where
  before : ∀ s i, ended s = false → EndsAtMostOnce terminal (step s i).1 ∧
    (ended (step s i).2 = true ↔ ∃ o ∈ (step s i).1, terminal o = true)
  after : ∀ s i, ended s = true → (step s i).1 = [] → ended (step s i).2 = true

section
variable {step : Step σ ι ο} {ended : σ → Bool} (hrec : RecordsEnd step terminal ended) {s : σ}
  (hs : ended s = false)
include hrec hs

/-- A run that ends once at most has ended just when a terminal output is out. -/
theorem ended_iff {is : List ι} (h : EndsAtMostOnce terminal (outputs step s is)) :
    ended (final step s is) = true ↔ ∃ o ∈ outputs step s is, terminal o = true := by
  induction is using List.reverseRecOn with
  | nil => simp [hs]
  | append_singleton is i ih =>
    simp only [outputs_append, outputs_cons, outputs_nil, List.append_nil, final_append, final_cons,
      final_nil] at h ⊢
    have ih := ih h.left
    by_cases hended : ended (final step s is) = true
    · have hnil := h.right_eq_nil (ih.mp hended)
      rw [hnil, List.append_nil, ← ih, hended]
      exact iff_of_true (hrec.after _ i hended hnil) rfl
    · have hopen : ended (final step s is) = false := by simpa using hended
      have hnone : ¬ ∃ o ∈ outputs step s is, terminal o = true := fun hex => hended (ih.mpr hex)
      rw [(hrec.before _ i hopen).2]
      constructor
      · rintro ⟨o, hmem, ho⟩
        exact ⟨o, List.mem_append_right _ hmem, ho⟩
      · rintro ⟨o, hmem, ho⟩
        rw [List.mem_append] at hmem
        rcases hmem with hmem | hmem
        · exact absurd ⟨o, hmem, ho⟩ hnone
        · exact ⟨o, hmem, ho⟩

/-- **A run ends once at most just when every step after the end is silent.** -/
theorem endsAtMostOnce_iff (is : List ι) : EndsAtMostOnce terminal (outputs step s is) ↔
    ∀ pre i post, is = pre ++ i :: post → ended (final step s pre) = true →
      (step (final step s pre) i).1 = [] := by
  induction is using List.reverseRecOn with
  | nil => exact iff_of_true (endsAtMostOnce_silent (by simp)) (by simp)
  | append_singleton is i ih =>
    simp only [outputs_append, outputs_cons, outputs_nil, List.append_nil]
    constructor
    · intro h pre j post hsplit hended
      rcases List.eq_nil_or_concat post with rfl | ⟨post', k, rfl⟩
      · obtain ⟨rfl, hij⟩ := List.append_inj' hsplit rfl
        obtain rfl := (List.cons.inj hij).1
        exact h.right_eq_nil ((ended_iff hrec hs h.left).mp hended)
      · have hsplit' : is ++ [i] = (pre ++ j :: post') ++ [k] := by simpa using hsplit
        obtain ⟨hpre, -⟩ := List.append_inj' hsplit' rfl
        exact ih.mp h.left pre j post' hpre hended
    · intro h
      have hpre : EndsAtMostOnce terminal (outputs step s is) := by
        refine ih.mpr ?_
        rintro pre j post rfl hended
        exact h pre j (post ++ [i]) (by simp) hended
      by_cases hended : ended (final step s is) = true
      · rw [h is i [] rfl hended, List.append_nil]
        exact hpre
      · have hopen : ended (final step s is) = false := by simpa using hended
        refine EndsAtMostOnce.append ?_ (hrec.before _ i hopen).1
        intro o hmem
        by_contra hterm
        exact hended ((ended_iff hrec hs hpre).mpr ⟨o, hmem, by simpa using hterm⟩)

end

end Transducer
