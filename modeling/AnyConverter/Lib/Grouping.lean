import AnyConverter.Lib.Table
import Mathlib.Algebra.Order.BigOperators.Group.List
import Mathlib.Algebra.BigOperators.Group.Multiset.Basic

/-!
# Groups of groups

Items are grouped by a key, and the keys are grouped in turn.  A measure that is no larger for the whole
than for its parts together is no larger over the coarse groups than over the fine ones.

* `coarse_eq`: a coarse group is its fine groups put together;
* `coarse_sum_le`: the measure of some coarse groups.
-/

set_option autoImplicit false

namespace Grouping

open Table

variable {α κ ι : Type} [DecidableEq κ] [DecidableEq ι]

theorem sum_singletons (xs : List α) : (xs.map fun x => ({x} : Multiset α)).sum = ↑xs := by
  induction xs with
  | nil => rfl
  | cons x xs ih => rw [List.map_cons, List.sum_cons, ih]; rfl

theorem sum_filter_congr {N : Type} [AddCommMonoid N] {p q : α → Bool} {f h : α → N} {xs : List α}
    (heq : ∀ x ∈ xs, (if p x then f x else 0) = if q x then h x else 0) :
    ((xs.filter p).map f).sum = ((xs.filter q).map h).sum := by
  have hite : ∀ (p : α → Bool) (f : α → N) (xs : List α),
      ((xs.filter p).map f).sum = (xs.map fun x => if p x then f x else 0).sum := by
    intro p f xs
    induction xs with
    | nil => rfl
    | cons x xs ih =>
      rw [List.filter_cons, List.map_cons, List.sum_cons, ← ih]
      split <;> simp
  rw [hite, hite, List.map_congr_left heq]

/-- Summed over the fine groups of some keys, every item of these is counted once. -/
theorem sum_fine {N : Type} [AddCommMonoid N] (f : α → N) (fine : α → κ) (p : κ → Bool) (xs : List α) :
    (((groups fine xs).rows.filter fun group => p group.1).map fun group => (group.2.map f).sum).sum =
      ((xs.filter fun x => p (fine x)).map f).sum := by
  have hnodup : (((groups fine xs).rows.filter fun group => p group.1).map Prod.fst).Nodup :=
    (groups fine xs).keys_nodup.sublist (List.filter_sublist.map Prod.fst)
  have hrow : ∀ group ∈ (groups fine xs).rows.filter fun group => p group.1,
      (group.2.map f).sum = ((xs.filter fun x => fine x = group.1).map f).sum := by
    intro group hgroup
    rw [(mem_groups (List.mem_of_mem_filter hgroup)).1]
  have hkeys : xs.filter (fun x =>
      fine x ∈ ((groups fine xs).rows.filter fun group => p group.1).map Prod.fst) =
        xs.filter fun x => p (fine x) := by
    refine List.filter_congr fun x hx => ?_
    refine Bool.eq_iff_iff.mpr (decide_eq_true_iff.trans (List.mem_map.trans ?_))
    constructor
    · rintro ⟨group, hgroup, hkey⟩
      rw [← hkey]
      exact (List.mem_filter.mp hgroup).2
    · intro hp
      have hfind : (groups fine xs).find (fine x) = some (xs.filter fun y => fine y = fine x) := by
        rw [find_groups, if_neg]
        exact List.ne_nil_of_mem (List.mem_filter.mpr ⟨hx, decide_eq_true rfl⟩)
      exact ⟨_, List.mem_filter.mpr ⟨find_eq_some_iff.mp hfind, hp⟩, rfl⟩
  have hsum := sum_by_key fine f hnodup xs
  rw [hkeys, List.map_map] at hsum
  rw [List.map_congr_left hrow]
  exact hsum

/-- The fine groups of some keys, put together. -/
theorem coarse_eq (fine : α → κ) (p : κ → Bool) (xs : List α) :
    (((groups fine xs).rows.filter fun group => p group.1).map fun group =>
      (↑group.2 : Multiset α)).sum = ↑(xs.filter fun x => p (fine x)) := by
  have hsum := sum_fine (fun x => ({x} : Multiset α)) fine p xs
  simp only [sum_singletons] at hsum
  exact hsum

variable {M : Type} [AddCommMonoid M] [PartialOrder M] [IsOrderedAddMonoid M]

/-- A measure that is no larger for two parts together than for each. -/
structure Subadditive (g : Multiset α → M) : Prop where
  zero : g 0 ≤ 0
  add : ∀ a b, g (a + b) ≤ g a + g b

omit [DecidableEq κ] [DecidableEq ι] in
theorem Subadditive.sum_le {g : Multiset α → M} (h : Subadditive g) (parts : List (Multiset α)) :
    g parts.sum ≤ (parts.map g).sum := by
  induction parts with
  | nil => exact h.zero
  | cons part parts ih =>
    rw [List.sum_cons, List.map_cons, List.sum_cons]
    exact (h.add part parts.sum).trans (add_le_add_right ih (g part))

omit [DecidableEq ι] in
/-- The measure of a coarse group is no larger than those of its fine groups. -/
theorem coarse_le {g : Multiset α → M} (h : Subadditive g) (fine : α → κ) (p : κ → Bool) (xs : List α) :
    g ↑(xs.filter fun x => p (fine x)) ≤
      (((groups fine xs).rows.filter fun group => p group.1).map fun group => g ↑group.2).sum := by
  rw [← coarse_eq]
  refine (h.sum_le _).trans (le_of_eq ?_)
  rw [List.map_map]
  rfl

/-- **The measure of some coarse groups** is no larger than that of the fine groups they are made of,
with others that measure no less than nothing. -/
theorem coarse_sum_le {g : Multiset α → M} (h : Subadditive g) (fine : α → κ) (coarse : κ → ι)
    {keys : List ι} (hnodup : keys.Nodup) (p : κ → Bool) (hp : ∀ k, coarse k ∈ keys → p k = true)
    (xs : List α) (hnonneg : ∀ group ∈ (groups fine xs).rows, 0 ≤ g ↑group.2) :
    (keys.map fun k => g ↑(xs.filter fun x => coarse (fine x) = k)).sum ≤
      (((groups fine xs).rows.filter fun group => p group.1).map fun group => g ↑group.2).sum := by
  have hbound : (keys.map fun k => g ↑(xs.filter fun x => coarse (fine x) = k)).sum ≤
      (keys.map fun k => (((groups fine xs).rows.filter fun group => coarse group.1 = k).map
        fun group => g ↑group.2).sum).sum :=
    List.sum_le_sum fun k _ => coarse_le h fine (fun key => coarse key = k) xs
  refine hbound.trans ?_
  rw [sum_by_key (fun group : κ × List α => coarse group.1) (fun group => g ↑group.2) hnodup]
  have hsub : ((groups fine xs).rows.filter fun group => coarse group.1 ∈ keys).Sublist
      ((groups fine xs).rows.filter fun group => p group.1) :=
    List.monotone_filter_right _ fun group hgroup => hp group.1 (of_decide_eq_true hgroup)
  refine (hsub.map _).sum_le_sum fun m hm => ?_
  obtain ⟨group, hgroup, rfl⟩ := List.mem_map.mp hm
  exact hnonneg group (List.mem_of_mem_filter hgroup)

end Grouping
