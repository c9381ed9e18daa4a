import Mathlib.Data.List.Sort

/-!
# Rankings

The first of a sorted list are those with few items before them.

* `forall₂_of_mapM`: what is computed for each item of a list;
* `mem_take_sorted_iff`: which items are among the first.
-/

set_option autoImplicit false

namespace Ranking

variable {α β : Type}

theorem forall₂_of_mapM {f : α → Option β} {xs : List α} {ys : List β} (h : xs.mapM f = some ys) :
    List.Forall₂ (fun x y => f x = some y) xs ys := by
  induction xs generalizing ys with
  | nil =>
    cases h
    exact .nil
  | cons x xs ih =>
    rw [List.mapM_cons] at h
    obtain ⟨y, hy, h⟩ := Option.bind_eq_some_iff.mp h
    obtain ⟨rest, hrest, h⟩ := Option.bind_eq_some_iff.mp h
    cases h
    exact .cons hy (ih hrest)

/-- What is common to the items and to what is computed for them. -/
theorem map_of_mapM {γ : Type} {f : α → Option β} {g : β → γ} {k : α → γ} {xs : List α} {ys : List β}
    (h : xs.mapM f = some ys) (hf : ∀ x ∈ xs, ∀ y, f x = some y → g y = k x) : ys.map g = xs.map k := by
  have hpairs := forall₂_of_mapM h
  clear h
  induction hpairs with
  | nil => rfl
  | @cons x y xs ys hxy _ ih =>
    rw [List.map_cons, List.map_cons, hf x List.mem_cons_self y hxy,
      ih fun x' hx' => hf x' (List.mem_cons_of_mem x hx')]

theorem mem_of_forall₂ {R : α → β → Prop} {xs : List α} {ys : List β} (h : List.Forall₂ R xs ys) {y : β}
    (hy : y ∈ ys) : ∃ x ∈ xs, R x y := by
  induction h with
  | nil => cases hy
  | @cons x y' xs ys hxy _ ih =>
    rcases List.mem_cons.mp hy with rfl | hy
    · exact ⟨x, List.mem_cons_self, hxy⟩
    · obtain ⟨x', hx', hR⟩ := ih hy
      exact ⟨x', List.mem_cons_of_mem x hx', hR⟩

variable {r : α → α → Prop} [DecidableRel r]

/-- An item of a sorted list is among the first exactly when few items come before it. -/
theorem mem_take_iff {xs : List α} (hsorted : xs.Pairwise r) (hnodup : xs.Nodup)
    (hanti : ∀ x ∈ xs, ∀ y ∈ xs, r x y → r y x → x = y) (hrefl : ∀ x, r x x) (n : Nat) {x : α}
    (hx : x ∈ xs) : x ∈ xs.take n ↔ xs.countP (fun y => ¬r x y) < n := by
  obtain ⟨before, after, rfl⟩ := List.append_of_mem hx
  rw [List.pairwise_append] at hsorted
  obtain ⟨-, hafter, hbefore⟩ := hsorted
  have hnot : x ∉ before := by
    rw [List.nodup_append] at hnodup
    exact fun hmem => hnodup.2.2 x hmem x List.mem_cons_self rfl
  have hcount : (before ++ x :: after).countP (fun y => ¬r x y) = before.length := by
    have hall : ∀ y ∈ before, decide (¬r x y) = true := by
      intro y hy
      refine decide_eq_true fun hxy => hnot ?_
      rw [hanti x hx y (List.mem_append_left _ hy) hxy (hbefore y hy x List.mem_cons_self)]
      exact hy
    have hnone : ∀ y ∈ x :: after, ¬decide (¬r x y) = true := by
      intro y hy
      rw [decide_eq_true_eq, not_not]
      rcases List.mem_cons.mp hy with rfl | hy
      · exact hrefl y
      · exact (List.pairwise_cons.mp hafter).1 y hy
    rw [List.countP_append, List.countP_eq_length.mpr hall, List.countP_eq_zero.mpr hnone, Nat.add_zero]
  rw [hcount]
  constructor
  · intro hmem
    by_contra hle
    have htake : (before ++ x :: after).take n = before.take n :=
      List.take_append_of_le_length (Nat.not_lt.mp hle)
    rw [htake] at hmem
    exact hnot (List.mem_of_mem_take hmem)
  · intro hlt
    rw [List.take_append]
    refine List.mem_append_right _ ?_
    obtain ⟨k, hk⟩ : ∃ k, n - before.length = k + 1 := ⟨n - before.length - 1, by omega⟩
    rw [hk, List.take_succ_cons]
    exact List.mem_cons_self

/-- **The first of a list that is sorted** are those that fewer items come before. -/
theorem mem_take_sorted_iff [Std.Total r] [IsTrans α r] {xs : List α} (hnodup : xs.Nodup)
    (hanti : ∀ x ∈ xs, ∀ y ∈ xs, r x y → r y x → x = y) (n : Nat) (x : α) :
    x ∈ (xs.insertionSort r).take n ↔ x ∈ xs ∧ xs.countP (fun y => ¬r x y) < n := by
  have hperm := List.perm_insertionSort r xs
  have hanti' : ∀ x ∈ xs.insertionSort r, ∀ y ∈ xs.insertionSort r, r x y → r y x → x = y :=
    fun x hx y hy => hanti x (hperm.mem_iff.mp hx) y (hperm.mem_iff.mp hy)
  have hrefl : ∀ x, r x x := fun x => (Std.Total.total (r := r) x x).elim id id
  constructor
  · intro hmem
    have hx := List.mem_of_mem_take hmem
    refine ⟨hperm.mem_iff.mp hx, ?_⟩
    rw [← hperm.countP_eq]
    exact (mem_take_iff (List.pairwise_insertionSort r xs) (hperm.nodup_iff.mpr hnodup) hanti' hrefl n
      hx).mp hmem
  · rintro ⟨hx, hlt⟩
    rw [← hperm.countP_eq] at hlt
    exact (mem_take_iff (List.pairwise_insertionSort r xs) (hperm.nodup_iff.mpr hnodup) hanti' hrefl n
      (hperm.mem_iff.mpr hx)).mpr hlt

end Ranking
