import Mathlib.Data.List.Induction
import Mathlib.Data.List.Basic

/-!
# The largest of a list

A scan keeps one item and replaces it by the next that ranks above it.  It ends with the first of the
largest items, or with the last where an item of the same size replaces the one before.

* `scan_split`: where the item stands that is kept;
* `first_isLargest`, `last_isLargest`: it is one of the largest;
* `first_cons`: which of these it is depends on the order.
-/

set_option autoImplicit false

namespace Largest

variable {α : Type}

/-- The item that is kept at the end. -/
def scan (replaces : α → α → Bool) (xs : List α) : Option α :=
  xs.foldl (fun best x => if best.all fun b => replaces b x then some x else best) none

/-- The items are ranked, whether an item replaces one of its own rank or not. -/
structure Ranks (replaces : α → α → Bool) : Prop where
  trans : ∀ {a b c}, replaces a b = true → replaces b c = true → replaces a c = true
  skip : ∀ {a b c}, replaces b a = false → replaces b c = true → replaces a c = true

variable {replaces : α → α → Bool}

theorem scan_concat (xs : List α) (x : α) : scan replaces (xs ++ [x]) =
    if (scan replaces xs).all fun b => replaces b x then some x else scan replaces xs := by
  unfold scan
  rw [List.foldl_append]
  rfl

theorem scan_eq_none {xs : List α} : scan replaces xs = none ↔ xs = [] := by
  induction xs using List.reverseRecOn with
  | nil => exact iff_of_true rfl rfl
  | append_singleton xs x ih =>
    refine iff_of_false ?_ (List.append_ne_nil_of_right_ne_nil xs (List.cons_ne_nil x []))
    rw [scan_concat]
    split
    · exact Option.some_ne_none x
    · rename_i hkeeps
      intro hnone
      rw [hnone] at hkeeps
      exact hkeeps rfl

/-- **Where the item stands that is kept**: it replaces all before it, and none behind it replaces
it. -/
theorem scan_split (hranks : Ranks replaces) {xs : List α} {x : α} (h : scan replaces xs = some x) :
    ∃ before after, xs = before ++ x :: after ∧ (∀ y ∈ before, replaces y x = true) ∧
      ∀ y ∈ after, replaces x y = false := by
  induction xs using List.reverseRecOn generalizing x with
  | nil => cases h
  | append_singleton xs z ih =>
    rw [scan_concat] at h
    cases hbest : scan replaces xs with
    | none =>
      rw [hbest] at h
      obtain rfl : z = x := Option.some.inj h
      rw [scan_eq_none.mp hbest]
      exact ⟨[], [], rfl, fun y hy => absurd hy List.not_mem_nil, fun y hy => absurd hy List.not_mem_nil⟩
    | some b =>
      obtain ⟨before, after, rfl, hbefore, hafter⟩ := ih hbest
      rw [hbest, Option.all_some] at h
      cases hnext : replaces b z with
      | true =>
        rw [hnext, if_pos rfl] at h
        obtain rfl : z = x := Option.some.inj h
        refine ⟨before ++ b :: after, [], rfl, fun y hy => ?_, fun y hy => absurd hy List.not_mem_nil⟩
        rcases List.mem_append.mp hy with hy | hy
        · exact hranks.trans (hbefore y hy) hnext
        · rcases List.mem_cons.mp hy with rfl | hy
          · exact hnext
          · exact hranks.skip (hafter y hy) hnext
      | false =>
        rw [hnext, if_neg Bool.false_ne_true] at h
        obtain rfl : b = x := Option.some.inj h
        refine ⟨before, after ++ [z], by simp, hbefore, fun y hy => ?_⟩
        rcases List.mem_append.mp hy with hy | hy
        · exact hafter y hy
        · rw [List.mem_singleton.mp hy]
          exact hnext

/-! ## By size -/

variable (size : α → Nat)

/-- One of the largest. -/
def IsLargest (xs : List α) (x : α) : Prop := x ∈ xs ∧ ∀ y ∈ xs, size y ≤ size x

/-- The first of the largest. -/
def first (xs : List α) : Option α := scan (fun a b => decide (size a < size b)) xs

/-- The last of the largest. -/
def last (xs : List α) : Option α := scan (fun a b => decide (size a ≤ size b)) xs

variable {size}

theorem IsLargest.perm {xs ys : List α} {x : α} (h : IsLargest size xs x) (hperm : ys.Perm xs) :
    IsLargest size ys x :=
  ⟨hperm.mem_iff.mpr h.1, fun y hy => h.2 y (hperm.mem_iff.mp hy)⟩

theorem first_isLargest {xs : List α} {x : α} (h : first size xs = some x) : IsLargest size xs x := by
  have hranks : Ranks fun a b : α => decide (size a < size b) := by
    constructor <;> simp only [decide_eq_true_eq, decide_eq_false_iff_not] <;> omega
  obtain ⟨before, after, rfl, hbefore, hafter⟩ := scan_split hranks h
  refine ⟨by simp, fun y hy => ?_⟩
  rcases List.mem_append.mp hy with hy | hy
  · exact Nat.le_of_lt (of_decide_eq_true (hbefore y hy))
  · rcases List.mem_cons.mp hy with rfl | hy
    · exact Nat.le_refl _
    · exact Nat.not_lt.mp (of_decide_eq_false (hafter y hy))

/-- The last of the largest is larger than all behind it. -/
theorem last_split {xs : List α} {x : α} (h : last size xs = some x) :
    ∃ before after, xs = before ++ x :: after ∧ (∀ y ∈ before, size y ≤ size x) ∧
      ∀ y ∈ after, size y < size x := by
  have hranks : Ranks fun a b : α => decide (size a ≤ size b) := by
    constructor <;> simp only [decide_eq_true_eq, decide_eq_false_iff_not] <;> omega
  obtain ⟨before, after, hxs, hbefore, hafter⟩ := scan_split hranks h
  exact ⟨before, after, hxs, fun y hy => of_decide_eq_true (hbefore y hy),
    fun y hy => Nat.not_le.mp (of_decide_eq_false (hafter y hy))⟩

theorem last_isLargest {xs : List α} {x : α} (h : last size xs = some x) : IsLargest size xs x := by
  obtain ⟨before, after, rfl, hbefore, hafter⟩ := last_split h
  refine ⟨by simp, fun y hy => ?_⟩
  rcases List.mem_append.mp hy with hy | hy
  · exact hbefore y hy
  · rcases List.mem_cons.mp hy with rfl | hy
    · exact Nat.le_refl _
    · exact Nat.le_of_lt (hafter y hy)

/-- A largest item that stands first is the one that is kept. -/
theorem first_cons {x : α} {xs : List α} (h : IsLargest size (x :: xs) x) :
    first size (x :: xs) = some x := by
  have hkeeps : ∀ ys : List α, (∀ y ∈ ys, size y ≤ size x) → first size (x :: ys) = some x := by
    intro ys
    induction ys using List.reverseRecOn with
    | nil => exact fun _ => rfl
    | append_singleton ys y ih =>
      intro hle
      have hbest := ih fun z hz => hle z (List.mem_append_left [y] hz)
      have hy := hle y (List.mem_append_right ys (List.mem_singleton_self y))
      unfold first at hbest ⊢
      rw [← List.cons_append, scan_concat, hbest, Option.all_some, if_neg]
      rw [decide_eq_true_eq]
      exact Nat.not_lt.mpr hy
  exact hkeeps xs fun y hy => h.2 y (List.mem_cons_of_mem x hy)

end Largest
