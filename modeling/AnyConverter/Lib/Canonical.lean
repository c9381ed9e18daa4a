import Mathlib.Data.List.Sort

/-!
# Canonical listings

A collection whose order does not matter is written down in the order of a key, item after item.

* `sortOn_eq_iff`: with a key of its own for every item, collections are listed alike exactly when
  they hold the same items;
* `append_separator_inj`: a field that does not hold the separator is read back;
* `flatMap_inj`: so are items that can be told from the front of what is written.
-/

set_option autoImplicit false

namespace Canonical

variable {α κ β : Type}

/-! ## The order -/

/-- The items in the order of their keys. -/
def sortOn [LinearOrder κ] (key : α → κ) (items : List α) : List α :=
  items.mergeSort fun a b => decide (key a ≤ key b)

section
variable [LinearOrder κ] {key : α → κ} {xs ys : List α}

theorem sortOn_perm (key : α → κ) (xs : List α) : (sortOn key xs).Perm xs := List.mergeSort_perm ..

theorem pairwise_sortOn (key : α → κ) (xs : List α) :
    (sortOn key xs).Pairwise fun a b => key a ≤ key b := by
  have htrans : ∀ a b c : α, decide (key a ≤ key b) = true → decide (key b ≤ key c) = true →
      decide (key a ≤ key c) = true := by
    intro a b c hab hbc
    exact decide_eq_true ((of_decide_eq_true hab).trans (of_decide_eq_true hbc))
  have htotal : ∀ a b : α, (decide (key a ≤ key b) || decide (key b ≤ key a)) = true := by
    intro a b
    simpa using le_total (key a) (key b)
  exact (List.pairwise_mergeSort htrans htotal xs).imp of_decide_eq_true

/-- **Collections are listed alike** exactly when they hold the same items. -/
theorem sortOn_eq_iff (hkey : Function.Injective key) : sortOn key xs = sortOn key ys ↔ xs.Perm ys := by
  constructor
  · intro h
    exact (sortOn_perm key xs).symm.trans (h ▸ sortOn_perm key ys)
  · intro h
    refine List.Perm.eq_of_pairwise (fun a b _ _ hab hba => hkey (le_antisymm hab hba))
      (pairwise_sortOn key xs) (pairwise_sortOn key ys) ?_
    exact (sortOn_perm key xs).trans (h.trans (sortOn_perm key ys).symm)

end

/-! ## Item after item -/

/-- What stands before a separator and what stands behind it are told apart by the first separator. -/
theorem append_separator_inj {sep : β} {a b x y : List β} (ha : sep ∉ a) (hb : sep ∉ b)
    (h : a ++ sep :: x = b ++ sep :: y) : a = b ∧ x = y := by
  induction a generalizing b with
  | nil =>
    cases b with
    | nil => exact ⟨rfl, (List.cons.inj h).2⟩
    | cons d b => exact absurd ((List.cons.inj h).1 ▸ List.mem_cons_self) hb
  | cons c a ih =>
    rw [List.mem_cons, not_or] at ha
    cases b with
    | nil => exact absurd (List.cons.inj h).1.symm ha.1
    | cons d b =>
      obtain ⟨rfl, htail⟩ := List.cons.inj h
      obtain ⟨rfl, hrest⟩ := ih ha.2 (fun hmem => hb (List.mem_cons_of_mem _ hmem)) htail
      exact ⟨rfl, hrest⟩

/-- **Items are read back** when each can be told from the front of what is written. -/
theorem flatMap_inj {f : α → List β} {good : α → Prop} (hne : ∀ a, f a ≠ [])
    (hfront : ∀ a b x y, good a → good b → f a ++ x = f b ++ y → a = b ∧ x = y) {xs ys : List α}
    (hxs : ∀ a ∈ xs, good a) (hys : ∀ a ∈ ys, good a) (h : xs.flatMap f = ys.flatMap f) : xs = ys := by
  induction xs generalizing ys with
  | nil =>
    cases ys with
    | nil => rfl
    | cons b ys =>
      rw [List.flatMap_nil, List.flatMap_cons] at h
      exact absurd (List.append_eq_nil_iff.mp h.symm).1 (hne b)
  | cons a xs ih =>
    cases ys with
    | nil =>
      rw [List.flatMap_nil, List.flatMap_cons] at h
      exact absurd (List.append_eq_nil_iff.mp h).1 (hne a)
    | cons b ys =>
      rw [List.flatMap_cons, List.flatMap_cons] at h
      obtain ⟨rfl, hrest⟩ := hfront a b _ _ (hxs a List.mem_cons_self) (hys b List.mem_cons_self) h
      have htail : xs = ys := by
        apply ih _ _ hrest
        · exact fun c hc => hxs c (List.mem_cons_of_mem _ hc)
        · exact fun c hc => hys c (List.mem_cons_of_mem _ hc)
      rw [htail]

end Canonical
