import Mathlib.Data.List.Basic
import Mathlib.Logic.Function.Basic

/-!
# Segmented logs

A log is kept in numbered parts.  What is left of the parts is in order when, read by number, it is a
part of everything that was ever logged.

* `InOrder.append`: a line goes behind the last of the parts that hold anything;
* `InOrder.shrink`: parts may lose lines.
-/

set_option autoImplicit false

namespace Segmented

variable {α : Type}

/-- The first `n` parts, one after the other. -/
def reading (parts : Nat → List α) (n : Nat) : List α := (List.range n).flatMap parts

theorem reading_succ (parts : Nat → List α) (n : Nat) :
    reading parts (n + 1) = reading parts n ++ parts n := by
  rw [reading, List.range_succ, List.flatMap_append, List.flatMap_singleton]
  rfl

theorem reading_congr {parts parts' : Nat → List α} {n : Nat} (h : ∀ i < n, parts' i = parts i) :
    reading parts' n = reading parts n := by
  induction n with
  | zero => rfl
  | succ n ih =>
    rw [reading_succ, reading_succ, ih fun i hi => h i (by omega), h n (by omega)]

theorem reading_sublist {parts parts' : Nat → List α} (h : ∀ i, (parts' i).Sublist (parts i))
    (n : Nat) : (reading parts' n).Sublist (reading parts n) := by
  induction n with
  | zero => exact .slnil
  | succ n ih =>
    rw [reading_succ, reading_succ]
    exact ih.append (h n)

/-- A line behind the last part that holds anything is the last line. -/
theorem reading_update {parts : Nat → List α} {t : Nat} (hlast : ∀ i, t < i → parts i = []) (a : α)
    {n : Nat} (hn : t < n) :
    reading (Function.update parts t (parts t ++ [a])) n = reading parts n ++ [a] := by
  induction n with
  | zero => omega
  | succ n ih =>
    rw [reading_succ, reading_succ]
    by_cases heq : n = t
    · subst heq
      have hbefore : reading (Function.update parts n (parts n ++ [a])) n = reading parts n :=
        reading_congr fun i hi => Function.update_of_ne (by omega) ..
      rw [hbefore, Function.update_self, List.append_assoc]
    · have hafter : t < n := by omega
      rw [ih hafter, Function.update_of_ne heq, hlast n hafter, List.append_nil, List.append_nil]

/-- What is left, read by number, is in the order it was logged. -/
def InOrder (parts : Nat → List α) (log : List α) : Prop :=
  ∀ n, (reading parts n).Sublist log

variable {parts parts' : Nat → List α} {log : List α}

theorem inOrder_empty : InOrder (fun _ => ([] : List α)) [] := by
  intro n
  rw [reading, List.flatMap_eq_nil_iff.mpr fun _ _ => rfl]

theorem InOrder.shrink (h : InOrder parts log) (hparts : ∀ i, (parts' i).Sublist (parts i)) :
    InOrder parts' log :=
  fun n => (reading_sublist hparts n).trans (h n)

/-- A line that is logged where nobody reads it. -/
theorem InOrder.lose (h : InOrder parts log) (a : α) : InOrder parts (log ++ [a]) :=
  fun n => (h n).trans (List.sublist_append_left log [a])

theorem InOrder.append (h : InOrder parts log) {t : Nat} (hlast : ∀ i, t < i → parts i = []) (a : α) :
    InOrder (Function.update parts t (parts t ++ [a])) (log ++ [a]) := by
  intro n
  by_cases hn : t < n
  · rw [reading_update hlast a hn]
    exact (h n).append (.refl [a])
  · have hbefore : reading (Function.update parts t (parts t ++ [a])) n = reading parts n :=
      reading_congr fun i hi => Function.update_of_ne (by omega) ..
    rw [hbefore]
    exact h.lose a n

end Segmented
