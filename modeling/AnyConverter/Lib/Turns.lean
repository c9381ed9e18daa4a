import Mathlib.Data.List.Rotate
import Mathlib.Data.List.Chain
import Mathlib.Data.Nat.ModEq
import Mathlib.Dynamics.PeriodicPts.Defs

/-!
# Turns taken along a list

The rotations of a list, one after the other.

* `rotate_eq_rotate_iff`: two rotations agree when their distance is a multiple of the period;
* `heads_perm`: over as many turns as the list is long, each entry comes first once.
-/

set_option autoImplicit false

namespace Turns

variable {α : Type}

/-- After how many turns a list reads the same again. -/
noncomputable def period (l : List α) : Nat := Function.minimalPeriod (fun l : List α => l.rotate 1) l

theorem iterate_rotate (l : List α) (n : Nat) : (fun l : List α => l.rotate 1)^[n] l = l.rotate n := by
  induction n with
  | zero => rw [Function.iterate_zero, id, List.rotate_zero]
  | succ n ih => rw [Function.iterate_succ_apply', ih, List.rotate_rotate]

theorem rotate_eq_self_iff (l : List α) (n : Nat) : l.rotate n = l ↔ period l ∣ n := by
  rw [period, ← Function.isPeriodicPt_iff_minimalPeriod_dvd, Function.IsPeriodicPt,
    Function.IsFixedPt, iterate_rotate]

theorem rotate_eq_rotate_iff (l : List α) (i j : Nat) :
    l.rotate i = l.rotate j ↔ i ≡ j [MOD period l] := by
  have hle : ∀ i j, i ≤ j → (l.rotate i = l.rotate j ↔ i ≡ j [MOD period l]) := by
    intro i j hij
    have hsplit : l.rotate j = (l.rotate (j - i)).rotate i := by
      rw [List.rotate_rotate, Nat.sub_add_cancel hij]
    rw [hsplit, List.rotate_eq_rotate, eq_comm, rotate_eq_self_iff, Nat.modEq_iff_dvd' hij]
  rcases Nat.le_total i j with hij | hji
  · exact hle i j hij
  · rw [eq_comm, hle j i hji]
    exact ⟨Nat.ModEq.symm, Nat.ModEq.symm⟩

/-- A list without repeats reads the same only after a whole turn. -/
theorem period_eq_length {l : List α} (hl : l.Nodup) (hne : l ≠ []) : period l = l.length := by
  refine Nat.dvd_antisymm ((rotate_eq_self_iff l l.length).mp (List.rotate_length l)) ?_
  have hself : l.rotate (period l) = l := (rotate_eq_self_iff l _).mpr (Nat.dvd_refl _)
  rcases hl.rotate_eq_self_iff.mp hself with hmod | hnil
  · exact Nat.dvd_of_mod_eq_zero hmod
  · exact absurd hnil hne

theorem period_of_length_le_one {l : List α} (h : l.length ≤ 1) : period l = 1 := by
  refine Nat.eq_one_of_dvd_one ((rotate_eq_self_iff l 1).mp ?_)
  match l, h with
  | [], _ => rfl
  | [a], _ => exact List.rotate_singleton a 1

/-- Turns taken one after the other. -/
def Taken (orders : List (List α)) : Prop := orders.IsChain fun a b => b = a.rotate 1

theorem turns_eq_map {first : List α} {orders : List (List α)} (h : Taken (first :: orders)) :
    first :: orders = (List.range (orders.length + 1)).map first.rotate := by
  induction orders generalizing first with
  | nil => simp
  | cons second orders ih =>
    obtain ⟨rfl, hrest⟩ := List.isChain_cons_cons.mp h
    rw [List.length_cons, List.range_succ_eq_map, List.map_cons, List.map_map, List.rotate_zero,
      ih hrest]
    refine congrArg _ (List.map_congr_left fun n _ => ?_)
    rw [List.rotate_rotate, Function.comp, Nat.succ_eq_add_one, Nat.add_comm]

/-- **Over a whole round of turns every entry comes first once**, wherever the round begins. -/
theorem heads_perm {first : List α} {orders : List (List α)} (h : Taken (first :: orders))
    (hlength : (first :: orders).length = first.length) :
    ((first :: orders).filterMap List.head?).Perm first := by
  have hheads : (first :: orders).map List.head? = first.map some := by
    rw [turns_eq_map h, ← List.length_cons (a := first), hlength, List.map_map]
    apply List.ext_getElem (by simp)
    intro k hk _
    have hlt : k < first.length := by simpa using hk
    rw [List.getElem_map, List.getElem_range, List.getElem_map, Function.comp,
      List.head?_rotate hlt, List.getElem?_eq_getElem hlt]
  have hid : (first :: orders).filterMap List.head? =
      ((first :: orders).map List.head?).filterMap id := by
    rw [List.filterMap_map]
    rfl
  rw [hid, hheads, List.filterMap_map]
  exact List.Perm.of_eq List.filterMap_some

end Turns
