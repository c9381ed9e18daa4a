import Mathlib.Algebra.BigOperators.Ring.Finset
import Mathlib.Algebra.Order.BigOperators.Group.List
import Mathlib.Algebra.Order.Ring.Rat
import Mathlib.Data.Rat.Cast.Order

/-!
# Numbers of SQLite

A column holds an integer of 64 bits or a real.  Adding two integers that leave 64 bits gives a real,
while a `sum` of integers that leaves them is an error.  Reals are exact here.

* `foldl_add_total`: counts added one by one;
* `sum_ints`, `sum_of_real`: counts summed at once.
-/

set_option autoImplicit false

namespace Sqlite

/-- The integers of 64 bits. -/
def Fits (z : Int) : Prop := -(2 ^ 63) ≤ z ∧ z < 2 ^ 63

instance : DecidablePred Fits := fun z => by
  unfold Fits
  infer_instance

theorem fits_natCast (n : Nat) : Fits n ↔ n < 2 ^ 63 := by
  unfold Fits
  omega

inductive Numeric where
  | int (z : Int)
  | real (q : ℚ)
  deriving DecidableEq

namespace Numeric

def value : Numeric → ℚ
  | int z => z
  | real q => q

@[simp] theorem value_int (z : Int) : (int z).value = z := rfl

@[simp] theorem value_real (q : ℚ) : (real q).value = q := rfl

/-- `a + b` -/
def add : Numeric → Numeric → Numeric
  | int a, int b => if Fits (a + b) then int (a + b) else real (a + b : Int)
  | a, b => real (a.value + b.value)

/-- `max(a, b)` -/
def max (a b : Numeric) : Numeric := if a.value < b.value then b else a

/-- What a column of integers keeps of a number: a real without a fraction becomes an integer, if it
is one of 64 bits. -/
def toInteger : Numeric → Numeric
  | int z => int z
  | real q => if q.den = 1 ∧ Fits q.num then int q.num else real q

/-- What a column of reals keeps of a number. -/
def toReal (v : Numeric) : Numeric := real v.value

def asInt? : Numeric → Option Int
  | int z => some z
  | real _ => none

/-- One integer more in a sum of integers. -/
def sumStep (total z : Int) : Option Int := if Fits (total + z) then some (total + z) else none

/-- `sum` over a group: an integer if all are integers and their sum never leaves 64 bits, an error if
it does, a real if one of them is. -/
def sum (vs : List Numeric) : Option Numeric :=
  match vs.mapM asInt? with
  | some zs => (zs.foldlM sumStep 0).map int
  | none => some (real (vs.map value).sum)

/-- `max` over a group; there is none over no rows. -/
def maximum : List Numeric → Option Numeric
  | [] => none
  | v :: vs => some (vs.foldl max v)

/-! ## Counts -/

/-- The number of a count: a real from 2^63 on. -/
def total (n : Nat) : Numeric := if n < 2 ^ 63 then int n else real n

theorem total_of_lt {n : Nat} (h : n < 2 ^ 63) : total n = int n := if_pos h

theorem total_of_le {n : Nat} (h : 2 ^ 63 ≤ n) : total n = real n := if_neg (Nat.not_lt.mpr h)

@[simp] theorem value_total (n : Nat) : (total n).value = n := by
  unfold total
  split <;> simp

theorem total_injective {m n : Nat} (h : total m = total n) : m = n := by
  have hvalue := congrArg value h
  rw [value_total, value_total] at hvalue
  exact Nat.cast_injective hvalue

theorem add_total (m n : Nat) : add (total m) (int n) = total (m + n) := by
  rcases Nat.lt_or_ge m (2 ^ 63) with hm | hm
  · rw [total_of_lt hm]
    have hcast : ((m : Int) + n) = ((m + n : Nat) : Int) := by push_cast; rfl
    show (if Fits ((m : Int) + n) then int (m + n) else real ((m + n : Int) : ℚ)) = total (m + n)
    unfold total
    rw [hcast]
    simp only [fits_natCast]
    split <;> simp
  · rw [total_of_le hm, total_of_le (Nat.le_add_right_of_le hm)]
    show real ((m : ℚ) + ((n : Int) : ℚ)) = real ((m + n : Nat) : ℚ)
    push_cast
    rfl

/-- A count is kept as it is by a column of integers. -/
theorem toInteger_total (n : Nat) : toInteger (total n) = total n := by
  rcases Nat.lt_or_ge n (2 ^ 63) with hn | hn
  · rw [total_of_lt hn]
    rfl
  · rw [total_of_le hn]
    have hfits : ¬ Fits n := by
      rw [fits_natCast]
      omega
    show (if (n : ℚ).den = 1 ∧ Fits (n : ℚ).num then int (n : ℚ).num else real n) = real n
    rw [Rat.num_natCast]
    exact if_neg fun h => hfits h.2

theorem mapM_asInt?_ints (zs : List Int) : (zs.map int).mapM asInt? = some zs := by
  induction zs with
  | nil => rfl
  | cons z zs ih => simp [List.mapM_cons, ih, asInt?]

theorem mapM_asInt?_of_real {vs : List Numeric} {q : ℚ} (h : real q ∈ vs) : vs.mapM asInt? = none := by
  induction vs with
  | nil => cases h
  | cons v vs ih =>
    rw [List.mapM_cons]
    rcases List.mem_cons.mp h with rfl | h
    · rfl
    · rw [ih h]
      cases v <;> rfl

theorem foldlM_sumStep (m : Nat) (hm : m < 2 ^ 63) (ns : List Nat) :
    (ns.map fun n : Nat => (n : Int)).foldlM sumStep m =
      if m + ns.sum < 2 ^ 63 then some ((m + ns.sum : Nat) : Int) else none := by
  induction ns generalizing m with
  | nil => exact (if_pos hm).symm
  | cons n ns ih =>
    have hcast : ((m : Int) + n) = ((m + n : Nat) : Int) := by push_cast; rfl
    rw [List.map_cons, List.foldlM_cons, List.sum_cons, ← Nat.add_assoc]
    unfold sumStep
    rw [hcast]
    simp only [fits_natCast]
    split
    · rename_i hfits
      exact ih (m + n) hfits
    · rename_i hover
      rw [if_neg (by omega)]
      rfl

/-- Counts of 64 bits are summed unless their sum leaves these. -/
theorem sum_ints (ns : List Nat) : sum (ns.map fun n : Nat => int n) =
    if ns.sum < 2 ^ 63 then some (int ns.sum) else none := by
  have hmap : (ns.map fun n : Nat => int n) = (ns.map fun n : Nat => (n : Int)).map int := by
    rw [List.map_map]
    rfl
  unfold sum
  rw [hmap, mapM_asInt?_ints]
  have hfold := foldlM_sumStep 0 (by decide) ns
  rw [Nat.zero_add, Nat.cast_zero] at hfold
  show Option.map int ((ns.map fun n : Nat => (n : Int)).foldlM sumStep 0) = _
  rw [hfold]
  split <;> rfl

/-- A real among the numbers makes their sum a real. -/
theorem sum_of_real {vs : List Numeric} {q : ℚ} (h : real q ∈ vs) :
    sum vs = some (real (vs.map value).sum) := by
  unfold sum
  rw [mapM_asInt?_of_real h]

theorem map_total_of_lt {ns : List Nat} (h : ∀ n ∈ ns, n < 2 ^ 63) :
    ns.map total = ns.map fun n : Nat => int n :=
  List.map_congr_left fun n hn => total_of_lt (h n hn)

theorem sum_totals_of_lt {ns : List Nat} (h : ns.sum < 2 ^ 63) :
    sum (ns.map total) = some (total ns.sum) := by
  have hall : ∀ n ∈ ns, n < 2 ^ 63 := fun n hn => (List.le_sum_of_mem hn).trans_lt h
  rw [map_total_of_lt hall, sum_ints, if_pos h, total_of_lt h]

/-- What is a sum of counts, and when there is one. -/
theorem sum_totals {ns : List Nat} {v : Numeric} (h : sum (ns.map total) = some v) :
    v = total ns.sum ∧ (ns.sum < 2 ^ 63 ∨ ∃ n ∈ ns, 2 ^ 63 ≤ n) := by
  by_cases hall : ∀ n ∈ ns, n < 2 ^ 63
  · rw [map_total_of_lt hall, sum_ints] at h
    split at h
    · rename_i hlt
      cases h
      exact ⟨(total_of_lt hlt).symm, Or.inl hlt⟩
    · cases h
  · simp only [not_forall, Nat.not_lt] at hall
    obtain ⟨n, hn, hle⟩ := hall
    have hreal : real n ∈ ns.map total := List.mem_map.mpr ⟨n, hn, total_of_le hle⟩
    have hvalues : ((ns.map total).map value).sum = ns.sum := by
      rw [List.map_map, Nat.cast_list_sum]
      exact congrArg List.sum (List.map_congr_left fun k _ => value_total k)
    rw [sum_of_real hreal, hvalues] at h
    cases h
    exact ⟨(total_of_le (hle.trans (List.le_sum_of_mem hn))).symm, Or.inr ⟨n, hn, hle⟩⟩

/-! ## What a sum is -/

def asInt (v : Numeric) : Int := v.asInt?.getD 0

theorem foldlM_sumStep_eq {zs : List Int} {acc z : Int} (h : zs.foldlM sumStep acc = some z) :
    z = acc + zs.sum := by
  induction zs generalizing acc with
  | nil =>
    obtain rfl : acc = z := Option.some.inj h
    exact (Int.add_zero acc).symm
  | cons x zs ih =>
    rw [List.foldlM_cons] at h
    obtain ⟨next, hstep, h⟩ := Option.bind_eq_some_iff.mp h
    unfold sumStep at hstep
    split at hstep
    · cases hstep
      rw [ih h, List.sum_cons, Int.add_assoc]
    · cases hstep

theorem mapM_asInt?_eq {vs : List Numeric} {zs : List Int} (h : vs.mapM asInt? = some zs) :
    vs = zs.map int := by
  induction vs generalizing zs with
  | nil =>
    cases h
    rfl
  | cons v vs ih =>
    rw [List.mapM_cons] at h
    obtain ⟨z, hz, h⟩ := Option.bind_eq_some_iff.mp h
    obtain ⟨rest, hrest, h⟩ := Option.bind_eq_some_iff.mp h
    cases h
    cases v with
    | int z' =>
      cases hz
      rw [List.map_cons, ih hrest]
    | real q => cases hz

/-- A sum that is an integer is that of integers. -/
theorem sum_eq_int {vs : List Numeric} {z : Int} (h : sum vs = some (int z)) :
    (∀ v ∈ vs, v = int v.asInt) ∧ z = (vs.map asInt).sum := by
  unfold sum at h
  split at h
  · rename_i zs hzs
    obtain ⟨z', hz', heq⟩ := Option.map_eq_some_iff.mp h
    cases heq
    have hvs := mapM_asInt?_eq hzs
    subst hvs
    refine ⟨fun v hv => ?_, ?_⟩
    · obtain ⟨x, -, rfl⟩ := List.mem_map.mp hv
      rfl
    · rw [foldlM_sumStep_eq hz', Int.zero_add, List.map_map]
      exact congrArg List.sum (List.map_id zs).symm
  · cases h

/-- The value of a sum. -/
theorem sum_value {vs : List Numeric} {v : Numeric} (h : sum vs = some v) :
    v.value = (vs.map value).sum := by
  unfold sum at h
  split at h
  · rename_i zs hzs
    obtain ⟨z, hz, rfl⟩ := Option.map_eq_some_iff.mp h
    rw [mapM_asInt?_eq hzs, value_int, foldlM_sumStep_eq hz, Int.zero_add, Int.cast_list_sum,
      List.map_map]
    rfl
  · cases h
    rfl

/-! ## Sums and maxima of other numbers -/

theorem max_ints (a b : Int) : max (int a) (int b) = int (a ⊔ b) := by
  unfold max
  simp only [value_int, Int.cast_lt]
  split
  · rename_i h
    rw [max_eq_right h.le]
  · rename_i h
    rw [max_eq_left (Int.not_lt.mp h)]

theorem foldl_max_ints (a : Int) (bs : List Int) :
    (bs.map int).foldl max (int a) = int (bs.foldl (· ⊔ ·) a) := by
  induction bs generalizing a with
  | nil => rfl
  | cons b bs ih => rw [List.map_cons, List.foldl_cons, max_ints, ih, List.foldl_cons]

/-- Reals and zeros have a sum. -/
theorem exists_sum {vs : List Numeric} (h : ∀ v ∈ vs, v = int 0 ∨ ∃ q, v = real q) :
    ∃ v, sum vs = some v ∧ v.value = (vs.map value).sum := by
  by_cases hreal : ∃ q, real q ∈ vs
  · obtain ⟨q, hq⟩ := hreal
    exact ⟨_, sum_of_real hq, rfl⟩
  · have hzeros : vs = (List.replicate vs.length 0).map fun n : Nat => int n := by
      rw [List.map_replicate]
      refine List.eq_replicate_of_mem fun v hv => ?_
      rcases h v hv with hzero | ⟨q, rfl⟩
      · exact hzero
      · exact absurd ⟨q, hv⟩ hreal
    rw [hzeros, sum_ints]
    simp

end Numeric

end Sqlite
