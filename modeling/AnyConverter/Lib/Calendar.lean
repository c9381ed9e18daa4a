import Mathlib.Order.Monotone.Basic

/-!
# The proleptic Gregorian calendar

Days are numbered from the first of January of the year 0, and go on before it.  A `Date` is a day
by year, month and day of the month.

* `toDays_ofDays`, `ofDays_toDays`: a day has one date and a date one day;
* `toDays_lt_iff`: later days have later dates, by year, then month, then day.
-/

set_option autoImplicit false

namespace Calendar

/-! ## Years -/

def Leap (y : Int) : Prop := (y % 4 = 0 ∧ y % 100 ≠ 0) ∨ y % 400 = 0

instance : DecidablePred Leap := fun y => by
  unfold Leap
  infer_instance

/-- The day that leap years have more. -/
def leapDay (y : Int) : Nat := if Leap y then 1 else 0

/-- The number of the first day of a year. -/
def yearStart (y : Int) : Int := 365 * y + (y + 3) / 4 - (y + 99) / 100 + (y + 399) / 400

theorem leapDay_le (y : Int) : leapDay y ≤ 1 := by
  unfold leapDay
  split <;> omega

theorem yearStart_succ (y : Int) : yearStart (y + 1) = yearStart y + 365 + leapDay y := by
  unfold yearStart leapDay
  split
  · rename_i h
    rcases h with ⟨h4, h100⟩ | h400
    · omega
    · omega
  · rename_i h
    unfold Leap at h
    omega

/-- The year a day lies in: a year has a little less than 366 days, and 400 of them have 146097. -/
def yearOf (n : Int) : Int :=
  let y := 400 * n / 146097
  if n < yearStart y then y - 1 else if n < yearStart (y + 1) then y else y + 1

theorem yearOf_spec (n : Int) : yearStart (yearOf n) ≤ n ∧ n < yearStart (yearOf n + 1) := by
  have hlow : yearStart (400 * n / 146097 - 1) ≤ n := by
    unfold yearStart
    omega
  have hhigh : n < yearStart (400 * n / 146097 + 1 + 1) := by
    unfold yearStart
    omega
  simp only [yearOf]
  split
  · rename_i h
    rw [Int.sub_add_cancel]
    exact ⟨hlow, h⟩
  · rename_i hge
    split
    · rename_i h
      exact ⟨Int.not_lt.mp hge, h⟩
    · rename_i h
      exact ⟨Int.not_lt.mp h, hhigh⟩

theorem yearStart_le {y z : Int} (h : y ≤ z) : yearStart y ≤ yearStart z := by
  unfold yearStart
  omega

/-! ## Months -/

/-- The days of a year before a month, in a year of `leap` leap days. -/
def monthStart (leap : Nat) : Nat → Nat
  | 0 => 0
  | 1 => 0
  | 2 => 31
  | 3 => 59 + leap
  | 4 => 90 + leap
  | 5 => 120 + leap
  | 6 => 151 + leap
  | 7 => 181 + leap
  | 8 => 212 + leap
  | 9 => 243 + leap
  | 10 => 273 + leap
  | 11 => 304 + leap
  | 12 => 334 + leap
  | _ => 365 + leap

/-- The last of the first months of a year, `m + 1` of them, that starts by day `k`. -/
def monthUpTo (leap k : Nat) : Nat → Nat
  | 0 => 1
  | m + 1 => if monthStart leap (m + 2) ≤ k then m + 2 else monthUpTo leap k m

/-- The month a day of a year lies in. -/
def monthOf (leap k : Nat) : Nat := monthUpTo leap k 11

theorem monthStart_mono (leap : Nat) : Monotone (monthStart leap) := by
  refine monotone_nat_of_le_succ fun m => ?_
  match m with
  | 0 | 1 => exact Nat.zero_le _
  | 2 => exact Nat.le_add_right_of_le (by decide : 31 ≤ 59)
  | 3 | 4 | 5 | 6 | 7 | 8 | 9 | 10 | 11 | 12 => exact Nat.add_le_add_right (by decide) leap
  | m + 13 => exact le_rfl

theorem monthUpTo_spec {leap k m : Nat} (h : k < monthStart leap (m + 2)) :
    1 ≤ monthUpTo leap k m ∧ monthUpTo leap k m ≤ m + 1 ∧
      monthStart leap (monthUpTo leap k m) ≤ k ∧ k < monthStart leap (monthUpTo leap k m + 1) := by
  induction m with
  | zero => exact ⟨le_rfl, le_rfl, Nat.zero_le k, h⟩
  | succ m ih =>
    rw [monthUpTo]
    split
    · rename_i hstart
      exact ⟨Nat.le_add_left 1 _, le_rfl, hstart, h⟩
    · rename_i hstart
      obtain ⟨hpos, hle, hspec⟩ := ih (Nat.not_le.mp hstart)
      exact ⟨hpos, Nat.le_succ_of_le hle, hspec⟩

theorem monthOf_spec {leap k : Nat} (h : k < 365 + leap) :
    1 ≤ monthOf leap k ∧ monthOf leap k ≤ 12 ∧ monthStart leap (monthOf leap k) ≤ k ∧
      k < monthStart leap (monthOf leap k + 1) :=
  monthUpTo_spec h

def monthLength (y : Int) (m : Nat) : Nat :=
  monthStart (leapDay y) (m + 1) - monthStart (leapDay y) m

theorem monthLength_le (y : Int) {m : Nat} (h : m ≤ 12) : monthLength y m ≤ 31 := by
  have hall : ∀ leap : Fin 2, ∀ m : Fin 13,
      monthStart leap (m + 1) - monthStart leap m ≤ 31 := by decide
  exact hall ⟨leapDay y, Nat.lt_succ_of_le (leapDay_le y)⟩ ⟨m, Nat.lt_succ_of_le h⟩

/-! ## Dates -/

@[ext] structure Date where
  year : Int
  month : Nat
  day : Nat
  month_pos : 1 ≤ month
  month_le : month ≤ 12
  day_pos : 1 ≤ day
  day_le : day ≤ monthLength year month
  deriving DecidableEq

/-- The date of three numbers, when there is one. -/
def Date.of? (year : Int) (month day : Nat) : Option Date :=
  if h : (1 ≤ month ∧ month ≤ 12) ∧ 1 ≤ day ∧ day ≤ monthLength year month then
    some ⟨year, month, day, h.1.1, h.1.2, h.2.1, h.2.2⟩
  else none

/-- The number of a day of a year and a month, the months and days counted from one. -/
def dayNumber (year : Int) (month day : Nat) : Int :=
  yearStart year + monthStart (leapDay year) month + day - 1

def Date.toDays (d : Date) : Int := dayNumber d.year d.month d.day

theorem Date.day_bounds (d : Date) :
    monthStart (leapDay d.year) d.month + d.day ≤ monthStart (leapDay d.year) (d.month + 1) := by
  have hmono := monthStart_mono (leapDay d.year) (Nat.le_add_right d.month 1)
  have hday := d.day_le
  unfold monthLength at hday
  omega

/-- A date lies in its year. -/
theorem Date.toDays_bounds (d : Date) :
    yearStart d.year ≤ d.toDays ∧ d.toDays < yearStart (d.year + 1) := by
  have hday := d.day_bounds
  have hpos := d.day_pos
  have hend : monthStart (leapDay d.year) (d.month + 1) ≤ 365 + leapDay d.year :=
    monthStart_mono (leapDay d.year) (by have := d.month_le; omega : d.month + 1 ≤ 13)
  rw [yearStart_succ]
  unfold toDays dayNumber
  omega

/-- Earlier by year, then by month, then by day. -/
def Date.Before (a b : Date) : Prop :=
  a.year < b.year ∨ a.year = b.year ∧ (a.month < b.month ∨ a.month = b.month ∧ a.day < b.day)

theorem Date.toDays_lt_of_before {a b : Date} (h : a.Before b) : a.toDays < b.toDays := by
  rcases h with hyear | ⟨hyear, hmonth | ⟨hmonth, hday⟩⟩
  · have hnext := yearStart_le (show a.year + 1 ≤ b.year from hyear)
    have ha := a.toDays_bounds
    have hb := b.toDays_bounds
    omega
  · have hnext := monthStart_mono (leapDay a.year) (show a.month + 1 ≤ b.month from hmonth)
    have ha := a.day_bounds
    have hb := b.day_pos
    unfold toDays dayNumber
    rw [← hyear]
    omega
  · unfold toDays dayNumber
    rw [hyear, hmonth]
    omega

theorem Date.before_trichotomy (a b : Date) : a.Before b ∨ a = b ∨ b.Before a := by
  unfold Before
  by_cases hyear : a.year = b.year
  · by_cases hmonth : a.month = b.month
    · by_cases hday : a.day = b.day
      · exact Or.inr (Or.inl (Date.ext hyear hmonth hday))
      · omega
    · omega
  · omega

/-- Later dates are later days. -/
theorem Date.toDays_lt_iff (a b : Date) : a.toDays < b.toDays ↔ a.Before b := by
  refine ⟨fun h => ?_, toDays_lt_of_before⟩
  rcases before_trichotomy a b with hab | rfl | hba
  · exact hab
  · exact absurd h (lt_irrefl _)
  · exact absurd (toDays_lt_of_before hba) (lt_asymm h)

theorem Date.toDays_inj {a b : Date} (h : a.toDays = b.toDays) : a = b := by
  rcases before_trichotomy a b with hab | heq | hba
  · exact absurd h (toDays_lt_of_before hab).ne
  · exact heq
  · exact absurd h (toDays_lt_of_before hba).ne'

/-- The day of its year a day is, counted from zero. -/
def dayOfYear (n : Int) : Nat := (n - yearStart (yearOf n)).toNat

theorem dayOfYear_lt (n : Int) : dayOfYear n < 365 + leapDay (yearOf n) := by
  have hspec := yearOf_spec n
  rw [yearStart_succ] at hspec
  unfold dayOfYear
  omega

/-- The date of a day. -/
def Date.ofDays (n : Int) : Date where
  year := yearOf n
  month := monthOf (leapDay (yearOf n)) (dayOfYear n)
  day := dayOfYear n - monthStart (leapDay (yearOf n)) (monthOf (leapDay (yearOf n)) (dayOfYear n)) + 1
  month_pos := (monthOf_spec (dayOfYear_lt n)).1
  month_le := (monthOf_spec (dayOfYear_lt n)).2.1
  day_pos := Nat.le_add_left 1 _
  day_le := by
    have hspec := (monthOf_spec (dayOfYear_lt n)).2.2
    unfold monthLength
    omega

@[simp] theorem Date.toDays_ofDays (n : Int) : (ofDays n).toDays = n := by
  have hmonth := (monthOf_spec (dayOfYear_lt n)).2.2.1
  have hyear := (yearOf_spec n).1
  have hday : (dayOfYear n : Int) = n - yearStart (yearOf n) := by
    unfold dayOfYear
    omega
  simp only [toDays, dayNumber, ofDays]
  omega

@[simp] theorem Date.ofDays_toDays (d : Date) : ofDays d.toDays = d :=
  toDays_inj (toDays_ofDays d.toDays)

theorem Date.before_ofDays_iff (m n : Int) : (ofDays m).Before (ofDays n) ↔ m < n := by
  rw [← toDays_lt_iff, toDays_ofDays, toDays_ofDays]

theorem Date.of?_eq_some_iff {year : Int} {month day : Nat} {d : Date} :
    Date.of? year month day = some d ↔ d.year = year ∧ d.month = month ∧ d.day = day := by
  unfold of?
  split
  · rw [Option.some.injEq]
    constructor
    · rintro rfl
      exact ⟨rfl, rfl, rfl⟩
    · rintro ⟨rfl, rfl, rfl⟩
      rfl
  · rename_i h
    constructor
    · intro hnone
      cases hnone
    · rintro ⟨rfl, rfl, rfl⟩
      exact absurd ⟨⟨d.month_pos, d.month_le⟩, d.day_pos, d.day_le⟩ h

end Calendar
