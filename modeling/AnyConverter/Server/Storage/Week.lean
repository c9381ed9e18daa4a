import AnyConverter.Lib.SqliteDate
import AnyConverter.Server.Storage.Query

/-!
# Weeks

The usage view puts a time into the week that begins a week before the next Monday, where a Monday is
its own next one.  The heatmap begins its weeks with the Monday a day is, or that came last before it.

* `weekStart_eq`: a week of the usage view begins with the Monday before the day;
* `week_iff`: which times are in the week of their Monday, and which pairs of times share a week
  exactly when they should.
-/

set_option autoImplicit false

namespace AnyConverter.Storage

open Calendar Rfc3339 SqliteDate

/-! ## Mondays -/

def numDaysFromMonday (day : Int) : Int := (day + 5) % 7

def IsMonday (day : Int) : Prop := numDaysFromMonday day = 0

def mondayOf (day : Int) : Int := day - numDaysFromMonday day

/-- Both lie in the seven days from a Monday on. -/
def SameWeek (a b : Int) : Prop :=
  ∃ monday, IsMonday monday ∧ (monday ≤ a ∧ a < monday + 7) ∧ monday ≤ b ∧ b < monday + 7

theorem mondayOf_spec (day : Int) :
    IsMonday (mondayOf day) ∧ mondayOf day ≤ day ∧ day < mondayOf day + 7 := by
  unfold IsMonday mondayOf numDaysFromMonday
  omega

theorem eq_mondayOf {monday day : Int} (h : IsMonday monday) (hle : monday ≤ day)
    (hlt : day < monday + 7) : monday = mondayOf day := by
  unfold IsMonday numDaysFromMonday at h
  unfold mondayOf numDaysFromMonday
  omega

theorem sameWeek_iff (a b : Int) : SameWeek a b ↔ mondayOf a = mondayOf b := by
  constructor
  · rintro ⟨monday, hmonday, ⟨hleA, hltA⟩, hleB, hltB⟩
    rw [← eq_mondayOf hmonday hleA hltA, ← eq_mondayOf hmonday hleB hltB]
  · intro h
    have hb := (mondayOf_spec b).2
    exact ⟨mondayOf a, (mondayOf_spec a).1, (mondayOf_spec a).2, by omega, by omega⟩

/-! ## The week of a time -/

/-- `date(column,'weekday 1','-7 days')` -/
def dateWeek (time : String) : Option String :=
  (timeValue time.toList).map fun day => String.ofList (dateText (toWeekday 1 day - 7))

/-- A time of the log or of the rollup: an instant in UTC, as text. -/
structure Timestamp where
  instant : Instant
  tail : List Char
  year_digits : 0 ≤ instant.year ∧ instant.year < 10000
  tail_utc : IsUtc tail

namespace Timestamp

def text (t : Timestamp) : String := String.ofList (Rfc3339.text t.instant t.tail)

def day (t : Timestamp) : Int := t.instant.day

def weekBucket (t : Timestamp) : Option String := Granularity.bucketExpr dateWeek t.text .week

/-- The week of the heatmap, by its text. -/
def monday (t : Timestamp) : String := String.ofList (dateText (mondayOf t.day))

end Timestamp

variable (t u : Timestamp)

theorem weekBucket_eq : t.weekBucket = some (String.ofList (dateText (toWeekday 1 t.day - 7))) := by
  show dateWeek t.text = _
  rw [dateWeek, Timestamp.text, String.toList_ofList, timeValue_text t.year_digits t.tail_utc]
  rfl

/-- **A week begins with the Monday before its days**: on a Monday, a week too early. -/
theorem weekStart_eq (day : Int) : toWeekday 1 day - 7 = mondayOf (day - 1) := by
  unfold toWeekday weekday mondayOf numDaysFromMonday
  omega

theorem weekStart_eq_mondayOf_iff (day : Int) :
    toWeekday 1 day - 7 = mondayOf day ↔ ¬IsMonday day := by
  rw [weekStart_eq]
  unfold IsMonday mondayOf numDaysFromMonday
  omega

/-- A day on a Monday and another within a week of it that is none. -/
def MondayNear (a b : Int) : Prop := IsMonday a ∧ ¬IsMonday b ∧ a - 7 < b ∧ b < a + 7

theorem weekStart_eq_iff (a b : Int) :
    (toWeekday 1 a - 7 = toWeekday 1 b - 7 ↔ SameWeek a b) ↔ ¬MondayNear a b ∧ ¬MondayNear b a := by
  rw [sameWeek_iff, weekStart_eq, weekStart_eq]
  unfold MondayNear IsMonday mondayOf numDaysFromMonday
  omega

theorem bucket_eq_iff (m n : Int) :
    some (String.ofList (dateText m)) = some (String.ofList (dateText n)) ↔ m = n := by
  rw [Option.some.injEq, String.ofList_inj]
  exact ⟨dateText_inj, congrArg dateText⟩

/-- **The week of a time begins with its Monday** exactly when it is not on one, and two times share
a week when they should exactly when it is not so that one is on a Monday and the other on another day
within a week of it. -/
theorem week_iff :
    (t.weekBucket = some t.monday ↔ ¬IsMonday t.day) ∧
    ((t.weekBucket = u.weekBucket ↔ SameWeek t.day u.day) ↔
      ¬MondayNear t.day u.day ∧ ¬MondayNear u.day t.day) := by
  rw [weekBucket_eq, weekBucket_eq]
  constructor
  · rw [← weekStart_eq_mondayOf_iff]
    exact bucket_eq_iff _ _
  · rw [bucket_eq_iff]
    exact weekStart_eq_iff t.day u.day

/-- The first Monday of 2026, at its start, as the rollup writes it. -/
def firstMonday : Timestamp where
  instant := ⟨1767571200, 0, Instant.zero_nano_lt⟩
  tail := ['Z']
  year_digits := by decide +kernel
  tail_utc := .z (Or.inl rfl)

/-- The week of a Monday is the one before. -/
theorem weekBucket_of_monday : firstMonday.text = "2026-01-05T00:00:00Z" ∧
    firstMonday.monday = "2026-01-05" ∧ firstMonday.weekBucket = some "2025-12-29" ∧
    firstMonday.weekBucket ≠ some firstMonday.monday := by
  decide +kernel

end AnyConverter.Storage
