import AnyConverter.Lib.Rfc3339
import AnyConverter.Lib.Text

/-!
# Periods

What a user calls a period, such as `7d`, `last:90m` or `2026-01-01..2026-01-31`, as two texts that
are compared with the timestamps of the records.  The date library is a parameter: its calendar, its
reader of days and its two writers of instants.
-/

set_option autoImplicit false

namespace AnyConverter.Period

open Calendar Rfc3339

/-! ## The date library -/

structure Chrono where
  /-- the first and the last second of the calendar -/
  minSecs : Int
  maxSecs : Int
  /-- the seconds of the longest duration -/
  maxDuration : Int
  /-- `NaiveDate::parse_from_str` with `%Y-%m-%d` -/
  parseDay : String → Option Date
  /-- `DateTime::to_rfc3339` -/
  toRfc3339 : Instant → String
  /-- `DateTime::to_rfc3339_opts` with whole seconds and a `Z` -/
  toRfc3339Secs : Instant → String

namespace Chrono

/-- The instants of the calendar. -/
def Holds (c : Chrono) (t : Instant) : Prop := c.minSecs ≤ t.secs ∧ t.secs ≤ c.maxSecs

instance (c : Chrono) (t : Instant) : Decidable (c.Holds t) := by
  unfold Holds
  infer_instance

def duration (c : Chrono) (secs : Int) : Option Int :=
  if -c.maxDuration ≤ secs ∧ secs ≤ c.maxDuration then some secs else none

/-- `checked_add_signed`. -/
def checkedAdd (c : Chrono) (t : Instant) (secs : Int) : Option Instant :=
  let moved : Instant := { t with secs := t.secs + secs }
  if c.Holds moved then some moved else none

/-- The fraction of a second: as many digits as it needs, three at a time. -/
def fraction (nano : Nat) : List Char :=
  if nano = 0 then []
  else if nano % 10 ^ 6 = 0 then '.' :: Decimal.pad 3 (nano / 10 ^ 6)
  else if nano % 10 ^ 3 = 0 then '.' :: Decimal.pad 6 (nano / 10 ^ 3)
  else '.' :: Decimal.pad 9 nano

/-- How the library is documented to write instants. -/
structure Writes (c : Chrono) : Prop where
  rfc3339 : ∀ t, c.toRfc3339 t = .ofList (text t (fraction t.nano ++ "+00:00".toList))
  rfc3339Secs : ∀ t, c.toRfc3339Secs t = .ofList (text t ['Z'])

/-- A day without signs and blanks. -/
def plainDay (s : String) : Option Date :=
  match Text.splitChar '-' s.toList with
  | [year, month, day] =>
    if (1 ≤ year.length ∧ year.length ≤ 4) ∧ (1 ≤ month.length ∧ month.length ≤ 2) ∧
        (1 ≤ day.length ∧ day.length ≤ 2) ∧ (year ++ month ++ day).all Char.isDigit then
      Date.of? (Nat.ofDigitChars 10 year 0) (Nat.ofDigitChars 10 month 0)
        (Nat.ofDigitChars 10 day 0)
    else none
  | _ => none

/-- A library that writes as documented, with the calendar and the durations of the real one. -/
def plain : Chrono where
  minSecs := -8334601228800
  maxSecs := 8210266876799
  maxDuration := 9223372036854775
  parseDay := plainDay
  toRfc3339 t := .ofList (text t (fraction t.nano ++ "+00:00".toList))
  toRfc3339Secs t := .ofList (text t ['Z'])

theorem plain_writes : plain.Writes := ⟨fun _ => rfl, fun _ => rfl⟩

end Chrono

/-- The start of a day. -/
def midnight (day : Int) : Instant := ⟨(day - epochDay) * 86400, 0, Instant.zero_nano_lt⟩

/-! ## Resolving a period -/

/-- A half-open range. -/
structure Range where
  fromBound : String
  toBound : String
  deriving DecidableEq, Repr

inductive PeriodError where
  | unknown (period : String)
  | invalidRange (period : String)
  deriving DecidableEq, Repr

def maxPresetDays : Int := 3650

/-- A number with a sign or without. -/
def signed : List Char → Option Int
  | '+' :: digits => (unsigned digits).map fun n => n
  | '-' :: digits => (unsigned digits).map fun n => -n
  | digits => (unsigned digits).map fun n => n
where
  /-- One digit or more. -/
  unsigned (digits : List Char) : Option Nat :=
    if digits ≠ [] ∧ digits.all Char.isDigit then some (Nat.ofDigitChars 10 digits 0) else none

/-- `str::parse` of an `i64`. -/
def parseI64 (s : List Char) : Option Int := (signed s).filter fun n => -(2 ^ 63) ≤ n ∧ n < 2 ^ 63

/-- The days of a `<n>d`, if the period is one. -/
def parseDayPreset (period : String) : Except PeriodError (Option Int) :=
  if period.toList.getLast? ≠ some 'd' then .ok none
  else
    let number := period.toList.dropLast
    if number = [] ∨ ¬ number.all Char.isDigit then .ok none
    else
      match parseI64 number with
      | none => .error (.invalidRange period)
      | some days =>
        if 1 ≤ days ∧ days ≤ maxPresetDays then .ok (some days) else .error (.invalidRange period)

/-- The seconds of a `last:<n><unit>`. -/
def parseLast (c : Chrono) (period : String) : Option Int := do
  let spec ← Text.stripPrefix "last:" period
  let unit ← spec.toList.getLast?
  let amount ← parseI64 spec.toList.dropLast
  if amount ≤ 0 then none
  else
    match unit with
    | 'm' => c.duration (amount * 60)
    | 'h' => c.duration (amount * 3600)
    | 'd' => c.duration (amount * 86400)
    | _ => none

/-- The instants of a `<day>..<day>`. -/
def resolveDays (c : Chrono) (period : String) : Option (Instant × Instant) := do
  let (first, last) ← Text.splitOnce ".." period
  let first ← c.parseDay first
  let last ← c.parseDay last
  if last.toDays < first.toDays then none
  else
    let next := midnight (last.toDays + 1)
    if c.Holds next then some (midnight first.toDays, next) else none

/-- The instants of a period. -/
def instants (c : Chrono) (period : String) (now : Instant) :
    Except PeriodError (Instant × Instant) :=
  let orInvalid (r : Option (Instant × Instant)) : Except PeriodError (Instant × Instant) :=
    match r with
    | some r => .ok r
    | none => .error (.invalidRange period)
  if period = "today" then
    let start := midnight now.day
    orInvalid ((c.checkedAdd start 86400).map fun next => (start, next))
  else if period = "all" then .ok (⟨0, 0, Instant.zero_nano_lt⟩, now)
  else if Text.startsWith period "last:" then
    orInvalid do
      let secs ← parseLast c period
      let start ← c.checkedAdd now (-secs)
      return (start, now)
  else if (Text.splitOnce ".." period).isSome then orInvalid (resolveDays c period)
  else do
    match ← parseDayPreset period with
    | some days => orInvalid ((c.checkedAdd now (-(days * 86400))).map fun start => (start, now))
    | none => .error (.unknown period)

def formatBound (c : Chrono) (at_ : Instant) : String := c.toRfc3339Secs at_

def resolve (c : Chrono) (period : String) (now : Instant) : Except PeriodError Range :=
  (instants c period now).map fun r => ⟨formatBound c r.1, formatBound c r.2⟩

end AnyConverter.Period
