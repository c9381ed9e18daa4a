import AnyConverter.Lib.Rfc3339

/-!
# Dates of SQLite

The date functions of SQLite read a text as a time value, and go on with the number of its day.  The
time values here are those that begin with a date; of a fraction of a second nothing is kept.

* `timeValue_text`: an instant in UTC is read as its day;
* `dateText_inj`: a day is told by its text.
-/

set_option autoImplicit false

namespace SqliteDate

open Calendar Decimal Rfc3339

/-! ## Time values -/

/-- A numeral of `k` digits between two bounds, and what follows it. -/
def number (k low high : Nat) (cs : List Char) : Option (Nat × List Char) :=
  let n := Nat.ofDigitChars 10 (cs.take k) 0
  if (cs.take k).length = k ∧ (cs.take k).all Char.isDigit ∧ low ≤ n ∧ n ≤ high then
    some (n, cs.drop k)
  else none

def mark (c : Char) : List Char → Option (List Char)
  | [] => none
  | d :: cs => if d = c then some cs else none

/-- `HH:MM`, in minutes. -/
def clock (maxHour : Nat) (cs : List Char) : Option (Nat × List Char) := do
  let (hour, cs) ← number 2 0 maxHour cs
  let cs ← mark ':' cs
  let (minute, cs) ← number 2 0 59 cs
  return (hour * 60 + minute, cs)

/-- `:SS.SSS`, where a time goes on with it; the fraction is passed over. -/
def seconds : List Char → Option (Nat × List Char)
  | ':' :: cs => do
    let (secs, cs) ← number 2 0 59 cs
    match cs with
    | '.' :: d :: cs => if d.isDigit then some (secs, cs.dropWhile Char.isDigit) else none
    | _ => some (secs, cs)
  | cs => some (0, cs)

/-- `[+-]HH:MM` or `Z`, in minutes. -/
def zone : List Char → Option Int
  | [] | ['Z'] => some 0
  | '+' :: cs => (clock 14 cs).bind fun (minutes, cs) => if cs = [] then some minutes else none
  | '-' :: cs => (clock 14 cs).bind fun (minutes, cs) => if cs = [] then some (-minutes) else none
  | _ => none

/-- The seconds a time is behind the start of its date, in UTC. -/
def timeOfDay : List Char → Option Int
  | [] => some 0
  | c :: cs =>
    if c = 'T' ∨ c = ' ' then do
      let (minutes, cs) ← clock 24 cs
      let (secs, cs) ← seconds cs
      let offset ← zone cs
      return (minutes - offset) * 60 + secs
    else none

/-- The day of a time value. -/
def timeValue (cs : List Char) : Option Int := do
  let (year, cs) ← number 4 0 9999 cs
  let cs ← mark '-' cs
  let (month, cs) ← number 2 1 12 cs
  let cs ← mark '-' cs
  let (day, cs) ← number 2 1 31 cs
  let time ← timeOfDay cs
  return dayNumber year month day + time / 86400

theorem number_pad (k low high : Nat) {n : Nat} (hn : n < 10 ^ k) (hlow : low ≤ n) (hhigh : n ≤ high)
    (cs : List Char) : number k low high (pad k n ++ cs) = some (n, cs) := by
  have htake : (pad k n ++ cs).take k = pad k n := List.take_left' (length_pad k n)
  have hdrop : (pad k n ++ cs).drop k = cs := List.drop_left' (length_pad k n)
  have hdigits : (pad k n).all Char.isDigit = true := List.all_eq_true.mpr fun c => isDigit_of_mem_pad
  rw [number, htake, hdrop, ofDigitChars_pad hn, length_pad]
  exact if_pos ⟨rfl, hdigits, hlow, hhigh⟩

theorem mark_cons (c : Char) (cs : List Char) : mark c (c :: cs) = some cs := if_pos rfl

theorem clock_pad (maxHour : Nat) {hour minute : Nat} (hhour : hour ≤ maxHour) (hmax : maxHour < 100)
    (hminute : minute < 60) (cs : List Char) :
    clock maxHour (pad 2 hour ++ ':' :: (pad 2 minute ++ cs)) = some (hour * 60 + minute, cs) := by
  have hh := number_pad 2 0 maxHour (by omega) (Nat.zero_le hour) hhour
    (':' :: (pad 2 minute ++ cs))
  have hm := number_pad 2 0 59 (by omega) (Nat.zero_le minute) (by omega) cs
  simp only [clock, hh, mark_cons, hm, Option.bind_eq_bind, Option.bind_some]
  rfl

/-! ## Instants in UTC -/

/-- The fraction of a second, which may be missing. -/
def IsFraction (cs : List Char) : Prop :=
  cs = [] ∨ ∃ d ds, cs = '.' :: d :: ds ∧ d.isDigit = true ∧ ∀ c ∈ ds, c.isDigit = true

/-- What may follow the seconds of an instant in UTC. -/
inductive IsUtc : List Char → Prop
  | z {fraction} : IsFraction fraction → IsUtc (fraction ++ ['Z'])
  | zero {fraction} : IsFraction fraction → IsUtc (fraction ++ ['+', '0', '0', ':', '0', '0'])

theorem seconds_fraction {second : Nat} (hsecond : second < 60) {fraction : List Char}
    (h : IsFraction fraction) {c : Char} (hdigit : c.isDigit = false) (hpoint : c ≠ '.')
    (cs : List Char) :
    seconds (':' :: (pad 2 second ++ (fraction ++ c :: cs))) = some (second, c :: cs) := by
  have hs := number_pad 2 0 59 (by omega) (Nat.zero_le second) (by omega)
    (fraction ++ c :: cs)
  unfold seconds
  simp only [hs, Option.bind_eq_bind, Option.bind_some]
  rcases h with rfl | ⟨d, ds, rfl, hd, hds⟩
  · split
    · rename_i heq
      exact absurd (List.cons.inj heq).1 hpoint
    · rfl
  · show (if d.isDigit then some (second, (ds ++ c :: cs).dropWhile Char.isDigit) else none) = _
    rw [if_pos hd, List.dropWhile_append_of_pos hds, List.dropWhile_cons_of_neg (by simp [hdigit])]

theorem seconds_utc {second : Nat} (hsecond : second < 60) {tail : List Char} (h : IsUtc tail) :
    ∃ rest, seconds (':' :: (pad 2 second ++ tail)) = some (second, rest) ∧ zone rest = some 0 := by
  cases h with
  | z hfraction => exact ⟨_, seconds_fraction hsecond hfraction (by decide) (by decide) [], rfl⟩
  | zero hfraction =>
    exact ⟨_, seconds_fraction hsecond hfraction (by decide) (by decide) _, by decide⟩

theorem timeOfDay_text (t : Instant) {tail : List Char} (h : IsUtc tail) :
    timeOfDay ('T' :: (pad 2 t.hour ++ ':' :: (pad 2 t.minute ++ ':' :: (pad 2 t.second ++ tail)))) =
      some (t.secondOfDay : Int) := by
  have hsecs := t.secondOfDay_lt
  have hhour : t.hour < 24 := by
    unfold Instant.hour
    omega
  have hminute : t.minute < 60 := Nat.mod_lt _ (by decide)
  have hsecond : t.second < 60 := Nat.mod_lt _ (by decide)
  obtain ⟨rest, hseconds, hzone⟩ := seconds_utc hsecond h
  have hclock := clock_pad 24 (Nat.le_of_lt hhour) (by decide) hminute
    (':' :: (pad 2 t.second ++ tail))
  have hsum : (((t.hour * 60 + t.minute : Nat) : Int) - 0) * 60 + (t.second : Int) =
      t.secondOfDay := by
    unfold Instant.hour Instant.minute Instant.second
    omega
  rw [timeOfDay, if_pos (Or.inl rfl)]
  simp only [hclock, hseconds, hzone, Option.bind_eq_bind, Option.bind_some]
  exact congrArg some hsum

/-- **An instant in UTC is read as its day**, where its year has four digits. -/
theorem timeValue_text {t : Instant} (hyear : 0 ≤ t.year ∧ t.year < 10000) {tail : List Char}
    (h : IsUtc tail) : timeValue (text t tail) = some t.day := by
  have hdayLe := t.date.day_le.trans (monthLength_le t.date.year t.date.month_le)
  have hmonthLe := t.date.month_le
  have hday := number_pad 2 1 31 (by omega) t.date.day_pos hdayLe
    ('T' :: (pad 2 t.hour ++ ':' :: (pad 2 t.minute ++ ':' :: (pad 2 t.second ++ tail))))
  have hmonth := number_pad 2 1 12 (by omega) t.date.month_pos hmonthLe
    ('-' :: (pad 2 t.date.day ++ 'T' :: (pad 2 t.hour ++ ':' :: (pad 2 t.minute ++ ':' ::
      (pad 2 t.second ++ tail)))))
  have hyears := @number_pad 4 0 9999 t.year.toNat (by omega)
    (Nat.zero_le _) (by omega) (restText t tail)
  have hnumber : dayNumber t.year.toNat t.date.month t.date.day = t.day := by
    rw [Int.toNat_of_nonneg hyear.1]
    exact Date.toDays_ofDays t.day
  have htime : (t.secondOfDay : Int) / 86400 = 0 := by
    have hsecs := t.secondOfDay_lt
    omega
  unfold text yearText
  rw [if_pos hyear]
  unfold restText at hyears ⊢
  simp only [timeValue, hyears, mark_cons, hmonth, hday, timeOfDay_text t h, Option.bind_eq_bind,
    Option.bind_some]
  rw [hnumber, htime, Int.add_zero]
  rfl

/-! ## Modifiers -/

/-- The day of the week, a Sunday being 0. -/
def weekday (day : Int) : Int := (day + 6) % 7

/-- `weekday N`: the next day that has the number, or the day itself. -/
def toWeekday (n day : Int) : Int := day + (n - weekday day) % 7

/-- `date`: a day as text. -/
def dateText (day : Int) : List Char :=
  yearText (Date.ofDays day).year ++
    '-' :: (pad 2 (Date.ofDays day).month ++ '-' :: pad 2 (Date.ofDays day).day)

theorem dateText_inj {m n : Int} (h : dateText m = dateText n) : m = n := by
  have hpad : ∀ {a b : Nat}, a < 100 → b < 100 → pad 2 a = pad 2 b → a = b := by
    intro a b ha hb hab
    rw [← @ofDigitChars_pad 2 a (by omega), hab, ofDigitChars_pad (by omega)]
  have hday : ∀ d : Date, d.month < 100 ∧ d.day < 100 := by
    intro d
    have hmonth := d.month_le
    have hlength := monthLength_le d.year hmonth
    have hle := d.day_le
    omega
  obtain ⟨hyear, hrest⟩ := List.append_inj' h (by simp)
  obtain ⟨hmonth, hrest⟩ := List.append_inj (List.cons.inj hrest).2 (by simp)
  have hdate : Date.ofDays m = Date.ofDays n :=
    Date.ext (yearText_inj hyear) (hpad (hday _).1 (hday _).1 hmonth)
      (hpad (hday _).2 (hday _).2 (List.cons.inj hrest).2)
  rw [← Date.toDays_ofDays m, hdate, Date.toDays_ofDays]

end SqliteDate
