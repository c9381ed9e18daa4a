import AnyConverter.Server.Period.Bounds

/-!
# The mirror of the web server

`resolvePeriod` of the web server reads a period as `resolve` does, with the dates of another
language: an instant is a count of milliseconds that may leave the calendar, a day out of a month
rolls over, and a year of more than four digits is written with six.

* `resolvePeriod`: the mirror, line by line;
* `mirrored_iff`: where the two give the same.
-/

set_option autoImplicit false

namespace AnyConverter.LogStore

open Calendar Decimal Rfc3339 Period

/-! ## Dates -/

/-- The milliseconds of a `Date`; none when it is invalid. -/
abbrev Time := Option Int

/-- The milliseconds a `Date` may be away from the start of 1970. -/
def maxTime : Int := 8640000000000000

def timeClip (ms : Int) : Time := if -maxTime ≤ ms ∧ ms ≤ maxTime then some ms else none

def instantOf (ms : Int) : Instant where
  secs := ms / 1000
  nano := (ms % 1000).toNat * 10 ^ 6
  nano_lt := by omega

/-- A year as `toISOString` writes it. -/
def isoYear (y : Int) : List Char :=
  if 0 ≤ y ∧ y < 10000 then pad 4 y.toNat
  else (if y < 0 then '-' else '+') :: pad 6 y.natAbs

def toIsoString (ms : Int) : List Char :=
  isoYear (instantOf ms).year ++
    restText (instantOf ms) ('.' :: (pad 3 (ms % 1000).toNat ++ ['Z']))

/-- An invalid date throws. -/
def formatUtc (date : Time) : Option String :=
  date.map fun ms => .ofList ((toIsoString ms).take 19 ++ ['Z'])

def dayMs : Int := 86400000

def addMilliseconds (date : Time) (milliseconds : Int) : Time :=
  date.bind fun ms => timeClip (ms + milliseconds)

/-- The start of a day by its numbers; months and days that are too many roll over. -/
def utcDay (year : Int) (month day : Int) : Time :=
  let first := dayNumber (year + (month - 1) / 12) ((month - 1) % 12 + 1).toNat 1
  timeClip ((first + day - 1 - epochDay) * dayMs)

def startOfUtcDay (now : Int) : Time :=
  let date := (instantOf now).date
  utcDay date.year date.month date.day

/-! ## Periods -/

/-- `/^(\d{4})-(\d{1,2})-(\d{1,2})$/` -/
def matchDay (s : String) : Option (Nat × Nat × Nat) :=
  match Text.splitChar '-' s.toList with
  | [year, month, day] =>
    if year.length = 4 ∧ (1 ≤ month.length ∧ month.length ≤ 2) ∧
        (1 ≤ day.length ∧ day.length ≤ 2) ∧ (year ++ month ++ day).all Char.isDigit then
      some (Nat.ofDigitChars 10 year 0, Nat.ofDigitChars 10 month 0, Nat.ofDigitChars 10 day 0)
    else none
  | _ => none

/-- The numbers of a day, which must be those of the date they make. -/
def parseUtcDay (value : String) : Option (Nat × Nat × Nat) := do
  let (year, month, day) ← matchDay value
  let parsed ← utcDay year month day
  let date := (instantOf parsed).date
  if date.year = year ∧ date.month = month ∧ date.day = day then some (year, month, day) else none

def rangeOf (start stop : Time) : Option Range := do
  let fromBound ← formatUtc start
  let toBound ← formatUtc stop
  return ⟨fromBound, toBound⟩

/-- Two days, with the separator between them and nowhere else. -/
def resolveDays (period : String) : Option Range := do
  let (first, last) ← Text.splitOnce ".." period
  if (Text.splitOnce ".." last).isSome then none
  else
    let (year, month, day) ← parseUtcDay first
    let (lastYear, lastMonth, lastDay) ← parseUtcDay last
    let start ← utcDay year month day
    let lastStart ← utcDay lastYear lastMonth lastDay
    if lastStart < start then none
    else rangeOf (some start) (addMilliseconds (some lastStart) dayMs)

/-- The window of `spanMs` milliseconds before now. -/
def rollingWindow (now spanMs : Int) : Option Range := do
  let start ← addMilliseconds (some now) (-spanMs)
  rangeOf (some start) (some now)

/-- `2 ^ 53 - 1`; what is read of a longer number is no less than `2 ^ 53`. -/
def maxSafeInteger : Int := 9007199254740991

/-- The milliseconds of a `last:<n><unit>`.  A product too large for a whole number is rounded, but
leaves the calendar by far. -/
def lastDuration (period : String) : Option Int := do
  let spec ← Text.stripPrefix "last:" period
  let unit ← spec.toList.getLast?
  let amount ← signed spec.toList.dropLast
  let unitMs ← match unit with
    | 'm' => some 60000
    | 'h' => some 3600000
    | 'd' => some dayMs
    | _ => none
  if amount ≤ maxSafeInteger ∧ 0 < amount then some (amount * unitMs) else none

/-- The days of a `<n>d`; none where the mirror throws. -/
def dayPreset (period : String) : Option Int :=
  let number := period.toList.dropLast
  if period.toList.getLast? = some 'd' ∧ number ≠ [] ∧ number.all Char.isDigit then
    let days : Int := Nat.ofDigitChars 10 number 0
    if days ≤ maxSafeInteger ∧ 1 ≤ days ∧ days ≤ maxPresetDays then some days else none
  else none

/-- The range of a period; none where the mirror throws. -/
def resolvePeriod (period : String) (now : Int) : Option Range :=
  if period = "today" then
    rangeOf (startOfUtcDay now) (addMilliseconds (startOfUtcDay now) dayMs)
  else if period = "all" then rangeOf (some 0) (some now)
  else if Text.startsWith period "last:" then (lastDuration period).bind (rollingWindow now)
  else if (Text.splitOnce ".." period).isSome then resolveDays period
  else (dayPreset period).bind fun days => rollingWindow now (days * dayMs)

/-! ## The texts of both -/

/-- An instant in a year of four digits. -/
def FourDigits (t : Instant) : Prop := 0 ≤ t.year ∧ t.year < 10000

instance (t : Instant) : Decidable (FourDigits t) := by
  unfold FourDigits
  infer_instance

theorem restText_append (t : Instant) (tail : List Char) : restText t tail = restText t [] ++ tail := by
  simp [restText]

theorem length_restText (t : Instant) : (restText t []).length = 15 := by
  simp [restText]

theorem restText_congr {a b : Instant} (h : a.secs = b.secs) (tail : List Char) :
    restText a tail = restText b tail := by
  obtain ⟨secs, nano, hnano⟩ := a
  obtain ⟨secs', nano', hnano'⟩ := b
  obtain rfl : secs = secs' := h
  rfl

theorem length_padAtLeast (k n : Nat) (hk : 0 < k) : k ≤ (padAtLeast k n).length := by
  unfold padAtLeast
  split
  · rw [length_pad]
  · rename_i h
    by_contra hlen
    have hle : (Nat.toDigits 10 n).length ≤ k := by omega
    exact h ((Nat.length_toDigits_le_iff (by decide) hk).mp hle)

/-- The two write an instant in the same way exactly when its year has four digits. -/
theorem formatUtc_eq_iff {c : Chrono} (h : c.Writes) {t : Instant} {ms : Int}
    (hsecs : ms / 1000 = t.secs) :
    formatUtc (some ms) = some (c.toRfc3339Secs t) ↔ FourDigits t := by
  have hyear : (instantOf ms).year = t.year := year_eq_of_secs_eq hsecs
  have hrest : toIsoString ms =
      isoYear t.year ++ (restText t [] ++ '.' :: (pad 3 (ms % 1000).toNat ++ ['Z'])) := by
    unfold toIsoString
    rw [hyear, restText_congr (a := instantOf ms) (b := t) hsecs, restText_append]
  have htext : text t ['Z'] = yearText t.year ++ (restText t [] ++ ['Z']) := by
    unfold text
    rw [restText_append]
  have hlen := length_restText t
  rw [formatUtc, Option.map_some, Option.some.injEq, h.rfc3339Secs, String.ofList_inj, hrest, htext]
  by_cases hfour : FourDigits t
  · refine iff_of_true ?_ hfour
    have hiso : isoYear t.year = pad 4 t.year.toNat := if_pos hfour
    have hplain : yearText t.year = pad 4 t.year.toNat := if_pos hfour
    rw [hiso, hplain, ← List.append_assoc, ← List.append_assoc, List.take_left' (by simp [hlen])]
  · refine iff_of_false ?_ hfour
    intro heq
    have hplain : yearText t.year = (if t.year < 0 then '-' else '+') :: padAtLeast 4 t.year.natAbs :=
      if_neg hfour
    have hpad := length_padAtLeast 4 t.year.natAbs (by decide)
    have hlengths := congrArg List.length heq
    rw [hplain] at hlengths
    simp only [List.length_append, List.length_take, List.length_cons, List.length_nil, hlen] at hlengths
    omega

theorem rangeOf_eq_iff {c : Chrono} (h : c.Writes) {a b : Instant} {start stop : Int}
    (ha : start / 1000 = a.secs) (hb : stop / 1000 = b.secs) :
    rangeOf (some start) (some stop) = some ⟨c.toRfc3339Secs a, c.toRfc3339Secs b⟩ ↔
      FourDigits a ∧ FourDigits b := by
  rw [← formatUtc_eq_iff h ha, ← formatUtc_eq_iff h hb]
  simp [rangeOf, formatUtc]

/-! ## Days -/

/-- What the pattern of a day leaves through: few digits, and no dot. -/
theorem matchDay_spec {s : String} {year month day : Nat}
    (h : matchDay s = some (year, month, day)) :
    year < 10000 ∧ month < 100 ∧ day < 100 ∧ '.' ∉ s.toList := by
  unfold matchDay at h
  split at h
  · rename_i y m d hsplit
    split at h
    · rename_i hparts
      obtain ⟨hy, ⟨-, hm⟩, ⟨-, hd⟩, hall⟩ := hparts
      cases h
      simp only [List.all_append, Bool.and_eq_true, List.all_eq_true] at hall
      obtain ⟨⟨hyear, hmonth⟩, hday⟩ := hall
      have hpow : ∀ {k : Nat}, k ≤ 2 → 10 ^ k ≤ 100 := fun hk =>
        Nat.pow_le_pow_right (by decide) hk
      have hybound := ofDigitChars_lt hyear 0
      have hmbound := ofDigitChars_lt hmonth 0
      have hdbound := ofDigitChars_lt hday 0
      rw [Nat.zero_add, Nat.one_mul] at hybound hmbound hdbound
      refine ⟨?_, hmbound.trans_le (hpow hm), hdbound.trans_le (hpow hd), ?_⟩
      · rw [hy] at hybound
        exact hybound
      · intro hdot
        rcases @Text.mem_splitChar '-' _ _ hdot with hsep | ⟨segment, hsegment, hmem⟩
        · exact absurd hsep (by decide)
        · have hdigit : '.'.isDigit = true := by
            rw [hsplit] at hsegment
            simp only [List.mem_cons, List.not_mem_nil, or_false] at hsegment
            rcases hsegment with rfl | rfl | rfl
            · exact hyear '.' hmem
            · exact hmonth '.' hmem
            · exact hday '.' hmem
          exact absurd hdigit (by decide)
    · cases h
  · cases h

/-- The milliseconds of the start of a day. -/
def startOf (day : Int) : Int := (day - epochDay) * dayMs

theorem date_startOf (day : Int) : (instantOf (startOf day)).date = .ofDays day := by
  have hday : (instantOf (startOf day)).day = day := by
    simp only [Instant.day, instantOf, startOf, dayMs]
    omega
  rw [Instant.date, hday]

/-- The start of the first day of the numbers a pattern leaves through, some days on. -/
theorem utcDay_eq {year month day : Nat} (hyear : year < 10000) (hmonth : month < 100)
    (hday : day < 100) : ∃ n, utcDay year month day = some (startOf n) ∧
      ∀ d : Date, d.year = year → d.month = month → d.day = day → d.toDays = n := by
  refine ⟨dayNumber (year + ((month : Int) - 1) / 12) (((month : Int) - 1) % 12 + 1).toNat 1 + day - 1,
    ?_, ?_⟩
  · refine if_pos ?_
    have hmonths : monthStart (leapDay (year + ((month : Int) - 1) / 12))
        (((month : Int) - 1) % 12 + 1).toNat ≤ 365 + 1 := by
      refine (monthStart_mono _ (show _ ≤ 13 by omega)).trans ?_
      exact Nat.add_le_add_left (leapDay_le _) 365
    unfold dayNumber yearStart epochDay dayMs maxTime
    omega
  · intro d hy hm hd
    have hpos := d.month_pos
    have hle := d.month_le
    have hyears : (year : Int) + ((month : Int) - 1) / 12 = year := by omega
    have hmonths : (((month : Int) - 1) % 12 + 1).toNat = month := by omega
    rw [hyears, hmonths, Date.toDays, hy, hm, hd]
    unfold dayNumber
    omega

/-- The date of the numbers of a day, if they have one. -/
def dayOf (s : String) : Option Date :=
  (matchDay s).bind fun p => Date.of? p.1 p.2.1 p.2.2

/-- The mirror takes the texts of the pattern that have a date. -/
theorem parseUtcDay_eq (s : String) : parseUtcDay s =
    (dayOf s).map fun d => (d.year.toNat, d.month, d.day) := by
  unfold parseUtcDay dayOf
  cases hmatch : matchDay s with
  | none => rfl
  | some p =>
    obtain ⟨year, month, day⟩ := p
    obtain ⟨hyear, hmonth, hday, -⟩ := matchDay_spec hmatch
    obtain ⟨n, hn, hdays⟩ := utcDay_eq hyear hmonth hday
    simp only [Option.bind_eq_bind, Option.bind_some, hn, date_startOf]
    cases hdate : Date.of? (year : Int) month day with
    | none =>
      rw [if_neg]
      · rfl
      · rintro ⟨hy, hm, hd⟩
        rw [Date.of?_eq_some_iff.mpr ⟨hy, hm, hd⟩] at hdate
        cases hdate
    | some d =>
      obtain ⟨hy, hm, hd⟩ := Date.of?_eq_some_iff.mp hdate
      have hof : Date.ofDays n = d := by
        rw [← hdays d hy hm hd, Date.ofDays_toDays]
      rw [hof, if_pos ⟨hy, hm, hd⟩, Option.map_some, hy, hm, hd]
      rfl

theorem utcDay_date {d : Date} (hyear : 0 ≤ d.year ∧ d.year < 10000) :
    utcDay d.year.toNat d.month d.day = some (startOf d.toDays) := by
  have hle := d.day_le.trans (monthLength_le d.year d.month_le)
  have hm := d.month_le
  obtain ⟨n, hn, hdays⟩ := @utcDay_eq d.year.toNat d.month d.day (by omega) (by omega) (by omega)
  rw [hn, hdays d (by omega) rfl rfl]

theorem dayOf_year {s : String} {d : Date} (h : dayOf s = some d) : 0 ≤ d.year ∧ d.year < 10000 := by
  obtain ⟨⟨year, month, day⟩, hmatch, hdate⟩ := Option.bind_eq_some_iff.mp h
  have hyear := (matchDay_spec hmatch).1
  have hy := (Date.of?_eq_some_iff.mp hdate).1
  omega

/-- A text of the pattern has no separator of days. -/
theorem splitOnce_dayOf {s : String} {d : Date} (h : dayOf s = some d) :
    Text.splitOnce ".." s = none := by
  obtain ⟨⟨year, month, day⟩, hmatch, -⟩ := Option.bind_eq_some_iff.mp h
  have hdot := (matchDay_spec hmatch).2.2.2
  cases hsplit : Text.splitOnce ".." s with
  | none => rfl
  | some p =>
    refine absurd ?_ hdot
    rw [Text.splitOnce_eq_some hsplit]
    simp

/-- The mirror on a range of days. -/
theorem resolveDays_eq {period a b : String} (h : Text.splitOnce ".." period = some (a, b)) :
    LogStore.resolveDays period = (dayOf a).bind fun d => (dayOf b).bind fun e =>
      if e.toDays < d.toDays then none
      else rangeOf (some (startOf d.toDays)) (addMilliseconds (some (startOf e.toDays)) dayMs) := by
  unfold LogStore.resolveDays
  rw [h]
  simp only [Option.bind_eq_bind, Option.bind_some, parseUtcDay_eq]
  cases hb : dayOf b with
  | none =>
    cases dayOf a <;> simp
  | some e =>
    rw [splitOnce_dayOf hb]
    cases ha : dayOf a with
    | none => simp
    | some d =>
      have hlt : startOf e.toDays < startOf d.toDays ↔ e.toDays < d.toDays := by
        unfold startOf dayMs
        omega
      simp only [Option.isSome_none, Bool.false_eq_true, if_false, Option.map_some,
        Option.bind_some, utcDay_date (dayOf_year ha), utcDay_date (dayOf_year hb), hlt]

/-! ## Where the two agree -/

/-- What is documented of the date library: its texts, that it reads what the mirror's pattern
leaves through as the calendar does, and that its calendar has the years of four digits and lies
within the dates of the mirror, as its durations do not. -/
structure Documented (c : Chrono) : Prop extends c.Writes where
  parse_plain : ∀ s p, matchDay s = some p → c.parseDay s = Date.of? p.1 p.2.1 p.2.2
  minSecs_ge : -8640000000000 ≤ c.minSecs
  minSecs_le : c.minSecs ≤ (midnight 0).secs
  maxSecs_ge : (midnight (yearStart 10000)).secs ≤ c.maxSecs
  maxSecs_lt : c.maxSecs < 8640000000000
  maxDuration_ge : 17280000000000 ≤ c.maxDuration

/-- An instant some seconds before another. -/
def before (t : Instant) (secs : Int) : Instant := { t with secs := t.secs - secs }

/-- A window ends and begins in a year of four digits, or begins before either calendar. -/
def WindowMirrored (now : Instant) (secs : Int) : Prop :=
  FourDigits now ∧ FourDigits (before now secs) ∨ now.secs - secs < -8640000000000

/-- Two days that the library takes are days of the mirror's pattern, and the day after them is one
of a year of four digits. -/
def DaysMirrored (c : Chrono) (first last : String) : Prop :=
  ∀ d e, c.parseDay first = some d → c.parseDay last = some e → d.toDays ≤ e.toDays →
    c.Holds (midnight (e.toDays + 1)) →
      (matchDay first).isSome ∧ (matchDay last).isSome ∧ FourDigits (midnight (e.toDays + 1))

/-- The seconds of a `last:<n><unit>`, however many. -/
def lastSpan (period : String) : Option Int := do
  let spec ← Text.stripPrefix "last:" period
  let unit ← spec.toList.getLast?
  let amount ← signed spec.toList.dropLast
  let unitSecs ← match unit with
    | 'm' => some 60
    | 'h' => some 3600
    | 'd' => some 86400
    | _ => none
  if 0 < amount then some (amount * unitSecs) else none

/-- Where the mirror gives for a period what the resolver gives. -/
def Mirrored (c : Chrono) (period : String) (now : Instant) : Prop :=
  if period = "today" then FourDigits (midnight now.day) ∧ FourDigits (midnight (now.day + 1))
  else if period = "all" then FourDigits now
  else if Text.startsWith period "last:" then
    ∀ span, lastSpan period = some span → WindowMirrored now span
  else
    match Text.splitOnce ".." period with
    | some (first, last) => DaysMirrored c first last
    | none => ∀ days, dayPreset period = some days → WindowMirrored now (days * 86400)

/-- The milliseconds of an instant. -/
def millis (t : Instant) : Int := t.secs * 1000 + t.nano / 10 ^ 6

theorem millis_div (t : Instant) : millis t / 1000 = t.secs := by
  have := t.nano_lt
  unfold millis
  omega

variable {c : Chrono}

/-- The range of two instants. -/
def written (c : Chrono) (r : Instant × Instant) : Range := ⟨c.toRfc3339Secs r.1, c.toRfc3339Secs r.2⟩

theorem fourDigits_of_secs {t : Instant} (h : FourDigits t) :
    (midnight 0).secs ≤ t.secs ∧ t.secs < (midnight (yearStart 10000)).secs := by
  have hdate : (Date.ofDays t.day).toDays = t.day := Date.toDays_ofDays t.day
  have hbounds := (Date.ofDays t.day).toDays_bounds
  have hyear : (Date.ofDays t.day).year = t.year := rfl
  have hfirst := yearStart_le h.1
  have hlast := yearStart_le (show t.year + 1 ≤ 10000 from h.2)
  have hzero : yearStart 0 = 0 := rfl
  have hsecs := t.secs_eq
  have hday := t.secondOfDay_lt
  rw [hdate, hyear] at hbounds
  simp only [midnight]
  omega

theorem startOf_div (day : Int) : startOf day / 1000 = (midnight day).secs := by
  simp only [startOf, dayMs, midnight]
  omega

theorem day_midnight (day : Int) : (midnight day).day = day := by
  simp only [Instant.day, midnight]
  omega

theorem year_midnight (d : Date) : (midnight d.toDays).year = d.year := by
  rw [Instant.year, Instant.date, day_midnight, Date.ofDays_toDays]

theorem rangeOf_ne_none (start stop : Int) : rangeOf (some start) (some stop) ≠ none := by
  simp [rangeOf, formatUtc]

/-! ## Windows -/

theorem window_iff (h : Documented c) {now : Instant} (hnow : c.Holds now) {span : Int}
    (hspan : 0 < span) :
    ((c.checkedAdd now (-span)).map fun start => written c (start, now)) =
        rollingWindow (millis now) (span * 1000) ↔ WindowMirrored now span := by
  have hnano := now.nano_lt
  have hmillis := millis_div now
  have hmin := h.minSecs_ge
  have hmax := h.maxSecs_lt
  obtain ⟨hnow_ge, hnow_le⟩ := hnow
  have hchecked : c.checkedAdd now (-span) =
      if c.Holds (before now span) then some (before now span) else none := rfl
  unfold WindowMirrored
  by_cases hlow : now.secs - span < -8640000000000
  · refine iff_of_true ?_ (Or.inr hlow)
    have hrust : ¬ c.Holds (before now span) := by
      intro hholds
      have := hholds.1
      simp only [before] at this
      omega
    have hjs : addMilliseconds (some (millis now)) (-(span * 1000)) = none := by
      refine if_neg ?_
      unfold maxTime
      omega
    rw [hchecked, if_neg hrust, rollingWindow, hjs]
    rfl
  · have hjs : addMilliseconds (some (millis now)) (-(span * 1000)) =
        some (millis now + -(span * 1000)) := by
      refine if_pos ?_
      unfold maxTime
      omega
    rw [hchecked, rollingWindow, hjs, Option.bind_eq_bind, Option.bind_some]
    by_cases hholds : c.Holds (before now span)
    · rw [if_pos hholds, Option.map_some]
      have hstart : (millis now + -(span * 1000)) / 1000 = (before now span).secs := by
        simp only [before]
        omega
      rw [eq_comm, written, rangeOf_eq_iff h.toWrites hstart hmillis]
      constructor
      · rintro ⟨hbefore, hfour⟩
        exact Or.inl ⟨hfour, hbefore⟩
      · rintro (⟨hfour, hbefore⟩ | hfar)
        · exact ⟨hbefore, hfour⟩
        · exact absurd hfar hlow
    · rw [if_neg hholds]
      refine iff_of_false (fun heq => rangeOf_ne_none _ _ heq.symm) ?_
      rintro (⟨-, hbefore⟩ | hfar)
      · have hsecs := fourDigits_of_secs hbefore
        have hfirst := h.minSecs_le
        refine hholds ⟨hfirst.trans hsecs.1, ?_⟩
        simp only [before]
        omega
      · exact hlow hfar

/-- A window as long as both calendars begins before either. -/
theorem window_none (h : Documented c) {now : Instant} (hnow : c.Holds now) {span : Int}
    (hspan : 17280000000000 < span) : WindowMirrored now span ∧
      rollingWindow (millis now) (span * 1000) = none ∧ c.checkedAdd now (-span) = none := by
  have hmax := h.maxSecs_lt
  have hmin := h.minSecs_ge
  have hlow : now.secs - span < -8640000000000 := by
    have := hnow.2
    omega
  have hwindow : WindowMirrored now span := Or.inr hlow
  have hrust : c.checkedAdd now (-span) = none := by
    refine if_neg ?_
    intro hholds
    have hge : c.minSecs ≤ now.secs + -span := hholds.1
    omega
  refine ⟨hwindow, ?_, hrust⟩
  rw [← (window_iff h hnow (by omega)).mpr hwindow, hrust]
  rfl

/-! ## Ranges of days -/

theorem parseDay_eq (h : Documented c) {s : String} (hs : (matchDay s).isSome) :
    c.parseDay s = dayOf s := by
  obtain ⟨p, hp⟩ := Option.isSome_iff_exists.mp hs
  rw [h.parse_plain s p hp, dayOf, hp]
  rfl

theorem dayOf_eq_none {s : String} (hs : ¬ (matchDay s).isSome) : dayOf s = none := by
  rw [Option.not_isSome_iff_eq_none] at hs
  rw [dayOf, hs]
  rfl

theorem resolveDays_parsed {period a b : String} (hsplit : Text.splitOnce ".." period = some (a, b)) :
    Period.resolveDays c period = (c.parseDay a).bind fun d => (c.parseDay b).bind fun e =>
      if e.toDays < d.toDays then none
      else if c.Holds (midnight (e.toDays + 1)) then
        some (midnight d.toDays, midnight (e.toDays + 1))
      else none := by
  unfold Period.resolveDays
  rw [hsplit]
  rfl

theorem days_iff (h : Documented c) {period a b : String}
    (hsplit : Text.splitOnce ".." period = some (a, b)) :
    (Period.resolveDays c period).map (written c) = LogStore.resolveDays period ↔
      DaysMirrored c a b := by
  rw [resolveDays_parsed hsplit, resolveDays_eq hsplit]
  unfold DaysMirrored
  by_cases hmatch : (matchDay a).isSome ∧ (matchDay b).isSome
  · obtain ⟨ha, hb⟩ := hmatch
    rw [parseDay_eq h ha, parseDay_eq h hb]
    cases hd : dayOf a with
    | none => exact iff_of_true rfl fun d e hnone => (by cases hnone)
    | some d =>
      cases he : dayOf b with
      | none => exact iff_of_true rfl fun d e _ hnone => (by cases hnone)
      | some e =>
        simp only [Option.bind_some]
        by_cases hlt : e.toDays < d.toDays
        · rw [if_pos hlt, if_pos hlt]
          refine iff_of_true rfl ?_
          rintro _ _ ⟨⟩ ⟨⟩ hle
          exact absurd hlt (by omega)
        · have hdyear := dayOf_year hd
          have heyear := dayOf_year he
          have hbounds := e.toDays_bounds
          have hfirst := yearStart_le heyear.1
          have hlast := yearStart_le (show e.year + 1 ≤ 10000 from heyear.2)
          have hzero : yearStart 0 = 0 := rfl
          have hten : yearStart 10000 = 3652425 := rfl
          have hmin := h.minSecs_le
          have hmax := h.maxSecs_ge
          simp only [midnight] at hmin hmax
          have hholds : c.Holds (midnight (e.toDays + 1)) := by
            unfold Chrono.Holds midnight
            simp only
            omega
          have hnext : addMilliseconds (some (startOf e.toDays)) dayMs =
              some (startOf (e.toDays + 1)) := by
            have hadd : startOf e.toDays + dayMs = startOf (e.toDays + 1) := by
              unfold startOf dayMs
              omega
            rw [addMilliseconds, Option.bind_some, hadd]
            refine if_pos ?_
            unfold startOf epochDay dayMs maxTime
            omega
          have hstart : FourDigits (midnight d.toDays) := by
            unfold FourDigits
            rw [year_midnight]
            exact hdyear
          rw [if_neg hlt, if_neg hlt, if_pos hholds, hnext, Option.map_some, eq_comm, written,
            rangeOf_eq_iff h.toWrites (startOf_div _) (startOf_div _)]
          constructor
          · rintro ⟨-, hfour⟩ _ _ ⟨⟩ ⟨⟩ _ _
            exact ⟨ha, hb, hfour⟩
          · intro hall
            exact ⟨hstart, (hall d e rfl rfl (by omega) hholds).2.2⟩
  · have hnone : ((dayOf a).bind fun d => (dayOf b).bind fun e =>
        if e.toDays < d.toDays then none
        else rangeOf (some (startOf d.toDays)) (addMilliseconds (some (startOf e.toDays)) dayMs)) =
        none := by
      by_cases ha : (matchDay a).isSome
      · have hb : ¬ (matchDay b).isSome := fun hb => hmatch ⟨ha, hb⟩
        rw [dayOf_eq_none hb]
        cases dayOf a <;> rfl
      · rw [dayOf_eq_none ha]
        rfl
    rw [hnone, Option.map_eq_none_iff]
    constructor
    · intro hrust d e hd he hle hholds
      rw [hd, he, Option.bind_some, Option.bind_some, if_neg (by omega), if_pos hholds] at hrust
      cases hrust
    · intro hall
      cases hd : c.parseDay a with
      | none => rfl
      | some d =>
        cases he : c.parseDay b with
        | none => rfl
        | some e =>
          rw [Option.bind_some, Option.bind_some]
          split
          · rfl
          · rename_i hle
            split
            · rename_i hholds
              obtain ⟨ha, hb, -⟩ := hall d e hd he (by omega) hholds
              exact absurd ⟨ha, hb⟩ hmatch
            · rfl

/-! ## Periods -/

/-- A product of an amount above the largest whole number is longer than both calendars. -/
theorem span_gt {amount unit : Int} (hunit : 60 ≤ unit) (hamount : 9007199254740991 < amount) :
    17280000000000 < amount * unit := by
  calc (17280000000000 : Int) < 9007199254740991 * 60 := by decide
    _ ≤ amount * 60 := Int.mul_le_mul_of_nonneg_right hamount.le (by decide)
    _ ≤ amount * unit := Int.mul_le_mul_of_nonneg_left hunit (by omega)

/-- A duration the library has, or one longer than both calendars. -/
theorem duration_cases (h : Documented c) {secs : Int} (hsecs : 0 < secs) :
    c.duration secs = some secs ∨ c.duration secs = none ∧ 17280000000000 < secs := by
  have hmax := h.maxDuration_ge
  unfold Chrono.duration
  split
  · exact Or.inl rfl
  · rename_i hout
    exact Or.inr ⟨rfl, by omega⟩

/-- What the resolver makes of an amount of a unit of `secs` seconds. -/
theorem amount_cases (h : Documented c) {amount secs : Int} (hpos : 0 < amount) (hsecs : 60 ≤ secs) :
    (if -(2 ^ 63) ≤ amount ∧ amount < 2 ^ 63 then c.duration (amount * secs) else none) =
        some (amount * secs) ∨
      (if -(2 ^ 63) ≤ amount ∧ amount < 2 ^ 63 then c.duration (amount * secs) else none) = none ∧
        17280000000000 < amount * secs := by
  split
  · exact duration_cases h (Int.mul_pos hpos (by omega))
  · rename_i hout
    exact Or.inr ⟨rfl, span_gt hsecs (by omega)⟩

/-- The resolver reads the common window, or refuses it for being longer than both calendars. -/
theorem parseLast_cases (h : Documented c) (period : String) :
    lastSpan period = none ∧ parseLast c period = none ∨
      ∃ span, lastSpan period = some span ∧ 0 < span ∧
        (parseLast c period = some span ∨ parseLast c period = none ∧ 17280000000000 < span) := by
  unfold parseLast lastSpan
  cases Text.stripPrefix "last:" period with
  | none => exact Or.inl ⟨rfl, rfl⟩
  | some spec =>
    simp only [Option.bind_eq_bind, Option.bind_some]
    cases spec.toList.getLast? with
    | none => exact Or.inl ⟨rfl, rfl⟩
    | some unit =>
      simp only [Option.bind_some, parseI64]
      cases signed spec.toList.dropLast with
      | none => exact Or.inl ⟨rfl, rfl⟩
      | some amount =>
        simp only [Option.bind_some, Option.filter, decide_eq_true_eq]
        have hbind : ∀ f : Int → Option Int,
            (if -(2 ^ 63) ≤ amount ∧ amount < 2 ^ 63 then some amount else none).bind f =
              if -(2 ^ 63) ≤ amount ∧ amount < 2 ^ 63 then f amount else none := by
          intro f
          split <;> rfl
        rw [hbind]
        by_cases hpos : 0 < amount
        · have hle : ¬ amount ≤ 0 := by omega
          simp only [hpos, hle, if_true, if_false]
          split
          · exact Or.inr ⟨_, rfl, Int.mul_pos hpos (by decide), amount_cases h hpos (by decide)⟩
          · exact Or.inr ⟨_, rfl, Int.mul_pos hpos (by decide), amount_cases h hpos (by decide)⟩
          · exact Or.inr ⟨_, rfl, Int.mul_pos hpos (by decide), amount_cases h hpos (by decide)⟩
          · refine Or.inl ⟨rfl, ?_⟩
            split <;> first | rfl | (split <;> simp_all)
        · have hle : amount ≤ 0 := by omega
          simp only [hpos, hle, if_true, if_false, ite_self]
          split <;> exact Or.inl ⟨rfl, trivial⟩

/-- The mirror reads the common window, or refuses it for being longer than both calendars. -/
theorem lastDuration_cases (period : String) :
    lastSpan period = none ∧ lastDuration period = none ∨
      ∃ span, lastSpan period = some span ∧ 0 < span ∧
        (lastDuration period = some (span * 1000) ∨
          lastDuration period = none ∧ 17280000000000 < span) := by
  unfold lastDuration lastSpan
  cases Text.stripPrefix "last:" period with
  | none => exact Or.inl ⟨rfl, rfl⟩
  | some spec =>
    simp only [Option.bind_eq_bind, Option.bind_some]
    cases spec.toList.getLast? with
    | none => exact Or.inl ⟨rfl, rfl⟩
    | some unit =>
      simp only [Option.bind_some]
      cases signed spec.toList.dropLast with
      | none => exact Or.inl ⟨rfl, rfl⟩
      | some amount =>
        simp only [Option.bind_some]
        by_cases hpos : 0 < amount
        · have hcases : ∀ secs ms : Int, 60 ≤ secs → secs * 1000 = ms →
              (if amount ≤ maxSafeInteger ∧ 0 < amount then some (amount * ms) else none) =
                  some (amount * secs * 1000) ∨
                (if amount ≤ maxSafeInteger ∧ 0 < amount then some (amount * ms) else none) = none ∧
                  17280000000000 < amount * secs := by
            intro secs ms hsecs hms
            split
            · rw [← hms, Int.mul_assoc]
              exact Or.inl rfl
            · rename_i hout
              unfold maxSafeInteger at hout
              exact Or.inr ⟨rfl, span_gt hsecs (by omega)⟩
          simp only [hpos, if_true]
          split
          · have hunit := hcases 60 60000 (by decide) rfl
            exact Or.inr ⟨_, rfl, Int.mul_pos hpos (by decide), by simpa [hpos] using hunit⟩
          · have hunit := hcases 3600 3600000 (by decide) rfl
            exact Or.inr ⟨_, rfl, Int.mul_pos hpos (by decide), by simpa [hpos] using hunit⟩
          · have hunit := hcases 86400 dayMs (by decide) rfl
            exact Or.inr ⟨_, rfl, Int.mul_pos hpos (by decide), by simpa [hpos] using hunit⟩
          · exact Or.inl ⟨rfl, rfl⟩
        · simp only [hpos, and_false, if_false]
          split <;> exact Or.inl ⟨rfl, rfl⟩

theorem last_iff (h : Documented c) {now : Instant} (hnow : c.Holds now) (period : String) :
    (((parseLast c period).bind fun secs =>
        (c.checkedAdd now (-secs)).map fun start => (start, now)).map (written c)) =
        (lastDuration period).bind (rollingWindow (millis now)) ↔
      ∀ span, lastSpan period = some span → WindowMirrored now span := by
  rcases parseLast_cases h period with ⟨hnone, hrust⟩ | ⟨span, hspan, hpos, hrust⟩
  · rcases lastDuration_cases period with ⟨-, hjs⟩ | ⟨span, hspan, -⟩
    · rw [hnone, hrust, hjs]
      exact iff_of_true rfl fun span hsome => (by cases hsome)
    · rw [hnone] at hspan
      cases hspan
  · rcases lastDuration_cases period with ⟨hnone, -⟩ | ⟨span', hspan', -, hjs⟩
    · rw [hnone] at hspan
      cases hspan
    · obtain rfl : span = span' := Option.some.inj (hspan.symm.trans hspan')
      have hall : (∀ span', lastSpan period = some span' → WindowMirrored now span') ↔
          WindowMirrored now span := by
        rw [hspan]
        exact ⟨fun hall => hall span rfl, fun hwindow span' hsome => Option.some.inj hsome ▸ hwindow⟩
      rw [hall]
      by_cases hlong : 17280000000000 < span
      · obtain ⟨hwindow, hrolling, hchecked⟩ := window_none h hnow hlong
        refine iff_of_true ?_ hwindow
        have hleft : ((parseLast c period).bind fun secs =>
            (c.checkedAdd now (-secs)).map fun start => (start, now)) = none := by
          rcases hrust with hrust | ⟨hrust, -⟩
          · rw [hrust, Option.bind_some, hchecked]
            rfl
          · rw [hrust]
            rfl
        have hright : (lastDuration period).bind (rollingWindow (millis now)) = none := by
          rcases hjs with hjs | ⟨hjs, -⟩
          · rw [hjs, Option.bind_some, hrolling]
          · rw [hjs]
            rfl
        rw [hleft, hright]
        rfl
      · have hrust : parseLast c period = some span := hrust.resolve_right fun hlong' => hlong hlong'.2
        have hjs : lastDuration period = some (span * 1000) :=
          hjs.resolve_right fun hlong' => hlong hlong'.2
        rw [hrust, hjs, Option.bind_some, Option.bind_some, Option.map_map]
        exact window_iff h hnow hpos

theorem signed_digits {cs : List Char} (hne : cs ≠ []) (hall : cs.all Char.isDigit = true) :
    signed cs = some (Nat.ofDigitChars 10 cs 0 : Int) := by
  have hunsigned : signed.unsigned cs = some (Nat.ofDigitChars 10 cs 0) := if_pos ⟨hne, hall⟩
  unfold signed
  split
  · exact absurd (List.all_eq_true.mp hall '+' List.mem_cons_self) (by decide)
  · exact absurd (List.all_eq_true.mp hall '-' List.mem_cons_self) (by decide)
  · rw [hunsigned]
    rfl

theorem parseI64_cases {cs : List Char} {n : Int} (h : signed cs = some n) :
    parseI64 cs = some n ∨ parseI64 cs = none := by
  rw [parseI64, h, Option.filter_some]
  split
  · exact Or.inl rfl
  · exact Or.inr rfl

theorem parseI64_small {cs : List Char} {n : Int} (h : signed cs = some n) (hge : 0 ≤ n)
    (hle : n ≤ maxPresetDays) : parseI64 cs = some n := by
  have hfit : -(2 ^ 63) ≤ n ∧ n < 2 ^ 63 := by
    unfold maxPresetDays at hle
    omega
  rw [parseI64, h]
  exact Option.filter_some_pos (by simpa using hfit)

/-- The resolver and the mirror take the same periods of days. -/
theorem parseDayPreset_cases (period : String) :
    (∃ days, parseDayPreset period = .ok (some days) ∧ dayPreset period = some days ∧ 0 < days) ∨
      (parseDayPreset period = .ok none ∨ ∃ e, parseDayPreset period = .error e) ∧
        dayPreset period = none := by
  unfold parseDayPreset dayPreset
  by_cases hlast : period.toList.getLast? = some 'd'
  · by_cases hdigits : period.toList.dropLast ≠ [] ∧ period.toList.dropLast.all Char.isDigit = true
    · obtain ⟨hne, hall⟩ := hdigits
      have hbad : ¬ (period.toList.dropLast = [] ∨
          ¬ period.toList.dropLast.all Char.isDigit = true) := by
        rintro (hnil | hnot)
        · exact hne hnil
        · exact hnot hall
      have hsigned := signed_digits hne hall
      rw [if_neg (fun hlast' => hlast' hlast)]
      simp only [hbad, if_false]
      rw [if_pos ⟨hlast, hne, hall⟩]
      generalize (Nat.ofDigitChars 10 period.toList.dropLast 0 : Int) = days at hsigned ⊢
      by_cases hrange : 1 ≤ days ∧ days ≤ maxPresetDays
      · obtain ⟨hge, hle⟩ := hrange
        have hsafe : days ≤ maxSafeInteger := hle.trans (by decide)
        refine Or.inl ⟨days, ?_, if_pos ⟨hsafe, hge, hle⟩, hge⟩
        rw [parseI64_small hsigned (by omega) hle]
        exact if_pos ⟨hge, hle⟩
      · refine Or.inr ⟨Or.inr ⟨.invalidRange period, ?_⟩, if_neg fun hall => hrange hall.2⟩
        rcases parseI64_cases hsigned with hparse | hparse
        · rw [hparse]
          exact if_neg hrange
        · rw [hparse]
    · have hbad : period.toList.dropLast = [] ∨
          ¬ period.toList.dropLast.all Char.isDigit = true := by
        by_contra hgood
        rw [not_or, not_not] at hgood
        exact hdigits hgood
      rw [if_neg (fun hlast' => hlast' hlast)]
      simp only [hbad, if_true]
      exact Or.inr ⟨Or.inl trivial, if_neg fun hall => hdigits hall.2⟩
  · rw [if_pos hlast]
    exact Or.inr ⟨Or.inl rfl, if_neg fun hall => hlast hall.1⟩

theorem preset_iff (h : Documented c) {now : Instant} (hnow : c.Holds now) {period : String}
    (htoday : period ≠ "today") (hall : period ≠ "all")
    (hlast : Text.startsWith period "last:" = false) (hdays : Text.splitOnce ".." period = none) :
    (resolve c period now).toOption =
        (dayPreset period).bind (fun days => rollingWindow (millis now) (days * dayMs)) ↔
      ∀ days, dayPreset period = some days → WindowMirrored now (days * 86400) := by
  have hms : ∀ days : Int, days * dayMs = days * 86400 * 1000 := by
    intro days
    unfold dayMs
    omega
  unfold resolve instants
  simp only [htoday, hall, hlast, hdays, if_false, Option.isSome_none, Bool.false_eq_true]
  rcases parseDayPreset_cases period with ⟨days, hrust, hjs, hpos⟩ | ⟨hrust, hjs⟩
  · rw [hrust, hjs, Option.bind_some, hms]
    have hspan : 0 < days * 86400 := by omega
    have hwindow := window_iff h hnow hspan
    have hiff : (∀ days', some days = some days' → WindowMirrored now (days' * 86400)) ↔
        WindowMirrored now (days * 86400) :=
      ⟨fun hevery => hevery days rfl, fun hone days' hsome => Option.some.inj hsome ▸ hone⟩
    rw [hiff, ← hwindow]
    refine iff_of_eq (congrArg (· = _) ?_)
    cases hchecked : c.checkedAdd now (-(days * 86400)) with
    | none => simp [Except.toOption, bind, Except.bind, hchecked, Except.map]
    | some start => simp [Except.toOption, bind, Except.bind, hchecked, Except.map, written, formatBound]
  · rw [hjs]
    refine iff_of_true ?_ fun days hsome => (by cases hsome)
    rcases hrust with hrust | ⟨e, hrust⟩
    · rw [hrust]
      rfl
    · rw [hrust]
      rfl

theorem utcDay_of_date (d : Date) : utcDay d.year d.month d.day = timeClip (startOf d.toDays) := by
  have hpos := d.month_pos
  have hle := d.month_le
  have hyear : d.year + ((d.month : Int) - 1) / 12 = d.year := by omega
  have hmonth : (((d.month : Int) - 1) % 12 + 1).toNat = d.month := by omega
  have hdays : dayNumber d.year d.month 1 + d.day - 1 - epochDay = d.toDays - epochDay := by
    unfold Date.toDays dayNumber
    omega
  rw [utcDay, hyear, hmonth]
  simp only [hdays]
  rfl

/-- Today begins and ends within both calendars. -/
theorem startOfUtcDay_eq (h : Documented c) {now : Instant} (hnow : c.Holds now) :
    startOfUtcDay (millis now) = some (startOf now.day) ∧
      addMilliseconds (startOfUtcDay (millis now)) dayMs = some (startOf (now.day + 1)) := by
  have hmin := h.minSecs_ge.trans hnow.1
  have hmax := hnow.2.trans_lt h.maxSecs_lt
  have hsecs := now.secs_eq
  have hsecond := now.secondOfDay_lt
  have hdate : (instantOf (millis now)).date = now.date := by
    rw [Instant.date, Instant.date, Instant.day, Instant.day]
    exact congrArg (fun secs => Date.ofDays (secs / 86400 + epochDay)) (millis_div now)
  have hstart : startOfUtcDay (millis now) = some (startOf now.day) := by
    simp only [startOfUtcDay, hdate]
    rw [utcDay_of_date, Instant.date, Date.toDays_ofDays]
    refine if_pos ?_
    unfold startOf dayMs maxTime
    omega
  refine ⟨hstart, ?_⟩
  have hnext : startOf now.day + dayMs = startOf (now.day + 1) := by
    unfold startOf dayMs
    omega
  rw [hstart, addMilliseconds, Option.bind_some, hnext]
  refine if_pos ?_
  unfold startOf dayMs maxTime
  omega

theorem checkedAdd_day (day : Int) : c.checkedAdd (midnight day) 86400 =
    if c.Holds (midnight (day + 1)) then some (midnight (day + 1)) else none := by
  have hmoved : ({ midnight day with secs := (midnight day).secs + 86400 } : Instant) =
      midnight (day + 1) := by
    simp only [midnight, Instant.mk.injEq, and_true]
    omega
  simp only [Chrono.checkedAdd, hmoved]

theorem holds_of_fourDigits (h : Documented c) {t : Instant} (ht : FourDigits t) : c.Holds t := by
  obtain ⟨hfirst, hlast⟩ := fourDigits_of_secs ht
  exact ⟨h.minSecs_le.trans hfirst, hlast.le.trans h.maxSecs_ge⟩

theorem today_iff (h : Documented c) {now : Instant} (hnow : c.Holds now) :
    (resolve c "today" now).toOption = resolvePeriod "today" (millis now) ↔
      FourDigits (midnight now.day) ∧ FourDigits (midnight (now.day + 1)) := by
  obtain ⟨hstart, hnext⟩ := startOfUtcDay_eq h hnow
  have hjs : resolvePeriod "today" (millis now) =
      rangeOf (some (startOf now.day)) (some (startOf (now.day + 1))) := by
    rw [resolvePeriod, if_pos rfl, hnext, hstart]
  rw [hjs]
  unfold resolve instants
  simp only [if_true, checkedAdd_day]
  by_cases hholds : c.Holds (midnight (now.day + 1))
  · rw [if_pos hholds, ← rangeOf_eq_iff h.toWrites (startOf_div _) (startOf_div _), eq_comm]
    rfl
  · rw [if_neg hholds]
    refine iff_of_false (fun heq => rangeOf_ne_none _ _ heq.symm) ?_
    rintro ⟨-, hfour⟩
    exact hholds (holds_of_fourDigits h hfour)

theorem all_iff (h : Documented c) (now : Instant) :
    (resolve c "all" now).toOption = resolvePeriod "all" (millis now) ↔ FourDigits now := by
  have hepoch : FourDigits ⟨0, 0, by decide⟩ := by decide
  have hrange := @rangeOf_eq_iff c h.toWrites ⟨0, 0, by decide⟩ now 0 (millis now) rfl (millis_div now)
  rw [eq_comm]
  exact hrange.trans (and_iff_right hepoch)

/-- The resolver and its mirror give the same, range or refusal, exactly where every day they are
told of is written in four, two and two digits and every bound lies in a year of four digits, or
where a window begins before either calendar. -/
theorem mirrored_iff (h : Documented c) {now : Instant} (hnow : c.Holds now) (period : String) :
    (resolve c period now).toOption = resolvePeriod period (millis now) ↔ Mirrored c period now := by
  unfold Mirrored
  by_cases htoday : period = "today"
  · subst htoday
    rw [if_pos rfl]
    exact today_iff h hnow
  · by_cases hall : period = "all"
    · subst hall
      rw [if_neg htoday, if_pos rfl]
      exact all_iff h now
    · rw [if_neg htoday, if_neg hall]
      cases hlast : Text.startsWith period "last:" with
      | true =>
        have hrust : (resolve c period now).toOption = ((parseLast c period).bind fun secs =>
            (c.checkedAdd now (-secs)).map fun start => (start, now)).map (written c) := by
          unfold resolve instants
          simp only [htoday, hall, hlast, if_true, if_false]
          cases parseLast c period with
          | none => rfl
          | some secs =>
            dsimp only [Option.bind_eq_bind, Option.bind_some]
            cases c.checkedAdd now (-secs) <;> rfl
        have hjs : resolvePeriod period (millis now) =
            (lastDuration period).bind (rollingWindow (millis now)) := by
          simp only [resolvePeriod, htoday, hall, hlast, if_true, if_false]
        rw [if_pos rfl, ← last_iff h hnow period, hrust, hjs]
      | false =>
        rw [if_neg Bool.false_ne_true]
        cases hdays : Text.splitOnce ".." period with
        | some p =>
          obtain ⟨a, b⟩ := p
          have hrust : (resolve c period now).toOption =
              (Period.resolveDays c period).map (written c) := by
            unfold resolve instants
            simp only [htoday, hall, hlast, hdays, if_false, Option.isSome_some, if_true,
              Bool.false_eq_true]
            cases Period.resolveDays c period <;> rfl
          have hjs : resolvePeriod period (millis now) = LogStore.resolveDays period := by
            simp only [resolvePeriod, htoday, hall, hlast, hdays, if_false, Option.isSome_some,
              if_true, Bool.false_eq_true]
          show _ ↔ DaysMirrored c a b
          rw [← days_iff h hdays, hrust, hjs]
        | none =>
          have hjs : resolvePeriod period (millis now) = (dayPreset period).bind fun days =>
              rollingWindow (millis now) (days * dayMs) := by
            simp only [resolvePeriod, htoday, hall, hlast, hdays, if_false, Option.isSome_none,
              Bool.false_eq_true]
          rw [hjs]
          exact preset_iff h hnow htoday hall hlast hdays

theorem plain_parse (s : String) (p : Nat × Nat × Nat) (h : matchDay s = some p) :
    Chrono.plain.parseDay s = Date.of? p.1 p.2.1 p.2.2 := by
  show Chrono.plainDay s = _
  unfold matchDay at h
  split at h
  · rename_i year month day hsplit
    split at h
    · rename_i hparts
      obtain ⟨hyear, hmonth, hday, hall⟩ := hparts
      cases h
      unfold Chrono.plainDay
      rw [hsplit]
      exact if_pos ⟨by omega, hmonth, hday, hall⟩
    · cases h
  · cases h

theorem plain_documented : Documented .plain where
  toWrites := Chrono.plain_writes
  parse_plain := plain_parse
  minSecs_ge := by decide
  minSecs_le := by decide
  maxSecs_ge := by decide
  maxSecs_lt := by decide
  maxDuration_ge := by decide

/-- A range to the last day of the year 9999 ends in a year the two write differently. -/
theorem far_end_differs :
    resolve .plain "2026-01-01..9999-12-31" july =
        .ok ⟨"2026-01-01T00:00:00Z", "+10000-01-01T00:00:00Z"⟩ ∧
      resolvePeriod "2026-01-01..9999-12-31" (millis july) =
        some ⟨"2026-01-01T00:00:00Z", "+010000-01-01T00:00Z"⟩ := by
  decide +kernel

theorem july_week_mirrored : Mirrored .plain "7d" july := by
  have hpreset : dayPreset "7d" = some 7 := by decide +kernel
  have hkind : "7d" ≠ "today" ∧ "7d" ≠ "all" ∧ Text.startsWith "7d" "last:" = false ∧
      Text.splitOnce ".." "7d" = none := by
    decide +kernel
  obtain ⟨htoday, hall, hlast, hdays⟩ := hkind
  unfold Mirrored
  rw [if_neg htoday, if_neg hall, hlast, if_neg Bool.false_ne_true, hdays]
  intro days hsome
  obtain rfl : 7 = days := Option.some.inj (hpreset.symm.trans hsome)
  exact Or.inl ⟨by decide +kernel, by decide +kernel⟩

theorem mirrored_iff_week :
    (resolve .plain "7d" july).toOption = resolvePeriod "7d" (millis july) :=
  (mirrored_iff plain_documented (by decide) "7d").mpr july_week_mirrored

end AnyConverter.LogStore
