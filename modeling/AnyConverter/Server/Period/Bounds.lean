import AnyConverter.Server.Period.Resolve

/-!
# Timestamps and bounds

A record's timestamp is written with an offset and as much of a fraction as it needs, a bound with a
`Z` after whole seconds, and the two are compared as texts.

* `timestamp_lt_iff`: what the comparison of the texts says;
* `order_kept_iff`: it says what the instants say exactly outside the second of the bound, as far as
  years are in the order of their texts;
* `selects_of_apart`: what a range selects.
-/

set_option autoImplicit false

namespace AnyConverter.Period

open Rfc3339

variable {c : Chrono}

/-! ## Retention -/

/-- A `u64` read as an `i64`. -/
def asI64 (n : Nat) : Int := if n < 2 ^ 63 then n else n - 2 ^ 64

/-- The instant some days before now; none where the library gives up. -/
def daysBefore (c : Chrono) (now : Instant) (days : Nat) : Option Instant :=
  (c.duration (asI64 days * 86400)).bind fun secs => c.checkedAdd now (-secs)

def ageCutoff (c : Chrono) (now : Instant) (days : Nat) : Option String :=
  (daysBefore c now days).map c.toRfc3339Secs

/-! ## Bounds -/

/-- The bounds timestamps are compared with. -/
inductive IsBound (c : Chrono) : String → Prop
  | rangeFrom {period : String} {now : Instant} {range : Range}
      (h : resolve c period now = .ok range) : IsBound c range.fromBound
  | rangeTo {period : String} {now : Instant} {range : Range}
      (h : resolve c period now = .ok range) : IsBound c range.toBound
  | cutoff {now : Instant} {days : Nat} {b : String} (h : ageCutoff c now days = some b) :
      IsBound c b

/-- A text is that of the start of a second. -/
def Denotes (c : Chrono) (b : String) (x : Instant) : Prop := x.nano = 0 ∧ c.toRfc3339Secs x = b

theorem denotes_floor (h : c.Writes) (x : Instant) : Denotes c (c.toRfc3339Secs x) x.floor := by
  refine ⟨rfl, ?_⟩
  rw [h.rfc3339Secs, h.rfc3339Secs]
  rfl

theorem bounds_of_resolve {period : String} {now : Instant} {range : Range}
    (h : resolve c period now = .ok range) :
    ∃ r : Instant × Instant, instants c period now = .ok r ∧
      range = ⟨c.toRfc3339Secs r.1, c.toRfc3339Secs r.2⟩ := by
  unfold resolve at h
  cases hr : instants c period now with
  | error e =>
    rw [hr] at h
    cases h
  | ok r =>
    rw [hr] at h
    cases h
    exact ⟨r, rfl, rfl⟩

theorem IsBound.denotes (h : c.Writes) {b : String} (hb : IsBound c b) : ∃ x, Denotes c b x := by
  cases hb with
  | rangeFrom hrange =>
    obtain ⟨r, -, rfl⟩ := bounds_of_resolve hrange
    exact ⟨_, denotes_floor h r.1⟩
  | rangeTo hrange =>
    obtain ⟨r, -, rfl⟩ := bounds_of_resolve hrange
    exact ⟨_, denotes_floor h r.2⟩
  | cutoff hcutoff =>
    obtain ⟨x, -, rfl⟩ := Option.map_eq_some_iff.mp hcutoff
    exact ⟨_, denotes_floor h x⟩

/-! ## What the texts say -/

/-- The fraction and the offset come before the `Z`. -/
theorem offset_lt (nano : Nat) : Chrono.fraction nano ++ "+00:00".toList < ['Z'] := by
  have hhead : ∀ {x : Char} {xs : List Char}, x < 'Z' → x :: xs < ['Z'] := by
    intro x xs hx
    exact List.cons_lt_cons_iff.mpr (Or.inl hx)
  unfold Chrono.fraction
  split
  · decide
  · split
    · exact hhead (by decide)
    · split
      · exact hhead (by decide)
      · exact hhead (by decide)

theorem timestamp_lt_text (h : c.Writes) (t x : Instant) : c.toRfc3339 t < c.toRfc3339Secs x ↔
    text t (Chrono.fraction t.nano ++ "+00:00".toList) < text x ['Z'] := by
  rw [h.rfc3339, h.rfc3339Secs, String.lt_iff]
  exact iff_of_eq (congrArg₂ (· < ·) String.toList_ofList String.toList_ofList)

/-- In a year, a timestamp is before a bound up to the end of the bound's second. -/
theorem timestamp_lt_iff (h : c.Writes) {t x : Instant} (hyear : t.year = x.year) :
    c.toRfc3339 t < c.toRfc3339Secs x ↔ t.secs ≤ x.secs := by
  rw [timestamp_lt_text h, text_lt_iff_of_year_eq hyear]
  have hoffset := offset_lt t.nano
  constructor
  · rintro (hlt | ⟨heq, -⟩)
    · exact hlt.le
    · exact heq.le
  · intro hle
    rcases hle.lt_or_eq with hlt | heq
    · exact Or.inl hlt
    · exact Or.inr ⟨heq, hoffset⟩

/-- A timestamp that lies outside the second of a bound, in a year that is in order with that of the
bound. -/
def Apart (t x : Instant) : Prop := t.secs ≠ x.secs ∧ (t.year ≠ x.year → YearsInOrder t.year x.year)

theorem apart_of_four_digits {t x : Instant} (ht : 0 ≤ t.year ∧ t.year < 10000)
    (hx : 0 ≤ x.year ∧ x.year < 10000) (hne : t.secs ≠ x.secs) : Apart t x :=
  ⟨hne, fun _ => yearsInOrder ht hx⟩

/-- A bound after the years of four digits is out of order with every record of theirs. -/
theorem not_apart_of_far {t x : Instant} (ht : 0 ≤ t.year ∧ t.year < 10000) (hx : 10000 ≤ x.year) :
    ¬ Apart t x := by
  intro h
  exact not_yearsInOrder ht hx (h.2 (by omega))

theorem year_eq_of_secs_eq {t x : Instant} (h : t.secs = x.secs) : t.year = x.year := by
  unfold Instant.year Instant.date Instant.day
  rw [h]

/-- Instants of two years are in the order of the years. -/
theorem secs_lt_iff_of_year_ne {t x : Instant} (h : t.year ≠ x.year) :
    t.secs < x.secs ↔ t.year < x.year := by
  constructor
  · intro hlt
    exact lt_of_le_of_ne (year_le_of_secs_lt hlt) h
  · intro hlt
    by_contra hge
    rcases (Int.not_lt.mp hge).lt_or_eq with hgt | heq
    · have hle := year_le_of_secs_lt hgt
      omega
    · exact h (year_eq_of_secs_eq heq.symm)

/-- The texts say what the instants say exactly when these are apart. -/
theorem timestamp_lt_iff_before (h : c.Writes) {b : String} {x : Instant} (hb : Denotes c b x)
    (t : Instant) : (c.toRfc3339 t < b ↔ t.Before x) ↔ Apart t x := by
  obtain ⟨hnano, rfl⟩ := hb
  have hbefore : t.Before x ↔ t.secs < x.secs := by
    simp [Instant.Before, hnano]
  rw [hbefore]
  unfold Apart
  by_cases hyear : t.year = x.year
  · rw [timestamp_lt_iff h hyear]
    constructor
    · intro hiff
      refine ⟨?_, fun hne => absurd hyear hne⟩
      intro heq
      exact absurd (hiff.mp heq.le) (by omega)
    · rintro ⟨hne, -⟩
      omega
  · have hne : t.secs ≠ x.secs := fun heq => hyear (year_eq_of_secs_eq heq)
    rw [timestamp_lt_text h, text_lt_iff_of_year_ne hyear, secs_lt_iff_of_year_ne hyear]
    exact ⟨fun hiff => ⟨hne, fun _ => hiff⟩, fun hapart => hapart.2 hyear⟩

/-! ## Ranges and cutoffs -/

/-- `timestamp >= from and timestamp < to` -/
def Selects (range : Range) (timestamp : String) : Prop :=
  ¬ timestamp < range.fromBound ∧ timestamp < range.toBound

/-- The comparison of a record's timestamp with a bound a period or a retention gives is that of the
instants exactly when these are apart; a range selects what lies in it where it is apart from both
bounds. -/
theorem order_kept_iff (h : c.Writes) :
    (∀ b, IsBound c b → ∃ x, Denotes c b x) ∧
    (∀ b x, IsBound c b → Denotes c b x → ∀ t, (c.toRfc3339 t < b ↔ t.Before x) ↔ Apart t x) ∧
    ∀ period now range x y, resolve c period now = .ok range →
      Denotes c range.fromBound x → Denotes c range.toBound y →
        ∀ t, Apart t x → Apart t y →
          (Selects range (c.toRfc3339 t) ↔ ¬ t.Before x ∧ t.Before y) := by
  refine ⟨fun b hb => hb.denotes h, fun b x _ hx t => timestamp_lt_iff_before h hx t, ?_⟩
  intro period now range x y _ hx hy t htx hty
  unfold Selects
  rw [(timestamp_lt_iff_before h hx t).mpr htx, (timestamp_lt_iff_before h hy t).mpr hty]

/-- The sixteenth of July 2026, a quarter to two. -/
def july : Instant := ⟨1784209512, 0, Instant.zero_nano_lt⟩

/-- A week before, half a second into the bound's second. -/
def halfPast : Instant := ⟨1783604712, 500000000, by decide⟩

theorem july_week : resolve .plain "7d" july =
    .ok ⟨"2026-07-09T13:45:12Z", "2026-07-16T13:45:12Z"⟩ := by
  decide +kernel

/-- A record of the first half second of a week is left out of it. -/
theorem first_second_left_out :
    IsBound .plain "2026-07-09T13:45:12Z" ∧
      Denotes .plain "2026-07-09T13:45:12Z" ⟨1783604712, 0, by decide⟩ ∧
      Chrono.plain.toRfc3339 halfPast = "2026-07-09T13:45:12.500+00:00" ∧
      Chrono.plain.toRfc3339 halfPast < "2026-07-09T13:45:12Z" ∧
      ¬ halfPast.Before ⟨1783604712, 0, by decide⟩ :=
  ⟨.rangeFrom july_week, ⟨rfl, by decide +kernel⟩, by decide +kernel, by decide +kernel,
    by decide +kernel⟩

theorem order_kept_iff_week :
    (Chrono.plain.toRfc3339 july < "2026-07-09T13:45:12Z" ↔
      july.Before ⟨1783604712, 0, by decide⟩) ↔ Apart july ⟨1783604712, 0, by decide⟩ :=
  (order_kept_iff Chrono.plain_writes).2.1 _ _ (.rangeFrom july_week) ⟨rfl, by decide +kernel⟩ july

end AnyConverter.Period
