import AnyConverter.Lib.Calendar
import AnyConverter.Lib.Decimal

/-!
# Instants and their texts

An instant is a count of seconds since the start of 1970, and the nanoseconds since that second.  Its
text is its date and its time of day in numerals of fixed width, then whatever the format adds after
the seconds.  Years of four digits are written plain, all others with a sign.

* `text_lt_iff_of_year_eq`: within a year, texts are in the order of the seconds they tell, then of
  what follows these;
* `text_lt_iff_of_year_ne`: texts of two years are in the order of the texts of the years;
* `yearsInOrder`: years of four digits are in the order of their texts.
-/

set_option autoImplicit false

namespace Rfc3339

open Calendar Decimal

/-! ## Instants -/

structure Instant where
  /-- seconds since the start of 1970 -/
  secs : Int
  nano : Nat
  nano_lt : nano < 10 ^ 9
  deriving DecidableEq

/-- The number of the first of January 1970. -/
def epochDay : Int := 719528

namespace Instant

def Before (a b : Instant) : Prop := a.secs < b.secs ∨ a.secs = b.secs ∧ a.nano < b.nano

instance (a b : Instant) : Decidable (a.Before b) := by
  unfold Before
  infer_instance

theorem zero_nano_lt : 0 < 10 ^ 9 := by decide

/-- The start of the second of an instant. -/
def floor (t : Instant) : Instant := ⟨t.secs, 0, zero_nano_lt⟩

def day (t : Instant) : Int := t.secs / 86400 + epochDay

def date (t : Instant) : Date := .ofDays t.day

def year (t : Instant) : Int := t.date.year

def secondOfDay (t : Instant) : Nat := (t.secs % 86400).toNat

def hour (t : Instant) : Nat := t.secondOfDay / 3600

def minute (t : Instant) : Nat := t.secondOfDay / 60 % 60

def second (t : Instant) : Nat := t.secondOfDay % 60

theorem secondOfDay_lt (t : Instant) : t.secondOfDay < 86400 := by
  unfold secondOfDay
  omega

theorem secs_eq (t : Instant) : t.secs = (t.day - epochDay) * 86400 + t.secondOfDay := by
  unfold day secondOfDay
  omega

end Instant

/-! ## Texts -/

/-- A year in its text: four digits, or a sign and at least four. -/
def yearText (y : Int) : List Char :=
  if 0 ≤ y ∧ y < 10000 then pad 4 y.toNat
  else (if y < 0 then '-' else '+') :: padAtLeast 4 y.natAbs

/-- What follows the year, with `tail` after the seconds. -/
def restText (t : Instant) (tail : List Char) : List Char :=
  '-' :: (pad 2 t.date.month ++ '-' :: (pad 2 t.date.day ++ 'T' :: (pad 2 t.hour ++
    ':' :: (pad 2 t.minute ++ ':' :: (pad 2 t.second ++ tail)))))

def text (t : Instant) (tail : List Char) : List Char := yearText t.year ++ restText t tail

theorem cons_lt_cons_self_iff (x : Char) (c d : List Char) : x :: c < x :: d ↔ c < d := by
  rw [List.cons_lt_cons_iff]
  simp

/-- Dates of one year are in the order of their months and days. -/
theorem before_iff_of_year_eq {a b : Instant} (h : a.year = b.year) : a.day < b.day ↔
    a.date.month < b.date.month ∨ a.date.month = b.date.month ∧ a.date.day < b.date.day := by
  rw [← Date.before_ofDays_iff]
  show a.date.Before b.date ↔ _
  have hyear : a.date.year = b.date.year := h
  unfold Date.Before
  omega

theorem day_eq_iff_of_year_eq {a b : Instant} (h : a.year = b.year) : a.day = b.day ↔
    a.date.month = b.date.month ∧ a.date.day = b.date.day := by
  have hab := before_iff_of_year_eq h
  have hba := before_iff_of_year_eq h.symm
  omega

/-- In one year, what follows it is in the order of the seconds, then of what follows these. -/
theorem restText_lt_iff {a b : Instant} (h : a.year = b.year) (c d : List Char) :
    restText a c < restText b d ↔ a.secs < b.secs ∨ a.secs = b.secs ∧ c < d := by
  have hbefore := before_iff_of_year_eq h
  have hsame := day_eq_iff_of_year_eq h
  have hmonth : ∀ t : Instant, t.date.month < 10 ^ 2 := by
    intro t
    have := t.date.month_le
    omega
  have hday : ∀ t : Instant, t.date.day < 10 ^ 2 := by
    intro t
    have := t.date.day_le.trans (monthLength_le t.date.year t.date.month_le)
    omega
  have ha := a.secondOfDay_lt
  have hb := b.secondOfDay_lt
  have hseca := a.secs_eq
  have hsecb := b.secs_eq
  have hhour : ∀ t : Instant, t.hour < 10 ^ 2 := by
    intro t
    have := t.secondOfDay_lt
    unfold Instant.hour
    omega
  have hminute : ∀ t : Instant, t.minute < 10 ^ 2 := by
    intro t
    unfold Instant.minute
    omega
  have hsecond : ∀ t : Instant, t.second < 10 ^ 2 := by
    intro t
    unfold Instant.second
    omega
  unfold restText
  rw [cons_lt_cons_self_iff, pad_append_lt_iff (hmonth a) (hmonth b), cons_lt_cons_self_iff,
    pad_append_lt_iff (hday a) (hday b), cons_lt_cons_self_iff,
    pad_append_lt_iff (hhour a) (hhour b), cons_lt_cons_self_iff,
    pad_append_lt_iff (hminute a) (hminute b), cons_lt_cons_self_iff,
    pad_append_lt_iff (hsecond a) (hsecond b)]
  unfold Instant.hour Instant.minute Instant.second
  by_cases hcd : c < d
  · simp only [hcd, and_true]
    omega
  · simp only [hcd, and_false, or_false]
    omega

/-- Texts of instants of one year are in the order of their seconds, then of what follows these. -/
theorem text_lt_iff_of_year_eq {a b : Instant} (h : a.year = b.year) (c d : List Char) :
    text a c < text b d ↔ a.secs < b.secs ∨ a.secs = b.secs ∧ c < d := by
  rw [← restText_lt_iff h]
  unfold text
  rw [h]
  induction yearText b.year with
  | nil => rfl
  | cons x xs ih =>
    rw [List.cons_append, List.cons_append, cons_lt_cons_self_iff]
    exact ih

/-! ## Texts of years -/

/-- The texts of two years, each with the hyphen that follows it, are in the order of the years. -/
def YearsInOrder (y z : Int) : Prop := yearText y ++ ['-'] < yearText z ++ ['-'] ↔ y < z

/-- A text of a year has no hyphen but a sign. -/
theorem yearText_spec (y : Int) : ∃ x xs, yearText y = x :: xs ∧ '-' ∉ xs := by
  have hdigits : ∀ {xs : List Char}, (∀ c ∈ xs, c.isDigit = true) → '-' ∉ xs := by
    intro xs hxs hmem
    exact absurd (hxs '-' hmem) (by decide)
  unfold yearText
  split
  · cases hpad : pad 4 y.toNat with
    | nil =>
      have hlen := congrArg List.length hpad
      simp at hlen
    | cons x xs =>
      refine ⟨x, xs, rfl, hdigits ?_⟩
      intro c hc
      exact isDigit_of_mem_pad (hpad ▸ List.mem_cons_of_mem x hc)
  · exact ⟨_, _, rfl, hdigits fun c hc => isDigit_of_mem_padAtLeast hc⟩

theorem yearText_inj {y z : Int} (h : yearText y = yearText z) : y = z := by
  have hsign : ∀ {s : Char} {xs : List Char} {n : Nat}, s.isDigit = false → pad 4 n ≠ s :: xs := by
    intro s xs n hs heq
    have hmem : s ∈ pad 4 n := heq ▸ List.mem_cons_self
    rw [isDigit_of_mem_pad hmem] at hs
    cases hs
  have hdigit : ∀ {w : Int}, (if w < 0 then '-' else '+').isDigit = false := by
    intro w
    split <;> decide
  unfold yearText at h
  by_cases hy : 0 ≤ y ∧ y < 10000
  · by_cases hz : 0 ≤ z ∧ z < 10000
    · rw [if_pos hy, if_pos hz] at h
      have hpad : y.toNat = z.toNat := by
        rw [← @ofDigitChars_pad 4 y.toNat (by omega), h, ofDigitChars_pad (by omega)]
      omega
    · rw [if_pos hy, if_neg hz] at h
      exact absurd h (hsign hdigit)
  · by_cases hz : 0 ≤ z ∧ z < 10000
    · rw [if_neg hy, if_pos hz] at h
      exact absurd h.symm (hsign hdigit)
    · rw [if_neg hy, if_neg hz] at h
      obtain ⟨hhead, htail⟩ := List.cons.inj h
      have habs := padAtLeast_inj htail
      split at hhead <;> split at hhead
      · omega
      · exact absurd hhead (by decide)
      · exact absurd hhead (by decide)
      · omega

/-- Up to a hyphen, texts without one are in the order they have with a hyphen at their ends. -/
theorem append_hyphen_lt_iff {xs ys : List Char} (hx : '-' ∉ xs) (hy : '-' ∉ ys)
    (c d : List Char) : xs ++ '-' :: c < ys ++ '-' :: d ↔
      xs ++ ['-'] < ys ++ ['-'] ∨ xs = ys ∧ c < d := by
  induction xs generalizing ys with
  | nil =>
    cases ys with
    | nil => simp
    | cons y ys =>
      have hne : '-' ≠ y := by
        rintro rfl
        exact hy List.mem_cons_self
      simp [List.cons_lt_cons_iff, hne]
  | cons x xs ih =>
    have hxs : '-' ∉ xs := fun h => hx (List.mem_cons_of_mem x h)
    cases ys with
    | nil =>
      have hne : x ≠ '-' := by
        rintro rfl
        exact hx List.mem_cons_self
      simp [List.cons_lt_cons_iff, hne]
    | cons y ys =>
      have hys : '-' ∉ ys := fun h => hy (List.mem_cons_of_mem y h)
      simp only [List.cons_append, List.cons_lt_cons_iff, ih hxs hys, List.cons.injEq]
      constructor
      · rintro (hlt | ⟨rfl, hlt | ⟨rfl, hrest⟩⟩)
        · exact Or.inl (Or.inl hlt)
        · exact Or.inl (Or.inr ⟨rfl, hlt⟩)
        · exact Or.inr ⟨⟨rfl, rfl⟩, hrest⟩
      · rintro ((hlt | ⟨rfl, hlt⟩) | ⟨⟨rfl, rfl⟩, hrest⟩)
        · exact Or.inl hlt
        · exact Or.inr ⟨rfl, Or.inl hlt⟩
        · exact Or.inr ⟨rfl, Or.inr ⟨rfl, hrest⟩⟩

/-- Texts of instants of two years are in the order of the texts of the years. -/
theorem text_lt_iff_of_year_ne {a b : Instant} (h : a.year ≠ b.year) (c d : List Char) :
    text a c < text b d ↔ yearText a.year ++ ['-'] < yearText b.year ++ ['-'] := by
  have hne : yearText a.year ≠ yearText b.year := fun heq => h (yearText_inj heq)
  obtain ⟨x, xs, hxs, hx⟩ := yearText_spec a.year
  obtain ⟨y, ys, hys, hy⟩ := yearText_spec b.year
  unfold text restText
  rw [hxs, hys] at hne ⊢
  simp only [List.cons_append, List.cons_lt_cons_iff]
  rw [append_hyphen_lt_iff hx hy]
  constructor
  · rintro (hlt | ⟨rfl, hlt | ⟨rfl, -⟩⟩)
    · exact Or.inl hlt
    · exact Or.inr ⟨rfl, hlt⟩
    · exact absurd rfl hne
  · rintro (hlt | ⟨rfl, hlt⟩)
    · exact Or.inl hlt
    · exact Or.inr ⟨rfl, Or.inl hlt⟩

/-- Years of four digits are in the order of their texts. -/
theorem yearsInOrder {y z : Int} (hy : 0 ≤ y ∧ y < 10000) (hz : 0 ≤ z ∧ z < 10000) :
    YearsInOrder y z := by
  unfold YearsInOrder yearText
  rw [if_pos hy, if_pos hz, pad_append_lt_iff (by omega) (by omega)]
  constructor
  · rintro (hlt | ⟨-, hsame⟩)
    · omega
    · exact absurd hsame (by decide)
  · intro hlt
    exact Or.inl (by omega)

/-- A year of five digits or more comes before those of four. -/
theorem not_yearsInOrder {y z : Int} (hy : 0 ≤ y ∧ y < 10000) (hz : 10000 ≤ z) :
    ¬ YearsInOrder y z := by
  obtain ⟨x, xs, hxs, -⟩ := yearText_spec y
  have hx : x.isDigit = true := by
    unfold yearText at hxs
    rw [if_pos hy] at hxs
    exact isDigit_of_mem_pad (hxs ▸ List.mem_cons_self)
  have hplus : '+' < x := by
    simp only [Char.isDigit, Bool.and_eq_true, decide_eq_true_eq] at hx
    rw [Char.lt_def]
    exact UInt32.lt_of_lt_of_le (by decide : '+'.val < '0'.val) hx.1
  have htext : ∃ zs, yearText z = '+' :: zs := by
    unfold yearText
    rw [if_neg (by omega), if_neg (by omega)]
    exact ⟨_, rfl⟩
  obtain ⟨zs, hzs⟩ := htext
  intro h
  have hlt := h.mpr (by omega)
  rw [hxs, hzs, List.cons_append, List.cons_append, List.cons_lt_cons_iff] at hlt
  rcases hlt with hlt | ⟨rfl, -⟩
  · exact absurd hlt (Char.lt_asymm hplus)
  · exact absurd hplus (Char.lt_irrefl _)

/-! ## The order of instants -/

/-- Later instants lie in later years, or in the same one. -/
theorem year_le_of_secs_lt {a b : Instant} (h : a.secs < b.secs) : a.year ≤ b.year := by
  by_contra hyear
  have hbefore : b.date.Before a.date := Or.inl (Int.not_le.mp hyear)
  have hday : b.day < a.day := (Date.before_ofDays_iff _ _).mp hbefore
  have ha := a.secs_eq
  have hb := b.secs_eq
  have hlt := b.secondOfDay_lt
  omega

end Rfc3339
