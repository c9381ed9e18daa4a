import Mathlib.Computability.Language
import AnyConverter.Lib.Text

/-!
# Wildcard patterns

A pattern is a text in which one character stands for any string, and every other for itself.  Its
parts are what lies between the wildcards; a value is looked through for them, each behind the one
before it.

* `mem_language_iff`: the values of a pattern are those its parts stand in one behind another;
* `behind_splitList_iff`: of a part in the middle the first occurrence will do.
-/

set_option autoImplicit false

namespace AnyConverter.Wildcard

/-! ## The values of a pattern -/

/-- The strings a pattern stands for. -/
def language (star : Char) (pattern : List Char) : Language Char :=
  (pattern.map fun c => if c = star then ⊤ else {[c]}).prod

section
variable {star : Char}

theorem mem_language_nil {value : List Char} : value ∈ language star [] ↔ value = [] := Iff.rfl

theorem mem_language_star {cs value : List Char} :
    value ∈ language star (star :: cs) ↔ ∃ gap rest, value = gap ++ rest ∧ rest ∈ language star cs := by
  rw [language, List.map_cons, List.prod_cons, if_pos rfl, Language.mem_mul]
  constructor
  · rintro ⟨gap, -, rest, hrest, rfl⟩
    exact ⟨gap, rest, rfl, hrest⟩
  · rintro ⟨gap, rest, rfl, hrest⟩
    exact ⟨gap, trivial, rest, hrest, rfl⟩

theorem mem_language_char {c : Char} (hc : c ≠ star) {cs value : List Char} :
    value ∈ language star (c :: cs) ↔ ∃ rest, value = c :: rest ∧ rest ∈ language star cs := by
  rw [language, List.map_cons, List.prod_cons, if_neg hc, Language.mem_mul]
  constructor
  · rintro ⟨_, rfl, rest, hrest, rfl⟩
    exact ⟨rest, rfl, hrest⟩
  · rintro ⟨rest, rfl, hrest⟩
    exact ⟨[c], rfl, rest, hrest, rfl⟩

end

/-! ## Parts, one behind another -/

/-- Each part behind the one before it, with anything in between, and the last one at the end. -/
def Behind : List (List Char) → List Char → Prop
  | [], rest => rest = []
  | part :: parts, rest => ∃ gap behind, rest = gap ++ (part ++ behind) ∧ Behind parts behind

/-- The first part stands at the front. -/
def InOrder : List (List Char) → List Char → Prop
  | [], _ => False
  | part :: parts, value => ∃ behind, value = part ++ behind ∧ Behind parts behind

theorem behind_cons_iff {part rest : List Char} {parts : List (List Char)} :
    Behind (part :: parts) rest ↔ ∃ gap value, rest = gap ++ value ∧ InOrder (part :: parts) value := by
  constructor
  · rintro ⟨gap, behind, rfl, hbehind⟩
    exact ⟨gap, part ++ behind, rfl, behind, rfl, hbehind⟩
  · rintro ⟨gap, value, rfl, behind, rfl, hbehind⟩
    exact ⟨gap, behind, rfl, hbehind⟩

theorem behind_last {part rest : List Char} : Behind [part] rest ↔ part <:+ rest := by
  constructor
  · rintro ⟨gap, behind, rfl, rfl⟩
    exact ⟨gap, by simp⟩
  · rintro ⟨gap, rfl⟩
    exact ⟨gap, [], by simp, rfl⟩

/-- More text in front does no harm. -/
theorem Behind.of_append {parts : List (List Char)} (hparts : parts ≠ []) {rest : List Char}
    (h : Behind parts rest) (more : List Char) : Behind parts (more ++ rest) := by
  cases parts with
  | nil => exact absurd rfl hparts
  | cons part parts =>
    obtain ⟨gap, behind, rfl, hbehind⟩ := h
    exact ⟨more ++ gap, behind, (List.append_assoc ..).symm, hbehind⟩

/-- An empty part stands anywhere. -/
theorem behind_nil_cons {parts : List (List Char)} (hparts : parts ≠ []) {rest : List Char} :
    Behind ([] :: parts) rest ↔ Behind parts rest := by
  constructor
  · rintro ⟨gap, behind, rfl, hbehind⟩
    exact hbehind.of_append hparts gap
  · intro h
    exact ⟨[], rest, rfl, h⟩

/-- **The values of a pattern** are those in which its parts stand one behind another. -/
theorem mem_language_iff (star : Char) (pattern value : List Char) :
    value ∈ language star pattern ↔ InOrder (Text.splitChar star pattern) value := by
  induction pattern generalizing value with
  | nil =>
    rw [mem_language_nil]
    constructor
    · rintro rfl
      exact ⟨[], rfl, rfl⟩
    · rintro ⟨behind, rfl, rfl⟩
      rfl
  | cons c cs ih =>
    obtain ⟨part, parts, hsplit⟩ := List.exists_cons_of_ne_nil (Text.splitChar_ne_nil star cs)
    by_cases hc : c = star
    · subst hc
      have hstar : Text.splitChar c (c :: cs) = [] :: part :: parts := by
        rw [Text.splitChar, if_pos rfl, hsplit]
      have hin : InOrder ([] :: part :: parts) value ↔ Behind (part :: parts) value :=
        ⟨fun ⟨_, hvalue, h⟩ => hvalue ▸ h, fun h => ⟨value, rfl, h⟩⟩
      rw [mem_language_star, hstar, hin, behind_cons_iff]
      simp only [ih, hsplit]
    · have hchar : Text.splitChar star (c :: cs) = (c :: part) :: parts := by
        rw [Text.splitChar, if_neg hc, hsplit]
      rw [mem_language_char hc, hchar]
      simp only [ih, hsplit]
      constructor
      · rintro ⟨_, rfl, behind, rfl, hbehind⟩
        exact ⟨behind, rfl, hbehind⟩
      · rintro ⟨behind, rfl, hbehind⟩
        exact ⟨_, rfl, behind, rfl, hbehind⟩

/-! ## The first occurrence -/

/-- No occurrence lies before the first. -/
theorem splitList_first {part s front back : List Char} (h : Text.splitList part s = some (front, back))
    {gap behind : List Char} (hs : s = gap ++ (part ++ behind)) : ∃ more, back = more ++ behind := by
  induction s generalizing front gap with
  | nil =>
    obtain ⟨-, hrest⟩ := List.append_eq_nil_iff.mp hs.symm
    obtain ⟨-, rfl⟩ := List.append_eq_nil_iff.mp hrest
    exact ⟨back, (List.append_nil _).symm⟩
  | cons x xs ih =>
    unfold Text.splitList at h
    split at h
    · rename_i rest hstrip
      cases h
      -- it stands at the very front, and the other one no further to the front
      have hfront := Text.stripList_eq_some hstrip
      rw [hfront] at hs
      have hlength : behind.length ≤ back.length := by
        have hlengths := congrArg List.length hs
        simp only [List.length_append] at hlengths
        omega
      have hbehind : behind <:+ part ++ back := ⟨gap ++ part, by rw [hs, List.append_assoc]⟩
      have hback : back <:+ part ++ back := List.suffix_append ..
      obtain ⟨more, hmore⟩ := List.suffix_of_suffix_length_le hbehind hback hlength
      exact ⟨more, hmore.symm⟩
    · rename_i hstrip
      obtain ⟨⟨front', back'⟩, hsplit, heq⟩ := Option.map_eq_some_iff.mp h
      cases heq
      cases gap with
      | nil =>
        rw [hs, List.nil_append, Text.stripList_append] at hstrip
        cases hstrip
      | cons y gap =>
        exact ih hsplit (List.cons.inj hs).2

/-- **Of a part in the middle the first occurrence will do.** -/
theorem behind_splitList_iff {part : List Char} {parts : List (List Char)} (hparts : parts ≠ [])
    {rest : List Char} :
    Behind (part :: parts) rest ↔
      ∃ front back, Text.splitList part rest = some (front, back) ∧ Behind parts back := by
  constructor
  · rintro ⟨gap, behind, hrest, hbehind⟩
    have hsome : (Text.splitList part rest).isSome = true :=
      (Text.splitList_isSome_iff part rest).mpr ⟨gap, behind, by rw [hrest, List.append_assoc]⟩
    obtain ⟨⟨front, back⟩, hsplit⟩ := Option.isSome_iff_exists.mp hsome
    obtain ⟨more, rfl⟩ := splitList_first hsplit hrest
    exact ⟨front, more ++ behind, hsplit, hbehind.of_append hparts more⟩
  · rintro ⟨front, back, hsplit, hback⟩
    refine ⟨front, back, ?_, hback⟩
    rw [Text.splitList_eq_some hsplit, List.append_assoc]

end AnyConverter.Wildcard
