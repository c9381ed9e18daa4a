import AnyConverter.Lib.Wildcard
import AnyConverter.Server.Routing.ModelRoutes

/-!
# Glob patterns

Routes, model maps and header filters name what they take by patterns.  The code looks through a value
by byte offsets, and slices it behind what it has matched.

* `globMatch_iff`: a value matches exactly when it is in the language of the pattern;
* `globMatchAt_eq`: the offsets never lie inside a character.
-/

set_option autoImplicit false

namespace AnyConverter.Config

open Wildcard

/-! ## Slices -/

/-- `str::len` -/
def byteLen (cs : List Char) : Nat := (cs.map Char.utf8Size).sum

/-- `&value[pos..]`; there is none where `pos` is not a boundary of a character. -/
def sliceFrom : List Char → Nat → Option (List Char)
  | cs, 0 => some cs
  | [], _ + 1 => none
  | c :: cs, pos + 1 => if c.utf8Size ≤ pos + 1 then sliceFrom cs (pos + 1 - c.utf8Size) else none

/-- `str::find`: the offset of the first occurrence. -/
def findAt (part rest : List Char) : Option Nat := (Text.splitList part rest).map fun p => byteLen p.1

/-! ## The match, by offsets -/

/-- The loop over the parts of a pattern with several stars; nothing where a slice is none. -/
def matchLoop (count : Nat) (value : List Char) : Nat → List (List Char) → Nat → Option Bool
  | _, [], _ => some true
  | i, part :: parts, pos =>
    if part = [] then matchLoop count value (i + 1) parts pos
    else if i = 0 then
      if part.isPrefixOf value then matchLoop count value (i + 1) parts (byteLen part) else some false
    else
      (sliceFrom value pos).bind fun rest =>
        if i = count - 1 then
          if part.isSuffixOf rest then matchLoop count value (i + 1) parts pos else some false
        else
          match findAt part rest with
          | some found => matchLoop count value (i + 1) parts (pos + found + byteLen part)
          | none => some false

/-- `glob_match`; nothing where it slices outside a boundary. -/
def globMatchAt (pattern value : String) : Option Bool :=
  if pattern = "*" then some true
  else if '*' ∉ pattern.toList then some (pattern = value)
  else
    match Text.splitChar '*' pattern.toList with
    | [front, back] => some (front.isPrefixOf value.toList && back.isSuffixOf value.toList &&
        decide (byteLen front + byteLen back ≤ byteLen value.toList))
    | parts => matchLoop parts.length value.toList 0 parts 0

/-! ## Offsets lie between characters -/

/-- A pattern with a star has more than one part. -/
theorem two_le_length_splitChar {cs : List Char} (h : '*' ∈ cs) :
    2 ≤ (Text.splitChar '*' cs).length := by
  induction cs with
  | nil => cases h
  | cons c cs ih =>
    have hne := Text.splitChar_ne_nil '*' cs
    have hpos := List.length_pos_iff.mpr hne
    unfold Text.splitChar
    split
    · rw [List.length_cons]
      omega
    · rename_i hc
      have htail := ih ((List.mem_cons.mp h).resolve_left (Ne.symm hc))
      split
      · rename_i hnil
        exact absurd hnil hne
      · rename_i part parts hsplit
        rw [hsplit] at htail
        exact htail

@[simp] theorem byteLen_nil : byteLen [] = 0 := rfl

@[simp] theorem byteLen_cons (c : Char) (cs : List Char) :
    byteLen (c :: cs) = c.utf8Size + byteLen cs := by
  simp [byteLen]

@[simp] theorem byteLen_append (a b : List Char) : byteLen (a ++ b) = byteLen a + byteLen b := by
  simp [byteLen]

theorem sliceFrom_append (a b : List Char) : sliceFrom (a ++ b) (byteLen a) = some b := by
  induction a with
  | nil => cases b <;> rfl
  | cons c a ih =>
    obtain ⟨n, hn⟩ : ∃ n, c.utf8Size + byteLen a = n + 1 :=
      ⟨c.utf8Size + byteLen a - 1, by have := c.utf8Size_pos; omega⟩
    rw [List.cons_append, byteLen_cons, hn, sliceFrom, if_pos (by omega)]
    rw [← ih]
    congr 1
    omega

/-- **The offset is where the parts matched so far end**, so the loop is the match by lists. -/
theorem matchLoop_eq {count : Nat} (hcount : 2 ≤ count) (parts : List (List Char)) (i : Nat)
    (front rest : List Char) (hi : i + parts.length = count) (hfirst : i = 0 → front = []) :
    matchLoop count (front ++ rest) i parts (byteLen front) =
      some (matchParts (decide (i = 0)) parts rest) := by
  induction parts generalizing i front rest with
  | nil => rfl
  | cons part parts ih =>
    rw [List.length_cons] at hi
    have hnext : ∀ front rest, matchLoop count (front ++ rest) (i + 1) parts (byteLen front) =
        some (matchParts false parts rest) := by
      intro front rest
      exact ih (i + 1) front rest (by omega) nofun
    unfold matchLoop matchParts
    by_cases hpart : part = []
    · rw [if_pos hpart, if_pos hpart, hnext]
    rw [if_neg hpart, if_neg hpart]
    by_cases hzero : i = 0
    · obtain rfl := hfirst hzero
      rw [if_pos hzero, if_pos (decide_eq_true hzero), List.nil_append]
      cases hstrip : Text.stripList part rest with
      | none =>
        have hnot : part.isPrefixOf rest = false := by
          refine Bool.eq_false_iff.mpr fun hprefix => ?_
          obtain ⟨back, rfl⟩ := List.isPrefixOf_iff_prefix.mp hprefix
          rw [Text.stripList_append] at hstrip
          cases hstrip
        rw [hnot]
        rfl
      | some back =>
        obtain rfl := Text.stripList_eq_some hstrip
        rw [if_pos (List.isPrefixOf_iff_prefix.mpr ⟨back, rfl⟩), hnext]
    · have hrest : ¬decide (i = 0) = true := by simpa using hzero
      rw [if_neg hzero, if_neg hrest, sliceFrom_append, Option.bind_some]
      by_cases hlast : i = count - 1
      · obtain rfl : parts = [] := List.length_eq_zero_iff.mp (by omega)
        rw [if_pos hlast, if_pos rfl]
        cases part.isSuffixOf rest <;> rfl
      · have hmore : parts ≠ [] := by
          rintro rfl
          rw [List.length_nil] at hi
          omega
        rw [if_neg hlast, if_neg hmore]
        cases hsplit : Text.splitList part rest with
        | none => simp only [findAt, hsplit, Option.map_none]
        | some halves =>
          obtain ⟨gap, back⟩ := halves
          have hoffset : byteLen front + byteLen gap + byteLen part = byteLen (front ++ (gap ++ part)) := by
            simp [Nat.add_assoc]
          have hvalue : front ++ rest = front ++ (gap ++ part) ++ back := by
            simp [Text.splitList_eq_some hsplit]
          simp only [findAt, hsplit, Option.map_some]
          rw [hoffset, hvalue, hnext]

theorem byteLen_eq_zero_iff {cs : List Char} : byteLen cs = 0 ↔ cs = [] := by
  cases cs with
  | nil => simp
  | cons c cs =>
    have hpos := c.utf8Size_pos
    simp only [byteLen_cons, List.cons_ne_nil, iff_false]
    omega

/-- Parts at both ends of a value overlap in bytes exactly when they do in characters. -/
theorem byteLen_le_iff {front back value : List Char} (hfront : front <+: value)
    (hback : back <:+ value) :
    byteLen front + byteLen back ≤ byteLen value ↔ front.length + back.length ≤ value.length := by
  obtain ⟨rest, rfl⟩ := hfront
  obtain ⟨start, hstart⟩ := hback
  rcases List.append_eq_append_iff.mp hstart with ⟨more, rfl, rfl⟩ | ⟨more, rfl, rfl⟩
  · -- what the two share
    have hzero : byteLen more = 0 ↔ more.length = 0 :=
      byteLen_eq_zero_iff.trans List.length_eq_zero_iff.symm
    simp only [byteLen_append, List.length_append]
    omega
  · simp only [byteLen_append, List.length_append]
    omega

/-- **No slice is outside a boundary**: the match by offsets answers, as the match by lists does. -/
theorem globMatchAt_eq (pattern value : String) :
    globMatchAt pattern value = some (globMatch pattern value) := by
  unfold globMatchAt globMatch
  by_cases hall : pattern = "*"
  · rw [if_pos hall, if_pos hall]
  rw [if_neg hall, if_neg hall]
  by_cases hstar : '*' ∉ pattern.toList
  · rw [if_pos hstar, if_pos hstar]
  rw [if_neg hstar, if_neg hstar]
  have hcount := two_le_length_splitChar (not_not.mp hstar)
  match hsplit : Text.splitChar '*' pattern.toList with
  | [] => simp [hsplit] at hcount
  | [_] => simp [hsplit] at hcount
  | [front, back] =>
    simp only [Option.some.injEq]
    cases hfront : front.isPrefixOf value.toList with
    | false => rfl
    | true =>
      cases hback : back.isSuffixOf value.toList with
      | false => rfl
      | true =>
        exact decide_eq_decide.mpr (byteLen_le_iff (List.isPrefixOf_iff_prefix.mp hfront)
          (List.isSuffixOf_iff_suffix.mp hback))
  | first :: second :: third :: parts =>
    rw [hsplit] at hcount
    exact matchLoop_eq hcount _ 0 [] value.toList (Nat.zero_add _) fun _ => rfl

/-! ## The language of a pattern -/

theorem matchParts_false_iff {parts : List (List Char)} (hparts : parts ≠ []) (rest : List Char) :
    matchParts false parts rest = true ↔ Behind parts rest := by
  induction parts generalizing rest with
  | nil => exact absurd rfl hparts
  | cons part parts ih =>
    unfold matchParts
    by_cases hpart : part = []
    · subst hpart
      rw [if_pos rfl]
      by_cases hlast : parts = []
      · subst hlast
        rw [behind_last]
        exact iff_of_true rfl (List.nil_suffix)
      · rw [ih hlast, behind_nil_cons hlast]
    rw [if_neg hpart, if_neg (by decide)]
    by_cases hlast : parts = []
    · subst hlast
      rw [if_pos rfl, behind_last]
      exact List.isSuffixOf_iff_suffix
    · rw [if_neg hlast, behind_splitList_iff hlast]
      cases hsplit : Text.splitList part rest with
      | none => simp
      | some halves =>
        obtain ⟨front, back⟩ := halves
        simp [ih hlast]

theorem matchParts_true_iff {part : List Char} {parts : List (List Char)} (hparts : parts ≠ [])
    (value : List Char) : matchParts true (part :: parts) value = true ↔ InOrder (part :: parts) value := by
  unfold matchParts
  by_cases hpart : part = []
  · subst hpart
    rw [if_pos rfl, matchParts_false_iff hparts]
    exact ⟨fun h => ⟨value, rfl, h⟩, fun ⟨_, hvalue, h⟩ => hvalue ▸ h⟩
  rw [if_neg hpart, if_pos rfl]
  constructor
  · intro h
    split at h
    · rename_i rest hstrip
      exact ⟨rest, Text.stripList_eq_some hstrip, (matchParts_false_iff hparts rest).mp h⟩
    · cases h
  · rintro ⟨rest, rfl, hrest⟩
    rw [Text.stripList_append]
    exact (matchParts_false_iff hparts rest).mpr hrest

/-- A pattern without stars stands for itself. -/
theorem mem_language_plain {pattern : List Char} (hstar : '*' ∉ pattern) (value : List Char) :
    value ∈ language '*' pattern ↔ pattern = value := by
  induction pattern generalizing value with
  | nil => exact mem_language_nil.trans eq_comm
  | cons c cs ih =>
    rw [List.mem_cons, not_or] at hstar
    rw [mem_language_char (Ne.symm hstar.1)]
    constructor
    · rintro ⟨rest, rfl, hrest⟩
      rw [(ih hstar.2 rest).mp hrest]
    · rintro rfl
      exact ⟨cs, rfl, (ih hstar.2 cs).mpr rfl⟩

/-- With one star the parts stand at the ends, and do not overlap. -/
theorem inOrder_two_iff {front back value : List Char} :
    InOrder [front, back] value ↔
      front <+: value ∧ back <:+ value ∧ front.length + back.length ≤ value.length := by
  constructor
  · rintro ⟨rest, rfl, hrest⟩
    obtain ⟨gap, rfl⟩ := behind_last.mp hrest
    refine ⟨List.prefix_append .., ⟨front ++ gap, by simp⟩, ?_⟩
    simp only [List.length_append]
    omega
  · rintro ⟨⟨rest, rfl⟩, hback, hlength⟩
    refine ⟨rest, rfl, behind_last.mpr ?_⟩
    rw [List.length_append] at hlength
    exact List.suffix_of_suffix_length_le hback (List.suffix_append front rest) (by omega)

/-- **A value matches** exactly when it is in the language of the pattern. -/
theorem globMatch_iff (pattern value : String) :
    globMatch pattern value = true ↔ value.toList ∈ language '*' pattern.toList := by
  unfold globMatch
  by_cases hall : pattern = "*"
  · subst hall
    rw [if_pos rfl]
    exact iff_of_true rfl (mem_language_star.mpr ⟨value.toList, [], by simp, rfl⟩)
  rw [if_neg hall]
  by_cases hstar : '*' ∉ pattern.toList
  · rw [if_pos hstar, mem_language_plain hstar, String.toList_inj, decide_eq_true_eq]
  rw [if_neg hstar, mem_language_iff]
  split
  · rename_i front back hsplit
    rw [hsplit, inOrder_two_iff]
    simp [List.isPrefixOf_iff_prefix, List.isSuffixOf_iff_suffix, and_assoc]
  · have hcount := two_le_length_splitChar (not_not.mp hstar)
    cases hsplit : Text.splitChar '*' pattern.toList with
    | nil => simp [hsplit] at hcount
    | cons part parts =>
      refine matchParts_true_iff ?_ value.toList
      rintro rfl
      simp [hsplit] at hcount

/-- **Glob matching answers for the language of the pattern**, and slices between characters only. -/
theorem globMatchAt_language (pattern value : String) :
    ∃ matched, globMatchAt pattern value = some matched ∧
      (matched = true ↔ value.toList ∈ language '*' pattern.toList) :=
  ⟨globMatch pattern value, globMatchAt_eq pattern value, globMatch_iff pattern value⟩

end AnyConverter.Config
