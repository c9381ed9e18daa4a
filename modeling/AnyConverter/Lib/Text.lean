import Mathlib.Algebra.Ring.Nat
import Mathlib.Data.List.TakeWhile

/-!
# Text operations of the Rust standard library

The `str` methods a line-oriented text protocol is written with: `strip_prefix`, `trim`,
`trim_start_matches`, `lines`, `split_once` and `rsplit_once`.  Each one works on the list of
Unicode scalar values of the string, so that it runs in the kernel; the `String` version wraps it.

* `stripPrefix_append`: a prefix that was written in front is the one that is taken off;
* `rsplitOnce_append`: the last separator splits a text whose tail does not hold it;
* `afterLast_append_of_mem`, `afterLast_append_of_not_mem`: what follows the last separator of a
  text that is put together;
* `splitOnce_eq_some`: the halves of a split text put together give the text.
-/

set_option autoImplicit false

namespace Text

/-- The `White_Space` property of Unicode, the class `str::trim` removes. -/
def isWhitespace (c : Char) : Bool :=
  let n := c.toNat
  (9 ≤ n && n ≤ 13) || n == 32 || n == 0x85 || n == 0xA0 || n == 0x1680 ||
    (0x2000 ≤ n && n ≤ 0x200A) || n == 0x2028 || n == 0x2029 || n == 0x202F || n == 0x205F ||
    n == 0x3000

/-- `str::trim`. -/
def trim (s : String) : String :=
  String.ofList ((s.toList.dropWhile isWhitespace).reverse.dropWhile isWhitespace).reverse

/-- `str::trim_end`. -/
def trimEnd (s : String) : String :=
  String.ofList (s.toList.reverse.dropWhile isWhitespace).reverse

/-- `str::trim_start_matches` with one character. -/
def trimStartMatches (c : Char) (s : String) : String :=
  String.ofList (s.toList.dropWhile (· == c))

/-- `str::trim_end_matches` with one character. -/
def trimEndMatches (c : Char) (s : String) : String :=
  String.ofList (s.toList.reverse.dropWhile (· == c)).reverse

/-- The rest of `s` after `p`, when `s` begins with `p`. -/
def stripList : List Char → List Char → Option (List Char)
  | [], s => some s
  | _ :: _, [] => none
  | a :: p, b :: s => if a = b then stripList p s else none

theorem stripList_append (p s : List Char) : stripList p (p ++ s) = some s := by
  induction p with
  | nil => rfl
  | cons a p ih => simp [stripList, ih]

theorem stripList_eq_some {p s r : List Char} (h : stripList p s = some r) : s = p ++ r := by
  induction p generalizing s with
  | nil => simpa [stripList] using h
  | cons a p ih =>
    cases s with
    | nil => simp [stripList] at h
    | cons b s =>
      simp only [stripList] at h
      split at h
      · rename_i hab
        rw [hab, ih h, List.cons_append]
      · cases h

/-- `str::strip_prefix`. -/
def stripPrefix (p s : String) : Option String :=
  (stripList p.toList s.toList).map String.ofList

theorem stripPrefix_append (p s : String) : stripPrefix p (p ++ s) = some s := by
  simp [stripPrefix, stripList_append]

theorem stripPrefix_eq_some {p s r : String} (h : stripPrefix p s = some r) : s = p ++ r := by
  simp only [stripPrefix, Option.map_eq_some_iff] at h
  obtain ⟨cs, hcs, rfl⟩ := h
  apply String.toList_inj.mp
  simpa using stripList_eq_some hcs

/-- `str::starts_with`. -/
def startsWith (s p : String) : Bool := (stripPrefix p s).isSome

/-- One carriage return off the end of a line that a line feed closed. -/
def stripCarriageReturn (line : List Char) : List Char :=
  if line.getLast? = some '\r' then line.dropLast else line

/-- The segments between line feeds; there is always at least one. -/
def splitLines : List Char → List (List Char)
  | [] => [[]]
  | c :: cs =>
    match splitLines cs with
    | [] => [[c]]
    | l :: ls => if c = '\n' then [] :: l :: ls else (c :: l) :: ls

/-- `str::split` with one character; there is always at least one segment. -/
def splitChar (sep : Char) : List Char → List (List Char)
  | [] => [[]]
  | c :: cs =>
    if c = sep then [] :: splitChar sep cs
    else
      match splitChar sep cs with
      | [] => [[c]]
      | l :: ls => (c :: l) :: ls

theorem splitChar_ne_nil (sep : Char) (cs : List Char) : splitChar sep cs ≠ [] := by
  cases cs with
  | nil => exact List.cons_ne_nil _ _
  | cons c cs =>
    unfold splitChar
    split
    · exact List.cons_ne_nil _ _
    · split <;> exact List.cons_ne_nil _ _

/-- A character of a split text is the separator or lies in a segment. -/
theorem mem_splitChar {sep c : Char} {cs : List Char} (h : c ∈ cs) :
    c = sep ∨ ∃ segment ∈ splitChar sep cs, c ∈ segment := by
  induction cs with
  | nil => cases h
  | cons x cs ih =>
    unfold splitChar
    rcases List.mem_cons.mp h with rfl | h
    · split
      · rename_i hsep
        exact Or.inl hsep
      · split
        · exact Or.inr ⟨_, List.mem_cons_self, List.mem_cons_self⟩
        · exact Or.inr ⟨_, List.mem_cons_self, List.mem_cons_self⟩
    · rcases ih h with hsep | ⟨segment, hsegment, hc⟩
      · exact Or.inl hsep
      · refine Or.inr ?_
        split
        · exact ⟨segment, List.mem_cons_of_mem _ hsegment, hc⟩
        · split
          · rename_i hnil
            rw [hnil] at hsegment
            cases hsegment
          · rename_i l ls hcons
            rw [hcons] at hsegment
            rcases List.mem_cons.mp hsegment with rfl | hsegment
            · exact ⟨_, List.mem_cons_self, List.mem_cons_of_mem x hc⟩
            · exact ⟨segment, List.mem_cons_of_mem _ hsegment, hc⟩

/-- `str::get` of the first bytes; there are none when a character does not end there. -/
def getTo : Nat → List Char → Option (List Char)
  | 0, _ => some []
  | _ + 1, [] => none
  | n + 1, c :: cs =>
    if c.utf8Size ≤ n + 1 then (getTo (n + 1 - c.utf8Size) cs).map (c :: ·) else none

/-- As many bytes as characters, when each of these is one byte. -/
theorem getTo_of_ascii {n : Nat} {cs : List Char} (hlen : n ≤ cs.length)
    (hascii : ∀ c ∈ cs.take n, c.utf8Size = 1) : getTo n cs = some (cs.take n) := by
  induction cs generalizing n with
  | nil =>
    obtain rfl : n = 0 := Nat.le_zero.mp hlen
    rfl
  | cons c cs ih =>
    cases n with
    | zero => rfl
    | succ n =>
      have hc : c.utf8Size = 1 := hascii c (by simp)
      have htail := ih (Nat.le_of_succ_le_succ hlen) fun d hd =>
        hascii d (List.mem_cons_of_mem c hd)
      rw [getTo, hc, if_pos (Nat.le_add_left 1 n), Nat.add_sub_cancel, htail]
      rfl

/-- `str::split_inclusive` with a line feed: the lines with their line feeds. -/
def splitInclusive : List Char → List (List Char)
  | [] => []
  | c :: cs =>
    if c = '\n' then [c] :: splitInclusive cs
    else
      match splitInclusive cs with
      | [] => [[c]]
      | l :: ls => (c :: l) :: ls

/-- `str::lines`: a segment a line feed closes loses one carriage return, and what follows the
last line feed is a line of its own unless it is empty. -/
def lines (s : String) : List String :=
  let segments := splitLines s.toList
  let closed := segments.dropLast.map stripCarriageReturn
  let last := (segments.getLast?.getD [])
  (closed ++ if last.isEmpty then [] else [last]).map String.ofList

/-- The lines with their ends are the text. -/
theorem splitInclusive_flatten (cs : List Char) : (splitInclusive cs).flatten = cs := by
  induction cs with
  | nil => rfl
  | cons c cs ih =>
    unfold splitInclusive
    split
    · rw [List.flatten_cons, ih]
      rfl
    · split
      · rename_i hnone
        rw [hnone] at ih
        rw [← ih]
        rfl
      · rename_i l ls hsome
        rw [hsome] at ih
        rw [← ih]
        rfl

theorem splitInclusive_ne_nil {cs line : List Char} (h : line ∈ splitInclusive cs) :
    line ≠ [] := by
  induction cs generalizing line with
  | nil => cases h
  | cons c cs ih =>
    unfold splitInclusive at h
    split at h
    · rcases List.mem_cons.mp h with rfl | hin
      · exact List.cons_ne_nil _ _
      · exact ih hin
    · split at h
      · rw [List.mem_singleton] at h
        rw [h]
        exact List.cons_ne_nil _ _
      · rename_i l ls hsome
        rcases List.mem_cons.mp h with rfl | hin
        · exact List.cons_ne_nil _ _
        · exact ih (hsome ▸ List.mem_cons_of_mem _ hin)

theorem splitLines_of_not_mem {cs : List Char} (h : '\n' ∉ cs) : splitLines cs = [cs] := by
  induction cs with
  | nil => rfl
  | cons c cs ih =>
    simp only [List.mem_cons, not_or] at h
    rw [splitLines, ih h.2]
    simp [Ne.symm h.1]

theorem splitLines_ne_nil (cs : List Char) : splitLines cs ≠ [] := by
  cases cs with
  | nil => exact List.cons_ne_nil _ _
  | cons c cs =>
    unfold splitLines
    split
    · exact List.cons_ne_nil _ _
    · split <;> exact List.cons_ne_nil _ _

theorem splitLines_append {cs : List Char} (h : '\n' ∉ cs) (rest : List Char) :
    splitLines (cs ++ '\n' :: rest) = cs :: splitLines rest := by
  induction cs with
  | nil =>
    obtain ⟨l, ls, hrest⟩ := List.exists_cons_of_ne_nil (splitLines_ne_nil rest)
    simp [splitLines, hrest]
  | cons c cs ih =>
    simp only [List.mem_cons, not_or] at h
    simp [splitLines, ih h.2, Ne.symm h.1]

/-- A segment that a line feed closes, without its carriage return. -/
theorem lines_closed {s : String} (h : '\n' ∉ s.toList) (t : String) :
    lines (s ++ "\n" ++ t) = String.ofList (stripCarriageReturn s.toList) :: lines t := by
  have hsplit : splitLines (s ++ "\n" ++ t).toList = s.toList :: splitLines t.toList := by
    have htext : (s ++ "\n" ++ t).toList = s.toList ++ '\n' :: t.toList := by simp
    rw [htext, splitLines_append h]
  have hne := splitLines_ne_nil t.toList
  simp only [lines, hsplit, List.dropLast_cons_of_ne_nil hne, List.getLast?_cons_of_ne_nil hne,
    List.map_cons, List.cons_append]

/-- A line that is closed. -/
theorem lines_append {s : String} (h : '\n' ∉ s.toList) (hcr : s.toList.getLast? ≠ some '\r')
    (t : String) : lines (s ++ "\n" ++ t) = s :: lines t := by
  rw [lines_closed h, stripCarriageReturn, if_neg hcr, String.ofList_toList]

/-- A text without a line feed is one line. -/
theorem lines_of_not_mem {s : String} (h : '\n' ∉ s.toList) (hne : s ≠ "") : lines s = [s] := by
  simp [lines, splitLines_of_not_mem h, hne]

/-- The segments hold the text, a line feed between each two of them. -/
theorem length_splitLines (cs : List Char) :
    ((splitLines cs).map fun line => line.length + 1).sum = cs.length + 1 := by
  induction cs with
  | nil => rfl
  | cons c cs ih =>
    unfold splitLines
    split
    · rename_i hnil
      exact absurd hnil (splitLines_ne_nil cs)
    · rename_i l ls hcons
      rw [hcons] at ih
      split <;> simp only [List.map_cons, List.sum_cons, List.length_cons, List.length_nil] at ih ⊢ <;>
        omega

theorem not_mem_of_mem_splitLines {cs line : List Char} (h : line ∈ splitLines cs) :
    '\n' ∉ line := by
  induction cs generalizing line with
  | nil =>
    rw [splitLines, List.mem_singleton] at h
    rw [h]
    exact List.not_mem_nil
  | cons c cs ih =>
    unfold splitLines at h
    split at h
    · rename_i hnil
      exact absurd hnil (splitLines_ne_nil cs)
    · rename_i l ls hcons
      rw [hcons] at ih
      split at h
      · rcases List.mem_cons.mp h with rfl | h
        · exact List.not_mem_nil
        · exact ih h
      · rename_i hc
        rcases List.mem_cons.mp h with rfl | h
        · simp only [List.mem_cons, not_or]
          exact ⟨Ne.symm hc, ih List.mem_cons_self⟩
        · exact ih (List.mem_cons_of_mem _ h)

theorem stripCarriageReturn_sublist (line : List Char) : (stripCarriageReturn line).Sublist line := by
  unfold stripCarriageReturn
  split
  · exact List.dropLast_sublist _
  · exact List.Sublist.refl _

/-- Without their carriage returns the segments are no longer. -/
theorem length_stripCarriageReturn (segments : List (List Char)) :
    ((segments.map stripCarriageReturn).map fun line => line.length + 1).sum ≤
      (segments.map fun line => line.length + 1).sum := by
  induction segments with
  | nil => exact Nat.le_refl _
  | cons line rest ih =>
    have hle := (stripCarriageReturn_sublist line).length_le
    simp only [List.map_cons, List.sum_cons]
    omega

/-- A line is a segment, but for its line end. -/
theorem mem_lines {s line : String} (h : line ∈ lines s) :
    ∃ segment ∈ splitLines s.toList, line.toList.Sublist segment := by
  unfold lines at h
  obtain ⟨cs, hcs, rfl⟩ := List.mem_map.mp h
  rw [String.toList_ofList]
  rcases List.mem_append.mp hcs with hcs | hcs
  · obtain ⟨segment, hsegment, rfl⟩ := List.mem_map.mp hcs
    exact ⟨segment, List.dropLast_subset _ hsegment, stripCarriageReturn_sublist segment⟩
  · split at hcs
    · cases hcs
    · rw [List.mem_singleton] at hcs
      subst hcs
      have hne := splitLines_ne_nil s.toList
      rw [List.getLast?_eq_some_getLast hne, Option.getD_some]
      exact ⟨_, List.getLast_mem hne, List.Sublist.refl _⟩

theorem not_mem_of_mem_lines {s line : String} (h : line ∈ lines s) : '\n' ∉ line.toList := by
  obtain ⟨segment, hsegment, hsub⟩ := mem_lines h
  exact fun hmem => not_mem_of_mem_splitLines hsegment (hsub.subset hmem)

/-- The lines are no longer than the text. -/
theorem length_lines (s : String) :
    ((lines s).map fun line => line.toList.length + 1).sum ≤ s.toList.length + 1 := by
  have hne := splitLines_ne_nil s.toList
  have hall := length_splitLines s.toList
  rw [← List.dropLast_concat_getLast hne, List.map_append, List.sum_append, List.map_singleton,
    List.sum_singleton] at hall
  have hclosed := length_stripCarriageReturn (splitLines s.toList).dropLast
  unfold lines
  rw [List.map_map, List.map_append, List.sum_append, List.getLast?_eq_some_getLast hne,
    Option.getD_some]
  have hcomp : ((fun line : String => line.toList.length + 1) ∘ String.ofList) =
      fun line => line.length + 1 := by
    funext line
    simp
  rw [hcomp]
  split
  · simp only [List.map_nil, List.sum_nil]
    omega
  · simp only [List.map_singleton, List.sum_singleton]
    omega

/-- Trimming a text that begins with a character that is no white space keeps that character. -/
theorem trim_head {s : String} {c : Char} {cs : List Char} (hs : s.toList = c :: cs)
    (hc : isWhitespace c = false) : ∃ ds, (trim s).toList = c :: ds := by
  have hsuffix := @List.dropWhile_suffix _ (c :: cs).reverse isWhitespace
  have hprefix : ((c :: cs).reverse.dropWhile isWhitespace).reverse <+: c :: cs := by
    rw [← List.reverse_suffix, List.reverse_reverse]
    exact hsuffix
  have htrim : (trim s).toList = ((c :: cs).reverse.dropWhile isWhitespace).reverse := by
    simp [trim, hs, hc]
  have hne : ((c :: cs).reverse.dropWhile isWhitespace).reverse ≠ [] := by
    intro hnil
    rw [List.reverse_eq_nil_iff, List.dropWhile_eq_nil_iff] at hnil
    have hwhite := hnil c (by simp)
    rw [hc] at hwhite
    cases hwhite
  obtain ⟨rest, hrest⟩ := hprefix
  obtain ⟨d, ds, hd⟩ := List.exists_cons_of_ne_nil hne
  rw [hd, List.cons_append, List.cons.injEq] at hrest
  exact ⟨ds, by rw [htrim, hd, hrest.1]⟩

/-- `str::rsplit_once` with one character, on the list of characters. -/
def rsplitList (c : Char) : List Char → Option (List Char × List Char)
  | [] => none
  | x :: xs =>
    match rsplitList c xs with
    | some (a, b) => some (x :: a, b)
    | none => if x = c then some ([], xs) else none

theorem rsplitList_eq_none {c : Char} {s : List Char} (h : c ∉ s) : rsplitList c s = none := by
  induction s with
  | nil => rfl
  | cons x xs ih =>
    simp only [List.mem_cons, not_or] at h
    simp [rsplitList, ih h.2, Ne.symm h.1]

theorem rsplitList_append {c : Char} {t s : List Char} (h : c ∉ s) :
    rsplitList c (t ++ c :: s) = some (t, s) := by
  induction t with
  | nil => simp [rsplitList, rsplitList_eq_none h]
  | cons x xs ih => simp [rsplitList, ih]

theorem rsplitList_isSome (c : Char) (a b : List Char) :
    (rsplitList c (a ++ c :: b)).isSome := by
  induction a with
  | nil =>
    rw [List.nil_append, rsplitList]
    split <;> simp
  | cons x a ih =>
    rw [List.cons_append, rsplitList]
    split
    · simp
    · rename_i hnone
      rw [hnone] at ih
      cases ih

theorem rsplitList_eq_some {c : Char} {s t u : List Char} (h : rsplitList c s = some (t, u)) :
    s = t ++ c :: u ∧ c ∉ u := by
  induction s generalizing t u with
  | nil => simp [rsplitList] at h
  | cons x xs ih =>
    unfold rsplitList at h
    split at h
    · rename_i a b hab
      obtain ⟨rfl, rfl⟩ : x :: a = t ∧ b = u := by simpa using h
      obtain ⟨rfl, hb⟩ := ih hab
      exact ⟨rfl, hb⟩
    · rename_i hnone
      split at h
      · rename_i hx
        obtain ⟨rfl, rfl⟩ : [] = t ∧ xs = u := by simpa using h
        refine ⟨by rw [hx]; rfl, ?_⟩
        intro hmem
        obtain ⟨a, b, rfl⟩ := List.append_of_mem hmem
        have hlast := rsplitList_isSome c a b
        rw [hnone] at hlast
        cases hlast
      · simp at h

/-- `str::rsplit_once` with one character. -/
def rsplitOnce (c : Char) (s : String) : Option (String × String) :=
  (rsplitList c s.toList).map fun p => (String.ofList p.1, String.ofList p.2)

theorem rsplitOnce_eq_none {c : Char} {s : String} (h : c ∉ s.toList) : rsplitOnce c s = none := by
  simp [rsplitOnce, rsplitList_eq_none h]

theorem rsplitOnce_append {c : Char} {t s : String} (h : c ∉ s.toList) :
    rsplitOnce c (t ++ String.singleton c ++ s) = some (t, s) := by
  simp [rsplitOnce, rsplitList_append h]

/-- What comes after the last separator, the whole text when there is none. -/
def afterLast (c : Char) (s : String) : String := ((rsplitOnce c s).map Prod.snd).getD s

theorem rsplitOnce_eq_some {c : Char} {s t u : String} (h : rsplitOnce c s = some (t, u)) :
    s = t ++ String.singleton c ++ u ∧ c ∉ u.toList := by
  obtain ⟨⟨a, b⟩, hab, hp⟩ := Option.map_eq_some_iff.mp h
  obtain ⟨hs, hb⟩ := rsplitList_eq_some hab
  obtain ⟨rfl, rfl⟩ := Prod.mk.inj hp
  refine ⟨?_, by simpa using hb⟩
  rw [← String.toList_inj]
  simpa using hs

theorem rsplitOnce_of_mem {c : Char} {s : String} (h : c ∈ s.toList) :
    ∃ t, rsplitOnce c s = some (t, afterLast c s) := by
  obtain ⟨a, b, hab⟩ := List.append_of_mem h
  have hsome := rsplitList_isSome c a b
  obtain ⟨p, hp⟩ := Option.isSome_iff_exists.mp hsome
  refine ⟨String.ofList p.1, ?_⟩
  simp [afterLast, rsplitOnce, hab, hp]

theorem afterLast_of_not_mem {c : Char} {s : String} (h : c ∉ s.toList) : afterLast c s = s := by
  simp [afterLast, rsplitOnce_eq_none h]

theorem afterLast_mid {c : Char} {t s : String} (h : c ∉ s.toList) :
    afterLast c (t ++ String.singleton c ++ s) = s := by
  rw [afterLast, rsplitOnce_append h]
  rfl

/-- A separator in the second part hides the first. -/
theorem afterLast_append_of_mem {c : Char} {x y : String} (h : c ∈ y.toList) :
    afterLast c (x ++ y) = afterLast c y := by
  obtain ⟨t, ht⟩ := rsplitOnce_of_mem h
  obtain ⟨hy, hu⟩ := rsplitOnce_eq_some ht
  have hxy : x ++ y = x ++ t ++ String.singleton c ++ afterLast c y := by
    simp only [String.append_assoc] at hy ⊢
    rw [← hy]
  rw [hxy, afterLast_mid hu]

/-- Without one, the second part follows what came after the last of the first. -/
theorem afterLast_append_of_not_mem {c : Char} {x y : String} (h : c ∉ y.toList) :
    afterLast c (x ++ y) = afterLast c x ++ y := by
  by_cases hx : c ∈ x.toList
  · obtain ⟨t, ht⟩ := rsplitOnce_of_mem hx
    obtain ⟨hs, hu⟩ := rsplitOnce_eq_some ht
    have hxy : x ++ y = t ++ String.singleton c ++ (afterLast c x ++ y) := by
      rw [← String.append_assoc, ← hs]
    rw [hxy, afterLast_mid (by simp [hu, h])]
  · rw [afterLast_of_not_mem hx, afterLast_of_not_mem (by simp [hx, h])]

/-- `str::split_once` with a text, on the list of characters: the first occurrence splits. -/
def splitList (pat : List Char) : List Char → Option (List Char × List Char)
  | [] => if pat.isEmpty then some ([], []) else none
  | x :: xs =>
    match stripList pat (x :: xs) with
    | some rest => some ([], rest)
    | none => (splitList pat xs).map fun p => (x :: p.1, p.2)

/-- `str::split_once` with a text. -/
def splitOnce (pat s : String) : Option (String × String) :=
  (splitList pat.toList s.toList).map fun p => (String.ofList p.1, String.ofList p.2)

theorem splitList_eq_some {pat s a b : List Char} (h : splitList pat s = some (a, b)) :
    s = a ++ pat ++ b := by
  induction s generalizing a b with
  | nil =>
    unfold splitList at h
    split at h
    · rename_i hpat
      obtain ⟨rfl, rfl⟩ : [] = a ∧ [] = b := by simpa using h
      simpa using (List.isEmpty_iff.mp hpat).symm
    · cases h
  | cons x xs ih =>
    unfold splitList at h
    split at h
    · rename_i rest hrest
      obtain ⟨rfl, rfl⟩ : [] = a ∧ rest = b := by simpa using h
      exact stripList_eq_some hrest
    · obtain ⟨⟨c, d⟩, hp, heq⟩ := Option.map_eq_some_iff.mp h
      obtain ⟨rfl, rfl⟩ := Prod.mk.inj heq
      rw [ih hp]
      rfl

/-- A text can be split where the pattern is a part of it. -/
theorem splitList_isSome_iff (pat s : List Char) : (splitList pat s).isSome = true ↔ pat <:+: s := by
  constructor
  · intro h
    obtain ⟨⟨a, b⟩, hab⟩ := Option.isSome_iff_exists.mp h
    exact ⟨a, b, (splitList_eq_some hab).symm⟩
  · rintro ⟨a, b, rfl⟩
    induction a with
    | nil =>
      cases hpat : pat ++ b with
      | nil =>
        obtain ⟨rfl, rfl⟩ := List.append_eq_nil_iff.mp hpat
        rfl
      | cons x xs =>
        have hstrip := stripList_append pat b
        rw [hpat] at hstrip
        simp [splitList, hpat, hstrip]
    | cons x a ih =>
      simp only [List.append_assoc] at ih
      simp only [List.append_assoc, List.cons_append]
      unfold splitList
      split
      · rfl
      · rw [Option.isSome_map]
        exact ih

/-- The two halves of a split text, with the separator between them. -/
theorem splitOnce_eq_some {pat s a b : String} (h : splitOnce pat s = some (a, b)) :
    s = a ++ pat ++ b := by
  obtain ⟨⟨c, d⟩, hp, heq⟩ := Option.map_eq_some_iff.mp h
  obtain ⟨rfl, rfl⟩ := Prod.mk.inj heq
  apply String.toList_inj.mp
  simpa using splitList_eq_some hp

/-- A text is split at the first of the characters that separate it. -/
theorem splitOnce_char {c : Char} {a : String} (h : c ∉ a.toList) (b : String) :
    splitOnce (String.singleton c) (a ++ String.singleton c ++ b) = some (a, b) := by
  have hsplit : ∀ cs : List Char, c ∉ cs → ∀ ds,
      splitList [c] (cs ++ c :: ds) = some (cs, ds) := by
    intro cs
    induction cs with
    | nil =>
      intro _ ds
      simp [splitList, stripList]
    | cons x cs ih =>
      intro hmem ds
      rw [List.mem_cons, not_or] at hmem
      rw [List.cons_append, splitList, ih hmem.2]
      simp [stripList, hmem.1]
  unfold splitOnce
  simp [hsplit a.toList h]

/-- The first half of a split text does not hold the separator. -/
theorem not_mem_of_splitOnce {c : Char} {s a b : String}
    (h : splitOnce (String.singleton c) s = some (a, b)) : c ∉ a.toList := by
  have hsplit : ∀ cs a b : List Char, splitList [c] cs = some (a, b) → c ∉ a := by
    intro cs
    induction cs with
    | nil =>
      intro a b hab
      cases hab
    | cons x cs ih =>
      intro a b hab
      unfold splitList at hab
      split at hab
      · cases hab
        exact List.not_mem_nil
      · rename_i hstrip
        obtain ⟨⟨a', b'⟩, htail, heq⟩ := Option.map_eq_some_iff.mp hab
        obtain ⟨rfl, rfl⟩ := Prod.mk.inj heq
        have hne : c ≠ x := by
          rintro rfl
          simp [stripList] at hstrip
        rw [List.mem_cons, not_or]
        exact ⟨hne, ih a' b' htail⟩
  obtain ⟨⟨a', b'⟩, hp, heq⟩ := Option.map_eq_some_iff.mp h
  obtain ⟨rfl, rfl⟩ := Prod.mk.inj heq
  rw [String.toList_ofList]
  exact hsplit _ _ _ (by simpa using hp)

/-! ## Comparing -/

/-- Texts that begin with as many characters are compared by these first. -/
theorem append_lt_append_iff {xs ys : List Char} (h : xs.length = ys.length) (a b : List Char) :
    xs ++ a < ys ++ b ↔ xs < ys ∨ xs = ys ∧ a < b := by
  induction xs generalizing ys with
  | nil =>
    obtain rfl := List.length_eq_zero_iff.mp h.symm
    simp
  | cons x xs ih =>
    cases ys with
    | nil => cases h
    | cons y ys =>
      rw [List.cons_append, List.cons_append, List.cons_lt_cons_iff, List.cons_lt_cons_iff,
        ih (Nat.succ.inj h), List.cons.injEq]
      constructor
      · rintro (hlt | ⟨heq, hlt | ⟨hxs, hab⟩⟩)
        · exact Or.inl (Or.inl hlt)
        · exact Or.inl (Or.inr ⟨heq, hlt⟩)
        · exact Or.inr ⟨⟨heq, hxs⟩, hab⟩
      · rintro ((hlt | ⟨heq, hlt⟩) | ⟨⟨heq, hxs⟩, hab⟩)
        · exact Or.inl hlt
        · exact Or.inr ⟨heq, Or.inl hlt⟩
        · exact Or.inr ⟨heq, Or.inr ⟨hxs, hab⟩⟩

/-! ## Joining -/

/-- Only empty texts join to nothing. -/
theorem join_map_empty_iff {α : Type} {f : α → String} {xs : List α} :
    String.join (xs.map f) = "" ↔ ∀ x ∈ xs, f x = "" := by
  induction xs with
  | nil => simp
  | cons x xs ih => simp [ih]

/-- What a list expands to is joined piece by piece. -/
theorem join_flatMap {α β : Type} (f : α → List β) (g : β → String) (xs : List α) :
    String.join ((xs.flatMap f).map g) = String.join (xs.map fun x => String.join ((f x).map g)) := by
  induction xs with
  | nil => rfl
  | cons x xs ih => simp [String.join_append, ih]

/-- What is left out counts as empty. -/
theorem join_filterMap {α : Type} (f : α → Option String) (xs : List α) :
    String.join (xs.filterMap f) = String.join (xs.map fun x => (f x).getD "") := by
  induction xs with
  | nil => rfl
  | cons x xs ih => cases hx : f x <;> simp [hx, ih]

theorem join_nonempty (xs : List String) :
    String.join (xs.filter (· ≠ "")) = String.join xs := by
  induction xs with
  | nil => rfl
  | cons x xs ih =>
    rw [List.filter_cons, String.join_cons, ← ih]
    by_cases hempty : x = "" <;> simp [hempty]

/-- Texts join to the last of them when those before it are empty. -/
theorem join_eq_getLast_iff (xs : List String) :
    String.join xs = xs.getLast?.getD "" ↔ ∀ x ∈ xs.dropLast, x = "" := by
  rcases List.eq_nil_or_concat xs with rfl | ⟨init, last, rfl⟩
  · simp
  · have hinit := @join_map_empty_iff String id init
    rw [List.map_id] at hinit
    simp [String.join_append, hinit]

theorem length_join_map_append {α : Type} (f g : α → String) (xs : List α) :
    (String.join (xs.map fun x => f x ++ g x)).length =
      (String.join (xs.map f)).length + (String.join (xs.map g)).length := by
  induction xs with
  | nil => rfl
  | cons x xs ih =>
    simp only [List.map_cons, String.join_cons, String.length_append, ih]
    omega

/-- Texts with others between them join to the texts alone when the others are empty. -/
theorem join_map_append_iff {α : Type} (f g : α → String) (xs : List α) :
    String.join (xs.map fun x => f x ++ g x) = String.join (xs.map f) ↔
      String.join (xs.map g) = "" := by
  constructor
  · intro h
    have hlength := congrArg String.length h
    rw [length_join_map_append] at hlength
    exact String.length_eq_zero_iff.mp (by omega)
  · intro h
    have hempty := join_map_empty_iff.mp h
    exact congrArg String.join (List.map_congr_left fun x hx => by simp [hempty x hx])

end Text
