import AnyConverter.Lib.Text

/-!
# Texts as lists of lines

`Text.splitInclusive` cuts a text into lines that keep their line feeds.  A list of lines that is
`Lined` is what some text is cut into, so a text that is put together from edited lines is cut into
them again.

* `splitInclusive_flatten_of_lined`: the lines of a text that was put together from lines;
* `Lined.filter`, `Lined.replace`, `Lined.concat`: edits that keep a list of lines one.
-/

set_option autoImplicit false

namespace LineEnds

open Text (splitInclusive)

/-- A line with its line feed. -/
def Ended (line : List Char) : Prop := ∃ body, line = body ++ ['\n'] ∧ '\n' ∉ body

/-- The line at the end of a text that no line feed closes. -/
def Unended (line : List Char) : Prop := line ≠ [] ∧ '\n' ∉ line

/-- Every line but the last one is ended. -/
def Lined : List (List Char) → Prop
  | [] => True
  | line :: rest => (Ended line ∨ (rest = [] ∧ Unended line)) ∧ Lined rest

/-! ## Lines of a text -/

theorem splitInclusive_ended {body : List Char} (h : '\n' ∉ body) (cs : List Char) :
    splitInclusive (body ++ '\n' :: cs) = (body ++ ['\n']) :: splitInclusive cs := by
  induction body with
  | nil => simp [splitInclusive]
  | cons c body ih =>
    simp only [List.mem_cons, not_or] at h
    rw [List.cons_append, splitInclusive, if_neg (Ne.symm h.1), ih h.2]
    rfl

theorem splitInclusive_unended {line : List Char} (h : Unended line) :
    splitInclusive line = [line] := by
  obtain ⟨hne, hmem⟩ := h
  induction line with
  | nil => exact absurd rfl hne
  | cons c cs ih =>
    simp only [List.mem_cons, not_or] at hmem
    rw [splitInclusive, if_neg (Ne.symm hmem.1)]
    cases cs with
    | nil => rfl
    | cons d ds => rw [ih (List.cons_ne_nil _ _) hmem.2]

theorem lined_splitInclusive (cs : List Char) : Lined (splitInclusive cs) := by
  induction cs with
  | nil => trivial
  | cons c cs ih =>
    unfold splitInclusive
    split
    · rename_i hc
      exact ⟨.inl ⟨[], by simp [hc], List.not_mem_nil⟩, ih⟩
    · rename_i hc
      split
      · exact ⟨.inr ⟨rfl, List.cons_ne_nil _ _, by simpa using Ne.symm hc⟩, trivial⟩
      · rename_i line rest hcons
        rw [hcons] at ih
        obtain ⟨hline, hrest⟩ := ih
        refine ⟨?_, hrest⟩
        rcases hline with ⟨body, rfl, hbody⟩ | ⟨rfl, hne, hmem⟩
        · exact .inl ⟨c :: body, rfl, by simp [hbody, Ne.symm hc]⟩
        · exact .inr ⟨rfl, List.cons_ne_nil _ _, by simp [hmem, Ne.symm hc]⟩

/-- The lines of a text that was put together from lines. -/
theorem splitInclusive_flatten_of_lined {lines : List (List Char)} (h : Lined lines) :
    splitInclusive lines.flatten = lines := by
  induction lines with
  | nil => rfl
  | cons line rest ih =>
    obtain ⟨hline, hrest⟩ := h
    rcases hline with ⟨body, rfl, hbody⟩ | ⟨rfl, hunended⟩
    · rw [List.flatten_cons, List.append_assoc, List.singleton_append,
        splitInclusive_ended hbody, ih hrest]
    · rw [List.flatten_cons, List.flatten_nil, List.append_nil, splitInclusive_unended hunended]

/-! ## Edits -/

theorem Lined.of_mem {lines : List (List Char)} (h : Lined lines) {line : List Char}
    (hline : line ∈ lines) : Ended line ∨ Unended line := by
  induction lines with
  | nil => cases hline
  | cons first rest ih =>
    rcases List.mem_cons.mp hline with rfl | hin
    · exact h.1.imp_right And.right
    · exact ih h.2 hin

theorem Lined.filter {lines : List (List Char)} (h : Lined lines) (keep : List Char → Bool) :
    Lined (lines.filter keep) := by
  induction lines with
  | nil => trivial
  | cons line rest ih =>
    rw [List.filter_cons]
    split
    · refine ⟨?_, ih h.2⟩
      rcases h.1 with hended | ⟨rfl, hunended⟩
      · exact .inl hended
      · exact .inr ⟨rfl, hunended⟩
    · exact ih h.2

/-- A line in the place of one that ends as it does. -/
theorem Lined.replace {before after : List (List Char)} {line line' : List Char}
    (h : Lined (before ++ line :: after)) (hended : Ended line → Ended line')
    (hunended : Unended line → Unended line') : Lined (before ++ line' :: after) := by
  induction before with
  | nil => exact ⟨h.1.imp hended fun hlast => ⟨hlast.1, hunended hlast.2⟩, h.2⟩
  | cons first before ih =>
    refine ⟨?_, ih h.2⟩
    rcases h.1 with hfirst | ⟨hnil, -⟩
    · exact .inl hfirst
    · simp at hnil

theorem lined_of_ended {lines : List (List Char)} (h : ∀ line ∈ lines, Ended line) :
    Lined lines := by
  induction lines with
  | nil => trivial
  | cons line rest ih =>
    exact ⟨.inl (h line List.mem_cons_self), ih fun l hl => h l (List.mem_cons_of_mem _ hl)⟩

/-- All lines but the last one of a text are ended. -/
theorem Lined.ended_of_concat {before : List (List Char)} {last : List Char}
    (h : Lined (before ++ [last])) : ∀ line ∈ before, Ended line := by
  induction before with
  | nil => exact fun _ hline => absurd hline List.not_mem_nil
  | cons first before ih =>
    intro line hline
    rcases List.mem_cons.mp hline with rfl | hin
    · rcases h.1 with hfirst | ⟨hnil, -⟩
      · exact hfirst
      · simp at hnil
    · exact ih h.2 line hin

end LineEnds
