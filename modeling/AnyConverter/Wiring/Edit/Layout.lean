import AnyConverter.Wiring.Edit.Parsed

/-!
# Where a member goes

A member is put in front of the white space before the closing brace of an object, on a line of its
own, and never into a comment.

* `Trivia.split`: white space at the end of a line stands behind the comments;
* `insertMember_layout`: where the text of the member goes.
-/

set_option autoImplicit false

namespace AnyConverter.JsonEdit

open JsonReader (isWs Blank)

/-! ## White space at the end -/

theorem isWhitespace_facts {c : Char} (h : Text.isWhitespace c = true) : c ≠ '/' ∧ c ≠ '*' := by
  refine ⟨?_, ?_⟩ <;> rintro rfl <;> exact absurd h (by decide)

/-- White space on one line is no part of a comment. -/
theorem Trivia.of_whitespace {mode : TriviaMode} {t : List Char} (h : Trivia mode t)
    (hline : '\n' ∉ t) (hblank : ∀ c ∈ t, Text.isWhitespace c = true) :
    Trivia mode [] ∧ Blank t := by
  have hnext : ∀ {c : Char} {t : List Char}, '\n' ∉ c :: t →
      (∀ d ∈ c :: t, Text.isWhitespace d = true) →
      '\n' ∉ t ∧ ∀ d ∈ t, Text.isWhitespace d = true := fun hline hblank =>
    ⟨fun hin => hline (List.mem_cons_of_mem _ hin), fun d hd => hblank d (List.mem_cons_of_mem _ hd)⟩
  induction h with
  | nil => exact ⟨.nil, fun c hc => absurd hc List.not_mem_nil⟩
  | @space c t hc _ ih =>
    obtain ⟨hline', hblank'⟩ := hnext hline hblank
    refine ⟨.nil, fun d hd => ?_⟩
    rcases List.mem_cons.mp hd with rfl | hd
    · exact hc
    · exact (ih hline' hblank').2 d hd
  | openLine _ _ => exact absurd rfl (isWhitespace_facts (hblank '/' List.mem_cons_self)).1
  | openBlock _ _ => exact absurd rfl (isWhitespace_facts (hblank '/' List.mem_cons_self)).1
  | lineEnd _ _ => exact absurd List.mem_cons_self hline
  | lineChar _ _ ih =>
    obtain ⟨hline', hblank'⟩ := hnext hline hblank
    cases (ih hline' hblank').1
  | blockEnd _ _ => exact absurd rfl (isWhitespace_facts (hblank '*' List.mem_cons_self)).2
  | blockChar _ _ ih =>
    obtain ⟨hline', hblank'⟩ := hnext hline hblank
    cases (ih hline' hblank').1

/-- White space at the end of a text, on one line, stands behind the comments. -/
theorem Trivia.split {mode : TriviaMode} {t front blank : List Char} (h : Trivia mode t)
    (ht : t = front ++ blank) (hline : '\n' ∉ blank)
    (hblank : ∀ c ∈ blank, Text.isWhitespace c = true) : Trivia mode front ∧ Blank blank := by
  have hall : ∀ {mode : TriviaMode} {t : List Char}, Trivia mode t → t = blank →
      Trivia mode [] ∧ Blank blank := by
    intro mode t h heq
    subst heq
    exact Trivia.of_whitespace h hline hblank
  have hslash : '/' ∉ blank := fun hin => (isWhitespace_facts (hblank '/' hin)).1 rfl
  have hstar : '*' ∉ blank := fun hin => (isWhitespace_facts (hblank '*' hin)).2 rfl
  induction h generalizing front with
  | nil =>
    obtain ⟨rfl, rfl⟩ := List.append_eq_nil_iff.mp ht.symm
    exact ⟨.nil, fun c hc => absurd hc List.not_mem_nil⟩
  | @space c t hc h ih =>
    cases front with
    | nil => exact hall (.space hc h) ht
    | cons d front =>
      obtain ⟨rfl, hmore⟩ := List.cons.inj ht
      exact (ih hmore).imp_left (.space hc)
  | @openLine t h ih =>
    rcases front with _ | ⟨d, _ | ⟨d', front⟩⟩
    · exact hall (.openLine h) ht
    · have hmore : '/' :: t = blank := (List.cons.inj ht).2
      exact absurd (hmore ▸ List.mem_cons_self) hslash
    · obtain ⟨rfl, hmore⟩ := List.cons.inj ht
      obtain ⟨rfl, hlast⟩ := List.cons.inj hmore
      exact (ih hlast).imp_left .openLine
  | @openBlock t h ih =>
    rcases front with _ | ⟨d, _ | ⟨d', front⟩⟩
    · exact hall (.openBlock h) ht
    · have hmore : '*' :: t = blank := (List.cons.inj ht).2
      exact absurd (hmore ▸ List.mem_cons_self) hstar
    · obtain ⟨rfl, hmore⟩ := List.cons.inj ht
      obtain ⟨rfl, hlast⟩ := List.cons.inj hmore
      exact (ih hlast).imp_left .openBlock
  | @lineEnd t h ih =>
    cases front with
    | nil => exact hall (.lineEnd h) ht
    | cons d front =>
      obtain ⟨rfl, hmore⟩ := List.cons.inj ht
      exact (ih hmore).imp_left .lineEnd
  | @lineChar c t hc h ih =>
    cases front with
    | nil => exact hall (.lineChar hc h) ht
    | cons d front =>
      obtain ⟨rfl, hmore⟩ := List.cons.inj ht
      exact (ih hmore).imp_left (.lineChar hc)
  | @blockEnd t h ih =>
    rcases front with _ | ⟨d, _ | ⟨d', front⟩⟩
    · exact hall (.blockEnd h) ht
    · have hmore : '/' :: t = blank := (List.cons.inj ht).2
      exact absurd (hmore ▸ List.mem_cons_self) hslash
    · obtain ⟨rfl, hmore⟩ := List.cons.inj ht
      obtain ⟨rfl, hlast⟩ := List.cons.inj hmore
      exact (ih hlast).imp_left .blockEnd
  | @blockChar c t hc h ih =>
    cases front with
    | nil => exact hall (.blockChar hc h) ht
    | cons d front =>
      obtain ⟨rfl, hmore⟩ := List.cons.inj ht
      obtain ⟨hfront, hb⟩ := ih hmore
      -- a block comment goes on behind the character
      obtain ⟨e, front, rfl⟩ := List.exists_cons_of_ne_nil hfront.block_ne_nil
      refine ⟨.blockChar ?_ hfront, hb⟩
      have hhead : t.head? = (e :: front).head? := by
        rw [hmore]
        rfl
      rwa [hhead] at hc

/-! ## Lines -/

theorem slice_append (front piece rest : List Char) :
    slice (front ++ piece ++ rest) front.length (front ++ piece).length = piece := by
  unfold slice
  rw [List.take_left, List.drop_left]

theorem splice_append (front piece rest replacement : List Char) :
    splice (front ++ piece ++ rest) front.length (front ++ piece).length replacement =
      front ++ replacement ++ rest := by
  unfold splice
  rw [List.drop_left, List.append_assoc front piece, List.take_left]

theorem splice_at (front rest replacement : List Char) :
    splice (front ++ rest) front.length front.length replacement = front ++ replacement ++ rest := by
  unfold splice
  rw [List.drop_left, List.take_left]

/-- The last characters of a text that pass a test. -/
theorem ends_takeWhile (p : Char → Bool) (text : List Char) :
    ∃ front back, text = front ++ back ∧ (∀ c ∈ back, p c = true) ∧
      (text.reverse.takeWhile p).length = back.length := by
  refine ⟨(text.reverse.dropWhile p).reverse, (text.reverse.takeWhile p).reverse, ?_, ?_, ?_⟩
  · rw [← List.reverse_append, List.takeWhile_append_dropWhile, List.reverse_reverse]
  · intro c hc
    exact List.mem_takeWhile_imp (List.mem_reverse.mp hc)
  · rw [List.length_reverse]

/-- The line a position stands on, up to it. -/
theorem lineStart_append (text rest : List Char) :
    ∃ front line, text = front ++ line ∧ '\n' ∉ line ∧
      lineStart (text ++ rest) text.length = front.length := by
  obtain ⟨front, line, htext, hline, hlength⟩ := ends_takeWhile (· ≠ '\n') text
  refine ⟨front, line, htext, fun hin => ?_, ?_⟩
  · exact absurd (hline '\n' hin) (by decide)
  · unfold lineStart
    rw [List.take_left, hlength, htext, List.length_append]
    omega

theorem blanksBefore_append (text rest : List Char) :
    ∃ front blank, text = front ++ blank ∧ '\n' ∉ blank ∧
      (∀ c ∈ blank, Text.isWhitespace c = true) ∧
      blanksBefore (text ++ rest) text.length = blank.length := by
  obtain ⟨front, line, rfl, hline, hstart⟩ := lineStart_append text rest
  obtain ⟨front', blank, rfl, hblank, hlength⟩ :=
    ends_takeWhile (fun c => c == ' ' || c == '\t' || c == '\r') line
  refine ⟨front ++ front', blank, by simp, fun hin => hline (List.mem_append_right _ hin), ?_, ?_⟩
  · intro c hc
    have hone := hblank c hc
    simp only [Bool.or_eq_true, beq_iff_eq] at hone
    rcases hone with (rfl | rfl) | rfl <;> decide
  · unfold blanksBefore
    rw [hstart, slice_append, hlength]

/-- White space at the end of a text stands behind its last other character. -/
theorem behind_last {text t front blank : List Char} {c : Char}
    (h : text ++ [c] ++ t = front ++ blank) (hc : Text.isWhitespace c = false)
    (hblank : ∀ d ∈ blank, Text.isWhitespace d = true) :
    ∃ t', t = t' ++ blank ∧ front = text ++ [c] ++ t' := by
  rcases List.append_eq_append_iff.mp h with ⟨t', hfront, ht⟩ | ⟨back, hback, hblank'⟩
  · exact ⟨t', ht, hfront⟩
  · rcases List.eq_nil_or_concat back with rfl | ⟨back, d, rfl⟩
    · exact ⟨[], by simpa using hblank'.symm, by simpa using hback.symm⟩
    · have hd : c = d := by
        rw [List.concat_eq_append, ← List.append_assoc] at hback
        exact List.singleton_inj.mp (List.append_inj_right' hback rfl)
      have hin : c ∈ blank := by
        rw [hblank', hd]
        simp
      rw [hblank c hin] at hc
      cases hc

/-! ## Indents -/

theorem isWs_of_isBlank {c : Char} (h : isBlank c = true) : isWs c = true := by
  unfold isBlank at h
  unfold isWs
  grind

theorem blank_lineIndent (text : List Char) (pos : Nat) : Blank (lineIndent text pos) :=
  fun _ hc => isWs_of_isBlank (List.mem_takeWhile_imp hc)

theorem blank_memberIndent (text : List Char) (start : Nat) (members : List Member)
    {unit : List Char} (h : Blank unit) : Blank (memberIndent text start members unit) := by
  have hdeeper : Blank (lineIndent text start ++ unit) := (blank_lineIndent text start).append h
  unfold memberIndent
  split
  · split
    · exact blank_lineIndent _ _
    · exact hdeeper
  · exact hdeeper

theorem blank_indentStep {previous : Option Nat} {lines : List (List Char)} {unit : List Char}
    (h : indentStep previous lines = some unit) : Blank unit := by
  induction lines generalizing previous with
  | nil => cases h
  | cons line lines ih =>
    unfold indentStep at h
    dsimp only at h
    split at h
    · exact ih h
    · split at h
      · split at h
        · cases h
          -- the indent of a line is the blanks it begins with
          have hindent : line.take (line.length - (line.dropWhile isBlank).length) =
              line.takeWhile isBlank := by
            have hline := congrArg List.length (@List.takeWhile_append_dropWhile _ isBlank line)
            rw [List.length_append] at hline
            rw [show line.length - (line.dropWhile isBlank).length =
              (line.takeWhile isBlank).length by omega]
            exact (List.prefix_iff_eq_take.mp (List.takeWhile_prefix isBlank)).symm
          intro c hc
          unfold slice at hc
          rw [hindent] at hc
          exact isWs_of_isBlank (List.mem_takeWhile_imp (List.mem_of_mem_drop hc))
        · exact ih h
      · exact ih h

theorem blank_detectIndentUnit (text : List Char) : Blank (detectIndentUnit text) := by
  unfold detectIndentUnit
  cases hstep : indentStep none ((Text.lines (String.ofList text)).map String.toList) with
  | none => exact (by decide : Blank [' ', ' '])
  | some unit => exact blank_indentStep hstep

theorem blank_newlineOf (text : List Char) : Blank (newlineOf text) := by
  unfold newlineOf
  split
  · decide
  · decide

theorem blank_leadBefore (text : List Char) (pos : Nat) {newline : List Char} (h : Blank newline) :
    Blank (leadBefore text pos newline) := by
  unfold leadBefore
  split
  · exact fun _ hc => absurd hc List.not_mem_nil
  · exact h

/-! ## Where a member goes -/

/-- A text is put in place of the blanks before a closing brace. -/
theorem splice_blanks {text t rest : List Char} {c : Char} (hc : Text.isWhitespace c = false)
    (ht : Trivia .plain t) :
    ∃ front blank, t = front ++ blank ∧ Trivia .plain front ∧ Blank blank ∧
      ∀ inserted, splice (text ++ [c] ++ t ++ rest)
        ((text ++ [c] ++ t).length - blanksBefore (text ++ [c] ++ t ++ rest) (text ++ [c] ++ t).length)
        (text ++ [c] ++ t).length inserted = text ++ [c] ++ front ++ inserted ++ rest := by
  obtain ⟨before, blank, hsplit, hline, hblank, hlength⟩ :=
    blanksBefore_append (text ++ [c] ++ t) rest
  obtain ⟨front, rfl, rfl⟩ := behind_last hsplit hc hblank
  obtain ⟨hfront, hws⟩ := ht.split rfl hline hblank
  refine ⟨front, blank, rfl, hfront, hws, fun inserted => ?_⟩
  have hplace : (text ++ [c] ++ (front ++ blank)).length - blank.length =
      (text ++ [c] ++ front).length := by
    simp only [List.length_append]
    omega
  rw [hlength, hplace, ← List.append_assoc _ front blank]
  exact splice_append _ _ _ _

/-- A text is put on the line of a closing brace, when the brace is the first on it. -/
theorem splice_line {text t rest : List Char} {c : Char} (hc : Text.isWhitespace c = false)
    (ht : Trivia .plain t)
    (hfirst : (slice (text ++ [c] ++ t ++ rest)
      (lineStart (text ++ [c] ++ t ++ rest) (text ++ [c] ++ t).length)
      (text ++ [c] ++ t).length).all Text.isWhitespace = true) :
    ∃ front blank, t = front ++ blank ∧ Trivia .plain front ∧ Blank blank ∧
      ∀ inserted, splice (text ++ [c] ++ t ++ rest)
        (lineStart (text ++ [c] ++ t ++ rest) (text ++ [c] ++ t).length)
        (lineStart (text ++ [c] ++ t ++ rest) (text ++ [c] ++ t).length) inserted =
          text ++ [c] ++ front ++ inserted ++ blank ++ rest := by
  obtain ⟨before, blank, hsplit, hline, hstart⟩ := lineStart_append (text ++ [c] ++ t) rest
  have hslice : slice (text ++ [c] ++ t ++ rest) before.length (text ++ [c] ++ t).length = blank := by
    rw [hsplit]
    exact slice_append _ _ _
  rw [hstart, hslice] at hfirst
  have hblank : ∀ d ∈ blank, Text.isWhitespace d = true := List.all_eq_true.mp hfirst
  obtain ⟨front, rfl, rfl⟩ := behind_last hsplit hc hblank
  obtain ⟨hfront, hws⟩ := ht.split rfl hline hblank
  refine ⟨front, blank, rfl, hfront, hws, fun inserted => ?_⟩
  have hplace := splice_append (text ++ [c] ++ front) [] (blank ++ rest) inserted
  rw [List.append_nil] at hplace
  rw [hstart, ← List.append_assoc _ front blank, List.append_assoc _ blank rest, hplace,
    List.append_assoc _ blank rest]

/-- **Where the text of a member goes**: behind the comments before the closing brace, with white
space around it and a comma behind it when there was one; else one behind the last member. -/
theorem insertMember_layout {text t : List Char} {c : Char} (hc : Text.isWhitespace c = false)
    (ht : Trivia .plain t) {newline unit : List Char} (hnewline : Blank newline) (hunit : Blank unit)
    (rest : List Char) (start : Nat) (members : List Member) (member : List Char) :
    ∃ front blank gap ending, t = front ++ blank ∧ Trivia .plain front ∧ Blank blank ∧ Blank gap ∧
      Blank ending ∧
      insertMember (text ++ [c] ++ t ++ rest) start ((text ++ [c] ++ t).length + 1) members member
          newline unit =
        match members.getLast? with
        | none => text ++ [c] ++ front ++ (gap ++ member ++ ending) ++ rest
        | some last =>
          if (text ++ [c] ++ t ++ rest)[nextSignificant (text ++ [c] ++ t ++ rest) last.value.stop]? =
              some ',' then
            text ++ [c] ++ front ++ (gap ++ member ++ ',' :: ending) ++ rest
          else
            splice (text ++ [c] ++ front ++ (gap ++ member ++ ending) ++ rest)
              last.value.stop last.value.stop [','] := by
  have hindent := blank_memberIndent (text ++ [c] ++ t ++ rest) start members hunit
  have hlead := blank_leadBefore (text ++ [c] ++ t ++ rest) ((text ++ [c] ++ t).length -
    blanksBefore (text ++ [c] ++ t ++ rest) (text ++ [c] ++ t).length) hnewline
  have hclose := blank_lineIndent (text ++ [c] ++ t ++ rest) (text ++ [c] ++ t).length
  unfold insertMember
  dsimp only
  rw [Nat.add_sub_cancel]
  generalize memberIndent (text ++ [c] ++ t ++ rest) start members unit = indent at hindent ⊢
  generalize leadBefore (text ++ [c] ++ t ++ rest) ((text ++ [c] ++ t).length -
    blanksBefore (text ++ [c] ++ t ++ rest) (text ++ [c] ++ t).length) newline = lead at hlead ⊢
  generalize lineIndent (text ++ [c] ++ t ++ rest) (text ++ [c] ++ t).length = closeIndent
    at hclose ⊢
  cases members.getLast? with
  | none =>
    obtain ⟨front, blank, htext, hfront, hblank, hsplice⟩ := @splice_blanks text t rest c hc ht
    refine ⟨front, blank, lead ++ indent, newline ++ closeIndent, htext, hfront, hblank,
      hlead.append hindent, hnewline.append hclose, ?_⟩
    dsimp only
    rw [hsplice]
    simp
  | some last =>
    dsimp only
    by_cases hfirst : (slice (text ++ [c] ++ t ++ rest)
        (lineStart (text ++ [c] ++ t ++ rest) (text ++ [c] ++ t).length)
        (text ++ [c] ++ t).length).all Text.isWhitespace = true
    · obtain ⟨front, blank, htext, hfront, hblank, hsplice⟩ := splice_line hc ht hfirst
      refine ⟨front, blank, indent, newline ++ blank, htext, hfront, hblank, hindent,
        hnewline.append hblank, ?_⟩
      rw [if_pos hfirst, hsplice]
      split <;> simp
    · obtain ⟨front, blank, htext, hfront, hblank, hsplice⟩ := @splice_blanks text t rest c hc ht
      refine ⟨front, blank, lead ++ indent, newline ++ closeIndent, htext, hfront, hblank,
        hlead.append hindent, hnewline.append hclose, ?_⟩
      rw [if_neg hfirst, hsplice]
      split <;> simp

end AnyConverter.JsonEdit
