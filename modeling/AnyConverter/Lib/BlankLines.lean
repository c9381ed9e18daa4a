import AnyConverter.Lib.Text

/-!
# Texts cut at blank lines

The pieces `str::split("\n\n")` cuts a text into, and its blocks: the pieces trimmed, the empty
ones left out.

* `segments_append`: more text only changes the last piece;
* `blocks_blank`: a blank line separates blocks, whatever stands around it;
* `count_blocks`: a character that is no white space is in the blocks as often as in the text;
* `blocks_normalize_iff`: reading `\r\n` and `\r` as line feeds leaves the blocks alone exactly if
  no block holds a carriage return.
-/

set_option autoImplicit false

namespace BlankLines

open Text (isWhitespace)

/-! ## Trimming -/

/-- `str::trim`, on the list of characters. -/
def trimList (cs : List Char) : List Char :=
  ((cs.dropWhile isWhitespace).reverse.dropWhile isWhitespace).reverse

theorem trim_eq (s : String) : Text.trim s = String.ofList (trimList s.toList) := rfl

theorem trimList_cons {c : Char} (h : isWhitespace c = true) (cs : List Char) :
    trimList (c :: cs) = trimList cs := by
  rw [trimList, List.dropWhile_cons_of_pos h, ← trimList]

theorem trimList_concat {c : Char} (h : isWhitespace c = true) (cs : List Char) :
    trimList (cs ++ [c]) = trimList cs := by
  unfold trimList
  rw [List.dropWhile_append]
  split
  · rename_i hnil
    rw [List.isEmpty_iff.mp hnil, List.dropWhile_cons_of_pos h]
    rfl
  · rw [List.reverse_append, List.reverse_singleton, List.singleton_append,
      List.dropWhile_cons_of_pos h]

/-- White space, what is left of the text, white space. -/
theorem trimList_spec (cs : List Char) : ∃ before after,
    cs = before ++ trimList cs ++ after ∧ (∀ c ∈ before, isWhitespace c = true) ∧
      ∀ c ∈ after, isWhitespace c = true := by
  refine ⟨cs.takeWhile isWhitespace,
    ((cs.dropWhile isWhitespace).reverse.takeWhile isWhitespace).reverse, ?_, ?_, ?_⟩
  · rw [List.append_assoc, trimList, ← List.reverse_append, List.takeWhile_append_dropWhile,
      List.reverse_reverse, List.takeWhile_append_dropWhile]
  · exact fun c hc => List.mem_takeWhile_imp hc
  · intro c hc
    exact List.mem_takeWhile_imp (List.mem_reverse.mp hc)

theorem trimList_last {cs : List Char} {c : Char} (h : (trimList cs).getLast? = some c) :
    isWhitespace c = false := by
  rw [trimList, List.getLast?_reverse] at h
  have hnot := List.head?_dropWhile_not isWhitespace (cs.dropWhile isWhitespace).reverse
  rw [h] at hnot
  simpa using hnot

theorem trimList_head {cs : List Char} {c : Char} (h : (trimList cs).head? = some c) :
    isWhitespace c = false := by
  obtain ⟨rest, hrest⟩ := List.dropWhile_suffix isWhitespace
    (l := (cs.dropWhile isWhitespace).reverse)
  have hfront : cs.dropWhile isWhitespace = trimList cs ++ rest.reverse := by
    have hrev := congrArg List.reverse hrest
    rw [List.reverse_append, List.reverse_reverse] at hrev
    exact hrev.symm
  have hnot := List.head?_dropWhile_not isWhitespace cs
  rw [hfront, List.head?_append, h] at hnot
  simpa using hnot

theorem trimList_trimList (cs : List Char) : trimList (trimList cs) = trimList cs := by
  cases hcs : trimList cs with
  | nil => rfl
  | cons c rest =>
    have hhead : isWhitespace c = false := @trimList_head cs c (by rw [hcs]; rfl)
    rw [trimList, List.dropWhile_cons_of_neg (by simp [hhead])]
    cases hrev : (c :: rest).reverse with
    | nil => simp at hrev
    | cons d back =>
      have hlast : isWhitespace d = false := by
        apply @trimList_last cs d
        rw [hcs, ← List.head?_reverse, hrev]
        rfl
      rw [List.dropWhile_cons_of_neg (by simp [hlast]), ← hrev, List.reverse_reverse]

/-- What is left holds every character that is no white space as often as the text. -/
theorem count_trimList {c : Char} (h : isWhitespace c = false) (cs : List Char) :
    (trimList cs).count c = cs.count c := by
  obtain ⟨before, after, heq, hbefore, hafter⟩ := trimList_spec cs
  have hnone (w : List Char) (hw : ∀ d ∈ w, isWhitespace d = true) : w.count c = 0 := by
    apply List.count_eq_zero_of_not_mem
    intro hmem
    rw [hw c hmem] at h
    cases h
  have hcount := congrArg (List.count c) heq
  rw [List.count_append, List.count_append, hnone before hbefore, hnone after hafter] at hcount
  omega

theorem mem_of_mem_trimList {c : Char} {cs : List Char} (h : c ∈ trimList cs) : c ∈ cs := by
  obtain ⟨before, after, heq, -, -⟩ := trimList_spec cs
  rw [heq]
  exact List.mem_append_left _ (List.mem_append_right _ h)

/-! ## Pieces -/

/-- A character in front of the first piece. -/
def consHead (c : Char) : List (List Char) → List (List Char)
  | [] => [[c]]
  | s :: ss => (c :: s) :: ss

/-- `str::split("\n\n")`; there is always at least one piece. -/
def segments : List Char → List (List Char)
  | [] => [[]]
  | '\n' :: '\n' :: rest => [] :: segments rest
  | c :: rest => consHead c (segments rest)

/-- The text begins with a blank line. -/
def BlankAhead (c : Char) (rest : List Char) : Prop := c = '\n' ∧ rest.head? = some '\n'

/-- No blank line anywhere. -/
def NoBlank : List Char → Prop
  | [] => True
  | c :: rest => ¬ BlankAhead c rest ∧ NoBlank rest

theorem segments_cons {c : Char} {rest : List Char} (h : ¬ BlankAhead c rest) :
    segments (c :: rest) = consHead c (segments rest) := by
  apply segments.eq_3
  rintro tail rfl rfl
  exact h ⟨rfl, rfl⟩

theorem segments_ne_nil (cs : List Char) : segments cs ≠ [] := by
  fun_cases segments cs with
  | case1 => exact List.cons_ne_nil _ _
  | case2 rest => exact List.cons_ne_nil _ _
  | case3 c rest =>
    cases segments rest <;> exact List.cons_ne_nil _ _

theorem noBlank_of_append {xs ys : List Char} (h : NoBlank (xs ++ ys)) : NoBlank xs ∧ NoBlank ys := by
  induction xs with
  | nil => exact ⟨trivial, h⟩
  | cons c xs ih =>
    obtain ⟨hhead, hrest⟩ := h
    obtain ⟨hxs, hys⟩ := ih hrest
    refine ⟨⟨?_, hxs⟩, hys⟩
    rintro ⟨hc, hnext⟩
    have happend : (xs ++ ys).head? = some '\n' := by rw [List.head?_append, hnext]; rfl
    exact hhead ⟨hc, happend⟩

theorem segments_of_noBlank {cs : List Char} (h : NoBlank cs) : segments cs = [cs] := by
  induction cs with
  | nil => rfl
  | cons c rest ih => rw [segments_cons h.1, ih h.2, consHead]

/-- The first blank line of a text ends the first piece. -/
theorem segments_split {s : List Char} (h : NoBlank s) (hlast : s.getLast? ≠ some '\n')
    (rest : List Char) : segments (s ++ '\n' :: '\n' :: rest) = s :: segments rest := by
  induction s with
  | nil => rfl
  | cons c s ih =>
    have hblank : ¬ BlankAhead c (s ++ '\n' :: '\n' :: rest) := by
      rintro ⟨hc, hnext⟩
      cases s with
      | nil => exact hlast (by rw [hc]; rfl)
      | cons d s => exact h.1 ⟨hc, hnext⟩
    have hlast' : s.getLast? ≠ some '\n' := by
      intro heq
      apply hlast
      rw [List.getLast?_cons, heq]
      rfl
    rw [List.cons_append, segments_cons hblank, ih h.2 hlast', consHead]

/-- The first blank line as `str::find("\n\n")` finds it. -/
theorem splitList_blank (cs : List Char) :
    (Text.splitList ['\n', '\n'] cs = none ∧ NoBlank cs) ∨
      ∃ s rest, Text.splitList ['\n', '\n'] cs = some (s, rest) ∧
        cs = s ++ '\n' :: '\n' :: rest ∧ NoBlank s ∧ s.getLast? ≠ some '\n' := by
  induction cs with
  | nil => exact Or.inl ⟨rfl, trivial⟩
  | cons c cs ih =>
    by_cases hblank : BlankAhead c cs
    · obtain ⟨rfl, hnext⟩ := hblank
      cases cs with
      | nil => cases hnext
      | cons d tail =>
        cases hnext
        refine Or.inr ⟨[], tail, ?_, rfl, trivial, by simp⟩
        have hstrip : Text.stripList ['\n', '\n'] ('\n' :: '\n' :: tail) = some tail :=
          Text.stripList_append ['\n', '\n'] tail
        rw [Text.splitList, hstrip]
    · have hstrip : Text.stripList ['\n', '\n'] (c :: cs) = none := by
        apply Option.eq_none_iff_forall_ne_some.mpr
        intro rest hrest
        obtain ⟨hc, hcs⟩ := List.cons.inj (Text.stripList_eq_some hrest)
        exact hblank ⟨hc, by rw [hcs]; rfl⟩
      rcases ih with ⟨hnone, hno⟩ | ⟨s, rest, hsome, rfl, hno, hlast⟩
      · refine Or.inl ⟨?_, hblank, hno⟩
        rw [Text.splitList, hstrip, hnone]
        rfl
      · refine Or.inr ⟨c :: s, rest, ?_, rfl, ⟨?_, hno⟩, ?_⟩
        · rw [Text.splitList, hstrip, hsome]
          rfl
        · rintro ⟨hc, hnext⟩
          exact hblank ⟨hc, by rw [List.head?_append, hnext]; rfl⟩
        · cases s with
          | nil =>
            intro hc
            exact hblank ⟨by simpa using hc, rfl⟩
          | cons d s => exact hlast

/-- Either there is no blank line, or the first one ends the first piece. -/
theorem segments_cases (cs : List Char) :
    NoBlank cs ∨ ∃ s rest, cs = s ++ '\n' :: '\n' :: rest ∧ NoBlank s ∧ s.getLast? ≠ some '\n' := by
  rcases splitList_blank cs with ⟨-, hno⟩ | ⟨s, rest, -, hs⟩
  · exact Or.inl hno
  · exact Or.inr ⟨s, rest, hs⟩

/-- To show something of every text, show it of texts without a blank line and of a piece in front
of a text it holds of. -/
@[elab_as_elim] theorem pieces_induction {motive : List Char → Prop}
    (noBlank : ∀ cs, NoBlank cs → motive cs)
    (split : ∀ s rest, NoBlank s → s.getLast? ≠ some '\n' → motive rest →
      motive (s ++ '\n' :: '\n' :: rest)) (cs : List Char) : motive cs := by
  induction hlen : cs.length using Nat.strongRecOn generalizing cs with
  | ind n ih =>
    rcases segments_cases cs with hno | ⟨s, rest, rfl, hno, hlast⟩
    · exact noBlank cs hno
    · have hshort : rest.length < n := by
        rw [← hlen, List.length_append, List.length_cons, List.length_cons]
        omega
      exact split s rest hno hlast (ih rest.length hshort rest rfl)

/-- More text only changes the last piece. -/
theorem segments_append {cs b : List Char} {before : List (List Char)}
    (h : segments cs = before ++ [b]) (more : List Char) :
    segments (cs ++ more) = before ++ segments (b ++ more) := by
  induction before generalizing cs with
  | nil =>
    rcases segments_cases cs with hno | ⟨s, rest, rfl, hno, hlast⟩
    · rw [segments_of_noBlank hno] at h
      obtain rfl := List.singleton_inj.mp h
      rfl
    · rw [segments_split hno hlast] at h
      exact absurd (List.cons.inj h).2 (segments_ne_nil rest)
  | cons first before ih =>
    rcases segments_cases cs with hno | ⟨s, rest, rfl, hno, hlast⟩
    · rw [segments_of_noBlank hno] at h
      have hlength := congrArg List.length h
      simp at hlength
    · rw [segments_split hno hlast] at h
      obtain ⟨rfl, hrest⟩ := List.cons.inj h
      have hmore := ih hrest
      rw [List.append_assoc, List.cons_append, List.cons_append, segments_split hno hlast, hmore,
        List.cons_append]

/-- The pieces of a text with its last one apart. -/
theorem segments_last (cs : List Char) :
    ∃ before b, segments cs = before ++ [b] ∧ NoBlank b := by
  induction cs using pieces_induction with
  | noBlank cs hno => exact ⟨[], cs, segments_of_noBlank hno, hno⟩
  | split s rest hno hlast ih =>
    obtain ⟨before, b, hseg, hb⟩ := ih
    exact ⟨s :: before, b, by rw [segments_split hno hlast, hseg]; rfl, hb⟩

theorem segments_of_last {cs b : List Char} {before : List (List Char)}
    (h : segments cs = before ++ [b]) : segments b = [b] := by
  obtain ⟨before', b', hseg, hno⟩ := segments_last cs
  rw [h] at hseg
  obtain ⟨-, hb⟩ := List.append_inj' hseg rfl
  obtain rfl := List.singleton_inj.mp hb
  exact segments_of_noBlank hno

/-! ## Blocks -/

/-- The pieces trimmed, the empty ones left out. -/
def clean (pieces : List (List Char)) : List (List Char) := (pieces.map trimList).filter (· ≠ [])

def blocks (cs : List Char) : List (List Char) := clean (segments cs)

theorem clean_append (xs ys : List (List Char)) : clean (xs ++ ys) = clean xs ++ clean ys := by
  simp [clean]

theorem clean_cons (s : List Char) (ss : List (List Char)) :
    clean (s :: ss) = clean [s] ++ clean ss := clean_append [s] ss

theorem clean_singleton_congr {s t : List Char} (h : trimList s = trimList t) :
    clean [s] = clean [t] := by
  simp [clean, h]

theorem blocks_of_noBlank {cs : List Char} (h : NoBlank cs) : blocks cs = clean [cs] := by
  rw [blocks, segments_of_noBlank h]

theorem blocks_blank_cons (cs : List Char) : blocks ('\n' :: '\n' :: cs) = blocks cs := by
  show clean ([] :: segments cs) = _
  rw [clean_cons]
  rfl

theorem blocks_cons_of_not_blank {c : Char} {cs : List Char} (hc : isWhitespace c = true)
    (h : ¬ BlankAhead c cs) : blocks (c :: cs) = blocks cs := by
  rw [blocks, segments_cons h, blocks]
  cases hseg : segments cs with
  | nil => exact absurd hseg (segments_ne_nil cs)
  | cons s ss => rw [consHead, clean_cons, clean_cons s, clean_singleton_congr (trimList_cons hc s)]

/-- White space in front of a text is in no block. -/
theorem blocks_cons {c : Char} (h : isWhitespace c = true) (cs : List Char) :
    blocks (c :: cs) = blocks cs := by
  induction cs with
  | nil => exact blocks_cons_of_not_blank h fun hblank => by cases hblank.2
  | cons d tail ih =>
    by_cases hblank : BlankAhead c (d :: tail)
    · obtain ⟨rfl, hnext⟩ := hblank
      cases hnext
      rw [blocks_blank_cons, ih]
    · exact blocks_cons_of_not_blank h hblank

theorem blocks_whitespace_append {w : List Char} (h : ∀ c ∈ w, isWhitespace c = true)
    (cs : List Char) : blocks (w ++ cs) = blocks cs := by
  induction w with
  | nil => rfl
  | cons c w ih =>
    rw [List.cons_append, blocks_cons (h c List.mem_cons_self),
      ih fun d hd => h d (List.mem_cons_of_mem _ hd)]

/-- A text without a blank line in front of one. -/
theorem blocks_noBlank_blank {b : List Char} (h : NoBlank b) (more : List Char) :
    blocks (b ++ '\n' :: '\n' :: more) = clean [b] ++ blocks more := by
  by_cases hlast : b.getLast? = some '\n'
  · obtain ⟨s, rfl⟩ : ∃ s, b = s ++ ['\n'] := by
      obtain ⟨hne, heq⟩ := List.getLast?_eq_some_iff.mp hlast
      exact ⟨hne, heq⟩
    have hno := (noBlank_of_append h).1
    have hs : s.getLast? ≠ some '\n' := by
      intro hs
      obtain ⟨t, rfl⟩ := List.getLast?_eq_some_iff.mp hs
      rw [List.append_assoc] at h
      exact (noBlank_of_append h).2.1 ⟨rfl, rfl⟩
    have hsplit := segments_split hno hs ('\n' :: more)
    rw [List.append_assoc]
    show clean (segments (s ++ '\n' :: '\n' :: '\n' :: more)) = _
    rw [hsplit, clean_cons, clean_singleton_congr (trimList_concat (by decide) s)]
    exact congrArg _ (blocks_cons (by decide) more)
  · rw [blocks, segments_split h hlast, clean_cons]
    rfl

/-- A blank line separates blocks. -/
theorem blocks_blank (cs more : List Char) :
    blocks (cs ++ '\n' :: '\n' :: more) = blocks cs ++ blocks more := by
  obtain ⟨before, b, hseg, hb⟩ := segments_last cs
  have hwhole : blocks cs = clean before ++ clean [b] := by rw [blocks, hseg, clean_append]
  have hmore := blocks_noBlank_blank hb more
  rw [blocks] at hmore
  rw [blocks, segments_append hseg, clean_append, hmore, hwhole, List.append_assoc]

theorem noBlank_concat {cs : List Char} {c : Char} (h : NoBlank cs)
    (hlast : c = '\n' → cs.getLast? ≠ some '\n') : NoBlank (cs ++ [c]) := by
  induction cs with
  | nil =>
    refine ⟨?_, trivial⟩
    rintro ⟨-, hnext⟩
    cases hnext
  | cons d cs ih =>
    have hlast' : c = '\n' → cs.getLast? ≠ some '\n' := by
      intro hc heq
      apply hlast hc
      rw [List.getLast?_cons, heq]
      rfl
    refine ⟨?_, ih h.2 hlast'⟩
    rintro ⟨hd, hnext⟩
    cases cs with
    | nil =>
      have hc : c = '\n' := by simpa using hnext
      exact hlast hc (by rw [hd]; rfl)
    | cons e cs => exact h.1 ⟨hd, hnext⟩

/-- White space behind a text is in no block. -/
theorem blocks_concat {c : Char} (h : isWhitespace c = true) (cs : List Char) :
    blocks (cs ++ [c]) = blocks cs := by
  obtain ⟨before, b, hseg, hb⟩ := segments_last cs
  have hpiece : clean (segments (b ++ [c])) = clean [b] := by
    by_cases hlast : c = '\n' → b.getLast? ≠ some '\n'
    · rw [segments_of_noBlank (noBlank_concat hb hlast),
        clean_singleton_congr (trimList_concat h b)]
    · obtain ⟨rfl, hb'⟩ : c = '\n' ∧ b.getLast? = some '\n' := by
        simpa using hlast
      obtain ⟨s, rfl⟩ := List.getLast?_eq_some_iff.mp hb'
      rw [List.append_assoc]
      show blocks (s ++ '\n' :: '\n' :: []) = _
      rw [blocks_noBlank_blank (noBlank_of_append hb).1, clean_singleton_congr (trimList_concat h s)]
      exact List.append_nil _
  have hwhole : blocks cs = clean before ++ clean [b] := by rw [blocks, hseg, clean_append]
  rw [blocks, segments_append hseg, clean_append, hpiece, hwhole]

theorem blocks_append_whitespace {w : List Char} (h : ∀ c ∈ w, isWhitespace c = true)
    (cs : List Char) : blocks (cs ++ w) = blocks cs := by
  induction w generalizing cs with
  | nil => rw [List.append_nil]
  | cons c w ih =>
    rw [List.append_cons, ih fun d hd => h d (List.mem_cons_of_mem _ hd),
      blocks_concat (h c List.mem_cons_self)]

theorem blocks_whitespace {w : List Char} (h : ∀ c ∈ w, isWhitespace c = true) : blocks w = [] := by
  have happend := blocks_whitespace_append h []
  rw [List.append_nil] at happend
  exact happend

/-- The blocks hold every character that is no white space as often as the text. -/
theorem count_blocks {c : Char} (h : isWhitespace c = false) (cs : List Char) :
    (blocks cs).flatten.count c = cs.count c := by
  have hc : c ≠ '\n' := by
    rintro rfl
    cases h
  have hpiece (s : List Char) : (clean [s]).flatten.count c = s.count c := by
    rw [← count_trimList h s, clean, List.map_singleton]
    by_cases hnil : trimList s = []
    · rw [List.filter_cons_of_neg (by simpa using hnil), hnil]
      rfl
    · rw [List.filter_cons_of_pos (by simpa using hnil)]
      simp
  induction cs using pieces_induction with
  | noBlank cs hno => rw [blocks_of_noBlank hno, hpiece]
  | split s rest hno _ ih =>
    rw [blocks_noBlank_blank hno, List.flatten_append, List.count_append, hpiece, ih,
      List.count_append, List.count_cons_of_ne hc.symm, List.count_cons_of_ne hc.symm]

theorem mem_clean_singleton {s block : List Char} :
    block ∈ clean [s] ↔ block = trimList s ∧ trimList s ≠ [] := by
  rw [clean, List.map_singleton, List.mem_filter, List.mem_singleton]
  constructor
  · rintro ⟨rfl, hne⟩
    exact ⟨rfl, by simpa using hne⟩
  · rintro ⟨rfl, hne⟩
    exact ⟨rfl, by simpa using hne⟩

theorem mem_of_mem_blocks {c : Char} {block cs : List Char} (hblock : block ∈ blocks cs)
    (h : c ∈ block) : c ∈ cs := by
  induction cs using pieces_induction with
  | noBlank cs hno =>
    rw [blocks_of_noBlank hno] at hblock
    rw [(mem_clean_singleton.mp hblock).1] at h
    exact mem_of_mem_trimList h
  | split s rest hno _ ih =>
    rw [blocks_noBlank_blank hno] at hblock
    rcases List.mem_append.mp hblock with hs | hrest
    · rw [(mem_clean_singleton.mp hs).1] at h
      exact List.mem_append_left _ (mem_of_mem_trimList h)
    · exact List.mem_append_right _ (List.mem_cons_of_mem _ (List.mem_cons_of_mem _ (ih hrest)))

/-! ## Carriage returns -/

/-- `str::replace("\r\n", "\n")`. -/
def joinCrlf : List Char → List Char
  | [] => []
  | '\r' :: '\n' :: rest => '\n' :: joinCrlf rest
  | c :: rest => c :: joinCrlf rest

/-- Every line end as a line feed. -/
def normalize (cs : List Char) : List Char :=
  (joinCrlf cs).map fun c => if c = '\r' then '\n' else c

theorem not_mem_normalize (cs : List Char) : '\r' ∉ normalize cs := by
  intro h
  obtain ⟨c, -, hc⟩ := List.mem_map.mp h
  split at hc
  · cases hc
  · contradiction

/-- A carriage return and a line feed stand side by side. -/
def CrlfAhead (c : Char) (rest : List Char) : Prop := c = '\r' ∧ rest.head? = some '\n'

theorem normalize_crlf (rest : List Char) :
    normalize ('\r' :: '\n' :: rest) = '\n' :: normalize rest := rfl

theorem normalize_cons {c : Char} {rest : List Char} (h : ¬ CrlfAhead c rest) :
    normalize (c :: rest) = (if c = '\r' then '\n' else c) :: normalize rest := by
  have hjoin : joinCrlf (c :: rest) = c :: joinCrlf rest := by
    apply joinCrlf.eq_3
    rintro tail rfl rfl
    exact h ⟨rfl, rfl⟩
  rw [normalize, hjoin, List.map_cons, ← normalize]

theorem getLast?_of_tail {c d : Char} {cs : List Char} (h : cs.getLast? = some d) :
    (c :: cs).getLast? = some d := by
  rw [List.getLast?_cons, h]
  rfl

/-- Reading line ends changes no other character. -/
theorem count_normalize {c : Char} (hr : c ≠ '\r') (hn : c ≠ '\n') (cs : List Char) :
    (normalize cs).count c = cs.count c := by
  fun_induction joinCrlf cs with
  | case1 => rfl
  | case2 rest ih =>
    rw [normalize_crlf, List.count_cons_of_ne hn.symm, ih, List.count_cons_of_ne hr.symm,
      List.count_cons_of_ne hn.symm]
  | case3 d rest hnot ih =>
    have hcrlf : ¬ CrlfAhead d rest := by
      rintro ⟨rfl, hnext⟩
      cases rest with
      | nil => cases hnext
      | cons e tail =>
        cases hnext
        exact hnot tail rfl rfl
    rw [normalize_cons hcrlf, List.count_cons, List.count_cons, ih]
    by_cases hd : d = '\r'
    · rw [if_pos hd, hd]
      simp [hr.symm, hn.symm]
    · rw [if_neg hd]

/-- A text and what follows it are normalized apart, unless they meet between a carriage return
and its line feed. -/
theorem normalize_append {xs ys : List Char}
    (h : xs.getLast? = some '\r' → ys.head? ≠ some '\n') :
    normalize (xs ++ ys) = normalize xs ++ normalize ys := by
  fun_induction joinCrlf xs with
  | case1 => rfl
  | case2 rest ih =>
    have htail := ih fun hlast => h (getLast?_of_tail (getLast?_of_tail hlast))
    rw [List.cons_append, List.cons_append, normalize_crlf, normalize_crlf, htail, List.cons_append]
  | case3 c rest hnot ih =>
    have htail := ih fun hlast => h (getLast?_of_tail hlast)
    have hcrlf : ¬ CrlfAhead c rest := by
      rintro ⟨rfl, hnext⟩
      cases rest with
      | nil => cases hnext
      | cons d tail =>
        cases hnext
        exact hnot tail rfl rfl
    have hcrlf' : ¬ CrlfAhead c (rest ++ ys) := by
      rintro ⟨hc, hnext⟩
      cases rest with
      | nil => exact h (by rw [hc]; rfl) hnext
      | cons d tail => exact hcrlf ⟨hc, hnext⟩
    rw [List.cons_append, normalize_cons hcrlf', normalize_cons hcrlf, htail, List.cons_append]

theorem normalize_of_not_mem {cs : List Char} (h : '\r' ∉ cs) : normalize cs = cs := by
  induction cs with
  | nil => rfl
  | cons c cs ih =>
    have hc : c ≠ '\r' := fun heq => h (by rw [heq]; exact List.mem_cons_self)
    rw [normalize_cons fun hcrlf => hc hcrlf.1, if_neg hc,
      ih fun hmem => h (List.mem_cons_of_mem _ hmem)]

theorem whitespace_normalize {w : List Char} (h : ∀ c ∈ w, isWhitespace c = true) :
    ∀ c ∈ normalize w, isWhitespace c = true := by
  fun_induction joinCrlf w with
  | case1 => exact fun c hc => absurd hc List.not_mem_nil
  | case2 rest ih =>
    have htail := ih fun c hc => h c (List.mem_cons_of_mem _ (List.mem_cons_of_mem _ hc))
    rw [normalize_crlf]
    exact List.forall_mem_cons.mpr ⟨by decide, htail⟩
  | case3 c rest hnot ih =>
    have htail := ih fun d hd => h d (List.mem_cons_of_mem _ hd)
    have hcrlf : ¬ CrlfAhead c rest := by
      rintro ⟨rfl, hnext⟩
      cases rest with
      | nil => cases hnext
      | cons d tail =>
        cases hnext
        exact hnot tail rfl rfl
    rw [normalize_cons hcrlf]
    refine List.forall_mem_cons.mpr ⟨?_, htail⟩
    split
    · decide
    · exact h c List.mem_cons_self

theorem not_crlfAhead_lf (rest : List Char) : ¬ CrlfAhead '\n' rest := by
  rintro ⟨hc, -⟩
  exact absurd hc (by decide)

/-- A blank line separates blocks of the normalized text too. -/
theorem blocks_normalize_blank (cs more : List Char) :
    blocks (normalize (cs ++ '\n' :: '\n' :: more)) =
      blocks (normalize cs) ++ blocks (normalize more) := by
  have hblank : normalize ('\n' :: '\n' :: more) = '\n' :: '\n' :: normalize more := by
    rw [normalize_cons (not_crlfAhead_lf _), normalize_cons (not_crlfAhead_lf _)]
    rfl
  by_cases hlast : cs.getLast? = some '\r'
  · -- the carriage return joins the first line feed of the blank line
    obtain ⟨s, rfl⟩ := List.getLast?_eq_some_iff.mp hlast
    have hpair : normalize ('\r' :: '\n' :: '\n' :: more) = '\n' :: '\n' :: normalize more := by
      rw [normalize_crlf, normalize_cons (not_crlfAhead_lf _)]
      rfl
    have hend : normalize (s ++ ['\r']) = normalize s ++ ['\n'] :=
      normalize_append fun _ => by decide
    have hfront : normalize (s ++ '\r' :: '\n' :: '\n' :: more) =
        normalize s ++ normalize ('\r' :: '\n' :: '\n' :: more) := by
      apply normalize_append
      rintro - hnext
      exact absurd hnext (by simp)
    rw [List.append_assoc, List.singleton_append, hfront, hpair, blocks_blank, hend,
      blocks_concat (by decide)]
  · rw [normalize_append fun h => absurd h hlast, hblank, blocks_blank]

/-- A text whose carriage returns are all trimmed away. -/
theorem blocks_normalize_of_trim {s : List Char} (hcr : '\r' ∉ trimList s) :
    blocks (normalize s) = blocks s := by
  obtain ⟨before, after, heq, hbefore, hafter⟩ := trimList_spec s
  generalize hcore : trimList s = core at hcr heq
  cases core with
  | nil =>
    have hwhite : ∀ c ∈ s, isWhitespace c = true := by
      rw [heq, List.append_nil]
      intro c hc
      rcases List.mem_append.mp hc with hc | hc
      · exact hbefore c hc
      · exact hafter c hc
    rw [blocks_whitespace hwhite, blocks_whitespace (whitespace_normalize hwhite)]
  | cons c rest =>
    have hhead : isWhitespace c = false := @trimList_head s c (by rw [hcore]; rfl)
    have hfront : (before.getLast? = some '\r' → (c :: rest).head? ≠ some '\n') := by
      rintro - hnext
      cases hnext
      cases hhead
    have hback : ((before ++ c :: rest).getLast? = some '\r' → after.head? ≠ some '\n') := by
      intro hlast
      have hmem : '\r' ∈ c :: rest := by
        have hsome : (c :: rest).getLast? ≠ none := by simp
        obtain ⟨d, hd⟩ := Option.ne_none_iff_exists'.mp hsome
        rw [List.getLast?_append, hd, Option.some_or] at hlast
        obtain rfl := Option.some.inj hlast
        exact List.mem_of_getLast? hd
      exact absurd hmem hcr
    rw [heq, normalize_append hback, normalize_append hfront, normalize_of_not_mem hcr,
      blocks_append_whitespace (whitespace_normalize hafter),
      blocks_whitespace_append (whitespace_normalize hbefore), blocks_append_whitespace hafter,
      blocks_whitespace_append hbefore]

/-- Line ends do not matter exactly if no block holds a carriage return. -/
theorem blocks_normalize_iff (cs : List Char) :
    blocks cs = blocks (normalize cs) ↔ ∀ block ∈ blocks cs, '\r' ∉ block := by
  constructor
  · intro heq block hblock hmem
    rw [heq] at hblock
    exact not_mem_normalize cs (mem_of_mem_blocks hblock hmem)
  · intro h
    induction cs using pieces_induction with
    | noBlank cs hno =>
      by_cases hnil : trimList cs = []
      · exact (blocks_normalize_of_trim (by rw [hnil]; exact List.not_mem_nil)).symm
      · have hmem : trimList cs ∈ blocks cs := by
          rw [blocks_of_noBlank hno]
          exact mem_clean_singleton.mpr ⟨rfl, hnil⟩
        exact (blocks_normalize_of_trim (h _ hmem)).symm
    | split s rest hno hlast ih =>
      rw [blocks_noBlank_blank hno] at h
      have hrest := ih fun block hblock => h block (List.mem_append_right _ hblock)
      have hs : blocks (normalize s) = blocks s := by
        apply blocks_normalize_of_trim
        intro hmem
        have hne : trimList s ≠ [] := List.ne_nil_of_mem hmem
        exact h _ (List.mem_append_left _ (mem_clean_singleton.mpr ⟨rfl, hne⟩)) hmem
      rw [blocks_normalize_blank, hs, ← hrest, blocks_noBlank_blank hno, blocks_of_noBlank hno]

end BlankLines
