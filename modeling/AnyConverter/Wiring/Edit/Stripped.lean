import AnyConverter.Lib.JsonReader
import AnyConverter.Wiring.Edit.Jsonc

/-!
# What stripping leaves of a text

White space and comments become white space, a comma before a closing bracket does too, and
everything else stays.

* `strip_trivia`, `strip_plain`, `strip_literal`, `strip_comma`: piece by piece;
* `trivia_of_skipWs`: what stands before the next character that stays.
-/

set_option autoImplicit false

namespace AnyConverter.JsonEdit

open JsonReader (isWs skipWs atomChar literalLength Blank)

/-! ## White space and comments -/

/-- White space and comments, from a mode on; every comment ends. -/
inductive Trivia : TriviaMode → List Char → Prop
  | nil : Trivia .plain []
  | space {c t} : isWs c = true → Trivia .plain t → Trivia .plain (c :: t)
  | openLine {t} : Trivia .line t → Trivia .plain ('/' :: '/' :: t)
  | openBlock {t} : Trivia .block t → Trivia .plain ('/' :: '*' :: t)
  | lineEnd {t} : Trivia .plain t → Trivia .line ('\n' :: t)
  | lineChar {c t} : c ≠ '\n' → Trivia .line t → Trivia .line (c :: t)
  | blockEnd {t} : Trivia .plain t → Trivia .block ('*' :: '/' :: t)
  | blockChar {c t} : ¬(c = '*' ∧ t.head? = some '/') → Trivia .block t → Trivia .block (c :: t)

def stripModeOf : TriviaMode → StripMode
  | .plain => .code
  | .line => .line
  | .block => .block

theorem isSpace_of_isWs {c : Char} (h : isWs c = true) : isSpace c = true := by
  unfold isWs at h
  unfold isSpace
  grind

theorem trivia_of_blank {cs : List Char} (h : Blank cs) : Trivia .plain cs := by
  induction cs with
  | nil => exact .nil
  | cons c cs ih =>
    exact .space (h c List.mem_cons_self) (ih fun d hd => h d (List.mem_cons_of_mem _ hd))

theorem Trivia.block_ne_nil {t : List Char} (h : Trivia .block t) : t ≠ [] := by
  cases h <;> exact List.cons_ne_nil _ _

theorem Trivia.append {mode : TriviaMode} {t t' : List Char} (h : Trivia mode t)
    (h' : Trivia .plain t') : Trivia mode (t ++ t') := by
  induction h with
  | nil => exact h'
  | space hc _ ih => exact .space hc ih
  | openLine _ ih => exact .openLine ih
  | openBlock _ ih => exact .openBlock ih
  | lineEnd _ ih => exact .lineEnd ih
  | lineChar hc _ ih => exact .lineChar hc ih
  | blockEnd _ ih => exact .blockEnd ih
  | @blockChar c t hc ht ih =>
    refine .blockChar ?_ ih
    obtain ⟨d, t, rfl⟩ := List.exists_cons_of_ne_nil ht.block_ne_nil
    exact hc

/-! ## Comments -/

/-- Comments leave white space of their length. -/
theorem blankComments_trivia {mode : TriviaMode} {t : List Char} (h : Trivia mode t) :
    ∃ blank, Blank blank ∧ blank.length = t.length ∧ ∀ rest,
      blankComments (stripModeOf mode) (t ++ rest) = blank ++ blankComments .code rest := by
  have hcons : ∀ {c : Char} {blank : List Char}, isWs c = true → Blank blank → Blank (c :: blank) := by
    intro c blank hc hblank d hd
    rcases List.mem_cons.mp hd with rfl | hd
    · exact hc
    · exact hblank d hd
  induction h with
  | nil => exact ⟨[], fun _ hc => absurd hc List.not_mem_nil, rfl, fun _ => rfl⟩
  | @space c t hc ht ih =>
    obtain ⟨blank, hblank, hlength, heq⟩ := ih
    refine ⟨c :: blank, hcons hc hblank, by simp [hlength], fun rest => ?_⟩
    have hslash : c ≠ '/' := by
      rintro rfl
      exact absurd hc (by decide)
    have hquote : c ≠ '"' := by
      rintro rfl
      exact absurd hc (by decide)
    have hstep : blankComments .code (c :: (t ++ rest)) = c :: blankComments .code (t ++ rest) := by
      rw [blankComments.eq_def]
      simp [hslash, hquote]
    exact hstep.trans (congrArg (c :: ·) (heq rest))
  | @openLine t ht ih =>
    obtain ⟨blank, hblank, hlength, heq⟩ := ih
    refine ⟨' ' :: ' ' :: blank, hcons (by decide) (hcons (by decide) hblank), by simp [hlength],
      fun rest => ?_⟩
    exact congrArg (fun x => ' ' :: ' ' :: x) (heq rest)
  | @openBlock t ht ih =>
    obtain ⟨blank, hblank, hlength, heq⟩ := ih
    refine ⟨' ' :: ' ' :: blank, hcons (by decide) (hcons (by decide) hblank), by simp [hlength],
      fun rest => ?_⟩
    exact congrArg (fun x => ' ' :: ' ' :: x) (heq rest)
  | @lineEnd t ht ih =>
    obtain ⟨blank, hblank, hlength, heq⟩ := ih
    refine ⟨'\n' :: blank, hcons (by decide) hblank, by simp [hlength], fun rest => ?_⟩
    exact congrArg ('\n' :: ·) (heq rest)
  | @lineChar c t hc ht ih =>
    obtain ⟨blank, hblank, hlength, heq⟩ := ih
    refine ⟨(if c = '\r' then '\r' else ' ') :: blank, hcons ?_ hblank, by simp [hlength],
      fun rest => ?_⟩
    · split <;> decide
    · have hstep : blankComments .line (c :: (t ++ rest)) =
          (if c = '\r' then '\r' else ' ') :: blankComments .line (t ++ rest) := by
        rw [blankComments.eq_def]
        simp [hc]
      exact hstep.trans (congrArg (_ :: ·) (heq rest))
  | @blockEnd t ht ih =>
    obtain ⟨blank, hblank, hlength, heq⟩ := ih
    refine ⟨' ' :: ' ' :: blank, hcons (by decide) (hcons (by decide) hblank), by simp [hlength],
      fun rest => ?_⟩
    exact congrArg (fun x => ' ' :: ' ' :: x) (heq rest)
  | @blockChar c t hc ht ih =>
    obtain ⟨blank, hblank, hlength, heq⟩ := ih
    refine ⟨(if c = '\n' ∨ c = '\r' then c else ' ') :: blank, hcons ?_ hblank, by simp [hlength],
      fun rest => ?_⟩
    · split
      · rename_i h
        rcases h with rfl | rfl <;> decide
      · decide
    · obtain ⟨d, t, rfl⟩ := List.exists_cons_of_ne_nil ht.block_ne_nil
      have hstep : blankComments .block (c :: (d :: t ++ rest)) =
          (if c = '\n' ∨ c = '\r' then c else ' ') :: blankComments .block (d :: t ++ rest) := by
        rw [blankComments.eq_def]
        have hnot : ¬(c = '*' ∧ d = '/') := by simpa using hc
        split <;> simp_all
      exact hstep.trans (congrArg (_ :: ·) (heq rest))

/-! ## Piece by piece -/

theorem closes_blank {blank : List Char} (h : Blank blank) (cs : List Char) :
    closes (blank ++ cs) = closes cs := by
  induction blank with
  | nil => rfl
  | cons c blank ih =>
    have hc := isSpace_of_isWs (h c List.mem_cons_self)
    have hrest := ih fun d hd => h d (List.mem_cons_of_mem _ hd)
    rw [← hrest]
    unfold closes
    rw [List.cons_append, List.dropWhile_cons_of_pos hc]

theorem blankTrailingCommas_blank {blank : List Char} (h : Blank blank) (cs : List Char) :
    blankTrailingCommas .code (blank ++ cs) = blank ++ blankTrailingCommas .code cs := by
  induction blank with
  | nil => rfl
  | cons c blank ih =>
    have hc := h c List.mem_cons_self
    have hquote : c ≠ '"' := by
      rintro rfl
      exact absurd hc (by decide)
    have hcomma : c ≠ ',' := by
      rintro rfl
      exact absurd hc (by decide)
    have hrest := ih fun d hd => h d (List.mem_cons_of_mem _ hd)
    rw [List.cons_append, blankTrailingCommas.eq_def]
    simp [hquote, hcomma, hrest]

/-- White space and comments leave white space. -/
theorem strip_trivia {t : List Char} (h : Trivia .plain t) :
    ∃ blank, Blank blank ∧ blank.length = t.length ∧ ∀ rest,
      stripJsonc (t ++ rest) = blank ++ stripJsonc rest ∧
        closes (blankComments .code (t ++ rest)) = closes (blankComments .code rest) := by
  obtain ⟨blank, hblank, hlength, heq⟩ := blankComments_trivia h
  refine ⟨blank, hblank, hlength, fun rest => ?_⟩
  have hrest : blankComments .code (t ++ rest) = blank ++ blankComments .code rest := heq rest
  unfold stripJsonc
  rw [hrest, blankTrailingCommas_blank hblank, closes_blank hblank]
  exact ⟨rfl, rfl⟩

theorem skipWs_strip_trivia {t : List Char} (h : Trivia .plain t) (rest : List Char) :
    skipWs (stripJsonc (t ++ rest)) = skipWs (stripJsonc rest) := by
  obtain ⟨blank, hblank, -, heq⟩ := strip_trivia h
  rw [(heq rest).1, JsonReader.skipWs_append hblank]

/-- A character that begins nothing. -/
def IsPlain (c : Char) : Prop := c ≠ '"' ∧ c ≠ '/' ∧ c ≠ ','

instance (c : Char) : Decidable (IsPlain c) := inferInstanceAs (Decidable (_ ∧ _))

theorem blankComments_plain {c : Char} (h : c ≠ '"' ∧ c ≠ '/') (rest : List Char) :
    blankComments .code (c :: rest) = c :: blankComments .code rest := by
  rw [blankComments.eq_def]
  simp [h.1, h.2]

theorem strip_plain {c : Char} (h : IsPlain c) (rest : List Char) :
    stripJsonc (c :: rest) = c :: stripJsonc rest := by
  obtain ⟨hquote, hslash, hcomma⟩ := h
  unfold stripJsonc
  rw [blankComments_plain ⟨hquote, hslash⟩, blankTrailingCommas.eq_def]
  simp [hquote, hcomma]

theorem closes_plain {c : Char} (h : c ≠ '"' ∧ c ≠ '/') (hspace : isSpace c = false)
    (rest : List Char) :
    closes (blankComments .code (c :: rest)) = (c == '\x7d' || c == ']') := by
  rw [blankComments_plain h]
  unfold closes
  rw [List.dropWhile_cons_of_neg (by simp [hspace])]

theorem closes_quote (rest : List Char) : closes (blankComments .code ('"' :: rest)) = false := by
  have hstep : blankComments .code ('"' :: rest) = '"' :: blankComments .string rest := by
    rw [blankComments.eq_def]
    simp
  rw [hstep]
  rfl

theorem strip_comma (rest : List Char) :
    stripJsonc (',' :: rest) =
      (if closes (blankComments .code rest) then ' ' else ',') :: stripJsonc rest := by
  unfold stripJsonc
  rw [blankComments_plain (by decide), blankTrailingCommas.eq_def]
  simp

theorem isPlain_atomChar {c : Char} (h : atomChar c = true) : IsPlain c := by
  refine ⟨?_, ?_, ?_⟩ <;> rintro rfl <;> exact absurd h (by decide)

theorem strip_atom {token : List Char} (h : ∀ c ∈ token, atomChar c = true) (rest : List Char) :
    stripJsonc (token ++ rest) = token ++ stripJsonc rest := by
  induction token with
  | nil => rfl
  | cons c token ih =>
    have hc := isPlain_atomChar (h c List.mem_cons_self)
    rw [List.cons_append, strip_plain hc, ih fun d hd => h d (List.mem_cons_of_mem _ hd)]
    rfl

/-! ## String literals -/

def stringModeOf (escaped : Bool) : StripMode := if escaped then .escaped else .string

/-- Inside a string literal both passes leave every character, up to the closing quote. -/
theorem strip_inside {escaped : Bool} {body : List Char}
    (h : literalLength escaped body = some body.length) (rest : List Char) :
    blankTrailingCommas (stringModeOf escaped)
        (blankComments (stringModeOf escaped) (body ++ rest)) = body ++ stripJsonc rest := by
  induction body generalizing escaped with
  | nil => cases escaped <;> cases h
  | cons c body ih =>
    have hnext : ∀ escaped : Bool,
        (literalLength escaped body).map (· + 1) = some (c :: body).length →
        literalLength escaped body = some body.length := by
      intro escaped hmap
      obtain ⟨n, hn, hlength⟩ := Option.map_eq_some_iff.mp hmap
      rw [hn, show n = body.length by simpa using hlength]
    cases escaped with
    | true =>
      have hrest := ih (hnext false h)
      exact congrArg (c :: ·) hrest
    | false =>
      unfold literalLength at h
      have hpass : blankTrailingCommas .string (blankComments .string (c :: body ++ rest)) =
          c :: blankTrailingCommas (stringMode c) (blankComments (stringMode c) (body ++ rest)) := by
        rw [List.cons_append, blankComments, blankTrailingCommas]
      refine hpass.trans ?_
      unfold stringMode
      split at h
      · rename_i hback
        rw [if_pos hback]
        exact congrArg (c :: ·) (ih (hnext true h))
      · rename_i hback
        rw [if_neg hback]
        split at h
        · rename_i hquote
          -- the closing quote
          obtain rfl : body = [] := by
            have hlength : 1 = body.length + 1 := by simpa using h
            exact List.length_eq_zero_iff.mp (by omega)
          rw [if_pos hquote]
          rfl
        · rename_i hquote
          rw [if_neg hquote]
          exact congrArg (c :: ·) (ih (hnext false h))

theorem strip_quote (cs : List Char) :
    stripJsonc ('"' :: cs) = '"' :: blankTrailingCommas .string (blankComments .string cs) := by
  have hstep : blankComments .code ('"' :: cs) = '"' :: blankComments .string cs := by
    rw [blankComments.eq_def]
    simp
  unfold stripJsonc
  rw [hstep, blankTrailingCommas.eq_def]
  simp

theorem strip_literal {body : List Char} (h : literalLength false body = some body.length)
    (rest : List Char) : stripJsonc ('"' :: body ++ rest) = '"' :: body ++ stripJsonc rest := by
  have hinside : blankTrailingCommas .string (blankComments .string (body ++ rest)) =
      body ++ stripJsonc rest := strip_inside h rest
  rw [List.cons_append, List.cons_append, strip_quote, hinside]

/-- A literal that stays is a literal of the text. -/
theorem literal_of_strip {escaped : Bool} {cs : List Char} {n : Nat}
    (h : literalLength escaped (blankTrailingCommas (stringModeOf escaped)
      (blankComments (stringModeOf escaped) cs)) = some n) :
    ∃ body rest, cs = body ++ rest ∧ body.length = n ∧
      literalLength escaped body = some body.length ∧
      blankTrailingCommas (stringModeOf escaped) (blankComments (stringModeOf escaped) cs) =
        body ++ stripJsonc rest := by
  induction cs generalizing escaped n with
  | nil =>
    have hnil : blankTrailingCommas (stringModeOf escaped)
        (blankComments (stringModeOf escaped) []) = [] := by
      cases escaped <;> rfl
    rw [hnil] at h
    cases escaped <;> cases h
  | cons c cs ih =>
    have hmore : ∀ next : Bool, ∀ m,
        literalLength next (blankTrailingCommas (stringModeOf next)
          (blankComments (stringModeOf next) cs)) = some m → n = m + 1 →
        (∀ body, literalLength next body = some body.length →
          literalLength escaped (c :: body) = some (c :: body).length) →
        (blankTrailingCommas (stringModeOf escaped) (blankComments (stringModeOf escaped) (c :: cs)) =
          c :: blankTrailingCommas (stringModeOf next) (blankComments (stringModeOf next) cs)) →
        ∃ body rest, c :: cs = body ++ rest ∧ body.length = n ∧
          literalLength escaped body = some body.length ∧
          blankTrailingCommas (stringModeOf escaped)
            (blankComments (stringModeOf escaped) (c :: cs)) = body ++ stripJsonc rest := by
      intro next m hm hn hbody hpass
      obtain ⟨body, rest, rfl, hlength, hliteral, heq⟩ := ih hm
      refine ⟨c :: body, rest, rfl, by simp [hlength, hn], hbody body hliteral, ?_⟩
      rw [hpass, heq]
      rfl
    cases escaped with
    | true =>
      obtain ⟨m, hm, rfl⟩ := Option.map_eq_some_iff.mp h
      exact hmore false m hm rfl (fun body hb => by simp [literalLength, hb]) rfl
    | false =>
      have hpass : blankTrailingCommas .string (blankComments .string (c :: cs)) =
          c :: blankTrailingCommas (stringMode c) (blankComments (stringMode c) cs) := by
        rw [blankComments, blankTrailingCommas]
      have hread : literalLength false (c :: blankTrailingCommas (stringMode c)
          (blankComments (stringMode c) cs)) = some n := hpass ▸ h
      unfold literalLength at hread
      unfold stringMode at hread hpass
      split at hread
      · rename_i hback
        rw [if_pos hback] at hpass
        obtain ⟨m, hm, rfl⟩ := Option.map_eq_some_iff.mp hread
        exact hmore true m hm rfl (fun body hb => by simp [literalLength, hback, hb]) hpass
      · rename_i hback
        rw [if_neg hback] at hpass
        split at hread
        · rename_i hquote
          rw [if_pos hquote] at hpass
          cases hread
          exact ⟨[c], cs, rfl, rfl, by simp [literalLength, hquote], hpass⟩
        · rename_i hquote
          rw [if_neg hquote] at hpass
          obtain ⟨m, hm, rfl⟩ := Option.map_eq_some_iff.mp hread
          exact hmore false m hm rfl (fun body hb => by simp [literalLength, hback, hquote, hb]) hpass

/-! ## Reading a stripped text back -/

theorem blank_nil : Blank [] := fun _ hc => absurd hc List.not_mem_nil

theorem blank_cons {c : Char} {cs : List Char} : Blank (c :: cs) ↔ isWs c = true ∧ Blank cs := by
  refine ⟨fun h => ⟨h c List.mem_cons_self, fun d hd => h d (List.mem_cons_of_mem _ hd)⟩, ?_⟩
  rintro ⟨hc, hcs⟩ d hd
  rcases List.mem_cons.mp hd with rfl | hd
  · exact hc
  · exact hcs d hd

/-- A text that begins with a character that is no white space, behind white space. -/
theorem cons_eq_blank_append {c d : Char} {cs blank r : List Char}
    (h : c :: cs = blank ++ d :: r) (hblank : Blank blank) (hd : isWs d = false) :
    (isWs c = true ∧ ∃ blank', blank = c :: blank' ∧ Blank blank' ∧ cs = blank' ++ d :: r) ∨
      (blank = [] ∧ c = d ∧ cs = r) := by
  cases blank with
  | nil =>
    obtain ⟨rfl, rfl⟩ := List.cons.inj h
    exact Or.inr ⟨rfl, rfl, rfl⟩
  | cons b blank =>
    obtain ⟨rfl, rfl⟩ := List.cons.inj h
    obtain ⟨hc, hrest⟩ := blank_cons.mp hblank
    exact Or.inl ⟨hc, blank, rfl, hrest, rfl⟩

/-- Outside strings and comments: a comment begins, or the character stays. -/
theorem blankComments_code_cases (c : Char) (cs : List Char) :
    (∃ x, c :: cs = '/' :: '/' :: x ∧
        blankComments .code (c :: cs) = ' ' :: ' ' :: blankComments .line x) ∨
      (∃ x, c :: cs = '/' :: '*' :: x ∧
        blankComments .code (c :: cs) = ' ' :: ' ' :: blankComments .block x) ∨
      blankComments .code (c :: cs) = c :: blankComments (if c = '"' then .string else .code) cs := by
  by_cases hline : ∃ x, c :: cs = '/' :: '/' :: x
  · obtain ⟨x, hx⟩ := hline
    rw [hx]
    exact Or.inl ⟨x, rfl, rfl⟩
  by_cases hblock : ∃ x, c :: cs = '/' :: '*' :: x
  · obtain ⟨x, hx⟩ := hblock
    rw [hx]
    exact Or.inr (Or.inl ⟨x, rfl, rfl⟩)
  · right
    right
    rw [blankComments.eq_def]
    split <;> simp_all

/-- In a block comment: it ends, or goes on. -/
theorem blankComments_block_cases (c : Char) (cs : List Char) :
    (∃ x, c :: cs = '*' :: '/' :: x ∧
        blankComments .block (c :: cs) = ' ' :: ' ' :: blankComments .code x) ∨
      (¬(c = '*' ∧ cs.head? = some '/') ∧ blankComments .block (c :: cs) =
        (if c = '\n' ∨ c = '\r' then c else ' ') :: blankComments .block cs) := by
  by_cases hend : ∃ x, c :: cs = '*' :: '/' :: x
  · obtain ⟨x, hx⟩ := hend
    rw [hx]
    exact Or.inl ⟨x, rfl, rfl⟩
  · have hgoes : ¬(c = '*' ∧ cs.head? = some '/') := by
      rintro ⟨rfl, hhead⟩
      obtain ⟨x, rfl⟩ := List.head?_eq_some_iff.mp hhead
      exact hend ⟨x, rfl⟩
    refine Or.inr ⟨hgoes, ?_⟩
    rw [blankComments.eq_def]
    split <;> simp_all

/-- White space before a character that stays was white space and comments. -/
theorem trivia_of_blankComments {mode : TriviaMode} {cs blank r : List Char} {d : Char}
    (h : blankComments (stripModeOf mode) cs = blank ++ d :: r) (hblank : Blank blank)
    (hd : isWs d = false) :
    ∃ t rest, cs = t ++ rest ∧ Trivia mode t ∧ blankComments .code rest = d :: r := by
  generalize hn : cs.length = n
  induction n using Nat.strong_induction_on generalizing mode cs blank with
  | _ n ih =>
    -- what is left to read behind a character that became white space
    have hgo : ∀ (next : TriviaMode) (c : Char) (x : List Char), x.length < n → isWs c = true →
        ∀ blank, Blank blank → c :: blankComments (stripModeOf next) x = blank ++ d :: r →
        ∃ t rest, x = t ++ rest ∧ Trivia next t ∧ blankComments .code rest = d :: r := by
      intro next c x hlt hc blank hblank heq
      rcases cons_eq_blank_append heq hblank hd with ⟨-, blank', -, hblank', hx⟩ | ⟨-, rfl, -⟩
      · exact ih x.length hlt hx hblank' rfl
      · rw [hc] at hd
        cases hd
    have hgo2 : ∀ (next : TriviaMode) (x : List Char), x.length < n →
        ' ' :: ' ' :: blankComments (stripModeOf next) x = blank ++ d :: r →
        ∃ t rest, x = t ++ rest ∧ Trivia next t ∧ blankComments .code rest = d :: r := by
      intro next x hlt heq
      rcases cons_eq_blank_append heq hblank hd with ⟨-, blank', -, hblank', hx⟩ | ⟨-, rfl, -⟩
      · exact hgo next ' ' x hlt (by decide) blank' hblank' hx
      · exact absurd hd (by decide)
    cases cs with
    | nil =>
      have hnil : blankComments (stripModeOf mode) [] = [] := by cases mode <;> rfl
      rw [hnil] at h
      cases blank <;> cases h
    | cons c cs =>
      simp only [List.length_cons] at hn
      cases mode with
      | plain =>
        have h' : blankComments .code (c :: cs) = blank ++ d :: r := h
        rcases blankComments_code_cases c cs with ⟨x, hx, heq⟩ | ⟨x, hx, heq⟩ | heq
        · have hlength := congrArg List.length hx
          simp only [List.length_cons] at hlength
          obtain ⟨t, rest, rfl, ht, hrest⟩ := hgo2 .line x (by omega) (heq ▸ h')
          exact ⟨'/' :: '/' :: t, rest, hx, .openLine ht, hrest⟩
        · have hlength := congrArg List.length hx
          simp only [List.length_cons] at hlength
          obtain ⟨t, rest, rfl, ht, hrest⟩ := hgo2 .block x (by omega) (heq ▸ h')
          exact ⟨'/' :: '*' :: t, rest, hx, .openBlock ht, hrest⟩
        · by_cases hc : isWs c = true
          · have hquote : c ≠ '"' := by
              rintro rfl
              exact absurd hc (by decide)
            rw [heq, if_neg hquote] at h'
            obtain ⟨t, rest, rfl, ht, hrest⟩ := hgo .plain c cs (by omega) hc blank hblank h'
            exact ⟨c :: t, rest, rfl, .space hc ht, hrest⟩
          · rcases cons_eq_blank_append (heq ▸ h') hblank hd with ⟨hc', -⟩ | ⟨rfl, -, -⟩
            · exact absurd hc' hc
            · exact ⟨[], c :: cs, rfl, .nil, h'⟩
      | line =>
        have h' : blankComments .line (c :: cs) = blank ++ d :: r := h
        by_cases hend : c = '\n'
        · subst hend
          obtain ⟨t, rest, rfl, ht, hrest⟩ :=
            hgo .plain '\n' cs (by omega) (by decide) blank hblank h'
          exact ⟨'\n' :: t, rest, rfl, .lineEnd ht, hrest⟩
        · have heq : blankComments .line (c :: cs) =
              (if c = '\r' then '\r' else ' ') :: blankComments .line cs := by
            rw [blankComments.eq_def]
            simp [hend]
          have hc : isWs (if c = '\r' then '\r' else ' ') = true := by split <;> decide
          obtain ⟨t, rest, rfl, ht, hrest⟩ := hgo .line _ cs (by omega) hc blank hblank (heq ▸ h')
          exact ⟨c :: t, rest, rfl, .lineChar hend ht, hrest⟩
      | block =>
        have h' : blankComments .block (c :: cs) = blank ++ d :: r := h
        rcases blankComments_block_cases c cs with ⟨x, hx, heq⟩ | ⟨hgoes, heq⟩
        · have hlength := congrArg List.length hx
          simp only [List.length_cons] at hlength
          obtain ⟨t, rest, rfl, ht, hrest⟩ := hgo2 .plain x (by omega) (heq ▸ h')
          exact ⟨'*' :: '/' :: t, rest, hx, .blockEnd ht, hrest⟩
        · have hc : isWs (if c = '\n' ∨ c = '\r' then c else ' ') = true := by
            split
            · rename_i hreturn
              rcases hreturn with rfl | rfl <;> decide
            · decide
          obtain ⟨t, rest, rfl, ht, hrest⟩ := hgo .block _ cs (by omega) hc blank hblank (heq ▸ h')
          refine ⟨c :: t, rest, rfl, .blockChar ?_ ht, hrest⟩
          rintro ⟨rfl, hhead⟩
          obtain ⟨x, rfl⟩ := List.head?_eq_some_iff.mp hhead
          exact hgoes ⟨rfl, rfl⟩

/-- The character that stays at the beginning of a text. -/
theorem head_of_blankComments {cs r : List Char} {d : Char}
    (h : blankComments .code cs = d :: r) (hd : isWs d = false) :
    ∃ rest, cs = d :: rest ∧
      blankComments (if d = '"' then .string else .code) rest = r := by
  cases cs with
  | nil => cases h
  | cons c cs =>
    rcases blankComments_code_cases c cs with ⟨x, -, heq⟩ | ⟨x, -, heq⟩ | heq
    · rw [heq] at h
      obtain ⟨rfl, -⟩ := List.cons.inj h
      exact absurd hd (by decide)
    · rw [heq] at h
      obtain ⟨rfl, -⟩ := List.cons.inj h
      exact absurd hd (by decide)
    · rw [heq] at h
      obtain ⟨rfl, hr⟩ := List.cons.inj h
      exact ⟨cs, rfl, hr⟩

/-- What stands before a character that stays, when commas may have become white space. -/
theorem blank_of_blankTrailingCommas {cs r : List Char} {d : Char}
    (h : skipWs (blankTrailingCommas .code cs) = d :: r) :
    ∃ blank rest, cs = blank ++ d :: rest ∧ blankTrailingCommas .code (d :: rest) = d :: r ∧
      (Blank blank ∨ ((isSpace d = true ∨ d = '\x7d' ∨ d = ']') ∧
        ∃ b b', blank = b ++ ',' :: b' ∧ Blank b ∧ Blank b')) := by
  have hd : isWs d = false := by
    have hhead := List.head?_dropWhile_not isWs (blankTrailingCommas .code cs)
    rw [show (blankTrailingCommas .code cs).dropWhile isWs = d :: r from h] at hhead
    simpa using hhead
  induction cs with
  | nil => cases h
  | cons c cs ih =>
    -- a character of white space is passed over
    have hpass : ∀ e : Char, isWs e = true →
        blankTrailingCommas .code (c :: cs) = e :: blankTrailingCommas .code cs →
        skipWs (blankTrailingCommas .code cs) = d :: r := by
      intro e he heq
      rw [heq, skipWs, List.dropWhile_cons_of_pos he] at h
      exact h
    have hstep : c ≠ '"' → blankTrailingCommas .code (c :: cs) =
        (if c = ',' ∧ closes cs then ' ' else c) :: blankTrailingCommas .code cs := by
      intro hquote
      rw [blankTrailingCommas.eq_def]
      simp [hquote]
    by_cases hcomma : c = ',' ∧ closes cs = true
    · obtain ⟨rfl, hcloses⟩ := hcomma
      have heq := hstep (by decide)
      rw [if_pos ⟨rfl, hcloses⟩] at heq
      obtain ⟨blank, rest, rfl, hrest, hblank⟩ := ih (hpass ' ' (by decide) heq)
      rcases hblank with hblank | ⟨-, b, b', rfl, hb, hb'⟩
      · refine ⟨',' :: blank, rest, rfl, hrest, Or.inr ⟨?_, [], blank, rfl, blank_nil, hblank⟩⟩
        rw [closes_blank hblank] at hcloses
        by_cases hspace : isSpace d = true
        · exact Or.inl hspace
        · unfold closes at hcloses
          rw [List.dropWhile_cons_of_neg hspace] at hcloses
          right
          simpa using hcloses
      · rw [List.append_assoc, closes_blank hb] at hcloses
        exact absurd hcloses (by simp [closes, isSpace])
    · by_cases hc : isWs c = true
      · have hquote : c ≠ '"' := by
          rintro rfl
          exact absurd hc (by decide)
        have heq := hstep hquote
        rw [if_neg hcomma] at heq
        obtain ⟨blank, rest, rfl, hrest, hblank⟩ := ih (hpass c hc heq)
        refine ⟨c :: blank, rest, rfl, hrest, ?_⟩
        rcases hblank with hblank | ⟨hcloses, b, b', rfl, hb, hb'⟩
        · exact Or.inl (blank_cons.mpr ⟨hc, hblank⟩)
        · exact Or.inr ⟨hcloses, c :: b, b', rfl, blank_cons.mpr ⟨hc, hb⟩, hb'⟩
      · have hkeep : ∃ tail, blankTrailingCommas .code (c :: cs) = c :: tail := by
          by_cases hquote : c = '"'
          · refine ⟨blankTrailingCommas .string cs, ?_⟩
            rw [blankTrailingCommas.eq_def]
            simp [hquote]
          · have heq := hstep hquote
            rw [if_neg hcomma] at heq
            exact ⟨_, heq⟩
        obtain ⟨tail, htail⟩ := hkeep
        have hsame := h
        rw [htail, JsonReader.skipWs_cons (by simpa using hc)] at hsame
        obtain ⟨rfl, rfl⟩ := List.cons.inj hsame
        exact ⟨[], cs, rfl, htail, Or.inl blank_nil⟩

/-- **What stands before the next character that stays**: white space and comments, and a comma
among them only before a closing bracket. -/
theorem trivia_of_skipWs {cs r : List Char} {d : Char} (h : skipWs (stripJsonc cs) = d :: r) :
    ∃ t rest, cs = t ++ d :: rest ∧ stripJsonc (d :: rest) = d :: r ∧
      (Trivia .plain t ∨ ((isSpace d = true ∨ d = '\x7d' ∨ d = ']') ∧
        ∃ u u', t = u ++ ',' :: u' ∧ Trivia .plain u ∧ Trivia .plain u')) := by
  have hd : isWs d = false := by
    have hhead := List.head?_dropWhile_not isWs (stripJsonc cs)
    rw [show (stripJsonc cs).dropWhile isWs = d :: r from h] at hhead
    simpa using hhead
  obtain ⟨blank, rest, hcs, hrest, hblank⟩ := blank_of_blankTrailingCommas h
  -- back through the comments
  have hback : ∀ {cs blank rest : List Char} {e : Char}, Blank blank → isWs e = false →
      blankComments .code cs = blank ++ e :: rest →
      ∃ t cs', cs = t ++ e :: cs' ∧ Trivia .plain t ∧ blankComments .code (e :: cs') = e :: rest := by
    intro cs blank rest e hblank he heq
    obtain ⟨t, cs', rfl, ht, hcs'⟩ := @trivia_of_blankComments .plain cs blank rest e heq hblank he
    obtain ⟨cs'', rfl, -⟩ := head_of_blankComments hcs' he
    exact ⟨t, cs'', rfl, ht, hcs'⟩
  rcases hblank with hblank | ⟨hcloses, b, b', rfl, hb, hb'⟩
  · obtain ⟨t, cs', rfl, ht, hcs'⟩ := hback hblank hd hcs
    refine ⟨t, cs', rfl, ?_, Or.inl ht⟩
    unfold stripJsonc
    rw [hcs', hrest]
  · rw [List.append_assoc] at hcs
    obtain ⟨u, cs', rfl, hu, hcs'⟩ := hback hb (by decide) hcs
    obtain ⟨_, hsame, hinner⟩ := head_of_blankComments hcs' (by decide)
    obtain ⟨-, rfl⟩ := List.cons.inj hsame
    obtain ⟨u', cs'', rfl, hu', hcs''⟩ := hback hb' hd hinner
    refine ⟨u ++ ',' :: u', cs'', by simp, ?_, Or.inr ⟨hcloses, u, u', rfl, hu, hu'⟩⟩
    unfold stripJsonc
    rw [hcs'', hrest]

/-- A plain character that stays. -/
theorem strip_of_plain {c : Char} {cs r : List Char} (hc : IsPlain c)
    (h : stripJsonc (c :: cs) = c :: r) : stripJsonc cs = r := by
  rw [strip_plain hc] at h
  exact (List.cons.inj h).2

/-- A comma that stays. -/
theorem strip_of_comma {cs r : List Char} (h : stripJsonc (',' :: cs) = ',' :: r) :
    stripJsonc cs = r ∧ closes (blankComments .code cs) = false := by
  rw [strip_comma] at h
  obtain ⟨hhead, htail⟩ := List.cons.inj h
  refine ⟨htail, ?_⟩
  by_contra hcloses
  rw [Bool.not_eq_false] at hcloses
  rw [if_pos hcloses] at hhead
  exact absurd hhead (by decide)

/-- The first character of a stripped text: the text's own, or white space. -/
theorem head?_strip (c : Char) (cs : List Char) :
    ∃ d r, stripJsonc (c :: cs) = d :: r ∧ (d = c ∨ d = ' ') := by
  have hkeep : ∀ (d : Char) (x : List Char), ∃ e r, blankTrailingCommas .code (d :: x) = e :: r ∧
      (e = d ∨ e = ' ') := by
    intro d x
    rw [blankTrailingCommas.eq_def]
    dsimp only
    split
    · exact ⟨d, _, rfl, Or.inl rfl⟩
    · split
      · exact ⟨' ', _, rfl, Or.inr rfl⟩
      · exact ⟨d, _, rfl, Or.inl rfl⟩
  unfold stripJsonc
  rcases blankComments_code_cases c cs with ⟨x, -, heq⟩ | ⟨x, -, heq⟩ | heq
  · obtain ⟨d, r, hstrip, hd⟩ := hkeep ' ' (' ' :: blankComments .line x)
    exact ⟨d, r, by rw [heq, hstrip], Or.inr (hd.elim id id)⟩
  · obtain ⟨d, r, hstrip, hd⟩ := hkeep ' ' (' ' :: blankComments .block x)
    exact ⟨d, r, by rw [heq, hstrip], Or.inr (hd.elim id id)⟩
  · obtain ⟨d, r, hstrip, hd⟩ := hkeep c (blankComments (if c = '"' then .string else .code) cs)
    exact ⟨d, r, by rw [heq, hstrip], hd⟩

/-- A literal that stays is one of the text. -/
theorem atom_of_strip (cs : List Char) :
    ∃ rest, cs = (stripJsonc cs).takeWhile atomChar ++ rest ∧
      stripJsonc rest = (stripJsonc cs).drop ((stripJsonc cs).takeWhile atomChar).length := by
  induction cs with
  | nil => exact ⟨[], rfl, rfl⟩
  | cons c cs ih =>
    by_cases hc : atomChar c = true
    · obtain ⟨rest, hcs, hrest⟩ := ih
      rw [strip_plain (isPlain_atomChar hc), List.takeWhile_cons_of_pos hc]
      exact ⟨rest, congrArg (c :: ·) hcs, hrest⟩
    · obtain ⟨d, r, hstrip, hd⟩ := head?_strip c cs
      have hdropped : (stripJsonc (c :: cs)).takeWhile atomChar = [] := by
        rw [hstrip, List.takeWhile_cons_of_neg]
        rcases hd with rfl | rfl
        · exact hc
        · decide
      rw [hdropped]
      exact ⟨c :: cs, rfl, rfl⟩

end AnyConverter.JsonEdit
