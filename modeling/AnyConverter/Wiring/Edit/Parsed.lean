import AnyConverter.Wiring.Edit.Placed

/-!
# What a placed text is parsed to

The scanner of the editor passes over white space, comments and commas, and takes down where every
value and every key stands.

* `triviaLength_trivia`: white space and comments are passed over to their end;
* `parseValue_placed`: a piece that is placed is parsed to its spans, wherever it stands.
-/

set_option autoImplicit false

namespace AnyConverter.JsonEdit

open JsonReader (isWs atomChar literalLength collect Atoms)

variable {atom : Atoms} {lone : Prop}

/-! ## White space and comments -/

/-- What white space and comments end before. -/
def StopsTrivia (rest : List Char) : Prop := ∀ c r, rest = c :: r → isSpace c = false ∧ c ≠ '/'

theorem stopsTrivia_cons {c : Char} (hspace : isSpace c = false) (hslash : c ≠ '/') (r : List Char) :
    StopsTrivia (c :: r) := by
  intro d r' h
  obtain ⟨rfl, -⟩ := List.cons.inj h
  exact ⟨hspace, hslash⟩

theorem Opens.stopsTrivia {c : Char} (h : Opens c) (r : List Char) : StopsTrivia (c :: r) :=
  stopsTrivia_cons h.facts.2.1 h.facts.2.2.1 r

theorem triviaLength_plain_cons (eager : Bool) {c : Char} (hslash : c ≠ '/') (cs : List Char) :
    triviaLength eager .plain (c :: cs) =
      if isSpace c then 1 + triviaLength eager .plain cs else 0 := by
  rw [triviaLength.eq_def]
  simp [hslash]

/-- White space and comments are passed over. -/
theorem triviaLength_append {mode : TriviaMode} {t : List Char} (h : Trivia mode t) (eager : Bool)
    (rest : List Char) :
    triviaLength eager mode (t ++ rest) = t.length + triviaLength eager .plain rest := by
  induction h with
  | nil => exact (Nat.zero_add _).symm
  | @space c t hc _ ih =>
    have hslash : c ≠ '/' := by
      rintro rfl
      exact absurd hc (by decide)
    rw [List.cons_append, triviaLength_plain_cons eager hslash, if_pos (isSpace_of_isWs hc), ih,
      List.length_cons]
    omega
  | @openLine t _ ih =>
    show 2 + triviaLength eager .line (t ++ rest) = _
    rw [ih, List.length_cons, List.length_cons]
    omega
  | @openBlock t _ ih =>
    show 2 + triviaLength eager .block (t ++ rest) = _
    rw [ih, List.length_cons, List.length_cons]
    omega
  | @lineEnd t _ ih =>
    show 1 + triviaLength eager .plain (t ++ rest) = _
    rw [ih, List.length_cons]
    omega
  | @lineChar c t hc _ ih =>
    have hstep : triviaLength eager .line (c :: (t ++ rest)) =
        1 + triviaLength eager .line (t ++ rest) := by
      rw [triviaLength.eq_def]
      simp [hc]
    rw [List.cons_append, hstep, ih, List.length_cons]
    omega
  | @blockEnd t _ ih =>
    show 2 + triviaLength eager .plain (t ++ rest) = _
    rw [ih, List.length_cons, List.length_cons]
    omega
  | @blockChar c t hc ht ih =>
    obtain ⟨d, t, rfl⟩ := List.exists_cons_of_ne_nil ht.block_ne_nil
    have hstep : triviaLength eager .block (c :: (d :: t ++ rest)) =
        1 + triviaLength eager .block (d :: t ++ rest) := by
      rw [triviaLength.eq_def]
      have hnot : ¬(c = '*' ∧ d = '/') := by simpa using hc
      split <;> simp_all
    rw [List.cons_append, hstep, ih, List.length_cons (a := c)]
    omega

/-- **White space and comments are passed over to their end**, and nothing else is. -/
theorem triviaLength_trivia {t : List Char} (h : Trivia .plain t) (eager : Bool) {rest : List Char}
    (hrest : StopsTrivia rest) : triviaLength eager .plain (t ++ rest) = t.length := by
  rw [triviaLength_append h]
  cases rest with
  | nil => rfl
  | cons c r =>
    obtain ⟨hspace, hslash⟩ := hrest c r rfl
    rw [triviaLength_plain_cons eager hslash, hspace]
    rfl

theorem advance_append (pos : Nat) (xs rest : List Char) :
    Cursor.advance ⟨pos, xs ++ rest⟩ xs.length = ⟨pos + xs.length, rest⟩ := by
  simp [Cursor.advance]

theorem skipTrivia_trivia {t : List Char} (h : Trivia .plain t) (pos : Nat) {rest : List Char}
    (hrest : StopsTrivia rest) : skipTrivia ⟨pos, t ++ rest⟩ = ⟨pos + t.length, rest⟩ := by
  unfold skipTrivia
  rw [triviaLength_trivia h false hrest, advance_append]

theorem skipTrivia_stops (pos : Nat) {rest : List Char} (hrest : StopsTrivia rest) :
    skipTrivia ⟨pos, rest⟩ = ⟨pos, rest⟩ := skipTrivia_trivia .nil pos hrest

/-! ## Literals -/

theorem stringLength_eq (escaped : Bool) (cs : List Char) :
    stringLength escaped cs = literalLength escaped cs := by
  induction cs generalizing escaped with
  | nil => cases escaped <;> rfl
  | cons c cs ih =>
    cases escaped with
    | true => simp only [stringLength, literalLength, ih]
    | false => simp only [stringLength, literalLength, ih]

/-- What ends a number or a name. -/
def EndsScalar (rest : List Char) : Prop := ∀ c r, rest = c :: r → endsScalar c = true

theorem endsScalar_trivia {t : List Char} (h : Trivia .plain t) {rest : List Char}
    (hrest : EndsScalar rest) : EndsScalar (t ++ rest) := by
  intro c r heq
  cases h with
  | nil => exact hrest c r heq
  | @space d t hd _ =>
    obtain ⟨rfl, -⟩ := List.cons.inj heq
    simp [endsScalar, isSpace_of_isWs hd]
  | openLine _ =>
    obtain ⟨rfl, -⟩ := List.cons.inj heq
    decide
  | openBlock _ =>
    obtain ⟨rfl, -⟩ := List.cons.inj heq
    decide

theorem endsScalar_cons {c : Char} (h : endsScalar c = true) (r : List Char) : EndsScalar (c :: r) := by
  intro d r' heq
  obtain ⟨rfl, -⟩ := List.cons.inj heq
  exact h

theorem endsScalar_close {c : Char} (h : IsClose c) : endsScalar c = true := by
  rcases h with rfl | rfl <;> decide

theorem atomChar_not_ends {c : Char} (h : atomChar c = true) : endsScalar c = false := by
  obtain ⟨-, hspace, hslash, hcomma, hbrace, hbracket⟩ :=
    Opens.facts (Or.inr (Or.inr (Or.inr h)) : Opens c)
  simp [endsScalar, hspace, hslash, hcomma, hbrace, hbracket]

theorem atomChar_not_whitespace {c : Char} (h : atomChar c = true) : Text.isWhitespace c = false := by
  have hrange : c = '+' ∨ c = '-' ∨ c = '.' ∨ 48 ≤ c.toNat ∧ c.toNat ≤ 122 := by
    unfold atomChar Char.isAlphanum Char.isAlpha Char.isUpper Char.isLower Char.isDigit at h
    simp only [Bool.or_eq_true, Bool.and_eq_true, decide_eq_true_eq, beq_iff_eq, ge_iff_le,
      UInt32.le_iff_toNat_le, Char.reduceVal, UInt32.reduceToNat] at h
    have hval : c.toNat = c.val.toNat := rfl
    rcases h with ((halnum | rfl) | rfl) | rfl
    · exact Or.inr (Or.inr (Or.inr (by omega)))
    · exact Or.inl rfl
    · exact Or.inr (Or.inl rfl)
    · exact Or.inr (Or.inr (Or.inl rfl))
  rcases hrange with rfl | rfl | rfl | ⟨hlow, hhigh⟩
  · decide
  · decide
  · decide
  · unfold Text.isWhitespace
    simp only [Bool.or_eq_false_iff, Bool.and_eq_false_iff, decide_eq_false_iff_not, beq_eq_false_iff_ne]
    omega

theorem Opens.not_whitespace {c : Char} (h : Opens c) : Text.isWhitespace c = false := by
  rcases h with rfl | rfl | rfl | h
  · decide
  · decide
  · decide
  · exact atomChar_not_whitespace h

/-! ## Values -/

/-- How the library reads the literals of keys. -/
def ReadsKeys (codec : JsonCodec) (atom : Atoms) : Prop :=
  ∀ body key, literalLength false body = some body.length → atom ('"' :: body) = some (.string key) →
    codec.decode Value.asStr (String.ofList ('"' :: body)) = some key

/-- A piece is parsed to its spans, behind white space and comments. -/
def Parses (codec : JsonCodec) (text : List Char) (node : Nat → Node) : Prop :=
  ∀ fuel pos t rest, text.length ≤ fuel → Trivia .plain t → EndsScalar rest →
    parseValue codec fuel ⟨pos, t ++ (text ++ rest)⟩ =
      .ok (node (pos + t.length), ⟨pos + t.length + text.length, rest⟩)

theorem parses_of_opens {codec : JsonCodec} {text : List Char} {node : Nat → Node}
    (hopens : ∃ c cs, text = c :: cs ∧ Opens c)
    (h : ∀ fuel pos rest, text.length ≤ fuel + 1 → EndsScalar rest →
      parseValue codec (fuel + 1) ⟨pos, text ++ rest⟩ = .ok (node pos, ⟨pos + text.length, rest⟩)) :
    Parses codec text node := by
  intro fuel pos t rest hfuel ht hrest
  obtain ⟨c, cs, rfl, hc⟩ := hopens
  obtain ⟨fuel, rfl⟩ : ∃ n, fuel = n + 1 := ⟨fuel - 1, by
    rw [List.length_cons] at hfuel
    omega⟩
  have hstops : StopsTrivia (c :: cs ++ rest) := hc.stopsTrivia _
  rw [← h fuel (pos + t.length) rest hfuel hrest]
  unfold parseValue
  rw [skipTrivia_trivia ht pos hstops, skipTrivia_stops _ hstops]

theorem parses_atom {codec : JsonCodec} {token : List Char} (hne : token ≠ [])
    (hchars : ∀ c ∈ token, atomChar c = true) :
    Parses codec token fun pos => .scalar pos (pos + token.length) := by
  obtain ⟨c, cs, rfl⟩ := List.exists_cons_of_ne_nil hne
  have hc : Opens c := Or.inr (Or.inr (Or.inr (hchars c List.mem_cons_self)))
  refine parses_of_opens ⟨c, cs, rfl, hc⟩ fun fuel pos rest _ hrest => ?_
  have hscalar : scalarLength (c :: cs ++ rest) = (c :: cs).length := by
    unfold scalarLength
    rw [List.takeWhile_append_of_pos fun d hd => by simp [atomChar_not_ends (hchars d hd)]]
    cases rest with
    | nil => simp
    | cons d r => simp [hrest d r rfl]
  have hatom := hchars c List.mem_cons_self
  have hskip : skipTrivia ⟨pos, c :: cs ++ rest⟩ = ⟨pos, c :: cs ++ rest⟩ :=
    skipTrivia_stops pos (hc.stopsTrivia _)
  unfold parseValue
  rw [hskip]
  dsimp only
  split
  · rename_i heq
    cases heq
  · rename_i heq
    obtain ⟨rfl, -⟩ := List.cons.inj heq
    exact absurd hatom (by decide)
  · rename_i heq
    obtain ⟨rfl, -⟩ := List.cons.inj heq
    exact absurd hatom (by decide)
  · rename_i heq
    obtain ⟨rfl, -⟩ := List.cons.inj heq
    exact absurd hatom (by decide)
  · rw [hscalar, if_neg (by simp)]
    rw [advance_append pos (c :: cs) rest]

theorem parseValue_quote (codec : JsonCodec) (fuel pos : Nat) (rest : List Char) :
    parseValue codec (fuel + 1) ⟨pos, '"' :: rest⟩ =
      match stringLength false rest with
      | some n => .ok (.scalar pos (pos + 1 + n), Cursor.advance ⟨pos, '"' :: rest⟩ (1 + n))
      | none => .error (errorAt "unterminated JSON string" (pos + ('"' :: rest).length)) := by
  unfold parseValue
  rw [skipTrivia_stops pos (stopsTrivia_cons (by decide) (by decide) rest)]
  rfl

theorem advance_quote (pos : Nat) (body rest : List Char) :
    Cursor.advance ⟨pos, '"' :: (body ++ rest)⟩ (1 + body.length) =
      ⟨pos + ('"' :: body).length, rest⟩ := by
  rw [Nat.add_comm 1]
  exact advance_append pos ('"' :: body) rest

theorem parses_string {codec : JsonCodec} {body : List Char}
    (hbody : literalLength false body = some body.length) :
    Parses codec ('"' :: body) fun pos => .scalar pos (pos + 1 + body.length) := by
  refine parses_of_opens ⟨'"', body, rfl, Or.inl rfl⟩ fun fuel pos rest _ _ => ?_
  have hlength : stringLength false (body ++ rest) = some body.length := by
    rw [stringLength_eq, JsonReader.literalLength_append hbody]
  rw [List.cons_append, parseValue_quote, hlength]
  dsimp only
  rw [advance_quote]

/-! ## Objects and arrays -/

theorem stopsTrivia_close {c : Char} (h : IsClose c) (rest : List Char) : StopsTrivia (c :: rest) := by
  rcases h with rfl | rfl
  · exact stopsTrivia_cons (by decide) (by decide) rest
  · exact stopsTrivia_cons (by decide) (by decide) rest

/-- The scanner behind the value of an element: at the next one, or before the closing bracket. -/
theorem behind_element {e : Element} (he : Trivia .plain e.after) {es : List Element}
    {tail : List Char} (htail : Tail lone (e :: es) tail) {close : Char} (hclose : IsClose close) (rest : List Char) :
    ∃ behind tail' k, joined (e :: es) ++ (tail ++ close :: rest) =
        e.lead ++ (e.head ++ (e.text ++ (e.after ++ behind))) ∧
      EndsScalar (e.after ++ behind) ∧ Tail lone es tail' ∧ (es ≠ [] → k = 1) ∧
      (joined (e :: es) ++ tail).length = e.chars.length + k + (joined es ++ tail').length ∧
      ∀ pos, skipComma (skipTrivia ⟨pos, e.after ++ behind⟩) =
        ⟨pos + e.after.length + k, joined es ++ (tail' ++ close :: rest)⟩ := by
  have hcomma : ∀ r, StopsTrivia (',' :: r) := fun r => stopsTrivia_cons (by decide) (by decide) r
  cases es with
  | nil =>
    cases htail with
    | last =>
      refine ⟨close :: rest, [], 0, by simp [joined, Element.chars],
        endsScalar_trivia he (endsScalar_cons (endsScalar_close hclose) rest), .blank .nil,
        fun h => absurd rfl h, by simp [joined], fun pos => ?_⟩
      rw [skipTrivia_trivia he pos (stopsTrivia_close hclose rest)]
      have hnot : close ≠ ',' := by rcases hclose with rfl | rfl <;> decide
      simp [skipComma, hnot, joined]
    | @trailingComma _ _ t ht =>
      refine ⟨',' :: (t ++ close :: rest), t, 1, by simp [joined, Element.chars],
        endsScalar_trivia he (endsScalar_cons (by decide) _), .blank ht, fun _ => rfl,
        by simp [joined]; omega, fun pos => ?_⟩
      rw [skipTrivia_trivia he pos (hcomma _)]
      simp [skipComma, Cursor.advance, joined]
  | cons e' es =>
    refine ⟨',' :: (joined (e' :: es) ++ (tail ++ close :: rest)), tail, 1, ?_,
      endsScalar_trivia he (endsScalar_cons (by decide) _), htail.of_cons, fun _ => rfl, ?_,
      fun pos => ?_⟩
    · rw [joined_cons_cons]
      simp [Element.chars]
    · rw [joined_cons_cons]
      simp only [List.length_append, List.length_cons]
      omega
    · rw [skipTrivia_trivia he pos (hcomma _)]
      simp [skipComma, Cursor.advance]

theorem parseMembers_close {codec : JsonCodec} {t : List Char} (ht : Trivia .plain t) (fuel pos : Nat)
    (rest : List Char) : parseMembers codec (fuel + 1) ⟨pos, t ++ '\x7d' :: rest⟩ =
      .ok ([], ⟨pos + t.length + 1, rest⟩) := by
  unfold parseMembers
  rw [skipTrivia_trivia ht pos (stopsTrivia_close (Or.inl rfl) rest)]
  rfl

/-- One member is parsed, whatever stands behind it. -/
theorem parseMembers_member {codec : JsonCodec} (hkeys : ReadsKeys codec atom) {e : Element}
    (he : e.IsMember atom) {node : Nat → Node} (hvalue : Parses codec e.text node)
    {behind : List Char} (hends : EndsScalar (e.after ++ behind)) {fuel : Nat}
    (hfuel : e.text.length ≤ fuel) (pos : Nat) :
    parseMembers codec (fuel + 1) ⟨pos, e.lead ++ (e.head ++ (e.text ++ (e.after ++ behind)))⟩ =
      (parseMembers codec fuel (skipComma (skipTrivia
        ⟨pos + e.lead.length + e.head.length + e.text.length, e.after ++ behind⟩))).map fun p =>
        (.mk e.key (pos + e.lead.length) (node (pos + e.lead.length + e.head.length)) :: p.1, p.2) := by
  obtain ⟨body, gap, gap', hhead, hbody, hkey, hgap, hgap'⟩ := he.head
  generalize hmore : e.text ++ (e.after ++ behind) = more
  have htext : e.head ++ more = '"' :: (body ++ (gap ++ ':' :: (gap' ++ more))) := by
    rw [hhead]
    simp
  have hquote : StopsTrivia ('"' :: (body ++ (gap ++ ':' :: (gap' ++ more)))) :=
    stopsTrivia_cons (by decide) (by decide) _
  have hlength : stringLength false (body ++ (gap ++ ':' :: (gap' ++ more))) = some body.length := by
    rw [stringLength_eq, JsonReader.literalLength_append hbody]
  have hraw : ('"' :: (body ++ (gap ++ ':' :: (gap' ++ more)))).take (1 + body.length) =
      '"' :: body := by
    rw [Nat.add_comm 1, List.take_succ_cons, List.take_left]
  have hcolon : skipTrivia ⟨pos + e.lead.length + ('"' :: body).length, gap ++ ':' :: (gap' ++ more)⟩ =
      ⟨pos + e.lead.length + ('"' :: body).length + gap.length, ':' :: (gap' ++ more)⟩ :=
    skipTrivia_trivia hgap _ (stopsTrivia_cons (by decide) (by decide) _)
  have hread := hvalue fuel (pos + e.lead.length + ('"' :: body).length + gap.length + 1) gap'
    (e.after ++ behind) hfuel hgap' hends
  rw [hmore] at hread
  have hstart : pos + e.lead.length + ('"' :: body).length + gap.length + 1 + gap'.length =
      pos + e.lead.length + e.head.length := by
    rw [hhead]
    simp only [List.length_append, List.length_cons]
    omega
  rw [hstart] at hread
  generalize hnext : parseMembers codec fuel (skipComma (skipTrivia
    ⟨pos + e.lead.length + e.head.length + e.text.length, e.after ++ behind⟩)) = next
  rw [htext]
  unfold parseMembers
  rw [skipTrivia_trivia he.lead pos hquote]
  simp only [hlength, hraw, hkeys body e.key hbody hkey, advance_quote, hcolon]
  have hadvance : Cursor.advance ⟨pos + e.lead.length + ('"' :: body).length + gap.length,
      ':' :: (gap' ++ more)⟩ 1 =
        ⟨pos + e.lead.length + ('"' :: body).length + gap.length + 1, gap' ++ more⟩ := rfl
  rw [hadvance, hread]
  show (parseMembers codec fuel (skipComma (skipTrivia
    ⟨pos + e.lead.length + e.head.length + e.text.length, e.after ++ behind⟩)) >>= _) = _
  rw [hnext]
  cases next <;> rfl

theorem parseMembers_placed {codec : JsonCodec} (hkeys : ReadsKeys codec atom) {es : List Element}
    {tail : List Char} {nodes : Element → Nat → Node} (hes : ∀ e ∈ es, e.IsMember atom)
    (hvalues : ∀ e ∈ es, Parses codec e.text (nodes e)) (htail : Tail lone es tail)
    (rest : List Char) (pos fuel : Nat) (hfuel : (joined es ++ tail).length < fuel) :
    parseMembers codec fuel ⟨pos, joined es ++ (tail ++ '\x7d' :: rest)⟩ =
      .ok (memberNodes nodes pos es, ⟨pos + (joined es ++ tail).length + 1, rest⟩) := by
  induction es generalizing tail pos fuel with
  | nil =>
    obtain ⟨fuel, rfl⟩ : ∃ n, fuel = n + 1 := ⟨fuel - 1, by omega⟩
    cases htail with
    | blank ht => exact parseMembers_close ht fuel pos rest
    | @loneComma t t' _ ht ht' =>
      obtain ⟨fuel, rfl⟩ : ∃ n, fuel = n + 1 := ⟨fuel - 1, by
        simp only [joined, List.nil_append, List.length_append, List.length_cons] at hfuel
        omega⟩
      have htext : joined [] ++ (t ++ ',' :: t' ++ '\x7d' :: rest) =
          t ++ ',' :: (t' ++ '\x7d' :: rest) := by simp [joined]
      have hcomma : StopsTrivia (',' :: (t' ++ '\x7d' :: rest)) :=
        stopsTrivia_cons (by decide) (by decide) _
      have hclose := @parseMembers_close codec t' ht' fuel (pos + t.length + 1) rest
      rw [htext]
      unfold parseMembers
      rw [skipTrivia_trivia ht pos hcomma]
      refine hclose.trans ?_
      simp [joined, memberNodes]
      omega
  | cons e es ih =>
    obtain ⟨fuel, rfl⟩ : ∃ n, fuel = n + 1 := ⟨fuel - 1, by omega⟩
    have he := hes e List.mem_cons_self
    obtain ⟨behind, tail', k, htext, hends, htail', hk, hlength, hskip⟩ :=
      behind_element he.after htail (Or.inl rfl : IsClose '\x7d') rest
    have hchars : e.chars.length = e.lead.length + e.head.length + e.text.length + e.after.length := by
      simp [Element.chars]
      omega
    have hhead : 1 ≤ e.head.length := by
      obtain ⟨body, gap, gap', hhead, -⟩ := he.head
      rw [hhead]
      simp
    have hmore := ih (fun e' he' => hes e' (List.mem_cons_of_mem _ he'))
      (fun e' he' => hvalues e' (List.mem_cons_of_mem _ he')) htail'
      (pos + e.chars.length + k) fuel (by omega)
    rw [htext, parseMembers_member hkeys he (hvalues e List.mem_cons_self) hends (by omega), hskip]
    have hplace : pos + e.lead.length + e.head.length + e.text.length + e.after.length + k =
        pos + e.chars.length + k := by omega
    rw [hplace, hmore]
    have hnodes : memberNodes nodes (pos + e.chars.length + k) es =
        memberNodes nodes (pos + e.chars.length + 1) es := by
      cases es with
      | nil => rfl
      | cons e' es => rw [hk (List.cons_ne_nil _ _)]
    have hstop : pos + e.chars.length + k + (joined es ++ tail').length + 1 =
        pos + (joined (e :: es) ++ tail).length + 1 := by omega
    rw [hnodes, hstop]
    rfl

theorem parseItems_close {codec : JsonCodec} {t : List Char} (ht : Trivia .plain t) (fuel pos : Nat)
    (rest : List Char) : parseItems codec (fuel + 1) ⟨pos, t ++ ']' :: rest⟩ =
      .ok ⟨pos + t.length + 1, rest⟩ := by
  unfold parseItems
  rw [skipTrivia_trivia ht pos (stopsTrivia_close (Or.inr rfl) rest)]
  rfl

/-- One item is parsed, whatever stands behind it. -/
theorem parseItems_item {codec : JsonCodec} {e : Element} (he : e.IsItem)
    (hopens : ∃ c cs, e.text = c :: cs ∧ Opens c) {node : Nat → Node}
    (hvalue : Parses codec e.text node) {behind : List Char} (hends : EndsScalar (e.after ++ behind))
    {fuel : Nat} (hfuel : e.text.length ≤ fuel) (pos : Nat) :
    parseItems codec (fuel + 1) ⟨pos, e.lead ++ (e.text ++ (e.after ++ behind))⟩ =
      parseItems codec fuel (skipComma (skipTrivia
        ⟨pos + e.lead.length + e.text.length, e.after ++ behind⟩)) := by
  have hread := hvalue fuel (pos + e.lead.length) [] (e.after ++ behind) hfuel .nil hends
  obtain ⟨c, cs, htext, hc⟩ := hopens
  have hstops : StopsTrivia (e.text ++ (e.after ++ behind)) := by
    rw [htext]
    exact hc.stopsTrivia _
  have hskip := skipTrivia_trivia he.lead pos hstops
  generalize hnext : parseItems codec fuel (skipComma (skipTrivia
    ⟨pos + e.lead.length + e.text.length, e.after ++ behind⟩)) = next
  unfold parseItems
  rw [hskip]
  rw [htext] at hread ⊢
  rw [htext] at hnext
  dsimp only [List.cons_append]
  split
  · rename_i heq
    cases heq
  · rename_i heq
    exact absurd (List.cons.inj heq).1 hc.facts.2.2.2.2.2
  · rename_i heq
    exact absurd (List.cons.inj heq).1 hc.facts.2.2.2.1
  · dsimp only [List.nil_append, List.length_nil, Nat.add_zero, List.cons_append] at hread
    rw [hread]
    exact hnext

theorem parseItems_placed {codec : JsonCodec} {es : List Element} {tail : List Char}
    {nodes : Element → Nat → Node} (hes : ∀ e ∈ es, e.IsItem)
    (hopens : ∀ e ∈ es, ∃ c cs, e.text = c :: cs ∧ Opens c)
    (hvalues : ∀ e ∈ es, Parses codec e.text (nodes e)) (htail : Tail lone es tail)
    (rest : List Char) (pos fuel : Nat) (hfuel : (joined es ++ tail).length < fuel) :
    parseItems codec fuel ⟨pos, joined es ++ (tail ++ ']' :: rest)⟩ =
      .ok ⟨pos + (joined es ++ tail).length + 1, rest⟩ := by
  induction es generalizing tail pos fuel with
  | nil =>
    obtain ⟨fuel, rfl⟩ : ∃ n, fuel = n + 1 := ⟨fuel - 1, by omega⟩
    cases htail with
    | blank ht => exact parseItems_close ht fuel pos rest
    | @loneComma t t' _ ht ht' =>
      obtain ⟨fuel, rfl⟩ : ∃ n, fuel = n + 1 := ⟨fuel - 1, by
        simp only [joined, List.nil_append, List.length_append, List.length_cons] at hfuel
        omega⟩
      have htext : joined [] ++ (t ++ ',' :: t' ++ ']' :: rest) = t ++ ',' :: (t' ++ ']' :: rest) := by
        simp [joined]
      have hcomma : StopsTrivia (',' :: (t' ++ ']' :: rest)) :=
        stopsTrivia_cons (by decide) (by decide) _
      have hclose := @parseItems_close codec t' ht' fuel (pos + t.length + 1) rest
      rw [htext]
      unfold parseItems
      rw [skipTrivia_trivia ht pos hcomma]
      refine hclose.trans ?_
      simp [joined]
      omega
  | cons e es ih =>
    obtain ⟨fuel, rfl⟩ : ∃ n, fuel = n + 1 := ⟨fuel - 1, by omega⟩
    have he := hes e List.mem_cons_self
    obtain ⟨behind, tail', k, htext, hends, htail', hk, hlength, hskip⟩ :=
      behind_element he.after htail (Or.inr rfl : IsClose ']') rest
    obtain ⟨c, cs, hfirst, hc⟩ := hopens e List.mem_cons_self
    have hchars : e.chars.length = e.lead.length + e.text.length + e.after.length := by
      simp [Element.chars, he.head]
      omega
    have hpos : 1 ≤ e.text.length := by
      rw [hfirst]
      simp
    have hmore := ih (fun e' he' => hes e' (List.mem_cons_of_mem _ he'))
      (fun e' he' => hopens e' (List.mem_cons_of_mem _ he'))
      (fun e' he' => hvalues e' (List.mem_cons_of_mem _ he')) htail'
      (pos + e.chars.length + k) fuel (by omega)
    rw [htext, he.head, List.nil_append, parseItems_item he ⟨c, cs, hfirst, hc⟩
      (hvalues e List.mem_cons_self) hends (by omega), hskip]
    have hplace : pos + e.lead.length + e.text.length + e.after.length + k =
        pos + e.chars.length + k := by omega
    rw [hplace, hmore]
    have hstop : pos + e.chars.length + k + (joined es ++ tail').length + 1 =
        pos + (joined (e :: es) ++ tail).length + 1 := by omega
    rw [hstop]

theorem parseValue_bracket (codec : JsonCodec) (fuel pos : Nat) (inner : List Char) :
    parseValue codec (fuel + 1) ⟨pos, '[' :: inner⟩ =
      (parseItems codec fuel ⟨pos + 1, inner⟩).map fun after => (.array pos after.pos, after) := by
  generalize hnext : parseItems codec fuel ⟨pos + 1, inner⟩ = next
  unfold parseValue
  rw [skipTrivia_stops pos (stopsTrivia_cons (by decide) (by decide) _)]
  show (parseItems codec fuel ⟨pos + 1, inner⟩ >>= _) = _
  rw [hnext]
  cases next <;> rfl

theorem parseValue_brace (codec : JsonCodec) (fuel pos : Nat) (inner : List Char) :
    parseValue codec (fuel + 1) ⟨pos, '\x7b' :: inner⟩ =
      (parseMembers codec fuel ⟨pos + 1, inner⟩).map fun p =>
        (.object pos p.2.pos p.1, p.2) := by
  generalize hnext : parseMembers codec fuel ⟨pos + 1, inner⟩ = next
  unfold parseValue
  rw [skipTrivia_stops pos (stopsTrivia_cons (by decide) (by decide) _)]
  show (parseMembers codec fuel ⟨pos + 1, inner⟩ >>= _) = _
  rw [hnext]
  cases next <;> rfl

/-- **A piece that is placed is parsed to its spans**, wherever it stands. -/
theorem parseValue_placed {codec : JsonCodec} (hkeys : ReadsKeys codec atom) {text : List Char}
    {v : Value} {node : Nat → Node} (h : Placed atom lone text v node) : Parses codec text node := by
  induction h with
  | atom hne hchars _ => exact parses_atom hne hchars
  | string hbody _ => exact parses_string hbody
  | @array es tail nodes hes hplaced htail ih =>
    refine parses_of_opens ⟨'[', _, rfl, Or.inr (Or.inr (Or.inl rfl))⟩ fun fuel pos rest hfuel _ => ?_
    have hitems := parseItems_placed hes (fun e he => (hplaced e he).opens) ih htail rest (pos + 1) fuel
      (by simp only [List.length_cons, List.length_append] at hfuel ⊢; omega)
    have htext : '[' :: (joined es ++ tail ++ [']']) ++ rest =
        '[' :: (joined es ++ (tail ++ ']' :: rest)) := by
      simp
    have hlength : pos + ('[' :: (joined es ++ tail ++ [']'])).length =
        pos + 1 + (joined es ++ tail).length + 1 := by
      simp only [List.length_cons, List.length_append, List.length_nil]
      omega
    rw [htext, parseValue_bracket, hitems, hlength]
    rfl
  | @object es tail nodes hes hplaced htail ih =>
    refine parses_of_opens ⟨'\x7b', _, rfl, Or.inr (Or.inl rfl)⟩ fun fuel pos rest hfuel _ => ?_
    have hmembers := parseMembers_placed hkeys hes ih htail rest (pos + 1) fuel
      (by simp only [List.length_cons, List.length_append] at hfuel ⊢; omega)
    have htext : '\x7b' :: (joined es ++ tail ++ ['\x7d']) ++ rest =
        '\x7b' :: (joined es ++ (tail ++ '\x7d' :: rest)) := by
      simp
    have hlength : pos + ('\x7b' :: (joined es ++ tail ++ ['\x7d'])).length =
        pos + 1 + (joined es ++ tail).length + 1 := by
      simp only [List.length_cons, List.length_append, List.length_nil]
      omega
    rw [htext, parseValue_brace, hmembers, hlength]
    rfl

end AnyConverter.JsonEdit
