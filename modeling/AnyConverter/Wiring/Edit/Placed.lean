import AnyConverter.Wiring.Edit.Stripped

/-!
# The structure of a JSON text with comments

`Placed` relates a piece of text to the value it holds and to the spans it is parsed to, wherever it
stands; an object and an array are lists of elements, each with the white space and the comments
around it.

* `readValue_placed`: a piece that is placed reads as its value once it is stripped;
* `placed_of_readValue`: whatever reads is placed, where a comma may stand alone between brackets.
-/

set_option autoImplicit false

namespace AnyConverter.JsonEdit

open JsonReader (isWs skipWs atomChar literalLength collect Atoms readValue readMembers readItems
  readKey readAtom readString)

/-! ## Elements -/

/-- An element of an object or of an array, with the white space and the comments around it. -/
structure Element where
  lead : List Char
  /-- the key, its colon and what stands between and behind them; nothing in an array -/
  head : List Char
  text : List Char
  after : List Char
  key : String
  value : Value

namespace Element

def chars (e : Element) : List Char := e.lead ++ e.head ++ e.text ++ e.after

def field (e : Element) : String × Value := (e.key, e.value)

structure IsItem (e : Element) : Prop where
  lead : Trivia .plain e.lead
  after : Trivia .plain e.after
  head : e.head = []

structure IsMember (atom : Atoms) (e : Element) : Prop where
  lead : Trivia .plain e.lead
  after : Trivia .plain e.after
  head : ∃ body gap gap', e.head = '"' :: body ++ gap ++ ':' :: gap' ∧
    literalLength false body = some body.length ∧ atom ('"' :: body) = some (.string e.key) ∧
    Trivia .plain gap ∧ Trivia .plain gap'

end Element

/-- The elements, with a comma between any two. -/
def joined : List Element → List Char
  | [] => []
  | [e] => e.chars
  | e :: es => e.chars ++ ',' :: joined es

/-- What may stand between the last element and the closing bracket; where there is none, whether a
comma may is for the reader to say. -/
inductive Tail (lone : Prop) : List Element → List Char → Prop
  | blank {t} : Trivia .plain t → Tail lone [] t
  | loneComma {t t'} : lone → Trivia .plain t → Trivia .plain t' → Tail lone [] (t ++ ',' :: t')
  | last {e es} : Tail lone (e :: es) []
  | trailingComma {e es t} : Trivia .plain t → Tail lone (e :: es) (',' :: t)

/-- The members of an object whose first element stands at a place. -/
def memberNodes (nodes : Element → Nat → Node) : Nat → List Element → List Member
  | _, [] => []
  | pos, e :: es =>
    .mk e.key (pos + e.lead.length) (nodes e (pos + e.lead.length + e.head.length)) ::
      memberNodes nodes (pos + e.chars.length + 1) es

/-- A piece of text that holds a value, and the spans it is parsed to at a place. -/
inductive Placed (atom : Atoms) (lone : Prop) : List Char → Value → (Nat → Node) → Prop
  | atom {token v} : token ≠ [] → (∀ c ∈ token, atomChar c = true) → atom token = some v →
    Placed atom lone token v fun pos => .scalar pos (pos + token.length)
  | string {body v} : literalLength false body = some body.length → atom ('"' :: body) = some v →
    Placed atom lone ('"' :: body) v fun pos => .scalar pos (pos + 1 + body.length)
  | array {es tail} {nodes : Element → Nat → Node} : (∀ e ∈ es, e.IsItem) →
    (∀ e ∈ es, Placed atom lone e.text e.value (nodes e)) → Tail lone es tail →
    Placed atom lone ('[' :: (joined es ++ tail ++ [']'])) (.array (es.map Element.value))
      fun pos => .array pos (pos + 1 + (joined es ++ tail).length + 1)
  | object {es tail} {nodes : Element → Nat → Node} : (∀ e ∈ es, e.IsMember atom) →
    (∀ e ∈ es, Placed atom lone e.text e.value (nodes e)) → Tail lone es tail →
    Placed atom lone ('\x7b' :: (joined es ++ tail ++ ['\x7d']))
      (.object (collect (es.map Element.field)))
      fun pos => .object pos (pos + 1 + (joined es ++ tail).length + 1)
        (memberNodes nodes (pos + 1) es)

variable {atom : Atoms} {lone : Prop}

/-- How a piece that is placed begins. -/
def Opens (c : Char) : Prop := c = '"' ∨ c = '\x7b' ∨ c = '[' ∨ atomChar c = true

theorem Placed.opens {text : List Char} {v : Value} {node : Nat → Node}
    (h : Placed atom lone text v node) : ∃ c cs, text = c :: cs ∧ Opens c := by
  cases h with
  | @atom token v hne hchars hread =>
    obtain ⟨c, cs, rfl⟩ := List.exists_cons_of_ne_nil hne
    exact ⟨c, cs, rfl, Or.inr (Or.inr (Or.inr (hchars c List.mem_cons_self)))⟩
  | string => exact ⟨'"', _, rfl, Or.inl rfl⟩
  | array => exact ⟨'[', _, rfl, Or.inr (Or.inr (Or.inl rfl))⟩
  | object => exact ⟨'\x7b', _, rfl, Or.inr (Or.inl rfl)⟩

theorem Opens.facts {c : Char} (h : Opens c) :
    isWs c = false ∧ isSpace c = false ∧ c ≠ '/' ∧ c ≠ ',' ∧ c ≠ '\x7d' ∧ c ≠ ']' := by
  rcases h with rfl | rfl | rfl | h
  · decide
  · decide
  · decide
  · refine ⟨?_, ?_, ?_, ?_, ?_, ?_⟩
    · by_contra hws
      rw [Bool.not_eq_false] at hws
      unfold isWs at hws
      simp only [Bool.or_eq_true, beq_iff_eq] at hws
      rcases hws with ((rfl | rfl) | rfl) | rfl <;> exact absurd h (by decide)
    · by_contra hws
      rw [Bool.not_eq_false] at hws
      unfold isSpace at hws
      simp only [Bool.or_eq_true, beq_iff_eq] at hws
      rcases hws with (((rfl | rfl) | rfl) | rfl) | rfl <;> exact absurd h (by decide)
    all_goals rintro rfl; exact absurd h (by decide)

/-- What opens a value stays when the text is stripped. -/
theorem strip_opens {c : Char} (h : Opens c) (cs : List Char) :
    (∃ r, stripJsonc (c :: cs) = c :: r) ∧ closes (blankComments .code (c :: cs)) = false := by
  obtain ⟨-, hspace, hslash, hcomma, hbrace, hbracket⟩ := h.facts
  by_cases hquote : c = '"'
  · subst hquote
    exact ⟨⟨_, strip_quote cs⟩, closes_quote cs⟩
  · refine ⟨⟨_, strip_plain ⟨hquote, hslash, hcomma⟩ cs⟩, ?_⟩
    rw [closes_plain ⟨hquote, hslash⟩ hspace]
    simp [hbrace, hbracket]

theorem skipWs_strip_placed {text : List Char} {v : Value} {node : Nat → Node}
    (h : Placed atom lone text v node) (rest : List Char) :
    skipWs (stripJsonc (text ++ rest)) = stripJsonc (text ++ rest) := by
  obtain ⟨c, cs, rfl, hc⟩ := h.opens
  obtain ⟨⟨r, hr⟩, -⟩ := strip_opens hc (cs ++ rest)
  rw [List.cons_append, hr, JsonReader.skipWs_cons hc.facts.1]

/-! ## Reading what is placed -/

/-- What follows does not go on with a literal. -/
def Delimited (rest : List Char) : Prop := ∀ c r, stripJsonc rest = c :: r → atomChar c = false

theorem atomChar_of_isWs {c : Char} (h : isWs c = true) : atomChar c = false := by
  unfold isWs at h
  simp only [Bool.or_eq_true, beq_iff_eq] at h
  rcases h with ((rfl | rfl) | rfl) | rfl <;> decide

/-- A closing bracket. -/
def IsClose (c : Char) : Prop := c = '\x7d' ∨ c = ']'

theorem delimited_after {t : List Char} (ht : Trivia .plain t) {c : Char} (hc : c = ',' ∨ IsClose c)
    (rest : List Char) : Delimited (t ++ c :: rest) := by
  intro d r hstrip
  obtain ⟨blank, hblank, -, heq⟩ := strip_trivia ht
  rw [(heq _).1] at hstrip
  cases blank with
  | nil =>
    obtain ⟨e, r', hhead, he⟩ := head?_strip c rest
    rw [List.nil_append, hhead] at hstrip
    obtain ⟨rfl, -⟩ := List.cons.inj hstrip
    rcases he with rfl | rfl
    · rcases hc with rfl | rfl | rfl <;> decide
    · decide
  | cons b blank =>
    obtain ⟨rfl, -⟩ := List.cons.inj hstrip
    exact atomChar_of_isWs (blank_cons.mp hblank).1

theorem strip_close {c : Char} (hc : IsClose c) (rest : List Char) :
    stripJsonc (c :: rest) = c :: stripJsonc rest ∧
      skipWs (stripJsonc (c :: rest)) = c :: stripJsonc rest ∧
      closes (blankComments .code (c :: rest)) = true := by
  have hplain : IsPlain c := by rcases hc with rfl | rfl <;> decide
  have hws : isWs c = false := by rcases hc with rfl | rfl <;> decide
  have hspace : isSpace c = false := by rcases hc with rfl | rfl <;> decide
  refine ⟨strip_plain hplain rest, ?_, ?_⟩
  · rw [strip_plain hplain, JsonReader.skipWs_cons hws]
  · rw [closes_plain ⟨hplain.1, hplain.2.1⟩ hspace]
    rcases hc with rfl | rfl <;> decide

/-- A comma before a closing bracket is passed over. -/
theorem skipWs_comma_close {t : List Char} (ht : Trivia .plain t) {c : Char} (hc : IsClose c)
    (rest : List Char) :
    skipWs (stripJsonc (',' :: (t ++ c :: rest))) = c :: stripJsonc rest := by
  obtain ⟨blank, hblank, -, heq⟩ := strip_trivia ht
  have hcloses : closes (blankComments .code (t ++ c :: rest)) = true := by
    rw [(heq _).2, (strip_close hc rest).2.2]
  rw [strip_comma, if_pos hcloses]
  have hspace : skipWs (' ' :: stripJsonc (t ++ c :: rest)) = skipWs (stripJsonc (t ++ c :: rest)) :=
    rfl
  rw [hspace, skipWs_strip_trivia ht, (strip_close hc rest).2.1]

theorem skipWs_tail {es : List Element} {tail : List Char} (h : Tail lone es tail) {c : Char}
    (hc : IsClose c) (rest : List Char) :
    skipWs (stripJsonc (tail ++ c :: rest)) = c :: stripJsonc rest := by
  cases h with
  | blank ht => rw [skipWs_strip_trivia ht, (strip_close hc rest).2.1]
  | loneComma _ ht ht' =>
    rw [List.append_assoc, skipWs_strip_trivia ht, List.cons_append, skipWs_comma_close ht' hc]
  | last => exact (strip_close hc rest).2.1
  | trailingComma ht => exact skipWs_comma_close ht hc rest

/-- The comma between two elements stays. -/
theorem skipWs_comma {t : List Char} (ht : Trivia .plain t) {c : Char} (hc : Opens c)
    (rest : List Char) :
    skipWs (stripJsonc (',' :: (t ++ c :: rest))) = ',' :: stripJsonc (t ++ c :: rest) := by
  obtain ⟨blank, hblank, -, heq⟩ := strip_trivia ht
  have hcloses : closes (blankComments .code (t ++ c :: rest)) = false := by
    rw [(heq _).2, (strip_opens hc rest).2]
  rw [strip_comma, if_neg (by simp [hcloses])]
  exact JsonReader.skipWs_cons (by decide) _

/-- A key of an object is read, and the value behind it is ahead. -/
theorem readKey_member {e : Element} (h : e.IsMember atom) (rest : List Char) :
    ∃ after, readKey atom (skipWs (stripJsonc (e.lead ++ e.head ++ rest))) = some (e.key, after) ∧
      skipWs after = skipWs (stripJsonc rest) := by
  obtain ⟨body, gap, gap', hhead, hbody, hkey, hgap, hgap'⟩ := h.head
  refine ⟨stripJsonc (gap' ++ rest), ?_, skipWs_strip_trivia hgap' rest⟩
  have htext : e.lead ++ e.head ++ rest =
      e.lead ++ ('"' :: body ++ (gap ++ ':' :: (gap' ++ rest))) := by
    rw [hhead]
    simp
  have hquote : skipWs ('"' :: body ++ stripJsonc (gap ++ ':' :: (gap' ++ rest))) =
      '"' :: (body ++ stripJsonc (gap ++ ':' :: (gap' ++ rest))) :=
    JsonReader.skipWs_cons (by decide) _
  have hcolon : skipWs (stripJsonc (gap ++ ':' :: (gap' ++ rest))) =
      ':' :: stripJsonc (gap' ++ rest) := by
    rw [skipWs_strip_trivia hgap, strip_plain (by decide), JsonReader.skipWs_cons (by decide)]
  rw [htext, skipWs_strip_trivia h.lead, strip_literal hbody, hquote]
  unfold readKey
  simp [JsonReader.literalLength_append hbody, hkey, Value.asStr, hcolon]

theorem readString_literal {body : List Char} {v : Value}
    (hbody : literalLength false body = some body.length) (hread : atom ('"' :: body) = some v)
    (rest : List Char) : readString atom (body ++ rest) = some (v, rest) := by
  unfold readString
  simp [JsonReader.literalLength_append hbody, hread]

theorem readAtom_token {token : List Char} {v : Value} (hne : token ≠ [])
    (hchars : ∀ c ∈ token, atomChar c = true) (hread : atom token = some v) {rest : List Char}
    (hrest : ∀ c r, rest = c :: r → atomChar c = false) :
    readAtom atom (token ++ rest) = some (v, rest) := by
  have htoken : (token ++ rest).takeWhile atomChar = token := by
    rw [List.takeWhile_append_of_pos hchars]
    cases rest with
    | nil => simp
    | cons c r =>
      rw [List.takeWhile_cons_of_neg (by simp [hrest c r rfl]), List.append_nil]
  unfold readAtom
  simp [htoken, hne, hread]

/-- A piece reads as its value, once it is stripped. -/
def Reads (atom : Atoms) (text : List Char) (v : Value) : Prop :=
  ∀ fuel rest, text.length < fuel → Delimited rest →
    readValue atom fuel (stripJsonc (text ++ rest)) = some (v, stripJsonc rest)

/-- What stands behind an element of several is a comma, or what closes them. -/
theorem delimited_joined {e : Element} (he : Trivia .plain e.after) {es : List Element}
    {tail : List Char} (htail : Tail lone (e :: es) tail) {close : Char} (hclose : IsClose close)
    (rest : List Char) : Delimited (e.after ++ (tail ++ close :: rest)) := by
  cases htail with
  | last => exact delimited_after he (Or.inr hclose) rest
  | trailingComma _ => exact delimited_after he (Or.inl rfl) _

theorem joined_cons_cons (e e' : Element) (es : List Element) :
    joined (e :: e' :: es) = e.chars ++ ',' :: joined (e' :: es) := rfl

theorem joined_cons (e : Element) (es : List Element) :
    ∃ more, joined (e :: es) = e.chars ++ more := by
  cases es with
  | nil => exact ⟨[], (List.append_nil _).symm⟩
  | cons e' es => exact ⟨_, joined_cons_cons e e' es⟩

theorem Tail.of_cons {e e' : Element} {es : List Element} {tail : List Char}
    (h : Tail lone (e :: e' :: es) tail) : Tail lone (e' :: es) tail := by
  cases h with
  | last => exact .last
  | trailingComma ht => exact .trailingComma ht

theorem readMembers_placed {es : List Element} {tail : List Char} (hne : es ≠ [])
    (hes : ∀ e ∈ es, e.IsMember atom) (hopens : ∀ e ∈ es, ∃ c cs, e.text = c :: cs ∧ Opens c)
    (hreads : ∀ e ∈ es, Reads atom e.text e.value) (htail : Tail lone es tail) (rest : List Char)
    (fuel : Nat) (hfuel : (joined es).length < fuel) :
    readMembers atom fuel (skipWs (stripJsonc (joined es ++ (tail ++ '\x7d' :: rest)))) =
      some (es.map Element.field, stripJsonc rest) := by
  have hclose : IsClose '\x7d' := Or.inl rfl
  induction es generalizing fuel with
  | nil => exact absurd rfl hne
  | cons e es ih =>
    obtain ⟨fuel, rfl⟩ : ∃ n, fuel = n + 1 := ⟨fuel - 1, by omega⟩
    have he := hes e List.mem_cons_self
    obtain ⟨c, cs, htext, hc⟩ := hopens e List.mem_cons_self
    have hread := hreads e List.mem_cons_self
    -- the key and the value of the first member, whatever follows it
    have hfirst : ∀ next : List Char, e.text.length < fuel → Delimited (e.after ++ next) →
        ∃ after, readKey atom (skipWs (stripJsonc (e.chars ++ next))) = some (e.key, after) ∧
          readValue atom fuel (skipWs after) = some (e.value, stripJsonc (e.after ++ next)) := by
      intro next hlength hnext
      obtain ⟨after, hkey, hafter⟩ := readKey_member he (e.text ++ (e.after ++ next))
      refine ⟨after, ?_, ?_⟩
      · rw [← hkey]
        unfold Element.chars
        simp
      · have hstays : skipWs (stripJsonc (e.text ++ (e.after ++ next))) =
            stripJsonc (e.text ++ (e.after ++ next)) := by
          obtain ⟨⟨r, hr⟩, -⟩ := strip_opens hc (cs ++ (e.after ++ next))
          rw [htext, List.cons_append, hr, JsonReader.skipWs_cons hc.facts.1]
        rw [hafter, hstays]
        exact hread fuel _ hlength hnext
    cases es with
    | nil =>
      have hlength : e.text.length < fuel := by
        obtain ⟨body, gap, gap', hhead, -⟩ := he.head
        simp only [joined, Element.chars, List.length_append, hhead, List.length_cons] at hfuel
        omega
      obtain ⟨after, hkey, hvalue⟩ := hfirst (tail ++ '\x7d' :: rest) hlength
        (delimited_joined he.after htail hclose rest)
      have hend : skipWs (stripJsonc (e.after ++ (tail ++ '\x7d' :: rest))) =
          '\x7d' :: stripJsonc rest := by
        rw [skipWs_strip_trivia he.after, skipWs_tail htail hclose]
      unfold readMembers
      rw [joined, hkey]
      simp only [Option.bind_eq_bind, Option.bind_some, hvalue, hend]
      rfl
    | cons e' es =>
      have hlength : e.text.length < fuel ∧ (joined (e' :: es)).length < fuel := by
        obtain ⟨body, gap, gap', hhead, -⟩ := he.head
        rw [joined_cons_cons] at hfuel
        simp only [Element.chars, List.length_append, hhead, List.length_cons] at hfuel
        omega
      have htext' : joined (e :: e' :: es) ++ (tail ++ '\x7d' :: rest) =
          e.chars ++ (',' :: (joined (e' :: es) ++ (tail ++ '\x7d' :: rest))) := by
        rw [joined_cons_cons]
        simp
      obtain ⟨after, hkey, hvalue⟩ := hfirst _ hlength.1 (delimited_after he.after (Or.inl rfl) _)
      have hmore := ih (List.cons_ne_nil _ _) (fun x hx => hes x (List.mem_cons_of_mem _ hx))
        (fun x hx => hopens x (List.mem_cons_of_mem _ hx))
        (fun x hx => hreads x (List.mem_cons_of_mem _ hx)) htail.of_cons fuel hlength.2
      have hcomma : skipWs (stripJsonc (e.after ++
            ',' :: (joined (e' :: es) ++ (tail ++ '\x7d' :: rest)))) =
          ',' :: stripJsonc (joined (e' :: es) ++ (tail ++ '\x7d' :: rest)) := by
        have he' := hes e' (List.mem_cons_of_mem _ List.mem_cons_self)
        obtain ⟨body, gap, gap', hhead, -⟩ := he'.head
        obtain ⟨more, hjoined⟩ := joined_cons e' es
        have hopen : joined (e' :: es) ++ (tail ++ '\x7d' :: rest) = e'.lead ++ '"' ::
            (body ++ gap ++ ':' :: gap' ++ e'.text ++ e'.after ++ more ++
              (tail ++ '\x7d' :: rest)) := by
          rw [hjoined, Element.chars, hhead]
          simp
        rw [skipWs_strip_trivia he.after, hopen, skipWs_comma he'.lead (Or.inl rfl)]
      unfold readMembers
      rw [htext', hkey]
      simp only [Option.bind_eq_bind, Option.bind_some, hvalue, hcomma, hmore]
      rfl

theorem readItems_placed {es : List Element} {tail : List Char} (hne : es ≠ [])
    (hes : ∀ e ∈ es, e.IsItem) (hopens : ∀ e ∈ es, ∃ c cs, e.text = c :: cs ∧ Opens c)
    (hreads : ∀ e ∈ es, Reads atom e.text e.value) (htail : Tail lone es tail) (rest : List Char)
    (fuel : Nat) (hfuel : (joined es).length + 1 < fuel) :
    readItems atom fuel (skipWs (stripJsonc (joined es ++ (tail ++ ']' :: rest)))) =
      some (es.map Element.value, stripJsonc rest) := by
  have hclose : IsClose ']' := Or.inr rfl
  induction es generalizing fuel with
  | nil => exact absurd rfl hne
  | cons e es ih =>
    obtain ⟨fuel, rfl⟩ : ∃ n, fuel = n + 1 := ⟨fuel - 1, by omega⟩
    have he := hes e List.mem_cons_self
    obtain ⟨c, cs, htext, hc⟩ := hopens e List.mem_cons_self
    have hread := hreads e List.mem_cons_self
    -- the value of the first item, whatever follows it
    have hfirst : ∀ next : List Char, e.text.length < fuel → Delimited (e.after ++ next) →
        readValue atom fuel (skipWs (stripJsonc (e.chars ++ next))) =
          some (e.value, stripJsonc (e.after ++ next)) := by
      intro next hlength hnext
      have hchars : e.chars ++ next = e.lead ++ (e.text ++ (e.after ++ next)) := by
        rw [Element.chars, he.head]
        simp
      have hstays : skipWs (stripJsonc (e.text ++ (e.after ++ next))) =
          stripJsonc (e.text ++ (e.after ++ next)) := by
        obtain ⟨⟨r, hr⟩, -⟩ := strip_opens hc (cs ++ (e.after ++ next))
        rw [htext, List.cons_append, hr, JsonReader.skipWs_cons hc.facts.1]
      rw [hchars, skipWs_strip_trivia he.lead, hstays]
      exact hread fuel _ hlength hnext
    cases es with
    | nil =>
      have hlength : e.text.length < fuel := by
        simp only [joined, Element.chars, List.length_append] at hfuel
        omega
      have hvalue := hfirst (tail ++ ']' :: rest) hlength
        (delimited_joined he.after htail hclose rest)
      have hend : skipWs (stripJsonc (e.after ++ (tail ++ ']' :: rest))) =
          ']' :: stripJsonc rest := by
        rw [skipWs_strip_trivia he.after, skipWs_tail htail hclose]
      unfold readItems
      rw [joined, hvalue]
      simp only [Option.bind_eq_bind, Option.bind_some, hend]
      rfl
    | cons e' es =>
      have hlength : e.text.length < fuel ∧ (joined (e' :: es)).length + 1 < fuel := by
        rw [joined_cons_cons] at hfuel
        simp only [Element.chars, List.length_append, List.length_cons] at hfuel
        omega
      have htext' : joined (e :: e' :: es) ++ (tail ++ ']' :: rest) =
          e.chars ++ (',' :: (joined (e' :: es) ++ (tail ++ ']' :: rest))) := by
        rw [joined_cons_cons]
        simp
      have hvalue := hfirst (',' :: (joined (e' :: es) ++ (tail ++ ']' :: rest))) hlength.1
        (delimited_after he.after (Or.inl rfl) _)
      have hmore := ih (List.cons_ne_nil _ _) (fun x hx => hes x (List.mem_cons_of_mem _ hx))
        (fun x hx => hopens x (List.mem_cons_of_mem _ hx))
        (fun x hx => hreads x (List.mem_cons_of_mem _ hx)) htail.of_cons fuel hlength.2
      have hcomma : skipWs (stripJsonc (e.after ++
            ',' :: (joined (e' :: es) ++ (tail ++ ']' :: rest)))) =
          ',' :: stripJsonc (joined (e' :: es) ++ (tail ++ ']' :: rest)) := by
        have he' := hes e' (List.mem_cons_of_mem _ List.mem_cons_self)
        obtain ⟨c', cs', htext'', hc'⟩ := hopens e' (List.mem_cons_of_mem _ List.mem_cons_self)
        obtain ⟨more, hjoined⟩ := joined_cons e' es
        have hopen : joined (e' :: es) ++ (tail ++ ']' :: rest) = e'.lead ++ c' ::
            (cs' ++ e'.after ++ more ++ (tail ++ ']' :: rest)) := by
          rw [hjoined, Element.chars, he'.head, htext'']
          simp
        rw [skipWs_strip_trivia he.after, hopen, skipWs_comma he'.lead hc']
      unfold readItems
      rw [htext', hvalue]
      simp only [Option.bind_eq_bind, Option.bind_some, hcomma, hmore]
      rfl

/-- How the elements begin, once they are stripped. -/
theorem skipWs_joined_opens {es : List Element} (hne : es ≠ [])
    (hes : ∀ e ∈ es, Trivia .plain e.lead ∧ ∃ c cs, e.head ++ e.text = c :: cs ∧ Opens c)
    (rest : List Char) :
    ∃ c r, skipWs (stripJsonc (joined es ++ rest)) = c :: r ∧ Opens c := by
  cases es with
  | nil => exact absurd rfl hne
  | cons e es =>
    obtain ⟨hlead, c, cs, hhead, hc⟩ := hes e List.mem_cons_self
    obtain ⟨more, hjoined⟩ := joined_cons e es
    have hopen : joined (e :: es) ++ rest = e.lead ++ c :: (cs ++ e.after ++ more ++ rest) := by
      rw [hjoined, Element.chars, List.append_assoc e.lead, hhead]
      simp
    obtain ⟨⟨r, hr⟩, -⟩ := strip_opens hc (cs ++ e.after ++ more ++ rest)
    refine ⟨c, r, ?_, hc⟩
    rw [hopen, skipWs_strip_trivia hlead, hr, JsonReader.skipWs_cons hc.facts.1]

theorem readValue_array {es : List Element} {tail : List Char} (hes : ∀ e ∈ es, e.IsItem)
    (hopens : ∀ e ∈ es, ∃ c cs, e.text = c :: cs ∧ Opens c)
    (hreads : ∀ e ∈ es, Reads atom e.text e.value) (htail : Tail lone es tail) :
    Reads atom ('[' :: (joined es ++ tail ++ [']'])) (.array (es.map Element.value)) := by
  intro fuel rest hfuel _
  obtain ⟨fuel, rfl⟩ : ∃ n, fuel = n + 1 := ⟨fuel - 1, by omega⟩
  have hopen : stripJsonc ('[' :: (joined es ++ tail ++ [']']) ++ rest) =
      '[' :: stripJsonc (joined es ++ (tail ++ ']' :: rest)) := by
    rw [List.cons_append, strip_plain (by decide)]
    simp
  rw [hopen]
  cases es with
  | nil =>
    have hend : skipWs (stripJsonc (joined [] ++ (tail ++ ']' :: rest))) = ']' :: stripJsonc rest :=
      skipWs_tail htail (Or.inr rfl) rest
    simp [readValue, hend]
  | cons e es =>
    have hmore := readItems_placed (List.cons_ne_nil _ _) hes hopens hreads htail rest fuel
      (by simp only [List.length_cons, List.length_append] at hfuel ⊢; omega)
    obtain ⟨c, r, hfirst, hc⟩ := skipWs_joined_opens (List.cons_ne_nil e es) (fun x hx => by
      obtain ⟨c, cs, htext, hc⟩ := hopens x hx
      exact ⟨(hes x hx).lead, c, cs, by rw [(hes x hx).head, htext]; rfl, hc⟩)
      (tail ++ ']' :: rest)
    rw [hfirst] at hmore
    have hbracket := hc.facts.2.2.2.2.2
    simp only [readValue, hfirst]
    split
    · rename_i heq
      exact absurd (List.cons.inj heq).1 hbracket
    · rw [hmore]
      rfl

theorem readValue_object {es : List Element} {tail : List Char} (hes : ∀ e ∈ es, e.IsMember atom)
    (hopens : ∀ e ∈ es, ∃ c cs, e.text = c :: cs ∧ Opens c)
    (hreads : ∀ e ∈ es, Reads atom e.text e.value) (htail : Tail lone es tail) :
    Reads atom ('\x7b' :: (joined es ++ tail ++ ['\x7d']))
      (.object (collect (es.map Element.field))) := by
  intro fuel rest hfuel _
  obtain ⟨fuel, rfl⟩ : ∃ n, fuel = n + 1 := ⟨fuel - 1, by omega⟩
  have hopen : stripJsonc ('\x7b' :: (joined es ++ tail ++ ['\x7d']) ++ rest) =
      '\x7b' :: stripJsonc (joined es ++ (tail ++ '\x7d' :: rest)) := by
    rw [List.cons_append, strip_plain (by decide)]
    simp
  rw [hopen]
  cases es with
  | nil =>
    have hend : skipWs (stripJsonc (joined [] ++ (tail ++ '\x7d' :: rest))) =
        '\x7d' :: stripJsonc rest := skipWs_tail htail (Or.inl rfl) rest
    simp [readValue, hend, collect]
  | cons e es =>
    have hmore := readMembers_placed (List.cons_ne_nil _ _) hes hopens hreads htail rest fuel
      (by simp only [List.length_cons, List.length_append] at hfuel ⊢; omega)
    obtain ⟨c, r, hfirst, hc⟩ := skipWs_joined_opens (List.cons_ne_nil e es) (fun x hx => by
      obtain ⟨body, gap, gap', hhead, -⟩ := (hes x hx).head
      exact ⟨(hes x hx).lead, '"', body ++ gap ++ ':' :: gap' ++ x.text,
        by rw [hhead]; simp, Or.inl rfl⟩) (tail ++ '\x7d' :: rest)
    rw [hfirst] at hmore
    have hbrace := hc.facts.2.2.2.2.1
    simp only [readValue, hfirst]
    split
    · rename_i heq
      exact absurd (List.cons.inj heq).1 hbrace
    · rw [hmore]
      rfl

/-- **A piece that is placed reads as its value, once it is stripped.** -/
theorem readValue_placed {text : List Char} {v : Value} {node : Nat → Node}
    (h : Placed atom lone text v node) : Reads atom text v := by
  induction h with
  | @atom token v hne hchars hread =>
    intro fuel rest hfuel hrest
    obtain ⟨fuel, rfl⟩ : ∃ n, fuel = n + 1 := ⟨fuel - 1, by omega⟩
    obtain ⟨c, cs, rfl⟩ := List.exists_cons_of_ne_nil hne
    have hc := hchars c List.mem_cons_self
    rw [strip_atom hchars]
    have hstep : readValue atom (fuel + 1) (c :: cs ++ stripJsonc rest) =
        readAtom atom (c :: cs ++ stripJsonc rest) := by
      unfold readValue
      split
      · rename_i heq
        cases heq
      · rename_i heq
        rw [(List.cons.inj heq).1] at hc
        exact absurd hc (by decide)
      · rename_i heq
        rw [(List.cons.inj heq).1] at hc
        exact absurd hc (by decide)
      · rename_i heq
        rw [(List.cons.inj heq).1] at hc
        exact absurd hc (by decide)
      · rfl
    rw [hstep]
    exact readAtom_token hne hchars hread hrest
  | @string body v hbody hread =>
    intro fuel rest hfuel _
    obtain ⟨fuel, rfl⟩ : ∃ n, fuel = n + 1 := ⟨fuel - 1, by omega⟩
    rw [strip_literal hbody]
    exact readString_literal hbody hread _
  | array hes hplaced htail ih => exact readValue_array hes (fun e he => (hplaced e he).opens) ih htail
  | object hes hplaced htail ih =>
    exact readValue_object hes (fun e he => (hplaced e he).opens) ih htail

/-! ## Whatever reads is placed -/

/-- The first character of a stripped text, when it is no white space, is the text's own. -/
theorem strip_eq_cons {cs r : List Char} {c : Char} (h : stripJsonc cs = c :: r)
    (hc : isWs c = false) : ∃ cs', cs = c :: cs' := by
  cases cs with
  | nil => cases h
  | cons d cs =>
    obtain ⟨e, r', hstrip, he⟩ := head?_strip d cs
    rw [hstrip] at h
    obtain ⟨rfl, -⟩ := List.cons.inj h
    rcases he with rfl | rfl
    · exact ⟨cs, rfl⟩
    · exact absurd hc (by decide)

/-- What a value is read from opens one. -/
theorem opens_of_readValue {fuel : Nat} {c : Char} {r rest : List Char} {v : Value}
    (h : readValue atom fuel (c :: r) = some (v, rest)) : Opens c := by
  cases fuel with
  | zero => cases h
  | succ fuel =>
    by_cases hchar : atomChar c = true
    · exact Or.inr (Or.inr (Or.inr hchar))
    · unfold readValue at h
      split at h
      · rename_i heq
        cases heq
      · rename_i heq
        exact Or.inr (Or.inl (List.cons.inj heq).1)
      · rename_i heq
        exact Or.inr (Or.inr (Or.inl (List.cons.inj heq).1))
      · rename_i heq
        exact Or.inl (List.cons.inj heq).1
      · simp [readAtom, hchar] at h

/-- What stands before an opening character is white space and comments. -/
theorem trivia_of_opens {cs r : List Char} {c : Char} (h : skipWs (stripJsonc cs) = c :: r)
    (hc : isSpace c = false ∧ c ≠ '\x7d' ∧ c ≠ ']') :
    ∃ t rest, cs = t ++ c :: rest ∧ stripJsonc (c :: rest) = c :: r ∧ Trivia .plain t := by
  obtain ⟨t, rest, hcs, hstrip, ht | ⟨hclose, -⟩⟩ := trivia_of_skipWs h
  · exact ⟨t, rest, hcs, hstrip, ht⟩
  · rcases hclose with hspace | hbrace | hbracket
    · rw [hc.1] at hspace
      cases hspace
    · exact absurd hbrace hc.2.1
    · exact absurd hbracket hc.2.2

/-- What stands between the last element and the closing bracket. -/
theorem tail_of_close {cs r : List Char} {c : Char} (h : skipWs (stripJsonc cs) = c :: r)
    (hc : IsClose c) :
    ∃ t rest, cs = t ++ c :: rest ∧ stripJsonc rest = r ∧
      (Trivia .plain t ∨ ∃ u u', t = u ++ ',' :: u' ∧ Trivia .plain u ∧ Trivia .plain u') := by
  have hplain : IsPlain c := by rcases hc with rfl | rfl <;> decide
  obtain ⟨t, rest, hcs, hstrip, ht | ⟨-, hcomma⟩⟩ := trivia_of_skipWs h
  · exact ⟨t, rest, hcs, strip_of_plain hplain hstrip, Or.inl ht⟩
  · exact ⟨t, rest, hcs, strip_of_plain hplain hstrip, Or.inr hcomma⟩

theorem key_of_readKey {cs after : List Char} {key : String}
    (h : readKey atom (skipWs (stripJsonc cs)) = some (key, after)) :
    ∃ lead body gap rest, cs = lead ++ ('"' :: body ++ gap ++ ':' :: rest) ∧ Trivia .plain lead ∧
      literalLength false body = some body.length ∧ atom ('"' :: body) = some (.string key) ∧
      Trivia .plain gap ∧ stripJsonc rest = after := by
  unfold readKey at h
  split at h
  · rename_i r hquote
    obtain ⟨n, hn, h⟩ := Option.bind_eq_some_iff.mp h
    obtain ⟨v, hv, h⟩ := Option.bind_eq_some_iff.mp h
    obtain ⟨text, htext, h⟩ := Option.bind_eq_some_iff.mp h
    split at h
    · rename_i after' hcolon
      cases h
      obtain ⟨lead, rest, rfl, hstrip, hlead⟩ := trivia_of_opens hquote (by decide)
      rw [strip_quote] at hstrip
      obtain ⟨-, rfl⟩ := List.cons.inj hstrip
      obtain ⟨body, rest', rfl, hlength, hbody, hinside⟩ := @literal_of_strip false rest n hn
      have hinside' : blankTrailingCommas .string (blankComments .string (body ++ rest')) =
          body ++ stripJsonc rest' := hinside
      rw [hinside'] at hv hcolon
      subst hlength
      rw [List.drop_left] at hcolon
      rw [List.take_left] at hv
      obtain ⟨gap, rest'', rfl, hstrip', hgap⟩ := trivia_of_opens hcolon (by decide)
      refine ⟨lead, body, gap, rest'', by simp, hlead, hbody, ?_, hgap,
        strip_of_plain (by decide) hstrip'⟩
      rw [hv]
      cases v with
      | string s => exact congrArg (fun s => some (Value.string s)) (Option.some.inj htext)
      | _ => cases htext
    · cases h
  · cases h

section
variable (atom)

def ValueBack (fuel : Nat) : Prop :=
  ∀ cs v rest', readValue atom fuel (stripJsonc cs) = some (v, rest') →
    ∃ text rest node, cs = text ++ rest ∧ stripJsonc rest = rest' ∧ Placed atom True text v node

def MembersBack (fuel : Nat) : Prop :=
  ∀ cs fields rest', readMembers atom fuel (skipWs (stripJsonc cs)) = some (fields, rest') →
    ∃ es tail rest, cs = joined es ++ (tail ++ '\x7d' :: rest) ∧ stripJsonc rest = rest' ∧ es ≠ [] ∧
      (∀ e ∈ es, e.IsMember atom) ∧ (∀ e ∈ es, ∃ node, Placed atom True e.text e.value node) ∧
      Tail True es tail ∧ es.map Element.field = fields

def ItemsBack (fuel : Nat) : Prop :=
  ∀ cs items rest', readItems atom fuel (skipWs (stripJsonc cs)) = some (items, rest') →
    ∃ es tail rest, cs = joined es ++ (tail ++ ']' :: rest) ∧ stripJsonc rest = rest' ∧ es ≠ [] ∧
      (∀ e ∈ es, e.IsItem) ∧ (∀ e ∈ es, ∃ node, Placed atom True e.text e.value node) ∧
      Tail True es tail ∧ es.map Element.value = items

end

/-- A value behind white space and comments. -/
theorem ValueBack.behind {fuel : Nat} (h : ValueBack atom fuel) {cs rest' : List Char} {v : Value}
    (hread : readValue atom fuel (skipWs (stripJsonc cs)) = some (v, rest')) :
    ∃ t text rest node, cs = t ++ (text ++ rest) ∧ Trivia .plain t ∧ stripJsonc rest = rest' ∧
      Placed atom True text v node := by
  cases hskip : skipWs (stripJsonc cs) with
  | nil =>
    rw [hskip] at hread
    cases fuel with
    | zero => cases hread
    | succ fuel => simp [readValue, readAtom] at hread
  | cons c r =>
    rw [hskip] at hread
    have hc := (opens_of_readValue hread).facts
    obtain ⟨t, rest, rfl, hstrip, ht⟩ := trivia_of_opens hskip ⟨hc.2.1, hc.2.2.2.2.1, hc.2.2.2.2.2⟩
    rw [← hstrip] at hread
    obtain ⟨text, rest2, node, heq, hrest, hplaced⟩ := h _ _ _ hread
    exact ⟨t, text, rest2, node, by rw [heq], ht, hrest, hplaced⟩

theorem membersBack_succ {fuel : Nat} (hvalue : ValueBack atom fuel)
    (hmembers : MembersBack atom fuel) : MembersBack atom (fuel + 1) := by
  intro cs fields rest' h
  unfold readMembers at h
  obtain ⟨⟨key, after⟩, hkey, h⟩ := Option.bind_eq_some_iff.mp h
  obtain ⟨⟨v, after2⟩, hread, h⟩ := Option.bind_eq_some_iff.mp h
  obtain ⟨lead, body, gap, rest, rfl, hlead, hbody, hatom, hgap, rfl⟩ := key_of_readKey hkey
  obtain ⟨gap', text, rest2, node, rfl, hgap', rfl, hplaced⟩ := hvalue.behind hread
  -- the member, with what stands before the next comma or the brace
  have hmember : ∀ after : List Char, Trivia .plain after →
      (⟨lead, '"' :: body ++ gap ++ ':' :: gap', text, after, key, v⟩ : Element).IsMember atom :=
    fun after hafter => ⟨hlead, hafter, body, gap, gap', rfl, hbody, hatom, hgap, hgap'⟩
  dsimp only at h
  split at h
  · rename_i after3 hclose
    cases h
    obtain ⟨t, rest3, rfl, hrest3, ht⟩ := tail_of_close hclose (Or.inl rfl)
    rcases ht with ht | ⟨u, u', rfl, hu, hu'⟩
    · refine ⟨[⟨lead, '"' :: body ++ gap ++ ':' :: gap', text, t, key, v⟩], [], rest3,
        by simp [joined, Element.chars], hrest3, List.cons_ne_nil _ _, ?_, ?_, .last, rfl⟩
      · intro e he
        rw [List.mem_singleton] at he
        exact he ▸ hmember t ht
      · intro e he
        rw [List.mem_singleton] at he
        subst he
        exact ⟨node, hplaced⟩
    · refine ⟨[⟨lead, '"' :: body ++ gap ++ ':' :: gap', text, u, key, v⟩], ',' :: u', rest3,
        by simp [joined, Element.chars], hrest3, List.cons_ne_nil _ _, ?_, ?_, .trailingComma hu', rfl⟩
      · intro e he
        rw [List.mem_singleton] at he
        exact he ▸ hmember u hu
      · intro e he
        rw [List.mem_singleton] at he
        subst he
        exact ⟨node, hplaced⟩
  · rename_i after3 hcomma
    obtain ⟨⟨more, after4⟩, hmore, h⟩ := Option.bind_eq_some_iff.mp h
    cases h
    obtain ⟨t, rest3, rfl, hstrip, ht⟩ := trivia_of_opens hcomma (by decide)
    obtain ⟨rfl, -⟩ := strip_of_comma hstrip
    obtain ⟨es, tail, rest4, rfl, hrest4, hne, hes, hall, htail, rfl⟩ := hmembers _ _ _ hmore
    obtain ⟨e', es, rfl⟩ := List.exists_cons_of_ne_nil hne
    refine ⟨⟨lead, '"' :: body ++ gap ++ ':' :: gap', text, t, key, v⟩ :: e' :: es, tail, rest4, ?_,
      hrest4, List.cons_ne_nil _ _, ?_, ?_, ?_, rfl⟩
    · rw [joined_cons_cons]
      simp [Element.chars]
    · intro e he
      rcases List.mem_cons.mp he with rfl | he
      · exact hmember t ht
      · exact hes e he
    · intro e he
      rcases List.mem_cons.mp he with rfl | he
      · exact ⟨node, hplaced⟩
      · exact hall e he
    · cases htail with
      | last => exact .last
      | trailingComma ht => exact .trailingComma ht
  · cases h

theorem itemsBack_succ {fuel : Nat} (hvalue : ValueBack atom fuel)
    (hitems : ItemsBack atom fuel) : ItemsBack atom (fuel + 1) := by
  intro cs items rest' h
  unfold readItems at h
  obtain ⟨⟨v, after2⟩, hread, h⟩ := Option.bind_eq_some_iff.mp h
  obtain ⟨lead, text, rest2, node, rfl, hlead, rfl, hplaced⟩ := hvalue.behind hread
  have hitem : ∀ after : List Char, Trivia .plain after →
      (⟨lead, [], text, after, "", v⟩ : Element).IsItem := fun after hafter => ⟨hlead, hafter, rfl⟩
  dsimp only at h
  split at h
  · rename_i after3 hclose
    cases h
    obtain ⟨t, rest3, rfl, hrest3, ht⟩ := tail_of_close hclose (Or.inr rfl)
    rcases ht with ht | ⟨u, u', rfl, hu, hu'⟩
    · refine ⟨[⟨lead, [], text, t, "", v⟩], [], rest3, by simp [joined, Element.chars], hrest3,
        List.cons_ne_nil _ _, ?_, ?_, .last, rfl⟩
      · intro e he
        rw [List.mem_singleton] at he
        exact he ▸ hitem t ht
      · intro e he
        rw [List.mem_singleton] at he
        subst he
        exact ⟨node, hplaced⟩
    · refine ⟨[⟨lead, [], text, u, "", v⟩], ',' :: u', rest3, by simp [joined, Element.chars],
        hrest3, List.cons_ne_nil _ _, ?_, ?_, .trailingComma hu', rfl⟩
      · intro e he
        rw [List.mem_singleton] at he
        exact he ▸ hitem u hu
      · intro e he
        rw [List.mem_singleton] at he
        subst he
        exact ⟨node, hplaced⟩
  · rename_i after3 hcomma
    obtain ⟨⟨more, after4⟩, hmore, h⟩ := Option.bind_eq_some_iff.mp h
    cases h
    obtain ⟨t, rest3, rfl, hstrip, ht⟩ := trivia_of_opens hcomma (by decide)
    obtain ⟨rfl, -⟩ := strip_of_comma hstrip
    obtain ⟨es, tail, rest4, rfl, hrest4, hne, hes, hall, htail, rfl⟩ := hitems _ _ _ hmore
    obtain ⟨e', es, rfl⟩ := List.exists_cons_of_ne_nil hne
    refine ⟨⟨lead, [], text, t, "", v⟩ :: e' :: es, tail, rest4, ?_, hrest4, List.cons_ne_nil _ _,
      ?_, ?_, ?_, rfl⟩
    · rw [joined_cons_cons]
      simp [Element.chars]
    · intro e he
      rcases List.mem_cons.mp he with rfl | he
      · exact hitem t ht
      · exact hes e he
    · intro e he
      rcases List.mem_cons.mp he with rfl | he
      · exact ⟨node, hplaced⟩
      · exact hall e he
    · cases htail with
      | last => exact .last
      | trailingComma ht => exact .trailingComma ht
  · cases h

/-- Spans for every element. -/
theorem nodes_of_placed {es : List Element}
    (h : ∀ e ∈ es, ∃ node, Placed atom lone e.text e.value node) :
    ∃ nodes : Element → Nat → Node, ∀ e ∈ es, Placed atom lone e.text e.value (nodes e) := by
  have hall : ∀ e, ∃ node, e ∈ es → Placed atom lone e.text e.value node := by
    intro e
    by_cases he : e ∈ es
    · obtain ⟨node, hnode⟩ := h e he
      exact ⟨node, fun _ => hnode⟩
    · exact ⟨fun pos => .scalar pos pos, fun hin => absurd hin he⟩
  exact Classical.skolem.mp hall

theorem valueBack_succ {fuel : Nat} (hmembers : MembersBack atom fuel)
    (hitems : ItemsBack atom fuel) : ValueBack atom (fuel + 1) := by
  intro cs v rest' h
  cases hstrip : stripJsonc cs with
  | nil =>
    rw [hstrip] at h
    simp [readValue, readAtom] at h
  | cons c r =>
    rw [hstrip] at h
    have hc := opens_of_readValue h
    obtain ⟨cs, rfl⟩ := strip_eq_cons hstrip hc.facts.1
    unfold readValue at h
    split at h
    · rename_i heq
      cases heq
    · -- an object
      rename_i hfuel heq
      obtain rfl := Nat.succ.inj hfuel
      obtain ⟨rfl, rfl⟩ := List.cons.inj heq
      have hinner := strip_of_plain (by decide) hstrip
      rw [← hinner] at h
      split at h
      · rename_i after hclose
        cases h
        obtain ⟨t, rest, rfl, hrest, ht⟩ := tail_of_close hclose (Or.inl rfl)
        have htail : Tail True [] t := by
          rcases ht with ht | ⟨u, u', rfl, hu, hu'⟩
          · exact .blank ht
          · exact .loneComma trivial hu hu'
        refine ⟨'\x7b' :: (joined [] ++ t ++ ['\x7d']), rest, _, by simp [joined], hrest,
          @Placed.object atom True [] t (fun _ pos => .scalar pos pos) ?_ ?_ htail⟩
        · exact fun e he => absurd he List.not_mem_nil
        · exact fun e he => absurd he List.not_mem_nil
      · obtain ⟨⟨fields, after⟩, hread, hsame⟩ := Option.map_eq_some_iff.mp h
        cases hsame
        obtain ⟨es, tail, rest, rfl, hrest, -, hes, hall, htail, rfl⟩ := hmembers _ _ _ hread
        obtain ⟨nodes, hnodes⟩ := nodes_of_placed hall
        exact ⟨'\x7b' :: (joined es ++ tail ++ ['\x7d']), rest, _, by simp, hrest,
          .object hes hnodes htail⟩
    · -- an array
      rename_i hfuel heq
      obtain rfl := Nat.succ.inj hfuel
      obtain ⟨rfl, rfl⟩ := List.cons.inj heq
      have hinner := strip_of_plain (by decide) hstrip
      rw [← hinner] at h
      split at h
      · rename_i after hclose
        cases h
        obtain ⟨t, rest, rfl, hrest, ht⟩ := tail_of_close hclose (Or.inr rfl)
        have htail : Tail True [] t := by
          rcases ht with ht | ⟨u, u', rfl, hu, hu'⟩
          · exact .blank ht
          · exact .loneComma trivial hu hu'
        refine ⟨'[' :: (joined [] ++ t ++ [']']), rest, _, by simp [joined], hrest,
          @Placed.array atom True [] t (fun _ pos => .scalar pos pos) ?_ ?_ htail⟩
        · exact fun e he => absurd he List.not_mem_nil
        · exact fun e he => absurd he List.not_mem_nil
      · obtain ⟨⟨items, after⟩, hread, hsame⟩ := Option.map_eq_some_iff.mp h
        cases hsame
        obtain ⟨es, tail, rest, rfl, hrest, -, hes, hall, htail, rfl⟩ := hitems _ _ _ hread
        obtain ⟨nodes, hnodes⟩ := nodes_of_placed hall
        exact ⟨'[' :: (joined es ++ tail ++ [']']), rest, _, by simp, hrest,
          .array hes hnodes htail⟩
    · -- a string
      rename_i heq
      obtain ⟨rfl, rfl⟩ := List.cons.inj heq
      rw [strip_quote] at hstrip
      obtain ⟨-, rfl⟩ := List.cons.inj hstrip
      obtain ⟨n, hn, h⟩ := Option.bind_eq_some_iff.mp h
      obtain ⟨v, hv, h⟩ := Option.bind_eq_some_iff.mp h
      cases h
      obtain ⟨body, rest, rfl, hlength, hbody, hinside⟩ := @literal_of_strip false cs n hn
      have hinside' : blankTrailingCommas .string (blankComments .string (body ++ rest)) =
          body ++ stripJsonc rest := hinside
      subst hlength
      rw [hinside', List.take_left] at hv
      rw [hinside', List.drop_left]
      exact ⟨'"' :: body, rest, _, rfl, rfl, .string hbody hv⟩
    · -- a number or a name
      obtain ⟨rest, hcs, hrest⟩ := atom_of_strip (c :: cs)
      rw [hstrip] at hcs hrest
      unfold readAtom at h
      dsimp only at h
      split at h
      · cases h
      · rename_i hne
        obtain ⟨v, hv, hsame⟩ := Option.map_eq_some_iff.mp h
        cases hsame
        refine ⟨_, rest, _, hcs, hrest, .atom hne ?_ hv⟩
        intro d hd
        exact List.mem_takeWhile_imp hd

theorem readBack (atom : Atoms) (fuel : Nat) :
    ValueBack atom fuel ∧ MembersBack atom fuel ∧ ItemsBack atom fuel := by
  induction fuel with
  | zero =>
    refine ⟨?_, ?_, ?_⟩
    · intro cs v rest h
      cases h
    · intro cs fields rest h
      cases h
    · intro cs items rest h
      cases h
  | succ fuel ih =>
    obtain ⟨hvalue, hmembers, hitems⟩ := ih
    exact ⟨valueBack_succ hmembers hitems, membersBack_succ hvalue hmembers,
      itemsBack_succ hvalue hitems⟩

/-- **Whatever reads, once it is stripped, is placed.** -/
theorem placed_of_readValue {fuel : Nat} {cs rest' : List Char} {v : Value}
    (h : readValue atom fuel (stripJsonc cs) = some (v, rest')) :
    ∃ text rest node, cs = text ++ rest ∧ stripJsonc rest = rest' ∧ Placed atom True text v node :=
  (readBack atom fuel).1 cs v rest' h

end AnyConverter.JsonEdit
