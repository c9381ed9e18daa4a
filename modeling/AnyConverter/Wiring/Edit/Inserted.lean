import AnyConverter.Wiring.Edit.Layout
import AnyConverter.Wiring.Edit.Comments
import AnyConverter.Wiring.Edit.Paths

/-!
# A member put into an object

The comma goes behind the member before it, or behind the new member when there was one behind that
already.

* `find_memberNodes`: the first member of a key;
* `insertMember_placed`: the object is placed with the member, and its comments stay.
-/

set_option autoImplicit false

namespace AnyConverter.JsonEdit

open JsonReader (atomChar literalLength collect Atoms Blank)

variable {atom : Atoms} {lone : Prop}

/-! ## How a value ends -/

theorem literal_last {escaped : Bool} {body : List Char}
    (h : literalLength escaped body = some body.length) : ∃ cs, body = cs ++ ['"'] := by
  induction body generalizing escaped with
  | nil => cases escaped <;> cases h
  | cons c body ih =>
    have hmore : ∀ {next : Bool}, (literalLength next body).map (· + 1) = some (c :: body).length →
        ∃ cs, c :: body = cs ++ ['"'] := by
      intro next hmap
      obtain ⟨n, hn, hlength⟩ := Option.map_eq_some_iff.mp hmap
      obtain ⟨cs, hcs⟩ := @ih next (by rw [hn, show n = body.length by simpa using hlength])
      exact ⟨c :: cs, by rw [hcs]; rfl⟩
    cases escaped with
    | true => exact hmore h
    | false =>
      unfold literalLength at h
      split at h
      · exact hmore h
      · split at h
        · rename_i hquote
          obtain rfl : body = [] := by
            have hlength : 1 = body.length + 1 := by simpa using h
            exact List.length_eq_zero_iff.mp (by omega)
          exact ⟨[], by rw [hquote]; rfl⟩
        · exact hmore h

theorem Placed.ends {text : List Char} {v : Value} {node : Nat → Node}
    (h : Placed atom lone text v node) :
    ∃ cs c, text = cs ++ [c] ∧ Text.isWhitespace c = false := by
  cases h with
  | atom hne hchars _ =>
    obtain ⟨cs, c, rfl⟩ := (List.eq_nil_or_concat text).resolve_left hne
    exact ⟨cs, c, List.concat_eq_append, atomChar_not_whitespace (hchars c (by simp))⟩
  | string hbody _ =>
    obtain ⟨cs, rfl⟩ := literal_last hbody
    exact ⟨'"' :: cs, '"', rfl, by decide⟩
  | array => exact ⟨_, ']', (List.cons_append ..).symm, by decide⟩
  | object => exact ⟨_, '\x7d', (List.cons_append ..).symm, by decide⟩

theorem Placed.node_start {text : List Char} {v : Value} {node : Nat → Node}
    (h : Placed atom lone text v node) (pos : Nat) : (node pos).start = pos := by
  cases h <;> rfl

theorem Placed.node_stop {text : List Char} {v : Value} {node : Nat → Node}
    (h : Placed atom lone text v node) (pos : Nat) : (node pos).stop = pos + text.length := by
  cases h with
  | atom => rfl
  | string =>
    simp only [Node.stop, List.length_cons]
    omega
  | array =>
    simp only [Node.stop, List.length_cons, List.length_append, List.length_nil]
    omega
  | object =>
    simp only [Node.stop, List.length_cons, List.length_append, List.length_nil]
    omega

/-! ## Elements around one -/

/-- Elements with a comma behind each. -/
def ahead (es : List Element) : List Char := es.flatMap fun e => e.chars ++ [',']

/-- What stands behind an element before the others. -/
def following : List Element → List Char
  | [] => []
  | e :: es => ',' :: joined (e :: es)

theorem joined_following (e : Element) (es : List Element) :
    joined (e :: es) = e.chars ++ following es := by
  cases es with
  | nil => exact (List.append_nil _).symm
  | cons e' es => rfl

theorem joined_split (es : List Element) (e : Element) (more : List Element) :
    joined (es ++ e :: more) = ahead es ++ (e.chars ++ following more) := by
  induction es with
  | nil => exact joined_following e more
  | cons x es ih =>
    have hne : es ++ e :: more ≠ [] := by simp
    obtain ⟨y, ys, hys⟩ := List.exists_cons_of_ne_nil hne
    have hahead : ahead (x :: es) = x.chars ++ [','] ++ ahead es := List.flatMap_cons
    rw [List.cons_append, hys, joined_cons_cons, ← hys, ih, hahead]
    simp

theorem memberNodes_split (nodes : Element → Nat → Node) (pos : Nat) (es : List Element) (e : Element)
    (more : List Element) :
    memberNodes nodes pos (es ++ e :: more) =
      memberNodes nodes pos es ++ memberNodes nodes (pos + (ahead es).length) (e :: more) := by
  induction es generalizing pos with
  | nil => rfl
  | cons x es ih =>
    have hahead : (ahead (x :: es)).length = x.chars.length + 1 + (ahead es).length := by
      have hcons : ahead (x :: es) = x.chars ++ [','] ++ ahead es := List.flatMap_cons
      rw [hcons, List.length_append, List.length_append]
      rfl
    have hpos : pos + (ahead (x :: es)).length = pos + x.chars.length + 1 + (ahead es).length := by
      omega
    rw [List.cons_append, memberNodes, ih, memberNodes, hpos]
    rfl

theorem keys_memberNodes (nodes : Element → Nat → Node) (pos : Nat) (es : List Element) :
    (memberNodes nodes pos es).map Member.key = es.map Element.key := by
  induction es generalizing pos with
  | nil => rfl
  | cons e es ih =>
    rw [memberNodes, List.map_cons, List.map_cons, ih]
    rfl

/-- The first member of a key, if there is one. -/
theorem find_memberNodes (nodes : Element → Nat → Node) (pos : Nat) (es : List Element)
    (key : String) :
    (key ∉ es.map Element.key ∧ (memberNodes nodes pos es).find? (fun m => m.key = key) = none) ∨
    ∃ before e more, es = before ++ e :: more ∧ e.key = key ∧
      (memberNodes nodes pos es).find? (fun m => m.key = key) =
        some (.mk e.key (pos + (ahead before).length + e.lead.length)
          (nodes e (pos + (ahead before).length + e.lead.length + e.head.length))) := by
  induction es generalizing pos with
  | nil => exact Or.inl ⟨List.not_mem_nil, rfl⟩
  | cons x es ih =>
    by_cases hx : x.key = key
    · refine Or.inr ⟨[], x, es, rfl, hx, ?_⟩
      rw [memberNodes, List.find?_cons_of_pos (by rw [decide_eq_true_eq]; exact hx)]
      rfl
    · have hskip : (memberNodes nodes pos (x :: es)).find? (fun m => m.key = key) =
          (memberNodes nodes (pos + x.chars.length + 1) es).find? (fun m => m.key = key) := by
        rw [memberNodes, List.find?_cons_of_neg (by rw [decide_eq_true_eq]; exact hx)]
      rcases ih (pos + x.chars.length + 1) with ⟨hkey, hnone⟩ | ⟨before, e, more, rfl, hkey, hsome⟩
      · refine Or.inl ⟨?_, hskip.trans hnone⟩
        intro hin
        rcases List.mem_cons.mp hin with rfl | hin
        · exact hx rfl
        · exact hkey hin
      · refine Or.inr ⟨x :: before, e, more, rfl, hkey, ?_⟩
        have hcons : ahead (x :: before) = x.chars ++ [','] ++ ahead before := List.flatMap_cons
        have hpos : pos + (ahead (x :: before)).length =
            pos + x.chars.length + 1 + (ahead before).length := by
          rw [hcons, List.length_append, List.length_append, List.length_singleton]
          omega
        rw [hskip, hsome, hpos]

/-! ## The object with the member -/

def objectText (es : List Element) (tail : List Char) : List Char :=
  '\x7b' :: (joined es ++ tail ++ ['\x7d'])

/-- What an object is made of. -/
structure IsObject (atom : Atoms) (es : List Element) (tail : List Char) : Prop where
  members : ∀ e ∈ es, e.IsMember atom
  values : ∀ e ∈ es, ∃ node, Placed atom False e.text e.value node
  tail : Tail False es tail

theorem IsObject.placed {es : List Element} {tail : List Char} (h : IsObject atom es tail) :
    ∃ node, Placed atom False (objectText es tail) (.object (collect (es.map Element.field))) node := by
  obtain ⟨nodes, hnodes⟩ := nodes_of_placed h.values
  exact ⟨_, .object h.members hnodes h.tail⟩

theorem Element.IsMember.around {e : Element} (h : e.IsMember atom) {lead after : List Char}
    (hlead : Trivia .plain lead) (hafter : Trivia .plain after) :
    ({ e with lead := lead, after := after } : Element).IsMember atom :=
  ⟨hlead, hafter, h.head⟩

theorem Tail.of_ne_nil {es es' : List Element} {tail : List Char} (h : Tail lone es tail)
    (hne : es ≠ []) (hne' : es' ≠ []) : Tail lone es' tail := by
  obtain ⟨e, more, rfl⟩ := List.exists_cons_of_ne_nil hne'
  cases h with
  | blank _ => exact absurd rfl hne
  | loneComma _ _ _ => exact absurd rfl hne
  | last => exact .last
  | trailingComma ht => exact .trailingComma ht

theorem silent_brace : Silent ['\x7b'] := silent_char (by decide) (by decide)

theorem silent_comma : Silent [','] := silent_char (by decide) (by decide)

/-- Behind a last element there is nothing, or a trailing comma. -/
theorem Tail.trailing {es : List Element} {c : Char} {t : List Char} (h : Tail lone es (c :: t))
    (hne : es ≠ []) : c = ',' ∧ Trivia .plain t := by
  obtain ⟨e, more, rfl⟩ := List.exists_cons_of_ne_nil hne
  cases h with
  | trailingComma ht => exact ⟨rfl, ht⟩

theorem closed_ahead {es : List Element} (h : ∀ e ∈ es, Closed e.chars) : Closed (ahead es) := by
  induction es with
  | nil => exact closed_nil
  | cons e es ih =>
    have hcons : ahead (e :: es) = e.chars ++ [','] ++ ahead es := List.flatMap_cons
    rw [hcons]
    exact ((h e List.mem_cons_self).append silent_comma.closed).append
      (ih fun x hx => h x (List.mem_cons_of_mem _ hx))

theorem IsObject.closed_chars {es : List Element} {tail : List Char} (h : IsObject atom es tail)
    {e : Element} (he : e ∈ es) : Closed e.chars := by
  obtain ⟨node, hplaced⟩ := h.values e he
  exact ((h.members e he).closed_head.append hplaced.closed).append (h.members e he).after.closed

/-- What stands before the value of a member. -/
theorem IsObject.closed_before {es more : List Element} {e : Element} {tail : List Char}
    (h : IsObject atom (es ++ e :: more) tail) :
    Closed (['\x7b'] ++ (ahead es ++ (e.lead ++ e.head))) :=
  silent_brace.closed.append ((closed_ahead fun _ hx => h.closed_chars (List.mem_append_left _ hx)).append
    (h.members e (by simp)).closed_head)

theorem comma_not_blank : Text.isWhitespace ',' = false ∧ Text.isWhitespace '\x7b' = false := by decide

/-- The next character that is neither white space nor in a comment. -/
theorem getElem_nextSignificant {t : List Char} (ht : Trivia .plain t) {c : Char} {rest : List Char}
    (hc : StopsTrivia (c :: rest)) (text : List Char) :
    (text ++ t ++ c :: rest)[nextSignificant (text ++ t ++ c :: rest) text.length]? = some c := by
  have hnext : nextSignificant (text ++ t ++ c :: rest) text.length = (text ++ t).length := by
    unfold nextSignificant
    rw [List.append_assoc, List.drop_left, triviaLength_trivia ht true hc, List.length_append]
  rw [hnext, List.getElem?_append_right (Nat.le_refl _), Nat.sub_self]
  rfl

/-- Comments stay when what is put around them is silent. -/
theorem comments_inserted {before mark t blank inserted : List Char} (hbefore : Closed before)
    (hmark : Silent mark) (ht : Trivia .plain t) (hblank : Blank blank) (hinserted : Silent inserted)
    (rest : List Char) :
    comments (before ++ (mark ++ (t ++ (inserted ++ rest)))) =
      comments (before ++ (t ++ (blank ++ rest))) := by
  rw [hbefore, hbefore, hmark, ht.closed, ht.closed, hinserted, silent_blank hblank]

section
variable {member : Element} {newline unit : List Char}

/-- A member is put into an object without members. -/
theorem insertMember_first (hmember : member.IsMember atom)
    (hvalue : ∃ node, Placed atom False member.text member.value node)
    (hsilent : Silent (member.head ++ member.text)) (hnewline : Blank newline) (hunit : Blank unit)
    {t : List Char} (ht : Trivia .plain t) (front back : List Char) :
    ∃ e tail, insertMember (front ++ objectText [] t ++ back) front.length
        (front.length + (objectText [] t).length) [] (member.head ++ member.text) newline unit =
          front ++ objectText [e] tail ++ back ∧
      IsObject atom [e] tail ∧ e.field = member.field ∧
      ∀ rest, comments (objectText [e] tail ++ rest) = comments (objectText [] t ++ rest) := by
  obtain ⟨t', blank, gap, ending, rfl, ht', hblank, hgap, hending, hlayout⟩ :=
    @insertMember_layout front t '\x7b' comma_not_blank.2 ht newline unit hnewline hunit
      ('\x7d' :: back) front.length [] (member.head ++ member.text)
  have htext : front ++ objectText [] (t' ++ blank) ++ back =
      front ++ ['\x7b'] ++ (t' ++ blank) ++ '\x7d' :: back := by
    simp [objectText, joined]
  have hstop : front.length + (objectText [] (t' ++ blank)).length =
      (front ++ ['\x7b'] ++ (t' ++ blank)).length + 1 := by
    simp only [objectText, joined, List.length_append, List.length_cons, List.length_nil]
    omega
  refine ⟨{ member with lead := t' ++ gap, after := ending }, [], ?_, ?_, rfl, fun rest => ?_⟩
  · rw [htext, hstop, hlayout]
    simp [objectText, joined, Element.chars]
  · refine ⟨fun e he => ?_, fun e he => ?_, .last⟩
    · rw [List.mem_singleton.mp he]
      exact hmember.around (ht'.append (trivia_of_blank hgap)) (trivia_of_blank hending)
    · rw [List.mem_singleton.mp he]
      exact hvalue
  · have hinserted : Silent (gap ++ (member.head ++ member.text) ++ ending) :=
      ((silent_blank hgap).append hsilent).append (silent_blank hending)
    have hkept := comments_inserted silent_brace.closed silent_nil ht' hblank hinserted
      ('\x7d' :: rest)
    simpa [objectText, joined, Element.chars] using hkept

/-- A member is put behind the last one, which no comma follows. -/
theorem insertMember_last (hmember : member.IsMember atom)
    (hvalue : ∃ node, Placed atom False member.text member.value node)
    (hsilent : Silent (member.head ++ member.text)) (hnewline : Blank newline) (hunit : Blank unit)
    {es : List Element} {e : Element} (hobject : IsObject atom (es ++ [e]) [])
    {members : List Member} {last : Member} (hlast : members.getLast? = some last)
    (front back : List Char)
    (hstop : last.value.stop =
      (front ++ '\x7b' :: ahead es ++ e.lead ++ e.head ++ e.text).length) :
    ∃ e' e'', insertMember (front ++ objectText (es ++ [e]) [] ++ back) front.length
        (front.length + (objectText (es ++ [e]) []).length) members (member.head ++ member.text)
        newline unit = front ++ objectText (es ++ [e', e'']) [] ++ back ∧
      IsObject atom (es ++ [e', e'']) [] ∧ e'.field = e.field ∧ e''.field = member.field ∧
      ∀ rest, comments (objectText (es ++ [e', e'']) [] ++ rest) =
        comments (objectText (es ++ [e]) [] ++ rest) := by
  have he := hobject.members e (by simp)
  obtain ⟨node, hplaced⟩ := hobject.values e (by simp)
  obtain ⟨cs, c, htext, hc⟩ := hplaced.ends
  have hq : front ++ '\x7b' :: ahead es ++ e.lead ++ e.head ++ e.text =
      (front ++ '\x7b' :: ahead es ++ e.lead ++ e.head ++ cs) ++ [c] := by
    rw [htext]
    simp
  obtain ⟨t', blank, gap, ending, hafter, ht', hblank, hgap, hending, hlayout⟩ :=
    @insertMember_layout (front ++ '\x7b' :: ahead es ++ e.lead ++ e.head ++ cs) e.after c hc
      he.after newline unit hnewline hunit ('\x7d' :: back) front.length members
      (member.head ++ member.text)
  rw [← hq, hlast] at hlayout
  dsimp only at hlayout
  rw [hstop, getElem_nextSignificant he.after (stopsTrivia_cons (by decide) (by decide) back),
    if_neg (by decide)] at hlayout
  generalize hplace : front ++ '\x7b' :: ahead es ++ e.lead ++ e.head ++ e.text = place at hlayout
  have hold : front ++ objectText (es ++ [e]) [] ++ back = place ++ e.after ++ '\x7d' :: back := by
    rw [← hplace, objectText, joined_split]
    simp [Element.chars, following]
  have hend : front.length + (objectText (es ++ [e]) []).length = (place ++ e.after).length + 1 := by
    have hlength := congrArg List.length hold
    simp only [List.length_append, List.length_cons] at hlength ⊢
    omega
  refine ⟨{ e with after := [] }, { member with lead := t' ++ gap, after := ending }, ?_, ?_, rfl, rfl,
    fun rest => ?_⟩
  · rw [hold, hend, hlayout, List.append_assoc, List.append_assoc, splice_at, ← hplace, objectText,
      joined_split]
    simp [Element.chars, following, joined]
  · refine ⟨fun x hx => ?_, fun x hx => ?_, ?_⟩
    · rcases List.mem_append.mp hx with hx | hx
      · exact hobject.members x (List.mem_append_left _ hx)
      · rcases List.mem_pair.mp hx with rfl | rfl
        · exact he.around he.lead .nil
        · exact hmember.around (ht'.append (trivia_of_blank hgap)) (trivia_of_blank hending)
    · rcases List.mem_append.mp hx with hx | hx
      · exact hobject.values x (List.mem_append_left _ hx)
      · rcases List.mem_pair.mp hx with rfl | rfl
        · exact ⟨node, hplaced⟩
        · exact hvalue
    · exact hobject.tail.of_ne_nil (by simp) (by simp)
  · have hinserted : Silent (gap ++ (member.head ++ member.text) ++ ending) :=
      ((silent_blank hgap).append hsilent).append (silent_blank hending)
    have hbefore := hobject.closed_before.append hplaced.closed
    have hkept := comments_inserted hbefore silent_comma ht' hblank hinserted ('\x7d' :: rest)
    rw [objectText, objectText, joined_split, joined_split]
    simpa [Element.chars, following, joined, hafter] using hkept

/-- A member is put behind the comma that follows the last one, and a comma follows it. -/
theorem insertMember_trailing (hmember : member.IsMember atom)
    (hvalue : ∃ node, Placed atom False member.text member.value node)
    (hsilent : Silent (member.head ++ member.text)) (hnewline : Blank newline) (hunit : Blank unit)
    {es : List Element} {e : Element} {t : List Char} (hobject : IsObject atom (es ++ [e]) (',' :: t))
    (ht : Trivia .plain t) {members : List Member} {last : Member}
    (hlast : members.getLast? = some last) (front back : List Char)
    (hstop : last.value.stop =
      (front ++ '\x7b' :: ahead es ++ e.lead ++ e.head ++ e.text).length) :
    ∃ e' tail, insertMember (front ++ objectText (es ++ [e]) (',' :: t) ++ back) front.length
        (front.length + (objectText (es ++ [e]) (',' :: t)).length) members
        (member.head ++ member.text) newline unit =
          front ++ objectText (es ++ [e, e']) tail ++ back ∧
      IsObject atom (es ++ [e, e']) tail ∧ e'.field = member.field ∧
      ∀ rest, comments (objectText (es ++ [e, e']) tail ++ rest) =
        comments (objectText (es ++ [e]) (',' :: t) ++ rest) := by
  have he := hobject.members e (by simp)
  obtain ⟨node, hplaced⟩ := hobject.values e (by simp)
  obtain ⟨t', blank, gap, ending, rfl, ht', hblank, hgap, hending, hlayout⟩ :=
    @insertMember_layout (front ++ '\x7b' :: ahead es ++ e.lead ++ e.head ++ e.text ++ e.after) t ','
      comma_not_blank.1 ht newline unit hnewline hunit ('\x7d' :: back) front.length members
      (member.head ++ member.text)
  generalize hplace : front ++ '\x7b' :: ahead es ++ e.lead ++ e.head ++ e.text = place
    at hlayout hstop
  have hcomma : place ++ e.after ++ [','] ++ (t' ++ blank) ++ '\x7d' :: back =
      place ++ e.after ++ ',' :: (t' ++ blank ++ '\x7d' :: back) := by
    simp
  rw [hlast] at hlayout
  dsimp only at hlayout
  rw [hstop, hcomma, getElem_nextSignificant he.after (stopsTrivia_cons (by decide) (by decide) _),
    if_pos rfl] at hlayout
  have hold : front ++ objectText (es ++ [e]) (',' :: (t' ++ blank)) ++ back =
      place ++ e.after ++ ',' :: (t' ++ blank ++ '\x7d' :: back) := by
    rw [← hplace, objectText, joined_split]
    simp [Element.chars, following]
  have hend : front.length + (objectText (es ++ [e]) (',' :: (t' ++ blank))).length =
      (place ++ e.after ++ [','] ++ (t' ++ blank)).length + 1 := by
    have hlength := congrArg List.length hold
    simp only [List.length_append, List.length_cons, List.length_nil] at hlength ⊢
    omega
  refine ⟨{ member with lead := t' ++ gap, after := [] }, ',' :: ending, ?_, ?_, rfl, fun rest => ?_⟩
  · rw [hold, hend, hlayout, ← hplace, objectText, joined_split]
    simp [Element.chars, following, joined]
  · refine ⟨fun x hx => ?_, fun x hx => ?_, ?_⟩
    · rcases List.mem_append.mp hx with hx | hx
      · exact hobject.members x (List.mem_append_left _ hx)
      · rcases List.mem_pair.mp hx with rfl | rfl
        · exact he
        · exact hmember.around (ht'.append (trivia_of_blank hgap)) .nil
    · rcases List.mem_append.mp hx with hx | hx
      · exact hobject.values x (List.mem_append_left _ hx)
      · rcases List.mem_pair.mp hx with rfl | rfl
        · exact ⟨node, hplaced⟩
        · exact hvalue
    · exact (@Tail.trailingComma False e [] _ (trivia_of_blank hending)).of_ne_nil (by simp) (by simp)
  · have hinserted : Silent (gap ++ (member.head ++ member.text) ++ (',' :: ending)) :=
      ((silent_blank hgap).append hsilent).append (silent_comma.append (silent_blank hending))
    have hbefore := ((hobject.closed_before.append hplaced.closed).append he.after.closed).append
      silent_comma.closed
    have hkept := comments_inserted hbefore silent_nil ht' hblank hinserted ('\x7d' :: rest)
    rw [objectText, objectText, joined_split, joined_split]
    simpa [Element.chars, following, joined] using hkept

/-- **A member is put into an object**: the object is placed with it, and the comments stay. -/
theorem insertMember_placed (hmember : member.IsMember atom)
    (hvalue : ∃ node, Placed atom False member.text member.value node)
    (hsilent : Silent (member.head ++ member.text)) (hnewline : Blank newline) (hunit : Blank unit)
    {es : List Element} {tail : List Char} (hobject : IsObject atom es tail)
    {nodes : Element → Nat → Node}
    (hnodes : ∀ e ∈ es, Placed atom False e.text e.value (nodes e)) (front back : List Char) :
    ∃ es' tail', insertMember (front ++ objectText es tail ++ back) front.length
        (front.length + (objectText es tail).length) (memberNodes nodes (front.length + 1) es)
        (member.head ++ member.text) newline unit = front ++ objectText es' tail' ++ back ∧
      IsObject atom es' tail' ∧ es'.map Element.field = es.map Element.field ++ [member.field] ∧
      ∀ rest, comments (objectText es' tail' ++ rest) = comments (objectText es tail ++ rest) := by
  rcases List.eq_nil_or_concat es with rfl | ⟨es, e, hes⟩
  · cases hobject.tail with
    | loneComma h => exact h.elim
    | blank ht =>
      obtain ⟨e, tail', htext, hplaced, hfield, hkept⟩ :=
        insertMember_first hmember hvalue hsilent hnewline hunit ht front back
      exact ⟨[e], tail', htext, hplaced, by simp [hfield], hkept⟩
  · rw [List.concat_eq_append] at hes
    subst hes
    -- the last member ends where its value does
    have hlast : (memberNodes nodes (front.length + 1) (es ++ [e])).getLast? =
        some (.mk e.key (front.length + 1 + (ahead es).length + e.lead.length)
          (nodes e (front.length + 1 + (ahead es).length + e.lead.length + e.head.length))) := by
      rw [memberNodes_split]
      exact List.getLast?_concat
    have hstop : Node.stop (Member.value (.mk e.key
        (front.length + 1 + (ahead es).length + e.lead.length)
        (nodes e (front.length + 1 + (ahead es).length + e.lead.length + e.head.length)))) =
          (front ++ '\x7b' :: ahead es ++ e.lead ++ e.head ++ e.text).length := by
      rw [Member.value, (hnodes e (by simp)).node_stop]
      simp only [List.length_append, List.length_cons]
      omega
    have htail := hobject.tail
    cases tail with
    | nil =>
      obtain ⟨e', e'', htext, hplaced, hfield, hfield', hkept⟩ :=
        insertMember_last hmember hvalue hsilent hnewline hunit hobject hlast front back hstop
      exact ⟨_, _, htext, hplaced, by simp [hfield, hfield'], hkept⟩
    | cons c t =>
      obtain ⟨rfl, ht⟩ := htail.trailing (by simp)
      obtain ⟨e', tail', htext, hplaced, hfield, hkept⟩ :=
        insertMember_trailing hmember hvalue hsilent hnewline hunit hobject ht hlast front back hstop
      exact ⟨_, _, htext, hplaced, by simp [hfield], hkept⟩

end

end AnyConverter.JsonEdit
