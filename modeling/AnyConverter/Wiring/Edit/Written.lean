import AnyConverter.Wiring.Edit.Documents
import AnyConverter.Wiring.Edit.Inserted

/-!
# Setting a value

A value set at a path through objects gives a document with the value there, and nothing else of it
changes.

* `editObject_placed`: an object is placed with the value at the path, and the comments outside the
  value that was replaced stay;
* `set_document`: what holds of the whole text.
-/

set_option autoImplicit false

namespace AnyConverter.JsonEdit

open JsonReader (isWs atomChar literalLength collect Atoms Blank readerCodec readerCodec_fromStr
  printedAtom)

variable {atom : Atoms}

/-! ## What the library prints -/

/-- A value is printed as one value of the grammar, without comments. -/
def PrintsValue (codec : JsonCodec) (atom : Atoms) (v : Value) : Prop :=
  (∃ node, Placed atom False (codec.toText v).toList v node) ∧ comments (codec.toText v).toList = []

/-- A key is printed as a literal that reads as the key. -/
def PrintsKey (codec : JsonCodec) (atom : Atoms) (key : String) : Prop :=
  ∃ body, (codec.toText (.string key)).toList = '"' :: body ∧
    literalLength false body = some body.length ∧ atom ('"' :: body) = some (.string key)

/-- A member that is built holds the value at the rest of the path. -/
theorem buildMember_placed {codec : JsonCodec} {value : Value} (hvalue : PrintsValue codec atom value)
    {newline unit : List Char} (hnewline : Blank newline) (hunit : Blank unit) {tail : List String}
    {key : String} (hkey : PrintsKey codec atom key) (hkeys : ∀ k ∈ tail, PrintsKey codec atom k)
    {indent : List Char} (hindent : Blank indent) :
    ∃ member : Element,
      buildMember codec key tail value indent newline unit = member.head ++ member.text ∧
      member.IsMember atom ∧ (∃ node, Placed atom False member.text member.value node) ∧
      Silent (member.head ++ member.text) ∧
      member.field = (key, setAt value (.object []) tail) := by
  have hspace : Blank [' '] := by decide
  have hcolon : Silent [':', ' '] :=
    (silent_char (by decide) (by decide)).append (silent_char (by decide) (by decide))
  induction tail generalizing key indent with
  | nil =>
    obtain ⟨body, hprint, hliteral, hread⟩ := hkey
    obtain ⟨⟨node, hplaced⟩, hnone⟩ := hvalue
    refine ⟨⟨[], '"' :: body ++ [] ++ ':' :: [' '], (codec.toText value).toList, [], key, value⟩, ?_,
      ⟨.nil, .nil, body, [], [' '], rfl, hliteral, hread, .nil, trivia_of_blank hspace⟩,
      ⟨node, hplaced⟩, ?_, rfl⟩
    · rw [buildMember, hprint]
      simp
    · have hsilent := ((silent_literal hliteral).append hcolon).append (hplaced.closed.silent hnone)
      simpa using hsilent
  | cons next tail ih =>
    obtain ⟨body, hprint, hliteral, hread⟩ := hkey
    obtain ⟨inner, htext, hmember, hplaced, hsilent, hfield⟩ :=
      ih (hkeys next List.mem_cons_self) (fun k hk => hkeys k (List.mem_cons_of_mem _ hk))
        (hindent.append hunit)
    have hlead : Blank (newline ++ (indent ++ unit)) := hnewline.append (hindent.append hunit)
    have hafter : Blank (newline ++ indent) := hnewline.append hindent
    have hobject : IsObject atom
        [{ inner with lead := newline ++ (indent ++ unit), after := newline ++ indent }] [] := by
      refine ⟨fun e he => ?_, fun e he => ?_, .last⟩
      · rw [List.mem_singleton.mp he]
        exact hmember.around (trivia_of_blank hlead) (trivia_of_blank hafter)
      · rw [List.mem_singleton.mp he]
        exact hplaced
    have hinside : Silent (objectText
        [{ inner with lead := newline ++ (indent ++ unit), after := newline ++ indent }] []) := by
      have hsilent' := (silent_brace.append
        (((silent_blank hlead).append hsilent).append (silent_blank hafter))).append
          (silent_char (by decide) (by decide) : Silent ['\x7d'])
      simpa [objectText, joined, Element.chars] using hsilent'
    refine ⟨⟨[], '"' :: body ++ [] ++ ':' :: [' '], objectText
        [{ inner with lead := newline ++ (indent ++ unit), after := newline ++ indent }] [], [], key,
        _⟩, ?_, ⟨.nil, .nil, body, [], [' '], rfl, hliteral, hread, .nil, trivia_of_blank hspace⟩,
      hobject.placed, ?_, ?_⟩
    · rw [buildMember, hprint, htext]
      simp [objectText, joined, Element.chars]
    · have hsilent' := ((silent_literal hliteral).append hcolon).append hinside
      simpa using hsilent'
    · show (key, Value.object (collect [inner.field])) = _
      rw [hfield]
      rfl

/-! ## An object that is edited -/

/-- No object on a path has two members of the key that leads on. -/
def UniqueKeys : Node → List String → Prop
  | .object _ _ members, key :: rest =>
    (members.map Member.key).count key ≤ 1 ∧ ∀ m ∈ members, m.key = key → UniqueKeys m.value rest
  | _, _ => True

theorem Placed.object_cases {lone : Prop} (hscalar : Scalars atom) {text : List Char}
    {fields : List (String × Value)} {node : Nat → Node}
    (h : Placed atom lone text (.object fields) node) :
    ∃ es tail nodes, text = objectText es tail ∧ fields = collect (es.map Element.field) ∧
      (∀ e ∈ es, e.IsMember atom) ∧ (∀ e ∈ es, Placed atom lone e.text e.value (nodes e)) ∧
      Tail lone es tail ∧ ∀ pos, node pos =
        .object pos (pos + (objectText es tail).length) (memberNodes nodes (pos + 1) es) := by
  cases h with
  | atom _ _ hread => exact absurd hread (hscalar _ _)
  | string _ hread => exact absurd hread (hscalar _ _)
  | @object es tail nodes hes hplaced htail =>
    refine ⟨es, tail, nodes, rfl, rfl, hes, hplaced, htail, fun pos => ?_⟩
    have hstop : pos + (objectText es tail).length = pos + 1 + (joined es ++ tail).length + 1 := by
      simp only [objectText, List.length_cons, List.length_append, List.length_nil]
      omega
    rw [hstop]

/-- What stands before the value of a member in its object. -/
def beforeValue (before : List Element) (e : Element) : List Char :=
  ['\x7b'] ++ (ahead before ++ (e.lead ++ e.head))

/-- What stands behind it. -/
def behindValue (e : Element) (more : List Element) (tail : List Char) : List Char :=
  e.after ++ following more ++ tail ++ ['\x7d']

theorem objectText_split (before : List Element) (e : Element) (more : List Element)
    (tail : List Char) :
    objectText (before ++ e :: more) tail = beforeValue before e ++ e.text ++ behindValue e more tail := by
  rw [objectText, joined_split]
  simp [beforeValue, behindValue, Element.chars]

/-- How a piece of text changes when the value at a path of it is set: the comments stay, but those of
the value that is replaced. -/
def Edited (atom : Atoms) (printed : List Char) (v : Value) (path : List String)
    (piece piece' : List Char) : Prop :=
  (walk v path = none ∧ ∀ rest, comments (piece' ++ rest) = comments (piece ++ rest)) ∨
  ∃ front old back w, piece = front ++ old ++ back ∧ piece' = front ++ printed ++ back ∧
    walk v path = some w ∧ (∃ node, Placed atom False old w node) ∧ Closed front

/-- A change of a part of a text. -/
theorem Edited.within {printed piece piece' : List Char} {v w : Value} {path path' : List String}
    (h : Edited atom printed v path piece piece') (hwalk : walk w path' = walk v path)
    {before : List Char} (hbefore : Closed before) (behind : List Char) :
    Edited atom printed w path' (before ++ piece ++ behind) (before ++ piece' ++ behind) := by
  rcases h with ⟨hnone, hkept⟩ | ⟨front, old, back, u, rfl, rfl, hread, hplaced, hfront⟩
  · refine Or.inl ⟨hwalk.trans hnone, fun rest => ?_⟩
    simp only [List.append_assoc]
    rw [hbefore, hbefore, hkept]
  · exact Or.inr ⟨before ++ front, old, back ++ behind, u, by simp, by simp, hwalk.trans hread, hplaced,
      hbefore.append hfront⟩

/-- An object with another value under a key. -/
theorem IsObject.replaced {before more : List Element} {e : Element} {tail : List Char}
    (h : IsObject atom (before ++ e :: more) tail) {text : List Char} {v : Value}
    (hvalue : ∃ node, Placed atom False text v node) :
    IsObject atom (before ++ { e with text := text, value := v } :: more) tail := by
  have he := h.members e (by simp)
  refine ⟨fun x hx => ?_, fun x hx => ?_, h.tail.of_ne_nil (by simp) (by simp)⟩
  · rcases List.mem_append.mp hx with hx | hx
    · exact h.members x (List.mem_append_left _ hx)
    · rcases List.mem_cons.mp hx with rfl | hx
      · exact ⟨he.lead, he.after, he.head⟩
      · exact h.members x (by simp [hx])
  · rcases List.mem_append.mp hx with hx | hx
    · exact h.values x (List.mem_append_left _ hx)
    · rcases List.mem_cons.mp hx with rfl | hx
      · exact hvalue
      · exact h.values x (by simp [hx])

/-- A key that an object does not have. -/
theorem editObject_absent {codec : JsonCodec} (text : List Char) (value : Value)
    (newline unit : List Char) (start stop : Nat) {members : List Member} {key : String}
    (h : members.find? (fun m => m.key = key) = none) (rest : List String) :
    editObject codec text value newline unit (.object start stop members) (key :: rest) =
      .ok (insertMember text start stop members (buildMember codec key rest value
        (memberIndent text start members unit) newline unit) newline unit) := by
  cases rest with
  | nil => simp only [editObject, h]
  | cons next tail => simp only [editObject, h]

/-- The value under the last key of a path. -/
theorem editObject_found {codec : JsonCodec} {front piece back : List Char} (value : Value)
    (newline unit : List Char) (start stop : Nat) {members : List Member} {key : String}
    {member : Member} (h : members.find? (fun m => m.key = key) = some member)
    (hstart : member.value.start = front.length)
    (hstop : member.value.stop = (front ++ piece).length) :
    editObject codec (front ++ piece ++ back) value newline unit (.object start stop members) [key] =
      .ok (front ++ (codec.toText value).toList ++ back) := by
  simp only [editObject, h]
  rw [hstart, hstop, slice_append, splice_append]
  split
  · rename_i hsame
    rw [hsame]
  · rfl

/-- The object under the first key of a longer path. -/
theorem editObject_inside {codec : JsonCodec} (text : List Char) (value : Value)
    (newline unit : List Char) (start stop : Nat) {members : List Member} {key : String}
    {member : Member} (h : members.find? (fun m => m.key = key) = some member)
    {start' : Nat} (hobject : ∃ stop' inner, member.value = .object start' stop' inner)
    (next : String) (tail : List String) :
    editObject codec text value newline unit (.object start stop members) (key :: next :: tail) =
      editObject codec text value newline unit member.value (next :: tail) := by
  obtain ⟨stop', inner, hinner⟩ := hobject
  rw [editObject]
  simp only [h, hinner]

/-- **An object is placed with the value at the path**, and the comments outside the value that was
replaced stay. -/
theorem editObject_placed {codec : JsonCodec} (hscalar : Scalars atom) {value : Value}
    (hvalue : PrintsValue codec atom value) {newline unit : List Char} (hnewline : Blank newline)
    (hunit : Blank unit) {path : List String} (hpath : path ≠ [])
    (hkeys : ∀ key ∈ path, PrintsKey codec atom key) {v : Value} (hpasses : Passes v path)
    {piece : List Char} {node : Nat → Node} (hplaced : Placed atom False piece v node)
    (front back : List Char) (hunique : UniqueKeys (node front.length) path) :
    ∃ piece' node', editObject codec (front ++ piece ++ back) value newline unit (node front.length)
        path = .ok (front ++ piece' ++ back) ∧
      Placed atom False piece' (setAt value v path) node' ∧
      Edited atom (codec.toText value).toList v path piece piece' := by
  induction path generalizing v piece node front back with
  | nil => exact absurd rfl hpath
  | cons key rest ih =>
    obtain ⟨fields, rfl, hnext⟩ := hpasses.object
    obtain ⟨es, tail, nodes, rfl, rfl, hes, hnodes, htail, hnode⟩ := hplaced.object_cases hscalar
    have hobject : IsObject atom es tail := ⟨hes, fun e he => ⟨_, hnodes e he⟩, htail⟩
    rw [hnode] at hunique ⊢
    obtain ⟨honce, hmore⟩ := hunique
    rw [keys_memberNodes] at honce
    rcases find_memberNodes nodes (front.length + 1) es key with
      ⟨habsent, hfind⟩ | ⟨before, e, more, rfl, rfl, hfind⟩
    · -- a new member
      have hlookup : (collect (es.map Element.field)).lookup key = none := by
        refine JsonReader.lookup_collect_absent ?_
        rwa [List.map_map]
      obtain ⟨member, hbuild, hmember, hmvalue, hsilent, hfield⟩ :=
        buildMember_placed hvalue hnewline hunit (hkeys key List.mem_cons_self)
          (fun k hk => hkeys k (List.mem_cons_of_mem _ hk))
          (blank_memberIndent (front ++ objectText es tail ++ back) front.length
            (memberNodes nodes (front.length + 1) es) hunit)
      obtain ⟨es', tail', htext, hobject', hfields, hkept⟩ :=
        insertMember_placed hmember hmvalue hsilent hnewline hunit hobject hnodes front back
      obtain ⟨node', hplaced'⟩ := hobject'.placed
      refine ⟨objectText es' tail', node', ?_, ?_, Or.inl ⟨?_, hkept⟩⟩
      · rw [editObject_absent _ _ _ _ _ _ hfind, hbuild, htext]
      · rw [setAt, hlookup, Option.getD_none, ← JsonReader.collect_concat, ← hfield, ← hfields]
        exact hplaced'
      · rw [walk_object, hlookup, Option.bind_none]
    · -- the value of a member that is there
      have hplace : front.length + 1 + (ahead before).length + e.lead.length + e.head.length =
          (front ++ beforeValue before e).length := by
        simp only [beforeValue, List.length_append, List.length_singleton]
        omega
      rw [hplace] at hfind
      have he := hnodes e (by simp)
      have hlast : e.key ∉ (more.map Element.field).map Prod.fst := by
        rw [List.map_append, List.map_cons, List.count_append, List.count_cons_self] at honce
        have hnone : (more.map Element.key).count e.key = 0 := by omega
        rw [List.map_map]
        exact List.count_eq_zero.mp hnone
      have hfields : (before ++ e :: more).map Element.field =
          before.map Element.field ++ (e.key, e.value) :: more.map Element.field := by
        simp [Element.field]
      have hlookup : (collect ((before ++ e :: more).map Element.field)).lookup e.key =
          some e.value := by
        rw [hfields]
        exact JsonReader.lookup_collect hlast e.value
      -- the object with another value there
      have hreplaced : ∀ {text : List Char} {w : Value}, (∃ node, Placed atom False text w node) →
          ∃ node', Placed atom False
            (beforeValue before e ++ text ++ behindValue e more tail)
            (.object (Value.insertField e.key w (collect ((before ++ e :: more).map Element.field))))
            node' := by
        intro text w hw
        obtain ⟨node', hplaced'⟩ := (hobject.replaced hw).placed
        refine ⟨node', ?_⟩
        rw [objectText_split] at hplaced'
        have hmap : (before ++ { e with text := text, value := w } :: more).map Element.field =
            before.map Element.field ++ (e.key, w) :: more.map Element.field := by
          simp [Element.field]
        rw [hmap, JsonReader.collect_replaced hlast e.value, ← hfields] at hplaced'
        exact hplaced'
      have hbefore : Closed (beforeValue before e) := hobject.closed_before
      rw [objectText_split]
      have htext : ∀ piece : List Char,
          front ++ (beforeValue before e ++ piece ++ behindValue e more tail) ++ back =
            front ++ beforeValue before e ++ piece ++ (behindValue e more tail ++ back) := by
        intro piece
        simp
      cases rest with
      | nil =>
        obtain ⟨node', hplaced'⟩ := hreplaced hvalue.1
        refine ⟨_, node', ?_, ?_, Or.inr ⟨_, _, _, e.value, rfl, rfl, ?_, ⟨_, he⟩, hbefore⟩⟩
        · rw [htext, htext]
          refine editObject_found value newline unit _ _ hfind (he.node_start _) ?_
          rw [Member.value, he.node_stop]
          simp only [List.length_append]
        · rw [setAt]
          exact hplaced'
        · rw [walk_object, hlookup]
          rfl
      | cons next rest =>
        have hpasses' := hnext _ hlookup
        obtain ⟨fields', hobject', -⟩ := hpasses'.object
        have hinner : ∃ stop members, nodes e (front ++ beforeValue before e).length =
            .object (front ++ beforeValue before e).length stop members := by
          rw [hobject'] at he
          obtain ⟨_, _, _, -, -, -, -, -, hnode'⟩ := he.object_cases hscalar
          exact ⟨_, _, hnode' _⟩
        have hunique' := hmore _ (List.mem_of_find?_eq_some hfind) rfl
        obtain ⟨piece', node', hedit, hplaced', hedited⟩ := ih (List.cons_ne_nil _ _)
          (fun k hk => hkeys k (List.mem_cons_of_mem _ hk)) hpasses' he
          (front ++ beforeValue before e) (behindValue e more tail ++ back) hunique'
        obtain ⟨node'', hplaced''⟩ := hreplaced ⟨node', hplaced'⟩
        refine ⟨beforeValue before e ++ piece' ++ behindValue e more tail, node'', ?_, ?_, ?_⟩
        · rw [htext, htext, ← hedit]
          exact editObject_inside _ value newline unit _ _ hfind hinner next rest
        · rw [setAt, hlookup]
          exact hplaced''
        · refine hedited.within ?_ hbefore _
          rw [walk_object, hlookup, Option.bind_some]

/-! ## A document that is edited -/

/-- The comments of a document stay when the value at a path of it is set, but those of the value that
is replaced. -/
def KeepsComments (atom : Atoms) (printed : List Char) (v : Value) (path : List String)
    (text text' : List Char) : Prop :=
  (walk v path = none ∧ comments text' = comments text) ∨
  ∃ front old back w, text = front ++ old ++ back ∧ text' = front ++ printed ++ back ∧
    walk v path = some w ∧ (∃ node, Placed atom False old w node) ∧
    comments text = comments front ++ comments old ++ comments back ∧
    comments text' = comments front ++ comments back

theorem Edited.keepsComments {codec : JsonCodec} {value : Value}
    (hvalue : PrintsValue codec atom value) {v : Value} {path : List String}
    {piece piece' lead : List Char}
    (h : Edited atom (codec.toText value).toList v path piece piece') (hlead : Closed lead)
    (trail : List Char) :
    KeepsComments atom (codec.toText value).toList v path (lead ++ piece ++ trail)
      (lead ++ piece' ++ trail) := by
  obtain ⟨⟨printed, hprinted⟩, hnone⟩ := hvalue
  rcases h.within rfl hlead trail with ⟨habsent, hkept⟩ | ⟨front, old, back, w, htext, htext', hread,
    ⟨node, hplaced⟩, hfront⟩
  · have hsame := hkept []
    rw [List.append_nil, List.append_nil] at hsame
    exact Or.inl ⟨habsent, hsame⟩
  · refine Or.inr ⟨front, old, back, w, htext, htext', hread, ⟨node, hplaced⟩, ?_, ?_⟩
    · rw [htext, List.append_assoc, hfront, hplaced.closed, List.append_assoc]
    · rw [htext', List.append_assoc, hfront, hprinted.closed, hnone, List.nil_append]

theorem parseRoot_object {codec : JsonCodec} {text : List Char} {start stop : Nat}
    {members : List Member} (h : parseDocument codec text = .ok (.object start stop members)) :
    parseRoot codec text = .ok (.object start stop members) := by
  unfold parseRoot
  rw [h]
  rfl

theorem setOne_ok {codec : JsonCodec} {text text' : List Char} {kv : KV} {v : Value} {root : Node}
    (hjson : parseJson codec text = .ok v) (hpath : segmentsOf kv.path ≠ [])
    (hroot : parseRoot codec text = .ok root)
    (hedit : editObject codec text kv.value (newlineOf text) (detectIndentUnit text) root
      (segmentsOf kv.path) = .ok text') : setOne codec text kv = .ok text' := by
  unfold setOne
  rw [hjson, ← hedit]
  dsimp only [bind, Except.bind]
  rw [if_neg hpath, hroot]

/-- A document with the value at a path through objects. -/
theorem setOne_document {codec : JsonCodec} {takes : Value → Prop}
    (hreads : ReadsJson codec atom takes) {value : Value} (hvalue : PrintsValue codec atom value)
    {path : String} (hpath : segmentsOf path ≠ [])
    (hkeys : ∀ key ∈ segmentsOf path, PrintsKey codec atom key) {text : List Char} {v : Value}
    {root : Node} (hdoc : IsDocument atom text v root) (htakes : takes v)
    (hpasses : Passes v (segmentsOf path)) (hunique : UniqueKeys root (segmentsOf path)) :
    ∃ text' root', setOne codec text ⟨path, value⟩ = .ok text' ∧
      IsDocument atom text' (setAt value v (segmentsOf path)) root' ∧
      KeepsComments atom (codec.toText value).toList v (segmentsOf path) text text' := by
  have hbody : IsDocument atom (splitBom text).2 v root := by
    rw [splitBom_document hdoc]
    exact hdoc
  have hjson := parseJson_document hreads hbody htakes
  have hparse := parseDocument_document hreads hdoc
  obtain ⟨lead, piece, trail, node, rfl, hlead, hplaced, htrail, rfl⟩ := hdoc
  obtain ⟨piece', node', hedit, hplaced', hedited⟩ := editObject_placed hreads.scalars hvalue
    (blank_newlineOf (lead ++ piece ++ trail)) (blank_detectIndentUnit (lead ++ piece ++ trail)) hpath
    hkeys hpasses hplaced lead trail hunique
  have hroot : parseRoot codec (lead ++ piece ++ trail) = .ok (node lead.length) := by
    obtain ⟨key, rest, hsegments⟩ := List.exists_cons_of_ne_nil hpath
    rw [hsegments] at hpasses
    obtain ⟨fields, rfl, -⟩ := hpasses.object
    obtain ⟨_, _, _, -, -, -, -, -, hnode⟩ := hplaced.object_cases hreads.scalars
    rw [hnode] at hparse ⊢
    exact parseRoot_object hparse
  exact ⟨lead ++ piece' ++ trail, _, setOne_ok hjson hpath hroot hedit,
    ⟨lead, piece', trail, node', rfl, hlead, hplaced', htrail, rfl⟩,
    hedited.keepsComments hvalue hlead.closed trail⟩

theorem splitBom_cases (text : List Char) : (splitBom text).1 = [] ∨ (splitBom text).1 = [bom] := by
  unfold splitBom
  split
  · split
    · rename_i hbom
      exact Or.inr (by rw [hbom])
    · exact Or.inl rfl
  · exact Or.inl rfl

/-- The byte order mark and the document behind it. -/
theorem splitBom_restored {mark text : List Char} (hmark : mark = [] ∨ mark = [bom]) {v : Value}
    {root : Node} (h : IsDocument atom text v root) : splitBom (mark ++ text) = (mark, text) := by
  rcases hmark with rfl | rfl
  · exact splitBom_document h
  · show (if bom = bom then ([bom], text) else ([], bom :: text)) = _
    exact if_pos rfl

/-- One assignment to a document. -/
theorem set_one {codec : JsonCodec} {original : String} {mark body text' : List Char} {v : Value}
    {kv : KV} (hsplit : splitBom original.toList = (mark, body))
    (hblank : (stripJsonc body).all Text.isWhitespace = false) (hjson : parseJson codec body = .ok v)
    (hset : setOne codec body kv = .ok text') :
    set codec original [kv] = .ok (String.ofList (mark ++ text')) := by
  unfold set
  rw [hsplit]
  dsimp only [List.isEmpty_cons]
  rw [if_neg Bool.false_ne_true, if_neg (by simp [hblank]), hjson]
  simp only [List.foldlM_cons, List.foldlM_nil, hset]
  rfl

/-- A path without segments is refused. -/
theorem set_empty_path {codec : JsonCodec} {original : String} {mark body : List Char} {v : Value}
    {kv : KV} (hsplit : splitBom original.toList = (mark, body))
    (hblank : (stripJsonc body).all Text.isWhitespace = false) (hjson : parseJson codec body = .ok v)
    (hpath : segmentsOf kv.path = []) :
    set codec original [kv] = .error (.parse "empty key path") := by
  have hset : setOne codec body kv = .error (.parse "empty key path") := by
    unfold setOne
    rw [hjson]
    dsimp only [bind, Except.bind]
    rw [if_pos hpath]
  unfold set
  rw [hsplit]
  dsimp only [List.isEmpty_cons]
  rw [if_neg Bool.false_ne_true, if_neg (by simp [hblank]), hjson]
  simp only [List.foldlM_cons, List.foldlM_nil, hset]
  rfl

/-- **Setting a value.**  The document that results has the value at the path and reads as before
everywhere else; the byte order mark stays, and so do the comments outside the value that was
replaced. -/
theorem set_document {codec : JsonCodec} {takes : Value → Prop} (hreads : ReadsJson codec atom takes)
    {original path : String} {v value : Value} {root : Node}
    (hdoc : IsDocument atom (splitBom original.toList).2 v root) (htakes : takes v)
    (hpath : segmentsOf path ≠ []) (hpasses : Passes v (segmentsOf path))
    (hunique : UniqueKeys root (segmentsOf path)) (hvalue : PrintsValue codec atom value)
    (hkeys : ∀ key ∈ segmentsOf path, PrintsKey codec atom key) :
    ∃ result v' root', set codec original [⟨path, value⟩] = .ok result ∧
      (splitBom result.toList).1 = (splitBom original.toList).1 ∧
      IsDocument atom (splitBom result.toList).2 v' root' ∧
      (takes v' → parseJson codec result.toList = .ok v') ∧
      walk v' (segmentsOf path) = some value ∧
      (∀ other, ¬other <+: segmentsOf path → ¬segmentsOf path <+: other →
        walk v' other = walk v other) ∧
      KeepsComments atom (codec.toText value).toList v (segmentsOf path)
        (splitBom original.toList).2 (splitBom result.toList).2 := by
  obtain ⟨text', root', hset, hdoc', hcomments⟩ :=
    setOne_document hreads hvalue hpath hkeys hdoc htakes hpasses hunique
  have hsplit := splitBom_restored (splitBom_cases original.toList) hdoc'
  refine ⟨String.ofList ((splitBom original.toList).1 ++ text'), _, root', ?_, ?_, ?_, ?_,
    walk_setAt_self value hpasses, fun other => walk_setAt_other value hpasses, ?_⟩
  · have hbody : IsDocument atom (splitBom (splitBom original.toList).2).2 v root := by
      rw [splitBom_document hdoc]
      exact hdoc
    exact set_one rfl (all_strip_document hdoc) (parseJson_document hreads hbody htakes) hset
  · rw [String.toList_ofList, hsplit]
  · rw [String.toList_ofList, hsplit]
    exact hdoc'
  · rw [String.toList_ofList]
    have hbody : IsDocument atom (splitBom ((splitBom original.toList).1 ++ text')).2
        (setAt value v (segmentsOf path)) root' := by
      rw [hsplit]
      exact hdoc'
    exact fun htakes' => parseJson_document hreads hbody htakes'
  · rw [String.toList_ofList, hsplit]
    exact hcomments

/-! ## Two documents -/

theorem readerCodec_reads : ReadsJson readerCodec printedAtom fun _ => True where
  complete s v h _ := by rw [readerCodec_fromStr, h]
  takes_string _ := trivial
  scalars token fields h := by cases (Option.mem_filter_iff.mp h).2

theorem placed_digit {c : Char} {n : Nat} (hc : atomChar c = true)
    (hread : printedAtom [c] = some (.nat n)) :
    Placed printedAtom False [c] (.nat n) fun pos => .scalar pos (pos + 1) :=
  .atom (List.cons_ne_nil _ _) (fun _ hd => List.mem_singleton.mp hd ▸ hc) hread

/-- A member of one letter and one digit. -/
def letterMember (letter digit : Char) (n : Nat) : Element :=
  ⟨[], ['"', letter, '"', ':'], [digit], [], String.ofList [letter], .nat n⟩

theorem printsValue_digit {c : Char} {n : Nat} (hc : atomChar c = true)
    (hread : printedAtom [c] = some (.nat n))
    (hprint : JsonText.showValue (.nat n) = [c]) : PrintsValue readerCodec printedAtom (.nat n) := by
  have htext : (readerCodec.toText (.nat n)).toList = [c] :=
    (JsonText.compactCodec_toList _).trans hprint
  unfold PrintsValue
  rw [htext]
  have hplaced := placed_digit hc hread
  exact ⟨⟨_, hplaced⟩, (silent_atom fun _ hd => List.mem_singleton.mp hd ▸ hc).comments_nil⟩

theorem set_document_short : ∃ result v' root',
    set readerCodec "\x7b\"a\":1\x7d//x" [⟨"b", .nat 2⟩] = .ok result ∧
      (splitBom result.toList).1 = (splitBom "\x7b\"a\":1\x7d//x".toList).1 ∧
      IsDocument printedAtom (splitBom result.toList).2 v' root' ∧
      (True → parseJson readerCodec result.toList = .ok v') ∧
      walk v' (segmentsOf "b") = some (.nat 2) ∧
      (∀ other, ¬other <+: segmentsOf "b" → ¬segmentsOf "b" <+: other →
        walk v' other = walk (.object [("a", .nat 1)]) other) ∧
      KeepsComments printedAtom (readerCodec.toText (.nat 2)).toList (.object [("a", .nat 1)])
        (segmentsOf "b") (splitBom "\x7b\"a\":1\x7d//x".toList).2 (splitBom result.toList).2 := by
  have hmember : (letterMember 'a' '1' 1).IsMember printedAtom :=
    ⟨.nil, .nil, ['a', '"'], [], [], rfl, rfl, by decide, .nil, .nil⟩
  have hobject := @Placed.object printedAtom False [letterMember 'a' '1' 1] []
    (fun _ pos => .scalar pos (pos + 1)) (fun e he => List.mem_singleton.mp he ▸ hmember)
    (fun e he => List.mem_singleton.mp he ▸ placed_digit (by decide) (by decide)) .last
  have htext : "\x7b\"a\":1\x7d//x".toList =
      ['\x7b', '"', 'a', '"', ':', '1', '\x7d', '/', '/', 'x'] := String.toList_ofList
  have hdoc : IsDocument printedAtom (splitBom "\x7b\"a\":1\x7d//x".toList).2 (.object [("a", .nat 1)])
      (.object 0 7 [.mk "a" 1 (.scalar 5 6)]) := by
    rw [htext]
    exact ⟨[], _, ['/', '/', 'x'], _, rfl, .nil, hobject,
      ⟨[], _, rfl, .nil, Or.inr ⟨['x'], rfl, by decide⟩⟩, rfl⟩
  refine set_document readerCodec_reads hdoc trivial (by decide) ?_ ?_
    (@printsValue_digit '2' 2 (by decide) (by decide) (by decide)) ?_
  · exact fun w hw => by cases hw
  · refine ⟨by decide, fun m hm hkey => ?_⟩
    rw [List.mem_singleton.mp hm] at hkey
    exact absurd hkey (by decide)
  · intro key hkey
    rw [show segmentsOf "b" = ["b"] by decide] at hkey
    rw [List.mem_singleton.mp hkey]
    exact ⟨['b', '"'], JsonText.compactCodec_toList _, rfl, by decide⟩

/-- A member whose value has two equal keys. -/
def twiceMember : Element :=
  ⟨[], ['"', 'a', '"', ':'], objectText [letterMember 'b' '1' 1, letterMember 'b' '2' 2] [], [], "a",
    .object [("b", .nat 2)]⟩

/-- The first of two equal keys inside the root is set, and the last one is read; a path without
segments is refused. -/
theorem set_duplicate_inside :
    IsDocument printedAtom (splitBom "\x7b\"a\":\x7b\"b\":1,\"b\":2\x7d\x7d".toList).2
        (.object [("a", .object [("b", .nat 2)])])
        (.object 0 19 [.mk "a" 1 (.object 5 18 [.mk "b" 6 (.scalar 10 11), .mk "b" 12 (.scalar 16 17)])]) ∧
      Passes (.object [("a", .object [("b", .nat 2)])]) (segmentsOf "a.b") ∧
      set readerCodec "\x7b\"a\":\x7b\"b\":1,\"b\":2\x7d\x7d" [⟨"a.b", .nat 3⟩] =
        .ok "\x7b\"a\":\x7b\"b\":3,\"b\":2\x7d\x7d" ∧
      get readerCodec "\x7b\"a\":\x7b\"b\":3,\"b\":2\x7d\x7d" "a.b" = some "2" ∧
      set readerCodec "\x7b\"a\":\x7b\"b\":1,\"b\":2\x7d\x7d" [⟨"", .nat 3⟩] =
        .error (.parse "empty key path") := by
  have htext : "\x7b\"a\":\x7b\"b\":1,\"b\":2\x7d\x7d".toList = ['\x7b', '"', 'a', '"', ':', '\x7b', '"', 'b', '"',
      ':', '1', ',', '"', 'b', '"', ':', '2', '\x7d', '\x7d'] := String.toList_ofList
  have htext' : "\x7b\"a\":\x7b\"b\":3,\"b\":2\x7d\x7d".toList = ['\x7b', '"', 'a', '"', ':', '\x7b', '"', 'b', '"',
      ':', '3', ',', '"', 'b', '"', ':', '2', '\x7d', '\x7d'] := String.toList_ofList
  have hdigit : ∀ e ∈ [letterMember 'b' '1' 1, letterMember 'b' '2' 2],
      e.IsMember printedAtom ∧
        Placed printedAtom False e.text e.value fun pos => .scalar pos (pos + 1) := by
    intro e he
    rcases List.mem_pair.mp he with rfl | rfl
    · exact ⟨⟨.nil, .nil, ['b', '"'], [], [], rfl, rfl, by decide, .nil, .nil⟩,
        placed_digit (by decide) (by decide)⟩
    · exact ⟨⟨.nil, .nil, ['b', '"'], [], [], rfl, rfl, by decide, .nil, .nil⟩,
        placed_digit (by decide) (by decide)⟩
  have hcollect : collect ([letterMember 'b' '1' 1, letterMember 'b' '2' 2].map Element.field) =
      [("b", .nat 2)] := by decide
  have hinner := @Placed.object printedAtom False _ [] (fun _ pos => .scalar pos (pos + 1))
    (fun e he => (hdigit e he).1) (fun e he => (hdigit e he).2) .last
  rw [hcollect] at hinner
  have hmember : twiceMember.IsMember printedAtom :=
    ⟨.nil, .nil, ['a', '"'], [], [], rfl, rfl, by decide, .nil, .nil⟩
  have houter := @Placed.object printedAtom False [twiceMember] [] (fun _ => _)
    (fun e he => List.mem_singleton.mp he ▸ hmember)
    (fun e he => by rw [List.mem_singleton.mp he]; exact hinner) .last
  have hdoc : IsDocument printedAtom "\x7b\"a\":\x7b\"b\":1,\"b\":2\x7d\x7d".toList
      (.object [("a", .object [("b", .nat 2)])])
      (.object 0 19 [.mk "a" 1 (.object 5 18
        [.mk "b" 6 (.scalar 10 11), .mk "b" 12 (.scalar 16 17)])]) := by
    rw [htext]
    exact ⟨[], _, [], _, rfl, .nil, houter, ⟨[], [], rfl, .nil, Or.inl rfl⟩, rfl⟩
  have hpath : segmentsOf "a.b" = ["a", "b"] := by decide
  have hsplit : splitBom "\x7b\"a\":\x7b\"b\":1,\"b\":2\x7d\x7d".toList =
      ([], "\x7b\"a\":\x7b\"b\":1,\"b\":2\x7d\x7d".toList) := splitBom_document hdoc
  have hjson := @parseJson_document printedAtom readerCodec _ readerCodec_reads
    "\x7b\"a\":\x7b\"b\":1,\"b\":2\x7d\x7d".toList _ _ (by rw [hsplit]; exact hdoc) trivial
  refine ⟨by rw [hsplit]; exact hdoc, ?_, ?_, ?_,
    set_empty_path hsplit (all_strip_document hdoc) hjson (by decide)⟩
  · rw [hpath]
    intro w hw
    obtain rfl : Value.object [("b", .nat 2)] = w := Option.some.inj hw
    exact fun _ _ => trivial
  · refine set_one hsplit (all_strip_document hdoc) hjson
      (setOne_ok hjson (by rw [hpath]; decide) (parseRoot_object (parseDocument_document
        readerCodec_reads hdoc)) ?_)
    rw [htext, hpath]
    refine (editObject_inside _ _ _ _ _ _ rfl ⟨_, _, rfl⟩ "b" []).trans ?_
    have hset := @editObject_found readerCodec
      ['\x7b', '"', 'a', '"', ':', '\x7b', '"', 'b', '"', ':'] ['1']
      [',', '"', 'b', '"', ':', '2', '\x7d', '\x7d'] (.nat 3)
    have hthree : (readerCodec.toText (.nat 3)).toList = ['3'] :=
      (JsonText.compactCodec_toList _).trans (by decide)
    rw [hthree] at hset
    exact hset _ _ _ _ rfl rfl rfl
  · have hread : JsonReader.read printedAtom (stripJsonc (splitBom
        "\x7b\"a\":\x7b\"b\":3,\"b\":2\x7d\x7d".toList).2) = some (.object [("a", .object [("b", .nat 2)])]) := by
      rw [htext']
      decide
    have hjson' : parseJson readerCodec "\x7b\"a\":\x7b\"b\":3,\"b\":2\x7d\x7d".toList =
        .ok (.object [("a", .object [("b", .nat 2)])]) := by
      unfold parseJson
      dsimp only
      rw [readerCodec_fromStr, String.toList_ofList, hread]
    unfold get
    rw [hjson', hpath]
    have htwo : readerCodec.toText (.nat 2) = "2" :=
      congrArg String.ofList (by decide : JsonText.showValue (.nat 2) = ['2'])
    rw [← htwo]
    rfl

end AnyConverter.JsonEdit
