import AnyConverter.Wiring.Edit.Placed

/-!
# The comments of a text

`comments` lists the comments of a text in their order.  A piece is `Closed` when its comments are
the first of any text it begins, and `Silent` when it has none.

* `Trivia.closed`, `Placed.closed`: white space, comments and values are closed;
* `joined_closed`: and so are the elements of an object or of an array.
-/

set_option autoImplicit false

namespace AnyConverter.JsonEdit

open JsonReader (isWs atomChar literalLength Atoms Blank)

/-- The comments of a text from a mode on; `open_` is what has been read of the comment the text
begins in. -/
def commentsFrom : StripMode → List Char → List Char → List (List Char)
  | .line, open_, [] => [open_]
  | .block, open_, [] => [open_]
  | _, _, [] => []
  | .string, _, c :: cs => commentsFrom (stringMode c) [] cs
  | .escaped, _, _ :: cs => commentsFrom .string [] cs
  | .line, open_, c :: cs =>
    if c = '\n' then open_ :: commentsFrom .code [] cs else commentsFrom .line (open_ ++ [c]) cs
  | .block, open_, '*' :: '/' :: cs => (open_ ++ ['*', '/']) :: commentsFrom .code [] cs
  | .block, open_, c :: cs => commentsFrom .block (open_ ++ [c]) cs
  | .code, _, '/' :: '/' :: cs => commentsFrom .line ['/', '/'] cs
  | .code, _, '/' :: '*' :: cs => commentsFrom .block ['/', '*'] cs
  | .code, _, c :: cs => commentsFrom (if c = '"' then .string else .code) [] cs

def comments (text : List Char) : List (List Char) := commentsFrom .code [] text

example : comments "a /* b */ \"// c\" // d".toList = ["/* b */".toList, "// d".toList] := by decide

/-- The comments of a piece are the first of whatever text it begins. -/
def Closed (piece : List Char) : Prop :=
  ∀ rest, comments (piece ++ rest) = comments piece ++ comments rest

/-- A piece without comments. -/
def Silent (piece : List Char) : Prop := ∀ rest, comments (piece ++ rest) = comments rest

theorem Silent.comments_nil {piece : List Char} (h : Silent piece) : comments piece = [] := by
  have hempty := h []
  rwa [List.append_nil] at hempty

theorem Silent.closed {piece : List Char} (h : Silent piece) : Closed piece := fun rest => by
  rw [h rest, h.comments_nil, List.nil_append]

theorem Closed.silent {piece : List Char} (h : Closed piece) (hnone : comments piece = []) :
    Silent piece := fun rest => by
  rw [h rest, hnone, List.nil_append]

theorem silent_nil : Silent [] := fun _ => rfl

theorem closed_nil : Closed [] := silent_nil.closed

theorem Closed.append {piece more : List Char} (h : Closed piece) (h' : Closed more) :
    Closed (piece ++ more) := fun rest => by
  rw [List.append_assoc, h, h', h, List.append_assoc]

theorem Silent.append {piece more : List Char} (h : Silent piece) (h' : Silent more) :
    Silent (piece ++ more) := fun rest => by
  rw [List.append_assoc, h, h']

/-! ## Characters and literals -/

theorem silent_char {c : Char} (hquote : c ≠ '"') (hslash : c ≠ '/') : Silent [c] := fun rest => by
  unfold comments
  rw [List.singleton_append, commentsFrom.eq_def]
  simp [hquote, hslash]

theorem silent_of_chars {piece : List Char} (h : ∀ c ∈ piece, c ≠ '"' ∧ c ≠ '/') : Silent piece := by
  induction piece with
  | nil => exact fun _ => rfl
  | cons c piece ih =>
    obtain ⟨hquote, hslash⟩ := h c List.mem_cons_self
    exact (silent_char hquote hslash).append (ih fun d hd => h d (List.mem_cons_of_mem _ hd))

theorem silent_blank {piece : List Char} (h : Blank piece) : Silent piece := by
  refine silent_of_chars fun c hc => ?_
  have hws := h c hc
  refine ⟨?_, ?_⟩ <;> rintro rfl <;> exact absurd hws (by decide)

theorem silent_atom {token : List Char} (h : ∀ c ∈ token, atomChar c = true) : Silent token := by
  refine silent_of_chars fun c hc => ?_
  obtain ⟨hquote, hslash, -⟩ := isPlain_atomChar (h c hc)
  exact ⟨hquote, hslash⟩

/-- Inside a string literal there is no comment. -/
theorem comments_inside {escaped : Bool} {body : List Char}
    (h : literalLength escaped body = some body.length) (rest : List Char) :
    commentsFrom (stringModeOf escaped) [] (body ++ rest) = comments rest := by
  induction body generalizing escaped with
  | nil => cases escaped <;> cases h
  | cons c body ih =>
    have hnext : ∀ {next : Bool},
        (literalLength next body).map (· + 1) = some (c :: body).length →
        literalLength next body = some body.length := by
      intro next hmap
      obtain ⟨n, hn, hlength⟩ := Option.map_eq_some_iff.mp hmap
      rw [hn, show n = body.length by simpa using hlength]
    cases escaped with
    | true => exact ih (hnext h)
    | false =>
      have hstep : commentsFrom .string [] (c :: body ++ rest) =
          commentsFrom (stringMode c) [] (body ++ rest) := by
        rw [List.cons_append, commentsFrom]
      refine hstep.trans ?_
      unfold literalLength at h
      unfold stringMode
      split at h
      · rename_i hback
        rw [if_pos hback]
        exact ih (hnext h)
      · rename_i hback
        rw [if_neg hback]
        split at h
        · rename_i hquote
          obtain rfl : body = [] := by
            have hlength : 1 = body.length + 1 := by simpa using h
            exact List.length_eq_zero_iff.mp (by omega)
          rw [if_pos hquote]
          rfl
        · rename_i hquote
          rw [if_neg hquote]
          exact ih (hnext h)

theorem silent_literal {body : List Char} (h : literalLength false body = some body.length) :
    Silent ('"' :: body) := fun rest => by
  have hstep : comments ('"' :: body ++ rest) = commentsFrom .string [] (body ++ rest) := by
    unfold comments
    rw [List.cons_append, commentsFrom.eq_def]
    simp
  rw [hstep]
  exact comments_inside h rest

/-! ## White space and comments -/

theorem commentsFrom_code (open_ open' cs : List Char) :
    commentsFrom .code open_ cs = commentsFrom .code open' cs := by
  rw [commentsFrom.eq_def, commentsFrom.eq_def .code open']
  split <;> simp_all

theorem commentsFrom_line_cons {c : Char} (hc : c ≠ '\n') (open_ cs : List Char) :
    commentsFrom .line open_ (c :: cs) = commentsFrom .line (open_ ++ [c]) cs := by
  rw [commentsFrom.eq_def]
  simp [hc]

theorem commentsFrom_trivia {mode : TriviaMode} {t : List Char} (h : Trivia mode t)
    (open_ rest : List Char) :
    commentsFrom (stripModeOf mode) open_ (t ++ rest) =
      commentsFrom (stripModeOf mode) open_ t ++ comments rest := by
  induction h generalizing open_ with
  | nil => exact commentsFrom_code open_ [] rest
  | @space c t hc _ ih =>
    have hslash : c ≠ '/' := by
      rintro rfl
      exact absurd hc (by decide)
    have hquote : c ≠ '"' := by
      rintro rfl
      exact absurd hc (by decide)
    have hstep : ∀ cs, commentsFrom .code open_ (c :: cs) = commentsFrom .code [] cs := by
      intro cs
      rw [commentsFrom.eq_def]
      simp [hquote, hslash]
    show commentsFrom .code open_ (c :: (t ++ rest)) = commentsFrom .code open_ (c :: t) ++ _
    rw [hstep, hstep]
    exact ih []
  | openLine _ ih => exact ih ['/', '/']
  | openBlock _ ih => exact ih ['/', '*']
  | lineEnd _ ih => exact congrArg (open_ :: ·) (ih [])
  | @lineChar c t hc _ ih =>
    show commentsFrom .line open_ (c :: (t ++ rest)) = commentsFrom .line open_ (c :: t) ++ _
    rw [commentsFrom_line_cons hc, commentsFrom_line_cons hc]
    exact ih _
  | blockEnd _ ih => exact congrArg ((open_ ++ ['*', '/']) :: ·) (ih [])
  | @blockChar c t hc ht ih =>
    obtain ⟨d, t, rfl⟩ := List.exists_cons_of_ne_nil ht.block_ne_nil
    have hnot : ¬(c = '*' ∧ d = '/') := by simpa using hc
    have hstep : ∀ cs, commentsFrom .block open_ (c :: d :: cs) =
        commentsFrom .block (open_ ++ [c]) (d :: cs) := by
      intro cs
      rw [commentsFrom.eq_def]
      split <;> simp_all
    show commentsFrom .block open_ (c :: d :: (t ++ rest)) =
      commentsFrom .block open_ (c :: d :: t) ++ _
    rw [hstep, hstep]
    exact ih _

theorem Trivia.closed {t : List Char} (h : Trivia .plain t) : Closed t :=
  commentsFrom_trivia h []

/-! ## Values -/

variable {atom : Atoms} {lone : Prop}

/-- What stands before the text of a member. -/
theorem Element.IsMember.closed_head {e : Element} (h : e.IsMember atom) :
    Closed (e.lead ++ e.head) := by
  obtain ⟨body, gap, gap', hhead, hbody, -, hgap, hgap'⟩ := h.head
  have hcolon : Closed [':'] := (silent_char (by decide) (by decide)).closed
  have hmore : e.head = '"' :: body ++ (gap ++ ([':'] ++ gap')) := by
    rw [hhead]
    simp
  rw [hmore]
  exact h.lead.closed.append
    ((silent_literal hbody).closed.append (hgap.closed.append (hcolon.append hgap'.closed)))

theorem Element.IsItem.closed_head {e : Element} (h : e.IsItem) : Closed (e.lead ++ e.head) := by
  rw [h.head, List.append_nil]
  exact h.lead.closed

theorem joined_closed {es : List Element}
    (h : ∀ e ∈ es, Closed (e.lead ++ e.head) ∧ Closed e.text ∧ Closed e.after) :
    Closed (joined es) := by
  induction es with
  | nil => exact closed_nil
  | cons e es ih =>
    obtain ⟨hhead, htext, hafter⟩ := h e List.mem_cons_self
    have hchars : Closed e.chars := (hhead.append htext).append hafter
    cases es with
    | nil => exact hchars
    | cons e' es =>
      have hcomma : Closed [','] := (silent_char (by decide) (by decide)).closed
      have hmore := ih fun x hx => h x (List.mem_cons_of_mem _ hx)
      rw [joined_cons_cons]
      exact hchars.append (hcomma.append hmore)

theorem Tail.closed {es : List Element} {tail : List Char} (h : Tail lone es tail) : Closed tail := by
  have hcomma : Closed [','] := (silent_char (by decide) (by decide)).closed
  cases h with
  | blank ht => exact ht.closed
  | loneComma _ ht ht' => exact ht.closed.append (hcomma.append ht'.closed)
  | last => exact closed_nil
  | trailingComma ht => exact hcomma.append ht.closed

theorem Placed.closed {text : List Char} {v : Value} {node : Nat → Node}
    (h : Placed atom lone text v node) : Closed text := by
  induction h with
  | atom _ hchars _ => exact (silent_atom hchars).closed
  | string hbody _ => exact (silent_literal hbody).closed
  | array hes _ htail ih =>
    have hbracket : Closed ['['] := (silent_char (by decide) (by decide)).closed
    have hclose : Closed [']'] := (silent_char (by decide) (by decide)).closed
    have hitems := joined_closed fun e he => ⟨(hes e he).closed_head, ih e he, (hes e he).after.closed⟩
    exact hbracket.append ((hitems.append htail.closed).append hclose)
  | object hes _ htail ih =>
    have hbrace : Closed ['\x7b'] := (silent_char (by decide) (by decide)).closed
    have hclose : Closed ['\x7d'] := (silent_char (by decide) (by decide)).closed
    have hmembers := joined_closed fun e he =>
      ⟨(hes e he).closed_head, ih e he, (hes e he).after.closed⟩
    exact hbrace.append ((hmembers.append htail.closed).append hclose)

end AnyConverter.JsonEdit
