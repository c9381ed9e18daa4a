import AnyConverter.Wiring.Edit.Parsed

/-!
# Documents with comments

A document is a value with white space and comments around it; the last comment may end with the
text.

* `parseJson_document`: the library reads it as its value;
* `parseDocument_document`: the scanner parses it to its spans.
-/

set_option autoImplicit false

namespace AnyConverter.JsonEdit

open JsonReader (isWs skipWs atomChar literalLength Atoms Blank readValue)

variable {atom : Atoms} {lone : Prop}

/-! ## The library -/

/-- Literals are no objects. -/
def Scalars (atom : Atoms) : Prop := ∀ token fields, atom token ≠ some (.object fields)

/-- A JSON library reads the texts of the grammar whose values it takes; how deep a value may be
nested is for the library to say. -/
structure ReadsJson (codec : JsonCodec) (atom : Atoms) (takes : Value → Prop) : Prop where
  complete : ∀ s v, JsonReader.read atom s.toList = some v → takes v → codec.fromStr s = some v
  takes_string : ∀ s, takes (.string s)
  scalars : Scalars atom

theorem read_literal {body : List Char} {v : Value}
    (hbody : literalLength false body = some body.length) (hread : atom ('"' :: body) = some v) :
    JsonReader.read atom ('"' :: body) = some v := by
  have hvalue : readValue atom (('"' :: body).length + 1) ('"' :: body) = some (v, []) := by
    have hstring := readString_literal hbody hread []
    rwa [List.append_nil] at hstring
  unfold JsonReader.read
  rw [JsonReader.skipWs_cons (by decide), hvalue]
  rfl

theorem ReadsJson.readsKeys {codec : JsonCodec} {takes : Value → Prop}
    (h : ReadsJson codec atom takes) : ReadsKeys codec atom := by
  intro body key hbody hkey
  have hread := read_literal hbody hkey
  rw [← String.toList_ofList (l := '"' :: body)] at hread
  exact JsonCodec.decode_of_read (h.complete _ _ hread (h.takes_string key)) rfl

/-! ## Documents -/

/-- What may stand behind the value of a document. -/
def Trailer (t : List Char) : Prop :=
  ∃ t' line, t = t' ++ line ∧ Trivia .plain t' ∧
    (line = [] ∨ ∃ body, line = '/' :: '/' :: body ∧ '\n' ∉ body)

/-- A text with a value in it, and the span the value is parsed to. -/
def IsDocument (atom : Atoms) (text : List Char) (v : Value) (root : Node) : Prop :=
  ∃ lead piece trail node, text = lead ++ piece ++ trail ∧ Trivia .plain lead ∧
    Placed atom False piece v node ∧ Trailer trail ∧ root = node lead.length

/-! ### What stripping leaves -/

theorem length_blankComments (mode : StripMode) (cs : List Char) :
    (blankComments mode cs).length = cs.length := by
  fun_induction blankComments mode cs <;> simp_all

theorem length_blankTrailingCommas (mode : StripMode) (cs : List Char) :
    (blankTrailingCommas mode cs).length = cs.length := by
  fun_induction blankTrailingCommas mode cs <;> simp_all

theorem length_strip (cs : List Char) : (stripJsonc cs).length = cs.length := by
  unfold stripJsonc
  rw [length_blankTrailingCommas, length_blankComments]

theorem blank_line {body : List Char} (h : '\n' ∉ body) : Blank (blankComments .line body) := by
  induction body with
  | nil => exact fun _ hc => absurd hc List.not_mem_nil
  | cons c body ih =>
    have hc : c ≠ '\n' := by
      rintro rfl
      exact h List.mem_cons_self
    have hstep : blankComments .line (c :: body) =
        (if c = '\r' then '\r' else ' ') :: blankComments .line body := by
      rw [blankComments.eq_def]
      simp [hc]
    rw [hstep]
    intro d hd
    rcases List.mem_cons.mp hd with rfl | hd
    · split <;> decide
    · exact ih (fun hin => h (List.mem_cons_of_mem _ hin)) d hd

theorem blank_strip_trailer {t : List Char} (h : Trailer t) : Blank (stripJsonc t) := by
  obtain ⟨t', line, rfl, ht', hline⟩ := h
  obtain ⟨blank, hblank, -, hstrip⟩ := strip_trivia ht'
  rw [(hstrip line).1]
  refine hblank.append ?_
  rcases hline with rfl | ⟨body, rfl, hbody⟩
  · exact fun _ hc => absurd hc List.not_mem_nil
  · have hblank' : Blank (' ' :: ' ' :: blankComments .line body) :=
      Blank.append (by decide : Blank [' ', ' ']) (blank_line hbody)
    have hsame := blankTrailingCommas_blank hblank' []
    rw [List.append_nil] at hsame
    show Blank (blankTrailingCommas .code (' ' :: ' ' :: blankComments .line body))
    rw [hsame]
    exact hblank'.append (by decide)

theorem delimited_trailer {t : List Char} (h : Trailer t) : Delimited t := by
  intro c r hstrip
  have hblank := blank_strip_trailer h
  rw [hstrip] at hblank
  exact atomChar_of_isWs (hblank c List.mem_cons_self)

/-- **The library's grammar reads a document as its value.** -/
theorem read_document {text : List Char} {v : Value} {root : Node}
    (h : IsDocument atom text v root) : JsonReader.read atom (stripJsonc text) = some v := by
  obtain ⟨lead, piece, trail, node, rfl, hlead, hplaced, htrail, -⟩ := h
  have hskip : skipWs (stripJsonc (lead ++ piece ++ trail)) = stripJsonc (piece ++ trail) := by
    rw [List.append_assoc, skipWs_strip_trivia hlead, skipWs_strip_placed hplaced]
  have hlength : piece.length < (stripJsonc (lead ++ piece ++ trail)).length + 1 := by
    rw [length_strip]
    simp only [List.length_append]
    omega
  have hvalue := readValue_placed hplaced _ trail hlength (delimited_trailer htrail)
  have hend : skipWs (stripJsonc trail) = [] := by
    have hall := JsonReader.skipWs_append (blank_strip_trailer htrail) []
    rwa [List.append_nil] at hall
  unfold JsonReader.read
  rw [hskip, hvalue]
  simp [hend]

theorem Placed.not_bom {text : List Char} {v : Value} {node : Nat → Node}
    (h : Placed atom lone text v node) : ∃ c cs, text = c :: cs ∧ c ≠ bom := by
  obtain ⟨c, cs, htext, hc⟩ := h.opens
  refine ⟨c, cs, htext, ?_⟩
  rintro rfl
  rcases hc with h | h | h | h <;> exact absurd h (by decide)

/-- A document has no byte order mark of its own. -/
theorem splitBom_document {text : List Char} {v : Value} {root : Node}
    (h : IsDocument atom text v root) : splitBom text = ([], text) := by
  obtain ⟨lead, piece, trail, node, rfl, hlead, hplaced, -, -⟩ := h
  have hfirst : ∃ c cs, lead ++ piece ++ trail = c :: cs ∧ c ≠ bom := by
    cases hlead with
    | nil =>
      obtain ⟨c, cs, rfl, hc⟩ := hplaced.not_bom
      exact ⟨c, _, rfl, hc⟩
    | @space c t hc _ =>
      refine ⟨c, _, rfl, ?_⟩
      rintro rfl
      exact absurd hc (by decide)
    | openLine _ => exact ⟨'/', _, rfl, by decide⟩
    | openBlock _ => exact ⟨'/', _, rfl, by decide⟩
  obtain ⟨c, cs, htext, hc⟩ := hfirst
  rw [htext]
  exact if_neg hc

/-- **The library reads a document as its value**, whether there is a byte order mark or not. -/
theorem parseJson_document {codec : JsonCodec} {takes : Value → Prop}
    (hreads : ReadsJson codec atom takes) {text : List Char} {v : Value} {root : Node}
    (h : IsDocument atom (splitBom text).2 v root) (htakes : takes v) :
    parseJson codec text = .ok v := by
  have hread := read_document h
  rw [← String.toList_ofList (l := stripJsonc (splitBom text).2)] at hread
  unfold parseJson
  dsimp only
  rw [hreads.complete _ _ hread htakes]

theorem all_strip_document {text : List Char} {v : Value} {root : Node}
    (h : IsDocument atom text v root) : (stripJsonc text).all Text.isWhitespace = false := by
  obtain ⟨lead, piece, trail, node, rfl, hlead, hplaced, -, -⟩ := h
  obtain ⟨c, cs, rfl, hc⟩ := hplaced.opens
  obtain ⟨blank, -, -, hstrip⟩ := strip_trivia hlead
  obtain ⟨⟨r, hr⟩, -⟩ := strip_opens hc (cs ++ trail)
  refine List.all_eq_false.mpr ⟨c, ?_, by simp [hc.not_whitespace]⟩
  rw [List.append_assoc, (hstrip _).1, List.cons_append, hr]
  simp

/-! ### What it is parsed to -/

theorem triviaLength_line (eager : Bool) {body : List Char} (h : '\n' ∉ body) :
    triviaLength eager .line body = body.length := by
  induction body with
  | nil => rfl
  | cons c body ih =>
    have hc : c ≠ '\n' := by
      rintro rfl
      exact h List.mem_cons_self
    have hstep : triviaLength eager .line (c :: body) = 1 + triviaLength eager .line body := by
      rw [triviaLength.eq_def]
      simp [hc]
    rw [hstep, ih fun hin => h (List.mem_cons_of_mem _ hin), List.length_cons]
    omega

theorem skipTrivia_trailer {t : List Char} (h : Trailer t) (pos : Nat) :
    (skipTrivia ⟨pos, t⟩).rest = [] := by
  obtain ⟨t', line, rfl, ht', hline⟩ := h
  have hlength : triviaLength false .plain (t' ++ line) = (t' ++ line).length := by
    rw [triviaLength_append ht', List.length_append]
    rcases hline with rfl | ⟨body, rfl, hbody⟩
    · rfl
    · show t'.length + (2 + triviaLength false .line body) = t'.length + (body.length + 1 + 1)
      rw [triviaLength_line false hbody]
      omega
  unfold skipTrivia Cursor.advance
  rw [hlength]
  exact List.drop_length

theorem endsScalar_trailer {t : List Char} (h : Trailer t) : EndsScalar t := by
  obtain ⟨t', line, rfl, ht', hline⟩ := h
  refine endsScalar_trivia ht' ?_
  rcases hline with rfl | ⟨body, rfl, -⟩
  · exact fun _ _ h => by cases h
  · exact endsScalar_cons (by decide) _

/-- **The scanner parses a document to its spans.** -/
theorem parseDocument_document {codec : JsonCodec} {takes : Value → Prop}
    (hreads : ReadsJson codec atom takes) {text : List Char} {v : Value} {root : Node}
    (h : IsDocument atom text v root) : parseDocument codec text = .ok root := by
  obtain ⟨lead, piece, trail, node, rfl, hlead, hplaced, htrail, rfl⟩ := h
  obtain ⟨c, cs, hpiece, hc⟩ := hplaced.opens
  have hskip : skipTrivia ⟨0, lead ++ piece ++ trail⟩ = ⟨lead.length, piece ++ trail⟩ := by
    rw [List.append_assoc, skipTrivia_trivia hlead 0 (by rw [hpiece]; exact hc.stopsTrivia _)]
    simp
  have hvalue := parseValue_placed hreads.readsKeys hplaced ((piece ++ trail).length + 1)
    lead.length [] trail (by simp only [List.length_append]; omega) .nil (endsScalar_trailer htrail)
  simp only [List.nil_append, List.length_nil, Nat.add_zero] at hvalue
  have hne : piece ++ trail ≠ [] := by simp [hpiece]
  have hdone := skipTrivia_trailer htrail (lead.length + piece.length)
  unfold parseDocument
  rw [hskip]
  dsimp only
  rw [if_neg hne, hvalue]
  dsimp only [bind, Except.bind, pure, Except.pure]
  rw [if_neg (not_not_intro hdone)]

end AnyConverter.JsonEdit
