import AnyConverter.Lib.Like
import AnyConverter.Server.Storage.Query

/-!
# The ledger's search

The text a user searches for is lowered and put between percent signs, and the columns are compared
with it by `like`, in the lower case SQLite gives them.  What it should find is the text as a part of
a column, whatever the case of its characters.

* `like_needle_iff`: what is found of a plain text;
* `exists_wrong`: a model that is found or missed by mistake, for any other text;
* `search_iff`: which texts are searched for as they should be.
-/

set_option autoImplicit false

namespace AnyConverter.Storage

open Like

/-! ## Lower case -/

/-- The lower case of the standard library, by what is documented of it. -/
structure Lowercase where
  /-- `char::to_lowercase` -/
  char : Char → List Char
  /-- `str::to_lowercase` -/
  text : List Char → List Char
  ascii : ∀ c, c.toNat < 128 → char c = [c.toLower]
  letter : ∀ c, 128 ≤ c.toNat → ∀ d ∈ char c, d.toNat < 128 → 97 ≤ d.toNat ∧ d.toNat ≤ 122
  ne_nil : ∀ c, char c ≠ []
  lowered : ∀ c d, char c = [d] → char d = [d]
  sigma : char 'Σ' = ['σ']
  /-- character by character, but for a sigma that ends a word -/
  pieces : ∀ cs, ∃ ps, text cs = ps.flatten ∧
    List.Forall₂ (fun c p => p = char c ∨ c = 'Σ' ∧ p = ['ς']) cs ps

variable (L : Lowercase)

/-! ## The search -/

def needle (query : String) : List Char := containing (L.text query.toList)

def likeNeedle (query column : String) : Bool :=
  like (needle L query) (column.toList.map Char.toLower)

/-- The four `like`s of `where_clause`. -/
def search (query : String) (row : LogRow) : Bool :=
  likeNeedle L query row.clientModel || likeNeedle L query row.provider ||
    likeNeedle L query (row.servedModel.getD "") || likeNeedle L query (row.sessionId.getD "")

/-- The bytes a pattern of `like` may have. -/
def likePatternLength : Nat := 50000

def tooLong (query : String) : Bool :=
  likePatternLength < (String.ofList (needle L query)).utf8ByteSize

/-- The rows of a page's `where`; a pattern that is too long is an error once a row is compared with
it. -/
def LedgerFilter.select (f : LedgerFilter) (rows : List LogRow) : Option (List LogRow) :=
  if f.query.any (tooLong L) && rows.any ({ f with query := none }.keeps (search L)) then none
  else some (rows.filter (f.keeps (search L)))

/-! ## What it should find -/

/-- A text is a part of another, whatever the case of its characters. -/
def IsPart (text value : String) : Prop := text.toList.map L.char <:+: value.toList.map L.char

instance (text value : String) : Decidable (IsPart L text value) := by
  unfold IsPart
  infer_instance

def Mentions (text : String) (row : LogRow) : Prop :=
  IsPart L text row.clientModel ∨ IsPart L text row.provider ∨
    IsPart L text (row.servedModel.getD "") ∨ IsPart L text (row.sessionId.getD "")

instance (text : String) (row : LogRow) : Decidable (Mentions L text row) := by
  unfold Mentions
  infer_instance

/-- No wildcard, and one that has one lower case, which is that of no others than ASCII gives it. -/
def PlainChar (c : Char) : Prop :=
  ¬IsWildcard c ∧ ∃ e, L.char c = [e] ∧ ∀ d, L.char d = [e] → d.toLower = e

def Plain (text : String) : Prop := ∀ c ∈ text.toList, PlainChar L c

variable {L}

/-! ## Lower cases of characters -/

theorem char_of_ascii_mem {c e : Char} (he : e.toNat < 97) (h : e ∈ L.char c) : c = e := by
  by_cases hascii : c.toNat < 128
  · rw [L.ascii c hascii, List.mem_singleton] at h
    exact eq_of_toLower_eq h.symm (Or.inl he)
  · have hletter := L.letter c (Nat.not_lt.mp hascii) e h (by omega)
    omega

theorem wildcard_of_mem_char {c e : Char} (he : IsWildcard e) (h : e ∈ L.char c) : c = e := by
  rcases he with rfl | rfl
  · exact char_of_ascii_mem (by decide) h
  · exact char_of_ascii_mem (by decide) h

/-- A lower case is the lower case of ASCII, too. -/
theorem toLower_of_char {c e : Char} (h : L.char c = [e]) : e.toLower = e := by
  have hself := L.lowered c e h
  by_cases hascii : e.toNat < 128
  · rw [L.ascii e hascii] at hself
    exact (List.cons.inj hself).1
  · rcases toLower_cases e with heq | ⟨hupper, -⟩
    · exact heq
    · omega

/-- A character with the lower case of ASCII that is the lower case of another has it by itself. -/
theorem char_of_toLower {c d e : Char} (h : L.char c = [e]) (hd : d.toLower = e) : L.char d = [e] := by
  rcases toLower_cases d with hself | ⟨hupper, -⟩
  · rw [← hself, hd]
    exact L.lowered c e h
  · rw [L.ascii d (by omega), hd]

theorem mem_text {cs : List Char} {e : Char} (h : e ∈ L.text cs) :
    (∃ c ∈ cs, e ∈ L.char c) ∨ e = 'ς' := by
  obtain ⟨ps, htext, hpieces⟩ := L.pieces cs
  rw [htext] at h
  clear htext
  induction hpieces with
  | nil => cases h
  | @cons c p cs ps hpiece _ ih =>
    rw [List.flatten_cons, List.mem_append] at h
    rcases h with h | h
    · rcases hpiece with rfl | ⟨-, rfl⟩
      · exact Or.inl ⟨c, List.mem_cons_self, h⟩
      · exact Or.inr (List.mem_singleton.mp h)
    · rcases ih h with ⟨c', hmem, hc'⟩ | hfinal
      · exact Or.inl ⟨c', List.mem_cons_of_mem c hmem, hc'⟩
      · exact Or.inr hfinal

/-- A text without wildcards has none in lower case. -/
theorem text_literal {cs : List Char} (h : ∀ c ∈ cs, ¬IsWildcard c) :
    ∀ e ∈ L.text cs, ¬IsWildcard e := by
  intro e he hwild
  rcases mem_text he with ⟨c, hc, hmem⟩ | rfl
  · rw [← wildcard_of_mem_char hwild hmem] at hwild
    exact h c hc hwild
  · revert hwild
    decide

/-- Characters that have one lower case each. -/
theorem text_singles {Q : Char → Prop} (hone : ∀ c, Q c → ∃ e, L.char c = [e]) {cs : List Char}
    (h : ∀ c ∈ cs, Q c) :
    List.Forall₂ (fun c e => Q c ∧ (L.char c = [e] ∨ c = 'Σ' ∧ e = 'ς')) cs (L.text cs) := by
  obtain ⟨ps, htext, hpieces⟩ := L.pieces cs
  rw [htext]
  clear htext
  induction hpieces with
  | nil => exact .nil
  | @cons c p cs ps hpiece _ ih =>
    have hc := h c List.mem_cons_self
    have hrest := ih fun d hd => h d (List.mem_cons_of_mem c hd)
    rcases hpiece with rfl | ⟨hsigma, rfl⟩
    · obtain ⟨e, he⟩ := hone c hc
      rw [List.flatten_cons, he]
      exact .cons ⟨hc, Or.inl he⟩ hrest
    · exact .cons ⟨hc, Or.inr ⟨hsigma, rfl⟩⟩ hrest

theorem length_pos_of_piece {c : Char} {p : List Char} (h : p = L.char c ∨ c = 'Σ' ∧ p = ['ς']) :
    0 < p.length := by
  rcases h with rfl | ⟨-, rfl⟩
  · exact List.length_pos_of_ne_nil (L.ne_nil c)
  · exact Nat.one_pos

theorem length_le_flatten {cs : List Char} {ps : List (List Char)}
    (h : List.Forall₂ (fun c p => p = L.char c ∨ c = 'Σ' ∧ p = ['ς']) cs ps) :
    cs.length ≤ ps.flatten.length := by
  induction h with
  | nil => exact Nat.le_refl 0
  | cons hpiece _ ih =>
    have hp := length_pos_of_piece hpiece
    rw [List.flatten_cons, List.length_append, List.length_cons]
    omega

/-- A character that has more than one makes the text longer. -/
theorem length_lt_text {cs : List Char} {c : Char} (hc : c ∈ cs) (h : ∀ e, L.char c ≠ [e]) :
    cs.length < (L.text cs).length := by
  obtain ⟨ps, htext, hpieces⟩ := L.pieces cs
  rw [htext]
  clear htext
  induction hpieces with
  | nil => cases hc
  | @cons d p cs ps hpiece hrest ih =>
    have hp := length_pos_of_piece hpiece
    rw [List.flatten_cons, List.length_append, List.length_cons]
    rcases List.mem_cons.mp hc with rfl | hc
    · have hone : p.length ≠ 1 := by
        rcases hpiece with rfl | ⟨rfl, -⟩
        · intro hlength
          obtain ⟨e, he⟩ := List.length_eq_one_iff.mp hlength
          exact h e he
        · exact absurd L.sigma (h 'σ')
      have hcs := length_le_flatten hrest
      omega
    · have hcs := ih hc
      omega

/-! ## Plain texts -/

theorem plain_singles {text : String} (h : Plain L text) :
    List.Forall₂ (fun c e => L.char c = [e] ∧ ∀ d, L.char d = [e] → d.toLower = e) text.toList
      (L.text text.toList) := by
  refine (text_singles (fun c hc => ?_) h).imp fun c e hce => ?_
  · obtain ⟨-, e, he, -⟩ := hc
    exact ⟨e, he⟩
  · obtain ⟨⟨-, e', he', hupper⟩, heither⟩ := hce
    have hlower : L.char c = [e] := by
      rcases heither with he | ⟨rfl, -⟩
      · exact he
      · -- the upper sigma is no plain character
        exact absurd (hupper 'Σ' he') fun heq => by
          rw [L.sigma] at he'
          rw [← (List.cons.inj he').1] at heq
          revert heq
          decide
    obtain rfl : e' = e := (List.cons.inj (he'.symm.trans hlower)).1
    exact ⟨he', hupper⟩

theorem lowers_iff {cs es : List Char} (h : List.Forall₂
    (fun c e => L.char c = [e] ∧ ∀ d, L.char d = [e] → d.toLower = e) cs es) (w : List Char) :
    es.map Char.toLower = w.map Char.toLower ↔ cs.map L.char = w.map L.char := by
  induction h generalizing w with
  | nil => cases w <;> simp
  | @cons c e cs es hce _ ih =>
    obtain ⟨hc, hupper⟩ := hce
    cases w with
    | nil => simp
    | cons d w =>
      have hchar : e.toLower = d.toLower ↔ L.char c = L.char d := by
        rw [hc, toLower_of_char hc]
        exact ⟨fun hd => (char_of_toLower hc hd.symm).symm, fun hd => (hupper d hd.symm).symm⟩
      rw [List.map_cons, List.map_cons, List.map_cons, List.map_cons, List.cons.injEq,
        List.cons.injEq, hchar, ih w]

theorem likeNeedle_literal {query : String} (h : ∀ c ∈ query.toList, ¬IsWildcard c)
    (column : String) : likeNeedle L query column = true ↔
      (L.text query.toList).map Char.toLower <:+: column.toList.map Char.toLower := by
  have htwice : (column.toList.map Char.toLower).map Char.toLower = column.toList.map Char.toLower := by
    rw [List.map_map]
    exact List.map_congr_left fun c _ => toLower_toLower c
  rw [likeNeedle, needle, like_infix_iff (text_literal h), htwice]

/-- **What is found of a plain text** is what should be found. -/
theorem likeNeedle_iff {query : String} (h : Plain L query) (column : String) :
    likeNeedle L query column = true ↔ IsPart L query column := by
  rw [likeNeedle_literal fun c hc => (h c hc).1, IsPart, List.infix_map_iff, List.infix_map_iff]
  simp only [lowers_iff (plain_singles h)]

theorem search_iff_mentions {query : String} (h : Plain L query) (row : LogRow) :
    search L query row = true ↔ Mentions L query row := by
  simp only [search, Bool.or_eq_true, likeNeedle_iff h, Mentions, or_assoc]

/-! ## Other texts -/

/-- A row with a model and nothing else. -/
def rowOf (model : String) : LogRow where
  timestamp := ""
  provider := ""
  clientModel := model
  upstreamModel := ""
  streaming := false
  responseStatus := 200
  latencyMs := 0
  inputTokens := 0
  outputTokens := 0
  cacheReadTokens := none
  cacheWriteTokens := none
  reasoningTokens := none
  clientId := none
  sessionId := none
  providerAccount := none
  servedModel := none
  ttftMs := 0
  cacheUnknown := 0
  cacheWrite1h := 0
  decodeMs := 0
  decodeOut := 0
  costUsd := none
  attempt := 0
  errType := none

theorem isPart_empty {text : String} (h : text.toList ≠ []) : ¬IsPart L text "" := by
  intro hpart
  exact h (List.map_eq_nil_iff.mp (List.infix_nil.mp hpart))

theorem mentions_rowOf {text : String} (h : text.toList ≠ []) (model : String) :
    Mentions L text (rowOf model) ↔ IsPart L text model := by
  have hnone := isPart_empty (L := L) h
  simp [Mentions, rowOf, hnone]

/-- A text with a wildcard finds what the wildcard stands for. -/
theorem wildcard_wrong {text : String} {c : Char} (hc : c ∈ text.toList) (h : IsWildcard c) :
    ∃ model, search L text (rowOf model) = true ∧ ¬Mentions L text (rowOf model) := by
  refine ⟨String.ofList ((L.text text.toList).flatMap fill), ?_, ?_⟩
  · have hfill : likeNeedle L text (String.ofList ((L.text text.toList).flatMap fill)) = true := by
      rw [likeNeedle, String.toList_ofList, map_toLower_fill]
      exact like_fill _
    simp [search, rowOf, hfill]
  · rw [mentions_rowOf (List.ne_nil_of_mem hc), IsPart, String.toList_ofList]
    intro hpart
    have hascii : c.toNat < 97 := by
      rcases h with rfl | rfl <;> decide
    have hself : c ∈ L.char c := by
      rw [L.ascii c (by omega)]
      rcases h with rfl | rfl <;> decide
    obtain ⟨d, hd, hchar⟩ := List.mem_map.mp (hpart.subset (List.mem_map_of_mem hc))
    obtain rfl : d = c := wildcard_of_mem_char h (hchar ▸ hself)
    exact (fill_spec hd).1 h

/-- A text without wildcards finds no row of a shorter model. -/
theorem not_search_rowOf {text : String} (h : ∀ c ∈ text.toList, ¬IsWildcard c)
    (hne : text.toList ≠ []) {model : String}
    (hmodel : ¬(L.text text.toList).map Char.toLower <:+: model.toList.map Char.toLower) :
    search L text (rowOf model) = false := by
  have hblank : ¬(L.text text.toList).map Char.toLower <:+: ("" : String).toList.map Char.toLower := by
    intro hinfix
    have hnil := congrArg List.length (List.infix_nil.mp hinfix)
    obtain ⟨ps, htext, hpieces⟩ := L.pieces text.toList
    have hle := length_le_flatten hpieces
    have hpos := List.length_pos_of_ne_nil hne
    rw [← htext] at hle
    rw [List.length_map, List.length_nil] at hnil
    omega
  rw [← likeNeedle_literal h] at hmodel hblank
  rw [Bool.not_eq_true] at hmodel hblank
  simp [search, rowOf, hmodel, hblank]

/-- A character with several lower cases is not found, not even in the text itself. -/
theorem several_wrong {text : String} (h : ∀ c ∈ text.toList, ¬IsWildcard c) {c : Char}
    (hc : c ∈ text.toList) (hseveral : ∀ e, L.char c ≠ [e]) :
    search L text (rowOf text) = false ∧ Mentions L text (rowOf text) := by
  have hne := List.ne_nil_of_mem hc
  refine ⟨not_search_rowOf h hne fun hinfix => ?_, ?_⟩
  · have hle := hinfix.length_le
    have hlonger := length_lt_text hc hseveral
    rw [List.length_map, List.length_map] at hle
    omega
  · rw [mentions_rowOf hne]
    exact List.infix_refl _

/-- One place of two lists that go together. -/
theorem forall₂_split {α β : Type} {R : α → β → Prop} {before after : List α} {a : α} {bs : List β}
    (h : List.Forall₂ R (before ++ a :: after) bs) :
    ∃ bs₁ b bs₂, bs = bs₁ ++ b :: bs₂ ∧ bs₁.length = before.length ∧ R a b := by
  induction before generalizing bs with
  | nil =>
    cases h with
    | cons hab _ => exact ⟨[], _, _, rfl, rfl, hab⟩
  | cons x before ih =>
    cases h with
    | @cons _ y _ _ _ hrest =>
      obtain ⟨bs₁, b, bs₂, rfl, hlength, hab⟩ := ih hrest
      exact ⟨y :: bs₁, b, bs₂, rfl, congrArg Nat.succ hlength, hab⟩

/-- A character that has another upper case is not found in that. -/
theorem upper_wrong {text : String} (h : ∀ c ∈ text.toList, ¬IsWildcard c ∧ ∃ e, L.char c = [e])
    {c : Char} (hc : c ∈ text.toList) (hplain : ¬PlainChar L c) :
    ∃ model, search L text (rowOf model) = false ∧ Mentions L text (rowOf model) := by
  have hne := List.ne_nil_of_mem hc
  obtain ⟨hwild, e, he⟩ := h c hc
  have hother : ∃ d, L.char d = [e] ∧ d.toLower ≠ e := by
    by_contra hall
    simp only [not_exists, not_and, not_not] at hall
    exact hplain ⟨hwild, e, he, hall⟩
  -- a sigma is not found in its own upper case, wherever it stands
  have hmissed : ∃ d, L.char d = [e] ∧
      ∀ e', (L.char c = [e'] ∨ c = 'Σ' ∧ e' = 'ς') → e'.toLower ≠ d.toLower := by
    by_cases hsigma : c = 'Σ'
    · subst hsigma
      refine ⟨'Σ', he, ?_⟩
      rintro e' (he' | ⟨-, rfl⟩)
      · rw [L.sigma] at he'
        rw [← (List.cons.inj he').1]
        decide
      · decide
    · obtain ⟨d, hd, hupper⟩ := hother
      refine ⟨d, hd, ?_⟩
      rintro e' (he' | ⟨heq, -⟩)
      · obtain rfl : e' = e := (List.cons.inj (he'.symm.trans he)).1
        rw [toLower_of_char he]
        exact Ne.symm hupper
      · exact absurd heq hsigma
  obtain ⟨d, hd, hmiss⟩ := hmissed
  obtain ⟨before, after, hsplit⟩ := List.append_of_mem hc
  have hsingles := text_singles (fun c hc => hc.2) h
  have hlength := hsingles.length_eq
  rw [hsplit] at hsingles
  obtain ⟨es, e', rest, htext, hes, -, he'⟩ := forall₂_split hsingles
  refine ⟨String.ofList (before ++ d :: after), not_search_rowOf (fun c hc => (h c hc).1) hne ?_, ?_⟩
  · intro hinfix
    rw [String.toList_ofList] at hinfix
    have heq := hinfix.eq_of_length (by
      rw [List.length_map, List.length_map, ← hlength, hsplit, List.length_append, List.length_append]
      rfl)
    rw [hsplit, htext, List.map_append, List.map_append, List.map_cons, List.map_cons] at heq
    have htail := (List.append_inj heq (by rw [List.length_map, List.length_map, hes])).2
    exact hmiss e' he' (List.cons.inj htail).1
  · rw [mentions_rowOf hne, IsPart, String.toList_ofList, hsplit, List.map_append, List.map_append,
      List.map_cons, List.map_cons, he, hd]

/-- **Any other text finds or misses a row by mistake.** -/
theorem exists_wrong {text : String} (h : ¬Plain L text) :
    ∃ model, ¬(search L text (rowOf model) = true ↔ Mentions L text (rowOf model)) := by
  simp only [Plain, not_forall] at h
  obtain ⟨c, hc, hplain⟩ := h
  by_cases hwild : ∃ w ∈ text.toList, IsWildcard w
  · obtain ⟨w, hw, hwild⟩ := hwild
    obtain ⟨model, hfound, hnot⟩ := wildcard_wrong hw hwild
    exact ⟨model, fun hiff => hnot (hiff.mp hfound)⟩
  · simp only [not_exists, not_and] at hwild
    by_cases hone : ∀ d ∈ text.toList, ∃ e, L.char d = [e]
    · obtain ⟨model, hmissed, hmentions⟩ :=
        upper_wrong (fun d hd => ⟨hwild d hd, hone d hd⟩) hc hplain
      exact ⟨model, fun hiff => Bool.eq_false_iff.mp hmissed (hiff.mpr hmentions)⟩
    · simp only [not_forall, not_exists] at hone
      obtain ⟨d, hd, hseveral⟩ := hone
      obtain ⟨hmissed, hmentions⟩ := several_wrong hwild hd hseveral
      exact ⟨text, fun hiff => Bool.eq_false_iff.mp hmissed (hiff.mpr hmentions)⟩

/-! ## The filter -/

theorem keeps_query {f : LedgerFilter} (h : f.query = none) (query : String) (row : LogRow) :
    { f with query := some query }.keeps (search L) row =
      (f.keeps (search L) row && search L query row) := by
  simp [LedgerFilter.keeps, h]

/-- The filter of all times. -/
def allTimes : LedgerFilter := { fromBound := "", toBound := "a" }

theorem allTimes_keeps (model : String) : allTimes.keeps (search L) (rowOf model) = true := by
  have hwithin : within "" "a" "" = true := by decide
  simp [LedgerFilter.keeps, allTimes, rowOf, hwithin, equals, named]

variable (L)

/-- **A text is searched for as it should be**, in whatever rows and beside whatever other filters,
exactly when it is plain and not too long. -/
theorem search_iff (text : String) :
    (∀ (f : LedgerFilter) (rows : List LogRow), f.query = none →
      { f with query := some text }.select L rows =
        some (rows.filter fun row => f.keeps (search L) row && decide (Mentions L text row))) ↔
      Plain L text ∧ tooLong L text = false := by
  constructor
  · intro h
    have hrow : ∀ model, tooLong L text = false ∧
        (search L text (rowOf model) = true ↔ Mentions L text (rowOf model)) := by
      intro model
      have hselect := h allTimes [rowOf model] rfl
      unfold LedgerFilter.select at hselect
      split at hselect
      · cases hselect
      · rename_i hshort
        have hany : ({ allTimes with query := none } : LedgerFilter).keeps (search L)
            (rowOf model) = true := allTimes_keeps model
        simp only [List.any_cons, hany, Bool.true_or, Bool.and_true, Option.any_some,
          Bool.not_eq_true] at hshort
        refine ⟨hshort, ?_⟩
        have hsame : rowOf model ∈ [rowOf model].filter
              ({ allTimes with query := some text }.keeps (search L)) ↔
            rowOf model ∈ [rowOf model].filter fun row =>
              allTimes.keeps (search L) row && decide (Mentions L text row) := by
          rw [Option.some.inj hselect]
        simpa [List.mem_filter, keeps_query (f := allTimes) rfl, allTimes_keeps] using hsame
    refine ⟨?_, (hrow "").1⟩
    by_contra hplain
    obtain ⟨model, hwrong⟩ := exists_wrong hplain
    exact hwrong (hrow model).2
  · rintro ⟨hplain, hshort⟩ f rows hnone
    unfold LedgerFilter.select
    rw [if_neg (by simp [hshort])]
    refine congrArg some (List.filter_congr fun row _ => ?_)
    rw [keeps_query hnone, Bool.eq_iff_iff.mpr ((search_iff_mentions hplain row).trans
      decide_eq_true_iff.symm)]

/-- The lower case of some letters: those of ASCII, an `É` and a sigma. -/
def someLower (c : Char) : List Char :=
  if c.toNat < 128 then [c.toLower] else if c = 'Σ' then ['σ'] else if c = 'É' then ['é'] else [c]

def Lowercase.some : Lowercase where
  char := someLower
  text cs := cs.flatMap someLower
  ascii c h := if_pos h
  letter c hc d hd hascii := by
    rw [someLower, if_neg (Nat.not_lt.mpr hc)] at hd
    split_ifs at hd
    · rw [List.mem_singleton.mp hd] at hascii
      exact absurd hascii (by decide)
    · rw [List.mem_singleton.mp hd] at hascii
      exact absurd hascii (by decide)
    · rw [List.mem_singleton.mp hd] at hascii
      exact absurd hascii (Nat.not_lt.mpr hc)
  ne_nil c := by
    unfold someLower
    split_ifs <;> exact List.cons_ne_nil _ _
  lowered c d h := by
    unfold someLower at h
    split_ifs at h with hascii hsigma haccent
    · obtain rfl : c.toLower = d := (List.cons.inj h).1
      have hlow : c.toLower.toNat < 128 := by
        rcases toLower_cases c with hself | ⟨hupper, hlower⟩
        · rw [hself]
          exact hascii
        · omega
      rw [someLower, if_pos hlow, toLower_toLower]
    · obtain rfl : 'σ' = d := (List.cons.inj h).1
      decide
    · obtain rfl : 'é' = d := (List.cons.inj h).1
      decide
    · obtain rfl : c = d := (List.cons.inj h).1
      rw [someLower, if_neg hascii, if_neg hsigma, if_neg haccent]
  sigma := by decide
  pieces cs := ⟨cs.map someLower, List.flatMap_def, by
    induction cs with
    | nil => exact .nil
    | cons c cs ih => exact .cons (Or.inl rfl) ih⟩

/-- An underscore finds a model without one, and an `é` does not find its upper case. -/
theorem search_wrong :
    { allTimes with query := some "_" }.select .some [rowOf "gpt"] = some [rowOf "gpt"] ∧
    ¬Mentions .some "_" (rowOf "gpt") ∧
    { allTimes with query := some "é" }.select .some [rowOf "É"] = some [] ∧
    Mentions .some "é" (rowOf "É") := by
  decide +kernel

end AnyConverter.Storage
