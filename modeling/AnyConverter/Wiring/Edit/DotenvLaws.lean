import AnyConverter.Lib.JsonText
import AnyConverter.Lib.LineEnds
import AnyConverter.Wiring.Edit.Assignments

/-!
# The laws of the dotenv editor

What is set is read back, what is deleted is gone, and every other variable and every other line is
what it was.

* `get_eq`: the last line that assigns a variable gives its value;
* `Replaced`, `appended_lines`: what a set makes of the lines;
* `laws_iff`: the texts, variables and values that the laws hold of.
-/

set_option autoImplicit false

namespace AnyConverter.EnvEdit

open LineEnds

/-! ## Lines -/

def bomOf (text : String) : List Char := (splitBom text.toList).1

def linesOf (text : String) : List (List Char) := Text.splitInclusive (splitBom text.toList).2

/-- What a line gives a variable. -/
def valueOf (key : String) (line : List Char) : Option (List Char) :=
  (assignmentOf key line).map (valueFromAssignment (splitLineEnd line).1)

/-- The last line that assigns a variable gives its value. -/
theorem get_eq (text key : String) :
    get text key = (((linesOf text).filterMap (valueOf key)).getLast?).map String.ofList := by
  have hfold : ∀ (lines : List (List Char)) (result : Option (List Char)),
      lines.foldl (fun result line => (valueOf key line).or result) result =
        ((lines.filterMap (valueOf key)).getLast?).or result := by
    intro lines
    induction lines with
    | nil => exact fun _ => rfl
    | cons line rest ih =>
      intro result
      rw [List.foldl_cons, ih, List.filterMap_cons, valueOf]
      cases assignmentOf key line with
      | none => rfl
      | some a =>
        rw [Option.map_some, List.getLast?_cons]
        cases (rest.filterMap (valueOf key)).getLast? <;> rfl
  refine congrArg (Option.map String.ofList)
    (Eq.trans ?_ ((hfold (linesOf text) none).trans Option.or_none))
  refine List.foldl_ext _ _ _ fun result line _ => ?_
  rw [valueOf]
  cases assignmentOf key line <;> rfl

theorem splitLineEnd_ended (body : List Char) : splitLineEnd (body ++ ['\n']) =
    if body.getLast? = some '\r' then (body.dropLast, ['\r', '\n']) else (body, ['\n']) := by
  simp [splitLineEnd]

theorem splitLineEnd_unended {line : List Char} (h : '\n' ∉ line) : splitLineEnd line = (line, []) := by
  unfold splitLineEnd
  rw [if_neg fun hlast => h (List.mem_of_getLast? hlast)]

theorem splitLineEnd_append (line : List Char) :
    (splitLineEnd line).1 ++ (splitLineEnd line).2 = line := by
  unfold splitLineEnd
  split
  · rename_i hlast
    obtain ⟨body, rfl⟩ := List.getLast?_eq_some_iff.mp hlast
    dsimp only
    rw [List.dropLast_concat]
    split
    · rename_i hcr
      obtain ⟨init, rfl⟩ := List.getLast?_eq_some_iff.mp hcr
      simp
    · rfl
  · simp

/-- A line without its end holds no line feed. -/
theorem content_noBreak {line : List Char} (h : Ended line ∨ Unended line) :
    '\n' ∉ (splitLineEnd line).1 := by
  rcases h with ⟨body, rfl, hbody⟩ | ⟨-, hline⟩
  · rw [splitLineEnd_ended]
    split
    · exact fun hmem => hbody ((List.dropLast_sublist body).subset hmem)
    · exact hbody
  · rwa [splitLineEnd_unended hline]

/-- Another text on a line. -/
structure SameEnd (line line' content : List Char) : Prop where
  content : (splitLineEnd line').1 = content
  ended : Ended line → Ended line'
  unended : Unended line → Unended line'

theorem sameEnd_of_content {line content : List Char} (hbreak : '\n' ∉ content)
    (hcr : content.getLast? = some '\r' → (splitLineEnd line).1.getLast? = some '\r')
    (hne : content ≠ []) (hline : Ended line ∨ Unended line) :
    SameEnd line (content ++ (splitLineEnd line).2) content := by
  rcases hline with ⟨body, rfl, hbody⟩ | ⟨hnil, hline⟩
  · have hnot : ¬ Unended (body ++ ['\n']) := fun h => h.2 (by simp)
    rw [splitLineEnd_ended] at hcr ⊢
    split
    · refine ⟨?_, fun _ => ⟨content ++ ['\r'], by simp, by simp [hbreak]⟩, fun h => absurd h hnot⟩
      have hconcat : content ++ ['\r', '\n'] = content ++ ['\r'] ++ ['\n'] := by simp
      rw [hconcat, splitLineEnd_ended, if_pos (by simp), List.dropLast_concat]
    · rename_i hbody
      rw [if_neg hbody] at hcr
      refine ⟨?_, fun _ => ⟨content, rfl, hbreak⟩, fun h => absurd h hnot⟩
      rw [splitLineEnd_ended, if_neg fun hlast => hbody (hcr hlast)]
  · rw [splitLineEnd_unended hline, List.append_nil]
    refine ⟨by rw [splitLineEnd_unended hbreak], fun h => ?_, fun _ => ⟨hne, hbreak⟩⟩
    obtain ⟨body, rfl, -⟩ := h
    simp at hline

/-! ## The value of a line -/

theorem valueOf_front {line key front rest : List Char}
    (hcontent : (splitLineEnd line).1 = front ++ rest) (hkey : IsKey key) (hfront : Front key front)
    (hrest : Stops isBlank rest) (name : String) :
    valueOf name line = if key = name.toList then
      some (readRaw (valueSpan rest).2 (rest.take (valueSpan rest).1)) else none := by
  unfold valueOf assignmentOf
  rw [hcontent, parseLine_front hkey hfront hrest, Option.filter_some]
  by_cases hname : key = name.toList
  · rw [if_pos (by simp [assignmentAt, hname]), if_pos hname, Option.map_some,
      valueFromAssignment_at]
  · rw [if_neg (by simp [assignmentAt, hname]), if_neg hname, Option.map_none]

theorem assignmentOf_cases {name : String} {line : List Char} {a : Assignment}
    (h : assignmentOf name line = some a) :
    ∃ front rest, (splitLineEnd line).1 = front ++ rest ∧ Front name.toList front ∧
      IsKey name.toList ∧ Stops isBlank rest ∧ a = assignmentAt name.toList front rest := by
  obtain ⟨hparse, hname⟩ := Option.filter_eq_some_iff.mp h
  obtain ⟨front, rest, hcontent, hfront, hkey, hrest, ha⟩ := parseLine_cases hparse
  have hkeyOf : a.key = name.toList := by simpa using hname
  rw [hkeyOf] at hfront hkey ha
  exact ⟨front, rest, hcontent, hfront, hkey, hrest, ha⟩

theorem valueOf_eq_none_iff {name : String} {line : List Char} :
    valueOf name line = none ↔ assignmentOf name line = none := by
  unfold valueOf
  rw [Option.map_eq_none_iff]

theorem written_noBreak (quote : Quote) (raw : List Char) : '\n' ∉ written quote raw := by
  have hescape : '\n' ∉ escapeDouble raw := by
    unfold escapeDouble
    rw [List.mem_flatMap]
    rintro ⟨c, -, hc⟩
    split at hc
    · simp at hc
    · split at hc
      · simp at hc
      · split at hc
        · simp at hc
        · split at hc
          · simp at hc
          · split at hc
            · simp at hc
            · rename_i hne _ _
              rw [List.mem_singleton] at hc
              exact hne hc.symm
  have hdouble : '\n' ∉ inDouble raw := by simpa [inDouble] using hescape
  cases quote with
  | double => exact hdouble
  | single =>
    unfold written
    dsimp only
    split
    · exact hdouble
    · rename_i hnone
      simp only [List.mem_append, List.mem_cons, not_or]
      exact ⟨⟨by decide, fun h => hnone (.inr (.inl h))⟩, by decide, List.not_mem_nil⟩
  | none =>
    unfold written
    dsimp only
    rw [quoteEnv_eq]
    split
    · rename_i hbare
      intro hmem
      exact absurd (hbare.2 _ hmem) (by decide)
    · exact hdouble

/-- What is written is not empty, and no carriage return ends it. -/
theorem written_last (quote : Quote) (raw : List Char) :
    ∃ c, (written quote raw).getLast? = some c ∧ c ≠ '\r' := by
  have hdouble : ∃ c, (inDouble raw).getLast? = some c ∧ c ≠ '\r' :=
    ⟨'"', List.getLast?_concat, by decide⟩
  cases quote with
  | double => exact hdouble
  | single =>
    unfold written
    dsimp only
    split
    · exact hdouble
    · exact ⟨'\'', List.getLast?_concat, by decide⟩
  | none =>
    unfold written
    dsimp only
    rw [quoteEnv_eq]
    split
    · rename_i hbare
      refine ⟨_, List.getLast?_eq_some_getLast hbare.1, fun hcr => ?_⟩
      have hplain := hbare.2 _ (List.getLast_mem hbare.1)
      rw [hcr] at hplain
      exact absurd hplain (by decide)
    · exact hdouble

/-! ## A line with another value -/

/-- The line of an assignment, with another value. -/
def relined (line : List Char) (a : Assignment) (raw : List Char) : List Char :=
  replaceValue (splitLineEnd line).1 a raw ++ (splitLineEnd line).2

/-- A value that runs into the comment behind it. -/
def RunsOn (line : List Char) (a : Assignment) (raw : List Char) : Prop :=
  (splitLineEnd line).1[a.valueStart]? = some '#' ∧ Bare raw

theorem front_ne_nil {key front : List Char} (h : Front key front) : front ≠ [] := by
  cases h <;> simp

/-- What leads to a value ends in `=` or a blank. -/
theorem front_last {key front : List Char} (h : Front key front) :
    front.getLast? ≠ some '\r' := by
  have hgap : ∀ {before gap : List Char}, Blank gap →
      (before ++ '=' :: gap).getLast? ≠ some '\r' := by
    intro before gap hgap hlast
    rw [List.getLast?_append_of_ne_nil _ (List.cons_ne_nil _ _)] at hlast
    rcases List.mem_cons.mp (List.mem_of_getLast? hlast) with hequals | hmem
    · cases hequals
    · exact absurd (hgap _ hmem) (by decide)
  cases h with
  | @plain lead gap gap' _ _ hgap' _ =>
    have hassoc : lead ++ (key ++ (gap ++ '=' :: gap')) = lead ++ (key ++ gap) ++ '=' :: gap' := by simp
    exact hassoc ▸ hgap hgap'
  | @exported lead lead' gap gap' _ _ _ _ hgap' =>
    have hassoc : lead ++ ("export".toList ++ (lead' ++ (key ++ (gap ++ '=' :: gap')))) =
        lead ++ ("export".toList ++ (lead' ++ (key ++ gap))) ++ '=' :: gap' := by simp
    exact hassoc ▸ hgap hgap'

theorem relined_spec {name : String} {line : List Char} {a : Assignment} (raw : List Char)
    (hline : Ended line ∨ Unended line) (h : assignmentOf name line = some a) :
    (Ended line → Ended (relined line a raw)) ∧ (Unended line → Unended (relined line a raw)) ∧
      (relined line a raw).head? = line.head? ∧
      (valueOf name (relined line a raw) = some raw ↔ ¬ RunsOn line a raw) ∧
      (valueOf name (relined line a raw)).isSome ∧
      ∀ other ≠ name, valueOf other (relined line a raw) = none ∧ valueOf other line = none := by
  obtain ⟨front, rest, hcontent, hfront, hkey, hrest, rfl⟩ := assignmentOf_cases h
  have hbreak := content_noBreak hline
  rw [hcontent, List.mem_append, not_or] at hbreak
  have hnew : replaceValue (splitLineEnd line).1 (assignmentAt name.toList front rest) raw =
      front ++ rewritten rest raw := by
    rw [hcontent, replaceValue_at]
    rfl
  have hstops : Stops isBlank (rewritten rest raw) := stops_written _ _ _
  have hsame : SameEnd line (front ++ rewritten rest raw ++ (splitLineEnd line).2)
      (front ++ rewritten rest raw) := by
    apply sameEnd_of_content
    · rw [List.mem_append, rewritten, List.mem_append, not_or, not_or]
      exact ⟨hbreak.1, written_noBreak _ _, fun hmem => hbreak.2 (List.mem_of_mem_drop hmem)⟩
    · intro hcr
      obtain ⟨c, hc, hne⟩ := written_last (valueSpan rest).2 raw
      rw [rewritten, List.getLast?_append, List.getLast?_append, hc, List.getLast?_drop] at hcr
      rw [hcontent, List.getLast?_append]
      split at hcr
      · exact absurd (Option.some.inj hcr) hne
      · cases hlast : rest.getLast? with
        | none =>
          rw [hlast] at hcr
          exact absurd (Option.some.inj hcr) hne
        | some d =>
          rw [hlast] at hcr
          exact hcr
    · simp [front_ne_nil hfront]
    · exact hline
  have hruns : RunsOn line (assignmentAt name.toList front rest) raw ↔ Swallows rest raw := by
    unfold RunsOn Swallows assignmentAt
    rw [hcontent, List.getElem?_append_right (Nat.le_refl _), Nat.sub_self, List.head?_eq_getElem?]
  unfold relined
  rw [hnew]
  have hvalue := valueOf_front hsame.content hkey hfront hstops
  have hold := valueOf_front hcontent hkey hfront hrest
  refine ⟨hsame.ended, hsame.unended, ?_, ?_, ?_, ?_⟩
  · obtain ⟨c, cs, rfl⟩ := List.exists_cons_of_ne_nil (front_ne_nil hfront)
    rw [← splitLineEnd_append line, hcontent]
    rfl
  · rw [hvalue, if_pos rfl, Option.some.injEq, read_rewritten_iff hrest, hruns]
  · rw [hvalue, if_pos rfl]
    rfl
  · intro other hne
    have hname : name.toList ≠ other.toList := fun heq => hne (String.toList_inj.mp heq).symm
    exact ⟨by rw [hvalue, if_neg hname], by rw [hold, if_neg hname]⟩

/-! ## Setting -/

/-- The last line that assigns a variable. -/
def lastAssigning (name : String) (lines : List (List Char)) : Option (List Char) :=
  lines.reverse.find? fun line => (assignmentOf name line).isSome

theorem replaceLast_cases (name : String) (raw : List Char) (lines : List (List Char)) :
    (replaceLast name raw lines = none ∧ ∀ line ∈ lines, assignmentOf name line = none) ∨
      ∃ before line after a, lines = before ++ line :: after ∧ assignmentOf name line = some a ∧
        (∀ l ∈ after, assignmentOf name l = none) ∧
        replaceLast name raw lines = some (before ++ relined line a raw :: after) := by
  induction lines with
  | nil => exact .inl ⟨rfl, fun line hline => absurd hline List.not_mem_nil⟩
  | cons first rest ih =>
    rcases ih with ⟨hnone, hall⟩ | ⟨before, line, after, a, rfl, ha, hafter, hsome⟩
    · cases hfirst : assignmentOf name first with
      | none =>
        left
        refine ⟨by simp [replaceLast, hnone, hfirst], ?_⟩
        intro line hline
        rcases List.mem_cons.mp hline with rfl | hin
        · exact hfirst
        · exact hall line hin
      | some a =>
        right
        exact ⟨[], first, rest, a, rfl, hfirst, hall, by simp [replaceLast, hnone, hfirst, relined]⟩
    · right
      exact ⟨first :: before, line, after, a, rfl, ha, hafter, by simp [replaceLast, hsome]⟩

/-- The lines of a text that was put together behind a byte order mark, or without one. -/
theorem linesOf_ofList {text : String} {lines : List (List Char)} (h : Lined lines)
    (hbom : bomOf text = [] → lines.flatten.head? ≠ some bom) :
    bomOf (String.ofList (bomOf text ++ lines.flatten)) = bomOf text ∧
      linesOf (String.ofList (bomOf text ++ lines.flatten)) = lines := by
  have hsplit : splitBom (bomOf text ++ lines.flatten) = (bomOf text, lines.flatten) := by
    have hcases : bomOf text = [] ∨ bomOf text = [bom] := by
      unfold bomOf splitBom
      split
      · split
        · rename_i c body hc
          exact .inr (by rw [hc])
        · exact .inl rfl
      · exact .inl rfl
    rcases hcases with hnone | hmark
    · have hhead := hbom hnone
      rw [hnone, List.nil_append]
      unfold splitBom
      split
      · rename_i c body hcs
        rw [hcs] at hhead
        rw [if_neg fun hc => hhead (by rw [hc]; rfl), hcs]
      · rename_i hnil
        rw [hnil]
    · rw [hmark]
      rfl
  constructor
  · show (splitBom (String.ofList _).toList).1 = _
    rw [String.toList_ofList, hsplit]
  · show Text.splitInclusive (splitBom (String.ofList _).toList).2 = _
    rw [String.toList_ofList, hsplit]
    exact splitInclusive_flatten_of_lined h

theorem lined_linesOf (text : String) : Lined (linesOf text) := lined_splitInclusive _

/-- Without a byte order mark of its own a text does not begin with one. -/
theorem head_of_bomOf_nil {text : String} (h : bomOf text = []) :
    (linesOf text).flatten.head? ≠ some bom := by
  unfold linesOf
  rw [Text.splitInclusive_flatten]
  unfold bomOf at h
  unfold splitBom at h ⊢
  split at h
  · rename_i c body hcs
    split at h
    · cases h
    · rename_i hc
      rw [if_neg hc]
      intro hhead
      exact hc (Option.some.inj hhead)
  · exact nofun

/-- What ends the lines of a text. -/
def newlineOf (text : String) : List Char :=
  if (Text.splitList ['\r', '\n'] (splitBom text.toList).2).isSome then ['\r', '\n'] else ['\n']

theorem set_eq (codec : JsonCodec) (text key : String) (value : Value) :
    set codec text [⟨key, value⟩] = String.ofList (bomOf text ++
      ((replaceLast key (kvRawValue codec value) (linesOf text)).getD
        (endLast (newlineOf text) (linesOf text) ++
          [key.toList ++ '=' :: quoteEnv (kvRawValue codec value) ++ newlineOf text])).flatten) := by
  show String.ofList (bomOf text ++ (setOne codec (newlineOf text) (linesOf text)
    ⟨key, value⟩).flatten) = _
  unfold setOne
  dsimp only
  cases replaceLast key (kvRawValue codec value) (linesOf text) <;> rfl

/-! ### A line that is ended -/

/-- A line without a line feed, and the same line with one: the carriage return at its end, if
there is one, is its value's or its end's. -/
theorem valueOf_return_iff {c : List Char} (hbreak : '\n' ∉ c) :
    (∀ name, (valueOf name (c ++ ['\r', '\n'])).isSome = (valueOf name (c ++ ['\r'])).isSome) ∧
      ((∀ name, valueOf name (c ++ ['\r', '\n']) = valueOf name (c ++ ['\r'])) ↔
        ∀ a, parseLine (c ++ ['\r']) = some a → a.valueStop < (c ++ ['\r']).length) := by
  have hended : (splitLineEnd (c ++ ['\r', '\n'])).1 = c := by
    have hconcat : c ++ ['\r', '\n'] = c ++ ['\r'] ++ ['\n'] := by simp
    rw [hconcat, splitLineEnd_ended, if_pos List.getLast?_concat, List.dropLast_concat]
  have hunended : (splitLineEnd (c ++ ['\r'])).1 = c ++ ['\r'] := by
    rw [splitLineEnd_unended (by simpa using hbreak)]
  cases hparse : parseLine (c ++ ['\r']) with
  | none =>
    have hnone : parseLine c = none := by
      cases hc : parseLine c with
      | none => rfl
      | some a =>
        obtain ⟨front, rest, rfl, hfront, hkey, hrest, -⟩ := parseLine_cases hc
        have hstops : Stops isBlank (rest ++ ['\r']) := by
          cases rest with
          | nil => exact stops_cons (by decide) _
          | cons d rest => exact stops_cons (hrest d rfl) _
        rw [List.append_assoc, parseLine_front hkey hfront hstops] at hparse
        cases hparse
    have hsame : ∀ name, valueOf name (c ++ ['\r', '\n']) = valueOf name (c ++ ['\r']) := by
      intro name
      unfold valueOf assignmentOf
      rw [hended, hunended, hparse, hnone]
      rfl
    exact ⟨fun name => by rw [hsame name], iff_of_true hsame nofun⟩
  | some a =>
    obtain ⟨front, rest, hcs, hfront, hkey, hrest, ha⟩ := parseLine_cases hparse
    obtain ⟨rest, rfl⟩ : ∃ rest', rest = rest' ++ ['\r'] := by
      rcases List.eq_nil_or_concat rest with rfl | ⟨rest', d, rfl⟩
      · rw [List.append_nil] at hcs
        exact absurd (hcs ▸ List.getLast?_concat) (front_last hfront)
      · rw [List.concat_eq_append, ← List.append_assoc] at hcs
        exact ⟨rest', by rw [List.concat_eq_append, (List.append_inj' hcs rfl).2]⟩
    have hc : c = front ++ rest := by
      rw [← List.append_assoc] at hcs
      exact (List.append_inj' hcs rfl).1
    have hstops : Stops isBlank rest := by
      cases rest with
      | nil => exact fun d hd => by cases hd
      | cons d rest => exact stops_cons (hrest d rfl) _
    have hread := read_return_iff rest
    have hold := valueOf_front (hunended.trans hcs) hkey hfront hrest
    have hnew := valueOf_front (hended.trans hc) hkey hfront hstops
    have hlength : a.valueStop < (c ++ ['\r']).length ↔
        (valueSpan (rest ++ ['\r'])).1 ≤ rest.length := by
      rw [hcs, ha]
      simp only [assignmentAt, List.length_append, List.length_singleton]
      omega
    simp only [Option.some.injEq, forall_eq', hlength, ← hread]
    refine ⟨fun name => ?_, ?_⟩
    · rw [hold, hnew]
      split <;> rfl
    constructor
    · intro hsame
      have hkeyOf := hsame (String.ofList a.key)
      rw [hold, hnew, String.toList_ofList, if_pos rfl, if_pos rfl] at hkeyOf
      exact Option.some.inj hkeyOf
    · intro hvalue name
      rw [hold, hnew, hvalue]

theorem newlineOf_cases (text : String) : newlineOf text = ['\n'] ∨ newlineOf text = ['\r', '\n'] := by
  unfold newlineOf
  split
  · exact .inr rfl
  · exact .inl rfl

theorem endLast_concat (newline : List Char) (init : List (List Char)) (last : List Char) :
    endLast newline (init ++ [last]) =
      init ++ [if last.getLast? = some '\n' then last else last ++ newline] := by
  unfold endLast
  rw [List.getLast?_concat]
  dsimp only
  split
  · rfl
  · rw [List.dropLast_concat]

theorem endLast_ended {newline : List Char} (hnewline : newline = ['\n'] ∨ newline = ['\r', '\n'])
    {lines : List (List Char)} (h : Lined lines) : ∀ line ∈ endLast newline lines, Ended line := by
  rcases List.eq_nil_or_concat lines with rfl | ⟨init, last, rfl⟩
  · exact fun line hline => absurd hline List.not_mem_nil
  · rw [List.concat_eq_append] at h ⊢
    rw [endLast_concat]
    intro line hline
    rcases List.mem_append.mp hline with hin | hlast
    · exact h.ended_of_concat line hin
    · rw [List.mem_singleton] at hlast
      rw [hlast]
      rcases h.of_mem (List.mem_append_right _ (List.mem_singleton_self last)) with hended | hunended
      · obtain ⟨body, rfl, hbody⟩ := hended
        rw [if_pos List.getLast?_concat]
        exact ⟨body, rfl, hbody⟩
      · rw [if_neg fun hbreak => hunended.2 (List.mem_of_getLast? hbreak)]
        rcases hnewline with rfl | rfl
        · exact ⟨last, rfl, hunended.2⟩
        · exact ⟨last ++ ['\r'], by simp, by simpa using hunended.2⟩

/-- Ending the last line of a text takes no carriage return from a value. -/
def EndsWell (text : String) : Prop :=
  newlineOf text = ['\n'] → ∀ last, (linesOf text).getLast? = some last →
    last.getLast? = some '\r' → ∀ a, parseLine last = some a → a.valueStop < last.length

theorem getLast?_filterMap_concat {α β : Type} (f : α → Option β) (init : List α) (x : α) :
    ((init ++ [x]).filterMap f).getLast? = (f x).or ((init.filterMap f).getLast?) := by
  rw [List.filterMap_append, List.getLast?_append]
  cases hx : f x <;> simp [hx]

/-- Every variable but one that is not there reads the same once the last line is ended, just where
the text ends well. -/
theorem endLast_values_iff {text key : String}
    (hnone : ∀ line ∈ linesOf text, assignmentOf key line = none) :
    (∀ name ≠ key, (((endLast (newlineOf text) (linesOf text)).filterMap (valueOf name)).getLast?) =
      ((linesOf text).filterMap (valueOf name)).getLast?) ↔ EndsWell text := by
  unfold EndsWell
  rcases List.eq_nil_or_concat (linesOf text) with hnil | ⟨init, last, hlines⟩
  · rw [hnil]
    exact iff_of_true (fun _ _ => rfl) (fun _ last hlast => by cases hlast)
  · rw [List.concat_eq_append] at hlines
    have hlined := lined_linesOf text
    rw [hlines] at hlined hnone
    rw [hlines, endLast_concat, List.getLast?_concat]
    simp only [getLast?_filterMap_concat, Option.some.injEq, forall_eq']
    by_cases hbreak : last.getLast? = some '\n'
    · rw [if_pos hbreak]
      refine iff_of_true (fun _ _ => rfl) fun _ hcr => ?_
      rw [hbreak] at hcr
      cases hcr
    · rw [if_neg hbreak]
      have hunended : '\n' ∉ last := by
        rcases hlined.of_mem (List.mem_append_right _ (List.mem_singleton_self last)) with h | h
        · obtain ⟨body, rfl, -⟩ := h
          exact absurd List.getLast?_concat hbreak
        · exact h.2
      have hsame : (splitLineEnd (last ++ newlineOf text)).1 = last →
          ∀ name, valueOf name (last ++ newlineOf text) = valueOf name last := by
        intro hcontent name
        unfold valueOf assignmentOf
        rw [hcontent, splitLineEnd_unended hunended]
      rcases newlineOf_cases text with hnewline | hnewline
      · by_cases hcr : last.getLast? = some '\r'
        · obtain ⟨c, rfl⟩ := List.getLast?_eq_some_iff.mp hcr
          obtain ⟨hisSome, hiff⟩ := valueOf_return_iff fun hmem =>
            hunended (List.mem_append_left _ hmem)
          have hconcat : c ++ ['\r'] ++ ['\n'] = c ++ ['\r', '\n'] := by simp
          rw [hnewline, hconcat]
          simp only [hcr, forall_const, ← hiff]
          constructor
          · intro hall name
            have hboth := hisSome name
            by_cases hkey : name = key
            · have hold := valueOf_eq_none_iff.mpr
                (hnone _ (List.mem_append_right _ (List.mem_singleton_self _)))
              rw [hkey] at hboth ⊢
              rw [hold] at hboth ⊢
              exact Option.not_isSome_iff_eq_none.mp (by simp [hboth])
            have hname := hall name hkey
            cases hnew : valueOf name (c ++ ['\r', '\n']) with
            | none =>
              rw [hnew] at hboth
              exact (Option.not_isSome_iff_eq_none.mp (by simp [← hboth])).symm
            | some v =>
              rw [hnew] at hboth hname
              obtain ⟨w, hw⟩ := Option.isSome_iff_exists.mp hboth.symm
              rw [hw] at hname ⊢
              simpa using hname
          · intro hvalues name _
            rw [hvalues name]
        · have hcontent : (splitLineEnd (last ++ newlineOf text)).1 = last := by
            rw [hnewline, splitLineEnd_ended, if_neg hcr]
          simp only [hsame hcontent, hcr, false_implies, implies_true]
      · have hcontent : (splitLineEnd (last ++ newlineOf text)).1 = last := by
          have hconcat : last ++ ['\r', '\n'] = last ++ ['\r'] ++ ['\n'] := by simp
          rw [hnewline, hconcat, splitLineEnd_ended, if_pos List.getLast?_concat,
            List.dropLast_concat]
        have hne : newlineOf text ≠ ['\n'] := by rw [hnewline]; decide
        simp only [hsame hcontent, hne, false_implies, implies_true]

/-! ## The laws -/

/-- The name of a variable that a dotenv text can assign. -/
def IsName (key : String) : Prop := IsKey key.toList ∧ '\n' ∉ key.toList

/-- What is set is read back, and every other variable is what it was. -/
def SetLaws (codec : JsonCodec) (text key : String) (value : Value) : Prop :=
  get (set codec text [⟨key, value⟩]) key = some (String.ofList (kvRawValue codec value)) ∧
    ∀ other ≠ key, get (set codec text [⟨key, value⟩]) other = get text other

/-- What is deleted is gone, and every other variable and line is what it was. -/
def DelLaws (text key : String) : Prop :=
  (∀ line ∈ linesOf (del text [key]), assigns [key] line = false) ∧
    (∀ other ≠ key, get (del text [key]) other = get text other) ∧
    bomOf (del text [key]) = bomOf text ∧
    linesOf (del text [key]) = (linesOf text).filter fun line => !assigns [key] line

/-- Where the value of a variable has a place: on the line that assigns it last, unless it runs into
a comment there, or on a line of its own. -/
def Settable (text key : String) (raw : List Char) : Prop :=
  match lastAssigning key (linesOf text) with
  | some line => ∀ a, assignmentOf key line = some a → ¬ RunsOn line a raw
  | none => (linesOf text = [] → bomOf text = [] → key.toList.head? ≠ some bom) ∧ EndsWell text

/-- What is left without a variable does not begin with a byte order mark by accident. -/
def Deletable (text key : String) : Prop :=
  bomOf text = [] →
    ((linesOf text).filter fun line => !assigns [key] line).flatten.head? ≠ some bom

theorem lastAssigning_split {key : String} {before after : List (List Char)} {line : List Char}
    {a : Assignment} (h : assignmentOf key line = some a)
    (hafter : ∀ l ∈ after, assignmentOf key l = none) :
    lastAssigning key (before ++ line :: after) = some line := by
  have hnone : after.reverse.find? (fun line => (assignmentOf key line).isSome) = none := by
    rw [List.find?_eq_none]
    intro l hl
    simp [hafter l (List.mem_reverse.mp hl)]
  unfold lastAssigning
  rw [List.reverse_append, List.reverse_cons, List.append_assoc, List.find?_append, hnone]
  simp [h]

theorem lastAssigning_eq_none {key : String} {lines : List (List Char)}
    (h : ∀ l ∈ lines, assignmentOf key l = none) : lastAssigning key lines = none := by
  unfold lastAssigning
  rw [List.find?_eq_none]
  intro l hl
  simp [h l (List.mem_reverse.mp hl)]

theorem head?_flatten_replace (before after : List (List Char)) {line line' : List Char}
    (h : line'.head? = line.head?) (hne : line ≠ []) :
    (before ++ line' :: after).flatten.head? = (before ++ line :: after).flatten.head? := by
  obtain ⟨c, cs, rfl⟩ := List.exists_cons_of_ne_nil hne
  obtain ⟨ds, rfl⟩ : ∃ ds, line' = c :: ds := by
    cases line' with
    | nil => cases h
    | cons d ds => exact ⟨ds, by rw [Option.some.inj h]⟩
  simp [List.head?_append]

theorem ne_nil_of_line {line : List Char} (h : Ended line ∨ Unended line) : line ≠ [] := by
  rcases h with ⟨body, rfl, -⟩ | ⟨hne, -⟩
  · simp
  · exact hne

theorem isName_of_assignment {key : String} {line : List Char} {a : Assignment}
    (hline : Ended line ∨ Unended line) (h : assignmentOf key line = some a) : IsName key := by
  obtain ⟨front, rest, hcontent, hfront, hkey, -, -⟩ := assignmentOf_cases h
  have hbreak := content_noBreak hline
  rw [hcontent, List.mem_append, not_or] at hbreak
  refine ⟨hkey, fun hmem => hbreak.1 ?_⟩
  cases hfront <;> simp [hmem]

/-- A variable that is read has a name. -/
theorem isName_of_get {text key value : String} (h : get text key = some value) : IsName key := by
  rw [get_eq] at h
  obtain ⟨v, hv, -⟩ := Option.map_eq_some_iff.mp h
  obtain ⟨line, hline, hvalue⟩ := List.mem_filterMap.mp (List.mem_of_getLast? hv)
  obtain ⟨a, ha, -⟩ := Option.map_eq_some_iff.mp hvalue
  exact isName_of_assignment ((lined_linesOf text).of_mem hline) ha

/-! ### On the line that assigns the variable last -/

theorem getLast?_filterMap_split {α β : Type} {f : α → Option β} (before : List α) {x : α}
    {after : List α} (hafter : ∀ y ∈ after, f y = none) :
    ((before ++ x :: after).filterMap f).getLast? = (f x).or ((before.filterMap f).getLast?) := by
  have hnil : after.filterMap f = [] := List.filterMap_eq_nil_iff.mpr hafter
  rw [← getLast?_filterMap_concat, List.filterMap_append, List.filterMap_append, List.filterMap_cons,
    List.filterMap_cons, hnil, List.filterMap_nil]

theorem setLaws_replaced_iff {codec : JsonCodec} {text key : String} {value : Value}
    {before after : List (List Char)} {line : List Char} {a : Assignment}
    (hlines : linesOf text = before ++ line :: after) (ha : assignmentOf key line = some a)
    (hafter : ∀ l ∈ after, assignmentOf key l = none)
    (hreplace : replaceLast key (kvRawValue codec value) (linesOf text) =
      some (before ++ relined line a (kvRawValue codec value) :: after)) :
    SetLaws codec text key value ↔ ¬ RunsOn line a (kvRawValue codec value) := by
  have hlined := lined_linesOf text
  rw [hlines] at hlined
  have hline := hlined.of_mem (List.mem_append_right _ List.mem_cons_self)
  obtain ⟨hended, hunended, hhead, hread, hisSome, hothers⟩ :=
    relined_spec (kvRawValue codec value) hline ha
  have hnew := hlined.replace hended hunended
  have hbom : bomOf text = [] →
      (before ++ relined line a (kvRawValue codec value) :: after).flatten.head? ≠ some bom := by
    intro hnil
    rw [head?_flatten_replace before after hhead (ne_nil_of_line hline), ← hlines]
    exact head_of_bomOf_nil hnil
  have hset := (linesOf_ofList hnew hbom).2
  have hsetLines : linesOf (set codec text [⟨key, value⟩]) =
      before ++ relined line a (kvRawValue codec value) :: after := by
    rw [set_eq, hreplace, Option.getD_some, hset]
  have hnone : ∀ y ∈ after, valueOf key y = none :=
    fun y hy => valueOf_eq_none_iff.mpr (hafter y hy)
  have hget : get (set codec text [⟨key, value⟩]) key =
      (valueOf key (relined line a (kvRawValue codec value))).map String.ofList := by
    obtain ⟨v, hv⟩ := Option.isSome_iff_exists.mp hisSome
    rw [get_eq, hsetLines, getLast?_filterMap_split before hnone, hv]
    rfl
  have hkept : ∀ other ≠ key, get (set codec text [⟨key, value⟩]) other = get text other := by
    intro other hne
    obtain ⟨hnewNone, holdNone⟩ := hothers other hne
    rw [get_eq, get_eq, hsetLines, hlines]
    simp [List.filterMap_append, hnewNone, holdNone]
  unfold SetLaws
  rw [hget, ← hread, and_iff_left hkept]
  cases valueOf key (relined line a (kvRawValue codec value)) with
  | none => simp
  | some v => simp [String.ofList_inj]

/-! ### On a line of its own -/

theorem newline_spec (text : String) : Ended (newlineOf text) ∧
    splitLineEnd (newlineOf text) = ([], newlineOf text) := by
  rcases newlineOf_cases text with h | h
  · rw [h]
    exact ⟨⟨[], rfl, List.not_mem_nil⟩, rfl⟩
  · rw [h]
    exact ⟨⟨['\r'], rfl, by decide⟩, rfl⟩

theorem appended_content {key : List Char} (hbreak : '\n' ∉ key) (text : String) (raw : List Char) :
    Ended (key ++ '=' :: quoteEnv raw ++ newlineOf text) ∧
      (splitLineEnd (key ++ '=' :: quoteEnv raw ++ newlineOf text)).1 = key ++ '=' :: quoteEnv raw := by
  obtain ⟨hended, hsplit⟩ := newline_spec text
  obtain ⟨c, hc, hcr⟩ := written_last .none raw
  have hsame := @sameEnd_of_content (newlineOf text) (key ++ '=' :: quoteEnv raw) ?_ ?_ (by simp)
    (.inl hended)
  · rw [hsplit] at hsame
    exact ⟨hsame.ended hended, hsame.content⟩
  · have hquoted := written_noBreak .none raw
    simp only [List.mem_append, List.mem_cons, not_or]
    exact ⟨hbreak, by decide, hquoted⟩
  · intro hlast
    have hquoted : (quoteEnv raw).getLast? = some c := hc
    rw [List.getLast?_append, List.getLast?_cons, hquoted] at hlast
    exact absurd (Option.some.inj hlast) hcr

theorem appended_spec {key : List Char} (hkey : IsKey key) (hbreak : '\n' ∉ key) (text : String)
    (raw : List Char) (name : String) :
    valueOf name (key ++ '=' :: quoteEnv raw ++ newlineOf text) =
      if key = name.toList then some raw else none := by
  have hfront : Front key ([] ++ (key ++ ([] ++ '=' :: []))) := .plain nofun nofun nofun fun _ => rfl
  have hcontent : key ++ '=' :: quoteEnv raw =
      [] ++ (key ++ ([] ++ '=' :: [])) ++ (quoteEnv raw ++ []) := by simp
  have hread : readRaw (valueSpan (quoteEnv raw ++ [])).2
      ((quoteEnv raw ++ []).take (valueSpan (quoteEnv raw ++ [])).1) = raw :=
    @readRaw_written .none raw [] fun _ _ => ⟨[], nofun, .inl rfl⟩
  rw [valueOf_front ((appended_content hbreak text raw).2.trans hcontent) hkey hfront
    (stops_written .none raw []) name, hread]

/-- A name that begins with a byte order mark is lost at the beginning of a text. -/
theorem appended_mark {key : String} (text : String) (raw : List Char) (hname : IsName key)
    (hmark : key.toList.head? = some bom) :
    get (String.ofList (key.toList ++ '=' :: quoteEnv raw ++ newlineOf text)) key = none := by
  obtain ⟨name, hkey⟩ : ∃ name, key.toList = bom :: name := by
    cases hcs : key.toList with
    | nil =>
      rw [hcs] at hmark
      cases hmark
    | cons c name =>
      rw [hcs] at hmark
      exact ⟨name, by rw [Option.some.inj hmark]⟩
  obtain ⟨hparts, hbreak⟩ := hname
  rw [hkey, List.mem_cons, not_or] at hbreak
  obtain ⟨hended, hcontent⟩ := appended_content hbreak.2 text raw
  have hlines : linesOf (String.ofList (key.toList ++ '=' :: quoteEnv raw ++ newlineOf text)) =
      [name ++ '=' :: quoteEnv raw ++ newlineOf text] := by
    have hlined : Lined [name ++ '=' :: quoteEnv raw ++ newlineOf text] := ⟨.inl hended, trivial⟩
    have hsplit := splitInclusive_flatten_of_lined hlined
    rw [List.flatten_singleton] at hsplit
    unfold linesOf
    rw [String.toList_ofList, hkey]
    exact hsplit
  have hnone : valueOf key (name ++ '=' :: quoteEnv raw ++ newlineOf text) = none := by
    cases name with
    | nil =>
      -- nothing is left of the name
      have hparse : ∀ cs, parseLine ('=' :: cs) = none := by
        intro cs
        simp [parseLine, leadLength, blanks, isBlank, endsKey, Text.stripList]
      rw [valueOf_eq_none_iff, assignmentOf, hcontent, List.nil_append, hparse]
      rfl
    | cons c cs =>
      have hrest : IsKey (c :: cs) :=
        ⟨List.cons_ne_nil _ _, fun d hd => hparts.2 d (by rw [hkey]; exact List.mem_cons_of_mem _ hd)⟩
      rw [appended_spec hrest hbreak.2, if_neg]
      rw [hkey]
      intro heq
      have hlength := congrArg List.length heq
      simp at hlength
  rw [get_eq, hlines, List.filterMap_cons, hnone]
  rfl

theorem head?_endLast {newline : List Char} {lines : List (List Char)} (hlines : Lined lines)
    (hne : lines ≠ []) (more : List (List Char)) :
    (endLast newline lines ++ more).flatten.head? = lines.flatten.head? := by
  rcases List.eq_nil_or_concat lines with rfl | ⟨init, last, rfl⟩
  · exact absurd rfl hne
  · rw [List.concat_eq_append] at hlines ⊢
    have hlast := ne_nil_of_line (hlines.of_mem (List.mem_append_right _ (List.mem_singleton_self _)))
    obtain ⟨c, cs, rfl⟩ := List.exists_cons_of_ne_nil hlast
    rw [endLast_concat]
    split <;> simp [List.head?_append]

theorem setLaws_appended_iff {codec : JsonCodec} {text key : String} {value : Value}
    (hnone : ∀ line ∈ linesOf text, assignmentOf key line = none)
    (hreplace : replaceLast key (kvRawValue codec value) (linesOf text) = none) :
    SetLaws codec text key value ↔ IsName key ∧
      (linesOf text = [] → bomOf text = [] → key.toList.head? ≠ some bom) ∧ EndsWell text := by
  have hset : set codec text [⟨key, value⟩] = String.ofList (bomOf text ++
      (endLast (newlineOf text) (linesOf text) ++
        [key.toList ++ '=' :: quoteEnv (kvRawValue codec value) ++ newlineOf text]).flatten) := by
    rw [set_eq, hreplace]
    rfl
  -- a variable without a name is never read
  by_cases hname : IsName key
  swap
  · exact iff_of_false (fun h => hname (isName_of_get h.1)) fun h => hname h.1
  rw [and_iff_right hname]
  have hended := (appended_content hname.2 text (kvRawValue codec value)).1
  by_cases hhead : linesOf text = [] → bomOf text = [] → key.toList.head? ≠ some bom
  swap
  · refine iff_of_false (fun h => ?_) fun h => hhead h.1
    simp only [Classical.not_imp, not_not] at hhead
    obtain ⟨hnil, hbom, hmark⟩ := hhead
    have hread := h.1
    have hend : endLast (newlineOf text) [] = [] := rfl
    rw [hset, hnil, hbom, hend] at hread
    simp only [List.nil_append, List.flatten_singleton] at hread
    rw [appended_mark text (kvRawValue codec value) hname hmark] at hread
    cases hread
  rw [and_iff_right hhead, ← endLast_values_iff hnone]
  have hlined : Lined (endLast (newlineOf text) (linesOf text) ++
      [key.toList ++ '=' :: quoteEnv (kvRawValue codec value) ++ newlineOf text]) := by
    apply lined_of_ended
    intro line hline
    rcases List.mem_append.mp hline with hin | hlast
    · exact endLast_ended (newlineOf_cases text) (lined_linesOf text) line hin
    · rw [List.mem_singleton.mp hlast]
      exact hended
  have hbom : bomOf text = [] → (endLast (newlineOf text) (linesOf text) ++
      [key.toList ++ '=' :: quoteEnv (kvRawValue codec value) ++ newlineOf text]).flatten.head? ≠
        some bom := by
    intro hnil
    by_cases hempty : linesOf text = []
    · have hkey := hhead hempty hnil
      obtain ⟨c, cs, hcs⟩ := List.exists_cons_of_ne_nil hname.1.1
      rw [hcs] at hkey
      rw [hempty, hcs]
      exact hkey
    · rw [head?_endLast (lined_linesOf text) hempty]
      exact head_of_bomOf_nil hnil
  have hsetLines := (linesOf_ofList hlined hbom).2
  rw [← hset] at hsetLines
  have hget : ∀ name, get (set codec text [⟨key, value⟩]) name = ((if key = name then
      some (kvRawValue codec value) else none).or
        (((endLast (newlineOf text) (linesOf text)).filterMap (valueOf name)).getLast?)).map
          String.ofList := by
    intro name
    rw [get_eq, hsetLines, getLast?_filterMap_concat, appended_spec hname.1 hname.2]
    simp only [String.toList_inj]
  unfold SetLaws
  have hread : get (set codec text [⟨key, value⟩]) key =
      some (String.ofList (kvRawValue codec value)) := by
    rw [hget, if_pos rfl]
    rfl
  rw [and_iff_right hread]
  refine forall_congr' fun name => forall_congr' fun hne => ?_
  rw [hget, if_neg (Ne.symm hne), Option.none_or, get_eq]
  constructor
  · intro hsame
    exact Option.map_injective (fun _ _ => String.ofList_inj.mp) hsame
  · intro hsame
    rw [hsame]

/-! ### Deleting -/

theorem assigns_iff {key : String} {line : List Char} :
    assigns [key] line = true ↔ (assignmentOf key line).isSome = true := by
  unfold assigns assignmentOf
  cases parseLine (splitLineEnd line).1 with
  | none => simp
  | some a =>
    have hname : String.ofList a.key = key ↔ a.key = key.toList := by
      rw [← String.toList_inj, String.toList_ofList]
    by_cases hkey : a.key = key.toList <;> simp [Option.filter_some, hname, hkey]

/-- A line assigns one variable. -/
theorem valueOf_other {key other : String} {line : List Char} (h : assigns [key] line = true)
    (hne : other ≠ key) : valueOf other line = none := by
  obtain ⟨a, ha⟩ := Option.isSome_iff_exists.mp (assigns_iff.mp h)
  obtain ⟨front, rest, hcontent, hfront, hkey, hrest, -⟩ := assignmentOf_cases ha
  rw [valueOf_front hcontent hkey hfront hrest, if_neg]
  exact fun heq => hne (String.toList_inj.mp heq).symm

theorem del_eq (text key : String) : del text [key] = String.ofList (bomOf text ++
    ((linesOf text).filter fun line => !assigns [key] line).flatten) := rfl

theorem delLaws_iff (text key : String) : DelLaws text key ↔ Deletable text key := by
  constructor
  · rintro ⟨-, -, hbom, -⟩ hnil hmark
    obtain ⟨body, hbody⟩ : ∃ body,
        ((linesOf text).filter fun line => !assigns [key] line).flatten = bom :: body := by
      cases hcs : ((linesOf text).filter fun line => !assigns [key] line).flatten with
      | nil =>
        rw [hcs] at hmark
        cases hmark
      | cons c body =>
        rw [hcs] at hmark
        exact ⟨body, by rw [Option.some.inj hmark]⟩
    rw [hnil, del_eq, hnil, hbody] at hbom
    unfold bomOf at hbom
    rw [String.toList_ofList] at hbom
    cases hbom
  · intro hkept
    obtain ⟨hbom, hlines⟩ := linesOf_ofList
      ((lined_linesOf text).filter fun line => !assigns [key] line) hkept
    rw [← del_eq] at hbom hlines
    refine ⟨fun line hline => ?_, fun other hne => ?_, hbom, hlines⟩
    · rw [hlines] at hline
      simpa using (List.mem_filter.mp hline).2
    · rw [get_eq, get_eq, hlines, List.filterMap_filter]
      congr 2
      apply List.filterMap_congr
      intro line _
      cases hassigns : assigns [key] line with
      | false => rfl
      | true => exact (valueOf_other hassigns hne).symm

/-- **What is set is read back, what is deleted is gone, and everything else is what it was, just
where the variable has a name, its value a place, and no byte order mark comes to the front.** -/
theorem laws_iff (codec : JsonCodec) (text key : String) (value : Value) :
    SetLaws codec text key value ∧ DelLaws text key ↔
      (IsName key ∧ Settable text key (kvRawValue codec value)) ∧ Deletable text key := by
  rw [delLaws_iff]
  refine and_congr_left fun _ => ?_
  unfold Settable
  rcases replaceLast_cases key (kvRawValue codec value) (linesOf text) with
    ⟨hreplace, hnone⟩ | ⟨before, line, after, a, hlines, ha, hafter, hreplace⟩
  · rw [lastAssigning_eq_none hnone]
    exact setLaws_appended_iff hnone hreplace
  · have hline := (lined_linesOf text).of_mem (show line ∈ linesOf text by simp [hlines])
    have hname := isName_of_assignment hline ha
    rw [and_iff_right hname, hlines, lastAssigning_split ha hafter,
      setLaws_replaced_iff hlines ha hafter hreplace]
    simp [ha]

/-- A value in front of a comment that has no blank before it becomes a part of the comment's text. -/
theorem runs_into_comment :
    get "KEY= # yours\n" "KEY" = some "" ∧
      set JsonText.compactCodec "KEY= # yours\n" [⟨"KEY", .string "sk-1"⟩] = "KEY= sk-1# yours\n" ∧
      get (set JsonText.compactCodec "KEY= # yours\n" [⟨"KEY", .string "sk-1"⟩]) "KEY" =
        some "sk-1# yours" := by
  decide +kernel

end AnyConverter.EnvEdit
