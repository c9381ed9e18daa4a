import AnyConverter.Wiring.Edit.Dotenv

/-!
# A line that assigns a variable

What stands before the value of an assignment says which variable it is; what stands at the value
says where it ends and how it is quoted.

* `parseLine_front`, `parseLine_cases`: an assignment is what leads to its value, and the value;
* `readRaw_written`: a value that is written in the place of another one is read back, unless it
  swallows a comment;
* `swallows_value`: where it does.
-/

set_option autoImplicit false

namespace AnyConverter.EnvEdit

/-! ## Runs of characters -/

/-- What does not begin with a character of a class. -/
def Stops (p : Char → Bool) (cs : List Char) : Prop := ∀ c ∈ cs.head?, p c = false

theorem stops_cons {p : Char → Bool} {c : Char} (h : p c = false) (cs : List Char) :
    Stops p (c :: cs) := by
  rintro d ⟨⟩
  exact h

theorem takeWhile_exact {p : Char → Bool} {run rest : List Char} (hrun : ∀ c ∈ run, p c = true)
    (hrest : Stops p rest) : (run ++ rest).takeWhile p = run := by
  rw [List.takeWhile_append_of_pos hrun]
  cases rest with
  | nil => simp
  | cons c cs => simp [hrest c rfl]

/-- The longest run of a class, and the rest. -/
theorem run_cut (p : Char → Bool) (cs : List Char) : ∃ run rest, cs = run ++ rest ∧
    (∀ c ∈ run, p c = true) ∧ Stops p rest ∧ cs.takeWhile p = run ∧ cs.drop run.length = rest := by
  have hcut := (List.takeWhile_append_dropWhile (p := p) (l := cs)).symm
  refine ⟨cs.takeWhile p, cs.dropWhile p, hcut, fun c hc => List.mem_takeWhile_imp hc, ?_, rfl, ?_⟩
  · intro c hc
    have hnot := List.head?_dropWhile_not p cs
    rw [hc] at hnot
    simpa using hnot
  · exact (congrArg (List.drop (cs.takeWhile p).length) hcut).trans List.drop_left

def Blank (cs : List Char) : Prop := ∀ c ∈ cs, isBlank c = true

theorem blanks_append {b cs : List Char} (hb : Blank b) (hcs : Stops isBlank cs) :
    blanks (b ++ cs) = b.length := by
  rw [blanks, takeWhile_exact hb hcs]

theorem blanks_cut (cs : List Char) : ∃ b rest, cs = b ++ rest ∧ Blank b ∧ Stops isBlank rest ∧
    blanks cs = b.length ∧ cs.drop b.length = rest := by
  obtain ⟨b, rest, hcs, hb, hrest, htake, hdrop⟩ := run_cut isBlank cs
  exact ⟨b, rest, hcs, hb, hrest, by rw [blanks, htake], hdrop⟩

/-! ## What leads to a value -/

/-- The name of a variable, as a line can have it. -/
def IsKey (key : List Char) : Prop := key ≠ [] ∧ ∀ c ∈ key, endsKey c = false

theorem IsKey.stops {key : List Char} (h : IsKey key) (cs : List Char) :
    Stops isBlank (key ++ cs) := by
  obtain ⟨hne, hkey⟩ := h
  cases key with
  | nil => exact absurd rfl hne
  | cons c key =>
    apply stops_cons
    have hc := hkey c List.mem_cons_self
    unfold endsKey at hc
    simp at hc
    exact hc.1.1.2

/-- What leads to the value of a variable: blanks, `export `, the name, and `=` among blanks. -/
inductive Front (key : List Char) : List Char → Prop
  | plain {lead gap gap' : List Char} : Blank lead → Blank gap → Blank gap' →
      (key = "export".toList → gap = []) → Front key (lead ++ (key ++ (gap ++ '=' :: gap')))
  | exported {lead lead' gap gap' : List Char} : Blank lead → Blank lead' → lead' ≠ [] →
      Blank gap → Blank gap' →
      Front key (lead ++ ("export".toList ++ (lead' ++ (key ++ (gap ++ '=' :: gap')))))

/-- The value at the beginning of a text: its length, and how it is quoted. -/
def valueSpan : List Char → Nat × Quote
  | '"' :: cs => (1 + doubleLength cs, .double)
  | '\'' :: cs => (1 + singleLength cs, .single)
  | cs => (plainLength true 0 0 cs, .none)

theorem valueSpan_plain {c : Char} (hdouble : c ≠ '"') (hsingle : c ≠ '\'') (cs : List Char) :
    valueSpan (c :: cs) = (plainLength true 0 0 (c :: cs), .none) := by
  unfold valueSpan
  split
  · rename_i heq
    exact absurd (List.cons.inj heq).1 hdouble
  · rename_i heq
    exact absurd (List.cons.inj heq).1 hsingle
  · rfl

/-- An assignment whose value stands behind `front`. -/
def assignmentAt (key front rest : List Char) : Assignment :=
  ⟨key, front.length, front.length + (valueSpan rest).1, (valueSpan rest).2⟩

theorem leadLength_plain {lead key gap gap' rest : List Char} (hlead : Blank lead) (hkey : IsKey key)
    (hgap : Blank gap) (hexport : key = "export".toList → gap = []) :
    leadLength (lead ++ (key ++ (gap ++ '=' :: gap')) ++ rest) = lead.length := by
  have hcontent : lead ++ (key ++ (gap ++ '=' :: gap')) ++ rest =
      lead ++ (key ++ (gap ++ '=' :: (gap' ++ rest))) := by simp
  unfold leadLength
  simp only [hcontent, blanks_append hlead (hkey.stops _), List.drop_left]
  split
  · rename_i tail hstrip
    have htail := Text.stripList_eq_some hstrip
    have hzero : blanks tail = 0 := by
      rcases List.append_eq_append_iff.mp htail with ⟨more, hword, hrest⟩ | ⟨more, hname, rfl⟩
      · -- the name is the word, or a part of it that `=` or a blank would have to continue
        cases more with
        | nil =>
          rw [List.append_nil] at hword
          rw [hexport hword.symm, List.nil_append, List.nil_append] at hrest
          rw [← hrest]
          rfl
        | cons c more =>
          have hc : c ∈ "export".toList := by
            rw [hword]
            simp
          have hletter : isBlank c = false ∧ c ≠ '=' := by
            have hletters : "export".toList = ['e', 'x', 'p', 'o', 'r', 't'] := rfl
            rw [hletters] at hc
            simp only [List.mem_cons, List.not_mem_nil, or_false] at hc
            rcases hc with rfl | rfl | rfl | rfl | rfl | rfl <;> decide
          cases gap with
          | nil => exact absurd (List.cons.inj hrest).1.symm hletter.2
          | cons g gap =>
            have hg := hgap g List.mem_cons_self
            rw [(List.cons.inj hrest).1, hletter.1] at hg
            cases hg
      · cases more with
        | nil =>
          rw [List.append_nil] at hname
          rw [hexport hname]
          rfl
        | cons c more =>
          have hc := hkey.2 c (by rw [hname]; simp)
          unfold endsKey at hc
          simp only [Bool.or_eq_false_iff] at hc
          simp [blanks, hc.1.1.2]
    rw [if_neg (by omega)]
  · rfl

theorem leadLength_exported {lead lead' key : List Char} (hlead : Blank lead) (hlead' : Blank lead')
    (hne : lead' ≠ []) (hkey : IsKey key) (rest : List Char) :
    leadLength (lead ++ ("export".toList ++ (lead' ++ (key ++ rest)))) =
      lead.length + 6 + lead'.length := by
  have hword : Stops isBlank ("export".toList ++ (lead' ++ (key ++ rest))) :=
    stops_cons (by decide) _
  have hpos : 0 < lead'.length := List.length_pos_iff.mpr hne
  unfold leadLength
  simp only [blanks_append hlead hword, List.drop_left, Text.stripList_append,
    blanks_append hlead' (hkey.stops rest), if_pos hpos]

/-- What is read behind the name. -/
theorem parseLine_name {lead key gap gap' rest : List Char} (hkey : IsKey key) (hgap : Blank gap)
    (hgap' : Blank gap') (hrest : Stops isBlank rest)
    (hlead : leadLength (lead ++ (key ++ (gap ++ '=' :: gap')) ++ rest) = lead.length)
    (hopen : ∃ c cs, (lead ++ (key ++ (gap ++ '=' :: gap')) ++ rest).drop
      (blanks (lead ++ (key ++ (gap ++ '=' :: gap')) ++ rest)) = c :: cs ∧ c ≠ '#') :
    parseLine (lead ++ (key ++ (gap ++ '=' :: gap')) ++ rest) =
      some (assignmentAt key (lead ++ (key ++ (gap ++ '=' :: gap'))) rest) := by
  obtain ⟨c, cs, hdrop, hc⟩ := hopen
  have hafter : Stops (fun c => !endsKey c) (gap ++ '=' :: (gap' ++ rest)) := by
    cases gap with
    | nil => exact stops_cons (by decide) _
    | cons g gap =>
      apply stops_cons
      simp [endsKey, hgap g List.mem_cons_self]
  have hname : (key ++ (gap ++ '=' :: (gap' ++ rest))).takeWhile (fun c => !endsKey c) = key :=
    takeWhile_exact (fun c hc => by simp [hkey.2 c hc]) hafter
  have hcontent : lead ++ (key ++ (gap ++ '=' :: gap')) ++ rest =
      lead ++ (key ++ (gap ++ '=' :: (gap' ++ rest))) := by simp
  have hequals : Stops isBlank ('=' :: (gap' ++ rest)) := stops_cons (by decide) _
  have hfront : (lead ++ (key ++ (gap ++ '=' :: gap'))).length =
      lead.length + key.length + gap.length + 1 + gap'.length := by
    simp
    omega
  have hdropKey : (lead ++ (key ++ (gap ++ '=' :: (gap' ++ rest)))).drop (lead.length + key.length) =
      gap ++ '=' :: (gap' ++ rest) := by
    rw [← List.append_assoc, ← List.length_append, List.drop_left]
  have hdropGap : (lead ++ (key ++ (gap ++ '=' :: (gap' ++ rest)))).drop
      (lead.length + key.length + gap.length) = '=' :: (gap' ++ rest) := by
    rw [← List.drop_drop, hdropKey, List.drop_left]
  have hdropFront : (lead ++ (key ++ (gap ++ '=' :: (gap' ++ rest)))).drop
      (lead.length + key.length + gap.length + 1 + gap'.length) = rest := by
    rw [← List.drop_drop, ← List.drop_drop (i := 1), hdropGap]
    exact List.drop_left
  rw [hcontent] at hdrop hlead ⊢
  unfold parseLine
  split
  · rename_i hnil
    rw [hdrop] at hnil
    cases hnil
  · rename_i hhash
    rw [hdrop] at hhash
    exact absurd (List.cons.inj hhash).1 hc
  · simp only [hlead, List.drop_left, hname, if_neg hkey.1, hdropKey, blanks_append hgap hequals,
      hdropGap, blanks_append hgap' hrest, hdropFront]
    unfold assignmentAt
    rw [hfront]
    unfold valueSpan
    split <;> simp [Nat.add_assoc]

/-- What a line begins with, behind its blanks. -/
theorem drop_blanks {lead body : List Char} {c : Char} (hlead : Blank lead) (hc : isBlank c = false)
    (cs : List Char) (hbody : body = lead ++ c :: cs) : body.drop (blanks body) = c :: cs := by
  rw [hbody, blanks_append hlead (stops_cons hc cs), List.drop_left]

/-- **A line that leads to a value assigns it.** -/
theorem parseLine_front {key front rest : List Char} (hkey : IsKey key) (hfront : Front key front)
    (hrest : Stops isBlank rest) :
    parseLine (front ++ rest) = some (assignmentAt key front rest) := by
  cases hfront with
  | @plain lead gap gap' hlead hgap hgap' hexport =>
    refine parseLine_name hkey hgap hgap' hrest (leadLength_plain hlead hkey hgap hexport) ?_
    obtain ⟨c, name, rfl⟩ := List.exists_cons_of_ne_nil hkey.1
    have hc := hkey.2 c List.mem_cons_self
    unfold endsKey at hc
    simp only [Bool.or_eq_false_iff, beq_eq_false_iff_ne] at hc
    exact ⟨c, _, drop_blanks hlead hc.1.1.2 _ (List.append_assoc _ _ _), hc.1.2⟩
  | @exported lead lead' gap gap' hlead hlead' hne hgap hgap' =>
    have hassoc : lead ++ ("export".toList ++ (lead' ++ (key ++ (gap ++ '=' :: gap')))) =
        lead ++ "export".toList ++ lead' ++ (key ++ (gap ++ '=' :: gap')) := by simp
    rw [hassoc]
    refine parseLine_name hkey hgap hgap' hrest ?_ ?_
    · have hword := leadLength_exported hlead hlead' hne hkey (gap ++ '=' :: (gap' ++ rest))
      have hsame : lead ++ ("export".toList ++ (lead' ++ (key ++ (gap ++ '=' :: (gap' ++ rest))))) =
          lead ++ "export".toList ++ lead' ++ (key ++ (gap ++ '=' :: gap')) ++ rest := by simp
      rw [hsame] at hword
      rw [hword, List.length_append, List.length_append]
      rfl
    · refine ⟨'e', "xport".toList ++ (lead' ++ (key ++ (gap ++ '=' :: gap')) ++ rest),
        drop_blanks hlead (by decide) _ ?_, by decide⟩
      simp only [List.append_assoc]
      rfl

/-- The blanks of a line, and its `export `, where what follows begins with no blank. -/
theorem leadLength_cases (content : List Char) : ∃ lead body, content = lead ++ body ∧
    leadLength content = lead.length ∧ Stops isBlank body ∧
    ((Blank lead ∧ ∀ tail, body = "export".toList ++ tail → blanks tail = 0) ∨
      ∃ b b', Blank b ∧ Blank b' ∧ b' ≠ [] ∧ lead = b ++ ("export".toList ++ b')) := by
  obtain ⟨b, body, rfl, hb, hbody, hlength, hdrop⟩ := blanks_cut content
  unfold leadLength
  simp only [hlength, hdrop]
  split
  · rename_i tail hstrip
    obtain rfl := Text.stripList_eq_some hstrip
    obtain ⟨b', rest, rfl, hb', hrest, hlength', -⟩ := blanks_cut tail
    rw [hlength']
    split
    · rename_i hpos
      refine ⟨b ++ ("export".toList ++ b'), rest, by simp, ?_, hrest, .inr ⟨b, b', hb, hb', ?_, rfl⟩⟩
      · rw [List.length_append, List.length_append]
        exact Nat.add_assoc _ _ _
      · exact List.length_pos_iff.mp hpos
    · rename_i hzero
      refine ⟨b, _, rfl, rfl, hbody, .inl ⟨hb, ?_⟩⟩
      intro tail' htail
      rw [← List.append_cancel_left htail]
      omega
  · rename_i hnone
    refine ⟨b, body, rfl, rfl, hbody, .inl ⟨hb, ?_⟩⟩
    rintro tail rfl
    rw [Text.stripList_append] at hnone
    cases hnone

/-- **A line that assigns leads to a value.** -/
theorem parseLine_cases {content : List Char} {a : Assignment} (h : parseLine content = some a) :
    ∃ front rest, content = front ++ rest ∧ Front a.key front ∧ IsKey a.key ∧ Stops isBlank rest ∧
      a = assignmentAt a.key front rest := by
  obtain ⟨lead, body, hcontent, hlead, -, hword⟩ := leadLength_cases content
  obtain ⟨key, behind, rfl, hkey, -, htake, hdropKey⟩ := run_cut (fun c => !endsKey c) body
  obtain ⟨gap, after, rfl, hgap, -, hgapLength, hdropGap⟩ := blanks_cut behind
  have hdropLead : content.drop lead.length = key ++ (gap ++ after) := by
    rw [hcontent, List.drop_left]
  have hdropName : content.drop (lead.length + key.length) = gap ++ after := by
    rw [← List.drop_drop, hdropLead, hdropKey]
  have hdropAfter : content.drop (lead.length + key.length + gap.length) = after := by
    rw [← List.drop_drop, hdropName, hdropGap]
  unfold parseLine at h
  split at h
  · cases h
  · cases h
  · simp only [hlead, hdropLead, htake, hdropName, hgapLength, hdropAfter] at h
    split at h
    · cases h
    · rename_i hne
      have hname : IsKey key := ⟨hne, fun c hc => by simpa using hkey c hc⟩
      cases after with
      | nil => cases h
      | cons c after =>
        by_cases hc : c = '='
        · subst hc
          obtain ⟨gap', rest, rfl, hgap', hrest, hgapLength', -⟩ := blanks_cut after
          have hfront : Front key (lead ++ (key ++ (gap ++ '=' :: gap'))) := by
            rcases hword with ⟨hblank, hexport⟩ | ⟨b, b', hb, hb', hne', rfl⟩
            · refine .plain hblank hgap hgap' ?_
              rintro rfl
              have hzero := hexport (gap ++ '=' :: (gap' ++ rest)) rfl
              rw [blanks_append hgap (stops_cons (by decide) _)] at hzero
              exact List.length_eq_zero_iff.mp hzero
            · have hassoc : b ++ ("export".toList ++ b') ++ (key ++ (gap ++ '=' :: gap')) =
                  b ++ ("export".toList ++ (b' ++ (key ++ (gap ++ '=' :: gap')))) := by simp
              rw [hassoc]
              exact .exported hb hb' hne' hgap hgap'
          have hwhole : content = lead ++ (key ++ (gap ++ '=' :: gap')) ++ rest := by
            rw [hcontent]
            simp
          have hlength : (lead ++ (key ++ (gap ++ '=' :: gap'))).length =
              lead.length + key.length + gap.length + 1 + gap'.length := by
            simp
            omega
          have hdropRest : content.drop (lead.length + key.length + gap.length + 1 + gap'.length) =
              rest := by
            rw [← hlength, hwhole, List.drop_left]
          simp only [hgapLength', hdropRest] at h
          have hkeyOf : a.key = key := by
            split at h <;> (cases h; rfl)
          refine ⟨_, rest, hwhole, hkeyOf ▸ hfront, hkeyOf ▸ hname, hrest, ?_⟩
          rw [hkeyOf]
          unfold assignmentAt
          rw [hlength]
          unfold valueSpan
          split at h <;> (cases h; simp [Nat.add_assoc])
        · split at h
          · rename_i heq
            exact absurd (List.cons.inj heq).1 hc
          · cases h

/-! ## Values -/

/-- What stands for a value, read as it is quoted. -/
def readRaw (quote : Quote) (raw : List Char) : List Char :=
  match quote with
  | .double => unescapeDouble (unquote '"' raw)
  | .single => unquote '\'' raw
  | .none => raw

/-- What is written for a value in the place of one that is quoted so. -/
def written (quote : Quote) (raw : List Char) : List Char :=
  match quote with
  | .double => inDouble raw
  | .single =>
    if '\'' ∈ raw ∨ '\n' ∈ raw ∨ '\r' ∈ raw then inDouble raw else '\'' :: raw ++ ['\'']
  | .none => quoteEnv raw

theorem valueFromAssignment_at (key front rest : List Char) :
    valueFromAssignment (front ++ rest) (assignmentAt key front rest) =
      readRaw (valueSpan rest).2 (rest.take (valueSpan rest).1) := by
  have hslice : slice (front ++ rest) front.length (front.length + (valueSpan rest).1) =
      rest.take (valueSpan rest).1 := by
    rw [slice, List.take_length_add_append, List.drop_left]
  unfold valueFromAssignment assignmentAt readRaw
  cases hquote : (valueSpan rest).2 <;> simp only [hslice]

theorem replaceValue_at (key front rest raw : List Char) :
    replaceValue (front ++ rest) (assignmentAt key front rest) raw =
      front ++ (written (valueSpan rest).2 raw ++ rest.drop (valueSpan rest).1) := by
  have hdrop : (front ++ rest).drop (front.length + (valueSpan rest).1) =
      rest.drop (valueSpan rest).1 := by
    rw [← List.drop_drop, List.drop_left]
  unfold replaceValue assignmentAt written splice
  cases hquote : (valueSpan rest).2 <;> simp only [List.take_left, hdrop, List.append_assoc]

/-! ### In double quotes -/

/-- What a character becomes inside double quotes. -/
theorem escapeDouble_cons (c : Char) (raw : List Char) :
    escapeDouble (c :: raw) = escapeDouble [c] ++ escapeDouble raw := by
  simp [escapeDouble]

theorem escapeDouble_single (c : Char) :
    (∃ d, escapeDouble [c] = ['\\', d] ∧ ∀ cs, unescapeDouble ('\\' :: d :: cs) =
        c :: unescapeDouble cs) ∨
      (escapeDouble [c] = [c] ∧ c ≠ '\\' ∧ c ≠ '"') := by
  by_cases h1 : c = '\\'
  · exact .inl ⟨'\\', by simp [escapeDouble, h1], fun cs => by simp [unescapeDouble, h1]⟩
  · by_cases h2 : c = '"'
    · exact .inl ⟨'"', by simp [escapeDouble, h2], fun cs => by simp [unescapeDouble, h2]⟩
    · by_cases h3 : c = '\n'
      · exact .inl ⟨'n', by simp [escapeDouble, h3], fun cs => by simp [unescapeDouble, h3]⟩
      · by_cases h4 : c = '\r'
        · exact .inl ⟨'r', by simp [escapeDouble, h4], fun cs => by simp [unescapeDouble, h4]⟩
        · by_cases h5 : c = '\t'
          · exact .inl ⟨'t', by simp [escapeDouble, h5], fun cs => by simp [unescapeDouble, h5]⟩
          · exact .inr ⟨by simp [escapeDouble, h1, h2, h3, h4, h5], h1, h2⟩

theorem unescapeDouble_escapeDouble (raw : List Char) :
    unescapeDouble (escapeDouble raw) = raw := by
  induction raw with
  | nil => rfl
  | cons c raw ih =>
    rw [escapeDouble_cons]
    rcases escapeDouble_single c with ⟨d, hd, hread⟩ | ⟨hc, hslash, -⟩
    · rw [hd, List.cons_append, List.singleton_append, hread, ih]
    · rw [hc, List.singleton_append]
      simp [unescapeDouble, hslash, ih]

theorem doubleLength_plain {c : Char} (hslash : c ≠ '\\') (hquote : c ≠ '"') (cs : List Char) :
    doubleLength (c :: cs) = 1 + doubleLength cs := by
  cases cs <;> simp [doubleLength, hslash]

theorem doubleLength_escapeDouble (raw tail : List Char) :
    doubleLength (escapeDouble raw ++ '"' :: tail) = (escapeDouble raw).length + 1 := by
  induction raw with
  | nil => simp [escapeDouble, doubleLength]
  | cons c raw ih =>
    rw [escapeDouble_cons]
    rcases escapeDouble_single c with ⟨d, hd, -⟩ | ⟨hc, hslash, hquote⟩
    · simp [hd, doubleLength, ih]
      omega
    · simp [hc, doubleLength_plain hslash hquote, ih]
      omega

theorem valueSpan_inDouble (raw tail : List Char) :
    valueSpan (inDouble raw ++ tail) = ((inDouble raw).length, .double) := by
  have hcs : inDouble raw ++ tail = '"' :: (escapeDouble raw ++ '"' :: tail) := by
    simp [inDouble]
  rw [hcs, valueSpan, doubleLength_escapeDouble]
  simp [inDouble, Nat.add_comm]

theorem readRaw_inDouble (raw : List Char) : readRaw .double (inDouble raw) = raw := by
  simp [readRaw, inDouble, unquote, unescapeDouble_escapeDouble]

/-! ### In single quotes and without quotes -/

theorem valueSpan_single {raw : List Char} (h : '\'' ∉ raw) (tail : List Char) :
    valueSpan ('\'' :: raw ++ ['\''] ++ tail) = (raw.length + 2, .single) := by
  have htake : (raw ++ '\'' :: tail).takeWhile (fun c => decide (c ≠ '\'')) = raw := by
    apply takeWhile_exact
    · intro c hc
      simp only [decide_eq_true_eq]
      rintro rfl
      exact h hc
    · exact stops_cons (by decide) _
  have hcs : '\'' :: raw ++ ['\''] ++ tail = '\'' :: (raw ++ '\'' :: tail) := by simp
  rw [hcs, valueSpan, singleLength]
  simp only [htake]
  rw [if_pos (by simp)]
  simp
  omega

theorem readRaw_single (raw : List Char) : readRaw .single ('\'' :: raw ++ ['\'']) = raw := by
  simp [readRaw, unquote]

/-- A character that only a quoted value can hold. -/
def needsQuotes (c : Char) : Bool :=
  Text.isWhitespace c || c == '#' || c == '"' || c == '\'' || c == '\\'

/-- A value that is written without quotes. -/
def Bare (raw : List Char) : Prop := raw ≠ [] ∧ ∀ c ∈ raw, needsQuotes c = false

instance (raw : List Char) : Decidable (Bare raw) := inferInstanceAs (Decidable (_ ∧ _))

theorem quoteEnv_eq (raw : List Char) : quoteEnv raw = if Bare raw then raw else inDouble raw := by
  have hiff : (raw = [] ∨ raw.any needsQuotes = true) ↔ ¬ Bare raw := by
    unfold Bare
    rw [not_and_or, not_not]
    refine or_congr_right ?_
    simp
  show (if raw = [] ∨ raw.any needsQuotes = true then inDouble raw else raw) = _
  by_cases hbare : Bare raw
  · rw [if_pos hbare, if_neg fun h => hiff.mp h hbare]
  · rw [if_neg hbare, if_pos (hiff.mpr hbare)]

/-- Blanks, and a comment that may follow them. -/
def Silent (fresh : Bool) (cs : List Char) : Prop :=
  ∃ b, Blank b ∧ (cs = b ∨ ∃ comment, cs = b ++ '#' :: comment ∧ (fresh = true ∨ b ≠ []))

theorem Silent.cons_blank {c : Char} {cs : List Char} (hc : isBlank c = true) {fresh : Bool}
    (h : Silent true cs) : Silent fresh (c :: cs) := by
  obtain ⟨b, hb, hcs⟩ := h
  refine ⟨c :: b, ?_, ?_⟩
  · intro d hd
    rcases List.mem_cons.mp hd with rfl | hd
    · exact hc
    · exact hb d hd
  · rcases hcs with rfl | ⟨comment, rfl, -⟩
    · exact .inl rfl
    · exact .inr ⟨comment, rfl, .inr (List.cons_ne_nil _ _)⟩

theorem plainLength_silent {cs : List Char} : ∀ {fresh : Bool}, Silent fresh cs →
    ∀ i stop, plainLength fresh i stop cs = stop := by
  induction cs with
  | nil => exact fun _ _ _ => rfl
  | cons c cs ih =>
    rintro fresh ⟨b, hb, hcs⟩ i stop
    cases b with
    | nil =>
      rcases hcs with hnil | ⟨comment, hcomment, hfresh⟩
      · cases hnil
      · obtain ⟨rfl, -⟩ := List.cons.inj hcomment
        rw [plainLength, if_pos ⟨rfl, hfresh.resolve_right fun hne => hne rfl⟩]
    | cons d b =>
      have hd := hb d List.mem_cons_self
      have htail : Blank b := fun x hx => hb x (List.mem_cons_of_mem _ hx)
      have hsilent : c = d ∧ Silent true cs := by
        rcases hcs with hcs | ⟨comment, hcs, -⟩
        · exact ⟨(List.cons.inj hcs).1, b, htail, .inl (List.cons.inj hcs).2⟩
        · exact ⟨(List.cons.inj hcs).1, b, htail, .inr ⟨comment, (List.cons.inj hcs).2, .inl rfl⟩⟩
      obtain ⟨rfl, hsilent⟩ := hsilent
      have hhash : c ≠ '#' := by
        rintro rfl
        cases hd
      rw [plainLength, if_neg fun h => hhash h.1, hd]
      exact ih hsilent _ _

/-- Behind a value without quotes there is nothing but blanks and a comment. -/
theorem plainLength_cases {cs : List Char} : ∀ {fresh : Bool} (i stop : Nat),
    (plainLength fresh i stop cs = stop ∧ Silent fresh cs) ∨
      ∃ k, plainLength fresh i stop cs = i + k ∧ 0 < k ∧ Silent false (cs.drop k) := by
  induction cs with
  | nil => exact fun _ _ => .inl ⟨rfl, [], fun c hc => absurd hc List.not_mem_nil, .inl rfl⟩
  | cons c cs ih =>
    intro fresh i stop
    unfold plainLength
    split
    · rename_i h
      exact .inl ⟨rfl, [], fun c hc => absurd hc List.not_mem_nil, .inr ⟨cs, by rw [h.1]; rfl, .inl h.2⟩⟩
    · cases hc : isBlank c with
      | true =>
        rcases @ih true (i + 1) stop with ⟨hstop, hsilent⟩ | ⟨k, hk, hpos, hsilent⟩
        · exact .inl ⟨hstop, hsilent.cons_blank hc⟩
        · exact .inr ⟨k + 1, by rw [if_pos rfl, hk]; omega, by omega, hsilent⟩
      | false =>
        right
        rcases @ih false (i + 1) (i + 1) with ⟨hstop, hsilent⟩ | ⟨k, hk, hpos, hsilent⟩
        · exact ⟨1, hstop, by omega, hsilent⟩
        · exact ⟨k + 1, by rw [if_neg (by decide), hk]; omega, by omega, hsilent⟩

theorem not_blank_of_bare {raw : List Char} (h : Bare raw) {c : Char} (hc : c ∈ raw) :
    isBlank c = false ∧ c ≠ '#' := by
  have hplain := h.2 c hc
  constructor
  · cases hblank : isBlank c with
    | false => rfl
    | true =>
      unfold isBlank at hblank
      simp only [Bool.or_eq_true, beq_iff_eq] at hblank
      rcases hblank with rfl | rfl <;> cases hplain
  · rintro rfl
    cases hplain

theorem plainLength_bare {raw : List Char} (h : Bare raw) (tail : List Char) (fresh : Bool)
    (i stop : Nat) : plainLength fresh i stop (raw ++ tail) =
      plainLength false (i + raw.length) (i + raw.length) tail := by
  induction raw generalizing fresh i stop with
  | nil => exact absurd rfl h.1
  | cons c raw ih =>
    obtain ⟨hblank, hhash⟩ := not_blank_of_bare h List.mem_cons_self
    rw [List.cons_append, plainLength, if_neg fun heq => hhash heq.1, hblank, if_neg (by decide)]
    cases raw with
    | nil => rfl
    | cons d raw =>
      rw [ih ⟨List.cons_ne_nil _ _, fun x hx => h.2 x (List.mem_cons_of_mem _ hx)⟩]
      simp only [List.length_cons]
      congr 1 <;> omega

theorem valueSpan_bare {raw : List Char} (h : Bare raw) (tail : List Char) :
    valueSpan (raw ++ tail) = (plainLength false raw.length raw.length tail, .none) := by
  have hlength := plainLength_bare h tail true 0 0
  rw [Nat.zero_add] at hlength
  obtain ⟨c, cs, rfl⟩ := List.exists_cons_of_ne_nil h.1
  have hc := h.2 c List.mem_cons_self
  rw [← hlength, List.cons_append]
  apply valueSpan_plain
  · rintro rfl
    cases hc
  · rintro rfl
    cases hc

/-! ### A value in the place of another one -/

/-- A value without quotes in a place that a comment follows at once: it runs into the comment. -/
def Swallows (rest raw : List Char) : Prop := rest.head? = some '#' ∧ Bare raw

/-- The place of a value, with another value in it. -/
def rewritten (rest raw : List Char) : List Char :=
  written (valueSpan rest).2 raw ++ rest.drop (valueSpan rest).1

theorem stops_written (quote : Quote) (raw tail : List Char) :
    Stops isBlank (written quote raw ++ tail) := by
  have hdouble : Stops isBlank (inDouble raw ++ tail) := stops_cons (by decide) _
  cases quote with
  | double => exact hdouble
  | single =>
    unfold written
    dsimp only
    split
    · exact hdouble
    · exact stops_cons (by decide) _
  | none =>
    unfold written
    dsimp only
    rw [quoteEnv_eq]
    split
    · rename_i hbare
      obtain ⟨c, cs, rfl⟩ := List.exists_cons_of_ne_nil hbare.1
      exact stops_cons (not_blank_of_bare hbare List.mem_cons_self).1 _
    · exact hdouble

/-- What is written is read back, in front of what may stand behind it. -/
theorem readRaw_written {quote : Quote} {raw tail : List Char}
    (h : quote = .none → Bare raw → Silent false tail) :
    readRaw (valueSpan (written quote raw ++ tail)).2
      ((written quote raw ++ tail).take (valueSpan (written quote raw ++ tail)).1) = raw := by
  have hdouble : readRaw (valueSpan (inDouble raw ++ tail)).2
      ((inDouble raw ++ tail).take (valueSpan (inDouble raw ++ tail)).1) = raw := by
    rw [valueSpan_inDouble, List.take_left]
    exact readRaw_inDouble raw
  cases quote with
  | double => exact hdouble
  | single =>
    unfold written
    dsimp only
    split
    · exact hdouble
    · rename_i hnone
      have hlength : raw.length + 2 = ('\'' :: raw ++ ['\'']).length := by simp
      rw [valueSpan_single fun hmem => hnone (.inl hmem), hlength, List.take_left]
      exact readRaw_single raw
  | none =>
    unfold written
    dsimp only
    rw [quoteEnv_eq]
    split
    · rename_i hbare
      rw [valueSpan_bare hbare, plainLength_silent (h rfl hbare), List.take_left]
      rfl
    · exact hdouble

/-- Behind a value without quotes stands nothing but a comment. -/
theorem silent_drop {rest : List Char} (hrest : Stops isBlank rest)
    (hquote : (valueSpan rest).2 = .none) (hhash : rest.head? ≠ some '#') :
    Silent false (rest.drop (valueSpan rest).1) := by
  have hspan : valueSpan rest = (plainLength true 0 0 rest, .none) := by
    unfold valueSpan at hquote ⊢
    split at hquote
    · cases hquote
    · cases hquote
    · rfl
  rw [hspan]
  rcases @plainLength_cases rest true 0 0 with ⟨hzero, b, hb, hcs⟩ | ⟨k, hk, -, hsilent⟩
  · -- nothing stands there, for neither a blank nor a comment does
    have hnil : b = [] := by
      cases b with
      | nil => rfl
      | cons c b =>
        have hc : rest.head? = some c := by
          rcases hcs with rfl | ⟨comment, rfl, -⟩ <;> rfl
        have hnot := hrest c hc
        rw [hb c List.mem_cons_self] at hnot
        cases hnot
    rcases hcs with rfl | ⟨comment, rfl, -⟩
    · rw [hnil, List.drop_nil]
      exact ⟨[], fun c hc => absurd hc List.not_mem_nil, .inl rfl⟩
    · rw [hnil] at hhash
      exact absurd rfl hhash
  · rw [hk, Nat.zero_add]
    exact hsilent

/-- **A value in the place of another one is read back, unless it runs into a comment.** -/
theorem read_rewritten_iff {rest raw : List Char} (hrest : Stops isBlank rest) :
    readRaw (valueSpan (rewritten rest raw)).2
      ((rewritten rest raw).take (valueSpan (rewritten rest raw)).1) = raw ↔ ¬ Swallows rest raw := by
  constructor
  · rintro hread ⟨hhash, hbare⟩
    obtain ⟨comment, rfl⟩ : ∃ comment, rest = '#' :: comment := by
      cases rest with
      | nil => cases hhash
      | cons c cs => exact ⟨cs, by rw [Option.some.inj hhash]⟩
    have hspan : valueSpan ('#' :: comment) = (0, .none) := rfl
    have hnew : rewritten ('#' :: comment) raw = raw ++ '#' :: comment := by
      unfold rewritten written
      rw [hspan]
      dsimp only
      rw [quoteEnv_eq, if_pos hbare, List.drop_zero]
    rw [hnew, valueSpan_bare hbare] at hread
    have hlonger : raw.length < plainLength false raw.length raw.length ('#' :: comment) := by
      rcases @plainLength_cases ('#' :: comment) false raw.length raw.length with
        ⟨-, b, hb, hcs⟩ | ⟨k, hk, hpos, -⟩
      · -- a comment needs a blank before it
        exfalso
        cases b with
        | nil =>
          rcases hcs with hnil | ⟨_, -, hfresh⟩
          · cases hnil
          · rcases hfresh with hfresh | hfresh
            · cases hfresh
            · exact hfresh rfl
        | cons c b =>
          have hc : c = '#' := by
            rcases hcs with hcs | ⟨_, hcs, -⟩ <;> exact (List.cons.inj hcs).1.symm
          have hblank := hb c List.mem_cons_self
          rw [hc] at hblank
          cases hblank
      · omega
    have hlength := congrArg List.length hread
    simp only [readRaw, List.length_take, List.length_append, List.length_cons] at hlength
    omega
  · intro hnot
    apply readRaw_written
    intro hquote hbare
    exact silent_drop hrest hquote fun hhash => hnot ⟨hhash, hbare⟩

/-! ### A carriage return at the end of a line -/

theorem doubleLength_return {cs : List Char} (h : doubleLength (cs ++ ['\r']) ≤ cs.length) :
    doubleLength cs = doubleLength (cs ++ ['\r']) := by
  induction cs using doubleLength.induct with
  | case1 => simp [doubleLength] at h
  | case2 => simp [doubleLength] at h
  | case3 c cs ih =>
    simp only [List.cons_append, doubleLength, List.length_cons] at h ⊢
    have hsame := ih (by omega)
    omega
  | case4 cs => simp [doubleLength]
  | case5 c cs hlast hslash hquote ih =>
    have hne : c ≠ '\\' := by
      rintro rfl
      cases cs with
      | nil => exact hlast rfl rfl
      | cons d cs => exact hslash d cs rfl rfl
    rw [List.cons_append, doubleLength_plain hne hquote] at h ⊢
    rw [doubleLength_plain hne hquote]
    rw [List.length_cons] at h
    have hsame := ih (by omega)
    omega

theorem singleLength_return {cs : List Char} (h : singleLength (cs ++ ['\r']) ≤ cs.length) :
    singleLength cs = singleLength (cs ++ ['\r']) := by
  obtain ⟨run, rest, rfl, hrun, hrest, htake, -⟩ := run_cut (fun c => decide (c ≠ '\'')) cs
  cases rest with
  | nil =>
    have hall : (run ++ [] ++ ['\r']).takeWhile (fun c => decide (c ≠ '\'')) = run ++ ['\r'] := by
      rw [List.append_nil, List.takeWhile_append_of_pos hrun]
      rfl
    unfold singleLength at h
    simp only [hall] at h
    rw [if_neg (by simp)] at h
    simp only [List.length_append, List.length_singleton, List.length_nil] at h
    omega
  | cons c rest =>
    have hsame : (run ++ c :: rest ++ ['\r']).takeWhile (fun c => decide (c ≠ '\'')) = run := by
      rw [List.append_assoc]
      exact takeWhile_exact hrun (stops_cons (hrest c rfl) _)
    unfold singleLength
    simp only [htake, hsame]
    simp

theorem plainLength_return {cs : List Char} : ∀ {fresh : Bool} {i stop : Nat},
    plainLength fresh i stop (cs ++ ['\r']) ≤ i + cs.length →
      plainLength fresh i stop cs = plainLength fresh i stop (cs ++ ['\r']) := by
  induction cs with
  | nil =>
    intro fresh i stop h
    have hone : plainLength fresh i stop ([] ++ ['\r']) = i + 1 := by simp [plainLength, isBlank]
    simp only [hone, List.length_nil] at h
    omega
  | cons c cs ih =>
    intro fresh i stop h
    rw [List.cons_append] at h ⊢
    unfold plainLength at h ⊢
    rw [List.length_cons] at h
    split
    · rfl
    · rename_i hcomment
      rw [if_neg hcomment] at h
      exact ih (by omega)

/-- A value that ends before the carriage return is the same without it. -/
theorem valueSpan_return {rest : List Char} (h : (valueSpan (rest ++ ['\r'])).1 ≤ rest.length) :
    valueSpan rest = valueSpan (rest ++ ['\r']) := by
  cases rest with
  | nil => exact absurd h (by decide)
  | cons c cs =>
    rw [List.cons_append] at h ⊢
    by_cases hdouble : c = '"'
    · subst hdouble
      simp only [valueSpan, List.length_cons] at h ⊢
      rw [doubleLength_return (by omega)]
    · by_cases hsingle : c = '\''
      · subst hsingle
        simp only [valueSpan, List.length_cons] at h ⊢
        rw [singleLength_return (by omega)]
      · rw [valueSpan_plain hdouble hsingle] at h ⊢
        rw [valueSpan_plain hdouble hsingle, ← List.cons_append] at *
        rw [plainLength_return (by omega)]

theorem unescapeDouble_return (cs : List Char) :
    unescapeDouble (cs ++ ['\r']) = unescapeDouble cs ++ ['\r'] := by
  induction cs using unescapeDouble.induct with
  | case1 => simp [unescapeDouble]
  | case2 => simp [unescapeDouble]
  | case3 c cs ih => simp [unescapeDouble, ih]
  | case4 c cs hlast hslash ih =>
    have hne : c ≠ '\\' := by
      rintro rfl
      cases cs with
      | nil => exact hlast rfl rfl
      | cons d cs => exact hslash d cs rfl rfl
    simp [unescapeDouble, hne, ih]

theorem length_unescapeDouble_append (p s : List Char) :
    (unescapeDouble p).length ≤ (unescapeDouble (p ++ s)).length := by
  induction p using unescapeDouble.induct with
  | case1 => simp [unescapeDouble]
  | case2 =>
    cases s with
    | nil => simp
    | cons d s =>
      simp only [List.singleton_append, unescapeDouble, List.length_append, List.length_singleton]
      grind
  | case3 c cs ih => simp [unescapeDouble, ih]
  | case4 c cs hlast hslash ih =>
    have hne : c ≠ '\\' := by
      rintro rfl
      cases cs with
      | nil => exact hlast rfl rfl
      | cons d cs => exact hslash d cs rfl rfl
    simp [unescapeDouble, hne, ih]

theorem unquote_return {quote : Char} (h : quote ≠ '\r') (cs : List Char) :
    unquote quote (cs ++ ['\r']) = cs ++ ['\r'] := by
  cases cs with
  | nil => simp [unquote]
  | cons c cs => simp [unquote, Ne.symm h]

theorem length_unquote_le (quote : Char) (raw : List Char) :
    (unquote quote raw).length ≤ raw.length := by
  unfold unquote
  split
  · split
    · rw [List.length_dropLast, List.length_cons]
      omega
    · exact Nat.le_refl _
  · exact Nat.le_refl _

theorem length_unescapeDouble_unquote (raw : List Char) :
    (unescapeDouble (unquote '"' raw)).length ≤ (unescapeDouble raw).length := by
  unfold unquote
  split
  · split
    · rename_i c cs h
      obtain ⟨rfl, hlast⟩ := h
      obtain ⟨init, rfl⟩ := List.getLast?_eq_some_iff.mp hlast
      have hmore := length_unescapeDouble_append init ['"']
      simp [unescapeDouble]
      omega
    · exact Nat.le_refl _
  · exact Nat.le_refl _

theorem valueSpan_quote_return (rest : List Char) :
    (valueSpan (rest ++ ['\r'])).2 = (valueSpan rest).2 := by
  cases rest with
  | nil => rfl
  | cons c cs =>
    rw [List.cons_append]
    by_cases hdouble : c = '"'
    · rw [hdouble]
      rfl
    · by_cases hsingle : c = '\''
      · rw [hsingle]
        rfl
      · rw [valueSpan_plain hdouble hsingle, valueSpan_plain hdouble hsingle]

/-- **A value is the same without the carriage return just where it ends before it.** -/
theorem read_return_iff (rest : List Char) :
    readRaw (valueSpan rest).2 (rest.take (valueSpan rest).1) =
        readRaw (valueSpan (rest ++ ['\r'])).2 ((rest ++ ['\r']).take (valueSpan (rest ++ ['\r'])).1) ↔
      (valueSpan (rest ++ ['\r'])).1 ≤ rest.length := by
  constructor
  · intro hsame
    by_contra hlonger
    have hall : (rest ++ ['\r']).take (valueSpan (rest ++ ['\r'])).1 = rest ++ ['\r'] := by
      apply List.take_of_length_le
      rw [List.length_append, List.length_singleton]
      omega
    rw [hall, valueSpan_quote_return] at hsame
    have hlength := congrArg List.length hsame
    have htake := List.length_take_le' (valueSpan rest).1 rest
    cases hquote : (valueSpan rest).2 with
    | double =>
      rw [hquote] at hlength
      simp only [readRaw, unquote_return (show '"' ≠ '\r' by decide), unescapeDouble_return,
        List.length_append, List.length_singleton] at hlength
      have hless := length_unescapeDouble_unquote (rest.take (valueSpan rest).1)
      have hprefix := length_unescapeDouble_append (rest.take (valueSpan rest).1)
        (rest.drop (valueSpan rest).1)
      rw [List.take_append_drop] at hprefix
      omega
    | single =>
      rw [hquote] at hlength
      simp only [readRaw, unquote_return (show '\'' ≠ '\r' by decide), List.length_append,
        List.length_singleton] at hlength
      have hless := length_unquote_le '\'' (rest.take (valueSpan rest).1)
      omega
    | none =>
      rw [hquote] at hlength
      simp only [readRaw, List.length_append, List.length_singleton] at hlength
      omega
  · intro hshort
    rw [← valueSpan_return hshort, List.take_append_of_le_length (valueSpan_return hshort ▸ hshort)]

end AnyConverter.EnvEdit
