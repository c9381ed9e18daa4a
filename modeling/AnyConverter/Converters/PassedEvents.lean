import AnyConverter.Converters.Stream
import AnyConverter.Lib.JsonText

/-!
# Events between two sides of one format

Source and target of one format: an event is written back as it was read.  A block may carry its
data on several lines, the text that is written carries it behind one `data:`.

* `dataLines_eq`: the data lines of a block, read one by one;
* `one_line_of_read_back`: data that is read back is the data of one line;
* `passes_unchanged_iff`: the events that the next reader reads as they were.
-/

set_option autoImplicit false

namespace AnyConverter

/-! ## The data lines -/

/-- The data that a line carries. -/
def dataLine (line : String) : Option String :=
  if (Text.stripPrefix "event:" line).isSome then none
  else (Text.stripPrefix "data:" line).map (Text.trimStartMatches ' ')

theorem dataLines_eq (lines : List String) : ∀ (eventType : Option String) (dataLines : List String),
    (parseSseLines lines eventType dataLines).2 = dataLines ++ lines.filterMap dataLine := by
  induction lines with
  | nil => exact fun _ _ => (List.append_nil _).symm
  | cons line rest ih =>
    intro eventType dataLines
    unfold parseSseLines
    rw [List.filterMap_cons, dataLine]
    split
    · rename_i val hevent
      rw [ih]
      simp [hevent]
    · rename_i hevent
      split
      · rename_i val hdata
        rw [ih]
        simp [hevent, hdata]
      · rename_i hdata
        rw [ih]
        simp [hevent, hdata]

theorem parseSseBlock_eq_some {block : String} {event : SseEvent}
    (h : parseSseBlock block = some event) :
    event.event = (parseSseLines (Text.lines block) none []).1 ∧
      (Text.lines block).filterMap dataLine ≠ [] ∧
      event.data = "\n".intercalate ((Text.lines block).filterMap dataLine) := by
  have hlines := dataLines_eq (Text.lines block) none []
  rw [List.nil_append] at hlines
  unfold parseSseBlock at h
  simp only at h
  rw [hlines] at h
  split at h
  · cases h
  · rename_i hne
    obtain rfl := Option.some.inj h
    exact ⟨rfl, fun hnil => hne (by rw [hnil]; rfl), rfl⟩

/-- A data line is longer than its data, by the name of the field. -/
theorem length_dataLine {line data : String} (h : dataLine line = some data) :
    data.toList.length + 5 ≤ line.toList.length := by
  unfold dataLine at h
  split at h
  · cases h
  · obtain ⟨val, hval, rfl⟩ := Option.map_eq_some_iff.mp h
    rw [Text.stripPrefix_eq_some hval, String.toList_append, List.length_append]
    have hdrop := (List.dropWhile_sublist (· == ' ') (l := val.toList)).length_le
    simp only [Text.trimStartMatches, String.toList_ofList]
    have hfield : "data:".toList.length = 5 := rfl
    omega

theorem mem_of_mem_dataLine {line data : String} (h : dataLine line = some data) {c : Char}
    (hc : c ∈ data.toList) : c ∈ line.toList := by
  unfold dataLine at h
  split at h
  · cases h
  · obtain ⟨val, hval, rfl⟩ := Option.map_eq_some_iff.mp h
    rw [Text.stripPrefix_eq_some hval, String.toList_append]
    rw [Text.trimStartMatches, String.toList_ofList] at hc
    exact List.mem_append_right _ ((List.dropWhile_sublist _).subset hc)

/-- The data of a line does not begin with a blank. -/
theorem head_dataLine {line data : String} (h : dataLine line = some data) :
    data.toList.head? ≠ some ' ' := by
  unfold dataLine at h
  split at h
  · cases h
  · obtain ⟨val, -, rfl⟩ := Option.map_eq_some_iff.mp h
    intro hhead
    have hnot := List.head?_dropWhile_not (· == ' ') val.toList
    rw [Text.trimStartMatches, String.toList_ofList] at hhead
    rw [hhead] at hnot
    cases hnot

theorem event_data (data : String) : Text.stripPrefix "event:" ("data: " ++ data) = none := by
  simp [Text.stripPrefix, Text.stripList]

/-- The field is behind its name, a colon and a blank. -/
theorem stripPrefix_field (name text : String) :
    Text.stripPrefix (name ++ ":") (name ++ ": " ++ text) = some (" " ++ text) := by
  have happend : name ++ ": " ++ text = name ++ ":" ++ (" " ++ text) := by
    apply String.toList_inj.mp
    simp
  rw [happend, Text.stripPrefix_append]

/-- A data line is read back, whatever the data begins with but a blank. -/
theorem dataLine_data {data : String} (h : data.toList.head? ≠ some ' ') :
    dataLine ("data: " ++ data) = some data := by
  have hdata : Text.stripPrefix "data:" ("data: " ++ data) = some (" " ++ data) :=
    stripPrefix_field "data" data
  have htrim : Text.trimStartMatches ' ' (" " ++ data) = data := by
    apply String.toList_inj.mp
    cases hcs : data.toList with
    | nil => simp [Text.trimStartMatches, hcs]
    | cons c cs =>
      rw [hcs] at h
      have hc : c ≠ ' ' := fun heq => h (by rw [heq]; rfl)
      simp [Text.trimStartMatches, hcs, hc]
  simp [dataLine, event_data, hdata, htrim]

/-! ## Data that is read back -/

/-- The length of texts, each with the line feed behind it. -/
def weight (texts : List String) : Nat := (texts.map fun t => t.toList.length + 1).sum

theorem weight_dataLines (lines : List String) :
    weight (lines.filterMap dataLine) + 5 * (lines.filterMap dataLine).length ≤ weight lines := by
  induction lines with
  | nil => exact Nat.le_refl _
  | cons line rest ih =>
    rw [List.filterMap_cons]
    cases hline : dataLine line with
    | none =>
      simp only [weight, List.map_cons, List.sum_cons] at ih ⊢
      omega
    | some data =>
      have hlen := length_dataLine hline
      simp only [weight, List.map_cons, List.sum_cons, List.length_cons] at ih ⊢
      omega

theorem weight_intercalate : ∀ {texts : List String}, texts ≠ [] →
    ("\n".intercalate texts).toList.length + 1 = weight texts
  | [], h => absurd rfl h
  | [text], _ => by simp [weight]
  | text :: next :: rest, _ => by
    have ih := weight_intercalate (List.cons_ne_nil next rest)
    rw [String.intercalate_cons_cons, String.toList_append, String.toList_append,
      List.length_append, List.length_append]
    simp only [weight, List.map_cons, List.sum_cons] at ih ⊢
    have hbreak : "\n".toList.length = 1 := rfl
    omega

/-- Data that is written behind one `data:` and read back is the data of one line. -/
theorem one_line_of_read_back {data : String}
    (hne : (Text.lines (formatSseData data)).filterMap dataLine ≠ [])
    (h : "\n".intercalate ((Text.lines (formatSseData data)).filterMap dataLine) = data) :
    (Text.lines (formatSseData data)).filterMap dataLine = [data] := by
  have hdata := weight_dataLines (Text.lines (formatSseData data))
  have hlines := Text.length_lines (formatSseData data)
  have hweight := weight_intercalate hne
  have hlen : (formatSseData data).toList.length = data.toList.length + 8 := by
    simp [formatSseData]
  rw [h] at hweight
  unfold weight at hdata hweight
  cases hone : (Text.lines (formatSseData data)).filterMap dataLine with
  | nil => exact absurd hone hne
  | cons text rest =>
    cases rest with
    | nil =>
      rw [hone, String.intercalate_singleton] at h
      rw [h]
    | cons next rest =>
      rw [hone] at hdata hweight
      simp only [List.length_cons] at hdata
      omega

/-! ## Events between two sides of one format -/

/-- The event type of a block is trimmed, and stands on one line. -/
theorem eventType_trimmed (lines : List String) (hlines : ∀ line ∈ lines, '\n' ∉ line.toList)
    (eventType : Option String) (dataLines : List String)
    (h : ∀ t, eventType = some t → Text.trim t = t ∧ '\n' ∉ t.toList) :
    ∀ t, (parseSseLines lines eventType dataLines).1 = some t →
      Text.trim t = t ∧ '\n' ∉ t.toList := by
  induction lines generalizing eventType dataLines with
  | nil => exact h
  | cons line rest ih =>
    have hrest : ∀ l ∈ rest, '\n' ∉ l.toList := fun l hl => hlines l (List.mem_cons_of_mem _ hl)
    unfold parseSseLines
    split
    · rename_i val hevent
      refine ih hrest _ _ ?_
      intro t ht
      obtain rfl := Option.some.inj ht
      rw [BlankLines.trim_eq, BlankLines.trim_eq, String.toList_ofList, BlankLines.trimList_trimList]
      refine ⟨rfl, fun hmem => hlines line List.mem_cons_self ?_⟩
      rw [Text.stripPrefix_eq_some hevent, String.toList_append]
      exact List.mem_append_right _ (BlankLines.mem_of_mem_trimList hmem)
    · split
      · exact ih hrest _ _ h
      · exact ih hrest _ _ h

theorem noReturn_append {a b : String} (ha : a.toList.getLast? ≠ some '\r')
    (hb : b.toList.getLast? ≠ some '\r') : (a ++ b).toList.getLast? ≠ some '\r' := by
  rw [String.toList_append, List.getLast?_append]
  cases hlast : b.toList.getLast? with
  | none => exact ha
  | some c =>
    rw [hlast] at hb
    exact hb

/-- The line of the event type is read back. -/
theorem parseSseBlock_formatSseEvent {eventType : String} (htrim : Text.trim eventType = eventType)
    (hline : '\n' ∉ eventType.toList) (data : String) :
    parseSseBlock (formatSseEvent eventType data) =
      if ((Text.lines (formatSseData data)).filterMap dataLine).isEmpty then none
      else some ⟨(parseSseLines (Text.lines (formatSseData data)) (some eventType) []).1,
        "\n".intercalate ((Text.lines (formatSseData data)).filterMap dataLine)⟩ := by
  have htext : formatSseEvent eventType data =
      "event: " ++ eventType ++ "\n" ++ formatSseData data := by
    apply String.toList_inj.mp
    simp [formatSseEvent, formatSseData]
  have hmem : '\n' ∉ ("event: " ++ eventType).toList := by
    rw [String.toList_append]
    simpa using hline
  have hcr : ("event: " ++ eventType).toList.getLast? ≠ some '\r' := by
    apply noReturn_append (by decide)
    intro hlast
    have hspace : Text.isWhitespace '\r' = false := by
      apply @BlankLines.trimList_last eventType.toList
      rw [← hlast, ← String.toList_inj.mpr htrim, BlankLines.trim_eq, String.toList_ofList,
        BlankLines.trimList_trimList]
    exact absurd hspace (by decide)
  have hevent : Text.stripPrefix "event:" ("event: " ++ eventType) = some (" " ++ eventType) :=
    stripPrefix_field "event" eventType
  have hblank : Text.trim (" " ++ eventType) = eventType := by
    rw [BlankLines.trim_eq, String.toList_append]
    show String.ofList (BlankLines.trimList (' ' :: eventType.toList)) = eventType
    rw [BlankLines.trimList_cons (by decide), ← BlankLines.trim_eq, htrim]
  have hdata := dataLines_eq (Text.lines (formatSseData data)) (some eventType) []
  rw [List.nil_append] at hdata
  unfold parseSseBlock
  rw [htext, Text.lines_append hmem hcr, parseSseLines, hevent]
  simp only [hblank, hdata]

/-- One data line is read back as it is, but for a carriage return at its end. -/
theorem lines_formatSseData {data : String} (hline : '\n' ∉ data.toList) :
    Text.lines (formatSseData data) =
      [String.ofList (Text.stripCarriageReturn ("data: " ++ data).toList), ""] := by
  have hbreak : formatSseData data = "data: " ++ data ++ "\n" ++ "\n" := by
    apply String.toList_inj.mp
    simp [formatSseData]
  rw [hbreak, Text.lines_closed (lineFeed_not_mem_data hline)]
  rfl

/-- A written event is read as it was just where its data is one line that no carriage return ends. -/
theorem read_back_iff {eventType data : String} (htrim : Text.trim eventType = eventType)
    (hline : '\n' ∉ eventType.toList) (hblank : data.toList.head? ≠ some ' ') :
    parseSseBlock (formatSseEvent eventType data) = some ⟨some eventType, data⟩ ↔
      '\n' ∉ data.toList ∧ data.toList.getLast? ≠ some '\r' := by
  rw [parseSseBlock_formatSseEvent htrim hline]
  constructor
  · intro h
    split at h
    · cases h
    · rename_i hne
      have hsame := congrArg SseEvent.data (Option.some.inj h)
      have hone := one_line_of_read_back (fun hnil => hne (by rw [hnil]; rfl)) hsame
      have hmem : data ∈ (Text.lines (formatSseData data)).filterMap dataLine := by
        rw [hone]
        exact List.mem_singleton_self _
      obtain ⟨line, hin, hread⟩ := List.mem_filterMap.mp hmem
      have hdata : '\n' ∉ data.toList :=
        fun hbreak => Text.not_mem_of_mem_lines hin (mem_of_mem_dataLine hread hbreak)
      refine ⟨hdata, fun hcr => ?_⟩
      -- what is read has lost the carriage return
      obtain ⟨init, hinit⟩ := List.getLast?_eq_some_iff.mp hcr
      have hlines := lines_formatSseData hdata
      have hstrip : String.ofList (Text.stripCarriageReturn ("data: " ++ data).toList) =
          "data: " ++ String.ofList init := by
        have hlast : ("data: " ++ data).toList = ("data: ".toList ++ init) ++ ['\r'] := by
          rw [String.toList_append, hinit, List.append_assoc]
        apply String.toList_inj.mp
        rw [hlast, Text.stripCarriageReturn, List.getLast?_concat, if_pos rfl, List.dropLast_concat]
        simp
      have hhead : (String.ofList init).toList.head? ≠ some ' ' := by
        rw [String.toList_ofList]
        intro heq
        apply hblank
        rw [hinit, List.head?_append, heq]
        rfl
      rw [hlines, hstrip, List.filterMap_cons, dataLine_data hhead] at hone
      have hshort := congrArg (fun t : List String => (t.map fun d => d.toList.length).head?) hone
      simp [hinit] at hshort
  · rintro ⟨hdata, hcr⟩
    have hlast : ("data: " ++ data).toList.getLast? ≠ some '\r' := noReturn_append (by decide) hcr
    have hlines : Text.lines (formatSseData data) = ["data: " ++ data, ""] := by
      rw [lines_formatSseData hdata, Text.stripCarriageReturn, if_neg hlast, String.ofList_toList]
    have hread : dataLine ("data: " ++ data) = some data := dataLine_data hblank
    have hnone : dataLine "" = none := rfl
    have htype : (parseSseLines ["data: " ++ data, ""] (some eventType) []).1 = some eventType := by
      have hfield : Text.stripPrefix "data:" ("data: " ++ data) = some (" " ++ data) :=
        stripPrefix_field "data" data
      rw [parseSseLines, event_data]
      simp only [hfield]
      rfl
    rw [hlines, htype]
    simp [hread, hnone]

/-- **Between two sides of one format an event is read on as it was just where its data is one line
that no carriage return ends.** -/
theorem passes_unchanged_iff (codec : JsonCodec) (format : Format) (st : AdapterState × AdapterState)
    {block eventType : String} {event : SseEvent} (hblock : parseSseBlock block = some event)
    (htype : event.event = some eventType) :
    (∃ out, (convertStreamEvent codec format format st event).1 = .ok [out] ∧
        parseSseBlock (out.toText codec) = some event) ↔
      '\n' ∉ event.data.toList ∧ event.data.toList.getLast? ≠ some '\r' := by
  obtain ⟨hevent, hne, hdata⟩ := parseSseBlock_eq_some hblock
  have hlines : ∀ line ∈ Text.lines block, '\n' ∉ line.toList :=
    fun line hline => Text.not_mem_of_mem_lines hline
  obtain ⟨htrim, hbreak⟩ := eventType_trimmed (Text.lines block) hlines none [] nofun eventType
    (hevent ▸ htype)
  have hblank : event.data.toList.head? ≠ some ' ' := by
    obtain ⟨first, rest, hcons⟩ := List.exists_cons_of_ne_nil hne
    have hfirst : first ∈ (Text.lines block).filterMap dataLine := by
      rw [hcons]
      exact List.mem_cons_self
    obtain ⟨line, -, hread⟩ := List.mem_filterMap.mp hfirst
    have hhead := head_dataLine hread
    rw [hdata, hcons]
    cases rest with
    | nil => rwa [String.intercalate_singleton]
    | cons next rest =>
      rw [String.intercalate_cons_cons, String.toList_append, String.toList_append,
        List.head?_append, List.head?_append]
      cases hcs : first.toList with
      | nil => simp
      | cons c cs =>
        rw [hcs] at hhead
        exact hhead
  have hsame : event = ⟨some eventType, event.data⟩ := by
    rw [← htype]
  have hout : (convertStreamEvent codec format format st event).1 = .ok [.passthrough event] := by
    rw [convertStreamEvent, if_pos rfl]
  have htext : WireEvent.toText codec (.passthrough event) =
      formatSseEvent eventType event.data := by
    show event.toText = _
    rw [SseEvent.toText, htype]
  rw [← read_back_iff htrim hbreak hblank, ← hsame]
  constructor
  · rintro ⟨out, hsent, hread⟩
    rw [hout] at hsent
    obtain rfl := (List.cons.inj (Except.ok.inj hsent)).1
    rwa [htext] at hread
  · intro hread
    exact ⟨_, hout, htext ▸ hread⟩

/-- An event whose data is one line. -/
theorem passes_unchanged_delta :
    ∃ out, (convertStreamEvent JsonText.compactCodec .claude .claude
        (AdapterState.fresh World.counting, AdapterState.fresh World.counting)
        ⟨some "delta", "one"⟩).1 = .ok [out] ∧
      parseSseBlock (out.toText JsonText.compactCodec) = some ⟨some "delta", "one"⟩ :=
  (passes_unchanged_iff JsonText.compactCodec .claude _
    (show parseSseBlock "event: delta\ndata: one" = some ⟨some "delta", "one"⟩ from by decide) rfl).mpr
      (by decide)

/-- The second of two data lines is lost: it is written without the name of its field. -/
theorem second_line_lost :
    parseSseBlock "event: delta\ndata: one\ndata: two" = some ⟨some "delta", "one\ntwo"⟩ ∧
      (convertStreamEvent JsonText.compactCodec .claude .claude
        (AdapterState.fresh World.counting, AdapterState.fresh World.counting)
        ⟨some "delta", "one\ntwo"⟩).1 = .ok [.passthrough ⟨some "delta", "one\ntwo"⟩] ∧
      parseSseBlock ((WireEvent.passthrough ⟨some "delta", "one\ntwo"⟩).toText
        JsonText.compactCodec) = some ⟨some "delta", "one"⟩ :=
  ⟨by decide, rfl, by decide⟩

end AnyConverter
