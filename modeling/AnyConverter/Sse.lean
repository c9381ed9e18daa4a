import AnyConverter.Lib.BlankLines

/-!
# Server-sent events

Parsing one block of an event stream and writing events out.  Chat and Gemini streams are
anonymous `data:` lines, Claude and Responses streams name their events.

* `parseSseBlock_data`: a block of one data line is an anonymous event with that payload;
* `isOpenaiDone_object`: the text of a JSON object is not the sentinel.
-/

set_option autoImplicit false

namespace AnyConverter

/-- An event of the wire: its type, when it names one, and its payload. -/
structure SseEvent where
  event : Option String
  data : String
  deriving DecidableEq, Repr

/-- The type and the data lines the lines of a block carry. -/
def parseSseLines : List String → Option String → List String → Option String × List String
  | [], eventType, dataLines => (eventType, dataLines)
  | line :: rest, eventType, dataLines =>
    match Text.stripPrefix "event:" line with
    | some val => parseSseLines rest (some (Text.trim val)) dataLines
    | none =>
      match Text.stripPrefix "data:" line with
      | some val => parseSseLines rest eventType (dataLines ++ [Text.trimStartMatches ' ' val])
      | none => parseSseLines rest eventType dataLines

/-- One block of the stream as an event; a block without a data line is none. -/
def parseSseBlock (block : String) : Option SseEvent :=
  let r := parseSseLines (Text.lines block) none []
  if r.2.isEmpty then none else some ⟨r.1, "\n".intercalate r.2⟩

/-- The blocks of a whole stream, its line ends read as line feeds. -/
def splitSseBlocks (input : String) : List String :=
  let input := if '\r' ∈ input.toList then BlankLines.normalize input.toList else input.toList
  ((BlankLines.segments input).map fun s => Text.trim (String.ofList s)).filter (· ≠ "")

def formatSseData (data : String) : String := "data: " ++ data ++ "\n\n"

def formatSseEvent (eventType data : String) : String :=
  "event: " ++ eventType ++ "\ndata: " ++ data ++ "\n\n"

/-- The sentinel that ends a Chat stream. -/
def isOpenaiDone (data : String) : Bool := Text.trim data == "[DONE]"

/-- A data line, whatever its payload begins with but a blank. -/
theorem parseSseLines_data {text : String} {c : Char} {cs : List Char}
    (htext : text.toList = c :: cs) (hspace : c ≠ ' ') (rest : List String) (eventType : Option String)
    (dataLines : List String) : parseSseLines (("data: " ++ text) :: rest) eventType dataLines =
      parseSseLines rest eventType (dataLines ++ [text]) := by
  have hevent : Text.stripPrefix "event:" ("data: " ++ text) = none := by
    simp [Text.stripPrefix, Text.stripList]
  have hdata : Text.stripPrefix "data:" ("data: " ++ text) = some (" " ++ text) := by
    have happend : "data: " ++ text = "data:" ++ (" " ++ text) := by
      apply String.toList_inj.mp
      simp
    rw [happend, Text.stripPrefix_append]
  have htrim : Text.trimStartMatches ' ' (" " ++ text) = text := by
    apply String.toList_inj.mp
    simp [Text.trimStartMatches, htext, hspace]
  simp only [parseSseLines, hevent, hdata, htrim]

theorem lineFeed_not_mem_data {text : String} (h : '\n' ∉ text.toList) :
    '\n' ∉ ("data: " ++ text).toList := by
  rw [String.toList_append]
  simpa using h

theorem parseSseBlock_data {text : String} {c : Char} {cs : List Char}
    (htext : text.toList = c :: cs) (hspace : c ≠ ' ') (hline : '\n' ∉ c :: cs) :
    parseSseBlock ("data: " ++ text) = some ⟨none, text⟩ := by
  have hmem := lineFeed_not_mem_data (htext ▸ hline)
  have hne : "data: " ++ text ≠ "" := by
    intro h
    simpa using congrArg String.toList h
  unfold parseSseBlock
  rw [Text.lines_of_not_mem hmem hne, parseSseLines_data htext hspace]
  rfl

/-- A written data line is read as its payload. -/
theorem parseSseBlock_formatSseData {text : String} {c : Char} {cs : List Char}
    (htext : text.toList = c :: cs) (hspace : c ≠ ' ') (hline : '\n' ∉ text.toList)
    (hcr : text.toList.getLast? ≠ some '\r') :
    parseSseBlock (formatSseData text) = some ⟨none, text⟩ := by
  have hlast : ("data: " ++ text).toList.getLast? ≠ some '\r' := by
    obtain ⟨x, hx⟩ : ∃ x, text.toList.getLast? = some x := by
      rw [htext]
      exact ⟨_, List.getLast?_cons⟩
    rw [hx] at hcr
    rw [String.toList_append, List.getLast?_append, hx]
    exact hcr
  have hbreak : formatSseData text = "data: " ++ text ++ "\n" ++ "\n" := by
    apply String.toList_inj.mp
    simp [formatSseData]
  have hlines : Text.lines (formatSseData text) = ["data: " ++ text, ""] := by
    rw [hbreak, Text.lines_append (lineFeed_not_mem_data hline) hlast]
    rfl
  unfold parseSseBlock
  rw [hlines, parseSseLines_data htext hspace]
  rfl

theorem isOpenaiDone_object {text : String} {cs : List Char}
    (htext : text.toList = Char.ofNat 123 :: cs) : isOpenaiDone text = false := by
  obtain ⟨ds, hds⟩ := Text.trim_head htext (by decide)
  rw [isOpenaiDone, beq_eq_false_iff_ne]
  intro h
  rw [h] at hds
  exact absurd hds (by simp)

/-- An event written back as it came. -/
def SseEvent.toText (e : SseEvent) : String :=
  match e.event with
  | some evt => formatSseEvent evt e.data
  | none => formatSseData e.data

end AnyConverter
