import AnyConverter.Converters.Body
import AnyConverter.Converters.Reply

/-!
# What a client puts together

A reply as its client has it in the end: the text, the reasoning text, and the tool calls with
their arguments read.  Each format has two clients.  One reads a whole reply, the other puts a
stream together; a Responses client reads the same items either way, a Gemini client the same
parts.
-/

set_option autoImplicit false

namespace AnyConverter

/-- A tool call as a client has it. -/
structure SeenCall where
  id : String
  name : String
  arguments : Value
  deriving DecidableEq

structure Assembled where
  text : String
  reasoning : String
  calls : List SeenCall
  deriving DecidableEq

/-- One part of a reply behind another. -/
instance : Append Assembled where
  append a b := ⟨a.text ++ b.text, a.reasoning ++ b.reasoning, a.calls ++ b.calls⟩

@[simp] theorem Assembled.mk_append_mk (t t' r r' : String) (c c' : List SeenCall) :
    (⟨t, r, c⟩ ++ ⟨t', r', c'⟩ : Assembled) = ⟨t ++ t', r ++ r', c ++ c'⟩ := rfl

@[simp] theorem Assembled.empty_append (a : Assembled) : (⟨"", "", []⟩ : Assembled) ++ a = a := by
  cases a
  simp

/-- How a client reads one piece of a reply. -/
structure View (α : Type) where
  text : α → String
  reasoning : α → String
  calls : α → List SeenCall

/-- The pieces of a reply, in order. -/
def View.assemble {α : Type} (view : View α) (pieces : List α) : Assembled where
  text := String.join (pieces.map view.text)
  reasoning := String.join (pieces.map view.reasoning)
  calls := pieces.flatMap view.calls

section
variable {α : Type} (view : View α)

@[simp] theorem View.assemble_nil : view.assemble [] = ⟨"", "", []⟩ := rfl

@[simp] theorem View.assemble_cons (x : α) (xs : List α) :
    view.assemble (x :: xs) = ⟨view.text x, view.reasoning x, view.calls x⟩ ++ view.assemble xs := by
  simp [View.assemble]

theorem View.assemble_append (xs ys : List α) :
    view.assemble (xs ++ ys) = view.assemble xs ++ view.assemble ys := by
  simp [View.assemble, String.join_append]

/-- How a client reads what a builder writes for a piece. -/
def View.over {β : Type} (build : β → Option α) : View β where
  text x := ((build x).map view.text).getD ""
  reasoning x := ((build x).map view.reasoning).getD ""
  calls x := ((build x).map view.calls).getD []

theorem View.assemble_filterMap {β : Type} (build : β → Option α) (xs : List β) :
    view.assemble (xs.filterMap build) = (view.over build).assemble xs := by
  induction xs with
  | nil => rfl
  | cons x xs ih =>
    rw [List.filterMap_cons, View.assemble_cons, ← ih]
    cases hx : build x with
    | none => simp [View.over, hx, View.assemble]
    | some y => simp [View.over, hx]

theorem View.assemble_congr {view view' : View α} {xs : List α}
    (h : ∀ x ∈ xs, view.text x = view'.text x ∧ view.reasoning x = view'.reasoning x ∧
      view.calls x = view'.calls x) : view.assemble xs = view'.assemble xs := by
  induction xs with
  | nil => rfl
  | cons x xs ih =>
    obtain ⟨htext, hreasoning, hcalls⟩ := h x List.mem_cons_self
    rw [View.assemble_cons, View.assemble_cons, htext, hreasoning, hcalls,
      ih fun y hy => h y (List.mem_cons_of_mem _ hy)]

end

/-- Arguments that were put together from pieces are read in the end. -/
def AccumulatedToolCall.seen (codec : JsonCodec) (tc : AccumulatedToolCall) : SeenCall :=
  ⟨tc.id, tc.name, parseArguments codec tc.arguments⟩

/-! ## Claude -/

namespace Claude

def blockView : View ClaudeContentBlock where
  text
    | .text text => text
    | _ => ""
  reasoning
    | .thinking thinking _ => thinking
    | _ => ""
  calls
    | .toolUse id name input => [⟨id, name, input⟩]
    | _ => []

/-- A block while it streams: as it was opened, and what its deltas add up to. -/
structure StreamedBlock where
  opened : OpenedBlock
  gathered : String
  deriving DecidableEq

/-- What a delta adds to a block; a delta of another type adds nothing. -/
def deltaFor : OpenedBlock → BlockDelta → String
  | .text, .text text => text
  | .toolUse _ _, .inputJson partialJson => partialJson
  | .thinking, .thinking thinking => thinking
  | _, _ => ""

/-- The index of a block is its position in the message: a block opened under the index of another
takes its place. -/
def openBlock (index : Nat) (block : OpenedBlock) :
    List (Nat × StreamedBlock) → List (Nat × StreamedBlock)
  | [] => [(index, ⟨block, ""⟩)]
  | (i, b) :: rest =>
    if index < i then (index, ⟨block, ""⟩) :: (i, b) :: rest
    else if index = i then (index, ⟨block, ""⟩) :: rest
    else (i, b) :: openBlock index block rest

/-- A delta goes to the block of its index; without one it is dropped. -/
def extendBlock (index : Nat) (delta : BlockDelta) :
    List (Nat × StreamedBlock) → List (Nat × StreamedBlock)
  | [] => []
  | (i, b) :: rest =>
    if index = i then (i, { b with gathered := b.gathered ++ deltaFor b.opened delta }) :: rest
    else (i, b) :: extendBlock index delta rest

def receive (blocks : List (Nat × StreamedBlock)) : StreamEvent → List (Nat × StreamedBlock)
  | .contentBlockStart index block => openBlock index block blocks
  | .contentBlockDelta index delta => extendBlock index delta blocks
  | _ => blocks

def streamedView (codec : JsonCodec) : View StreamedBlock where
  text b := if b.opened = .text then b.gathered else ""
  reasoning b := if b.opened = .thinking then b.gathered else ""
  calls b :=
    match b.opened with
    | .toolUse id name => [⟨id, name, parseArguments codec b.gathered⟩]
    | _ => []

/-- What a client makes of a written stream. -/
def assemble (codec : JsonCodec) (events : List StreamEvent) : Assembled :=
  (streamedView codec).assemble ((events.foldl receive []).map Prod.snd)

end Claude

/-! ## OpenAI Chat -/

namespace OpenAIChat

def ToolCall.seen (codec : JsonCodec) (tc : ToolCall) : SeenCall :=
  ⟨tc.id, tc.function.name, parseArguments codec tc.function.arguments⟩

def ChoiceMessage.seen (codec : JsonCodec) (message : ChoiceMessage) : Assembled where
  text := message.content.getD ""
  reasoning := message.reasoningContent.getD ""
  calls := (message.toolCalls.getD []).map (ToolCall.seen codec)

/-- The id and the name of the call a fragment begins. -/
def StreamToolCall.begins (tc : StreamToolCall) : Option (String × String) :=
  match tc.id, tc.function.bind StreamFunctionCall.name with
  | some id, some name => some (id, name)
  | _, _ => none

/-- The piece of arguments a fragment carries. -/
def StreamToolCall.piece (tc : StreamToolCall) : String :=
  (tc.function.bind StreamFunctionCall.arguments).getD ""

/-- Put fragments of calls together: `place` puts a call that begins among the others, `push` adds
a piece of arguments. -/
def collectStep (place : AccumulatedToolCall → List AccumulatedToolCall → List AccumulatedToolCall)
    (push : Nat → String → List AccumulatedToolCall → List AccumulatedToolCall)
    (calls : List AccumulatedToolCall) (tc : StreamToolCall) : List AccumulatedToolCall :=
  push tc.index tc.piece
    (match tc.begins with
    | some (id, name) => place ⟨tc.index, id, name, ""⟩ calls
    | none => calls)

/-- The index of a call is its position in the message. -/
def placeCall (call : AccumulatedToolCall) : List AccumulatedToolCall → List AccumulatedToolCall
  | [] => [call]
  | tc :: rest =>
    if call.index < tc.index then call :: tc :: rest
    else if call.index = tc.index then call :: rest
    else tc :: placeCall call rest

/-- The calls of a message, from their fragments. -/
def gatherCalls (fragments : List StreamToolCall) : List AccumulatedToolCall :=
  fragments.foldl (collectStep placeCall pushArguments) []

/-- What a client makes of the deltas of a message. -/
def assembleDeltas (codec : JsonCodec) (deltas : List Delta) : Assembled where
  text := String.join (deltas.map fun d => d.content.getD "")
  reasoning := String.join (deltas.map fun d => d.reasoningContent.getD "")
  calls := (gatherCalls (deltas.flatMap fun d => d.toolCalls.getD [])).map
    (AccumulatedToolCall.seen codec)

def OpenAIChatStreamChunk.deltas (chunk : OpenAIChatStreamChunk) : List Delta :=
  chunk.choices.map StreamChoice.delta

def StreamEvent.deltas : StreamEvent → List Delta
  | .chunk c => c.deltas
  | .done => []

def assemble (codec : JsonCodec) (events : List StreamEvent) : Assembled :=
  assembleDeltas codec (events.flatMap StreamEvent.deltas)

end OpenAIChat

/-! ## OpenAI Responses -/

namespace OpenAIResponses

/-- The texts of the parts under a field. -/
def partTexts (item : Value) (key : String) : String :=
  String.join ((((item.get key).bind Value.asArray).getD []).map fun part => textField part "text")

def itemView (codec : JsonCodec) : View Value where
  text item := if textField item "type" = "message" then partTexts item "content" else ""
  reasoning item := if textField item "type" = "reasoning" then partTexts item "summary" else ""
  calls item :=
    if textField item "type" = "function_call" then
      [⟨textField item "call_id", textField item "name",
        parseArguments codec (textField item "arguments")⟩]
    else []

/-- The output of a completed response. -/
def StreamEvent.output : StreamEvent → Option (List OutputItem)
  | .completed response => some response.output
  | _ => none

/-- A stream ends with the response as a whole. -/
def assemble (codec : JsonCodec) (events : List StreamEvent) : Assembled :=
  (itemView codec).assemble
    (((events.filterMap StreamEvent.output).getLast?.getD []).map OutputItem.toValue)

end OpenAIResponses

/-! ## Gemini -/

namespace Gemini

def partView : View GeminiPart where
  text part := if part.thought = some true then "" else part.text.getD ""
  reasoning part := if part.thought = some true then part.text.getD "" else ""
  calls part := (part.functionCall.map fun fc => ⟨fc.id.getD "", fc.name, fc.args⟩).toList

/-- The parts of all chunks are the parts of the message. -/
def assemble (chunks : List GeminiResponse) : Assembled :=
  partView.assemble (chunks.flatMap GeminiResponse.parts)

end Gemini

/-! ## Any format -/

/-- What a client has of a whole reply; the first choice or candidate is the reply. -/
def WireResponse.assembled (codec : JsonCodec) : WireResponse → Assembled
  | .claude resp => Claude.blockView.assemble resp.content
  | .openAIChat resp =>
    match resp.choices with
    | [] => ⟨"", "", []⟩
    | choice :: _ => choice.message.seen codec
  | .openAIResponses resp => (OpenAIResponses.itemView codec).assemble resp.output
  | .gemini resp => Gemini.partView.assemble resp.parts

/-- What a client of a format has of a converted stream. -/
def assembleStream (codec : JsonCodec) (target : Format) (events : List WireEvent) : Assembled :=
  match target with
  | .claude => Claude.assemble codec (events.filterMap fun
    | .claude e => some e
    | _ => none)
  | .openAIChat => OpenAIChat.assemble codec (events.filterMap fun
    | .openAIChat e => some e
    | _ => none)
  | .openAIResponses => OpenAIResponses.assemble codec (events.filterMap fun
    | .openAIResponses e => some e
    | _ => none)
  | .gemini => Gemini.assemble (events.filterMap fun
    | .gemini chunk => some chunk
    | _ => none)

end AnyConverter
