import AnyConverter.Lib.Transducer
import AnyConverter.Formats.OpenAIChat.Types
import AnyConverter.Sse

/-!
# OpenAI Chat streams

The stream adapter.  A Chat stream is a list of chunks that the sentinel `[DONE]` ends; only the
sentinel ends the reply, a `finish_reason` is kept for it.
-/

set_option autoImplicit false

namespace AnyConverter.OpenAIChat

open CanonicalStreamEvent

/-! ## Reading -/

inductive Upstream where
  | chunk (chunk : OpenAIChatStreamChunk)
  | done
  deriving DecidableEq

def decode (codec : JsonCodec) (event : SseEvent) : Except ConvertError Upstream :=
  if isOpenaiDone event.data then .ok .done
  else
    match codec.decode OpenAIChatStreamChunk.ofValue event.data with
    | some chunk => .ok (.chunk chunk)
    | none => .error (.sseParse (codec.errorText event.data))

/-- The reason a finished reply announces: a call in the accumulator overrides what the last chunk
with a `finish_reason` said. -/
def finalStopReason (s : StreamState) : StopReason :=
  if s.accumulatedToolCalls ≠ [] then .toolUse else s.finishReason.getD .endTurn

def parseDone (s : AdapterState) : List CanonicalStreamEvent × AdapterState :=
  ([done (finalStopReason s.toStreamState) s.accumulatedUsage],
    { s with done := true, phase := .done })

/-- The first chunk names the reply. -/
def parseIds (s : AdapterState) (chunk : OpenAIChatStreamChunk) :
    List CanonicalStreamEvent × AdapterState :=
  match s.responseId with
  | none => ([start chunk.id chunk.model],
      { s with responseId := some chunk.id, model := some chunk.model })
  | some _ => ([], s)

def chunkUsage (usage : OpenAIUsage) : Usage where
  inputTokens := usage.promptTokens
  outputTokens := usage.completionTokens
  cacheReadTokens := usage.promptTokensDetails.bind PromptTokensDetails.cachedTokens

def parseUsage (s : AdapterState) : Option OpenAIUsage → AdapterState
  | some usage => { s with accumulatedUsage := some (chunkUsage usage) }
  | none => s

def parseContent (s : AdapterState) : Option String → List CanonicalStreamEvent × AdapterState
  | some content =>
    if content = "" then ([], s) else ([textDelta content], { s with phase := .content })
  | none => ([], s)

def parseReasoning : Option String → List CanonicalStreamEvent
  | some reasoning => if reasoning = "" then [] else [thinkingDelta reasoning]
  | none => []

/-- The start of a call, from the fragment that carries its id and its name. -/
def toolCallStartOf (tc : StreamToolCall) : List CanonicalStreamEvent :=
  match tc.id, tc.function.bind StreamFunctionCall.name with
  | some id, some name => [toolCallStart tc.index id name none]
  | _, _ => []

def toolCallDeltaOf (tc : StreamToolCall) : List CanonicalStreamEvent :=
  match tc.function.bind StreamFunctionCall.arguments with
  | some args => if args = "" then [] else [toolCallDelta tc.index args]
  | none => []

def parseToolCall (tc : StreamToolCall) : List CanonicalStreamEvent :=
  toolCallStartOf tc ++ toolCallDeltaOf tc

def parseToolCalls (s : AdapterState) :
    Option (List StreamToolCall) → List CanonicalStreamEvent × AdapterState
  | some toolCalls => (toolCalls.flatMap parseToolCall, { s with phase := .toolCalls })
  | none => ([], s)

def parseFinishReason (s : AdapterState) : Option String → AdapterState
  | some reason => { s with finishReason := some (StopReason.fromOpenAIChat reason) }
  | none => s

def parseChoice (s : AdapterState) (choice : StreamChoice) :
    List CanonicalStreamEvent × AdapterState :=
  let content := parseContent s choice.delta.content
  let calls := parseToolCalls content.2 choice.delta.toolCalls
  (content.1 ++ parseReasoning choice.delta.reasoningContent ++ calls.1,
    parseFinishReason calls.2 choice.finishReason)

def parseChunk (s : AdapterState) (chunk : OpenAIChatStreamChunk) :
    List CanonicalStreamEvent × AdapterState :=
  let ids := parseIds s chunk
  let choices := Transducer.run parseChoice (parseUsage ids.2 chunk.usage) chunk.choices
  (ids.1 ++ choices.1, choices.2)

def parse (s : AdapterState) : Upstream → List CanonicalStreamEvent × AdapterState
  | .done => parseDone s
  | .chunk chunk => parseChunk s chunk

/-! ## Writing -/

inductive StreamEvent where
  | chunk (chunk : OpenAIChatStreamChunk)
  | done
  deriving DecidableEq, Repr

/-- The event on the wire. -/
def StreamEvent.toText (codec : JsonCodec) : StreamEvent → String
  | .chunk c => formatSseData (codec.toText c.toValue)
  | .done => formatSseData "[DONE]"

/-- The id and the model of the chunks; an id the stream never named is drawn for each chunk. -/
def streamIds (s : AdapterState) : (String × String) × AdapterState :=
  let r := match s.responseId with
    | some id => normalizeIdToChat s.world id
    | none => ("chatcmpl-" ++ s.world.newUuid.1, s.world.newUuid.2)
  ((r.1, s.model.getD "gpt-4o"), { s with world := r.2 })

def makeStreamChunk (s : AdapterState) (id model : String) (delta : Delta)
    (finishReason : Option String) (usage : Option OpenAIUsage) :
    OpenAIChatStreamChunk × AdapterState :=
  ({ id := id, object := "chat.completion.chunk", created := s.nowUnixSecs.1, model := model
     choices := [{ index := 0, delta := delta, finishReason := finishReason }], usage := usage },
    s.nowUnixSecs.2)

/-- One chunk under the ids of the stream. -/
def emitDelta (s : AdapterState) (delta : Delta) : List StreamEvent × AdapterState :=
  let ids := streamIds s
  let r := makeStreamChunk ids.2 ids.1.1 ids.1.2 delta none none
  ([.chunk r.1], r.2)

/-- The first chunk; its id is written as the stream gave it. -/
def emitStart (s : AdapterState) (id model : String) : List StreamEvent × AdapterState :=
  let s := { s with responseId := some id, model := some model }
  let r := makeStreamChunk s id model { role := some "assistant" } none none
  ([.chunk r.1], r.2)

/-- The counts, their sum a `u64` that wraps. -/
def doneUsage (u : Usage) : OpenAIUsage where
  promptTokens := u.inputTokens
  completionTokens := u.outputTokens
  totalTokens := (u.inputTokens + u.outputTokens) % 2 ^ 64
  promptTokensDetails := none

def emitDone (s : AdapterState) (stopReason : StopReason) (usage : Option Usage) :
    List StreamEvent × AdapterState :=
  let ids := streamIds s
  let s := { ids.2 with
    done := true, phase := .done, accumulatedUsage := usage.or ids.2.accumulatedUsage }
  let r := makeStreamChunk s ids.1.1 ids.1.2 {} (some stopReason.toOpenAIChat)
    (usage.map doneUsage)
  ([.chunk r.1, .done], r.2)

def emit (s : AdapterState) : CanonicalStreamEvent → List StreamEvent × AdapterState
  | thinkingSignature _ _ => ([], s)
  | sealedThinking _ _ => ([], s)
  | start id model => emitStart s id model
  | textDelta text => emitDelta s { content := some text }
  | toolCallStart index id name _ => emitDelta s { toolCalls := some [{
      index := index, id := some id, type := some "function"
      function := some { name := some name } }] }
  | toolCallDelta index argumentsDelta => emitDelta s { toolCalls := some [{
      index := index, function := some { arguments := some argumentsDelta } }] }
  | thinkingDelta thinking => emitDelta s { reasoningContent := some thinking }
  | done stopReason usage => emitDone s stopReason usage

end AnyConverter.OpenAIChat
