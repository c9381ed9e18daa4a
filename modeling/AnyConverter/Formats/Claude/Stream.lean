import AnyConverter.Lib.Transducer
import AnyConverter.Formats.Claude.Types
import AnyConverter.Sse

/-!
# Claude streams

Both directions of the stream adapter.  Reading has two stages: `decode` turns an event of the
wire into a typed one, or fails, and `parse` updates the state and answers with canonical events.
`emit` writes the events of a Claude stream.
-/

set_option autoImplicit false

namespace AnyConverter.Claude

open Serde CanonicalStreamEvent

/-! ## Reading -/

/-- An event of a Claude stream, as far as the reader tells them apart. -/
inductive Upstream where
  | messageStart (message : ClaudeStreamMessage)
  /-- `content_block_start` of a block Anthropic sealed whole -/
  | sealedBlockStart (index : Nat) (raw : Value)
  | contentBlockStart (index : Nat) (block : ClaudeStreamContentBlock)
  | contentBlockDelta (index : Nat) (delta : ClaudeStreamDelta)
  | contentBlockStop
  | messageDelta (delta : ClaudeMessageDelta) (usage : Option ClaudeStreamUsage)
  | messageStop
  | ping
  deriving DecidableEq

/-- Read a payload, with the message of a failed read. -/
def readPayload {α : Type} (codec : JsonCodec) (name : String) (ofValue : Value → Option α)
    (data : String) : Except ConvertError α :=
  match codec.decode ofValue data with
  | some a => .ok a
  | none => .error (.sseParse (name ++ " parse error: " ++ codec.errorText data))

/-- The block of a `content_block_start`, when it is `redacted_thinking`. -/
def sealedBlock (value : Value) : Option Value :=
  (value.get "content_block").filter fun block =>
    (block.get "type").bind Value.asStr == some "redacted_thinking"

def decodeContentBlockStart (codec : JsonCodec) (data : String) : Except ConvertError Upstream :=
  match codec.fromStr data with
  | none => .error (.sseParse ("content_block_start parse error: " ++ codec.errorText data))
  | some value =>
    match sealedBlock value with
    | some raw =>
      .ok (.sealedBlockStart ((((value.get "index").bind Value.asU64).getD 0) % 2 ^ 32) raw)
    | none =>
      match contentBlockStartOfValue value with
      | some (index, block) => .ok (.contentBlockStart index block)
      | none => .error (.sseParse ("content_block_start parse error: " ++ codec.errorText data))

def decode (codec : JsonCodec) (event : SseEvent) : Except ConvertError Upstream :=
  match event.event with
  | none => .error (.sseParse "Claude SSE events require event type")
  | some eventType =>
    if eventType = "message_start" then
      (readPayload codec "message_start" messageStartOfValue event.data).map .messageStart
    else if eventType = "content_block_start" then decodeContentBlockStart codec event.data
    else if eventType = "content_block_delta" then
      (readPayload codec "content_block_delta" contentBlockDeltaOfValue event.data).map
        fun p => .contentBlockDelta p.1 p.2
    else if eventType = "content_block_stop" then .ok .contentBlockStop
    else if eventType = "message_delta" then
      (readPayload codec "message_delta" messageDeltaOfValue event.data).map
        fun p => .messageDelta p.1 p.2
    else if eventType = "message_stop" then .ok .messageStop
    else if eventType = "ping" then .ok .ping
    else .error (.sseParse ("unknown Claude SSE event: " ++ eventType))

def parseMessageStart (s : AdapterState) (message : ClaudeStreamMessage) :
    List CanonicalStreamEvent × AdapterState :=
  let s := { s with
    responseId := some message.id, model := some message.model, phase := .init, blockIndex := 0
    toolCallIndex := 0, done := false }
  let s := match message.usage with
    | some usage => { s with accumulatedUsage := some {
        inputTokens := usage.inputTokens
        outputTokens := usage.outputTokens
        cacheReadTokens := usage.cacheReadInputTokens
        cacheWriteTokens := usage.cacheCreationInputTokens } }
    | none => s
  ([start message.id message.model], s)

def parseSealedBlockStart (s : AdapterState) (index : Nat) (raw : Value) :
    List CanonicalStreamEvent × AdapterState :=
  ([sealedThinking .claude raw], { s with blockIndex := index, phase := .content })

def parseContentBlockStart (s : AdapterState) (index : Nat) (block : ClaudeStreamContentBlock) :
    List CanonicalStreamEvent × AdapterState :=
  let s := { s with blockIndex := index, phase := .content }
  match block with
  | .toolUse id name _ =>
    ([toolCallStart s.toolCallIndex id name none],
      { s with toolCallIndex := s.toolCallIndex + 1, phase := .toolCalls })
  | .thinking _ _ => ([], s)
  | .text _ => ([], s)

def parseContentBlockDelta (s : AdapterState) (index : Nat) (delta : ClaudeStreamDelta) :
    List CanonicalStreamEvent × AdapterState :=
  let s := { s with blockIndex := index }
  match delta with
  | .textDelta text => ([textDelta text], { s with phase := .content })
  | .inputJsonDelta partialJson =>
    ([toolCallDelta (s.toolCallIndex - 1) partialJson], { s with phase := .toolCalls })
  | .thinkingDelta thinking => ([thinkingDelta thinking], s)
  | .signatureDelta signature => ([thinkingSignature .claude signature], s)

/-- The usage after a `message_delta`: its output count over what was there. -/
def mergeUsage (accumulated : Option Usage) : Option ClaudeStreamUsage → Option Usage
  | some usage => some { accumulated.getD {} with outputTokens := usage.outputTokens }
  | none => accumulated

def parseMessageDelta (s : AdapterState) (delta : ClaudeMessageDelta)
    (usage : Option ClaudeStreamUsage) : List CanonicalStreamEvent × AdapterState :=
  let s := { s with accumulatedUsage := mergeUsage s.accumulatedUsage usage, phase := .done }
  ([done ((delta.stopReason.map StopReason.fromClaude).getD .endTurn) s.accumulatedUsage], s)

/-- Providers that skip `message_delta` end a reply here; the others have ended it already. -/
def parseMessageStop (s : AdapterState) : List CanonicalStreamEvent × AdapterState :=
  let s := { s with done := true }
  if s.phase = .done then ([], s)
  else
    let stopReason : StopReason :=
      if s.phase = .toolCalls ∨ 0 < s.toolCallIndex then .toolUse else .endTurn
    ([done stopReason s.accumulatedUsage], { s with phase := .done })

def parse (s : AdapterState) : Upstream → List CanonicalStreamEvent × AdapterState
  | .messageStart message => parseMessageStart s message
  | .sealedBlockStart index raw => parseSealedBlockStart s index raw
  | .contentBlockStart index block => parseContentBlockStart s index block
  | .contentBlockDelta index delta => parseContentBlockDelta s index delta
  | .contentBlockStop => ([], s)
  | .messageDelta delta usage => parseMessageDelta s delta usage
  | .messageStop => parseMessageStop s
  | .ping => ([], s)

/-! ## Writing -/

/-- A content block as it is opened. -/
inductive OpenedBlock where
  | text
  | thinking
  | toolUse (id name : String)
  deriving DecidableEq, Repr

/-- A piece of a content block. -/
inductive BlockDelta where
  | text (text : String)
  | inputJson (partialJson : String)
  | thinking (thinking : String)
  deriving DecidableEq, Repr

/-- The usage of a `message_delta`. -/
structure DeltaUsage where
  inputTokens : Nat
  outputTokens : Nat
  cacheReadInputTokens : Option Nat
  cacheCreationInputTokens : Option Nat
  deriving DecidableEq, Repr

/-- The events a Claude stream is made of. -/
inductive StreamEvent where
  | messageStart (id model : String)
  | contentBlockStart (index : Nat) (block : OpenedBlock)
  | contentBlockDelta (index : Nat) (delta : BlockDelta)
  | contentBlockStop (index : Nat)
  | messageDelta (stopReason : String) (usage : DeltaUsage)
  | messageStop
  deriving DecidableEq, Repr

def OpenedBlock.toValue : OpenedBlock → Value
  | .text => .object [("text", .string ""), ("type", .string "text")]
  | .thinking => .object [("thinking", .string ""), ("type", .string "thinking")]
  | .toolUse id name =>
    .object [("id", .string id), ("input", .object []), ("name", .string name),
      ("type", .string "tool_use")]

def BlockDelta.toValue : BlockDelta → Value
  | .text t => .object [("text", .string t), ("type", .string "text_delta")]
  | .inputJson j => .object [("partial_json", .string j), ("type", .string "input_json_delta")]
  | .thinking t => .object [("thinking", .string t), ("type", .string "thinking_delta")]

def DeltaUsage.toValue (u : DeltaUsage) : Value :=
  .object (fieldOpt "cache_creation_input_tokens" (u.cacheCreationInputTokens.map .nat) ++
    fieldOpt "cache_read_input_tokens" (u.cacheReadInputTokens.map .nat) ++
    field "input_tokens" (.nat u.inputTokens) ++ field "output_tokens" (.nat u.outputTokens))

namespace StreamEvent

/-- The type of the event, on its `event:` line and in its payload. -/
def name : StreamEvent → String
  | messageStart _ _ => "message_start"
  | contentBlockStart _ _ => "content_block_start"
  | contentBlockDelta _ _ => "content_block_delta"
  | contentBlockStop _ => "content_block_stop"
  | messageDelta _ _ => "message_delta"
  | messageStop => "message_stop"

def toValue (e : StreamEvent) : Value :=
  match e with
  | messageStart id model =>
    .object [("message", .object [("content", .array []), ("id", .string id),
      ("model", .string model), ("role", .string "assistant"), ("stop_reason", .null),
      ("stop_sequence", .null), ("type", .string "message"),
      ("usage", .object [("input_tokens", .nat 0), ("output_tokens", .nat 0)])]),
      ("type", .string e.name)]
  | contentBlockStart index block =>
    .object [("content_block", block.toValue), ("index", .nat index), ("type", .string e.name)]
  | contentBlockDelta index delta =>
    .object [("delta", delta.toValue), ("index", .nat index), ("type", .string e.name)]
  | contentBlockStop index => .object [("index", .nat index), ("type", .string e.name)]
  | messageDelta stopReason usage =>
    .object [("delta", .object [("stop_reason", .string stopReason), ("stop_sequence", .null)]),
      ("type", .string e.name), ("usage", usage.toValue)]
  | messageStop => .object [("type", .string e.name)]

/-- The event on the wire. -/
def toText (codec : JsonCodec) (e : StreamEvent) : String :=
  formatSseEvent e.name (codec.toText e.toValue)

end StreamEvent

def emitMessageStart (s : AdapterState) (id model : String) : List StreamEvent × AdapterState :=
  let r := normalizeIdToClaude s.world id
  ([.messageStart r.1 model], { s with
    world := r.2, responseId := some r.1, model := some model, phase := .init, blockIndex := 0
    toolCallIndex := 0, done := false, accumulatedUsage := some {} })

def emitTextDelta (s : AdapterState) (text : String) : List StreamEvent × AdapterState :=
  if s.phase = .init then
    ([.contentBlockStart s.blockIndex .text, .contentBlockDelta s.blockIndex (.text text)],
      { s with phase := .content })
  else ([.contentBlockDelta s.blockIndex (.text text)], s)

def emitToolCallStart (s : AdapterState) (index : Nat) (id name : String) :
    List StreamEvent × AdapterState :=
  ([.contentBlockStart s.blockIndex (.toolUse id name)], { s with
    blockIndex := s.blockIndex + 1, toolCallIndex := index + 1, phase := .toolCalls })

def emitToolCallDelta (s : AdapterState) (argumentsDelta : String) :
    List StreamEvent × AdapterState :=
  ([.contentBlockDelta (s.blockIndex - 1) (.inputJson argumentsDelta)], s)

def emitThinkingDelta (s : AdapterState) (thinking : String) : List StreamEvent × AdapterState :=
  if s.phase = .init then
    ([.contentBlockStart s.blockIndex .thinking,
      .contentBlockDelta s.blockIndex (.thinking thinking)], { s with phase := .content })
  else ([.contentBlockDelta s.blockIndex (.thinking thinking)], s)

/-- Claude's prompt count leaves the cached tokens out. -/
def exclusiveInput (u : Usage) : Nat :=
  match u.cacheReadTokens with
  | some c => u.inputTokens - c
  | none => u.inputTokens

def deltaUsage (usage : Option Usage) : DeltaUsage where
  inputTokens := (usage.map exclusiveInput).getD 0
  outputTokens := (usage.map Usage.outputTokens).getD 0
  cacheReadInputTokens := usage.bind Usage.cacheReadTokens
  cacheCreationInputTokens := usage.bind Usage.cacheWriteTokens

def emitDone (s : AdapterState) (stopReason : StopReason) (usage : Option Usage) :
    List StreamEvent × AdapterState :=
  ([.messageDelta stopReason.toClaude (deltaUsage usage), .messageStop], { s with
    accumulatedUsage := usage.or s.accumulatedUsage, done := true, phase := .done })

def emit (s : AdapterState) : CanonicalStreamEvent → List StreamEvent × AdapterState
  | thinkingSignature _ _ => ([], s)
  | sealedThinking _ _ => ([], s)
  | start id model => emitMessageStart s id model
  | textDelta text => emitTextDelta s text
  | toolCallStart index id name _ => emitToolCallStart s index id name
  | toolCallDelta _ argumentsDelta => emitToolCallDelta s argumentsDelta
  | thinkingDelta thinking => emitThinkingDelta s thinking
  | done stopReason usage => emitDone s stopReason usage

end AnyConverter.Claude
