import AnyConverter.Lib.Serde
import AnyConverter.Shared

/-!
# Claude Messages: wire types

Requests and replies with the JSON they are written as, and the events of a stream with the JSON
they are read from.
-/

set_option autoImplicit false

namespace AnyConverter.Claude

open Serde

def defaultMaxTokens : Nat := 4096

/-! ## Requests -/

structure ClaudeMessage where
  role : String
  content : Value
  deriving DecidableEq

def ClaudeMessage.toValue (m : ClaudeMessage) : Value :=
  .object [("role", .string m.role), ("content", m.content)]

def ClaudeMessage.ofValue : Value → Option ClaudeMessage
  | .object obj => do
    return ⟨← required "role" string obj, ← required "content" any obj⟩
  | _ => none

structure ClaudeTool where
  name : String
  description : Option String
  inputSchema : Value
  deriving DecidableEq

def ClaudeTool.toValue (t : ClaudeTool) : Value :=
  .object (field "name" (.string t.name) ++ fieldOpt "description" (t.description.map .string) ++
    field "input_schema" t.inputSchema)

def ClaudeTool.ofValue : Value → Option ClaudeTool
  | .object obj => do
    return ⟨← required "name" string obj, ← optional "description" string obj,
      ← required "input_schema" any obj⟩
  | _ => none

def thinkingConfigValue (t : ThinkingConfig) : Value :=
  .object [("type", .string t.type), ("budget_tokens", .nat t.budgetTokens)]

def thinkingConfigOfValue : Value → Option ThinkingConfig
  | .object obj => do
    return ⟨← required "type" string obj, ← required "budget_tokens" u32 obj⟩
  | _ => none

structure ClaudeRequest where
  model : String
  maxTokens : Nat
  messages : List ClaudeMessage
  system : Option Value
  temperature : Option F32
  topP : Option F32
  topK : Option Nat
  stopSequences : Option (List String)
  stream : Option Bool
  tools : Option (List ClaudeTool)
  toolChoice : Option Value
  metadata : Option Value
  thinking : Option ThinkingConfig
  deriving DecidableEq

def ClaudeRequest.toValue (r : ClaudeRequest) : Value :=
  .object (field "model" (.string r.model) ++ field "max_tokens" (.nat r.maxTokens) ++
    field "messages" (.array (r.messages.map ClaudeMessage.toValue)) ++
    fieldOpt "system" r.system ++ fieldOpt "temperature" (r.temperature.map F32.toValue) ++
    fieldOpt "top_p" (r.topP.map F32.toValue) ++ fieldOpt "top_k" (r.topK.map .nat) ++
    fieldOpt "stop_sequences" (r.stopSequences.map strings) ++
    fieldOpt "stream" (r.stream.map .bool) ++
    fieldOpt "tools" (r.tools.map fun ts => .array (ts.map ClaudeTool.toValue)) ++
    fieldOpt "tool_choice" r.toolChoice ++ fieldOpt "metadata" r.metadata ++
    fieldOpt "thinking" (r.thinking.map thinkingConfigValue))

def ClaudeRequest.ofValue : Value → Option ClaudeRequest
  | .object obj => do
    return {
      model := ← required "model" string obj
      maxTokens := ← required "max_tokens" u32 obj
      messages := ← required "messages" (vec ClaudeMessage.ofValue) obj
      system := ← optional "system" any obj
      temperature := ← optional "temperature" F32.ofValue obj
      topP := ← optional "top_p" F32.ofValue obj
      topK := ← optional "top_k" u32 obj
      stopSequences := ← optional "stop_sequences" (vec string) obj
      stream := ← optional "stream" bool obj
      tools := ← optional "tools" (vec ClaudeTool.ofValue) obj
      toolChoice := ← optional "tool_choice" any obj
      metadata := ← optional "metadata" any obj
      thinking := ← optional "thinking" thinkingConfigOfValue obj }
  | _ => none

/-! ## Replies -/

inductive ClaudeContentBlock where
  | text (text : String)
  | toolUse (id name : String) (input : Value)
  | thinking (thinking : String) (signature : Option String)
  | redactedThinking (data : String)
  deriving DecidableEq

def ClaudeContentBlock.toValue : ClaudeContentBlock → Value
  | .text t => .object [("type", .string "text"), ("text", .string t)]
  | .toolUse id name input =>
    .object [("type", .string "tool_use"), ("id", .string id), ("name", .string name),
      ("input", input)]
  | .thinking t signature =>
    .object (field "type" (.string "thinking") ++ field "thinking" (.string t) ++
      fieldOpt "signature" (signature.map .string))
  | .redactedThinking data =>
    .object [("type", .string "redacted_thinking"), ("data", .string data)]

def ClaudeContentBlock.ofValue : Value → Option ClaudeContentBlock
  | .object obj => do
    let type ← required "type" string obj
    if type = "text" then return .text (← required "text" string obj)
    else if type = "tool_use" then
      return .toolUse (← required "id" string obj) (← required "name" string obj)
        (← required "input" any obj)
    else if type = "thinking" then
      return .thinking (← required "thinking" string obj) (← optional "signature" string obj)
    else if type = "redacted_thinking" then
      return .redactedThinking (← required "data" string obj)
    else none
  | _ => none

/-- The cache writes by lifetime; read, never written. -/
structure ClaudeCacheCreation where
  ephemeral5mInputTokens : Option Nat
  ephemeral1hInputTokens : Option Nat
  deriving DecidableEq

def ClaudeCacheCreation.ofValue : Value → Option ClaudeCacheCreation
  | .object obj => do
    return ⟨← optional "ephemeral_5m_input_tokens" u64 obj,
      ← optional "ephemeral_1h_input_tokens" u64 obj⟩
  | _ => none

structure ClaudeUsage where
  inputTokens : Nat
  outputTokens : Nat
  cacheCreationInputTokens : Option Nat
  cacheCreation : Option ClaudeCacheCreation
  cacheReadInputTokens : Option Nat
  deriving DecidableEq

def ClaudeUsage.toValue (u : ClaudeUsage) : Value :=
  .object (field "input_tokens" (.nat u.inputTokens) ++
    field "output_tokens" (.nat u.outputTokens) ++
    fieldOpt "cache_creation_input_tokens" (u.cacheCreationInputTokens.map .nat) ++
    fieldOpt "cache_read_input_tokens" (u.cacheReadInputTokens.map .nat))

def ClaudeUsage.ofValue : Value → Option ClaudeUsage
  | .object obj => do
    return {
      inputTokens := ← required "input_tokens" u64 obj
      outputTokens := ← required "output_tokens" u64 obj
      cacheCreationInputTokens := ← optional "cache_creation_input_tokens" u64 obj
      cacheCreation := ← optional "cache_creation" ClaudeCacheCreation.ofValue obj
      cacheReadInputTokens := ← optional "cache_read_input_tokens" u64 obj }
  | _ => none

structure ClaudeResponse where
  id : String
  type : String
  role : String
  model : String
  content : List ClaudeContentBlock
  stopReason : Option String
  stopSequence : Option String
  usage : ClaudeUsage
  deriving DecidableEq

def ClaudeResponse.toValue (r : ClaudeResponse) : Value :=
  .object [("id", .string r.id), ("type", .string r.type), ("role", .string r.role),
    ("model", .string r.model), ("content", .array (r.content.map ClaudeContentBlock.toValue)),
    ("stop_reason", orNull (r.stopReason.map .string)),
    ("stop_sequence", orNull (r.stopSequence.map .string)), ("usage", r.usage.toValue)]

def ClaudeResponse.ofValue : Value → Option ClaudeResponse
  | .object obj => do
    return {
      id := ← required "id" string obj
      type := ← required "type" string obj
      role := ← required "role" string obj
      model := ← required "model" string obj
      content := ← required "content" (vec ClaudeContentBlock.ofValue) obj
      stopReason := ← optional "stop_reason" string obj
      stopSequence := ← optional "stop_sequence" string obj
      usage := ← required "usage" ClaudeUsage.ofValue obj }
  | _ => none

/-! ## Stream events -/

structure ClaudeStreamUsage where
  inputTokens : Nat := 0
  outputTokens : Nat := 0
  cacheCreationInputTokens : Option Nat := none
  cacheCreation : Option ClaudeCacheCreation := none
  cacheReadInputTokens : Option Nat := none
  deriving DecidableEq

def ClaudeStreamUsage.ofValue : Value → Option ClaudeStreamUsage
  | .object obj => do
    return {
      inputTokens := ← withDefault "input_tokens" 0 u64 obj
      outputTokens := ← withDefault "output_tokens" 0 u64 obj
      cacheCreationInputTokens := ← optional "cache_creation_input_tokens" u64 obj
      cacheCreation := ← optional "cache_creation" ClaudeCacheCreation.ofValue obj
      cacheReadInputTokens := ← optional "cache_read_input_tokens" u64 obj }
  | _ => none

structure ClaudeStreamMessage where
  id : String
  model : String
  usage : Option ClaudeStreamUsage
  deriving DecidableEq

def ClaudeStreamMessage.ofValue : Value → Option ClaudeStreamMessage
  | .object obj => do
    return ⟨← required "id" string obj, ← required "model" string obj,
      ← optional "usage" ClaudeStreamUsage.ofValue obj⟩
  | _ => none

inductive ClaudeStreamContentBlock where
  | text (text : String)
  | toolUse (id name : String) (input : Value)
  | thinking (thinking : String) (signature : Option String)
  deriving DecidableEq

def ClaudeStreamContentBlock.ofValue : Value → Option ClaudeStreamContentBlock
  | .object obj => do
    let type ← required "type" string obj
    if type = "text" then return .text (← required "text" string obj)
    else if type = "tool_use" then
      return .toolUse (← required "id" string obj) (← required "name" string obj)
        (← withDefault "input" .null any obj)
    else if type = "thinking" then
      return .thinking (← required "thinking" string obj) (← optional "signature" string obj)
    else none
  | _ => none

inductive ClaudeStreamDelta where
  | textDelta (text : String)
  | inputJsonDelta (partialJson : String)
  | thinkingDelta (thinking : String)
  | signatureDelta (signature : String)
  deriving DecidableEq

def ClaudeStreamDelta.ofValue : Value → Option ClaudeStreamDelta
  | .object obj => do
    let type ← required "type" string obj
    if type = "text_delta" then return .textDelta (← required "text" string obj)
    else if type = "input_json_delta" then
      return .inputJsonDelta (← required "partial_json" string obj)
    else if type = "thinking_delta" then
      return .thinkingDelta (← required "thinking" string obj)
    else if type = "signature_delta" then
      return .signatureDelta (← required "signature" string obj)
    else none
  | _ => none

structure ClaudeMessageDelta where
  stopReason : Option String
  stopSequence : Option String
  deriving DecidableEq

def ClaudeMessageDelta.ofValue : Value → Option ClaudeMessageDelta
  | .object obj => do
    return ⟨← optional "stop_reason" string obj, ← optional "stop_sequence" string obj⟩
  | _ => none

/-- `message_start` -/
def messageStartOfValue : Value → Option ClaudeStreamMessage
  | .object obj => do
    let _ ← required "type" string obj
    required "message" ClaudeStreamMessage.ofValue obj
  | _ => none

/-- `content_block_start` -/
def contentBlockStartOfValue : Value → Option (Nat × ClaudeStreamContentBlock)
  | .object obj => do
    let _ ← required "type" string obj
    return (← required "index" u32 obj,
      ← required "content_block" ClaudeStreamContentBlock.ofValue obj)
  | _ => none

/-- `content_block_delta` -/
def contentBlockDeltaOfValue : Value → Option (Nat × ClaudeStreamDelta)
  | .object obj => do
    let _ ← required "type" string obj
    return (← required "index" u32 obj, ← required "delta" ClaudeStreamDelta.ofValue obj)
  | _ => none

/-- `message_delta` -/
def messageDeltaOfValue : Value → Option (ClaudeMessageDelta × Option ClaudeStreamUsage)
  | .object obj => do
    let _ ← required "type" string obj
    return (← required "delta" ClaudeMessageDelta.ofValue obj,
      ← optional "usage" ClaudeStreamUsage.ofValue obj)
  | _ => none

end AnyConverter.Claude
