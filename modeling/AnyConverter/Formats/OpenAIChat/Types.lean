import AnyConverter.Lib.Serde
import AnyConverter.Shared

/-!
# OpenAI Chat Completions: wire types

Requests, replies and stream chunks, the JSON they are written as and, for what an upstream sends,
the JSON they are read from.
-/

set_option autoImplicit false

namespace AnyConverter.OpenAIChat

open Serde

/-! ## Requests -/

structure ReasoningConfig where
  effort : String
  deriving DecidableEq

structure StreamOptions where
  includeUsage : Option Bool
  deriving DecidableEq

def StreamOptions.toValue (o : StreamOptions) : Value :=
  .object (fieldOpt "include_usage" (o.includeUsage.map .bool))

def StreamOptions.ofValue : Value → Option StreamOptions
  | .object obj => do return ⟨← optional "include_usage" bool obj⟩
  | _ => none

inductive StopValue where
  | single (s : String)
  | multiple (ss : List String)
  deriving DecidableEq

def StopValue.toValue : StopValue → Value
  | .single s => .string s
  | .multiple ss => strings ss

def StopValue.ofValue : Value → Option StopValue
  | .string s => some (.single s)
  | v => (vec string v).map .multiple

structure ImageUrlDetail where
  url : String
  detail : Option String
  deriving DecidableEq

def ImageUrlDetail.toValue (d : ImageUrlDetail) : Value :=
  .object (field "url" (.string d.url) ++ fieldOpt "detail" (d.detail.map .string))

def ImageUrlDetail.ofValue : Value → Option ImageUrlDetail
  | .object obj => do return ⟨← required "url" string obj, ← optional "detail" string obj⟩
  | _ => none

inductive ContentPart where
  | text (text : String)
  | imageUrl (imageUrl : ImageUrlDetail)
  deriving DecidableEq

def ContentPart.toValue : ContentPart → Value
  | .text t => .object [("type", .string "text"), ("text", .string t)]
  | .imageUrl d => .object [("type", .string "image_url"), ("image_url", d.toValue)]

def ContentPart.ofValue : Value → Option ContentPart
  | .object obj => do
    let type ← required "type" string obj
    if type = "text" then return .text (← required "text" string obj)
    else if type = "image_url" then
      return .imageUrl (← required "image_url" ImageUrlDetail.ofValue obj)
    else none
  | _ => none

inductive MessageContent where
  | text (text : String)
  | parts (parts : List ContentPart)
  deriving DecidableEq

def MessageContent.toValue : MessageContent → Value
  | .text t => .string t
  | .parts ps => .array (ps.map ContentPart.toValue)

def MessageContent.ofValue : Value → Option MessageContent
  | .string t => some (.text t)
  | v => (vec ContentPart.ofValue v).map .parts

structure FunctionCall where
  name : String
  arguments : String
  deriving DecidableEq

structure ToolCall where
  id : String
  type : String
  function : FunctionCall
  deriving DecidableEq

def FunctionCall.toValue (f : FunctionCall) : Value :=
  .object [("name", .string f.name), ("arguments", .string f.arguments)]

def FunctionCall.ofValue : Value → Option FunctionCall
  | .object obj => do return ⟨← required "name" string obj, ← required "arguments" string obj⟩
  | _ => none

def ToolCall.toValue (c : ToolCall) : Value :=
  .object [("id", .string c.id), ("type", .string c.type), ("function", c.function.toValue)]

def ToolCall.ofValue : Value → Option ToolCall
  | .object obj => do
    return ⟨← required "id" string obj, ← required "type" string obj,
      ← required "function" FunctionCall.ofValue obj⟩
  | _ => none

structure OpenAIChatMessage where
  role : String
  content : Option MessageContent
  name : Option String
  toolCalls : Option (List ToolCall)
  toolCallId : Option String
  reasoningContent : Option String
  deriving DecidableEq

def OpenAIChatMessage.toValue (m : OpenAIChatMessage) : Value :=
  .object (field "role" (.string m.role) ++ fieldOpt "content" (m.content.map (·.toValue)) ++
    fieldOpt "name" (m.name.map .string) ++
    fieldOpt "tool_calls" (m.toolCalls.map fun cs => .array (cs.map ToolCall.toValue)) ++
    fieldOpt "tool_call_id" (m.toolCallId.map .string) ++
    fieldOpt "reasoning_content" (m.reasoningContent.map .string))

def OpenAIChatMessage.ofValue : Value → Option OpenAIChatMessage
  | .object obj => do
    return {
      role := ← required "role" string obj
      content := ← optional "content" MessageContent.ofValue obj
      name := ← optional "name" string obj
      toolCalls := ← optional "tool_calls" (vec ToolCall.ofValue) obj
      toolCallId := ← optional "tool_call_id" string obj
      reasoningContent := ← optional "reasoning_content" string obj }
  | _ => none

structure FunctionDef where
  name : String
  description : Option String
  parameters : Option Value
  strict : Option Bool
  deriving DecidableEq

def FunctionDef.toValue (f : FunctionDef) : Value :=
  .object (field "name" (.string f.name) ++
    fieldOpt "description" (f.description.map .string) ++ fieldOpt "parameters" f.parameters ++
    fieldOpt "strict" (f.strict.map .bool))

def FunctionDef.ofValue : Value → Option FunctionDef
  | .object obj => do
    return {
      name := ← required "name" string obj
      description := ← optional "description" string obj
      parameters := ← optional "parameters" any obj
      strict := ← optional "strict" bool obj }
  | _ => none

structure OpenAIChatTool where
  type : String
  function : FunctionDef
  deriving DecidableEq

def OpenAIChatTool.toValue (t : OpenAIChatTool) : Value :=
  .object [("type", .string t.type), ("function", t.function.toValue)]

def OpenAIChatTool.ofValue : Value → Option OpenAIChatTool
  | .object obj => do
    return ⟨← required "type" string obj, ← required "function" FunctionDef.ofValue obj⟩
  | _ => none

structure OpenAIChatRequest where
  model : String
  messages : List OpenAIChatMessage
  temperature : Option F32
  topP : Option F32
  maxCompletionTokens : Option Nat
  maxTokens : Option Nat
  stop : Option StopValue
  seed : Option Int
  stream : Option Bool
  streamOptions : Option StreamOptions
  tools : Option (List OpenAIChatTool)
  toolChoice : Option Value
  responseFormat : Option Value
  n : Option Nat
  reasoningEffort : Option String
  reasoning : Option ReasoningConfig
  deriving DecidableEq

def OpenAIChatRequest.toValue (r : OpenAIChatRequest) : Value :=
  .object (field "model" (.string r.model) ++
    field "messages" (.array (r.messages.map OpenAIChatMessage.toValue)) ++
    fieldOpt "temperature" (r.temperature.map F32.toValue) ++
    fieldOpt "top_p" (r.topP.map F32.toValue) ++
    fieldOpt "max_completion_tokens" (r.maxCompletionTokens.map .nat) ++
    fieldOpt "max_tokens" (r.maxTokens.map .nat) ++
    fieldOpt "stop" (r.stop.map StopValue.toValue) ++
    fieldOpt "seed" (r.seed.map fun i => .number (.int i)) ++
    fieldOpt "stream" (r.stream.map .bool) ++
    fieldOpt "stream_options" (r.streamOptions.map StreamOptions.toValue) ++
    fieldOpt "tools" (r.tools.map fun ts => .array (ts.map OpenAIChatTool.toValue)) ++
    fieldOpt "tool_choice" r.toolChoice ++ fieldOpt "response_format" r.responseFormat ++
    fieldOpt "n" (r.n.map .nat) ++ fieldOpt "reasoning_effort" (r.reasoningEffort.map .string) ++
    fieldOpt "reasoning" (r.reasoning.map fun c => .object [("effort", .string c.effort)]))

def ReasoningConfig.ofValue : Value → Option ReasoningConfig
  | .object obj => do return ⟨← required "effort" string obj⟩
  | _ => none

def OpenAIChatRequest.ofValue : Value → Option OpenAIChatRequest
  | .object obj => do
    return {
      model := ← required "model" string obj
      messages := ← required "messages" (vec OpenAIChatMessage.ofValue) obj
      temperature := ← optional "temperature" F32.ofValue obj
      topP := ← optional "top_p" F32.ofValue obj
      maxCompletionTokens := ← optional "max_completion_tokens" u32 obj
      maxTokens := ← optional "max_tokens" u32 obj
      stop := ← optional "stop" StopValue.ofValue obj
      seed := ← optional "seed" i64 obj
      stream := ← optional "stream" bool obj
      streamOptions := ← optional "stream_options" StreamOptions.ofValue obj
      tools := ← optional "tools" (vec OpenAIChatTool.ofValue) obj
      toolChoice := ← optional "tool_choice" any obj
      responseFormat := ← optional "response_format" any obj
      n := ← optional "n" u32 obj
      reasoningEffort := ← optional "reasoning_effort" string obj
      reasoning := ← optional "reasoning" ReasoningConfig.ofValue obj }
  | _ => none

/-! ## Replies -/

structure PromptTokensDetails where
  cachedTokens : Option Nat
  deriving DecidableEq, Repr

def PromptTokensDetails.toValue (d : PromptTokensDetails) : Value :=
  .object (fieldOpt "cached_tokens" (d.cachedTokens.map .nat))

def PromptTokensDetails.ofValue : Value → Option PromptTokensDetails
  | .object obj => do return ⟨← optional "cached_tokens" u64 obj⟩
  | _ => none

structure OpenAIUsage where
  promptTokens : Nat
  completionTokens : Nat
  totalTokens : Nat
  promptTokensDetails : Option PromptTokensDetails
  deriving DecidableEq, Repr

def OpenAIUsage.toValue (u : OpenAIUsage) : Value :=
  .object (field "prompt_tokens" (.nat u.promptTokens) ++
    field "completion_tokens" (.nat u.completionTokens) ++
    field "total_tokens" (.nat u.totalTokens) ++
    fieldOpt "prompt_tokens_details" (u.promptTokensDetails.map PromptTokensDetails.toValue))

def OpenAIUsage.ofValue : Value → Option OpenAIUsage
  | .object obj => do
    return {
      promptTokens := ← required "prompt_tokens" u64 obj
      completionTokens := ← required "completion_tokens" u64 obj
      totalTokens := ← required "total_tokens" u64 obj
      promptTokensDetails := ← optional "prompt_tokens_details" PromptTokensDetails.ofValue obj }
  | _ => none

structure ChoiceMessage where
  role : String
  content : Option String
  toolCalls : Option (List ToolCall)
  refusal : Option String
  reasoningContent : Option String
  deriving DecidableEq

def ChoiceMessage.toValue (m : ChoiceMessage) : Value :=
  .object (field "role" (.string m.role) ++ fieldOpt "content" (m.content.map .string) ++
    fieldOpt "tool_calls" (m.toolCalls.map fun cs => .array (cs.map ToolCall.toValue)) ++
    fieldOpt "refusal" (m.refusal.map .string) ++
    fieldOpt "reasoning_content" (m.reasoningContent.map .string))

def ChoiceMessage.ofValue : Value → Option ChoiceMessage
  | .object obj => do
    return {
      role := ← required "role" string obj
      content := ← optional "content" string obj
      toolCalls := ← optional "tool_calls" (vec ToolCall.ofValue) obj
      refusal := ← optional "refusal" string obj
      reasoningContent := ← optional "reasoning_content" string obj }
  | _ => none

structure Choice where
  index : Nat
  message : ChoiceMessage
  finishReason : Option String
  deriving DecidableEq

def Choice.toValue (c : Choice) : Value :=
  .object [("index", .nat c.index), ("message", c.message.toValue),
    ("finish_reason", orNull (c.finishReason.map .string))]

def Choice.ofValue : Value → Option Choice
  | .object obj => do
    return {
      index := ← required "index" u32 obj
      message := ← required "message" ChoiceMessage.ofValue obj
      finishReason := ← optional "finish_reason" string obj }
  | _ => none

structure OpenAIChatResponse where
  id : String
  object : String
  created : Nat
  model : String
  choices : List Choice
  usage : Option OpenAIUsage
  systemFingerprint : Option String
  deriving DecidableEq

def OpenAIChatResponse.toValue (r : OpenAIChatResponse) : Value :=
  .object (field "id" (.string r.id) ++ field "object" (.string r.object) ++
    field "created" (.nat r.created) ++ field "model" (.string r.model) ++
    field "choices" (.array (r.choices.map Choice.toValue)) ++
    fieldOpt "usage" (r.usage.map OpenAIUsage.toValue) ++
    fieldOpt "system_fingerprint" (r.systemFingerprint.map .string))

def OpenAIChatResponse.ofValue : Value → Option OpenAIChatResponse
  | .object obj => do
    return {
      id := ← required "id" string obj
      object := ← required "object" string obj
      created := ← required "created" u64 obj
      model := ← required "model" string obj
      choices := ← required "choices" (vec Choice.ofValue) obj
      usage := ← optional "usage" OpenAIUsage.ofValue obj
      systemFingerprint := ← optional "system_fingerprint" string obj }
  | _ => none

/-! ## Stream chunks -/

structure StreamFunctionCall where
  name : Option String := none
  arguments : Option String := none
  deriving DecidableEq, Repr

def StreamFunctionCall.toValue (f : StreamFunctionCall) : Value :=
  .object (fieldOpt "name" (f.name.map .string) ++ fieldOpt "arguments" (f.arguments.map .string))

def StreamFunctionCall.ofValue : Value → Option StreamFunctionCall
  | .object obj => do return ⟨← optional "name" string obj, ← optional "arguments" string obj⟩
  | _ => none

structure StreamToolCall where
  index : Nat
  id : Option String := none
  type : Option String := none
  function : Option StreamFunctionCall := none
  deriving DecidableEq, Repr

def StreamToolCall.toValue (c : StreamToolCall) : Value :=
  .object (field "index" (.nat c.index) ++ fieldOpt "id" (c.id.map .string) ++
    fieldOpt "type" (c.type.map .string) ++
    fieldOpt "function" (c.function.map StreamFunctionCall.toValue))

def StreamToolCall.ofValue : Value → Option StreamToolCall
  | .object obj => do
    return {
      index := ← required "index" u32 obj
      id := ← optional "id" string obj
      type := ← optional "type" string obj
      function := ← optional "function" StreamFunctionCall.ofValue obj }
  | _ => none

structure Delta where
  role : Option String := none
  content : Option String := none
  reasoningContent : Option String := none
  toolCalls : Option (List StreamToolCall) := none
  deriving DecidableEq, Repr

def Delta.toValue (d : Delta) : Value :=
  .object (fieldOpt "role" (d.role.map .string) ++ fieldOpt "content" (d.content.map .string) ++
    fieldOpt "reasoning_content" (d.reasoningContent.map .string) ++
    fieldOpt "tool_calls" (d.toolCalls.map fun cs => .array (cs.map StreamToolCall.toValue)))

def Delta.ofValue : Value → Option Delta
  | .object obj => do
    return {
      role := ← optional "role" string obj
      content := ← optional "content" string obj
      reasoningContent := ← optional "reasoning_content" string obj
      toolCalls := ← optional "tool_calls" (vec StreamToolCall.ofValue) obj }
  | _ => none

structure StreamChoice where
  index : Nat
  delta : Delta
  finishReason : Option String
  deriving DecidableEq, Repr

def StreamChoice.toValue (c : StreamChoice) : Value :=
  .object [("index", .nat c.index), ("delta", c.delta.toValue),
    ("finish_reason", orNull (c.finishReason.map .string))]

def StreamChoice.ofValue : Value → Option StreamChoice
  | .object obj => do
    return {
      index := ← required "index" u32 obj
      delta := ← required "delta" Delta.ofValue obj
      finishReason := ← optional "finish_reason" string obj }
  | _ => none

structure OpenAIChatStreamChunk where
  id : String
  object : String
  created : Nat
  model : String
  choices : List StreamChoice
  usage : Option OpenAIUsage
  deriving DecidableEq, Repr

def OpenAIChatStreamChunk.toValue (c : OpenAIChatStreamChunk) : Value :=
  .object (field "id" (.string c.id) ++ field "object" (.string c.object) ++
    field "created" (.nat c.created) ++ field "model" (.string c.model) ++
    field "choices" (.array (c.choices.map StreamChoice.toValue)) ++
    fieldOpt "usage" (c.usage.map OpenAIUsage.toValue))

def OpenAIChatStreamChunk.ofValue : Value → Option OpenAIChatStreamChunk
  | .object obj => do
    return {
      id := ← required "id" string obj
      object := ← required "object" string obj
      created := ← required "created" u64 obj
      model := ← required "model" string obj
      choices := ← required "choices" (vec StreamChoice.ofValue) obj
      usage := ← optional "usage" OpenAIUsage.ofValue obj }
  | _ => none

end AnyConverter.OpenAIChat
