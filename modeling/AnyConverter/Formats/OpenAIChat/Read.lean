import AnyConverter.Formats.OpenAIChat.Types

/-!
# OpenAI Chat to the intermediate representation

`read` reads a request and `readResponse` a reply.  Neither fails: an unknown role is a user turn,
arguments that do not read are an empty object.
-/

set_option autoImplicit false

namespace AnyConverter.OpenAIChat

/-! ## Messages -/

/-- The texts of a content, put together; none when it holds none. -/
def messageContentAsText : Option MessageContent → Option String
  | none => none
  | some (.text t) => some t
  | some (.parts parts) =>
    match parts.filterMap fun
      | .text t => some t
      | .imageUrl _ => none with
    | [] => none
    | texts => some (String.join texts)

/-- A `data:` URL is split so that its payload is stored once. -/
def imagePart (d : ImageUrlDetail) : IrPart :=
  match (Text.stripPrefix "data:" d.url).bind (Text.splitOnce ";base64,") with
  | some (mediaType, data) => .image "" mediaType (some data) d.detail
  | none => .image d.url "" none d.detail

def contentPart : ContentPart → IrPart
  | .text t => .plain t
  | .imageUrl d => imagePart d

def userParts : Option MessageContent → List IrPart
  | none => []
  | some (.text t) => [.plain t]
  | some (.parts parts) => parts.map contentPart

/-- A text that is there. -/
def plainIfAny (text : Option String) : List IrPart :=
  ((text.filter (· ≠ "")).map .plain).toList

/-- Thinking that is there. -/
def thinkingIfAny (text : Option String) : List IrPart :=
  ((text.filter (· ≠ "")).map fun t => .thinking t none).toList

def readToolCall (codec : JsonCodec) (tc : ToolCall) : IrPart :=
  .toolCall tc.id tc.function.name (parseArguments codec tc.function.arguments) none

def readToolCalls (codec : JsonCodec) (toolCalls : Option (List ToolCall)) : List IrPart :=
  (toolCalls.getD []).map (readToolCall codec)

/-- Reasoning comes first, then the content, then the calls. -/
def assistantParts (codec : JsonCodec) (content : Option MessageContent)
    (toolCalls : Option (List ToolCall)) (reasoningContent : Option String) : List IrPart :=
  let said := match content with
    | none => []
    | some (.text t) => plainIfAny (some t)
    | some (.parts items) => items.filterMap fun item =>
      if item = .text "" then none else some (contentPart item)
  thinkingIfAny reasoningContent ++ said ++ readToolCalls codec toolCalls

def toolResultContent (content : Option MessageContent) : List IrPart :=
  plainIfAny (messageContentAsText content)

/-- A system prompt a message holds. -/
def systemPart (msg : OpenAIChatMessage) : Option IrPart :=
  if msg.role = "system" ∨ msg.role = "developer" then
    (messageContentAsText msg.content).map .plain
  else none

/-- The turn a message holds. -/
def turn (codec : JsonCodec) (msg : OpenAIChatMessage) : Option IrMessage :=
  if msg.role = "system" ∨ msg.role = "developer" then none
  else if msg.role = "assistant" then
    some ⟨.assistant, assistantParts codec msg.content msg.toolCalls msg.reasoningContent⟩
  else if msg.role = "tool" then
    some ⟨.user, [.toolResult (msg.toolCallId.getD "") false (toolResultContent msg.content)]⟩
  else some ⟨.user, userParts msg.content⟩

/-! ## Requests -/

def readTool (tool : OpenAIChatTool) : IrTool where
  name := tool.function.name
  description := tool.function.description.getD ""
  schema := tool.function.parameters.getD (.object [("type", .string "object")])
  strict := tool.function.strict

def functionName (obj : List (String × Value)) : Option String :=
  if typeOf obj = some "function" then
    ((obj.lookup "function").bind fun f => f.get "name").bind Value.asStr
  else none

def readToolChoice (choice : Option Value) : Option IrToolChoice :=
  choice.map fun
    | .string s => if s = "none" then .none else if s = "required" then .required else .auto
    | .object obj =>
      match functionName obj with
      | some name => .named name
      | none => .auto
    | _ => .auto

def stopValues : StopValue → List String
  | .single s => [s]
  | .multiple ss => ss

def readExtra (req : OpenAIChatRequest) : NamespacedExtra :=
  let bag : NamespacedExtra := {}
  let bag := bag.putOption .openAIChat "seed" (req.seed.map fun i => .number (.int i))
  let bag := bag.putOption .openAIChat "response_format" req.responseFormat
  let bag := bag.putOption .openAIChat "n" (req.n.map .nat)
  bag.putOption .openAIChat "stream_options" (req.streamOptions.map StreamOptions.toValue)

def read (codec : JsonCodec) (req : OpenAIChatRequest) : IrRequest where
  model := req.model
  system := req.messages.filterMap systemPart
  messages := req.messages.filterMap (turn codec)
  tools := (req.tools.getD []).map readTool
  toolChoice := readToolChoice req.toolChoice
  sampling := {
    maxTokens := req.maxCompletionTokens.or req.maxTokens, temperature := req.temperature
    topP := req.topP, topK := none, stop := (req.stop.map stopValues).getD [] }
  stream := req.stream.getD false
  reasoning :=
    match req.reasoningEffort.or (req.reasoning.map ReasoningConfig.effort) with
    | some effort => .effort effort
    | none => .off
  extra := readExtra req

/-! ## Replies -/

/-- Chat's prompt count includes the cached tokens. -/
def readUsage (usage : OpenAIUsage) : Usage where
  inputTokens := usage.promptTokens
  outputTokens := usage.completionTokens
  cacheReadTokens := usage.promptTokensDetails.bind PromptTokensDetails.cachedTokens

def choiceParts (codec : JsonCodec) (message : ChoiceMessage) : List IrPart :=
  plainIfAny message.content ++ thinkingIfAny message.reasoningContent ++
    readToolCalls codec message.toolCalls

/-- The first choice is the reply. -/
def readResponse (codec : JsonCodec) (resp : OpenAIChatResponse) : IrResponse :=
  let ir : IrResponse := {
    id := if resp.id = "" then none else some resp.id
    model := resp.model
    usage := (resp.usage.map readUsage).getD {} }
  match resp.choices with
  | [] => ir
  | choice :: _ => { ir with
      parts := choiceParts codec choice.message
      stopReason := (choice.finishReason.map StopReason.fromOpenAIChat).getD .endTurn }

end AnyConverter.OpenAIChat
