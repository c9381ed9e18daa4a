import AnyConverter.Formats.OpenAIChat.Types

/-!
# The intermediate representation to OpenAI Chat

`build` writes a request and `buildResponse` a reply.  Chat carries text, images, calls and one
piece of reasoning per message; signatures and sealed reasoning have no field.
-/

set_option autoImplicit false

namespace AnyConverter.OpenAIChat

/-! ## Messages -/

def irText : IrPart → Option String
  | .text text _ => some text
  | _ => none

def textOf (parts : List IrPart) : String := String.join (parts.filterMap irText)

def isImage : IrPart → Bool
  | .image _ _ _ _ => true
  | _ => false

def imageUrl (url mediaType : String) (data detail : Option String) : ImageUrlDetail where
  url := match data with
    | some data => "data:" ++ mediaType ++ ";base64," ++ data
    | none => url
  detail := detail

def contentItem : IrPart → Option ContentPart
  | .text text _ => some (.text text)
  | .image url mediaType data detail => some (.imageUrl (imageUrl url mediaType data detail))
  | _ => none

/-- An image anywhere forces the parts form; otherwise the texts are put together. -/
def messageContent (parts : List IrPart) : Option MessageContent :=
  if parts.any isImage then
    match parts.filterMap contentItem with
    | [] => none
    | items => some (.parts items)
  else if textOf parts = "" then none
  else some (.text (textOf parts))

def message (role : String) (content : Option MessageContent) : OpenAIChatMessage where
  role := role
  content := content
  name := none
  toolCalls := none
  toolCallId := none
  reasoningContent := none

def isToolResult : IrPart → Bool
  | .toolResult _ _ _ => true
  | _ => false

/-- A tool result is a message of its own. -/
def toolMessage : IrPart → Option OpenAIChatMessage
  | .toolResult callId _ inner =>
    let text := textOf inner
    some { message "tool" (if text = "" then none else some (.text text)) with
      toolCallId := some callId }
  | _ => none

/-- What a user said goes out as one message, the tool results behind it. -/
def userMessages (parts : List IrPart) : List OpenAIChatMessage :=
  ((messageContent (parts.filter fun p => !isToolResult p)).map fun content =>
    message "user" (some content)).toList ++ parts.filterMap toolMessage

def toolCallOf (codec : JsonCodec) : IrPart → Option ToolCall
  | .toolCall id name args _ => some ⟨id, "function", ⟨name, codec.toText args⟩⟩
  | _ => none

def isContent : IrPart → Bool
  | .text _ _ => true
  | .image _ _ _ _ => true
  | _ => false

def thinkingText : IrPart → Option String
  | .thinking text _ => some text
  | _ => none

/-- The last thinking block wins; an empty one is not written. -/
def lastThinking (parts : List IrPart) : Option String :=
  (parts.filterMap thinkingText).getLast?.filter (· ≠ "")

def toolCallsOf (codec : JsonCodec) (parts : List IrPart) : Option (List ToolCall) :=
  match parts.filterMap (toolCallOf codec) with
  | [] => none
  | toolCalls => some toolCalls

def assistantMessage (codec : JsonCodec) (parts : List IrPart) : OpenAIChatMessage :=
  { message "assistant" (messageContent (parts.filter isContent)) with
    toolCalls := toolCallsOf codec parts
    reasoningContent := lastThinking parts }

def messagesOf (codec : JsonCodec) (msg : IrMessage) : List OpenAIChatMessage :=
  match msg.role with
  | .assistant => [assistantMessage codec msg.parts]
  | .user => userMessages msg.parts

/-! ## Requests -/

def toolWire (tool : IrTool) : OpenAIChatTool where
  type := "function"
  function := {
    name := tool.name
    description := if tool.description = "" then none else some tool.description
    parameters := some tool.schema
    strict := tool.strict }

def toolChoiceValue (choice : Option IrToolChoice) : Option Value :=
  choice.map fun
    | .auto => .string "auto"
    | .none => .string "none"
    | .required => .string "required"
    | .named name => .object [("function", .object [("name", .string name)]),
        ("type", .string "function")]

def stopValue : List String → Option StopValue
  | [] => none
  | [s] => some (.single s)
  | ss => some (.multiple ss)

/-- The budget of a Claude request stands for an effort. -/
def reasoningEffort : Reasoning → Option String
  | .effort effort => some effort
  | .budget budget => thinkingToReasoningEffort ⟨"enabled", budget⟩
  | .off => none

/-- The last entry of a name. -/
def lastOf (fields : List (String × Value)) (name : String) : Option Value :=
  fields.reverse.lookup name

def build (codec : JsonCodec) (ir : IrRequest) : OpenAIChatRequest :=
  let fields := ir.extra.take .openAIChat
  { model := ir.model
    messages := ir.system.filterMap irText |>.map (fun t => message "system" (some (.text t)))
      |>.append (ir.messages.flatMap (messagesOf codec))
    temperature := ir.sampling.temperature
    topP := ir.sampling.topP
    maxCompletionTokens := ir.sampling.maxTokens
    maxTokens := none
    stop := stopValue ir.sampling.stop
    seed := (lastOf fields "seed").bind Value.asI64
    stream := if ir.stream then some true else none
    streamOptions := (lastOf fields "stream_options").bind StreamOptions.ofValue
    tools := if ir.tools.isEmpty then none else some (ir.tools.map toolWire)
    toolChoice := toolChoiceValue ir.toolChoice
    responseFormat := lastOf fields "response_format"
    n := ((lastOf fields "n").bind Value.asU64).map (· % 2 ^ 32)
    reasoningEffort := reasoningEffort ir.reasoning
    reasoning := none }

/-! ## Replies -/

def joinTexts : List String → Option String
  | [] => none
  | texts => some (String.join texts)

def buildChoiceMessage (codec : JsonCodec) (parts : List IrPart) : ChoiceMessage where
  role := "assistant"
  content := joinTexts ((parts.filterMap irText).filter (· ≠ ""))
  toolCalls := toolCallsOf codec parts
  refusal := none
  reasoningContent := lastThinking parts

def buildUsage (usage : Usage) : OpenAIUsage where
  promptTokens := usage.inputTokens
  completionTokens := usage.outputTokens
  totalTokens := usage.totalTokens
  promptTokensDetails := usage.cacheReadTokens.map fun cached => ⟨some cached⟩

def buildResponse (codec : JsonCodec) (w : World) (ir : IrResponse) :
    OpenAIChatResponse × World :=
  let id := normalizeIdToChat w (ir.id.getD "")
  let created := id.2.nowUnixSecs
  ({ id := id.1
     object := "chat.completion"
     created := created.1
     model := ir.model
     choices := [{
       index := 0, message := buildChoiceMessage codec ir.parts
       finishReason := some ir.stopReason.toOpenAIChat }]
     usage := some (buildUsage ir.usage)
     systemFingerprint := none }, created.2)

end AnyConverter.OpenAIChat
