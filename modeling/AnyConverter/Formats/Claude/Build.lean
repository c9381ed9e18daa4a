import AnyConverter.Formats.Claude.Types

/-!
# The intermediate representation to Claude

`build` writes a request and `buildResponse` a reply, with the constraints of Claude's dialect:
`max_tokens` is mandatory, a run of messages of one role is one message, a lone text block is a
bare string, and only what Anthropic signed or sealed is replayed.
-/

set_option autoImplicit false

namespace AnyConverter.Claude

/-! ## Blocks -/

def textBlock (text : String) : Value :=
  .object [("text", .string text), ("type", .string "text")]

def imageSource (url mediaType : String) : Option String → Value
  | some data => .object [("data", .string data), ("media_type", .string mediaType),
    ("type", .string "base64")]
  | none => .object [("type", .string "url"), ("url", .string url)]

/-- Only Claude may replay its own signature. -/
def claudeSignature (signature : Option Signature) : Option String :=
  (signature.filter fun s => s.by_ == .claude).map Signature.value

def thinkingBlock (text : String) (signature : Option Signature) : Value :=
  let block := Value.object [("thinking", .string text), ("type", .string "thinking")]
  match claudeSignature signature with
  | some value => block.set "signature" (.string value)
  | none => block

theorem thinkingBlock_signed {signature : Option Signature} {value : String}
    (h : claudeSignature signature = some value) (text : String) :
    thinkingBlock text signature = .object [("signature", .string value),
      ("thinking", .string text), ("type", .string "thinking")] := by
  rw [thinkingBlock, h]
  rfl

mutual
def buildPart : IrPart → Option Value
  | .text text _ => some (textBlock text)
  | .image url mediaType data _ =>
    some (.object [("source", imageSource url mediaType data), ("type", .string "image")])
  | .toolCall id name args _ => some (.object [("id", .string id), ("input", args),
      ("name", .string name), ("type", .string "tool_use")])
  | .toolResult callId isError content =>
    some (.object [("content", textOrBlocks (.string "") content), ("is_error", .bool isError),
      ("tool_use_id", .string callId), ("type", .string "tool_result")])
  | .thinking text signature => some (thinkingBlock text signature)
  | .sealed .claude raw => some raw
  | .sealed _ _ => none
def buildParts : List IrPart → List Value
  | [] => []
  | part :: parts => (buildPart part).toList ++ buildParts parts
/-- A lone text block is a bare string; `empty` is what no blocks at all become. -/
def textOrBlocks (empty : Value) : List IrPart → Value
  | [] => empty
  | [.text text _] => .string text
  | part :: parts => .array ((buildPart part).toList ++ buildParts parts)
end

theorem buildParts_eq (parts : List IrPart) : buildParts parts = parts.filterMap buildPart := by
  induction parts with
  | nil => rfl
  | cons part parts ih =>
    rw [buildParts, ih, List.filterMap_cons]
    cases buildPart part <;> rfl

/-! ## Requests -/

/-- A run of messages of one role is one message, with the parts of all. -/
def mergeSameRole (messages : List IrMessage) : List IrMessage :=
  messages.foldl (fun out msg => extendLast msg out) []

def roleName : Role → String
  | .user => "user"
  | .assistant => "assistant"

/-- A user message with no blocks is an empty string, an assistant one an empty list. -/
def emptyContent : Role → Value
  | .user => .string ""
  | .assistant => .array []

def buildMessage (msg : IrMessage) : ClaudeMessage where
  role := roleName msg.role
  content := textOrBlocks (emptyContent msg.role) msg.parts

def systemText : IrPart → Option String
  | .text text _ => some text
  | _ => none

def buildSystem (parts : List IrPart) : Option Value :=
  match parts.filterMap systemText with
  | [] => none
  | [text] => some (.string text)
  | texts => some (.array (texts.map textBlock))

def buildToolChoice (choice : Option IrToolChoice) : Option Value :=
  choice.map fun
    | .auto => .object [("type", .string "auto")]
    | .none => .object [("type", .string "none")]
    | .required => .object [("type", .string "any")]
    | .named name => .object [("name", .string name), ("type", .string "tool")]

def isThinking : IrPart → Bool
  | .thinking _ _ => true
  | _ => false

/-- A history that carries reasoning keeps thinking enabled. -/
def buildThinking (reasoning : Reasoning) (maxTokens : Nat) (messages : List IrMessage) :
    Option ThinkingConfig :=
  let thinking : Option ThinkingConfig := match reasoning with
    | .off => none
    | .budget budgetTokens => some ⟨"enabled", budgetTokens⟩
    | .effort effort => reasoningEffortToThinking (some effort) maxTokens
  thinking.or
    (if messages.any fun m => m.parts.any isThinking then some ⟨"enabled", max maxTokens 1024⟩
    else none)

def buildTool (tool : IrTool) : ClaudeTool where
  name := tool.name
  description := if tool.description = "" then none else some tool.description
  inputSchema := tool.schema

def build (ir : IrRequest) : ClaudeRequest :=
  let maxTokens := ir.sampling.maxTokens.getD defaultMaxTokens
  { model := ir.model
    maxTokens := maxTokens
    messages := (mergeSameRole ir.messages).map buildMessage
    system := buildSystem ir.system
    temperature := ir.sampling.temperature.map F32.clampUnit
    topP := ir.sampling.topP
    topK := ir.sampling.topK
    stopSequences := if ir.sampling.stop = [] then none else some ir.sampling.stop
    stream := if ir.stream then some true else none
    tools := if ir.tools.isEmpty then none else some (ir.tools.map buildTool)
    toolChoice := buildToolChoice ir.toolChoice
    metadata := (ir.extra.take .claude).lookup "metadata"
    thinking := buildThinking ir.reasoning maxTokens ir.messages }

/-! ## Replies -/

/-- Empty text and thinking are dropped, as is what has no block of its own. -/
def buildResponseBlock : IrPart → Option ClaudeContentBlock
  | .text text none => if text = "" then none else some (.text text)
  | .thinking text signature =>
    if text = "" then none else some (.thinking text (claudeSignature signature))
  | .toolCall id name args _ => some (.toolUse id name args)
  | _ => none

def buildUsage (usage : Usage) : ClaudeUsage where
  inputTokens := usage.inputTokens
  outputTokens := usage.outputTokens
  cacheCreationInputTokens := usage.cacheWriteTokens
  cacheCreation := none
  cacheReadInputTokens := usage.cacheReadTokens

def buildResponse (w : World) (ir : IrResponse) : ClaudeResponse × World :=
  let id := normalizeIdToClaude w (ir.id.getD "")
  ({ id := id.1
     type := "message"
     role := "assistant"
     model := ir.model
     content := ir.parts.filterMap buildResponseBlock
     stopReason := some ir.stopReason.toClaude
     stopSequence := ir.stopSequence
     usage := buildUsage ir.usage }, id.2)

end AnyConverter.Claude
