import AnyConverter.Formats.OpenAIResp.Types
import AnyConverter.Formats.OpenAIResp.Seal

/-!
# The intermediate representation to OpenAI Responses

`build` writes a request and `buildResponse` a reply.  Text is gathered into message items; a call,
a tool result or reasoning is an item of its own, and closes the message before it.
-/

set_option autoImplicit false

namespace AnyConverter.OpenAIResponses

/-! ## Requests -/

def irText : IrPart → Option String
  | .text text _ => some text
  | _ => none

def systemToInstructions (system : List IrPart) : Option String :=
  match system.filterMap irText with
  | [] => none
  | texts => some ("\n\n".intercalate texts)

def textPartType : Role → String
  | .user => "input_text"
  | .assistant => "output_text"

def roleName : Role → String
  | .user => "user"
  | .assistant => "assistant"

def textPart (role : Role) (text : String) : Value :=
  .object [("text", .string text), ("type", .string (textPartType role))]

def imagePart (url : String) (detail : Option String) : Value :=
  let part := Value.object [("image_url", .string url), ("type", .string "input_image")]
  match detail with
  | some detail => part.set "detail" (.string detail)
  | none => part

theorem imagePart_some (url detail : String) :
    imagePart url (some detail) = .object [("detail", .string detail), ("image_url", .string url),
      ("type", .string "input_image")] := rfl

def messageItem (role : Role) (content : List Value) : Value :=
  .object [("content", .array content), ("role", .string (roleName role)),
    ("type", .string "message")]

def functionCallItem (codec : JsonCodec) (id name : String) (args : Value) : Value :=
  .object [("arguments", .string (codec.toText args)), ("call_id", .string id),
    ("name", .string name), ("type", .string "function_call")]

def partsToText (parts : List IrPart) : String := String.join (parts.filterMap irText)

def functionCallOutputItem (callId : String) (result : List IrPart) : Value :=
  .object [("call_id", .string callId), ("output", .string (partsToText result)),
    ("type", .string "function_call_output")]

/-- The gathered content, as a message item. -/
def flushInput (role : Role) (content : List Value) : List Value :=
  if content = [] then [] else [messageItem role content]

/-- The items of a message; `content` is what was gathered so far. -/
def inputItems (codec : JsonCodec) (role : Role) (content : List Value) : List IrPart → List Value
  | [] => flushInput role content
  | .text text _ :: parts => inputItems codec role (content ++ [textPart role text]) parts
  | .image url _ _ detail :: parts => inputItems codec role (content ++ [imagePart url detail]) parts
  | .toolCall id name args _ :: parts =>
    flushInput role content ++ functionCallItem codec id name args :: inputItems codec role [] parts
  | .toolResult callId _ result :: parts =>
    flushInput role content ++
      functionCallOutputItem callId result :: inputItems codec role [] parts
  | .thinking _ _ :: parts => inputItems codec role content parts
  | .sealed _ _ :: parts => inputItems codec role content parts

def messagesToInput (codec : JsonCodec) (messages : List IrMessage) : Option Value :=
  match messages.flatMap fun m => inputItems codec m.role [] m.parts with
  | [] => none
  | items => some (.array items)

/-- Responses is strict where nothing is said. -/
def toolToValue (tool : IrTool) : Value :=
  let value := Value.object [("name", .string tool.name), ("parameters", tool.schema),
    ("strict", .bool (tool.strict.getD true)), ("type", .string "function")]
  if tool.description = "" then value else value.set "description" (.string tool.description)

theorem toolToValue_described {tool : IrTool} (h : tool.description ≠ "") :
    toolToValue tool = .object [("description", .string tool.description),
      ("name", .string tool.name), ("parameters", tool.schema),
      ("strict", .bool (tool.strict.getD true)), ("type", .string "function")] := by
  rw [toolToValue, if_neg h]
  rfl

def toolChoiceToValue : IrToolChoice → Value
  | .auto => .string "auto"
  | .none => .string "none"
  | .required => .string "required"
  | .named name => .object [("name", .string name), ("type", .string "function")]

def reasoningToValue : Reasoning → Option Value
  | .off => none
  | .effort effort => some (.object [("effort", .string effort)])
  | .budget budget => thinkingToReasoningJson ⟨"enabled", budget⟩

/-- The last entry of a name. -/
def lastOf (fields : List (String × Value)) (name : String) : Option Value :=
  fields.reverse.lookup name

/-- The entries that have a field of their own. -/
def ownFields : List String := ["text", "previous_response_id", "store", "reasoning"]

def restOf (fields : List (String × Value)) : List (String × Value) :=
  (fields.filter fun f => f.1 ∉ ownFields).foldl (fun rest f => Value.insertField f.1 f.2 rest) []

def build (codec : JsonCodec) (ir : IrRequest) : OpenAIResponsesRequest :=
  let fields := ir.extra.take .openAIResponses
  { model := ir.model
    input := messagesToInput codec ir.messages
    instructions := systemToInstructions ir.system
    maxOutputTokens := ir.sampling.maxTokens
    temperature := ir.sampling.temperature
    topP := ir.sampling.topP
    stream := if ir.stream then some true else none
    tools := if ir.tools.isEmpty then none else some (ir.tools.map toolToValue)
    toolChoice := ir.toolChoice.map toolChoiceToValue
    text := lastOf fields "text"
    reasoning := (lastOf fields "reasoning").or (reasoningToValue ir.reasoning)
    previousResponseId := (lastOf fields "previous_response_id").bind Value.asStr
    store := (lastOf fields "store").bind Value.asBool
    extra := restOf fields }

/-! ## Replies -/

/-- Only Claude's own signature may be sealed. -/
def claudeSignature (signature : Option Signature) : Option String :=
  (signature.filter fun s => s.by_ == .claude).map Signature.value

def reasoningItem (codec : JsonCodec) (uuid text : String) (signature : Option String) : Value :=
  let item := Value.object [("id", .string ("rs_" ++ uuid)),
    ("summary", .array [.object [("text", .string text), ("type", .string "summary_text")]]),
    ("type", .string "reasoning")]
  match signature with
  | some value => item.set "encrypted_content" (.string (sealThinking codec text value))
  | none => item

/-- A block that was sealed whole has no summary. -/
def sealedReasoningItem (codec : JsonCodec) (uuid : String) (raw : Value) : Value :=
  .object [("encrypted_content", .string (sealBlock codec raw)), ("id", .string ("rs_" ++ uuid)),
    ("summary", .array []), ("type", .string "reasoning")]

/-- The gathered text, as a message item. -/
def flushText (content : List Value) : List Value :=
  if content = [] then [] else [messageItem .assistant content]

/-- The output items of a reply; `content` is the text gathered so far. -/
def outputItems (codec : JsonCodec) (w : World) (content : List Value) :
    List IrPart → List Value × World
  | [] => (flushText content, w)
  | .text text _ :: parts => outputItems codec w (content ++ [textPart .assistant text]) parts
  | .toolCall id name args _ :: parts =>
    let rest := outputItems codec w [] parts
    (flushText content ++ functionCallItem codec id name args :: rest.1, rest.2)
  | .thinking text signature :: parts =>
    let rest := outputItems codec w.newUuid.2 [] parts
    (flushText content ++
      reasoningItem codec w.newUuid.1 text (claudeSignature signature) :: rest.1, rest.2)
  | .sealed .claude raw :: parts =>
    let rest := outputItems codec w.newUuid.2 [] parts
    (flushText content ++ sealedReasoningItem codec w.newUuid.1 raw :: rest.1, rest.2)
  | _ :: parts => outputItems codec w content parts

def buildStatus (stopReason : StopReason) : String :=
  if stopReason = .maxTokens then "incomplete" else "completed"

def buildUsage (usage : Usage) : ResponsesUsage where
  inputTokens := usage.inputTokens
  outputTokens := usage.outputTokens
  totalTokens := some (usage.inputTokens + usage.outputTokens)
  inputTokensDetails := usage.cacheReadTokens.map fun cached => ⟨some cached⟩

def buildResponse (codec : JsonCodec) (w : World) (ir : IrResponse) :
    OpenAIResponsesResponse × World :=
  let output := outputItems codec w [] ir.parts
  let id := normalizeIdToResp output.2 (ir.id.getD "")
  let createdAt := id.2.nowUnixSecs
  ({ id := id.1
     object := "response"
     createdAt := createdAt.1
     model := ir.model
     status := buildStatus ir.stopReason
     output := output.1
     usage := some (buildUsage ir.usage) }, createdAt.2)

end AnyConverter.OpenAIResponses
