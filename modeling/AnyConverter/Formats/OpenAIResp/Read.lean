import AnyConverter.Formats.OpenAIResp.Types
import AnyConverter.Formats.OpenAIResp.Seal

/-!
# OpenAI Responses to the intermediate representation

`read` reads a request and `readResponse` a reply.  Adjacent items of one role are one message;
a reasoning item is Claude's block when its `encrypted_content` carries one.
-/

set_option autoImplicit false

namespace AnyConverter.OpenAIResponses

/-! ## Reasoning items -/

def summaryItemText (summary : Value) : Option String :=
  summary.asObject.bind fun obj =>
    if typeOf obj = some "summary_text" then some (takeString obj "text") else none

def takeReasoningText (item : List (String × Value)) : String :=
  match item.lookup "summary" with
  | some (.array items) => String.join (items.filterMap summaryItemText)
  | _ => ""

/-- The text under a key of a block. -/
def blockText (block : Value) (key : String) : String :=
  ((block.get key).bind Value.asStr).getD ""

/-- The reasoning a sealed block stands for: Claude's thinking, signed, or its sealed block. -/
def claudeSealedPart (codec : JsonCodec) (encrypted : String) : Option IrPart :=
  match openSeal codec encrypted with
  | none => none
  | some block =>
    match (block.get "type").bind Value.asStr with
    | some type =>
      if type = "thinking" ∧ blockText block "signature" ≠ "" then
        some (.thinking (blockText block "thinking") (some ⟨.claude, blockText block "signature"⟩))
      else if type = "redacted_thinking" ∧ blockText block "data" ≠ "" then
        some (.sealed .claude block)
      else none
    | none => none

/-- A sealed block that does not read keeps its summary; what Responses encrypted itself is carried
whole. -/
def readReasoningItem (codec : JsonCodec) (item : List (String × Value)) : IrPart :=
  let encrypted := ((item.lookup "encrypted_content").bind Value.asStr).getD ""
  let summary := IrPart.thinking (takeReasoningText item) none
  if encrypted = "" then summary
  else
    match claudeSealedPart codec encrypted with
    | some part => part
    | none => if isSealed encrypted then summary else .sealed .openAIResponses (.object item)

/-! ## Input items -/

inductive ItemKind where
  | message
  | functionCall
  | functionCallOutput
  | reasoning
  | other
  deriving DecidableEq

/-- An item that only carries a role is a message. -/
def inputItemKind (item : List (String × Value)) : ItemKind :=
  match typeOf item with
  | some type =>
    if type = "message" then .message
    else if type = "function_call" then .functionCall
    else if type = "function_call_output" then .functionCallOutput
    else if type = "reasoning" then .reasoning
    else .other
  | none => if (item.lookup "role").isSome then .message else .other

def isTextType (type : Option String) : Bool :=
  type == some "input_text" || type == some "output_text" || type == some "text"

/-- `image_url` is a text or an object with a `url`. -/
def takeImageUrl (part : List (String × Value)) : String :=
  match part.lookup "image_url" with
  | some (.string url) => url
  | some (.object image) => takeString image "url"
  | _ => ""

def imageFromUrl (url : String) (detail : Option String) : IrPart :=
  match parseDataUrl url with
  | some (mediaType, data) => .image url mediaType (some data) detail
  | none => .image url "" none detail

def partFromObject (part : List (String × Value)) : Option IrPart :=
  if isTextType (typeOf part) then some (.plain (takeString part "text"))
  else if typeOf part = some "input_image" then
    if takeImageUrl part = "" then none
    else some (imageFromUrl (takeImageUrl part) (takeOptString part "detail"))
  else none

def partFromValue (part : Value) : Option IrPart := part.asObject.bind partFromObject

def contentToParts : Value → List IrPart
  | .string text => [.plain text]
  | .array items => items.filterMap partFromValue
  | _ => []

def textFromValue (part : Value) : Option String :=
  part.asObject.bind fun obj =>
    if isTextType (typeOf obj) then some (takeString obj "text") else none

def takeMessageText (item : List (String × Value)) : String :=
  match item.lookup "content" with
  | some (.string text) => text
  | some (.array parts) => "\n".intercalate (parts.filterMap textFromValue)
  | _ => ""

/-- What an input item adds: a system prompt, parts of a turn, or nothing. -/
inductive ItemReading where
  | instruction (text : String)
  | parts (role : Role) (parts : List IrPart)
  | nothing

def readMessageItem (item : List (String × Value)) : ItemReading :=
  match (item.lookup "role").bind Value.asStr with
  | some role =>
    if role = "developer" ∨ role = "system" then
      if takeMessageText item = "" then .nothing else .instruction (takeMessageText item)
    else if role = "user" then .parts .user (((item.lookup "content").map contentToParts).getD [])
    else if role = "assistant" then
      .parts .assistant (((item.lookup "content").map contentToParts).getD [])
    else .nothing
  | none => .nothing

/-- A call without a name is skipped. -/
def readFunctionCall (codec : JsonCodec) (item : List (String × Value)) : Option IrPart :=
  if takeString item "name" = "" then none
  else some (.toolCall (takeString item "call_id") (takeString item "name")
    (parseArguments codec (takeString item "arguments")) none)

def readItem (codec : JsonCodec) (item : List (String × Value)) : ItemReading :=
  match inputItemKind item with
  | .message => readMessageItem item
  | .functionCall => .parts .assistant (readFunctionCall codec item).toList
  | .functionCallOutput => .parts .user
      [.toolResult (takeString item "call_id") false [.plain (takeString item "output")]]
  | .reasoning => .parts .assistant [readReasoningItem codec item]
  | .other => .nothing

/-- Adjacent parts of one role are one message. -/
def pushMessage (messages : List IrMessage) (role : Role) (parts : List IrPart) :
    List IrMessage :=
  if parts.isEmpty then messages else extendLast ⟨role, parts⟩ messages

/-- The system prompts and the messages read so far. -/
structure InputState where
  systemTexts : List String := []
  messages : List IrMessage := []

def readInputItem (codec : JsonCodec) (st : InputState) (item : Value) : InputState :=
  match item with
  | .object item =>
    match readItem codec item with
    | .instruction text => { st with systemTexts := st.systemTexts ++ [text] }
    | .parts role parts => { st with messages := pushMessage st.messages role parts }
    | .nothing => st
  | _ => st

def readInput (codec : JsonCodec) : Option Value → InputState
  | some (.string text) => { messages := pushMessage [] .user [.plain text] }
  | some (.array items) => items.foldl (readInputItem codec) {}
  | _ => {}

/-! ## Tools -/

def functionTool (tool : List (String × Value)) : Option IrTool :=
  if takeString tool "name" = "" then none
  else some {
    name := takeString tool "name"
    description := takeString tool "description"
    schema := (tool.lookup "parameters").getD (.object [("type", .string "object")])
    strict := (tool.lookup "strict").bind Value.asBool }

/-- The short names of a namespace's functions, and the functions under their full names. -/
structure Tools where
  tools : List IrTool := []
  nsNames : List (String × String) := []

def qualify (space shortName : String) : String :=
  if space = "" then shortName else space ++ "__" ++ shortName

def readChild (space : String) (nsDescription : Option String) (acc : Tools) (child : Value) :
    Tools :=
  match child.asObject with
  | none => acc
  | some child =>
    if typeOf child ≠ some "function" then acc
    else
      let shortName := ((child.lookup "name").bind Value.asStr).getD ""
      let name := qualify space shortName
      let nsNames := if space = "" then acc.nsNames else (shortName, name) :: acc.nsNames
      match functionTool child with
      | none => { acc with nsNames := nsNames }
      | some tool =>
        let description := if tool.description = "" then nsDescription.getD "" else tool.description
        { tools := acc.tools ++ [{ tool with name := name, description := description }]
          nsNames := nsNames }

def readTool (acc : Tools) (tool : Value) : Tools :=
  match tool.asObject with
  | none => acc
  | some tool =>
    if typeOf tool = some "function" then
      { acc with tools := acc.tools ++ (functionTool tool).toList }
    else if typeOf tool = some "namespace" then
      match tool.lookup "tools" with
      | some (.array children) => children.foldl
          (readChild (takeString tool "name") (takeOptString tool "description")) acc
      | _ => acc
    else acc

/-- The tools; a name that was given twice stands for its last namespace. -/
def readTools (tools : Option (List Value)) : Tools := (tools.getD []).foldl readTool {}

def chosenName (choice : List (String × Value)) : String :=
  match choice.lookup "name" with
  | some (.string name) => name
  | _ =>
    match choice.lookup "function" with
    | some (.object function) => takeString function "name"
    | _ => ""

def readToolChoice (toolChoice : Option Value) (nsNames : List (String × String)) :
    Option IrToolChoice :=
  toolChoice.map fun
    | .string choice =>
      if choice = "none" then .none else if choice = "required" then .required else .auto
    | .object choice =>
      if typeOf choice ≠ some "function" then .auto
      else .named ((nsNames.lookup (chosenName choice)).getD (chosenName choice))
    | _ => .auto

/-! ## Requests -/

def readExtra (req : OpenAIResponsesRequest) : NamespacedExtra :=
  let bag := req.extra.foldl (fun (bag : NamespacedExtra) f => bag.put .openAIResponses f.1 f.2) {}
  let bag := bag.putOption .openAIResponses "text" req.text
  let bag := bag.putOption .openAIResponses "reasoning" req.reasoning
  let bag := bag.putOption .openAIResponses "previous_response_id"
    (req.previousResponseId.map .string)
  bag.putOption .openAIResponses "store" (req.store.map .bool)

/-- The input's system prompts, then the instructions, as one part. -/
def systemParts (systemTexts : List String) : List IrPart :=
  if systemTexts = [] then [] else [.plain ("\n\n".intercalate systemTexts)]

def readEffort (reasoning : Option Value) : Reasoning :=
  match (reasoning.bind fun v => v.get "effort").bind Value.asStr with
  | some effort => .effort effort
  | none => .off

def read (codec : JsonCodec) (req : OpenAIResponsesRequest) : IrRequest :=
  let input := readInput codec req.input
  let tools := readTools req.tools
  { model := req.model
    system := systemParts (input.systemTexts ++ req.instructions.toList)
    messages := input.messages
    tools := tools.tools
    toolChoice := readToolChoice req.toolChoice tools.nsNames
    sampling := {
      maxTokens := req.maxOutputTokens, temperature := req.temperature, topP := req.topP }
    stream := req.stream.getD false
    reasoning := readEffort req.reasoning
    extra := readExtra req }

/-! ## Replies -/

def outputTextOf (part : Value) : Option IrPart :=
  part.asObject.bind fun obj =>
    if typeOf obj = some "output_text" ∧ takeString obj "text" ≠ "" then
      some (.plain (takeString obj "text"))
    else none

def readOutputObject (codec : JsonCodec) (item : List (String × Value)) : List IrPart :=
  match typeOf item with
  | some type =>
    if type = "message" then
      match item.lookup "content" with
      | some (.array content) => content.filterMap outputTextOf
      | _ => []
    else if type = "function_call" then (readFunctionCall codec item).toList
    else if type = "reasoning" then [.thinking (takeReasoningText item) none]
    else []
  | none => []

def readOutputItem (codec : JsonCodec) (item : Value) : List IrPart :=
  (item.asObject.map (readOutputObject codec)).getD []

def usageToIr (usage : ResponsesUsage) : Usage where
  inputTokens := usage.inputTokens
  outputTokens := usage.outputTokens
  cacheReadTokens := usage.inputTokensDetails.bind InputTokensDetails.cachedTokens

/-- Only the status is there to tell why a reply ended. -/
def readStatus (status : String) : StopReason :=
  if status = "incomplete" then .maxTokens else StopReason.fromOpenAIResp status

def readResponse (codec : JsonCodec) (w : World) (resp : OpenAIResponsesResponse) :
    IrResponse × World :=
  let id := if resp.id = "" then ("resp_" ++ w.newUuid.1, w.newUuid.2) else (resp.id, w)
  ({ id := some id.1
     model := resp.model
     parts := resp.output.flatMap (readOutputItem codec)
     stopReason := readStatus resp.status
     usage := (resp.usage.map usageToIr).getD {} }, id.2)

end AnyConverter.OpenAIResponses
