import AnyConverter.Formats.Claude.Types

/-!
# Claude to the intermediate representation

`read` reads a request and `readResponse` a reply.  Neither fails: what has no place in the
intermediate representation is dropped.
-/

set_option autoImplicit false

namespace AnyConverter.Claude

/-! ## Blocks -/

/-- A text field, empty when it is not there. -/
def textField (obj : List (String × Value)) (key : String) : String :=
  ((obj.lookup key).bind Value.asStr).getD ""

def readImage (obj : List (String × Value)) : Option IrPart :=
  match imageBlockToUrl obj, (obj.lookup "source").bind Value.asObject with
  | .ok url, some source =>
    let base64 := typeOf source = some "base64"
    some (.image url (if base64 then textField source "media_type" else "")
      (if base64 then some (textField source "data") else none) none)
  | _, _ => none

/-- Anthropic signed it; only Claude's builder may replay it. -/
def readSignature (obj : List (String × Value)) : Option Signature :=
  (takeOptString obj "signature").map fun value => ⟨.claude, value⟩

/-- A content block, with the parts under its `content` field. -/
def readObject (obj : List (String × Value)) (content : List IrPart) : Option IrPart :=
  match typeOf obj with
  | none => none
  | some blockType =>
    if blockType = "text" then some (.plain (takeString obj "text"))
    else if blockType = "image" then readImage obj
    else if blockType = "tool_use" then
      some (.toolCall (takeString obj "id") (takeString obj "name")
        ((obj.lookup "input").getD (.object [])) none)
    else if blockType = "tool_result" then
      some (.toolResult (takeString obj "tool_use_id")
        (((obj.lookup "is_error").bind Value.asBool).getD false) content)
    else if blockType = "thinking" then
      some (.thinking (takeString obj "thinking") (readSignature obj))
    else if blockType = "redacted_thinking" then some (.sealed .claude (.object obj))
    else none

mutual
/-- The content of a message or of a tool result: a text or a list of blocks. -/
def readParts : Value → List IrPart
  | .string text => [.plain text]
  | .array blocks => readBlocks blocks
  | _ => []
def readBlocks : List Value → List IrPart
  | [] => []
  | block :: blocks => (readBlock block).toList ++ readBlocks blocks
def readBlock : Value → Option IrPart
  | .object obj => readObject obj (readContent obj)
  | _ => none
/-- The parts under the `content` field. -/
def readContent : List (String × Value) → List IrPart
  | [] => []
  | (key, v) :: rest => if key = "content" then readParts v else readContent rest
end

theorem readBlocks_eq (blocks : List Value) : readBlocks blocks = blocks.filterMap readBlock := by
  induction blocks with
  | nil => rfl
  | cons block blocks ih =>
    rw [readBlocks, ih, List.filterMap_cons]
    cases readBlock block <;> rfl

theorem readContent_eq (obj : List (String × Value)) :
    readContent obj = readParts ((obj.lookup "content").getD .null) := by
  induction obj with
  | nil => rfl
  | cons field rest ih =>
    obtain ⟨key, v⟩ := field
    rw [readContent, List.lookup_cons]
    by_cases hkey : key = "content"
    · simp [hkey]
    · have hne : ("content" == key) = false := by simpa using Ne.symm hkey
      rw [if_neg hkey, ih, hne]

/-! ## Requests -/

/-- A system prompt is a text or a list of text blocks. -/
def readSystem : Option Value → List IrPart
  | some (.string text) => [.plain text]
  | some (.array items) => items.filterMap fun item =>
    (item.asObject.bind (takeOptString · "text")).map .plain
  | _ => []

def readRole (role : String) : Option Role :=
  if role = "user" then some .user else if role = "assistant" then some .assistant else none

/-- A message of a role no format models is dropped. -/
def readMessage (msg : ClaudeMessage) : Option IrMessage :=
  (readRole msg.role).map fun role => ⟨role, readParts msg.content⟩

def readTool (tool : ClaudeTool) : IrTool where
  name := tool.name
  description := tool.description.getD ""
  schema := tool.inputSchema
  strict := none

def readToolChoice (value : Option Value) : Option IrToolChoice :=
  value.map fun value =>
    match (value.get "type").bind Value.asStr with
    | some type =>
      if type = "none" then .none
      else if type = "any" then .required
      else if type = "tool" then
        match (value.get "name").bind Value.asStr with
        | some name => .named name
        | none => .auto
      else .auto
    | none => .auto

def readReasoning : Option ThinkingConfig → Reasoning
  | some cfg => if cfg.type = "enabled" then .budget cfg.budgetTokens else .off
  | none => .off

def read (req : ClaudeRequest) : IrRequest where
  model := req.model
  system := readSystem req.system
  messages := req.messages.filterMap readMessage
  tools := (req.tools.getD []).map readTool
  toolChoice := readToolChoice req.toolChoice
  sampling := {
    maxTokens := some req.maxTokens, temperature := req.temperature, topP := req.topP
    topK := req.topK, stop := req.stopSequences.getD [] }
  stream := req.stream.getD false
  reasoning := readReasoning req.thinking
  extra := ({} : NamespacedExtra).putOption .claude "metadata" req.metadata

/-! ## Replies -/

/-- A sealed block as Anthropic wrote it. -/
def redactedRaw (data : String) : Value :=
  .object [("data", .string data), ("type", .string "redacted_thinking")]

def readResponseBlock : ClaudeContentBlock → IrPart
  | .text text => .plain text
  | .toolUse id name input => .toolCall id name input none
  | .thinking thinking signature => .thinking thinking (signature.map fun value => ⟨.claude, value⟩)
  | .redactedThinking data => .sealed .claude (redactedRaw data)

def readUsage (usage : ClaudeUsage) : Usage where
  inputTokens := usage.inputTokens
  outputTokens := usage.outputTokens
  cacheReadTokens := usage.cacheReadInputTokens
  cacheWriteTokens := usage.cacheCreationInputTokens
  cacheWrite1h := usage.cacheCreation.bind ClaudeCacheCreation.ephemeral1hInputTokens

def readResponse (resp : ClaudeResponse) : IrResponse where
  id := some resp.id
  model := resp.model
  parts := resp.content.map readResponseBlock
  stopReason := StopReason.fromClaude (resp.stopReason.getD "")
  stopSequence := resp.stopSequence
  usage := readUsage resp.usage

end AnyConverter.Claude
