import AnyConverter.Lib.Transducer
import AnyConverter.Formats.Gemini.Types

/-!
# Gemini to the intermediate representation

`read` reads a request and `readResponse` a reply.  Gemini's ids are optional: a call or a response
without one draws a fresh identifier.
-/

set_option autoImplicit false

namespace AnyConverter.Gemini

open Transducer

/-! ## Parts -/

/-- Gemini's own signature on the part it signed. -/
def partSignature (part : GeminiPart) : Option Signature :=
  part.thoughtSignature.map fun value => ⟨.gemini, value⟩

/-- The text of a part, as thinking where it is a thought. -/
def textPart (part : GeminiPart) : List IrPart :=
  match part.text with
  | some text =>
    if text = "" then []
    else if part.thought = some true then [.thinking text (partSignature part)]
    else [.text text (partSignature part)]
  | none => []

/-- The id that was given, or a fresh one. -/
def idOrNew (w : World) : Option String → String × World
  | some id => (id, w)
  | none => w.newUuid

/-- The call of a part. -/
def readFunctionCall (w : World) (part : GeminiPart) : List IrPart × World :=
  match part.functionCall with
  | some fc =>
    let id := idOrNew w fc.id
    ([.toolCall id.1 fc.name fc.args (partSignature part)], id.2)
  | none => ([], w)

def isErrorResponse (response : Value) : Bool :=
  (response.get "error").any fun e => !e.isNull

def readFunctionResponse (codec : JsonCodec) (w : World) (fr : GeminiFunctionResponse) :
    IrPart × World :=
  let id := idOrNew w fr.id
  (.toolResult id.1 (isErrorResponse fr.response)
    [.plain (extractFunctionResponseText codec fr.response)], id.2)

def inlineImage (inline : GeminiInlineData) : IrPart :=
  .image ("data:" ++ inline.mimeType ++ ";base64," ++ inline.data) inline.mimeType
    (some inline.data) none

/-- A part of a message.  A response stands alone, and only a user gives one. -/
def readPart (codec : JsonCodec) (role : Role) : Step World GeminiPart IrPart := fun w part =>
  match part.functionResponse with
  | some fr =>
    match role with
    | .user =>
      let r := readFunctionResponse codec w fr
      ([r.1], r.2)
    | .assistant => ([], w)
  | none =>
    match role with
    | .assistant =>
      let call := readFunctionCall w part
      (textPart part ++ call.1, call.2)
    | .user => (textPart part ++ (part.inlineData.map inlineImage).toList, w)

def isToolResult : IrPart → Bool
  | .toolResult _ _ _ => true
  | _ => false

/-- Tool results go above the message's own content. -/
def hoistResults (parts : List IrPart) : List IrPart :=
  parts.filter isToolResult ++ parts.filter fun p => !isToolResult p

def readRole (role : Option String) : Role := if role = some "model" then .assistant else .user

/-- A message; one without parts is dropped. -/
def readMessage (codec : JsonCodec) : Step World GeminiContent IrMessage := fun w content =>
  let role := readRole content.role
  let parts := run (readPart codec role) w content.parts
  (if parts.1 = [] then [] else [⟨role, hoistResults parts.1⟩], parts.2)

/-! ## Requests -/

def readSystem (content : GeminiContent) : List IrPart :=
  let text := String.join (content.parts.filterMap GeminiPart.text)
  if text = "" then [] else [.plain text]

def readTool (fd : GeminiFunctionDeclaration) : IrTool where
  name := fd.name
  description := fd.description.getD ""
  schema := fd.parameters.getD (.object [("type", .string "object")])
  strict := none

def allowedNames (config : Value) : List String :=
  (((config.get "allowedFunctionNames").bind Value.asArray).getD []).filterMap Value.asStr

/-- One allowed name is a choice of it. -/
def readToolChoice (config : Value) : IrToolChoice :=
  match config.get "functionCallingConfig" with
  | none => .auto
  | some fcc =>
    match allowedNames fcc with
    | [name] => .named name
    | _ =>
      let mode := (fcc.get "mode").bind Value.asStr
      if mode = some "NONE" then .none else if mode = some "ANY" then .required else .auto

def readSampling (g : GeminiGenerationConfig) : Sampling where
  maxTokens := g.maxOutputTokens
  temperature := g.temperature
  topP := g.topP
  topK := g.topK
  stop := g.stopSequences.getD []

def readExtra (g : GeminiGenerationConfig) : NamespacedExtra :=
  let bag : NamespacedExtra := {}
  let bag := bag.putOption .gemini "seed" (g.seed.map fun i => .number (.int i))
  let bag := bag.putOption .gemini "responseMimeType" (g.responseMimeType.map .string)
  bag.putOption .gemini "responseSchema" g.responseSchema

def read (codec : JsonCodec) (w : World) (req : GeminiRequest) : IrRequest × World :=
  let messages := run (readMessage codec) w req.contents
  ({ model := req.model.getD ""
     system := (req.systemInstruction.map readSystem).getD []
     messages := messages.1
     tools := ((req.tools.getD []).flatMap (·.functionDeclarations)).map readTool
     toolChoice := req.toolConfig.map readToolChoice
     sampling := (req.generationConfig.map readSampling).getD {}
     stream := false
     reasoning := .off
     extra := (req.generationConfig.map readExtra).getD {} }, messages.2)

/-! ## Replies -/

def readResponsePart : Step World GeminiPart IrPart := fun w part =>
  let call := readFunctionCall w part
  (textPart part ++ call.1, call.2)

def readUsage (usage : GeminiUsageMetadata) : Usage where
  inputTokens := usage.promptTokenCount.getD 0
  outputTokens := usage.candidatesTokenCount.getD 0

/-- The first candidate is the reply. -/
def readResponse (w : World) (resp : GeminiResponse) : IrResponse × World :=
  let parts := run readResponsePart w ((resp.candidates.head?.map (·.content.parts)).getD [])
  ({ id := none
     model := resp.modelVersion.getD ""
     parts := parts.1
     stopReason := ((resp.candidates.head?.bind (·.finishReason)).map
       StopReason.fromGemini).getD .endTurn
     usage := (resp.usageMetadata.map readUsage).getD {} }, parts.2)

end AnyConverter.Gemini
