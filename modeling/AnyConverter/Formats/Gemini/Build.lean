import AnyConverter.Formats.Gemini.Types

/-!
# The intermediate representation to Gemini

`build` writes a request and `buildResponse` a reply.  Thinking nobody of Gemini signed is plain
text; a signed thought keeps its flag.
-/

set_option autoImplicit false

namespace AnyConverter.Gemini

/-! ## Parts -/

/-- Only the API that signed a part may replay it. -/
def geminiSignature (signature : Option Signature) : Option String :=
  (signature.filter fun s => s.by_ == .gemini).map Signature.value

def irText : IrPart → Option String
  | .text text _ => some text
  | _ => none

/-- An image Gemini cannot take inline is its URL. -/
def imagePart (url : String) : GeminiPart :=
  match parseDataUrl url with
  | some (mimeType, data) => .ofInlineData mimeType data
  | none => .ofText url

def thinkingPart (text : String) (signature : Option Signature) : GeminiPart :=
  match geminiSignature signature with
  | some sig => (GeminiPart.thinking text).withThoughtSignature (some sig)
  | none => .ofText text

def buildPart : IrPart → Option GeminiPart
  | .text text signature =>
    if text = "" then none
    else some ((GeminiPart.ofText text).withThoughtSignature (geminiSignature signature))
  | .image url _ _ _ => some (imagePart url)
  | .toolCall id name args signature => some
      ((GeminiPart.functionCallWithId name args id).withThoughtSignature
        (geminiSignature signature))
  | .toolResult callId _ content => some (.functionResponseWithId "function"
      (.object [("result", .string (String.join (content.filterMap irText)))]) callId)
  | .thinking text signature => if text = "" then none else some (thinkingPart text signature)
  | .sealed _ _ => none

/-! ## Requests -/

def roleName : Role → String
  | .user => "user"
  | .assistant => "model"

def buildMessage (msg : IrMessage) : GeminiContent where
  role := some (roleName msg.role)
  parts := msg.parts.filterMap buildPart

def systemPart (part : IrPart) : Option GeminiPart :=
  ((irText part).filter (· ≠ "")).map GeminiPart.ofText

def buildSystem (system : List IrPart) : Option GeminiContent :=
  match system.filterMap systemPart with
  | [] => none
  | parts => some { role := none, parts := parts }

/-- The last entry of a name. -/
def lastOf (fields : List (String × Value)) (name : String) : Option Value :=
  fields.reverse.lookup name

def emptyConfig : GeminiGenerationConfig where
  temperature := none
  topP := none
  topK := none
  maxOutputTokens := none
  stopSequences := none
  seed := none
  responseMimeType := none
  responseSchema := none

/-- A configuration that says nothing is left out. -/
def buildGenerationConfig (sampling : Sampling) (extra : List (String × Value)) :
    Option GeminiGenerationConfig :=
  let config : GeminiGenerationConfig := {
    temperature := sampling.temperature
    topP := sampling.topP
    topK := sampling.topK
    maxOutputTokens := sampling.maxTokens
    stopSequences := if sampling.stop = [] then none else some sampling.stop
    seed := (lastOf extra "seed").bind Value.asI64
    responseMimeType := (lastOf extra "responseMimeType").bind Value.asStr
    responseSchema := lastOf extra "responseSchema" }
  if config = emptyConfig then none else some config

def buildTool (tool : IrTool) : GeminiFunctionDeclaration where
  name := tool.name
  description := if tool.description = "" then none else some tool.description
  parameters := some tool.schema

def buildTools (tools : List IrTool) : Option (List GeminiToolDeclaration) :=
  if tools.isEmpty then none else some [⟨tools.map buildTool⟩]

def callingConfig (config : List (String × Value)) : Value :=
  .object [("functionCallingConfig", .object config)]

/-- Gemini's own default is only written when tools could be called. -/
def buildToolConfig (choice : Option IrToolChoice) (hasTools : Bool) : Option Value :=
  choice.bind fun
    | .auto => if hasTools then some (callingConfig [("mode", .string "AUTO")]) else none
    | .none => some (callingConfig [("mode", .string "NONE")])
    | .required => some (callingConfig [("mode", .string "ANY")])
    | .named name => some (callingConfig [("allowedFunctionNames", .array [.string name]),
        ("mode", .string "ANY")])

def build (ir : IrRequest) : GeminiRequest where
  model := some ir.model
  contents := ir.messages.map buildMessage
  systemInstruction := buildSystem ir.system
  generationConfig := buildGenerationConfig ir.sampling (ir.extra.take .gemini)
  tools := buildTools ir.tools
  toolConfig := buildToolConfig ir.toolChoice (buildTools ir.tools).isSome

/-! ## Replies -/

/-- A reply carries no images and no tool results. -/
def isResponsePart : IrPart → Bool
  | .text _ _ => true
  | .toolCall _ _ _ _ => true
  | .thinking _ _ => true
  | _ => false

def buildUsage (usage : Usage) : GeminiUsageMetadata where
  promptTokenCount := some usage.inputTokens
  candidatesTokenCount := some usage.outputTokens
  totalTokenCount := some usage.totalTokens

def buildResponse (ir : IrResponse) : GeminiResponse where
  candidates := [{
    content := {
      role := some "model", parts := (ir.parts.filter isResponsePart).filterMap buildPart }
    finishReason := some ir.stopReason.toGemini
    index := some 0 }]
  usageMetadata := some (buildUsage ir.usage)
  modelVersion := some ir.model

end AnyConverter.Gemini
