import AnyConverter.Lib.Serde
import AnyConverter.Shared

/-!
# Gemini: wire types

Requests and replies, the JSON they are written as and the JSON they are read from.  A stream
chunk is a reply of its own.
-/

set_option autoImplicit false

namespace AnyConverter.Gemini

open Serde

/-! ## Parts -/

structure GeminiInlineData where
  mimeType : String
  data : String
  deriving DecidableEq, Repr

def GeminiInlineData.toValue (d : GeminiInlineData) : Value :=
  .object [("mimeType", .string d.mimeType), ("data", .string d.data)]

def GeminiInlineData.ofValue : Value → Option GeminiInlineData
  | .object obj => do return ⟨← required "mimeType" string obj, ← required "data" string obj⟩
  | _ => none

structure GeminiFunctionCall where
  name : String
  args : Value
  id : Option String
  deriving DecidableEq, Repr

def GeminiFunctionCall.toValue (f : GeminiFunctionCall) : Value :=
  .object (field "name" (.string f.name) ++ field "args" f.args ++
    fieldOpt "id" (f.id.map .string))

def GeminiFunctionCall.ofValue : Value → Option GeminiFunctionCall
  | .object obj => do
    return ⟨← required "name" string obj, ← required "args" any obj, ← optional "id" string obj⟩
  | _ => none

structure GeminiFunctionResponse where
  name : String
  response : Value
  id : Option String
  deriving DecidableEq, Repr

def GeminiFunctionResponse.toValue (f : GeminiFunctionResponse) : Value :=
  .object (field "name" (.string f.name) ++ field "response" f.response ++
    fieldOpt "id" (f.id.map .string))

def GeminiFunctionResponse.ofValue : Value → Option GeminiFunctionResponse
  | .object obj => do
    return ⟨← required "name" string obj, ← required "response" any obj,
      ← optional "id" string obj⟩
  | _ => none

structure GeminiPart where
  text : Option String := none
  thought : Option Bool := none
  thoughtSignature : Option String := none
  inlineData : Option GeminiInlineData := none
  functionCall : Option GeminiFunctionCall := none
  functionResponse : Option GeminiFunctionResponse := none
  deriving DecidableEq, Repr

namespace GeminiPart

def ofText (t : String) : GeminiPart := { text := some t }

def thinking (t : String) : GeminiPart := { ofText t with thought := some true }

def withThoughtSignature (p : GeminiPart) (signature : Option String) : GeminiPart :=
  { p with thoughtSignature := signature }

def ofInlineData (mimeType data : String) : GeminiPart := { inlineData := some ⟨mimeType, data⟩ }

def functionCallWithId (name : String) (args : Value) (id : String) : GeminiPart :=
  { functionCall := some ⟨name, args, some id⟩ }

def functionResponseWithId (name : String) (response : Value) (id : String) : GeminiPart :=
  { functionResponse := some ⟨name, response, some id⟩ }

def toValue (p : GeminiPart) : Value :=
  .object (fieldOpt "text" (p.text.map .string) ++ fieldOpt "thought" (p.thought.map .bool) ++
    fieldOpt "thoughtSignature" (p.thoughtSignature.map .string) ++
    fieldOpt "inlineData" (p.inlineData.map GeminiInlineData.toValue) ++
    fieldOpt "functionCall" (p.functionCall.map GeminiFunctionCall.toValue) ++
    fieldOpt "functionResponse" (p.functionResponse.map GeminiFunctionResponse.toValue))

def ofValue : Value → Option GeminiPart
  | .object obj => do
    return {
      text := ← optional "text" string obj
      thought := ← optional "thought" bool obj
      thoughtSignature := ← optional "thoughtSignature" string obj
      inlineData := ← optional "inlineData" GeminiInlineData.ofValue obj
      functionCall := ← optional "functionCall" GeminiFunctionCall.ofValue obj
      functionResponse := ← optional "functionResponse" GeminiFunctionResponse.ofValue obj }
  | _ => none

end GeminiPart

structure GeminiContent where
  role : Option String
  parts : List GeminiPart
  deriving DecidableEq, Repr

def GeminiContent.toValue (c : GeminiContent) : Value :=
  .object (fieldOpt "role" (c.role.map .string) ++
    field "parts" (.array (c.parts.map GeminiPart.toValue)))

def GeminiContent.ofValue : Value → Option GeminiContent
  | .object obj => do
    return ⟨← optional "role" string obj, ← required "parts" (vec GeminiPart.ofValue) obj⟩
  | _ => none

/-! ## Requests -/

structure GeminiGenerationConfig where
  temperature : Option F32
  topP : Option F32
  topK : Option Nat
  maxOutputTokens : Option Nat
  stopSequences : Option (List String)
  seed : Option Int
  responseMimeType : Option String
  responseSchema : Option Value
  deriving DecidableEq

def GeminiGenerationConfig.toValue (g : GeminiGenerationConfig) : Value :=
  .object (fieldOpt "temperature" (g.temperature.map F32.toValue) ++
    fieldOpt "topP" (g.topP.map F32.toValue) ++ fieldOpt "topK" (g.topK.map .nat) ++
    fieldOpt "maxOutputTokens" (g.maxOutputTokens.map .nat) ++
    fieldOpt "stopSequences" (g.stopSequences.map strings) ++
    fieldOpt "seed" (g.seed.map fun i => .number (.int i)) ++
    fieldOpt "responseMimeType" (g.responseMimeType.map .string) ++
    fieldOpt "responseSchema" g.responseSchema)

def GeminiGenerationConfig.ofValue : Value → Option GeminiGenerationConfig
  | .object obj => do
    return {
      temperature := ← optional "temperature" F32.ofValue obj
      topP := ← optional "topP" F32.ofValue obj
      topK := ← optional "topK" u32 obj
      maxOutputTokens := ← optional "maxOutputTokens" u32 obj
      stopSequences := ← optional "stopSequences" (vec string) obj
      seed := ← optional "seed" i64 obj
      responseMimeType := ← optional "responseMimeType" string obj
      responseSchema := ← optional "responseSchema" any obj }
  | _ => none

structure GeminiFunctionDeclaration where
  name : String
  description : Option String
  parameters : Option Value
  deriving DecidableEq

def GeminiFunctionDeclaration.toValue (f : GeminiFunctionDeclaration) : Value :=
  .object (field "name" (.string f.name) ++
    fieldOpt "description" (f.description.map .string) ++ fieldOpt "parameters" f.parameters)

def GeminiFunctionDeclaration.ofValue : Value → Option GeminiFunctionDeclaration
  | .object obj => do
    return ⟨← required "name" string obj, ← optional "description" string obj,
      ← optional "parameters" any obj⟩
  | _ => none

structure GeminiToolDeclaration where
  functionDeclarations : List GeminiFunctionDeclaration
  deriving DecidableEq

def GeminiToolDeclaration.toValue (t : GeminiToolDeclaration) : Value :=
  .object [("functionDeclarations",
    .array (t.functionDeclarations.map GeminiFunctionDeclaration.toValue))]

def GeminiToolDeclaration.ofValue : Value → Option GeminiToolDeclaration
  | .object obj => do
    return ⟨← required "functionDeclarations" (vec GeminiFunctionDeclaration.ofValue) obj⟩
  | _ => none

structure GeminiRequest where
  model : Option String
  contents : List GeminiContent
  systemInstruction : Option GeminiContent
  generationConfig : Option GeminiGenerationConfig
  tools : Option (List GeminiToolDeclaration)
  toolConfig : Option Value
  deriving DecidableEq

def GeminiRequest.toValue (r : GeminiRequest) : Value :=
  .object (fieldOpt "model" (r.model.map .string) ++
    field "contents" (.array (r.contents.map GeminiContent.toValue)) ++
    fieldOpt "systemInstruction" (r.systemInstruction.map GeminiContent.toValue) ++
    fieldOpt "generationConfig" (r.generationConfig.map GeminiGenerationConfig.toValue) ++
    fieldOpt "tools" (r.tools.map fun ts => .array (ts.map GeminiToolDeclaration.toValue)) ++
    fieldOpt "toolConfig" r.toolConfig)

def GeminiRequest.ofValue : Value → Option GeminiRequest
  | .object obj => do
    return {
      model := ← optional "model" string obj
      contents := ← required "contents" (vec GeminiContent.ofValue) obj
      systemInstruction := ← optional "systemInstruction" GeminiContent.ofValue obj
      generationConfig := ← optional "generationConfig" GeminiGenerationConfig.ofValue obj
      tools := ← optional "tools" (vec GeminiToolDeclaration.ofValue) obj
      toolConfig := ← optional "toolConfig" any obj }
  | _ => none

/-! ## Replies -/

structure GeminiCandidate where
  content : GeminiContent
  finishReason : Option String
  index : Option Nat
  deriving DecidableEq, Repr

def GeminiCandidate.toValue (c : GeminiCandidate) : Value :=
  .object (field "content" c.content.toValue ++
    fieldOpt "finishReason" (c.finishReason.map .string) ++ fieldOpt "index" (c.index.map .nat))

def GeminiCandidate.ofValue : Value → Option GeminiCandidate
  | .object obj => do
    return {
      content := ← required "content" GeminiContent.ofValue obj
      finishReason := ← optional "finishReason" string obj
      index := ← optional "index" u32 obj }
  | _ => none

structure GeminiUsageMetadata where
  promptTokenCount : Option Nat
  candidatesTokenCount : Option Nat
  totalTokenCount : Option Nat
  deriving DecidableEq, Repr

def GeminiUsageMetadata.toValue (u : GeminiUsageMetadata) : Value :=
  .object (fieldOpt "promptTokenCount" (u.promptTokenCount.map .nat) ++
    fieldOpt "candidatesTokenCount" (u.candidatesTokenCount.map .nat) ++
    fieldOpt "totalTokenCount" (u.totalTokenCount.map .nat))

def GeminiUsageMetadata.ofValue : Value → Option GeminiUsageMetadata
  | .object obj => do
    return ⟨← optional "promptTokenCount" u64 obj, ← optional "candidatesTokenCount" u64 obj,
      ← optional "totalTokenCount" u64 obj⟩
  | _ => none

structure GeminiResponse where
  candidates : List GeminiCandidate
  usageMetadata : Option GeminiUsageMetadata
  modelVersion : Option String
  deriving DecidableEq, Repr

def GeminiResponse.toValue (r : GeminiResponse) : Value :=
  .object (field "candidates" (.array (r.candidates.map GeminiCandidate.toValue)) ++
    fieldOpt "usageMetadata" (r.usageMetadata.map GeminiUsageMetadata.toValue) ++
    fieldOpt "modelVersion" (r.modelVersion.map .string))

def GeminiResponse.ofValue : Value → Option GeminiResponse
  | .object obj => do
    return {
      candidates := ← required "candidates" (vec GeminiCandidate.ofValue) obj
      usageMetadata := ← optional "usageMetadata" GeminiUsageMetadata.ofValue obj
      modelVersion := ← optional "modelVersion" string obj }
  | _ => none

end AnyConverter.Gemini
