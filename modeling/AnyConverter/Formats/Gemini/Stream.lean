import AnyConverter.Lib.Transducer
import AnyConverter.Formats.Gemini.Types
import AnyConverter.Sse

/-!
# Gemini streams

The stream adapter.  Every chunk is a reply; a `finishReason` ends it.  The writer holds thinking
back until a signature arrives and writes a tool call again whenever its arguments read as JSON.
-/

set_option autoImplicit false

namespace AnyConverter.Gemini

open CanonicalStreamEvent

/-! ## Reading -/

def decode (codec : JsonCodec) (event : SseEvent) : Except ConvertError GeminiResponse :=
  match codec.decode GeminiResponse.ofValue event.data with
  | some chunk => .ok chunk
  | none => .error (.sseParse (codec.errorText event.data))

/-- The first chunk starts the reply; Gemini names no id, so one is drawn. -/
def parseIds (s : AdapterState) (chunk : GeminiResponse) :
    List CanonicalStreamEvent × AdapterState :=
  match s.responseId with
  | none =>
    let id := s.newUuid.1
    let model := chunk.modelVersion.getD "gemini"
    ([start id model], { s.newUuid.2 with responseId := some id, model := some model })
  | some _ => ([], s)

def metadataUsage (usage : GeminiUsageMetadata) : Usage where
  inputTokens := usage.promptTokenCount.getD 0
  outputTokens := usage.candidatesTokenCount.getD 0

def parseUsage (s : AdapterState) : Option GeminiUsageMetadata → AdapterState
  | some usage => { s with accumulatedUsage := some (metadataUsage usage) }
  | none => s

/-- The text of a part that has some. -/
def nonEmptyText (part : GeminiPart) : Option String := part.text.filter (· ≠ "")

/-- The arguments of a call go out in one piece; null and the empty object are not written. -/
def argsDelta (codec : JsonCodec) (index : Nat) (args : Value) : List CanonicalStreamEvent :=
  if args.isNull ∨ args = .object [] then []
  else [toolCallDelta index (codec.toText args)]

def parseFunctionCall (codec : JsonCodec) (s : AdapterState) (signature : Option String)
    (fc : GeminiFunctionCall) : List CanonicalStreamEvent × AdapterState :=
  let index := s.toolCallIndex
  let s := { s with phase := .toolCalls, toolCallIndex := s.toolCallIndex + 1 }
  let r := match fc.id with
    | some id => (id, s)
    | none => s.newUuid
  (toolCallStart index r.1 fc.name signature :: argsDelta codec index fc.args, r.2)

def parseText (s : AdapterState) (part : GeminiPart) : List CanonicalStreamEvent × AdapterState :=
  match nonEmptyText part with
  | some t => ([textDelta t], { s with phase := .content })
  | none => ([], s)

def parsePart (codec : JsonCodec) (s : AdapterState) (part : GeminiPart) :
    List CanonicalStreamEvent × AdapterState :=
  match nonEmptyText part, part.thought with
  -- a thought goes out with its signature behind it, and what else the part holds is skipped
  | some t, some true =>
    (thinkingDelta t :: (part.thoughtSignature.map (thinkingSignature .gemini)).toList, s)
  | _, _ =>
    let text := parseText s part
    match part.functionCall with
    | some fc =>
      let call := parseFunctionCall codec text.2 part.thoughtSignature fc
      (text.1 ++ call.1, call.2)
    | none => text

def parseFinish (s : AdapterState) : Option String → List CanonicalStreamEvent × AdapterState
  | some reason => ([done (StopReason.fromGemini reason) s.accumulatedUsage],
      { s with done := true, phase := .done })
  | none => ([], s)

/-- The first candidate of a chunk. -/
def parseCandidate (codec : JsonCodec) (s : AdapterState) (candidate : GeminiCandidate) :
    List CanonicalStreamEvent × AdapterState :=
  let parts := Transducer.run (parsePart codec) s candidate.content.parts
  let finish := parseFinish parts.2 candidate.finishReason
  (parts.1 ++ finish.1, finish.2)

def parse (codec : JsonCodec) (s : AdapterState) (chunk : GeminiResponse) :
    List CanonicalStreamEvent × AdapterState :=
  let ids := parseIds s chunk
  let s := parseUsage ids.2 chunk.usageMetadata
  match chunk.candidates with
  | candidate :: _ =>
    let r := parseCandidate codec s candidate
    (ids.1 ++ r.1, r.2)
  | [] => (ids.1, s)

/-! ## Writing -/

/-- A chunk on the wire. -/
def chunkText (codec : JsonCodec) (chunk : GeminiResponse) : String :=
  formatSseData (codec.toText chunk.toValue)

def makeStreamResponse (s : StreamState) (parts : List GeminiPart) (finishReason : Option String)
    (usageMetadata : Option GeminiUsageMetadata) : GeminiResponse where
  candidates := [{
    content := { role := some "model", parts := parts }
    finishReason := finishReason
    index := some 0 }]
  usageMetadata := usageMetadata
  modelVersion := s.model

def emitPart (s : AdapterState) (part : GeminiPart) : List GeminiResponse × AdapterState :=
  ([makeStreamResponse s.toStreamState [part] none none], s)

def emitToolCallStart (s : AdapterState) (index : Nat) (id name : String)
    (signature : Option String) : List GeminiResponse × AdapterState :=
  emitPart { s with accumulatedToolCalls := s.accumulatedToolCalls ++ [⟨index, id, name, ""⟩] }
    ((GeminiPart.functionCallWithId name (.object []) id).withThoughtSignature signature)

/-- The call is written again, without its signature, once what has arrived reads as JSON. -/
def emitToolCallDelta (codec : JsonCodec) (s : AdapterState) (index : Nat) (delta : String) :
    List GeminiResponse × AdapterState :=
  match findCall index s.accumulatedToolCalls with
  | none => ([], s)
  | some entry =>
    let s := { s with accumulatedToolCalls := pushArguments index delta s.accumulatedToolCalls }
    match codec.fromStr (entry.arguments ++ delta) with
    | some args => emitPart s (GeminiPart.functionCallWithId entry.name args entry.id)
    | none => ([], s)

def emitThinkingSignature (s : AdapterState) (signature : String) :
    List GeminiResponse × AdapterState :=
  emitPart { s with accumulatedText := "" }
    ((GeminiPart.thinking s.accumulatedText).withThoughtSignature (some signature))

def doneUsage (u : Usage) : GeminiUsageMetadata where
  promptTokenCount := some u.inputTokens
  candidatesTokenCount := some u.outputTokens
  totalTokenCount := some (u.inputTokens + u.outputTokens)

def emitDone (s : AdapterState) (stopReason : StopReason) (usage : Option Usage) :
    List GeminiResponse × AdapterState :=
  let s := { s with
    done := true, phase := .done, accumulatedUsage := usage.or s.accumulatedUsage }
  ([makeStreamResponse s.toStreamState [] (some stopReason.toGemini) (usage.map doneUsage)], s)

def emit (codec : JsonCodec) (s : AdapterState) :
    CanonicalStreamEvent → List GeminiResponse × AdapterState
  | sealedThinking _ _ => ([], s)
  | start id model => ([], { s with responseId := some id, model := some model })
  | textDelta text => emitPart s (GeminiPart.ofText text)
  | toolCallStart index id name signature => emitToolCallStart s index id name signature
  | toolCallDelta index argumentsDelta => emitToolCallDelta codec s index argumentsDelta
  | thinkingDelta text => ([], { s with accumulatedText := s.accumulatedText ++ text })
  | thinkingSignature .gemini delta => emitThinkingSignature s delta
  | thinkingSignature _ _ => ([], s)
  | done stopReason usage => emitDone s stopReason usage

end AnyConverter.Gemini
