import AnyConverter.Lib.Transducer
import AnyConverter.Lib.Serde
import AnyConverter.Formats.OpenAIResp.Seal
import AnyConverter.Sse

/-!
# OpenAI Responses streams

The stream adapter.  The writer numbers output items as it goes: the message, the calls and what
Claude signed or sealed each compute their index from what the state holds at that moment.
`response.completed` repeats the items.
-/

set_option autoImplicit false

namespace AnyConverter.OpenAIResponses

open CanonicalStreamEvent

/-! ## Thinking in the state

One field holds the open thinking block: its text, then a NUL, then its signature. -/

def thinkingTextEnd : Char := Char.ofNat 0

def splitThinking (s : StreamState) : Option (String × String) :=
  Text.rsplitOnce thinkingTextEnd s.thinkingSignature

/-- The open thinking block's text and signature. -/
def thinkingParts (s : StreamState) : String × String :=
  (splitThinking s).getD (s.thinkingSignature, "")

/-- Claude signed the open thinking block. -/
def signedByClaude (s : StreamState) : Bool :=
  s.thinkingSignatureBy == some .claude && (splitThinking s).any fun p => p.2 ≠ ""

/-- The items before the answer: the signed thinking, once its signature is there. -/
def reasoningPrefix (s : StreamState) : Nat := if signedByClaude s then 1 else 0

/-- The message takes one index as soon as there is text. -/
def textOffset (s : StreamState) : Nat := if s.accumulatedText = "" then 0 else 1

def statusToStopReason (status : String) : StopReason :=
  if status = "completed" then .endTurn
  else if status = "incomplete" then .maxTokens
  else if status = "failed" then .contentFilter
  else .endTurn

def stopReasonToStatus : StopReason → String
  | .maxTokens => "incomplete"
  | .contentFilter => "failed"
  | _ => "completed"

/-! ## Reading -/

inductive Upstream where
  | created (id model : String) (usage : Option Usage)
  | outputTextDelta (delta : String)
  | functionCallArgumentsDelta (outputIndex : Option Nat) (delta : String)
  | functionCallAdded (id name : String)
  | completed (stopReason : StopReason) (usage : Option Usage)
  | ignored
  deriving DecidableEq

/-- A text field, empty when it is not there. -/
def textField (v : Value) (key : String) : String := ((v.get key).bind Value.asStr).getD ""

/-- A count, zero when it is not there. -/
def countField (v : Value) (key : String) : Nat := ((v.get key).bind Value.asU64).getD 0

def usageOfValue (u : Value) : Usage where
  inputTokens := countField u "input_tokens"
  outputTokens := countField u "output_tokens"
  cacheReadTokens :=
    ((u.get "input_tokens_details").bind fun d => d.get "cached_tokens").bind Value.asU64

def decodeCreated (data : Value) : Except ConvertError Upstream :=
  match data.get "response" with
  | none => .error (.missingField "response")
  | some response =>
    match (response.get "id").bind Value.asStr with
    | none => .error (.missingField "response.id")
    | some id =>
      .ok (.created id (textField response "model") ((response.get "usage").map usageOfValue))

def decodeCompleted (data : Value) : Except ConvertError Upstream :=
  match data.get "response" with
  | none => .error (.missingField "response")
  | some response =>
    .ok (.completed
      (statusToStopReason (((response.get "status").bind Value.asStr).getD "completed"))
      ((response.get "usage").map usageOfValue))

def decodeItemAdded (data : Value) : Upstream :=
  let item := (data.get "item").getD data
  if (item.get "type").bind Value.asStr = some "function_call" then
    .functionCallAdded (textField item "call_id") (textField item "name")
  else .ignored

def decodeTyped (eventType : String) (data : Value) : Except ConvertError Upstream :=
  if eventType = "response.created" then decodeCreated data
  else if eventType = "response.output_text.delta" then
    .ok (.outputTextDelta (textField data "delta"))
  else if eventType = "response.function_call_arguments.delta" then
    .ok (.functionCallArgumentsDelta ((data.get "output_index").bind Value.asU64)
      (textField data "delta"))
  else if eventType = "response.output_item.added" then .ok (decodeItemAdded data)
  else if eventType = "response.completed" then decodeCompleted data
  else .ok .ignored

def decode (codec : JsonCodec) (event : SseEvent) : Except ConvertError Upstream :=
  match codec.fromStr event.data with
  | none => .error (.sseParse (codec.errorText event.data))
  | some data =>
    match event.event.or ((data.get "type").bind Value.asStr) with
    | none => .error (.sseParse "missing event type")
    | some eventType => decodeTyped eventType data

def parse (s : AdapterState) : Upstream → List CanonicalStreamEvent × AdapterState
  | .created id model usage =>
    ([start id model], { s with
      accumulatedUsage := usage.or s.accumulatedUsage, responseId := some id, model := some model
      phase := .content })
  | .outputTextDelta delta => ([textDelta delta], s)
  | .functionCallArgumentsDelta outputIndex delta =>
    ([toolCallDelta (outputIndex.getD s.toolCallIndex % 2 ^ 32) delta], s)
  | .functionCallAdded id name =>
    ([toolCallStart s.toolCallIndex id name none],
      { s with toolCallIndex := s.toolCallIndex + 1, phase := .toolCalls })
  | .completed stopReason usage =>
    ([done stopReason usage],
      { s with done := true, phase := .done, accumulatedUsage := usage })
  | .ignored => ([], s)

/-! ## Output items and events -/

/-- An output item, as the stream writes it. -/
inductive OutputItem where
  | reasoning (id status : String) (summary : List String) (encryptedContent : Option String)
  | message (id status : String) (content : List String)
  | functionCall (id status callId name arguments : String)
  deriving DecidableEq, Repr

def summaryText (text : String) : Value :=
  .object [("text", .string text), ("type", .string "summary_text")]

def outputText (text : String) : Value :=
  .object [("text", .string text), ("type", .string "output_text")]

namespace OutputItem

def id : OutputItem → String
  | reasoning id _ _ _ => id
  | message id _ _ => id
  | functionCall id _ _ _ _ => id

def toValue : OutputItem → Value
  | reasoning id status summary encryptedContent =>
    .object (Serde.fieldOpt "encrypted_content" (encryptedContent.map .string) ++
      [("id", .string id), ("status", .string status),
        ("summary", .array (summary.map summaryText)), ("type", .string "reasoning")])
  | message id status content =>
    .object [("content", .array (content.map outputText)), ("id", .string id),
      ("role", .string "assistant"), ("status", .string status), ("type", .string "message")]
  | functionCall id status callId name arguments =>
    .object [("arguments", .string arguments), ("call_id", .string callId), ("id", .string id),
      ("name", .string name), ("status", .string status), ("type", .string "function_call")]

end OutputItem

/-- The usage of `response.completed`. -/
structure CompletedUsage where
  inputTokens : Nat
  outputTokens : Nat
  totalTokens : Nat
  deriving DecidableEq, Repr

def CompletedUsage.toValue (u : CompletedUsage) : Value :=
  .object [("input_tokens", .nat u.inputTokens), ("output_tokens", .nat u.outputTokens),
    ("total_tokens", .nat u.totalTokens)]

/-- The `response` object of an event. -/
structure StreamResponse where
  id : String
  createdAt : Nat
  model : String
  status : String
  output : List OutputItem
  usage : Option CompletedUsage
  deriving DecidableEq, Repr

def StreamResponse.toValue (r : StreamResponse) : Value :=
  .object ([("created_at", .nat r.createdAt), ("id", .string r.id), ("model", .string r.model),
    ("object", .string "response"), ("output", .array (r.output.map OutputItem.toValue)),
    ("status", .string r.status)] ++
    Serde.fieldOpt "usage" (r.usage.map CompletedUsage.toValue))

/-- The events a Responses stream is made of. -/
inductive StreamEvent where
  | created (response : StreamResponse)
  | inProgress (response : StreamResponse)
  | outputItemAdded (outputIndex : Nat) (item : OutputItem)
  | outputItemDone (outputIndex : Nat) (item : OutputItem)
  | contentPartAdded (itemId : String) (outputIndex : Nat)
  | contentPartDone (itemId : String) (outputIndex : Nat) (text : String)
  | outputTextDelta (itemId : String) (outputIndex : Nat) (delta : String)
  | outputTextDone (itemId : String) (outputIndex : Nat) (text : String)
  | functionCallArgumentsDelta (itemId : String) (outputIndex : Nat) (delta : String)
  | functionCallArgumentsDone (itemId : String) (outputIndex : Nat) (arguments : String)
  | completed (response : StreamResponse)
  deriving DecidableEq, Repr

namespace StreamEvent

/-- The type of the event, on its `event:` line and in its payload. -/
def name : StreamEvent → String
  | created _ => "response.created"
  | inProgress _ => "response.in_progress"
  | outputItemAdded _ _ => "response.output_item.added"
  | outputItemDone _ _ => "response.output_item.done"
  | contentPartAdded _ _ => "response.content_part.added"
  | contentPartDone _ _ _ => "response.content_part.done"
  | outputTextDelta _ _ _ => "response.output_text.delta"
  | outputTextDone _ _ _ => "response.output_text.done"
  | functionCallArgumentsDelta _ _ _ => "response.function_call_arguments.delta"
  | functionCallArgumentsDone _ _ _ => "response.function_call_arguments.done"
  | completed _ => "response.completed"

def toValue (e : StreamEvent) : Value :=
  let type := Value.string e.name
  match e with
  | created response | inProgress response | completed response =>
    .object [("response", response.toValue), ("type", type)]
  | outputItemAdded outputIndex item | outputItemDone outputIndex item =>
    .object [("item", item.toValue), ("output_index", .nat outputIndex), ("type", type)]
  | contentPartAdded itemId outputIndex =>
    .object [("content_index", .nat 0), ("item_id", .string itemId),
      ("output_index", .nat outputIndex), ("part", outputText ""), ("type", type)]
  | contentPartDone itemId outputIndex text =>
    .object [("content_index", .nat 0), ("item_id", .string itemId),
      ("output_index", .nat outputIndex), ("part", outputText text), ("type", type)]
  | outputTextDelta itemId outputIndex delta =>
    .object [("content_index", .nat 0), ("delta", .string delta), ("item_id", .string itemId),
      ("output_index", .nat outputIndex), ("type", type)]
  | outputTextDone itemId outputIndex text =>
    .object [("content_index", .nat 0), ("item_id", .string itemId),
      ("output_index", .nat outputIndex), ("text", .string text), ("type", type)]
  | functionCallArgumentsDelta itemId outputIndex delta =>
    .object [("delta", .string delta), ("item_id", .string itemId),
      ("output_index", .nat outputIndex), ("type", type)]
  | functionCallArgumentsDone itemId outputIndex arguments =>
    .object [("arguments", .string arguments), ("item_id", .string itemId),
      ("output_index", .nat outputIndex), ("type", type)]

/-- The event on the wire. -/
def toText (codec : JsonCodec) (e : StreamEvent) : String :=
  formatSseEvent e.name (codec.toText e.toValue)

end StreamEvent

/-! ## Writing -/

/-- The first piece of a signature closes the text it signs. -/
def emitThinkingSignature (s : AdapterState) (signer : Format) (delta : String) : AdapterState :=
  if signer ≠ .claude ∨ delta = "" then s
  else if s.thinkingSignatureBy = some signer then
    { s with thinkingSignature := s.thinkingSignature ++ delta }
  else { s with
    thinkingSignatureBy := some signer
    thinkingSignature := s.thinkingSignature ++ String.singleton thinkingTextEnd ++ delta }

/-- Text goes in front of the signature, when there is one already. -/
def emitThinkingDelta (s : AdapterState) (delta : String) : AdapterState :=
  match splitThinking s.toStreamState with
  | some (text, signature) => { s with
      thinkingSignature := text ++ delta ++ String.singleton thinkingTextEnd ++ signature }
  | none => { s with thinkingSignature := s.thinkingSignature ++ delta }

/-- A sealed block is an item of its own, at what the state holds for the next free index. -/
def emitSealedThinking (codec : JsonCodec) (s : AdapterState) (raw : Value) :
    List StreamEvent × AdapterState :=
  let index := textOffset s.toStreamState + s.accumulatedToolCalls.length + s.blockIndex
  let id := "rs_" ++ s.newUuid.1
  ([.outputItemAdded index (.reasoning id "in_progress" [] none),
    .outputItemDone index (.reasoning id "completed" [] (some (sealBlock codec raw)))],
    { s.newUuid.2 with blockIndex := s.blockIndex + 1 })

def emitStart (s : AdapterState) (id model : String) : List StreamEvent × AdapterState :=
  let r := normalizeIdToResp s.world id
  let s := { s with
    world := r.2, responseId := some r.1, model := some model, phase := .content }
  let response : StreamResponse := {
    id := r.1, createdAt := s.nowUnixSecs.1, model := model, status := "in_progress", output := []
    usage := none }
  ([.created response, .inProgress response], s.nowUnixSecs.2)

/-- The message's item id; a stream nobody started draws one for each piece of text. -/
def messageItemId (s : AdapterState) : String × AdapterState :=
  match s.responseId with
  | some id => (id ++ "_msg_0", s)
  | none => ("resp_" ++ s.newUuid.1, s.newUuid.2)

def emitTextDelta (s : AdapterState) (text : String) : List StreamEvent × AdapterState :=
  let r := messageItemId s
  let index := reasoningPrefix s.toStreamState
  let opening : List StreamEvent :=
    if s.accumulatedText = "" then
      [.outputItemAdded index (.message r.1 "in_progress" []), .contentPartAdded r.1 index]
    else []
  (opening ++ [.outputTextDelta r.1 index text],
    { r.2 with accumulatedText := s.accumulatedText ++ text })

def callItemId (id : String) : String := "fc_" ++ id

/-- The index of a call's item. -/
def callOutputIndex (s : StreamState) (index : Nat) : Nat :=
  index + textOffset s + reasoningPrefix s

def emitToolCallStart (s : AdapterState) (index : Nat) (id name : String) :
    List StreamEvent × AdapterState :=
  ([.outputItemAdded (callOutputIndex s.toStreamState index)
      (.functionCall (callItemId id) "in_progress" id name "")],
    { s with accumulatedToolCalls := s.accumulatedToolCalls ++ [⟨index, id, name, ""⟩] })

def emitToolCallDelta (s : AdapterState) (index : Nat) (delta : String) :
    Except ConvertError (List StreamEvent) × AdapterState :=
  match findCall index s.accumulatedToolCalls with
  | none =>
    (.error (.streamState ("tool call index " ++ toString index ++ " not found in state")), s)
  | some tc =>
    (.ok [.functionCallArgumentsDelta (callItemId tc.id) (callOutputIndex s.toStreamState index)
        delta],
      { s with accumulatedToolCalls := pushArguments index delta s.accumulatedToolCalls })

/-- The signed thinking block closes first. -/
def closeThinking (codec : JsonCodec) (s : AdapterState) :
    (List StreamEvent × List OutputItem) × AdapterState :=
  if signedByClaude s.toStreamState then
    let id := "rs_" ++ s.newUuid.1
    let parts := thinkingParts s.toStreamState
    let summary := if parts.1 = "" then [] else [parts.1]
    let item := OutputItem.reasoning id "completed" summary
      (some (sealThinking codec parts.1 parts.2))
    (([.outputItemAdded 0 (.reasoning id "in_progress" [] none), .outputItemDone 0 item], [item]),
      s.newUuid.2)
  else (([], []), s)

/-- Then the message, when there is text. -/
def closeMessage (s : StreamState) (itemId : String) : List StreamEvent × List OutputItem :=
  if s.accumulatedText = "" then ([], [])
  else
    let index := reasoningPrefix s
    let item := OutputItem.message itemId "completed" [s.accumulatedText]
    ([.outputTextDone itemId index s.accumulatedText,
      .contentPartDone itemId index s.accumulatedText, .outputItemDone index item], [item])

def callItem (tc : AccumulatedToolCall) : OutputItem :=
  .functionCall (callItemId tc.id) "completed" tc.id tc.name tc.arguments

/-- Then each call. -/
def closeCall (s : StreamState) (tc : AccumulatedToolCall) : List StreamEvent :=
  let index := callOutputIndex s tc.index
  [.functionCallArgumentsDone (callItemId tc.id) index tc.arguments,
    .outputItemDone index (callItem tc)]

/-- A reply without an item is an empty message. -/
def outputOrEmpty (items : List OutputItem) (itemId : String) : List OutputItem :=
  if items = [] then [.message itemId "completed" [""]] else items

def completedUsage (u : Usage) : CompletedUsage where
  inputTokens := u.inputTokens
  outputTokens := u.outputTokens
  totalTokens := u.totalTokens

def emitDone (codec : JsonCodec) (s : AdapterState) (stopReason : StopReason)
    (usage : Option Usage) : List StreamEvent × AdapterState :=
  let ids := match s.responseId with
    | some id => (id, s)
    | none => ("resp_" ++ s.newUuid.1, s.newUuid.2)
  let itemId := ids.1 ++ "_msg_0"
  let thinking := closeThinking codec ids.2
  let message := closeMessage s.toStreamState itemId
  let calls := s.accumulatedToolCalls.flatMap (closeCall s.toStreamState)
  let items := thinking.1.2 ++ message.2 ++ s.accumulatedToolCalls.map callItem
  let s := thinking.2
  let response : StreamResponse := {
    id := ids.1, createdAt := s.nowUnixSecs.1, model := s.model.getD ""
    status := stopReasonToStatus stopReason, output := outputOrEmpty items itemId
    usage := usage.map completedUsage }
  (thinking.1.1 ++ message.1 ++ calls ++ [.completed response],
    { s.nowUnixSecs.2 with done := true, phase := .done })

def emit (codec : JsonCodec) (s : AdapterState) :
    CanonicalStreamEvent → Except ConvertError (List StreamEvent) × AdapterState
  | thinkingSignature signer delta => (.ok [], emitThinkingSignature s signer delta)
  | sealedThinking .claude raw =>
    let r := emitSealedThinking codec s raw
    (.ok r.1, r.2)
  | sealedThinking _ _ => (.ok [], s)
  | start id model =>
    let r := emitStart s id model
    (.ok r.1, r.2)
  | textDelta text =>
    let r := emitTextDelta s text
    (.ok r.1, r.2)
  | toolCallStart index id name _ =>
    let r := emitToolCallStart s index id name
    (.ok r.1, r.2)
  | toolCallDelta index argumentsDelta => emitToolCallDelta s index argumentsDelta
  | done stopReason usage =>
    let r := emitDone codec s stopReason usage
    (.ok r.1, r.2)
  | thinkingDelta delta => (.ok [], emitThinkingDelta s delta)

end AnyConverter.OpenAIResponses
