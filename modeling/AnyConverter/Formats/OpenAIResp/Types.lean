import AnyConverter.Lib.Serde
import AnyConverter.Shared

/-!
# OpenAI Responses: wire types

Requests keep the fields a conversion reads as typed ones and every other field as it came; a
reply's output items stay JSON.
-/

set_option autoImplicit false

namespace AnyConverter.OpenAIResponses

open Serde

structure OpenAIResponsesRequest where
  model : String
  input : Option Value
  instructions : Option String
  maxOutputTokens : Option Nat
  temperature : Option F32
  topP : Option F32
  stream : Option Bool
  tools : Option (List Value)
  toolChoice : Option Value
  text : Option Value
  reasoning : Option Value
  previousResponseId : Option String
  store : Option Bool
  /-- every field no other one names, sorted by key -/
  extra : List (String × Value)
  deriving DecidableEq

def OpenAIResponsesRequest.toValue (r : OpenAIResponsesRequest) : Value :=
  .object (field "model" (.string r.model) ++ fieldOpt "input" r.input ++
    fieldOpt "instructions" (r.instructions.map .string) ++
    fieldOpt "max_output_tokens" (r.maxOutputTokens.map .nat) ++
    fieldOpt "temperature" (r.temperature.map F32.toValue) ++
    fieldOpt "top_p" (r.topP.map F32.toValue) ++ fieldOpt "stream" (r.stream.map .bool) ++
    fieldOpt "tools" (r.tools.map .array) ++ fieldOpt "tool_choice" r.toolChoice ++
    fieldOpt "text" r.text ++ fieldOpt "reasoning" r.reasoning ++
    fieldOpt "previous_response_id" (r.previousResponseId.map .string) ++
    fieldOpt "store" (r.store.map .bool) ++ r.extra)

/-- The fields a request names. -/
def requestFields : List String :=
  ["model", "input", "instructions", "max_output_tokens", "temperature", "top_p", "stream", "tools",
    "tool_choice", "text", "reasoning", "previous_response_id", "store"]

/-- The fields a request does not name, sorted by key. -/
def flattened (obj : List (String × Value)) : List (String × Value) :=
  (obj.filter fun f => f.1 ∉ requestFields).foldl (fun rest f => Value.insertField f.1 f.2 rest) []

def OpenAIResponsesRequest.ofValue : Value → Option OpenAIResponsesRequest
  | .object obj => do
    return {
      model := ← required "model" string obj
      input := ← optional "input" any obj
      instructions := ← optional "instructions" string obj
      maxOutputTokens := ← optional "max_output_tokens" u32 obj
      temperature := ← optional "temperature" F32.ofValue obj
      topP := ← optional "top_p" F32.ofValue obj
      stream := ← optional "stream" bool obj
      tools := ← optional "tools" (vec any) obj
      toolChoice := ← optional "tool_choice" any obj
      text := ← optional "text" any obj
      reasoning := ← optional "reasoning" any obj
      previousResponseId := ← optional "previous_response_id" string obj
      store := ← optional "store" bool obj
      extra := flattened obj }
  | _ => none

structure InputTokensDetails where
  cachedTokens : Option Nat
  deriving DecidableEq

def InputTokensDetails.toValue (d : InputTokensDetails) : Value :=
  .object (fieldOpt "cached_tokens" (d.cachedTokens.map .nat))

def InputTokensDetails.ofValue : Value → Option InputTokensDetails
  | .object obj => do return ⟨← optional "cached_tokens" u64 obj⟩
  | _ => none

structure ResponsesUsage where
  inputTokens : Nat
  outputTokens : Nat
  totalTokens : Option Nat
  inputTokensDetails : Option InputTokensDetails
  deriving DecidableEq

def ResponsesUsage.toValue (u : ResponsesUsage) : Value :=
  .object (field "input_tokens" (.nat u.inputTokens) ++
    field "output_tokens" (.nat u.outputTokens) ++
    fieldOpt "total_tokens" (u.totalTokens.map .nat) ++
    fieldOpt "input_tokens_details" (u.inputTokensDetails.map InputTokensDetails.toValue))

def ResponsesUsage.ofValue : Value → Option ResponsesUsage
  | .object obj => do
    return {
      inputTokens := ← required "input_tokens" u64 obj
      outputTokens := ← required "output_tokens" u64 obj
      totalTokens := ← optional "total_tokens" u64 obj
      inputTokensDetails := ← optional "input_tokens_details" InputTokensDetails.ofValue obj }
  | _ => none

structure OpenAIResponsesResponse where
  id : String
  object : String
  createdAt : Nat
  model : String
  status : String
  output : List Value
  usage : Option ResponsesUsage
  deriving DecidableEq

def OpenAIResponsesResponse.toValue (r : OpenAIResponsesResponse) : Value :=
  .object (field "id" (.string r.id) ++ field "object" (.string r.object) ++
    field "created_at" (.nat r.createdAt) ++ field "model" (.string r.model) ++
    field "status" (.string r.status) ++ field "output" (.array r.output) ++
    fieldOpt "usage" (r.usage.map ResponsesUsage.toValue))

def OpenAIResponsesResponse.ofValue : Value → Option OpenAIResponsesResponse
  | .object obj => do
    return {
      id := ← required "id" string obj
      object := ← required "object" string obj
      createdAt := ← required "created_at" u64 obj
      model := ← required "model" string obj
      status := ← required "status" string obj
      output := ← withDefault "output" [] (vec any) obj
      usage := ← optional "usage" ResponsesUsage.ofValue obj }
  | _ => none

end AnyConverter.OpenAIResponses
