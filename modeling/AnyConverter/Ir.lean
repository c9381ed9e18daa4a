import AnyConverter.Lib.Json

/-!
# The intermediate representation

The hub every conversion goes through: requests, replies and stream events that belong to no wire
format.  Readers turn wire types into these, builders turn them back.

Token counts and indices are natural numbers; sampling parameters are decimals that are carried
along and, once, clamped.
-/

set_option autoImplicit false

namespace AnyConverter

inductive Format where
  | openAIChat
  | claude
  | openAIResponses
  | gemini
  deriving DecidableEq, Repr

def Format.asStr : Format → String
  | .openAIChat => "openai_chat"
  | .claude => "claude"
  | .openAIResponses => "openai_responses"
  | .gemini => "gemini"

/-- The errors of a conversion, with the data their messages carry. -/
inductive ConvertError where
  | json (message : String)
  | unsupportedConversion (source target : Format)
  | missingField (field : String)
  | invalidField (field reason : String)
  | unsupportedContentType (type : String)
  | sseParse (message : String)
  | streamState (message : String)
  deriving DecidableEq, Repr

/-- The `Display` text of an error. -/
def ConvertError.toText : ConvertError → String
  | .json message => "JSON serialization error: " ++ message
  | .unsupportedConversion src dst =>
    "unsupported format conversion: " ++ src.asStr ++ " -> " ++ dst.asStr
  | .missingField field => "missing required field: " ++ field
  | .invalidField field reason => "invalid field value for '" ++ field ++ "': " ++ reason
  | .unsupportedContentType type => "unsupported content type: " ++ type
  | .sseParse message => "SSE parse error: " ++ message
  | .streamState message => "stream state error: " ++ message

/-! ## Requests -/

inductive Role where
  | user
  | assistant
  deriving DecidableEq, Repr

/-- A signature and the API that issued it. -/
structure Signature where
  by_ : Format
  value : String
  deriving DecidableEq, Repr

/-- One block of a message. -/
inductive IrPart where
  | text (text : String) (signature : Option Signature)
  | image (url mediaType : String) (data detail : Option String)
  | toolCall (id name : String) (args : Value) (signature : Option Signature)
  | toolResult (callId : String) (isError : Bool) (content : List IrPart)
  | thinking (text : String) (signature : Option Signature)
  /-- reasoning an upstream sealed, as its own API wrote it -/
  | sealed (by_ : Format) (raw : Value)

/-- A text block nobody signed. -/
def IrPart.plain (text : String) : IrPart := .text text none

structure IrMessage where
  role : Role
  parts : List IrPart

structure IrTool where
  name : String
  description : String
  schema : Value
  strict : Option Bool

inductive IrToolChoice where
  | auto
  | none
  | required
  | named (name : String)
  deriving DecidableEq, Repr

/-- A 32-bit float as the decimal it is written with. -/
structure F32 where
  mantissa : Int
  exponent : Int
  deriving DecidableEq, Repr

namespace F32

def toValue (x : F32) : Value := .number (.decimal x.mantissa x.exponent)

def ofValue : Value → Option F32
  | .number (.int i) => some ⟨i, 0⟩
  | .number (.decimal m e) => some ⟨m, e⟩
  | _ => none

/-- Whether a decimal exceeds one. -/
def aboveOne (x : F32) : Bool :=
  if 0 ≤ x.exponent then 1 < x.mantissa * 10 ^ x.exponent.toNat
  else (10 : Int) ^ (-x.exponent).toNat < x.mantissa

/-- `clamp(0.0, 1.0)`. -/
def clampUnit (x : F32) : F32 :=
  if x.mantissa < 0 then ⟨0, 0⟩ else if x.aboveOne then ⟨1, 0⟩ else x

end F32

structure Sampling where
  maxTokens : Option Nat := none
  temperature : Option F32 := none
  topP : Option F32 := none
  topK : Option Nat := none
  stop : List String := []

inductive Reasoning where
  | off
  | budget (tokens : Nat)
  | effort (label : String)
  deriving DecidableEq, Repr

/-- Fields no IR type models, with the format they came from. -/
structure NamespacedExtra where
  fields : List (Format × String × Value) := []

/-- Fields any format may hand any other. -/
def passlist : List String := ["user", "stream_options", "parallel_tool_calls"]

namespace NamespacedExtra

/-- Replace the value of an entry of the same owner and name, or append one. -/
def putField (owner : Format) (field : String) (value : Value) :
    List (Format × String × Value) → List (Format × String × Value)
  | [] => [(owner, field, value)]
  | (f, name, v) :: rest =>
    if f = owner ∧ name = field then (f, name, value) :: rest
    else (f, name, v) :: putField owner field value rest

def put (bag : NamespacedExtra) (owner : Format) (field : String) (value : Value) :
    NamespacedExtra := ⟨putField owner field value bag.fields⟩

/-- Put a field that may be absent. -/
def putOption (bag : NamespacedExtra) (owner : Format) (field : String) (value : Option Value) :
    NamespacedExtra :=
  match value with
  | some v => bag.put owner field v
  | none => bag

/-- The entries a target takes: its own and those of the passlist. -/
def take (bag : NamespacedExtra) (target : Format) : List (String × Value) :=
  bag.fields.filterMap fun e =>
    if e.1 = target ∨ e.2.1 ∈ passlist then some e.2 else none

end NamespacedExtra

structure IrRequest where
  model : String := ""
  system : List IrPart := []
  messages : List IrMessage := []
  tools : List IrTool := []
  toolChoice : Option IrToolChoice := none
  sampling : Sampling := {}
  stream : Bool := false
  reasoning : Reasoning := .off
  extra : NamespacedExtra := {}

/-- Two requests are the same when all their fields are. -/
theorem IrRequest.eq_iff {a b : IrRequest} : a = b ↔
    a.model = b.model ∧ a.system = b.system ∧ a.messages = b.messages ∧ a.tools = b.tools ∧
      a.toolChoice = b.toolChoice ∧ a.sampling = b.sampling ∧ a.stream = b.stream ∧
      a.reasoning = b.reasoning ∧ a.extra = b.extra := by
  cases a
  cases b
  exact IrRequest.mk.injEq .. ▸ Iff.rfl

/-! ## Replies -/

inductive StopReason where
  | endTurn
  | maxTokens
  | toolUse
  | stopSequence
  | contentFilter
  deriving DecidableEq, Repr

namespace StopReason

def toOpenAIChat : StopReason → String
  | endTurn => "stop"
  | maxTokens => "length"
  | toolUse => "tool_calls"
  | stopSequence => "stop"
  | contentFilter => "content_filter"

def toClaude : StopReason → String
  | endTurn => "end_turn"
  | maxTokens => "max_tokens"
  | toolUse => "tool_use"
  | stopSequence => "stop_sequence"
  | contentFilter => "end_turn"

def toGemini : StopReason → String
  | endTurn => "STOP"
  | maxTokens => "MAX_TOKENS"
  | toolUse => "STOP"
  | stopSequence => "STOP"
  | contentFilter => "SAFETY"

def fromOpenAIChat (s : String) : StopReason :=
  if s = "stop" then endTurn
  else if s = "length" then maxTokens
  else if s = "tool_calls" then toolUse
  else if s = "content_filter" then contentFilter
  else endTurn

def fromClaude (s : String) : StopReason :=
  if s = "end_turn" then endTurn
  else if s = "max_tokens" then maxTokens
  else if s = "tool_use" then toolUse
  else if s = "stop_sequence" then stopSequence
  else if s = "refusal" then contentFilter
  else endTurn

def fromGemini (s : String) : StopReason :=
  if s = "STOP" then endTurn
  else if s = "MAX_TOKENS" then maxTokens
  else if s = "SAFETY" ∨ s = "PROHIBITED_CONTENT" then contentFilter
  else endTurn

/-- The reason of an incomplete Responses reply. -/
def fromOpenAIResp (s : String) : StopReason :=
  if s = "max_output_tokens" then maxTokens
  else if s = "content_filter" then contentFilter
  else endTurn

end StopReason

structure Usage where
  inputTokens : Nat := 0
  outputTokens : Nat := 0
  cacheReadTokens : Option Nat := none
  cacheWriteTokens : Option Nat := none
  cacheWrite1h : Option Nat := none
  reasoningTokens : Option Nat := none
  deriving DecidableEq, Repr

def Usage.totalTokens (u : Usage) : Nat := u.inputTokens + u.outputTokens

structure IrResponse where
  id : Option String := none
  model : String := ""
  parts : List IrPart := []
  stopReason : StopReason := .endTurn
  stopSequence : Option String := none
  usage : Usage := {}

/-! ## Streams -/

/-- One step of a streamed reply. -/
inductive CanonicalStreamEvent where
  | start (id model : String)
  | textDelta (text : String)
  | toolCallStart (index : Nat) (id name : String) (signature : Option String)
  | toolCallDelta (index : Nat) (argumentsDelta : String)
  | thinkingDelta (text : String)
  | thinkingSignature (by_ : Format) (delta : String)
  | sealedThinking (by_ : Format) (raw : Value)
  | done (stopReason : StopReason) (usage : Option Usage)
  deriving DecidableEq, Repr

namespace CanonicalStreamEvent

/-- The call an event starts: its index, its id and its name. -/
def startOf : CanonicalStreamEvent → Option (Nat × String × String)
  | toolCallStart index id name _ => some (index, id, name)
  | _ => none

/-- The piece of arguments an event has for the call of an index. -/
def pieceOf (index : Nat) : CanonicalStreamEvent → Option String
  | toolCallDelta i arguments => if i = index then some arguments else none
  | _ => none

theorem pieceOf_delta (index i : Nat) (arguments : String) :
    pieceOf index (toolCallDelta i arguments) = if i = index then some arguments else none := rfl

end CanonicalStreamEvent

/-- Every piece of arguments comes after the start of its call. -/
def CallsStarted (events : List CanonicalStreamEvent) : Prop :=
  ∀ pre index arguments post, events = pre ++ .toolCallDelta index arguments :: post →
    ∃ id name signature, .toolCallStart index id name signature ∈ pre

theorem callsStarted_append {xs ys : List CanonicalStreamEvent} (hxs : CallsStarted xs)
    (hys : CallsStarted ys) : CallsStarted (xs ++ ys) := by
  intro pre index arguments post h
  rcases List.append_eq_append_iff.mp h with ⟨mid, rfl, hmid⟩ | ⟨mid, hmid, hrest⟩
  · obtain ⟨id, name, signature, hmem⟩ := hys mid index arguments post hmid
    exact ⟨id, name, signature, List.mem_append_right _ hmem⟩
  · cases mid with
    | nil =>
      obtain ⟨id, name, signature, hmem⟩ := hys [] index arguments post hrest.symm
      cases hmem
    | cons e mid =>
      obtain ⟨rfl, -⟩ := List.cons.inj hrest
      exact hxs pre index arguments mid hmid

theorem callsStarted_of_no_delta {xs : List CanonicalStreamEvent}
    (h : ∀ index arguments, .toolCallDelta index arguments ∉ xs) : CallsStarted xs := by
  rintro pre index arguments post rfl
  exact absurd (List.mem_append_right pre List.mem_cons_self) (h index arguments)

/-- A call that starts and gets its arguments at once. -/
theorem callsStarted_call (index : Nat) (id name : String) (signature : Option String)
    (pieces : List String) : CallsStarted (.toolCallStart index id name signature ::
      pieces.map fun arguments => .toolCallDelta index arguments) := by
  intro pre i arguments post h
  cases pre with
  | nil => cases (List.cons.inj h).1
  | cons e pre =>
    obtain ⟨rfl, htail⟩ := List.cons.inj h
    have hmem : .toolCallDelta i arguments ∈
        pieces.map fun arguments => CanonicalStreamEvent.toolCallDelta index arguments := by
      rw [htail]
      exact List.mem_append_right _ List.mem_cons_self
    obtain ⟨piece, -, hpiece⟩ := List.mem_map.mp hmem
    obtain ⟨rfl, -⟩ := CanonicalStreamEvent.toolCallDelta.inj hpiece
    exact ⟨id, name, signature, List.mem_cons_self⟩

structure AccumulatedToolCall where
  index : Nat
  id : String
  name : String
  arguments : String
  deriving DecidableEq, Repr

/-- Add a piece of arguments to the first call of an index. -/
def pushArguments (index : Nat) (delta : String) :
    List AccumulatedToolCall → List AccumulatedToolCall
  | [] => []
  | tc :: rest =>
    if tc.index = index then { tc with arguments := tc.arguments ++ delta } :: rest
    else tc :: pushArguments index delta rest

/-- The first call of an index. -/
def findCall (index : Nat) (calls : List AccumulatedToolCall) : Option AccumulatedToolCall :=
  calls.find? fun tc => tc.index == index

inductive StreamPhase where
  | init
  | content
  | toolCalls
  | done
  deriving DecidableEq, Repr

/-- What a stream adapter keeps between two events. -/
structure StreamState where
  responseId : Option String := none
  model : Option String := none
  blockIndex : Nat := 0
  toolCallIndex : Nat := 0
  finishReason : Option StopReason := none
  accumulatedUsage : Option Usage := none
  accumulatedText : String := ""
  accumulatedToolCalls : List AccumulatedToolCall := []
  phase : StreamPhase := .init
  done : Bool := false
  thinkingSignature : String := ""
  thinkingSignatureBy : Option Format := none
  deriving DecidableEq, Repr

/-- The random identifiers and clock readings a converter draws, one after the other. -/
structure World where
  uuid : Nat → String
  now : Nat → Nat
  draws : Nat := 0
  ticks : Nat := 0

namespace World

def newUuid (w : World) : String × World := (w.uuid w.draws, { w with draws := w.draws + 1 })

def nowUnixSecs (w : World) : Nat × World := (w.now w.ticks, { w with ticks := w.ticks + 1 })

end World

/-- Identifiers that count, and a clock that stands still. -/
def World.counting : World := { uuid := fun n => toString n, now := fun _ => 0 }

/-- One side of a stream conversion: its state and the identifiers and times it will draw. -/
structure AdapterState extends StreamState where
  world : World

namespace AdapterState

/-- A fresh `StreamState`. -/
def fresh (w : World) : AdapterState := { world := w }

/-- Draw an identifier. -/
def newUuid (s : AdapterState) : String × AdapterState :=
  (s.world.newUuid.1, { s with world := s.world.newUuid.2 })

/-- Read the clock. -/
def nowUnixSecs (s : AdapterState) : Nat × AdapterState :=
  (s.world.nowUnixSecs.1, { s with world := s.world.nowUnixSecs.2 })

@[simp] theorem newUuid_toStreamState (s : AdapterState) :
    s.newUuid.2.toStreamState = s.toStreamState := rfl

@[simp] theorem nowUnixSecs_toStreamState (s : AdapterState) :
    s.nowUnixSecs.2.toStreamState = s.toStreamState := rfl

end AdapterState

end AnyConverter
