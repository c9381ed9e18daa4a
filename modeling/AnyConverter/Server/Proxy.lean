import AnyConverter.Lib.JsonText
import AnyConverter.Converters.Terminal

/-!
# The streaming relay

The server relays a stream block by block.  `convertSseBlock` unwraps a Code Assist envelope,
answers the Chat sentinel itself and hands everything else to the converter.

* `relay_unterminated`: no block of a Chat stream makes the relay write a terminal event;
* `relay_sentinel`: the sentinel of the upstream is relayed as it is;
* `relay_chat_never_terminates`: so a client of another format never sees its stream end.
-/

set_option autoImplicit false

namespace AnyConverter

open Transducer

/-- The API an upstream speaks. -/
inductive UpstreamApi where
  | chat
  | claude
  | responses
  | gemini
  | codeAssist
  | copilot
  deriving DecidableEq, Repr

/-- What the relay writes to the client. -/
inductive RelayLine where
  | wire (event : WireEvent)
  /-- `data: [DONE]`, written by the relay itself -/
  | sentinel
  | error (message : String)
  deriving DecidableEq, Repr

def RelayLine.toText (codec : JsonCodec) : RelayLine → String
  | .wire event => event.toText codec
  | .sentinel => "data: [DONE]\n\n"
  | .error message => formatSseEvent "error" (codec.toText (.object [("error", .string message)]))

/-- A payload out of its `{"response": …}` envelope; anything else stays as it is. -/
def unwrapCodeAssist (codec : JsonCodec) (payload : String) : String :=
  match codec.fromStr payload with
  | none => payload
  | some value =>
    match value.get "response" with
    | none => payload
    | some inner => codec.toText inner

/-- The event of a block, out of its envelope. -/
def openEnvelope (codec : JsonCodec) (api : UpstreamApi) (event : SseEvent) : SseEvent :=
  if api = .codeAssist then { event with data := unwrapCodeAssist codec event.data } else event

/-- One block of the upstream's stream. -/
def convertSseBlock (codec : JsonCodec) (api : UpstreamApi) (source target : Format) :
    Step (AdapterState × AdapterState) String RelayLine := fun st block =>
  match parseSseBlock block with
  | none => ([], st)
  | some event =>
    let event := openEnvelope codec api event
    if isOpenaiDone event.data then ([.sentinel], st)
    else
      match convertStreamEvent codec source target st event with
      | (.ok lines, st') => (lines.map .wire, st')
      | (.error err, st') => ([.error err.toText], st')

/-- A whole stream, block by block. -/
def relay (codec : JsonCodec) (api : UpstreamApi) (source target : Format)
    (st : AdapterState × AdapterState) (blocks : List String) : List RelayLine :=
  outputs (convertSseBlock codec api source target) st blocks

/-! ## What a terminated stream is -/

def RelayLine.isTerminal : RelayLine → Bool
  | .wire event => event.isTerminal
  | _ => false

/-- The events a stream of a format ends with, when it carries a stop reason and a usage. -/
def IsEnding (target : Format) (reason : StopReason) (usage : Option Usage)
    (ending : List RelayLine) : Prop :=
  match target with
  | .claude => ∃ reported : Claude.DeltaUsage,
      ending = [.wire (.claude (.messageDelta reason.toClaude reported)),
        .wire (.claude .messageStop)] ∧
      ∀ u, usage = some u → reported.outputTokens = u.outputTokens ∧
        reported.cacheReadInputTokens = u.cacheReadTokens ∧
        reported.inputTokens + reported.cacheReadInputTokens.getD 0 = u.inputTokens
  | .openAIChat => ∃ chunk : OpenAIChat.OpenAIChatStreamChunk,
      ending = [.wire (.openAIChat (.chunk chunk)), .wire (.openAIChat .done)] ∧
      chunk.choices.map (·.finishReason) = [some reason.toOpenAIChat] ∧
      ∀ u, usage = some u → chunk.usage.map (fun v => (v.promptTokens, v.completionTokens)) =
        some (u.inputTokens, u.outputTokens)
  | .openAIResponses => ∃ response : OpenAIResponses.StreamResponse,
      ending = [.wire (.openAIResponses (.completed response))] ∧
      response.status = OpenAIResponses.stopReasonToStatus reason ∧
      ∀ u, usage = some u → response.usage.map (fun v => (v.inputTokens, v.outputTokens)) =
        some (u.inputTokens, u.outputTokens)
  | .gemini => ∃ chunk : Gemini.GeminiResponse, ending = [.wire (.gemini chunk)] ∧
      chunk.candidates.map (·.finishReason) = [some reason.toGemini] ∧
      ∀ u, usage = some u → chunk.usageMetadata.map
        (fun v => (v.promptTokenCount, v.candidatesTokenCount)) =
          some (some u.inputTokens, some u.outputTokens)

/-- The client's stream ends with one terminal event of its format, which carries what the
upstream announced, and holds no sentinel of another format. -/
structure Terminated (target : Format) (reason : StopReason) (usage : Option Usage)
    (lines : List RelayLine) : Prop where
  ends : ∃ body ending, lines = body ++ ending ∧ IsEnding target reason usage ending
  once : (lines.filter RelayLine.isTerminal).length = 1
  noSentinel : RelayLine.sentinel ∉ lines

/-- The stop reason the chunks announce: that of the last `finish_reason`. -/
def announcedReason (chunks : List OpenAIChat.OpenAIChatStreamChunk) : StopReason :=
  (((chunks.flatMap (·.choices)).filterMap (·.finishReason)).getLast?.map
    StopReason.fromOpenAIChat).getD .endTurn

/-- The usage the chunks announce: the last one. -/
def announcedUsage (chunks : List OpenAIChat.OpenAIChatStreamChunk) : Option Usage :=
  (chunks.filterMap (·.usage)).getLast?.map OpenAIChat.chunkUsage

/-- A block whose payload reads as a chunk. -/
def IsChunkBlock (codec : JsonCodec) (block : String) (chunk : OpenAIChat.OpenAIChatStreamChunk) :
    Prop :=
  ∃ event, parseSseBlock block = some event ∧ isOpenaiDone event.data = false ∧
    codec.decode OpenAIChat.OpenAIChatStreamChunk.ofValue event.data = some chunk

/-- The block a Chat stream ends with. -/
def doneBlock : String := "data: [DONE]"

/-! ## The relay of a Chat stream -/

section
variable {codec : JsonCodec} {api : UpstreamApi} {target : Format}

/-- What a Chat event other than the sentinel is converted to ends no stream. -/
theorem convertPair_chat_silent (st : AdapterState × AdapterState) {event : SseEvent}
    (hevent : isOpenaiDone event.data = false) {lines : List WireEvent}
    (h : (convertPair codec .openAIChat target st event).1 = .ok lines) :
    ∀ w ∈ lines, w.isTerminal = false := by
  have hdecode : OpenAIChat.decode codec event ≠ .ok .done := by
    unfold OpenAIChat.decode
    rw [hevent, if_neg Bool.false_ne_true]
    split <;> simp
  have hcanonical : ∀ canonical, (parseStream codec .openAIChat st.1 event).1 = .ok canonical →
      ∀ e ∈ canonical, e.isDone = false := by
    intro canonical hc
    simp only [parseStream, decodeThen] at hc
    split at hc
    · cases hc
    · rename_i u hu
      cases u with
      | done => exact absurd hu hdecode
      | chunk chunk =>
        cases hc
        exact OpenAIChat.parseChunk_not_done st.1 chunk
  unfold convertPair at h
  split at h
  · cases h
  · rename_i canonical stateIn hp
    have hc := hcanonical canonical (by rw [hp])
    intro w hw
    have hrun : ∀ w ∈ emitted (runAll (emitStream codec target) st.2 canonical).1,
        w.isTerminal = false :=
      runAll_outputs (fun s e he w hw => (emitStream_silent codec target s he hw).terminal) canonical st.2 hc
    rw [h] at hrun
    exact hrun w hw

theorem convertSseBlock_chat_silent (htarget : target ≠ .openAIChat)
    (st : AdapterState × AdapterState) (block : String) :
    ∀ l ∈ (convertSseBlock codec api .openAIChat target st block).1, l.isTerminal = false := by
  intro l hl
  unfold convertSseBlock at hl
  split at hl
  · cases hl
  · rename_i event _
    dsimp only at hl
    split at hl
    · rw [List.mem_singleton] at hl
      subst hl
      rfl
    · rename_i hnot
      have hnot' : isOpenaiDone (openEnvelope codec api event).data = false := by simpa using hnot
      rw [convertStreamEvent_of_ne (Ne.symm htarget)] at hl
      split at hl
      · rename_i lines st' hconv
        rw [List.mem_map] at hl
        obtain ⟨w, hw, rfl⟩ := hl
        exact convertPair_chat_silent st hnot' (by rw [hconv]) w hw
      · rw [List.mem_singleton] at hl
        subst hl
        rfl

/-- **No block of a Chat stream makes the relay write a terminal event.** -/
theorem relay_unterminated (htarget : target ≠ .openAIChat) (st : AdapterState × AdapterState)
    (blocks : List String) :
    ∀ l ∈ relay codec api .openAIChat target st blocks, l.isTerminal = false :=
  outputs_forall (convertSseBlock_chat_silent htarget) blocks st

theorem relay_not_terminated (htarget : target ≠ .openAIChat) (st : AdapterState × AdapterState)
    (blocks : List String) (reason : StopReason) (usage : Option Usage) :
    ¬ Terminated target reason usage (relay codec api .openAIChat target st blocks) := by
  intro h
  have hsilent : ∀ l ∈ relay codec api .openAIChat target st blocks, l.isTerminal = false :=
    relay_unterminated htarget st blocks
  have hnone : (relay codec api .openAIChat target st blocks).filter RelayLine.isTerminal = [] := by
    rw [List.filter_eq_nil_iff]
    intro l hl
    simp [hsilent l hl]
  have honce := h.once
  rw [hnone] at honce
  cases honce

/-- The sentinel of the upstream reaches the client, whatever the client's format. -/
theorem relay_sentinel (hplain : api ≠ .codeAssist) (st : AdapterState × AdapterState)
    (blocks : List String) :
    .sentinel ∈ relay codec api .openAIChat target st (blocks ++ [doneBlock]) := by
  have hblock : parseSseBlock doneBlock = some ⟨none, "[DONE]"⟩ := by decide +kernel
  have hdone : isOpenaiDone "[DONE]" = true := by decide +kernel
  have hlast : ∀ s, (convertSseBlock codec api .openAIChat target s doneBlock).1 = [.sentinel] := by
    intro s
    simp only [convertSseBlock, hblock, openEnvelope, if_neg hplain, hdone, if_true]
  unfold relay
  rw [outputs_append, outputs_cons, hlast]
  exact List.mem_append_right _ List.mem_cons_self

end

/-- **The relay never ends a converted Chat stream.**  Whatever chunks an upstream sends before
the sentinel, no client of another format receives a stream that ends with the stop reason and
the usage they announced. -/
theorem relay_chat_never_terminates (codec : JsonCodec) (api : UpstreamApi) (target : Format)
    (htarget : target ≠ .openAIChat) (w w' : World) (blocks : List String)
    (chunks : List OpenAIChat.OpenAIChatStreamChunk)
    (_hblocks : List.Forall₂ (IsChunkBlock codec) blocks chunks) :
    ¬ Terminated target (announcedReason chunks) (announcedUsage chunks)
      (relay codec api .openAIChat target (.fresh w, .fresh w') (blocks ++ [doneBlock])) :=
  relay_not_terminated htarget _ _ _ _

/-- A chunk with a text, a finish reason and a usage. -/
def helloChunk : OpenAIChat.OpenAIChatStreamChunk where
  id := "chatcmpl-1"
  object := "chat.completion.chunk"
  created := 0
  model := "m"
  choices := [{ index := 0, delta := { content := some "Hi" }, finishReason := some "stop" }]
  usage := some {
    promptTokens := 3, completionTokens := 1, totalTokens := 4, promptTokensDetails := none }

def helloBlock : String := "data: " ++ JsonText.compactCodec.toText helloChunk.toValue

theorem helloBlock_event : parseSseBlock helloBlock =
    some ⟨none, JsonText.compactCodec.toText helloChunk.toValue⟩ :=
  parseSseBlock_data (JsonText.compactCodec_toList _) (by decide) (by decide +kernel)

theorem helloBlock_not_done :
    isOpenaiDone (JsonText.compactCodec.toText helloChunk.toValue) = false :=
  isOpenaiDone_object (JsonText.compactCodec_toList _)

theorem helloBlock_decode : JsonText.compactCodec.decode OpenAIChat.OpenAIChatStreamChunk.ofValue
    (JsonText.compactCodec.toText helloChunk.toValue) = some helloChunk := by
  rw [JsonText.compactCodec_decode]
  decide +kernel

theorem helloBlock_isChunkBlock : IsChunkBlock JsonText.compactCodec helloBlock helloChunk :=
  ⟨_, helloBlock_event, helloBlock_not_done, helloBlock_decode⟩

theorem relay_chat_never_terminates_hello :
    Format.claude ≠ .openAIChat ∧
    List.Forall₂ (IsChunkBlock JsonText.compactCodec) [helloBlock] [helloChunk] ∧
    ¬ Terminated .claude (announcedReason [helloChunk]) (announcedUsage [helloChunk])
      (relay JsonText.compactCodec .chat .openAIChat .claude
        (.fresh World.counting, .fresh World.counting) ([helloBlock] ++ [doneBlock])) :=
  ⟨by decide, .cons helloBlock_isChunkBlock .nil,
    relay_chat_never_terminates _ _ _ (by decide) _ _ _ _ (.cons helloBlock_isChunkBlock .nil)⟩

/-- One chunk and the sentinel, relayed to a Claude client: the stream stays open. -/
theorem relay_hello_unterminated :
    IsChunkBlock JsonText.compactCodec helloBlock helloChunk ∧
    ¬ Terminated .claude .endTurn (some { inputTokens := 3, outputTokens := 1 })
      (relay JsonText.compactCodec .chat .openAIChat .claude
        (.fresh World.counting, .fresh World.counting) [helloBlock, doneBlock]) :=
  ⟨helloBlock_isChunkBlock, relay_not_terminated (by decide) _ _ _ _⟩

end AnyConverter
