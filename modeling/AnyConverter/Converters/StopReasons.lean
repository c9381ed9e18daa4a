import AnyConverter.Converters.Body
import AnyConverter.Converters.Reply
import AnyConverter.Lib.JsonText

/-!
# Stop reasons of replies that call a tool

A client that dispatches on the stop reason runs a tool only when the reply says so.  Gemini and
Responses end every finished reply alike, so there the calls themselves would have to be looked at.

* `OpenAIChat.chatState_finishReason`: a Chat stream ends for the last reason its chunks give;
* `delivered_toolUse_iff`: when the target's tool-use stop reason reaches the client.
-/

set_option autoImplicit false

namespace AnyConverter

open Transducer

/-- What a client of a format waits for before it runs a tool. -/
def toolUseStop : Format → String
  | .claude => "tool_use"
  | .openAIChat => "tool_calls"
  | .openAIResponses => "completed"
  | .gemini => "STOP"

/-- A reason that says the reply was cut: for its length or by a content filter. -/
def cutShort : Format → String → Bool
  | .claude, reason => reason == "max_tokens" || reason == "refusal"
  | .openAIChat, reason => reason == "length" || reason == "content_filter"
  | .openAIResponses, status => status != "completed"
  | .gemini, reason => reason == "MAX_TOKENS" || reason == "SAFETY" || reason == "PROHIBITED_CONTENT"

/-! ## Replies -/

/-- A reply as it is received: whole, or as the events that carry its stream. -/
inductive Reply (codec : JsonCodec) where
  | whole (resp : WireResponse)
  | streamed (stream : ReplyStream) (events : List SseEvent)
      (h : Carries codec stream.source events stream.events)

def WireResponse.source : WireResponse → Format
  | .claude _ => .claude
  | .openAIChat _ => .openAIChat
  | .openAIResponses _ => .openAIResponses
  | .gemini _ => .gemini

/-- Why a reply says it ended. -/
def WireResponse.stopReason : WireResponse → Option String
  | .claude resp => resp.stopReason
  | .openAIChat resp => resp.choices.head?.bind fun c => c.finishReason
  | .openAIResponses resp => some resp.status
  | .gemini resp => resp.candidates.head?.bind fun c => c.finishReason

def WireResponse.CallsTool : WireResponse → Prop
  | .claude resp => ∃ id name input, .toolUse id name input ∈ resp.content
  | .openAIChat resp => ∃ choice, resp.choices.head? = some choice ∧
      choice.message.toolCalls.getD [] ≠ []
  | .openAIResponses resp => ∃ item ∈ resp.output,
      (item.get "type").bind Value.asStr = some "function_call"
  | .gemini resp => ∃ part ∈ resp.parts, part.functionCall ≠ none

/-- The reasons the chunks of a Chat stream give, in order. -/
def OpenAIChat.announced (chunks : List OpenAIChat.OpenAIChatStreamChunk) : List String :=
  chunks.flatMap fun chunk => chunk.choices.filterMap StreamChoice.finishReason

namespace ReplyStream

def CallsTool : ReplyStream → Prop
  | claude _ body _ _ _ _ => ∃ index id name input,
      .contentBlockStart index (.toolUse id name input) ∈ body
  | openAIChat chunks => ∃ chunk ∈ chunks, ∃ choice ∈ chunk.choices,
      choice.delta.toolCalls.getD [] ≠ []
  | openAIResponses body _ _ _ => ∃ id name, .functionCallAdded id name ∈ body
  | gemini chunks _ last _ => ∃ chunk ∈ chunks ++ [last], ∃ part ∈ chunk.parts,
      part.functionCall ≠ none

/-- The stream was not cut for its length or by a content filter. -/
def FinishedNormally : ReplyStream → Prop
  | claude _ _ _ last _ _ =>
    match last with
    | .messageDelta delta _ => ∀ reason ∈ delta.stopReason, cutShort .claude reason = false
    | .messageStop => True
  | openAIChat chunks => ∀ reason ∈ (OpenAIChat.announced chunks).getLast?,
      cutShort .openAIChat reason = false
  | openAIResponses _ _ stopReason _ => stopReason = .endTurn
  | gemini _ _ last _ => ∀ reason ∈ last.finishReason, cutShort .gemini reason = false

/-- The upstream itself says that it ended to have a tool run, or leaves the reader to say it. -/
def SaysToolUse : ReplyStream → Prop
  | claude _ _ _ last _ _ =>
    match last with
    | .messageDelta delta _ => delta.stopReason = some "tool_use"
    | .messageStop => True
  | openAIChat chunks => (OpenAIChat.announced chunks).getLast? = some "tool_calls"
  | openAIResponses _ _ _ _ => False
  | gemini _ _ _ _ => False

end ReplyStream

namespace Reply

variable {codec : JsonCodec}

def source : Reply codec → Format
  | whole resp => resp.source
  | streamed stream _ _ => stream.source

def CallsTool : Reply codec → Prop
  | whole resp => resp.CallsTool
  | streamed stream _ _ => stream.CallsTool

def FinishedNormally : Reply codec → Prop
  | whole resp => ∀ reason ∈ resp.stopReason, cutShort resp.source reason = false
  | streamed stream _ _ => stream.FinishedNormally

def SaysToolUse : Reply codec → Prop
  | whole (.claude resp) => resp.stopReason = some "tool_use"
  | whole (.openAIChat resp) =>
    (WireResponse.openAIChat resp).stopReason = some "tool_calls"
  | whole _ => False
  | streamed stream _ _ => stream.SaysToolUse

/-- The stop reasons a client of the target sees. -/
def delivered (target : Format) (w w' : World) : Reply codec → List String
  | whole resp => (convertReply codec target w resp).stopReason.toList
  | streamed stream events _ =>
    ((convertStream codec stream.source target (AdapterState.fresh w, AdapterState.fresh w')
      events).filterMap WireEvent.closing).map Closing.stopReason

end Reply

/-! ## Why the readers think a reply ended -/

namespace OpenAIChat

theorem parseChoice_reader (s : AdapterState) (choice : StreamChoice) :
    (parseChoice s choice).2.accumulatedToolCalls = s.accumulatedToolCalls ∧
      (parseChoice s choice).2.finishReason =
        (choice.finishReason.map StopReason.fromOpenAIChat).or s.finishReason := by
  have hcontent : ∀ content, (parseContent s content).2.accumulatedToolCalls =
      s.accumulatedToolCalls ∧ (parseContent s content).2.finishReason = s.finishReason := by
    intro content
    unfold parseContent
    split
    · split <;> exact ⟨rfl, rfl⟩
    · exact ⟨rfl, rfl⟩
  have hcalls : ∀ (t : AdapterState) calls, (parseToolCalls t calls).2.accumulatedToolCalls =
      t.accumulatedToolCalls ∧ (parseToolCalls t calls).2.finishReason = t.finishReason := by
    intro t calls
    unfold parseToolCalls
    split <;> exact ⟨rfl, rfl⟩
  have hreason : ∀ (t : AdapterState), (parseFinishReason t
      choice.finishReason).accumulatedToolCalls = t.accumulatedToolCalls ∧
      (parseFinishReason t choice.finishReason).finishReason =
        (choice.finishReason.map StopReason.fromOpenAIChat).or t.finishReason := by
    intro t
    unfold parseFinishReason
    split <;> rename_i h <;> simp [h]
  simp only [parseChoice, hreason, hcalls, hcontent, and_self]

theorem choices_reader (choices : List StreamChoice) (s : AdapterState) :
    (final parseChoice s choices).accumulatedToolCalls = s.accumulatedToolCalls ∧
      (final parseChoice s choices).finishReason =
        ((choices.filterMap StreamChoice.finishReason).getLast?.map
          StopReason.fromOpenAIChat).or s.finishReason := by
  induction choices generalizing s with
  | nil => exact ⟨rfl, by simp⟩
  | cons choice choices ih =>
    obtain ⟨hcalls, hreason⟩ := parseChoice_reader s choice
    rw [final_cons, (ih _).1, (ih _).2, hcalls, hreason]
    refine ⟨rfl, ?_⟩
    have hcons : (choice :: choices).filterMap StreamChoice.finishReason =
        choice.finishReason.toList ++ choices.filterMap StreamChoice.finishReason := by
      rw [List.filterMap_cons]
      cases choice.finishReason <;> rfl
    rw [hcons, List.getLast?_append, Option.map_or, Option.or_assoc]
    cases choice.finishReason <;> rfl

theorem parseChunk_reader (s : AdapterState) (chunk : OpenAIChatStreamChunk) :
    (parseChunk s chunk).2.accumulatedToolCalls = s.accumulatedToolCalls ∧
      (parseChunk s chunk).2.finishReason =
        ((chunk.choices.filterMap StreamChoice.finishReason).getLast?.map
          StopReason.fromOpenAIChat).or s.finishReason := by
  have hids : (parseUsage (parseIds s chunk).2 chunk.usage).accumulatedToolCalls =
      s.accumulatedToolCalls ∧
      (parseUsage (parseIds s chunk).2 chunk.usage).finishReason = s.finishReason := by
    unfold parseUsage parseIds
    split <;> split <;> exact ⟨rfl, rfl⟩
  have hchoices := choices_reader chunk.choices (parseUsage (parseIds s chunk).2 chunk.usage)
  rw [hids.1, hids.2] at hchoices
  exact hchoices

/-- A stream ends for the last reason its chunks give; no chunk fills the accumulator of calls. -/
theorem chatState_finishReason (chunks : List OpenAIChatStreamChunk) (s : AdapterState) :
    (final parseChunk s chunks).accumulatedToolCalls = s.accumulatedToolCalls ∧
      (final parseChunk s chunks).finishReason =
        ((announced chunks).getLast?.map StopReason.fromOpenAIChat).or s.finishReason := by
  induction chunks generalizing s with
  | nil => exact ⟨rfl, by simp [announced]⟩
  | cons chunk chunks ih =>
    obtain ⟨hcalls, hreason⟩ := parseChunk_reader s chunk
    rw [final_cons, (ih _).1, (ih _).2, hcalls, hreason]
    refine ⟨rfl, ?_⟩
    have hannounced : announced (chunk :: chunks) =
        chunk.choices.filterMap StreamChoice.finishReason ++ announced chunks := rfl
    rw [hannounced, List.getLast?_append, Option.map_or, Option.or_assoc]

end OpenAIChat

/-- A call that was started is counted to the end of the body. -/
theorem Claude.claudeState_toolCallIndex {body : List Claude.Upstream}
    (hbody : ∀ u ∈ body, u.isBody = true) {index : Nat} {id name : String} {input : Value}
    (h : .contentBlockStart index (.toolUse id name input) ∈ body) (w : World)
    (message : ClaudeStreamMessage) :
    0 < (ReplyStream.claudeState w message body).toolCallIndex := by
  obtain ⟨before, after, rfl⟩ := List.append_of_mem h
  rw [ReplyStream.claudeState, final_cons, final_append, final_cons]
  refine final_induction (I := fun s : AdapterState => 0 < s.toolCallIndex)
    (P := fun u => u.isBody = true) ?_ after _ (Nat.succ_pos _) ?_
  · intro s u hs hu
    exact lt_of_lt_of_le hs (Claude.parse_body hu s).2.2.1
  · intro u hu
    exact hbody u (List.mem_append_right _ (List.mem_cons_of_mem _ hu))

theorem fromClaude_normal {s : String} (h : cutShort .claude s = false) :
    StopReason.fromClaude s ≠ .maxTokens ∧ StopReason.fromClaude s ≠ .contentFilter ∧
      (StopReason.fromClaude s = .toolUse ↔ s = "tool_use") := by
  simp only [cutShort, Bool.or_eq_false_iff, beq_eq_false_iff_ne] at h
  unfold StopReason.fromClaude
  grind

theorem fromOpenAIChat_normal {s : String} (h : cutShort .openAIChat s = false) :
    StopReason.fromOpenAIChat s ≠ .maxTokens ∧ StopReason.fromOpenAIChat s ≠ .contentFilter ∧
      (StopReason.fromOpenAIChat s = .toolUse ↔ s = "tool_calls") := by
  simp only [cutShort, Bool.or_eq_false_iff, beq_eq_false_iff_ne] at h
  unfold StopReason.fromOpenAIChat
  grind

/-- Gemini has no reason of its own for a call. -/
theorem fromGemini_normal {s : String} (h : cutShort .gemini s = false) :
    StopReason.fromGemini s = .endTurn := by
  simp only [cutShort, Bool.or_eq_false_iff, beq_eq_false_iff_ne] at h
  unfold StopReason.fromGemini
  grind

/-- A reason that may be missing; nothing said is an ordinary end. -/
theorem normal_getD {from_ : String → StopReason} {cut : String → Bool} {word : String}
    (h : ∀ s, cut s = false →
      from_ s ≠ .maxTokens ∧ from_ s ≠ .contentFilter ∧ (from_ s = .toolUse ↔ s = word))
    {said : Option String} (hsaid : ∀ s ∈ said, cut s = false) :
    (said.map from_).getD .endTurn ≠ .maxTokens ∧ (said.map from_).getD .endTurn ≠ .contentFilter ∧
      ((said.map from_).getD .endTurn = .toolUse ↔ said = some word) := by
  cases said with
  | none => simp
  | some s =>
    simp only [Option.map_some, Option.getD_some, Option.some.injEq]
    exact h s (hsaid s rfl)

theorem endTurn_normal : StopReason.endTurn ≠ .maxTokens ∧ StopReason.endTurn ≠ .contentFilter ∧
    (StopReason.endTurn = .toolUse ↔ False) := by
  simp

/-- The reader of a whole reply looks at what it says, not at its calls. -/
theorem readResponse_stopReason (codec : JsonCodec) (w : World) (resp : WireResponse)
    (hnormal : (@Reply.whole codec resp).FinishedNormally) :
    (readResponse codec w resp).1.stopReason ≠ .maxTokens ∧
      (readResponse codec w resp).1.stopReason ≠ .contentFilter ∧
      ((readResponse codec w resp).1.stopReason = .toolUse ↔
        (@Reply.whole codec resp).SaysToolUse) := by
  cases resp with
  | claude resp =>
    have h := normal_getD (fun _ => fromClaude_normal) hnormal
    have hsame : (Claude.readResponse resp).stopReason =
        (resp.stopReason.map StopReason.fromClaude).getD .endTurn := by
      simp only [Claude.readResponse]
      cases resp.stopReason <;> rfl
    simp only [readResponse, hsame]
    exact h
  | openAIChat resp =>
    have h := normal_getD (fun _ => fromOpenAIChat_normal) hnormal
    have hsame : (OpenAIChat.readResponse codec resp).stopReason =
        ((WireResponse.openAIChat resp).stopReason.map StopReason.fromOpenAIChat).getD
          .endTurn := by
      simp only [OpenAIChat.readResponse, WireResponse.stopReason]
      cases resp.choices <;> rfl
    simp only [readResponse, hsame]
    exact h
  | openAIResponses resp =>
    have hstatus : resp.status = "completed" := by
      simpa [cutShort, WireResponse.source] using hnormal resp.status rfl
    have hsame : (OpenAIResponses.readResponse codec w resp).1.stopReason = .endTurn := by
      simp [OpenAIResponses.readResponse, OpenAIResponses.readStatus, hstatus,
        StopReason.fromOpenAIResp]
    simp only [readResponse, hsame]
    exact endTurn_normal
  | gemini resp =>
    have hsame : (Gemini.readResponse w resp).1.stopReason = .endTurn := by
      simp only [Gemini.readResponse]
      cases hsaid : resp.candidates.head?.bind (·.finishReason) with
      | none => rfl
      | some reason => exact fromGemini_normal (hnormal reason hsaid)
    simp only [readResponse, hsame]
    exact endTurn_normal

theorem stopReason_replyStream (w : World) {r : ReplyStream} (hcalls : r.CallsTool)
    (hnormal : r.FinishedNormally) :
    r.stopReason w ≠ .maxTokens ∧ r.stopReason w ≠ .contentFilter ∧
      (r.stopReason w = .toolUse ↔ r.SaysToolUse) := by
  cases r with
  | claude message body hbody last rest hrest =>
    cases last with
    | messageDelta delta usage => exact normal_getD (fun _ => fromClaude_normal) hnormal
    | messageStop =>
      -- without a `message_delta` the reader counts the calls itself
      obtain ⟨index, id, name, input, hmem⟩ := hcalls
      have hcall := Claude.claudeState_toolCallIndex hbody hmem w message
      simp [ReplyStream.stopReason, ReplyStream.SaysToolUse, hcall]
  | openAIChat chunks =>
    have h := normal_getD (fun _ => fromOpenAIChat_normal) hnormal
    obtain ⟨hcalls, hreason⟩ :=
      OpenAIChat.chatState_finishReason chunks (AdapterState.fresh w)
    have hsame : (ReplyStream.openAIChat chunks).stopReason w =
        ((OpenAIChat.announced chunks).getLast?.map StopReason.fromOpenAIChat).getD .endTurn := by
      have hempty : (AdapterState.fresh w).accumulatedToolCalls = [] := rfl
      have hnone : (AdapterState.fresh w).finishReason = none := rfl
      simp only [ReplyStream.stopReason, OpenAIChat.finalStopReason, ReplyStream.chatState, hcalls,
        hempty, ne_eq, not_true_eq_false, if_false, hreason, hnone, Option.or_none]
    rw [hsame]
    exact h
  | openAIResponses body hbody stopReason usage =>
    have hsame : stopReason = .endTurn := hnormal
    subst hsame
    exact endTurn_normal
  | gemini chunks hchunks last hlast =>
    have hsame : (ReplyStream.gemini chunks hchunks last hlast).stopReason w = .endTurn := by
      obtain ⟨reason, hreason⟩ := Option.ne_none_iff_exists'.mp hlast
      simp only [ReplyStream.stopReason, hreason, Option.map_some, Option.getD_some]
      exact fromGemini_normal (hnormal reason hreason)
    rw [hsame]
    exact endTurn_normal

/-! ## What the client is told -/

/-- The stop reason a builder writes on a whole reply. -/
def builtStop (target : Format) (reason : StopReason) : String :=
  match target with
  | .claude => reason.toClaude
  | .openAIChat => reason.toOpenAIChat
  | .openAIResponses => OpenAIResponses.buildStatus reason
  | .gemini => reason.toGemini

theorem convertReply_stopReason (codec : JsonCodec) (target : Format) (w : World)
    (resp : WireResponse) : (convertReply codec target w resp).stopReason =
      some (builtStop target (readResponse codec w resp).1.stopReason) := by
  cases target <;> rfl

theorem toolUseStop_iff (target : Format) {reason : StopReason} (hmax : reason ≠ .maxTokens)
    (hfilter : reason ≠ .contentFilter) (usage : Option Usage) :
    (builtStop target reason = toolUseStop target ↔
      target = .gemini ∨ target = .openAIResponses ∨ reason = .toolUse) ∧
    ((closingOf target reason usage).stopReason = toolUseStop target ↔
      target = .gemini ∨ target = .openAIResponses ∨ reason = .toolUse) := by
  cases target <;> cases reason <;>
    simp_all [builtStop, closingOf, toolUseStop, StopReason.toClaude, StopReason.toOpenAIChat,
      StopReason.toGemini, OpenAIResponses.buildStatus, OpenAIResponses.stopReasonToStatus]

/-- **A reply that calls a tool is delivered as one** to Gemini and Responses clients, whose stop
reason does not tell; to the others exactly when the upstream's own stop reason says so, or a Claude
upstream leaves it to be inferred. -/
theorem delivered_toolUse_iff {codec : JsonCodec} (target : Format) (w w' : World)
    (r : Reply codec) (hne : r.source ≠ target) (hcalls : r.CallsTool)
    (hnormal : r.FinishedNormally) :
    r.delivered target w w' = [toolUseStop target] ↔
      target = .gemini ∨ target = .openAIResponses ∨ r.SaysToolUse := by
  cases r with
  | whole resp =>
    obtain ⟨hmax, hfilter, htool⟩ := readResponse_stopReason codec w resp hnormal
    rw [Reply.delivered, convertReply_stopReason, Option.toList_some, List.singleton_inj, ← htool]
    exact (toolUseStop_iff target hmax hfilter none).1
  | streamed stream events h =>
    obtain ⟨hmax, hfilter, htool⟩ := stopReason_replyStream w hcalls hnormal
    have hpair := @convertStreamEvent_of_ne codec stream.source target hne
    rw [Reply.delivered, convertStream, hpair,
      closings_convertPair codec target w w' h, List.map_singleton, List.singleton_inj]
    rw [(toolUseStop_iff target hmax hfilter _).2, htool]
    rfl

/-- A Claude reply that calls a tool, as `tool_use` says. -/
def searchUse : WireResponse := .claude {
  id := "msg_1", type := "message", role := "assistant", model := "sonnet"
  content := [.toolUse "toolu_1" "search" (.object [])], stopReason := some "tool_use"
  stopSequence := none
  usage := {
    inputTokens := 3, outputTokens := 1, cacheCreationInputTokens := none, cacheCreation := none
    cacheReadInputTokens := none } }

theorem delivered_toolUse_iff_searchUse :
    (@Reply.whole JsonText.compactCodec searchUse).delivered .openAIChat World.counting
      World.counting = [toolUseStop .openAIChat] :=
  (delivered_toolUse_iff .openAIChat World.counting World.counting (Reply.whole searchUse)
    (by decide) ⟨"toolu_1", "search", .object [], List.mem_singleton.mpr rfl⟩
    (by intro reason hreason; cases hreason; decide)).mpr (.inr (.inr rfl))

/-- A Gemini reply that calls a tool: Gemini ends it with `STOP`, as it ends every other. -/
def searchStop : WireResponse := .gemini {
  candidates := [{
    content := { role := some "model", parts := [{ functionCall := some ⟨"search", .object [], none⟩ }] }
    finishReason := some "STOP", index := some 0 }]
  usageMetadata := none, modelVersion := some "gemini-pro" }

/-- The client of a Claude target is told `end_turn`. -/
theorem searchStop_not_delivered :
    (@Reply.whole JsonText.compactCodec searchStop).CallsTool ∧
      (@Reply.whole JsonText.compactCodec searchStop).FinishedNormally ∧
      (@Reply.whole JsonText.compactCodec searchStop).delivered .claude World.counting
        World.counting ≠ [toolUseStop .claude] := by
  refine ⟨⟨_, List.mem_singleton.mpr rfl, by simp⟩, ?_, by decide⟩
  intro reason hreason
  cases hreason
  decide

end AnyConverter
