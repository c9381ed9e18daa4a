import AnyConverter.Converters.Reassembly.ChatCalls
import AnyConverter.Converters.Reassembly.Whole

/-!
# Chat replies, streamed and whole

For each target, when a client has the same of a Chat reply either way.  `Reassembles` says so of
the message and its chunks: no streamed reply keeps its reasoning but a Claude one without text or
calls; a Claude stream drops text where there are calls and gives each the arguments that come while
it is the last; a Responses or a Gemini stream has the calls as they start, and a Gemini stream
shows a call again when its arguments come.
-/

set_option autoImplicit false

namespace AnyConverter.OpenAIChat

open Transducer CanonicalStreamEvent
open OpenAIResponses (IsBody signatureOf thinkingTextEnd startedCalls)

/-! ## The condition -/

/-- The message has these calls when each piece of arguments goes to the call that started last. -/
def CallsInTurn (codec : JsonCodec) (message : ChoiceMessage)
    (chunks : List OpenAIChatStreamChunk) : Prop :=
  (Claude.callsInTurn (fragmentsOf chunks)).map (AccumulatedToolCall.seen codec) =
    (message.toolCalls.getD []).map (ToolCall.seen codec)

/-- A client has the same of the streamed reply as of the whole. -/
def Reassembles (codec : JsonCodec) (message : ChoiceMessage)
    (chunks : List OpenAIChatStreamChunk) : Format → Prop
  | .claude =>
    if message.toolCalls.getD [] = [] then
      message.content.getD "" = "" ∨ message.reasoningContent.getD "" = ""
    else message.content.getD "" = "" ∧ message.reasoningContent.getD "" = "" ∧
      CallsInTurn codec message chunks
  | .openAIChat => True
  | .openAIResponses =>
    message.reasoningContent.getD "" = "" ∧ CallsInOrder codec message chunks
  | .gemini =>
    message.reasoningContent.getD "" = "" ∧ Gemini.NeverReads codec [] (fragmentsOf chunks) ∧
      CallsInOrder codec message chunks

/-! ## What the events say -/

variable {codec : JsonCodec} {message : ChoiceMessage} {chunks : List OpenAIChatStreamChunk}

/-- The events of the deltas. -/
def bodyOf (chunks : List OpenAIChatStreamChunk) : List CanonicalStreamEvent :=
  (deltasOf chunks).flatMap deltaEvents

theorem mem_bodyOf {e : CanonicalStreamEvent} (he : e ∈ bodyOf chunks) :
    (∃ t, e = textDelta t ∧ t ≠ "") ∨ (∃ t, e = thinkingDelta t ∧ t ≠ "") ∨
      (∃ index id name, e = toolCallStart index id name none) ∨
      ∃ index piece, e = toolCallDelta index piece := by
  obtain ⟨d, -, hd⟩ := List.mem_flatMap.mp he
  exact isBody_deltaEvents hd

theorem isBody_bodyOf : ∀ e ∈ bodyOf chunks, IsBody e := by
  intro e he
  rcases mem_bodyOf he with ⟨t, rfl, -⟩ | ⟨t, rfl, -⟩ | ⟨i, id, name, rfl⟩ | ⟨i, t, rfl⟩ <;> trivial

/-- A Chat reply has no signatures. -/
theorem signatureOf_bodyOf : String.join ((bodyOf chunks).map signatureOf) = "" := by
  refine Text.join_map_empty_iff.mpr fun e he => ?_
  rcases mem_bodyOf he with ⟨t, rfl, -⟩ | ⟨t, rfl, -⟩ | ⟨i, id, name, rfl⟩ | ⟨i, t, rfl⟩ <;> rfl

theorem Cut.joins (h : Cut message chunks) :
    String.join ((bodyOf chunks).map OpenAIResponses.textOf) = message.content.getD "" ∧
      String.join ((bodyOf chunks).map thinkingOf) = message.reasoningContent.getD "" := by
  obtain ⟨htext, hthinking⟩ := join_deltasEvents (deltasOf chunks)
  exact ⟨htext.trans h.content, hthinking.trans h.reasoning⟩

/-- Reading changes nothing about what the fragments add up to. -/
theorem collect_bodyOf
    {place : AccumulatedToolCall → List AccumulatedToolCall → List AccumulatedToolCall}
    {push : Nat → String → List AccumulatedToolCall → List AccumulatedToolCall}
    (hpush : ∀ index calls, push index "" calls = calls) :
    ((bodyOf chunks).flatMap fragment).foldl (collectStep place push) [] =
      (fragmentsOf chunks).foldl (collectStep place push) [] := by
  rw [bodyOf, flatMap_fragment, collect_read hpush]
  rfl

/-- The parts of a message carry no signatures. -/
theorem mem_choiceParts {part : IrPart} (h : part ∈ choiceParts codec message) :
    (∃ t, part = .text t none) ∨ (∃ t, part = .thinking t none) ∨
      ∃ id name args, part = .toolCall id name args none := by
  rw [choiceParts, List.mem_append, List.mem_append] at h
  rcases h with (h | h) | h
  · obtain ⟨t, -, rfl⟩ := Option.map_eq_some_iff.mp (Option.mem_toList.mp h)
    exact .inl ⟨t, rfl⟩
  · obtain ⟨t, -, rfl⟩ := Option.map_eq_some_iff.mp (Option.mem_toList.mp h)
    exact .inr (.inl ⟨t, rfl⟩)
  · obtain ⟨tc, -, rfl⟩ := List.mem_map.mp h
    exact .inr (.inr ⟨_, _, _, rfl⟩)

/-! ## Each target -/

section
variable (w w' : World) (id model : String) (reason : StopReason) (usage : Option Usage)

theorem responses_iff (hcodec : codec.Lawful) (h : Cut message chunks) :
    OpenAIResponses.assemble codec
        (OpenAIResponses.replyEvents codec w id model (bodyOf chunks) reason usage) =
        (OpenAIResponses.itemView codec).assemble
          (OpenAIResponses.outputItems codec w' [] (choiceParts codec message)).1 ↔
      message.reasoningContent.getD "" = "" ∧ CallsInOrder codec message chunks := by
  obtain ⟨htext, -⟩ := h.joins
  have hsigns : OpenAIResponses.signs (bodyOf chunks) = false := by
    simp [OpenAIResponses.signs, signatureOf_bodyOf, Text.afterLast_of_not_mem]
  have hcalls := @collect_bodyOf chunks (fun call calls => calls ++ [call]) pushArguments
    pushArguments_empty
  rw [OpenAIResponses.assemble_built hcodec, assemble_choiceParts,
    OpenAIResponses.assemble_replyEvents isBody_bodyOf, htext, hsigns, startedCalls, hcalls,
    ← startedCalls, ChoiceMessage.seen, Assembled.mk.injEq, callsInOrder_iff codec h]
  exact ⟨fun heq => ⟨heq.2.1.symm, heq.2.2⟩, fun hboth => ⟨rfl, hboth.1.symm, hboth.2⟩⟩

theorem gemini_iff (hcodec : codec.Lawful) (h : Cut message chunks) :
    Gemini.assemble (outputs (Gemini.emit codec) (.fresh w)
        (start id model :: bodyOf chunks ++ [done reason usage])) =
        Gemini.partView.assemble (((choiceParts codec message).filter
          Gemini.isResponsePart).filterMap Gemini.buildPart) ↔
      message.reasoningContent.getD "" = "" ∧ Gemini.NeverReads codec [] (fragmentsOf chunks) ∧
        CallsInOrder codec message chunks := by
  obtain ⟨htext, -⟩ := h.joins
  have hunsigned : ∀ part ∈ choiceParts codec message, Gemini.Unsigned part := by
    intro part hpart
    rcases mem_choiceParts hpart with ⟨t, rfl⟩ | ⟨t, rfl⟩ | ⟨callId, name, args, rfl⟩
    · trivial
    · rfl
    · trivial
  have hplain : ∀ delta, thinkingSignature .gemini delta ∉ bodyOf chunks := by
    intro delta hmem
    rcases mem_bodyOf hmem with ⟨t, ht, -⟩ | ⟨t, ht, -⟩ | ⟨i, id, name, ht⟩ | ⟨i, t, ht⟩ <;> cases ht
  have hspoken := Gemini.text_iff (choiceParts codec message)
  rw [assemble_choiceParts] at hspoken
  have hshown : Gemini.shownCalls codec [] (bodyOf chunks) =
      Gemini.shownCalls codec [] ((fragmentsOf chunks).flatMap parseToolCall) :=
    Gemini.shownCalls_deltas codec (deltasOf chunks) []
  rw [Gemini.assemble_reply codec hplain, Gemini.assemble_built hunsigned, assemble_choiceParts,
    htext, hshown, Assembled.mk.injEq, ← h.shown_iff hcodec]
  refine and_congr (eq_comm.trans hspoken) ?_
  exact ⟨fun heq => heq.2, fun heq => ⟨rfl, heq⟩⟩

theorem claude_iff (h : Cut message chunks) :
    Claude.assemble codec (outputs Claude.emit (.fresh w)
        (start id model :: bodyOf chunks ++ [done reason usage])) =
        Claude.blockView.assemble
          ((choiceParts codec message).filterMap Claude.buildResponseBlock) ↔
      Reassembles codec message chunks .claude := by
  obtain ⟨htext, hthinking⟩ := h.joins
  have hunsigned : ∀ text signature, .text text (some signature) ∉ choiceParts codec message := by
    intro text signature hmem
    rcases mem_choiceParts hmem with ⟨t, ht⟩ | ⟨t, ht⟩ | ⟨callId, name, args, ht⟩ <;> cases ht
  have hturn : Claude.callsInTurn ((bodyOf chunks).flatMap fragment) =
      Claude.callsInTurn (fragmentsOf chunks) := collect_bodyOf Claude.pushLast_empty
  rw [Claude.assemble_built hunsigned, assemble_choiceParts, Reassembles]
  split
  · rename_i hnone
    have hcalls : Claude.callsInTurn ((bodyOf chunks).flatMap fragment) = [] :=
      hturn.trans (h.callsInTurn_eq_nil_iff.mpr hnone)
    have hempty : textDelta "" ∉ bodyOf chunks ∧ thinkingDelta "" ∉ bodyOf chunks := by
      constructor <;>
      · intro hmem
        rcases mem_bodyOf hmem with ⟨t, ht, hne⟩ | ⟨t, ht, hne⟩ | ⟨i, id, name, ht⟩ | ⟨i, t, ht⟩ <;>
        · cases ht
          try exact hne rfl
    have hiff := @Claude.assemble_said_iff codec w id model (bodyOf chunks) reason usage
      isBody_bodyOf hcalls hempty.1 hempty.2
    rw [htext, hthinking] at hiff
    rw [ChoiceMessage.seen, hnone]
    exact hiff
  · rename_i hsome
    have hcalls : Claude.callsInTurn ((bodyOf chunks).flatMap fragment) ≠ [] := by
      rw [hturn]
      exact fun hnil => hsome (h.callsInTurn_eq_nil_iff.mp hnil)
    rw [Claude.assemble_calls w id model reason usage isBody_bodyOf hcalls, ChoiceMessage.seen,
      Assembled.mk.injEq, hturn, CallsInTurn]
    exact and_congr eq_comm (and_congr eq_comm Iff.rfl)

end

end AnyConverter.OpenAIChat
