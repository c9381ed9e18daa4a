import AnyConverter.Converters.Reassembly.FromChat
import AnyConverter.Converters.Reassembly.FromClaude
import AnyConverter.Lib.JsonText

/-!
# Streamed and whole replies

A reply that streams, cut in any way, and the same reply whole: what a client puts together of the
converted stream, and what it has of the converted reply.

* `reassembled_iff`: for each source and target, when the two are the same.
-/

set_option autoImplicit false

namespace AnyConverter

open Transducer CanonicalStreamEvent

/-- A stream is a reply cut into events. -/
inductive CutReply (codec : JsonCodec) : WireResponse → ReplyStream → Prop
  | claude {resp : Claude.ClaudeResponse} (message : Claude.ClaudeStreamMessage)
      {body : List Claude.Upstream} (hbody : ∀ u ∈ body, u.isBody = true) (last : Claude.Ending)
      {rest : List Claude.Upstream} (hrest : ∀ u ∈ rest, u.isQuiet = true)
      (hcut : Claude.Cut codec resp.content body) :
    CutReply codec (.claude resp) (.claude message body hbody last rest hrest)
  | openAIChat {resp : OpenAIChat.OpenAIChatResponse} {choice : OpenAIChat.Choice}
      {others : List OpenAIChat.Choice} {chunks : List OpenAIChat.OpenAIChatStreamChunk}
      (hchoices : resp.choices = choice :: others) (hcut : OpenAIChat.Cut choice.message chunks) :
    CutReply codec (.openAIChat resp) (.openAIChat chunks)

/-- A client has the same of the streamed reply as of the whole. -/
def Reassembles (codec : JsonCodec) (target : Format) : WireResponse → ReplyStream → Prop
  | .claude resp, .claude _ body _ _ _ _ => Claude.Reassembles resp.content body target
  | .openAIChat resp, .openAIChat chunks =>
    ∀ choice ∈ resp.choices.head?, OpenAIChat.Reassembles codec choice.message chunks target
  | _, _ => True

section
variable {codec : JsonCodec}

theorem callsStarted_reply {body : List CanonicalStreamEvent} (h : CallsStarted body)
    (id model : String) (reason : StopReason) (usage : Option Usage) :
    CallsStarted (start id model :: body ++ [done reason usage]) := by
  have hstart : CallsStarted [start id model] := callsStarted_of_no_delta (by simp)
  have hdone : CallsStarted [done reason usage] := callsStarted_of_no_delta (by simp)
  exact callsStarted_append (callsStarted_append hstart h) hdone

/-- What a client of each target has of a stream whose events the reader makes a reply of. -/
theorem assembled_convertStream {r : ReplyStream} {target : Format} (hne : r.source ≠ target)
    (w w' : World) {events : List SseEvent} (hevents : Carries codec r.source events r.events)
    {id model : String} {body : List CanonicalStreamEvent} {reason : StopReason}
    {usage : Option Usage} (hbody : CallsStarted body)
    (hout : outputs (parseEvent codec) (.fresh w) r.events =
      start id model :: body ++ [done reason usage]) :
    assembleStream codec target (convertStream codec r.source target (.fresh w, .fresh w') events) =
      assembleStream codec target (outputs (total (emitStream codec target)) (.fresh w')
        (start id model :: body ++ [done reason usage])) := by
  have hcalls := callsStarted_reply hbody id model reason usage
  rw [convertStream, convertStreamEvent_of_ne hne]
  rw [convertPair_eq_emit hevents _ _ (by rwa [hout]), hout]

/-- **A converted stream says what the converted reply says** exactly when no reasoning, call or
text is lost on one of the two ways. -/
theorem reassembled_iff (hcodec : codec.Lawful) {resp : WireResponse} {r : ReplyStream}
    (hcut : CutReply codec resp r) {target : Format} (hne : r.source ≠ target) (w w' w'' : World)
    {events : List SseEvent} (hevents : Carries codec r.source events r.events) :
    assembleStream codec target (convertStream codec r.source target (.fresh w, .fresh w') events) =
        (convertReply codec target w'' resp).assembled codec ↔
      Reassembles codec target resp r := by
  cases hcut with
  | @claude resp message body hbody last rest hrest hcut =>
    obtain ⟨s, id, model, reason, usage, hsaid, hout⟩ :=
      Claude.outputs_claude w message hbody last hrest hcut
    rw [assembled_convertStream hne w w' hevents hsaid.callsStarted hout, assembleStream_emit]
    cases target with
    | claude => exact absurd rfl hne
    | openAIChat => exact Claude.chat_iff id model reason usage hcodec hsaid _
    | openAIResponses =>
      have hiff := Claude.responses_iff w' id model reason usage hcodec hsaid w''
      rw [Claude.unsignedPieces_parse hbody] at hiff
      exact hiff
    | gemini =>
      have hiff := Claude.gemini_iff w' id model reason usage hcodec hsaid
      rw [Claude.noArguments_parse hbody] at hiff
      exact hiff
  | @openAIChat resp choice others chunks hchoices hcut =>
    obtain ⟨id, model, reason, usage, hout⟩ := OpenAIChat.outputs_openAIChat codec w hcut
    rw [assembled_convertStream hne w w' hevents hcut.callsStarted hout, assembleStream_emit]
    have hparts : (OpenAIChat.readResponse codec resp).parts =
        OpenAIChat.choiceParts codec choice.message := by
      simp [OpenAIChat.readResponse, hchoices]
    have hcond : Reassembles codec target (.openAIChat resp) (.openAIChat chunks) ↔
        OpenAIChat.Reassembles codec choice.message chunks target := by
      simp [Reassembles, hchoices]
    rw [hcond]
    cases target with
    | claude =>
      have hiff := @OpenAIChat.claude_iff codec _ _ w' id model reason usage hcut
      rw [← hparts] at hiff
      exact hiff
    | openAIChat => exact absurd rfl hne
    | openAIResponses =>
      have hiff := OpenAIChat.responses_iff w' w'' id model reason usage hcodec hcut
      rw [← hparts] at hiff
      exact hiff
    | gemini =>
      have hiff := OpenAIChat.gemini_iff w' id model reason usage hcodec hcut
      rw [← hparts] at hiff
      exact hiff

end

/-! ## Two Chat replies -/

/-- A message of a Chat reply, and a reply with that message. -/
def chatMessage (content : String) (reasoningContent : Option String)
    (toolCalls : Option (List OpenAIChat.ToolCall)) : OpenAIChat.ChoiceMessage where
  role := "assistant"
  content := some content
  toolCalls := toolCalls
  refusal := none
  reasoningContent := reasoningContent

def chatReply (message : OpenAIChat.ChoiceMessage) : WireResponse := .openAIChat {
  id := "chatcmpl_1", object := "chat.completion", created := 0, model := "gpt-5"
  choices := [⟨0, message, some "stop"⟩], usage := none, systemFingerprint := none }

/-- A chunk of its stream, and the event that carries the chunk. -/
def chatChunk (delta : OpenAIChat.Delta) : OpenAIChat.OpenAIChatStreamChunk where
  id := "chatcmpl_1"
  object := "chat.completion.chunk"
  created := 0
  model := "gpt-5"
  choices := [⟨0, delta, none⟩]
  usage := none

def chatEvent (delta : OpenAIChat.Delta) : SseEvent :=
  ⟨none, JsonText.compactCodec.toText (chatChunk delta).toValue⟩

def sentinel : SseEvent := ⟨none, "[DONE]"⟩

theorem decodeEvent_chatEvent {delta : OpenAIChat.Delta}
    (h : OpenAIChat.OpenAIChatStreamChunk.ofValue (chatChunk delta).toValue =
      some (chatChunk delta)) :
    decodeEvent JsonText.compactCodec .openAIChat (chatEvent delta) =
      .ok (.openAIChat (.chunk (chatChunk delta))) := by
  have hopen : isOpenaiDone (JsonText.compactCodec.toText (chatChunk delta).toValue) = false :=
    isOpenaiDone_object (JsonText.compactCodec_toList _)
  rw [decodeEvent, OpenAIChat.decode, chatEvent, hopen, if_neg Bool.false_ne_true,
    JsonText.compactCodec_decode, h]
  rfl

/-- Chunks that read back are carried by the events that carry them. -/
theorem carries_chat {deltas : List OpenAIChat.Delta}
    (h : ∀ delta ∈ deltas, OpenAIChat.OpenAIChatStreamChunk.ofValue (chatChunk delta).toValue =
      some (chatChunk delta)) :
    Carries JsonText.compactCodec .openAIChat (deltas.map chatEvent ++ [sentinel])
      (ReplyStream.openAIChat (deltas.map chatChunk)).events := by
  have hdone : decodeEvent JsonText.compactCodec .openAIChat sentinel =
      .ok (.openAIChat .done) := by decide +kernel
  induction deltas with
  | nil => exact congrArg (fun x => [x]) hdone
  | cons delta deltas ih =>
    have hhead := decodeEvent_chatEvent (h delta List.mem_cons_self)
    have hrest := ih fun d hd => h d (List.mem_cons_of_mem _ hd)
    exact congrArg₂ List.cons hhead hrest

/-- A call to save, in two pieces. -/
def saveDeltas : List OpenAIChat.Delta := [
  { content := some "4" },
  { content := some "2", toolCalls := some [⟨0, some "call_1", none, some ⟨some "save", none⟩⟩] },
  { toolCalls := some [⟨0, none, none, some ⟨none, some "\x7b\x7d"⟩⟩] }]

def saveMessage : OpenAIChat.ChoiceMessage :=
  chatMessage "42" none (some [⟨"call_1", "function", ⟨"save", "\x7b\x7d"⟩⟩])

theorem cut_save : OpenAIChat.Cut saveMessage (saveDeltas.map chatChunk) where
  nonempty := by simp [saveDeltas]
  oneChoice := by decide
  content := by decide +kernel
  reasoning := by decide +kernel
  begun := .first (by decide) (by simp) (.more (by decide) (by simp) (.nil _))
  calls := by decide +kernel

/-- A Responses client gets the text and the call. -/
theorem reassembled_iff_save :
    assembleStream JsonText.compactCodec .openAIResponses
        (convertStream JsonText.compactCodec .openAIChat .openAIResponses
          (.fresh .counting, .fresh .counting) (saveDeltas.map chatEvent ++ [sentinel])) =
      (convertReply JsonText.compactCodec .openAIResponses .counting
        (chatReply saveMessage)).assembled JsonText.compactCodec :=
  (@reassembled_iff JsonText.compactCodec JsonText.compactCodec_lawful (chatReply saveMessage)
    (.openAIChat (saveDeltas.map chatChunk)) (.openAIChat rfl cut_save) .openAIResponses (by decide)
    .counting .counting .counting _ (carries_chat (by decide +kernel))).mpr (by
      intro choice hchoice
      obtain rfl := Option.some.inj hchoice
      exact ⟨rfl, rfl⟩)

/-- A Chat reply that reasons. -/
def thoughtDeltas : List OpenAIChat.Delta :=
  [{ reasoningContent := some "2+2" }, { content := some "4" }]

def thoughtMessage : OpenAIChat.ChoiceMessage := chatMessage "4" (some "2+2") none

theorem cut_thought : OpenAIChat.Cut thoughtMessage (thoughtDeltas.map chatChunk) where
  nonempty := by simp [thoughtDeltas]
  oneChoice := by decide
  content := by decide +kernel
  reasoning := by decide +kernel
  begun := .nil _
  calls := rfl

/-- The Responses client of the stream never sees the reasoning that the whole reply has. -/
theorem thought_not_reassembled :
    CutReply JsonText.compactCodec (chatReply thoughtMessage)
        (.openAIChat (thoughtDeltas.map chatChunk)) ∧
      Carries JsonText.compactCodec .openAIChat (thoughtDeltas.map chatEvent ++ [sentinel])
        (ReplyStream.openAIChat (thoughtDeltas.map chatChunk)).events ∧
      assembleStream JsonText.compactCodec .openAIResponses
        (convertStream JsonText.compactCodec .openAIChat .openAIResponses
          (.fresh .counting, .fresh .counting) (thoughtDeltas.map chatEvent ++ [sentinel])) =
        ⟨"4", "", []⟩ ∧
      (convertReply JsonText.compactCodec .openAIResponses .counting
        (chatReply thoughtMessage)).assembled JsonText.compactCodec = ⟨"4", "2+2", []⟩ := by
  have hcarries := @carries_chat thoughtDeltas (by decide +kernel)
  refine ⟨.openAIChat rfl cut_thought, hcarries, ?_, by decide +kernel⟩
  rw [convertStream, convertStreamEvent_of_ne (by decide), outputs_convertPair hcarries]
  decide +kernel

end AnyConverter
