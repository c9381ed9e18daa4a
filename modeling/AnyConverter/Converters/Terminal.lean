import AnyConverter.Converters.Stream

/-!
# Terminal events

What ends a stream of each format, what the end says about the reply, and which canonical event
makes a writer end one.

* `emitStream_silent`: a canonical event other than `done` writes no terminal event and says
  nothing about the end;
* `emitStream_done`: `done` writes exactly one terminal event, last;
* `closings_emitStream_done`: it says once why the reply ended and what it used;
* `OpenAIChat.parseChunk_not_done`: no chunk of a Chat stream stands for `done`.
-/

set_option autoImplicit false

namespace AnyConverter

open Transducer

/-- The event that ends a stream of its format. -/
def WireEvent.isTerminal : WireEvent → Bool
  | .claude .messageStop => true
  | .openAIChat .done => true
  | .openAIResponses (.completed _) => true
  | .gemini chunk => chunk.candidates.any fun c => c.finishReason.isSome
  | _ => false

def CanonicalStreamEvent.isDone : CanonicalStreamEvent → Bool
  | .done _ _ => true
  | _ => false

/-! ## What an end says -/

/-- The token counts a usage gives, as its own format counts them. -/
structure TokenCounts where
  input : Nat
  output : Nat
  cacheRead : Option Nat
  cacheWrite : Option Nat
  deriving DecidableEq, Repr

/-- Why a reply ended, in the words of a format, and what it used. -/
structure Closing where
  stopReason : String
  counts : Option TokenCounts
  deriving DecidableEq, Repr

def Claude.DeltaUsage.counts (u : Claude.DeltaUsage) : TokenCounts :=
  ⟨u.inputTokens, u.outputTokens, u.cacheReadInputTokens, u.cacheCreationInputTokens⟩

def OpenAIChat.OpenAIUsage.counts (u : OpenAIChat.OpenAIUsage) : TokenCounts :=
  ⟨u.promptTokens, u.completionTokens,
    u.promptTokensDetails.bind OpenAIChat.PromptTokensDetails.cachedTokens, none⟩

def OpenAIResponses.CompletedUsage.counts (u : OpenAIResponses.CompletedUsage) : TokenCounts :=
  ⟨u.inputTokens, u.outputTokens, none, none⟩

def Gemini.GeminiUsageMetadata.counts (u : Gemini.GeminiUsageMetadata) : TokenCounts :=
  ⟨u.promptTokenCount.getD 0, u.candidatesTokenCount.getD 0, none, none⟩

/-- What an event says about the end of the reply, if it says anything. -/
def WireEvent.closing : WireEvent → Option Closing
  | .claude (.messageDelta stopReason usage) => some ⟨stopReason, some usage.counts⟩
  | .openAIChat (.chunk chunk) => (chunk.choices.head?.bind fun c => c.finishReason).map
      fun reason => ⟨reason, chunk.usage.map OpenAIChat.OpenAIUsage.counts⟩
  | .openAIResponses (.completed response) => some
      ⟨response.status, response.usage.map OpenAIResponses.CompletedUsage.counts⟩
  | .gemini chunk => (chunk.candidates.head?.bind fun c => c.finishReason).map
      fun reason => ⟨reason, chunk.usageMetadata.map Gemini.GeminiUsageMetadata.counts⟩
  | _ => none

/-- The event neither ends the stream nor says anything about the end. -/
structure WireEvent.Silent (w : WireEvent) : Prop where
  terminal : w.isTerminal = false
  closing : w.closing = none

/-! ## Writers -/

section
variable {w : WireEvent}

theorem Claude.emit_silent (s : AdapterState) {e : CanonicalStreamEvent} (he : e.isDone = false)
    (hw : w ∈ (Claude.emit s e).1.map WireEvent.claude) : w.Silent := by
  rw [List.mem_map] at hw
  obtain ⟨x, hx, rfl⟩ := hw
  cases e with
  | start id model =>
    simp only [emit, emitMessageStart, List.mem_singleton] at hx
    subst hx
    exact ⟨rfl, rfl⟩
  | textDelta text =>
    simp only [emit, emitTextDelta] at hx
    split at hx <;> simp only [List.mem_cons, List.not_mem_nil, or_false] at hx
    · rcases hx with rfl | rfl <;> exact ⟨rfl, rfl⟩
    · subst hx
      exact ⟨rfl, rfl⟩
  | toolCallStart index id name signature =>
    simp only [emit, emitToolCallStart, List.mem_singleton] at hx
    subst hx
    exact ⟨rfl, rfl⟩
  | toolCallDelta index delta =>
    simp only [emit, emitToolCallDelta, List.mem_singleton] at hx
    subst hx
    exact ⟨rfl, rfl⟩
  | thinkingDelta text =>
    simp only [emit, emitThinkingDelta] at hx
    split at hx <;> simp only [List.mem_cons, List.not_mem_nil, or_false] at hx
    · rcases hx with rfl | rfl <;> exact ⟨rfl, rfl⟩
    · subst hx
      exact ⟨rfl, rfl⟩
  | thinkingSignature signer delta => cases hx
  | sealedThinking signer raw => cases hx
  | done reason usage => cases he

theorem OpenAIChat.emit_silent (s : AdapterState) {e : CanonicalStreamEvent}
    (he : e.isDone = false)
    (hw : w ∈ (OpenAIChat.emit s e).1.map WireEvent.openAIChat) : w.Silent := by
  have hdelta : ∀ d, w ∈ (emitDelta s d).1.map WireEvent.openAIChat → w.Silent := by
    intro d hd
    simp only [emitDelta, List.map_cons, List.map_nil, List.mem_singleton] at hd
    subst hd
    exact ⟨rfl, rfl⟩
  cases e with
  | start id model =>
    simp only [emit, emitStart, List.map_cons, List.map_nil, List.mem_singleton] at hw
    subst hw
    exact ⟨rfl, rfl⟩
  | textDelta text => exact hdelta _ hw
  | toolCallStart index id name signature => exact hdelta _ hw
  | toolCallDelta index delta => exact hdelta _ hw
  | thinkingDelta text => exact hdelta _ hw
  | thinkingSignature signer delta => cases hw
  | sealedThinking signer raw => cases hw
  | done reason usage => cases he

theorem Gemini.emitPart_silent (s : AdapterState) (part : GeminiPart)
    (hw : w ∈ (emitPart s part).1.map WireEvent.gemini) : w.Silent := by
  simp only [emitPart, List.map_cons, List.map_nil, List.mem_singleton] at hw
  subst hw
  exact ⟨rfl, rfl⟩

theorem Gemini.emit_silent (codec : JsonCodec) (s : AdapterState) {e : CanonicalStreamEvent}
    (he : e.isDone = false)
    (hw : w ∈ (Gemini.emit codec s e).1.map WireEvent.gemini) : w.Silent := by
  cases e with
  | start id model => cases hw
  | textDelta text => exact emitPart_silent s _ hw
  | toolCallStart index id name signature => exact emitPart_silent _ _ hw
  | toolCallDelta index delta =>
    simp only [emit, emitToolCallDelta] at hw
    split at hw
    · cases hw
    · split at hw
      · exact emitPart_silent _ _ hw
      · cases hw
  | thinkingDelta text => cases hw
  | thinkingSignature signer delta =>
    cases signer with
    | gemini => exact emitPart_silent _ _ hw
    | _ => cases hw
  | sealedThinking signer raw => cases hw
  | done reason usage => cases he

theorem OpenAIResponses.emit_silent (codec : JsonCodec) (s : AdapterState)
    {e : CanonicalStreamEvent} (he : e.isDone = false)
    (hw : w ∈ (emitted (OpenAIResponses.emit codec s e).1).map WireEvent.openAIResponses) :
    w.Silent := by
  rw [List.mem_map] at hw
  obtain ⟨x, hx, rfl⟩ := hw
  cases e with
  | start id model =>
    simp only [emit, emitStart, emitted_ok, List.mem_cons, List.not_mem_nil, or_false] at hx
    rcases hx with rfl | rfl <;> exact ⟨rfl, rfl⟩
  | textDelta text =>
    simp only [emit, emitTextDelta, emitted_ok, List.mem_append, List.mem_singleton] at hx
    rcases hx with hx | rfl
    · split at hx
      · simp only [List.mem_cons, List.not_mem_nil, or_false] at hx
        rcases hx with rfl | rfl <;> exact ⟨rfl, rfl⟩
      · cases hx
    · exact ⟨rfl, rfl⟩
  | toolCallStart index id name signature =>
    simp only [emit, emitToolCallStart, emitted_ok, List.mem_singleton] at hx
    subst hx
    exact ⟨rfl, rfl⟩
  | toolCallDelta index delta =>
    simp only [emit, emitToolCallDelta] at hx
    split at hx
    · cases hx
    · simp only [emitted_ok, List.mem_singleton] at hx
      subst hx
      exact ⟨rfl, rfl⟩
  | thinkingDelta text => cases hx
  | thinkingSignature signer delta => cases hx
  | sealedThinking signer raw =>
    cases signer with
    | claude =>
      simp only [emit, emitSealedThinking, emitted_ok, List.mem_cons, List.not_mem_nil,
        or_false] at hx
      rcases hx with rfl | rfl <;> exact ⟨rfl, rfl⟩
    | _ => cases hx
  | done reason usage => cases he

theorem emitted_map {ε α β : Type} (f : List α → List β) (hf : f [] = [])
    (r : Except ε (List α)) : emitted (r.map f) = f (emitted r) := by
  cases r with
  | error e => exact hf.symm
  | ok xs => rfl

/-- **Nothing but `done` makes a writer end the stream, or say how it ends.** -/
theorem emitStream_silent (codec : JsonCodec) (target : Format) (s : AdapterState)
    {e : CanonicalStreamEvent} (he : e.isDone = false)
    (hw : w ∈ emitted (emitStream codec target s e).1) : w.Silent := by
  cases target with
  | claude => exact Claude.emit_silent s he hw
  | openAIChat => exact OpenAIChat.emit_silent s he hw
  | gemini => exact Gemini.emit_silent codec s he hw
  | openAIResponses =>
    refine OpenAIResponses.emit_silent codec s he ?_
    simp only [emitStream] at hw
    rwa [emitted_map _ rfl] at hw

end

/-- A list of events that a terminal event ends, and that holds no other one. -/
def EndsOnce (ws : List WireEvent) : Prop :=
  ∃ body last, ws = body ++ [last] ∧ last.isTerminal = true ∧ ∀ w ∈ body, w.isTerminal = false

theorem OpenAIResponses.closing_silent (codec : JsonCodec) (s s' : AdapterState)
    (itemId : String) : ∀ x ∈ (closeThinking codec s').1.1 ++
      (closeMessage s.toStreamState itemId).1 ++
      s.accumulatedToolCalls.flatMap (closeCall s.toStreamState),
      (WireEvent.openAIResponses x).Silent := by
  intro x hx
  simp only [List.mem_append, List.mem_flatMap] at hx
  rcases hx with (hx | hx) | ⟨tc, -, hx⟩
  · unfold closeThinking at hx
    split at hx <;> simp only [List.mem_cons, List.not_mem_nil, or_false] at hx
    rcases hx with rfl | rfl <;> exact ⟨rfl, rfl⟩
  · unfold closeMessage at hx
    split at hx <;> simp only [List.mem_cons, List.not_mem_nil, or_false] at hx
    rcases hx with rfl | rfl | rfl <;> exact ⟨rfl, rfl⟩
  · simp only [closeCall, List.mem_cons, List.not_mem_nil, or_false] at hx
    rcases hx with rfl | rfl <;> exact ⟨rfl, rfl⟩

/-- **`done` writes one terminal event, last.** -/
theorem emitStream_done (codec : JsonCodec) (target : Format) (s : AdapterState)
    (reason : StopReason) (usage : Option Usage) :
    ∃ ws, (emitStream codec target s (.done reason usage)).1 = .ok ws ∧ EndsOnce ws := by
  cases target with
  | claude =>
    refine ⟨_, rfl, [_], _, rfl, rfl, ?_⟩
    intro w hw
    rw [List.mem_singleton] at hw
    subst hw
    rfl
  | openAIChat =>
    refine ⟨_, rfl, [_], _, rfl, rfl, ?_⟩
    intro w hw
    rw [List.mem_singleton] at hw
    subst hw
    rfl
  | gemini => exact ⟨_, rfl, [], _, rfl, rfl, by simp⟩
  | openAIResponses =>
    refine ⟨_, rfl, _, _, List.map_append, rfl, ?_⟩
    intro w hw
    rw [List.mem_map] at hw
    obtain ⟨x, hx, rfl⟩ := hw
    cases hid : s.responseId with
    | some id => exact (OpenAIResponses.closing_silent codec s _ _ x (by simpa [hid] using hx)).terminal
    | none => exact (OpenAIResponses.closing_silent codec s _ _ x (by simpa [hid] using hx)).terminal

/-- What a writer says at the end of a reply. -/
def closingOf (target : Format) (reason : StopReason) (usage : Option Usage) : Closing :=
  match target with
  | .claude => ⟨reason.toClaude, some (Claude.deltaUsage usage).counts⟩
  | .openAIChat =>
    ⟨reason.toOpenAIChat, usage.map fun u => (OpenAIChat.doneUsage u).counts⟩
  | .openAIResponses =>
    ⟨OpenAIResponses.stopReasonToStatus reason,
      usage.map fun u => (OpenAIResponses.completedUsage u).counts⟩
  | .gemini => ⟨reason.toGemini, usage.map fun u => (Gemini.doneUsage u).counts⟩

theorem filterMap_closing_silent {ws : List WireEvent} (h : ∀ w ∈ ws, w.Silent) :
    ws.filterMap WireEvent.closing = [] := by
  rw [List.filterMap_eq_nil_iff]
  intro w hw
  exact (h w hw).closing

/-- **`done` makes a writer say once how the reply ended.** -/
theorem closings_emitStream_done (codec : JsonCodec) (target : Format) (s : AdapterState)
    (reason : StopReason) (usage : Option Usage) :
    (emitted (emitStream codec target s (.done reason usage)).1).filterMap WireEvent.closing =
      [closingOf target reason usage] := by
  cases target with
  | claude => rfl
  | openAIChat => cases usage <;> rfl
  | gemini => cases usage <;> rfl
  | openAIResponses =>
    have hsilent : ∀ (s' : AdapterState) (itemId : String), (((OpenAIResponses.closeThinking codec
        s').1.1 ++ (OpenAIResponses.closeMessage s.toStreamState itemId).1 ++
        s.accumulatedToolCalls.flatMap (OpenAIResponses.closeCall s.toStreamState)).map
        WireEvent.openAIResponses).filterMap WireEvent.closing = [] := by
      intro s' itemId
      refine filterMap_closing_silent ?_
      intro w hw
      rw [List.mem_map] at hw
      obtain ⟨x, hx, rfl⟩ := hw
      exact OpenAIResponses.closing_silent codec s s' itemId x hx
    simp only [emitStream, OpenAIResponses.emit, OpenAIResponses.emitDone, Except.map, emitted_ok,
      List.map_append, List.filterMap_append] at hsilent ⊢
    rw [hsilent]
    cases usage <;> rfl

/-! ## The Chat reader -/

namespace OpenAIChat

theorem parseToolCall_not_done (tc : StreamToolCall) : ∀ e ∈ parseToolCall tc, e.isDone = false := by
  intro e he
  rw [parseToolCall, List.mem_append] at he
  rcases he with he | he
  · unfold toolCallStartOf at he
    split at he
    · rw [List.mem_singleton] at he
      subst he
      rfl
    · cases he
  · unfold toolCallDeltaOf at he
    split at he
    · split at he
      · cases he
      · rw [List.mem_singleton] at he
        subst he
        rfl
    · cases he

theorem parseChoice_not_done (s : AdapterState) (choice : StreamChoice) :
    ∀ e ∈ (parseChoice s choice).1, e.isDone = false := by
  intro e he
  simp only [parseChoice, List.mem_append] at he
  rcases he with (he | he) | he
  · unfold parseContent at he
    split at he
    · split at he
      · cases he
      · rw [List.mem_singleton] at he
        subst he
        rfl
    · cases he
  · unfold parseReasoning at he
    split at he
    · split at he
      · cases he
      · rw [List.mem_singleton] at he
        subst he
        rfl
    · cases he
  · unfold parseToolCalls at he
    split at he
    · rw [List.mem_flatMap] at he
      obtain ⟨tc, -, he⟩ := he
      exact parseToolCall_not_done tc e he
    · cases he

/-- Only the sentinel ends a Chat stream, whatever its chunks announce. -/
theorem parseChunk_not_done (s : AdapterState) (chunk : OpenAIChatStreamChunk) :
    ∀ e ∈ (parseChunk s chunk).1, e.isDone = false := by
  intro e he
  simp only [parseChunk, List.mem_append] at he
  rcases he with he | he
  · unfold parseIds at he
    split at he
    · rw [List.mem_singleton] at he
      subst he
      rfl
    · cases he
  · exact outputs_forall parseChoice_not_done chunk.choices _ e he

end OpenAIChat

end AnyConverter
