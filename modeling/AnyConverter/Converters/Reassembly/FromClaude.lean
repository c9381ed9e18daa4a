import AnyConverter.Converters.Reassembly.Reasoning
import AnyConverter.Converters.Reassembly.ToGemini
import AnyConverter.Converters.Reassembly.Whole

/-!
# Claude replies, streamed and whole

For each target, when a client has the same of a Claude reply either way.  `Reassembles` says so of
the reply and its events: a Chat reply keeps only the last thinking, a Responses stream only signed
thinking, a Gemini stream none, and a Gemini stream shows a call again when its arguments come.
-/

set_option autoImplicit false

namespace AnyConverter.Claude

open Transducer CanonicalStreamEvent
open OpenAIResponses (IsBody textOf signatureOf thinkingTextEnd NulsInPlace)

/-! ## The condition -/

/-- The texts of the thinking blocks. -/
def thinkings (content : List ClaudeContentBlock) : List String :=
  content.filterMap fun
    | .thinking thinking _ => some thinking
    | _ => none

def blockSignature : ClaudeContentBlock → String
  | .thinking _ signature => signature.getD ""
  | _ => ""

/-- The signatures of the thinking blocks, put together. -/
def signature (content : List ClaudeContentBlock) : String :=
  String.join (content.map blockSignature)

/-- The thinking that streams before the first piece of a signature. -/
def unsignedPieces : List Upstream → List String
  | [] => []
  | .contentBlockDelta _ (.thinkingDelta thinking) :: body => thinking :: unsignedPieces body
  | .contentBlockDelta _ (.signatureDelta signature) :: body =>
    if signature = "" then unsignedPieces body else []
  | _ :: body => unsignedPieces body

/-- No delta has a piece of arguments. -/
def NoArguments (body : List Upstream) : Prop :=
  ∀ index partialJson, .contentBlockDelta index (.inputJsonDelta partialJson) ∈ body →
    partialJson = ""

/-- A client has the same of the streamed reply as of the whole. -/
def Reassembles (content : List ClaudeContentBlock) (body : List Upstream) : Format → Prop
  | .claude => True
  | .openAIChat => ∀ thinking ∈ (thinkings content).dropLast, thinking = ""
  | .openAIResponses =>
    if Text.afterLast thinkingTextEnd (signature content) = "" then
      ∀ thinking ∈ thinkings content, thinking = ""
    else thinkingTextEnd ∉ (signature content).toList ∧ NulsInPlace (unsignedPieces body)
  | .gemini => (∀ thinking ∈ thinkings content, thinking = "") ∧ NoArguments body

/-! ## What the events say -/

theorem unsignedPieces_parse {body : List Upstream} (hbody : ∀ u ∈ body, u.isBody = true)
    (s : AdapterState) :
    OpenAIResponses.unsignedPieces (outputs parse s body) = unsignedPieces body := by
  induction body generalizing s with
  | nil => rfl
  | cons u body ih =>
    have hrest := ih fun x hx => hbody x (List.mem_cons_of_mem _ hx)
    have hu := hbody u List.mem_cons_self
    rw [outputs_cons]
    cases u with
    | messageStart message => cases hu
    | messageDelta delta usage => cases hu
    | messageStop => cases hu
    | contentBlockStart index block => cases block <;> exact hrest _
    | contentBlockDelta index delta =>
      cases delta with
      | thinkingDelta thinking => exact congrArg (thinking :: ·) (hrest _)
      | signatureDelta signature =>
        show (if signature = "" then OpenAIResponses.unsignedPieces (outputs parse _ body) else []) =
          if signature = "" then unsignedPieces body else []
        rw [hrest]
      | _ => exact hrest _
    | _ => exact hrest _

theorem noArguments_parse {body : List Upstream} (hbody : ∀ u ∈ body, u.isBody = true)
    (s : AdapterState) : Gemini.NoArguments (outputs parse s body) ↔ NoArguments body := by
  induction body generalizing s with
  | nil => simp [Gemini.NoArguments, NoArguments]
  | cons u body ih =>
    have hrest := ih fun x hx => hbody x (List.mem_cons_of_mem _ hx)
    have hu := hbody u List.mem_cons_self
    have hsilent : (∀ index delta, toolCallDelta index delta ∉ (parse s u).1) →
        (∀ index partialJson, u ≠ .contentBlockDelta index (.inputJsonDelta partialJson)) →
        (Gemini.NoArguments (outputs parse s (u :: body)) ↔ NoArguments (u :: body)) := by
      intro hnone hother
      rw [outputs_cons]
      have hrest' := hrest (parse s u).2
      simp only [Gemini.NoArguments, NoArguments, List.mem_append, List.mem_cons] at hrest' ⊢
      constructor
      · intro h index partialJson hmem
        rcases hmem with hmem | hmem
        · exact absurd hmem.symm (hother index partialJson)
        · exact hrest'.mp (fun i d hd => h i d (.inr hd)) index partialJson hmem
      · intro h index delta hmem
        rcases hmem with hmem | hmem
        · exact absurd hmem (hnone index delta)
        · exact hrest'.mpr (fun i d hd => h i d (.inr hd)) index delta hmem
    cases u with
    | messageStart message => cases hu
    | messageDelta delta usage => cases hu
    | messageStop => cases hu
    | contentBlockStart index block =>
      refine hsilent ?_ (by simp)
      intro i d
      cases block <;> simp [parse, parseContentBlockStart]
    | contentBlockDelta index delta =>
      cases delta with
      | inputJsonDelta partialJson =>
        have hrest' := hrest (parse s (.contentBlockDelta index (.inputJsonDelta partialJson))).2
        rw [outputs_cons]
        simp only [Gemini.NoArguments, NoArguments, List.mem_append, List.mem_cons] at hrest' ⊢
        constructor
        · intro h i t hmem
          rcases hmem with hmem | hmem
          · obtain ⟨-, ht⟩ := Upstream.contentBlockDelta.inj hmem
            rw [ClaudeStreamDelta.inputJsonDelta.inj ht]
            exact h _ partialJson (.inl List.mem_cons_self)
          · exact hrest'.mp (fun i d hd => h i d (.inr hd)) i t hmem
        · intro h i t hmem
          rcases hmem with hmem | hmem
          · obtain ⟨-, rfl⟩ := toolCallDelta.inj (List.mem_singleton.mp hmem)
            exact h index _ (.inl rfl)
          · exact hrest'.mpr (fun i d hd => h i d (.inr hd)) i t hmem
      | _ => exact hsilent (by simp [parse, parseContentBlockDelta]) (by simp)
    | _ => exact hsilent (by simp [parse, parseSealedBlockStart]) (by simp)

section
variable {codec : JsonCodec} {n : Nat} {content : List ClaudeContentBlock}
  {events : List CanonicalStreamEvent}

/-- The events of a block add up to what it says. -/
theorem BlockSaid.joins {block : ClaudeContentBlock} (h : BlockSaid codec n block events) :
    String.join (events.map textOf) = blockView.text block ∧
      String.join (events.map thinkingOf) = blockView.reasoning block ∧
      String.join (events.map signatureOf) = blockSignature block := by
  cases h with
  | text pieces hpieces =>
    refine ⟨?_, ?_, ?_⟩
    · rw [List.map_map]
      exact (congrArg String.join (List.map_id pieces)).trans hpieces
    · exact Text.join_map_empty_iff.mpr (by simp [thinkingOf])
    · exact Text.join_map_empty_iff.mpr (by simp [signatureOf])
  | toolUse id name pieces hpieces =>
    refine ⟨?_, ?_, ?_⟩
    · exact Text.join_map_empty_iff.mpr (by simp [textOf])
    · exact Text.join_map_empty_iff.mpr (by simp [thinkingOf])
    · exact Text.join_map_empty_iff.mpr (by simp [signatureOf])
  | thinking events hevents hthinking hsignature =>
    refine ⟨Text.join_map_empty_iff.mpr ?_, hthinking, hsignature⟩
    intro e he
    rcases hevents e he with ⟨t, rfl⟩ | ⟨t, rfl⟩ <;> rfl
  | redactedThinking raw data => exact ⟨rfl, rfl, rfl⟩

theorem BlocksSaid.joins (h : BlocksSaid codec n content events) :
    String.join (events.map textOf) = (blockView.assemble content).text ∧
      String.join (events.map thinkingOf) = (blockView.assemble content).reasoning ∧
      String.join (events.map signatureOf) = signature content := by
  induction h with
  | nil n => exact ⟨rfl, rfl, rfl⟩
  | cons hblock hrest ih =>
    obtain ⟨htext, hthinking, hsignature⟩ := hblock.joins
    obtain ⟨htexts, hthinkings, hsignatures⟩ := ih
    refine ⟨?_, ?_, ?_⟩
    · rw [List.map_append, String.join_append, htext, htexts]
      simp [View.assemble]
    · rw [List.map_append, String.join_append, hthinking, hthinkings]
      simp [View.assemble]
    · rw [List.map_append, String.join_append, hsignature, hsignatures]
      simp [signature]

/-- A Claude reply asks nothing of Gemini's signatures. -/
theorem BlocksSaid.no_gemini (h : BlocksSaid codec n content events) (delta : String) :
    thinkingSignature .gemini delta ∉ events := by
  induction h with
  | nil n => simp
  | cons hblock hrest ih =>
    rw [List.mem_append, not_or]
    refine ⟨?_, ih⟩
    cases hblock with
    | text pieces hpieces => simp
    | toolUse id name pieces hpieces => simp
    | redactedThinking raw data => simp
    | thinking events hevents =>
      intro hmem
      rcases hevents _ hmem with ⟨t, ht⟩ | ⟨t, ht⟩ <;> cases ht

end

/-! ## What the parts say -/

theorem thinkings_eq (content : List ClaudeContentBlock) :
    (content.map readResponseBlock).filterMap OpenAIChat.thinkingText = thinkings content := by
  rw [List.filterMap_map]
  refine List.filterMap_congr fun block _ => ?_
  cases block <;> rfl

theorem reasoning_assemble (content : List ClaudeContentBlock) :
    (blockView.assemble content).reasoning = String.join (thinkings content) := by
  rw [thinkings, Text.join_filterMap]
  refine congrArg String.join (List.map_congr_left fun block _ => ?_)
  cases block <;> rfl

theorem reasoning_eq_empty_iff (content : List ClaudeContentBlock) :
    (blockView.assemble content).reasoning = "" ↔ ∀ thinking ∈ thinkings content, thinking = "" := by
  have hjoin := @Text.join_map_empty_iff String id (thinkings content)
  rwa [List.map_id, ← reasoning_assemble] at hjoin

/-! ## Each target -/

section
variable {codec : JsonCodec} {content : List ClaudeContentBlock}
  {events : List CanonicalStreamEvent}

/-- The calls of the stream are those of the reply. -/
theorem BlocksSaid.calls (hcodec : codec.Lawful) (h : BlocksSaid codec 0 content events)
    {place : AccumulatedToolCall → List AccumulatedToolCall → List AccumulatedToolCall}
    (hplace : PlacesLast place) :
    ((events.flatMap OpenAIChat.fragment).foldl
      (OpenAIChat.collectStep place pushArguments) []).map (AccumulatedToolCall.seen codec) =
      (blockView.assemble content).calls :=
  @collect_blocksSaid codec place hcodec hplace 0 content events h [] (by simp)

variable (w : World) (id model : String) (reason : StopReason) (usage : Option Usage)

theorem chat_iff (hcodec : codec.Lawful) (h : BlocksSaid codec 0 content events)
    (s : AdapterState) :
    OpenAIChat.assemble codec
        (outputs OpenAIChat.emit s (start id model :: events ++ [done reason usage])) =
        (OpenAIChat.buildChoiceMessage codec (content.map readResponseBlock)).seen codec ↔
      ∀ thinking ∈ (thinkings content).dropLast, thinking = "" := by
  obtain ⟨htext, hthinking, -⟩ := h.joins
  have hcalls := h.calls hcodec placeCall_last
  have hlast := OpenAIChat.reasoning_iff (content.map readResponseBlock)
  rw [OpenAIChat.seen_buildChoiceMessage hcodec, thinkings_eq] at *
  rw [assemble_read] at hlast ⊢
  rw [OpenAIChat.assemble_reply, htext, hthinking, OpenAIChat.gatherCalls, hcalls, ← hlast,
    Assembled.mk.injEq]
  exact ⟨fun heq => heq.2.1, fun heq => ⟨rfl, heq, rfl⟩⟩

theorem responses_iff (hcodec : codec.Lawful) (h : BlocksSaid codec 0 content events) (w' : World) :
    OpenAIResponses.assemble codec
        (OpenAIResponses.replyEvents codec w id model events reason usage) =
        (OpenAIResponses.itemView codec).assemble
          (OpenAIResponses.outputItems codec w' [] (content.map readResponseBlock)).1 ↔
      if Text.afterLast thinkingTextEnd (signature content) = "" then
        ∀ thinking ∈ thinkings content, thinking = ""
      else thinkingTextEnd ∉ (signature content).toList ∧
        NulsInPlace (OpenAIResponses.unsignedPieces events) := by
  obtain ⟨htext, hthinking, hsignature⟩ := h.joins
  have hcalls := h.calls hcodec append_last
  have hreasoning := @OpenAIResponses.reasoning_iff codec w id model events h.isBody
  rw [hthinking, hsignature, reasoning_eq_empty_iff] at hreasoning
  rw [OpenAIResponses.assemble_built hcodec, assemble_read,
    OpenAIResponses.assemble_replyEvents h.isBody, htext, OpenAIResponses.startedCalls, hcalls,
    Assembled.mk.injEq]
  have hsigns : OpenAIResponses.signs events = true ↔
      ¬ Text.afterLast thinkingTextEnd (signature content) = "" := by
    simp [OpenAIResponses.signs, hsignature]
  have hcases : (if OpenAIResponses.signs events then thinkingTextEnd ∉ (signature content).toList ∧
        NulsInPlace (OpenAIResponses.unsignedPieces events)
      else ∀ thinking ∈ thinkings content, thinking = "") ↔
      if Text.afterLast thinkingTextEnd (signature content) = "" then
        ∀ thinking ∈ thinkings content, thinking = ""
      else thinkingTextEnd ∉ (signature content).toList ∧
        NulsInPlace (OpenAIResponses.unsignedPieces events) := by
    by_cases hempty : Text.afterLast thinkingTextEnd (signature content) = ""
    · rw [if_pos hempty, if_neg fun hs => hsigns.mp hs hempty]
    · rw [if_neg hempty, if_pos (hsigns.mpr hempty)]
  rw [← hcases, ← hreasoning]
  exact ⟨fun heq => heq.2.1, fun heq => ⟨rfl, heq, rfl⟩⟩

theorem gemini_iff (hcodec : codec.Lawful) (h : BlocksSaid codec 0 content events) :
    Gemini.assemble (outputs (Gemini.emit codec) (.fresh w)
        (start id model :: events ++ [done reason usage])) =
        Gemini.partView.assemble (((content.map readResponseBlock).filter
          Gemini.isResponsePart).filterMap Gemini.buildPart) ↔
      (∀ thinking ∈ thinkings content, thinking = "") ∧ Gemini.NoArguments events := by
  obtain ⟨htext, -, -⟩ := h.joins
  have hunsigned : ∀ part ∈ content.map readResponseBlock, Gemini.Unsigned part := by
    intro part hpart
    obtain ⟨block, -, rfl⟩ := List.mem_map.mp hpart
    cases block with
    | thinking thinking signature => cases signature <;> rfl
    | _ => trivial
  have hspoken := Gemini.text_iff (content.map readResponseBlock)
  have hshown := @Gemini.shownCalls_said_iff codec hcodec 0 content events h [] (by simp)
  rw [assemble_read, reasoning_eq_empty_iff] at hspoken
  rw [Gemini.assemble_reply codec h.no_gemini, Gemini.assemble_built hunsigned, assemble_read,
    htext, Assembled.mk.injEq, eq_comm, hspoken]
  refine and_congr_right fun _ => ?_
  have hcalls : (blockView.assemble content).calls = content.flatMap blockView.calls := rfl
  rw [hcalls]
  rcases hshown with ⟨hnone, hshown⟩ | ⟨hsome, hshown⟩
  · exact iff_of_true ⟨rfl, hshown⟩ hnone
  · refine iff_of_false ?_ hsome
    rintro ⟨-, heq⟩
    rw [heq] at hshown
    exact Nat.lt_irrefl _ hshown

end

end AnyConverter.Claude
