import AnyConverter.Converters.Body
import AnyConverter.Lib.JsonText

/-!
# Reasoning effort and thinking budgets

Chat asks for an effort, Claude for a budget of tokens below `max_tokens`.  An effort becomes a
budget that depends on the limit; a budget becomes an effort by thresholds.

* `effort_returns_iff`: which efforts come back from Claude;
* `budgetFits_iff`: which requests Claude's rule for the budget holds of.
-/

set_option autoImplicit false

namespace AnyConverter

/-! ## There and back -/

namespace OpenAIChat

/-- The effort a Chat request asks for. -/
def effortOf (req : OpenAIChatRequest) : Option String :=
  req.reasoningEffort.or (req.reasoning.map ReasoningConfig.effort)

/-- The limit a Chat request asks for. -/
def limitOf (req : OpenAIChatRequest) : Option Nat := req.maxCompletionTokens.or req.maxTokens

/-- A Chat request, converted to Claude and back. -/
def viaClaude (codec : JsonCodec) (req : OpenAIChatRequest) : OpenAIChatRequest :=
  build codec (Claude.read (Claude.build (read codec req)))

end OpenAIChat

/-- The budget of an effort stands for that effort, unless the limit lifts it over the threshold. -/
theorem effort_of_budget_iff {effort : String} (h : effort ∈ ["low", "medium", "high"])
    (limit : Nat) :
    (reasoningEffortToThinking (some effort) limit).bind thinkingToReasoningEffort = some effort ↔
      (effort = "medium" → limit < 4096) := by
  simp only [List.mem_cons, List.not_mem_nil, or_false] at h
  rcases h with rfl | rfl | rfl
  · exact iff_of_true rfl (by simp)
  · have hbudget : reasoningEffortToThinking (some "medium") limit =
        some ⟨"enabled", max limit 2048⟩ := rfl
    rw [hbudget, Option.bind_some, thinkingToReasoningEffort, if_neg (by simp),
      if_neg (by simp only [not_le]; omega)]
    by_cases hlimit : 4096 ≤ max limit 2048
    · rw [if_pos hlimit]
      refine iff_of_false (by decide) fun hmedium => ?_
      have hlt := hmedium rfl
      omega
    · rw [if_neg hlimit]
      refine iff_of_true rfl fun _ => ?_
      omega
  · have hbudget : reasoningEffortToThinking (some "high") limit =
        some ⟨"enabled", max limit 4096⟩ := rfl
    rw [hbudget, Option.bind_some, thinkingToReasoningEffort, if_neg (by simp),
      if_neg (by simp only [not_le]; omega), if_pos (le_max_right _ _)]
    exact iff_of_true rfl (by simp)

/-- An effort that asks for thinking has an enabled budget. -/
theorem enabled_of_effort {effort : String} (h : effort ≠ "none") (limit : Nat) :
    ∃ budget, reasoningEffortToThinking (some effort) limit = some ⟨"enabled", budget⟩ := by
  by_cases hlow : effort = "low"
  · exact ⟨1024, by simp [reasoningEffortToThinking, hlow]⟩
  · by_cases hhigh : effort = "high"
    · exact ⟨max limit 4096, by simp [reasoningEffortToThinking, hhigh]⟩
    · exact ⟨max limit 2048, by simp [reasoningEffortToThinking, h, hlow, hhigh]⟩

/-- The effort of a request that came back is that of its budget. -/
theorem effort_viaClaude (codec : JsonCodec) {req : OpenAIChat.OpenAIChatRequest} {effort : String}
    (heffort : OpenAIChat.effortOf req = some effort) (h : effort ≠ "none") :
    (OpenAIChat.viaClaude codec req).reasoningEffort =
      (reasoningEffortToThinking (some effort)
        ((OpenAIChat.limitOf req).getD Claude.defaultMaxTokens)).bind thinkingToReasoningEffort := by
  have hread : (OpenAIChat.read codec req).reasoning = .effort effort := by
    unfold OpenAIChat.effortOf at heffort
    simp only [OpenAIChat.read, heffort]
  obtain ⟨budget, hbudget⟩ := enabled_of_effort h ((OpenAIChat.limitOf req).getD Claude.defaultMaxTokens)
  have hthinking : (Claude.build (OpenAIChat.read codec req)).thinking = some ⟨"enabled", budget⟩ := by
    show Claude.buildThinking (OpenAIChat.read codec req).reasoning
      ((OpenAIChat.limitOf req).getD Claude.defaultMaxTokens) _ = _
    simp only [hread, Claude.buildThinking, hbudget]
    rfl
  have hback : (Claude.read (Claude.build (OpenAIChat.read codec req))).reasoning = .budget budget := by
    show Claude.readReasoning (Claude.build (OpenAIChat.read codec req)).thinking = _
    rw [hthinking]
    rfl
  show OpenAIChat.reasoningEffort (Claude.read (Claude.build (OpenAIChat.read codec req))).reasoning = _
  rw [hback, hbudget]
  rfl

/-- Low and high come back always, medium where the limit is below the threshold of high. -/
theorem effort_returns_iff (codec : JsonCodec) {req : OpenAIChat.OpenAIChatRequest}
    {effort : String} (heffort : OpenAIChat.effortOf req = some effort)
    (h : effort ∈ ["low", "medium", "high"]) :
    OpenAIChat.effortOf (OpenAIChat.viaClaude codec req) = some effort ↔
      (effort = "medium" → (OpenAIChat.limitOf req).getD Claude.defaultMaxTokens < 4096) := by
  have hne : effort ≠ "none" := by
    rintro rfl
    exact absurd h (by decide)
  have hback : OpenAIChat.effortOf (OpenAIChat.viaClaude codec req) =
      (OpenAIChat.viaClaude codec req).reasoningEffort := Option.or_none
  rw [hback, effort_viaClaude codec heffort hne]
  exact effort_of_budget_iff h _

/-- A Chat request that asks for an effort. -/
def askEffort (effort : String) (limit : Option Nat) : OpenAIChat.OpenAIChatRequest where
  model := "gpt"
  messages := [⟨"user", some (.text "Hi"), none, none, none, none⟩]
  temperature := none
  topP := none
  maxCompletionTokens := limit
  maxTokens := none
  stop := none
  seed := none
  stream := none
  streamOptions := none
  tools := none
  toolChoice := none
  responseFormat := none
  n := none
  reasoningEffort := some effort
  reasoning := none

theorem effort_returns_medium :
    OpenAIChat.effortOf (OpenAIChat.viaClaude JsonText.compactCodec (askEffort "medium" (some 2000))) =
      some "medium" :=
  (effort_returns_iff JsonText.compactCodec rfl (by decide)).mpr fun _ => by decide

/-- Without a limit, medium comes back as high. -/
theorem medium_becomes_high :
    OpenAIChat.effortOf (askEffort "medium" none) = some "medium" ∧
      OpenAIChat.effortOf
        (OpenAIChat.viaClaude JsonText.compactCodec (askEffort "medium" none)) = some "high" :=
  ⟨rfl, rfl⟩

/-! ## Claude's rule for the budget -/

namespace Claude

/-- A budget has 1024 tokens at least and is below the limit. -/
def BudgetFits (req : ClaudeRequest) : Prop :=
  ∀ cfg, req.thinking = some cfg → 1024 ≤ cfg.budgetTokens ∧ cfg.budgetTokens < req.maxTokens

/-- The limit that is built. -/
def limitOf (ir : IrRequest) : Nat := ir.sampling.maxTokens.getD defaultMaxTokens

/-- The history carries reasoning. -/
def CarriesThinking (ir : IrRequest) : Prop := ∃ m ∈ ir.messages, ∃ p ∈ m.parts, isThinking p = true

/-- What is asked for stays below the limit: a budget of its own that does, a low effort under a
limit above 1024, or no thinking at all. -/
def AsksBelowLimit (ir : IrRequest) : Prop :=
  match ir.reasoning with
  | .budget budget => 1024 ≤ budget ∧ budget < limitOf ir
  | .effort effort =>
    if effort = "low" then 1024 < limitOf ir else effort = "none" ∧ ¬ CarriesThinking ir
  | .off => ¬ CarriesThinking ir

theorem any_isThinking_iff (ir : IrRequest) :
    (ir.messages.any fun m => m.parts.any isThinking) = true ↔ CarriesThinking ir := by
  simp [CarriesThinking]

/-- Without thinking that is asked for, a history that carries some gets a budget of the limit. -/
theorem fits_history_iff (ir : IrRequest) (limit : Nat) :
    (∀ cfg, (if ir.messages.any fun m => m.parts.any isThinking then
        some (⟨"enabled", max limit 1024⟩ : ThinkingConfig) else none) = some cfg →
      1024 ≤ cfg.budgetTokens ∧ cfg.budgetTokens < limit) ↔ ¬ CarriesThinking ir := by
  rw [← any_isThinking_iff]
  by_cases h : (ir.messages.any fun m => m.parts.any isThinking) = true
  · rw [if_pos h]
    refine iff_of_false (fun hfits => ?_) (not_not_intro h)
    have hlt := (hfits _ rfl).2
    simp only at hlt
    omega
  · rw [if_neg h]
    exact iff_of_true nofun h

/-- The budget fits just where what is asked for stays below the limit. -/
theorem budgetFits_iff (ir : IrRequest) : BudgetFits (build ir) ↔ AsksBelowLimit ir := by
  have hbuild : BudgetFits (build ir) ↔ ∀ cfg, buildThinking ir.reasoning (limitOf ir) ir.messages =
      some cfg → 1024 ≤ cfg.budgetTokens ∧ cfg.budgetTokens < limitOf ir := Iff.rfl
  rw [hbuild]
  unfold AsksBelowLimit buildThinking
  cases ir.reasoning with
  | off => exact fits_history_iff ir (limitOf ir)
  | budget budget =>
    simp only [Option.some_or, Option.some.injEq, forall_eq']
  | effort effort =>
    by_cases hlow : effort = "low"
    · simp [reasoningEffortToThinking, hlow]
    · by_cases hnone : effort = "none"
      · simp only [reasoningEffortToThinking, hnone, if_true, Option.none_or, true_and]
        exact fits_history_iff ir (limitOf ir)
      · obtain ⟨extra, hextra⟩ : ∃ least, reasoningEffortToThinking (some effort) (limitOf ir) =
            some ⟨"enabled", max (limitOf ir) least⟩ := by
          by_cases hhigh : effort = "high"
          · exact ⟨4096, by simp [reasoningEffortToThinking, hhigh]⟩
          · exact ⟨2048, by simp [reasoningEffortToThinking, hnone, hlow, hhigh]⟩
        simp only [hextra, Option.some_or, hlow, hnone, if_false, false_and, iff_false]
        intro hfits
        have hlt := (hfits _ rfl).2
        simp only at hlt
        omega

/-- The request for a high effort under the limit of a small answer. -/
def highEffort : IrRequest :=
  OpenAIChat.read JsonText.compactCodec (askEffort "high" (some 8192))

/-- A high effort gets the whole limit as its budget. -/
theorem highEffort_budget :
    (build highEffort).maxTokens = 8192 ∧
      (build highEffort).thinking = some ⟨"enabled", 8192⟩ ∧ ¬ BudgetFits (build highEffort) := by
  have hthinking : (build highEffort).thinking = some ⟨"enabled", 8192⟩ := rfl
  refine ⟨rfl, hthinking, fun hfits => ?_⟩
  exact absurd (hfits _ hthinking).2 (by decide)

end Claude

end AnyConverter
