import Mathlib.Algebra.Order.Field.Rat
import Mathlib.Tactic.FieldSimp
import Mathlib.Tactic.Linarith
import Mathlib.Tactic.NormNum
import Mathlib.Tactic.Ring
import AnyConverter.Server.RequestLog.Usage

/-!
# The cost of a call

A price has a rate for the input, one for the output, one for cache reads and two for cache writes,
and the log bills each count of a usage at its rate.  Claude counts its prompt without the cached
tokens; the other vendors count them in, so that the input they report is not what is left to bill at
the input rate.

* `costSplit_eq`: what is billed, count by count;
* `cost_iff`: where every token of the prompt is billed once.
-/

set_option autoImplicit false

namespace AnyConverter.RequestLog

/-! ## Prices -/

/-- Dollars per million tokens. -/
structure Price where
  input : ℚ
  output : ℚ
  cacheRead : ℚ := 0
  cacheWrite : ℚ := 0
  cacheWrite1h : ℚ := 0
  deriving DecidableEq

namespace Price

def perMillion (tokens : Nat) (usdPerMillion : ℚ) : ℚ := tokens / 1000000 * usdPerMillion

/-- The rate of a write for an hour. -/
def oneHourRate (p : Price) : ℚ := if p.cacheWrite1h = 0 then p.cacheWrite else p.cacheWrite1h

/-- What a usage costs. -/
def costSplit (p : Price) (usage : Usage) : ℚ :=
  let cost := perMillion usage.inputTokens p.input + perMillion usage.outputTokens p.output
  let cost := match usage.cacheReadTokens with
    | some tokens => cost + perMillion tokens p.cacheRead
    | none => cost
  match usage.cacheWriteTokens with
  | some tokens =>
    let oneHour := min (usage.cacheWrite1h.getD 0) tokens
    let rest := tokens - oneHour
    cost + (perMillion oneHour p.oneHourRate + perMillion rest p.cacheWrite)
  | none => cost

end Price

/-- The cost a record tells. -/
def costUsd (price : Option Price) (usage : Usage) : Option ℚ := price.map (·.costSplit usage)

/-! ## What is due -/

/-- The tokens of a prompt by the rate they are due at. -/
structure PromptTokens where
  /-- neither read from a cache nor written to one -/
  plain : Nat
  read : Nat
  /-- written for five minutes -/
  write5m : Nat := 0
  write1h : Nat := 0
  deriving DecidableEq

namespace PromptTokens

def total (t : PromptTokens) : Nat := t.plain + t.read + t.write5m + t.write1h

/-- What a prompt and an answer cost. -/
def due (p : Price) (t : PromptTokens) (output : Nat) : ℚ :=
  Price.perMillion t.plain p.input + Price.perMillion t.read p.cacheRead +
    Price.perMillion t.write5m p.cacheWrite + Price.perMillion t.write1h p.oneHourRate +
    Price.perMillion output p.output

/-- A prompt whose count includes the tokens read from a cache. -/
def inclusive (prompt cached : Nat) : PromptTokens where
  plain := prompt - cached
  read := cached

theorem total_inclusive {prompt cached : Nat} (h : cached ≤ prompt) :
    (inclusive prompt cached).total = prompt := by
  simp only [total, inclusive]
  omega

end PromptTokens

/-- The cached tokens of a usage of OpenAI's: Chat and Responses have a name each for their details. -/
def openaiCached (usage : Value) : Option Nat :=
  (detail "prompt_tokens_details" "cached_tokens" usage).or
    (detail "input_tokens_details" "cached_tokens" usage)

/-- The prompt of a usage, by the convention of its vendor. -/
def promptTokens (format : Format) (usage : Value) : PromptTokens :=
  match format with
  | .claude =>
    let written := (count "cache_creation_input_tokens" usage).getD 0
    let oneHour := min ((detail "cache_creation" "ephemeral_1h_input_tokens" usage).getD 0) written
    { plain := (count "input_tokens" usage).getD 0
      read := (count "cache_read_input_tokens" usage).getD 0
      write5m := written - oneHour
      write1h := oneHour }
  | .gemini => .inclusive ((count "promptTokenCount" usage).getD 0)
      ((count "cachedContentTokenCount" usage).getD 0)
  | _ => .inclusive (openaiCounts usage).inputTokens ((openaiCached usage).getD 0)

/-- What a usage of a format is due to cost. -/
def dueCost (price : Price) (format : Format) (usage : Value) : ℚ :=
  (promptTokens format usage).due price (countsOf format usage).outputTokens

/-! ## What is billed -/

namespace Price

theorem costSplit_eq (p : Price) (u : Usage) : p.costSplit u =
    perMillion u.inputTokens p.input + perMillion u.outputTokens p.output +
      perMillion (u.cacheReadTokens.getD 0) p.cacheRead +
      perMillion (min (u.cacheWrite1h.getD 0) (u.cacheWriteTokens.getD 0)) p.oneHourRate +
      perMillion (u.cacheWriteTokens.getD 0 - min (u.cacheWrite1h.getD 0) (u.cacheWriteTokens.getD 0))
        p.cacheWrite := by
  have hzero : ∀ rate, perMillion 0 rate = 0 := by
    intro rate
    simp [perMillion]
  unfold costSplit
  cases u.cacheReadTokens with
  | none =>
    cases u.cacheWriteTokens with
    | none => simp [hzero]
    | some written =>
      simp only [Option.getD_none, Option.getD_some, hzero]
      ring
  | some read =>
    cases u.cacheWriteTokens with
    | none => simp [hzero]
    | some written =>
      simp only [Option.getD_some]
      ring

end Price

/-- A bill for the whole prompt at the input rate and for the cached tokens that are seen. -/
theorem inclusive_bill_iff (price : Price) (prompt cached seen output : Nat) :
    Price.perMillion prompt price.input + Price.perMillion output price.output +
          Price.perMillion seen price.cacheRead =
        (PromptTokens.inclusive prompt cached).due price output ↔
      (min prompt cached : ℚ) * price.input = ((cached : ℚ) - seen) * price.cacheRead := by
  have hplain : ((prompt - cached : Nat) : ℚ) = prompt - (min prompt cached : ℚ) := by
    rcases le_total prompt cached with h | h
    · rw [Nat.sub_eq_zero_of_le h, min_eq_left (by exact_mod_cast h)]
      simp
    · rw [Nat.cast_sub h, min_eq_right (by exact_mod_cast h)]
  simp only [PromptTokens.due, PromptTokens.inclusive, Price.perMillion, hplain]
  constructor
  · intro h
    linarith
  · intro h
    linarith

/-- The cached tokens, none of which the log sees, cost the same at both rates. -/
def SameAtBothRates (price : Price) (prompt cached : Nat) : Prop :=
  (min prompt cached : ℚ) * price.input = cached * price.cacheRead

/-- Where a usage of OpenAI's is billed what is due: no token is cached, or the input is free where
the log sees the cached ones, or they cost the same at both rates where it does not. -/
def OpenaiBilledOnce (price : Price) (usage : Value) : Prop :=
  match detail "prompt_tokens_details" "cached_tokens" usage with
  | some cached => (openaiCounts usage).inputTokens = 0 ∨ cached = 0 ∨ price.input = 0
  | none => SameAtBothRates price (openaiCounts usage).inputTokens
      ((detail "input_tokens_details" "cached_tokens" usage).getD 0)

/-- Where a usage is billed what is due. -/
def BilledOnce (price : Price) : Format → Value → Prop
  | .claude, _ => True
  | .gemini, usage => SameAtBothRates price ((count "promptTokenCount" usage).getD 0)
      ((count "cachedContentTokenCount" usage).getD 0)
  | _, usage => OpenaiBilledOnce price usage

theorem openai_bill_iff (price : Price) (usage : Value) :
    price.costSplit (openaiCounts usage) =
        (PromptTokens.inclusive (openaiCounts usage).inputTokens
          ((openaiCached usage).getD 0)).due price (openaiCounts usage).outputTokens ↔
      OpenaiBilledOnce price usage := by
  have hcost : price.costSplit (openaiCounts usage) =
      Price.perMillion (openaiCounts usage).inputTokens price.input +
        Price.perMillion (openaiCounts usage).outputTokens price.output +
        Price.perMillion ((detail "prompt_tokens_details" "cached_tokens" usage).getD 0)
          price.cacheRead := by
    rw [Price.costSplit_eq]
    simp [openaiCounts, Price.perMillion]
  rw [hcost, inclusive_bill_iff, OpenaiBilledOnce, openaiCached]
  cases hseen : detail "prompt_tokens_details" "cached_tokens" usage with
  | none => simp [SameAtBothRates]
  | some cached =>
    simp only [Option.some_or, Option.getD_some, sub_self, zero_mul, mul_eq_zero]
    rw [← or_assoc]
    refine or_congr_left ?_
    norm_cast
    omega

theorem gemini_bill_iff (price : Price) (usage : Value) :
    price.costSplit (geminiCounts usage) =
        (promptTokens .gemini usage).due price (geminiCounts usage).outputTokens ↔
      SameAtBothRates price ((count "promptTokenCount" usage).getD 0)
        ((count "cachedContentTokenCount" usage).getD 0) := by
  have hcost : price.costSplit (geminiCounts usage) =
      Price.perMillion ((count "promptTokenCount" usage).getD 0) price.input +
        Price.perMillion (geminiCounts usage).outputTokens price.output +
        Price.perMillion 0 price.cacheRead := by
    rw [Price.costSplit_eq]
    simp [geminiCounts, Price.perMillion]
  rw [hcost, promptTokens, inclusive_bill_iff, SameAtBothRates, Nat.cast_zero, sub_zero]

/-- A usage of Claude's is billed what is due. -/
theorem claude_bill (price : Price) (usage : Value) :
    price.costSplit (claudeCounts usage) =
      (promptTokens .claude usage).due price (claudeCounts usage).outputTokens := by
  rw [Price.costSplit_eq]
  simp only [PromptTokens.due, promptTokens, claudeCounts]
  ring

theorem costSplit_iff (price : Price) (format : Format) (usage : Value) :
    price.costSplit (countsOf format usage) = dueCost price format usage ↔
      BilledOnce price format usage := by
  cases format with
  | claude => exact iff_of_true (claude_bill price usage) trivial
  | openAIChat => exact openai_bill_iff price usage
  | openAIResponses => exact openai_bill_iff price usage
  | gemini => exact gemini_bill_iff price usage

/-! ## Calls -/

/-- The usage of a whole reply, null when it has none. -/
def wholeReplyUsage (codec : JsonCodec) (format : Format) (body : String) : Value :=
  ((codec.fromStr body).bind (given (usageKey format))).getD .null

/-- The usage of a streamed reply that is logged, null when it has none. -/
def streamedUsage (codec : JsonCodec) (format : Format) (lines : List String) : Value :=
  (lastReport format (usages codec format lines)).getD .null

theorem countsOf_getD (format : Format) (usage : Option Value) :
    (usage.map (countsOf format)).getD {} = countsOf format (usage.getD .null) := by
  cases usage with
  | none => cases format <;> rfl
  | some usage => rfl

theorem extractUsage_eq (codec : JsonCodec) (format : Format) (body : String) :
    extractUsage codec body format = countsOf format (wholeReplyUsage codec format body) := by
  unfold extractUsage wholeReplyUsage
  rw [← countsOf_getD]
  cases codec.fromStr body with
  | none => rfl
  | some value => exact extractValue_eq format value

/-- The usage of a reply whose prompt of a thousand tokens is mostly cached. -/
def cachedUsage : Value :=
  .object [("completion_tokens", .nat 0), ("prompt_tokens", .nat 1000),
    ("prompt_tokens_details", .object [("cached_tokens", .nat 900)])]

def cachedBody : String := JsonText.compactCodec.toText (.object [("usage", cachedUsage)])

theorem cachedBody_read :
    JsonText.compactCodec.fromStr cachedBody = some (.object [("usage", cachedUsage)]) :=
  JsonText.compactCodec_lawful.read_print _

def cachedPrice : Price where
  input := 3
  output := 15
  cacheRead := 1

end AnyConverter.RequestLog
