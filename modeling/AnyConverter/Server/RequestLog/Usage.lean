import AnyConverter.Converters.Usage
import AnyConverter.Lib.JsonText

/-!
# The usage of the request log

The log reads the usage of a reply on its own, not through the intermediate representation: a whole
body in `extractUsage`, a stream in `extractStreamUsage`, which keeps the last usage that reports
anything.

* `extractUsage_iff`: where a whole body is read as the core reads it;
* `extractStreamUsage_iff`: where a stream gives what the whole reply would;
* `usage_iff`: both.
-/

set_option autoImplicit false

namespace AnyConverter.RequestLog

/-! ## Reading a usage -/

/-- A count of a usage. -/
def count (key : String) (usage : Value) : Option Nat := (usage.get key).bind Value.asU64

/-- A count of the details of a usage. -/
def detail (details key : String) (usage : Value) : Option Nat :=
  (usage.get details).bind (count key)

def openaiCounts (usage : Value) : Usage where
  inputTokens :=
    (((usage.get "prompt_tokens").or (usage.get "input_tokens")).bind Value.asU64).getD 0
  outputTokens :=
    (((usage.get "completion_tokens").or (usage.get "output_tokens")).bind Value.asU64).getD 0
  cacheReadTokens := detail "prompt_tokens_details" "cached_tokens" usage
  cacheWriteTokens := none
  cacheWrite1h := none
  reasoningTokens := detail "completion_tokens_details" "reasoning_tokens" usage

def claudeCounts (usage : Value) : Usage where
  inputTokens := (count "input_tokens" usage).getD 0
  outputTokens := (count "output_tokens" usage).getD 0
  cacheReadTokens := count "cache_read_input_tokens" usage
  cacheWriteTokens := count "cache_creation_input_tokens" usage
  cacheWrite1h := detail "cache_creation" "ephemeral_1h_input_tokens" usage
  reasoningTokens := none

def geminiCounts (meta_ : Value) : Usage where
  inputTokens := (count "promptTokenCount" meta_).getD 0
  outputTokens := (count "candidatesTokenCount" meta_).getD 0

def extractOpenaiUsage (value : Value) : Usage := ((value.get "usage").map openaiCounts).getD {}

def extractClaudeUsage (value : Value) : Usage := ((value.get "usage").map claudeCounts).getD {}

def extractGeminiUsage (value : Value) : Usage :=
  ((value.get "usageMetadata").map geminiCounts).getD {}

/-- The usage of a parsed body. -/
def extractValue : Format → Value → Usage
  | .claude => extractClaudeUsage
  | .gemini => extractGeminiUsage
  | .openAIChat => extractOpenaiUsage
  | .openAIResponses => extractOpenaiUsage

/-- The usage of a whole reply. -/
def extractUsage (codec : JsonCodec) (body : String) (format : Format) : Usage :=
  ((codec.fromStr body).map (extractValue format)).getD {}

/-! ## Reading a stream -/

/-- Whether a usage reports anything. -/
def reports (u : Usage) : Bool :=
  u.inputTokens > 0 || u.outputTokens > 0 || u.cacheReadTokens.isSome ||
    u.cacheWriteTokens.isSome || u.reasoningTokens.isSome

def orElse (u fallback : Usage) : Usage := if reports u then u else fallback

def extractSseDataPayloads (block : String) : List String :=
  (((Text.lines block).filterMap (Text.stripPrefix "data:")).map Text.trim).filter (· ≠ "")

/-- The usage of one event. -/
def eventUsage (format : Format) (value : Value) : Usage :=
  match format with
  | .openAIResponses =>
    (((value.get "response").bind (·.get "usage")).map
      fun usage => extractOpenaiUsage (.object [("usage", usage)])).getD {}
  | .openAIChat => extractOpenaiUsage value
  | .claude => orElse (extractClaudeUsage value)
    ((((value.get "message").bind (·.get "usage")).map
      fun usage => extractClaudeUsage (.object [("usage", usage)])).getD {})
  | .gemini => extractGeminiUsage value

/-- One payload of a stream. -/
def usageStep (codec : JsonCodec) (format : Format) (latest : Usage) (data : String) : Usage :=
  if data = "[DONE]" then latest
  else
    match codec.fromStr data with
    | none => latest
    | some value => orElse (eventUsage format value) latest

/-- The usage of a stream. -/
def extractStreamUsage (codec : JsonCodec) (lines : List String) (format : Format) : Usage :=
  (lines.flatMap extractSseDataPayloads).foldl (usageStep codec format) {}

/-! ## The counts that are compared -/

/-- The counts of a usage: input, output, cache read, cache write and reasoning. -/
def billed (u : Usage) : TokenCounts × Option Nat := (u.counts, u.reasoningTokens)

theorem reports_eq_false_iff (u : Usage) : reports u = false ↔ billed u = billed {} := by
  simp [reports, billed, Usage.counts, and_assoc]

theorem reports_congr {u v : Usage} (h : billed u = billed v) : reports u = reports v := by
  cases hv : reports v with
  | false => rw [reports_eq_false_iff, h, (reports_eq_false_iff v).mp hv]
  | true =>
    by_contra hu
    have hu : reports u = false := by simpa using hu
    rw [reports_eq_false_iff, h, ← reports_eq_false_iff] at hu
    rw [hu] at hv
    cases hv

/-! ## Whole bodies -/

/-- Where the names the log looks for in a usage of Responses say what those the core reads say. -/
structure NamedAlike (usage : Value) : Prop where
  input : ∀ v, usage.get "prompt_tokens" = some v →
    v.asU64.getD 0 = (count "input_tokens" usage).getD 0
  output : ∀ v, usage.get "completion_tokens" = some v →
    v.asU64.getD 0 = (count "output_tokens" usage).getD 0
  cached : detail "prompt_tokens_details" "cached_tokens" usage =
    detail "input_tokens_details" "cached_tokens" usage
  reasoning : detail "completion_tokens_details" "reasoning_tokens" usage = none

/-- Where the log finds in a usage what the core finds. -/
def ReadAlike : Format → Value → Prop
  | .claude, _ => True
  | .gemini, _ => True
  | .openAIChat, usage => detail "completion_tokens_details" "reasoning_tokens" usage = none
  | .openAIResponses, usage => NamedAlike usage

/-- The usage of a body, null when it has none. -/
def bodyUsage (codec : JsonCodec) (body : String) : Value :=
  ((codec.fromStr body).bind (·.get "usage")).getD .null

section Serde

open Serde

variable {α : Type} {key : String} {obj : List (String × Value)}

theorem count_of_required {n : Nat} (h : required key u64 obj = some n) :
    count key (.object obj) = some n := h

theorem count_of_optional {n : Option Nat} (h : optional key u64 obj = some n) :
    count key (.object obj) = n := by
  unfold Serde.optional at h
  show (obj.lookup key).bind Value.asU64 = n
  split at h
  · rename_i hlookup
    cases h
    rw [hlookup, Option.bind_none]
  · rename_i hlookup
    cases h
    rw [hlookup, Option.bind_some]
    rfl
  · rename_i v _ hlookup
    rw [hlookup, Option.bind_some]
    obtain ⟨m, hm, rfl⟩ := Option.map_eq_some_iff.mp h
    exact hm

theorem detail_of_optional {details : String} {read : Value → Option α} {field : α → Option Nat}
    {a : Option α} (hread : ∀ v x, read v = some x → count key v = field x)
    (h : optional details read obj = some a) : detail details key (.object obj) = a.bind field := by
  unfold Serde.optional at h
  show (obj.lookup details).bind (count key) = a.bind field
  split at h
  · rename_i hlookup
    cases h
    rw [hlookup]
    rfl
  · rename_i hlookup
    cases h
    rw [hlookup]
    rfl
  · rename_i v _ hlookup
    rw [hlookup, Option.bind_some]
    obtain ⟨x, hx, rfl⟩ := Option.map_eq_some_iff.mp h
    exact hread v x hx

/-- What a usage that may be absent or null gives. -/
theorem extract_of_optional {read : Value → Option α} (counts : Value → Usage) {a : Option α}
    (hnull : counts .null = {}) (h : optional key read obj = some a) :
    (a = none ∧ (((Value.object obj).get key).map counts).getD {} = {} ∧
      ((Value.object obj).get key).getD .null = .null) ∨
    ∃ u x, read u = some x ∧ a = some x ∧ (Value.object obj).get key = some u := by
  unfold Serde.optional at h
  show (a = none ∧ ((obj.lookup key).map counts).getD {} = {} ∧ (obj.lookup key).getD .null = .null) ∨
    ∃ u x, read u = some x ∧ a = some x ∧ obj.lookup key = some u
  split at h
  · rename_i hlookup
    cases h
    rw [hlookup]
    exact Or.inl ⟨rfl, rfl, rfl⟩
  · rename_i hlookup
    cases h
    rw [hlookup]
    exact Or.inl ⟨rfl, hnull, rfl⟩
  · rename_i v _ hlookup
    obtain ⟨x, hx, rfl⟩ := Option.map_eq_some_iff.mp h
    exact Or.inr ⟨v, x, hx, rfl, hlookup⟩

end Serde

theorem claudeCounts_of_decoded {u : Value} {usage : Claude.ClaudeUsage}
    (h : Claude.ClaudeUsage.ofValue u = some usage) : claudeCounts u = Claude.readUsage usage := by
  cases u with
  | object obj =>
    simp only [Claude.ClaudeUsage.ofValue, Option.pure_def, Option.bind_eq_bind,
      Option.bind_eq_some_iff, Option.some.injEq] at h
    obtain ⟨input, hinput, output, houtput, write, hwrite, creation, hcreation, read, hread, rfl⟩ := h
    have hdetail : detail "cache_creation" "ephemeral_1h_input_tokens" (.object obj) =
        creation.bind Claude.ClaudeCacheCreation.ephemeral1hInputTokens := by
      refine detail_of_optional ?_ hcreation
      intro v x hx
      cases v with
      | object fields =>
        simp only [Claude.ClaudeCacheCreation.ofValue, Option.pure_def, Option.bind_eq_bind,
          Option.bind_eq_some_iff, Option.some.injEq] at hx
        obtain ⟨_, -, hour, hhour, rfl⟩ := hx
        exact count_of_optional hhour
      | _ => cases hx
    simp only [claudeCounts, Claude.readUsage, count_of_required hinput, count_of_required houtput,
      count_of_optional hwrite, count_of_optional hread, hdetail, Option.getD_some]
  | _ => cases h

theorem geminiCounts_of_decoded {u : Value} {usage : Gemini.GeminiUsageMetadata}
    (h : Gemini.GeminiUsageMetadata.ofValue u = some usage) :
    geminiCounts u = Gemini.readUsage usage := by
  cases u with
  | object obj =>
    simp only [Gemini.GeminiUsageMetadata.ofValue, Option.pure_def, Option.bind_eq_bind,
      Option.bind_eq_some_iff, Option.some.injEq] at h
    obtain ⟨prompt, hprompt, candidates, hcandidates, _, -, rfl⟩ := h
    simp only [geminiCounts, Gemini.readUsage, count_of_optional hprompt,
      count_of_optional hcandidates]
  | _ => cases h

theorem firstCount_of_required {key : String} {obj : List (String × Value)} {n : Nat}
    (h : Serde.required key Serde.u64 obj = some n) (other : Option Value) :
    ((((Value.object obj).get key).or other).bind Value.asU64).getD 0 = n := by
  obtain ⟨v, hv, hn⟩ := Option.bind_eq_some_iff.mp h
  show (((obj.lookup key).or other).bind Value.asU64).getD 0 = n
  rw [hv, Option.some_or, Option.bind_some, show v.asU64 = some n from hn, Option.getD_some]

/-- A first name speaks for a second when it is absent or says the same. -/
theorem firstCount_iff (first second : String) (usage : Value) :
    (((usage.get first).or (usage.get second)).bind Value.asU64).getD 0 =
        (count second usage).getD 0 ↔
      ∀ v, usage.get first = some v → v.asU64.getD 0 = (count second usage).getD 0 := by
  cases hfirst : usage.get first with
  | none =>
    refine ⟨?_, fun _ => rfl⟩
    intro _ v hv
    cases hv
  | some v =>
    rw [Option.some_or, Option.bind_some]
    constructor
    · intro h w hw
      cases hw
      exact h
    · intro h
      exact h v rfl

/-- The log finds in a usage of Chat what the core finds, and the reasoning besides. -/
theorem openaiCounts_of_chat {u : Value} {usage : OpenAIChat.OpenAIUsage}
    (h : OpenAIChat.OpenAIUsage.ofValue u = some usage) :
    openaiCounts u = { OpenAIChat.readUsage usage with
      reasoningTokens := detail "completion_tokens_details" "reasoning_tokens" u } := by
  cases u with
  | object obj =>
    simp only [OpenAIChat.OpenAIUsage.ofValue, Option.pure_def, Option.bind_eq_bind,
      Option.bind_eq_some_iff, Option.some.injEq] at h
    obtain ⟨prompt, hprompt, completion, hcompletion, _, -, cached, hcached, rfl⟩ := h
    have hdetail : detail "prompt_tokens_details" "cached_tokens" (.object obj) =
        cached.bind OpenAIChat.PromptTokensDetails.cachedTokens := by
      refine detail_of_optional ?_ hcached
      intro v x hx
      cases v with
      | object fields =>
        simp only [OpenAIChat.PromptTokensDetails.ofValue, Option.pure_def, Option.bind_eq_bind,
          Option.bind_eq_some_iff, Option.some.injEq] at hx
        obtain ⟨tokens, htokens, rfl⟩ := hx
        exact count_of_optional htokens
      | _ => cases hx
    simp only [openaiCounts, OpenAIChat.readUsage, firstCount_of_required hprompt,
      firstCount_of_required hcompletion, hdetail]
  | _ => cases h

theorem openaiCounts_of_responses {u : Value} {usage : OpenAIResponses.ResponsesUsage}
    (h : OpenAIResponses.ResponsesUsage.ofValue u = some usage) :
    billed (openaiCounts u) = billed (OpenAIResponses.usageToIr usage) ↔ NamedAlike u := by
  cases u with
  | object obj =>
    simp only [OpenAIResponses.ResponsesUsage.ofValue, Option.pure_def, Option.bind_eq_bind,
      Option.bind_eq_some_iff, Option.some.injEq] at h
    obtain ⟨input, hinput, output, houtput, _, -, cached, hcached, rfl⟩ := h
    have hdetail : detail "input_tokens_details" "cached_tokens" (.object obj) =
        cached.bind OpenAIResponses.InputTokensDetails.cachedTokens := by
      refine detail_of_optional ?_ hcached
      intro v x hx
      cases v with
      | object fields =>
        simp only [OpenAIResponses.InputTokensDetails.ofValue, Option.pure_def, Option.bind_eq_bind,
          Option.bind_eq_some_iff, Option.some.injEq] at hx
        obtain ⟨tokens, htokens, rfl⟩ := hx
        exact count_of_optional htokens
      | _ => cases hx
    have hin := firstCount_iff "prompt_tokens" "input_tokens" (.object obj)
    have hout := firstCount_iff "completion_tokens" "output_tokens" (.object obj)
    rw [count_of_required hinput, Option.getD_some] at hin
    rw [count_of_required houtput, Option.getD_some] at hout
    simp only [billed, Usage.counts, openaiCounts, OpenAIResponses.usageToIr, Prod.mk.injEq,
      TokenCounts.mk.injEq, ← hdetail]
    constructor
    · rintro ⟨⟨hprompt, hcompletion, hread, -⟩, hreasoning⟩
      refine ⟨?_, ?_, hread, hreasoning⟩
      · rw [count_of_required hinput, Option.getD_some]
        exact hin.mp hprompt
      · rw [count_of_required houtput, Option.getD_some]
        exact hout.mp hcompletion
    · rintro ⟨hprompt, hcompletion, hread, hreasoning⟩
      rw [count_of_required hinput, Option.getD_some] at hprompt
      rw [count_of_required houtput, Option.getD_some] at hcompletion
      exact ⟨⟨hin.mpr hprompt, hout.mpr hcompletion, hread, trivial⟩, hreasoning⟩
  | _ => cases h

/-- The usage the core reads from a reply. -/
def coreUsage : WireResponse → Usage
  | .claude resp => Claude.readUsage resp.usage
  | .openAIChat resp => (resp.usage.map OpenAIChat.readUsage).getD {}
  | .openAIResponses resp => (resp.usage.map OpenAIResponses.usageToIr).getD {}
  | .gemini resp => (resp.usageMetadata.map Gemini.readUsage).getD {}

theorem readResponse_usage (codec : JsonCodec) (w : World) (resp : WireResponse) :
    (readResponse codec w resp).1.usage = coreUsage resp := by
  cases resp with
  | claude resp => rfl
  | openAIChat resp =>
    simp only [readResponse, OpenAIChat.readResponse]
    split <;> rfl
  | openAIResponses resp => rfl
  | gemini resp => rfl

/-- The log reads a body the core decodes as the core does exactly where the names agree. -/
theorem extractValue_iff {format : Format} {value : Value} {resp : WireResponse}
    (h : WireResponse.ofValue format value = some resp) :
    billed (extractValue format value) = billed (coreUsage resp) ↔
      ReadAlike format ((value.get "usage").getD .null) := by
  cases format with
  | claude =>
    obtain ⟨reply, hreply, rfl⟩ := Option.map_eq_some_iff.mp h
    refine iff_of_true ?_ trivial
    cases value with
    | object obj =>
      simp only [Claude.ClaudeResponse.ofValue, Option.pure_def, Option.bind_eq_bind,
        Option.bind_eq_some_iff, Option.some.injEq] at hreply
      obtain ⟨_, -, _, -, _, -, _, -, _, -, _, -, _, -, usage, husage, rfl⟩ := hreply
      obtain ⟨u, hu, hdecoded⟩ := Option.bind_eq_some_iff.mp husage
      have hget : (Value.object obj).get "usage" = some u := hu
      simp only [extractValue, extractClaudeUsage, coreUsage, hget, Option.map_some,
        Option.getD_some, claudeCounts_of_decoded hdecoded]
    | _ => cases hreply
  | openAIChat =>
    obtain ⟨reply, hreply, rfl⟩ := Option.map_eq_some_iff.mp h
    cases value with
    | object obj =>
      simp only [OpenAIChat.OpenAIChatResponse.ofValue, Option.pure_def, Option.bind_eq_bind,
        Option.bind_eq_some_iff, Option.some.injEq] at hreply
      obtain ⟨_, -, _, -, _, -, _, -, _, -, usage, husage, _, -, rfl⟩ := hreply
      obtain ⟨rfl, hextract, hnull⟩ | ⟨u, x, hx, rfl, hget⟩ :=
        extract_of_optional openaiCounts rfl husage
      · refine iff_of_true (congrArg billed hextract) ?_
        rw [hnull]
        rfl
      · simp only [extractValue, extractOpenaiUsage, coreUsage, hget, Option.map_some,
          Option.getD_some, openaiCounts_of_chat hx]
        exact Prod.mk_right_inj
    | _ => cases hreply
  | openAIResponses =>
    obtain ⟨reply, hreply, rfl⟩ := Option.map_eq_some_iff.mp h
    cases value with
    | object obj =>
      simp only [OpenAIResponses.OpenAIResponsesResponse.ofValue, Option.pure_def,
        Option.bind_eq_bind, Option.bind_eq_some_iff, Option.some.injEq] at hreply
      obtain ⟨_, -, _, -, _, -, _, -, _, -, _, -, usage, husage, rfl⟩ := hreply
      obtain ⟨rfl, hextract, hnull⟩ | ⟨u, x, hx, rfl, hget⟩ :=
        extract_of_optional openaiCounts rfl husage
      · refine iff_of_true (congrArg billed hextract) ?_
        rw [hnull]
        exact ⟨fun v hv => (by cases hv), fun v hv => (by cases hv), rfl, rfl⟩
      · simp only [extractValue, extractOpenaiUsage, coreUsage, hget, Option.map_some,
          Option.getD_some]
        exact openaiCounts_of_responses hx
    | _ => cases hreply
  | gemini =>
    obtain ⟨reply, hreply, rfl⟩ := Option.map_eq_some_iff.mp h
    refine iff_of_true ?_ trivial
    cases value with
    | object obj =>
      simp only [Gemini.GeminiResponse.ofValue, Option.pure_def, Option.bind_eq_bind,
        Option.bind_eq_some_iff, Option.some.injEq] at hreply
      obtain ⟨_, -, usage, husage, _, -, rfl⟩ := hreply
      obtain ⟨rfl, hextract, -⟩ | ⟨u, x, hx, rfl, hget⟩ :=
        extract_of_optional geminiCounts rfl husage
      · exact congrArg billed hextract
      · simp only [extractValue, extractGeminiUsage, coreUsage, hget, Option.map_some,
          Option.getD_some, geminiCounts_of_decoded hx]
    | _ => cases hreply

/-- A whole body the core decodes is logged with the usage the core reads from it exactly where the
names the log looks for say what those of the core say. -/
theorem extractUsage_iff (codec : JsonCodec) {format : Format} (w : World) {body : String}
    {resp : WireResponse} (h : codec.decode (WireResponse.ofValue format) body = some resp) :
    billed (extractUsage codec body format) = billed (readResponse codec w resp).1.usage ↔
      ReadAlike format (bodyUsage codec body) := by
  obtain ⟨value, hvalue, hresp⟩ := Option.bind_eq_some_iff.mp h
  rw [readResponse_usage, extractUsage, bodyUsage, hvalue, Option.map_some, Option.getD_some,
    Option.bind_some]
  exact extractValue_iff hresp

/-! ## Streams -/

/-- A field of a value, unless it is null. -/
def given (key : String) (value : Value) : Option Value := (value.get key).filter (· ≠ .null)

/-- The usages an event carries, in the order they count. -/
def usagesOf (format : Format) (value : Value) : List Value :=
  match format with
  | .claude => ((value.get "message").bind (given "usage")).toList ++ (given "usage" value).toList
  | .openAIChat => (given "usage" value).toList
  | .openAIResponses => ((value.get "response").bind (given "usage")).toList
  | .gemini => (given "usageMetadata" value).toList

/-- The events of a stream. -/
def events (codec : JsonCodec) (lines : List String) : List Value :=
  ((lines.flatMap extractSseDataPayloads).filter (· ≠ "[DONE]")).filterMap codec.fromStr

/-- The usages of a stream. -/
def usages (codec : JsonCodec) (format : Format) (lines : List String) : List Value :=
  (events codec lines).flatMap (usagesOf format)

/-- What a usage says. -/
def fieldsSaid : Value → List (String × Value)
  | .object fields => fields.filter (·.2 ≠ .null)
  | _ => []

/-- The fields of a usage over those of the earlier ones. -/
def overlay (fields : List (String × Value)) (usage : Value) : List (String × Value) :=
  (fieldsSaid usage).foldr (fun f map => Value.insertField f.1 f.2 map) fields

/-- The usage of a whole reply whose stream says it in pieces: a usage of Claude's goes on from the
one before it, elsewhere it stands for itself. -/
def wholeUsage : Format → List Value → Option Value
  | .claude, [] => none
  | .claude, us => some (.object (us.foldl overlay []))
  | _, us => us.getLast?

def usageKey : Format → String
  | .gemini => "usageMetadata"
  | _ => "usage"

/-- A whole reply says of its usage what a stream says in pieces. -/
def SameUsage (codec : JsonCodec) (format : Format) (lines : List String) (body : String) : Prop :=
  (codec.fromStr body).map (given (usageKey format)) =
    some (wholeUsage format (usages codec format lines))

/-- The counts of a usage. -/
def countsOf : Format → Value → Usage
  | .claude => claudeCounts
  | .gemini => geminiCounts
  | _ => openaiCounts

/-- The last usage that reports anything. -/
def lastReport (format : Format) (us : List Value) : Option Value :=
  (us.filter fun u => reports (countsOf format u)).getLast?

/-- What the last usage that names a field says of it. -/
def lastSaid (key : String) (us : List Value) : Option Value :=
  (us.filterMap fun u => (fieldsSaid u).lookup key).getLast?

/-- The last usage of Claude's that reports anything says of every count what the last one naming
it says. -/
structure Repeated (us : List Value) : Prop where
  input : (((lastReport .claude us).bind (count "input_tokens")).getD 0) =
    ((lastSaid "input_tokens" us).bind Value.asU64).getD 0
  output : (((lastReport .claude us).bind (count "output_tokens")).getD 0) =
    ((lastSaid "output_tokens" us).bind Value.asU64).getD 0
  read : (lastReport .claude us).bind (count "cache_read_input_tokens") =
    (lastSaid "cache_read_input_tokens" us).bind Value.asU64
  write : (lastReport .claude us).bind (count "cache_creation_input_tokens") =
    (lastSaid "cache_creation_input_tokens" us).bind Value.asU64

/-- The last usage says all there is to say. -/
def LastSaysAll : Format → List Value → Prop
  | .claude, us => Repeated us
  | format, us => ∀ u ∈ us.getLast?, reports (countsOf format u) = true ∨
      ∀ v ∈ us, reports (countsOf format v) = false

/-! ## What a stream gives -/

theorem orElse_assoc (a b c : Usage) : orElse (orElse a b) c = orElse a (orElse b c) := by
  unfold orElse
  cases ha : reports a <;> simp [ha]

/-- What is null says nothing. -/
theorem extract_given (key : String) (format : Format) (value : Value) :
    ((given key value).map (countsOf format)).getD {} =
      ((value.get key).map (countsOf format)).getD {} := by
  unfold given
  cases hget : value.get key with
  | none => rfl
  | some u =>
    by_cases hnull : u = .null
    · subst hnull
      cases format <;> rfl
    · simp [Option.filter, hnull]

theorem extractValue_eq (format : Format) (value : Value) :
    extractValue format value = ((given (usageKey format) value).map (countsOf format)).getD {} := by
  rw [extract_given]
  cases format <;> rfl

/-- The last of the usages that report anything. -/
def latest (format : Format) (d : Usage) (us : List Value) : Usage :=
  us.foldl (fun latest u => orElse (countsOf format u) latest) d

theorem latest_toList (format : Format) (d : Usage) (u : Option Value) :
    latest format d u.toList = orElse ((u.map (countsOf format)).getD {}) d := by
  cases u <;> rfl

theorem extract_bind_given (key : String) (format : Format) (v : Option Value) :
    ((v.bind (given key)).map (countsOf format)).getD {} =
      ((v.bind (·.get key)).map (countsOf format)).getD {} := by
  cases v with
  | none => rfl
  | some v => exact extract_given key format v

theorem eventUsage_latest (format : Format) (d : Usage) (value : Value) :
    orElse (eventUsage format value) d = latest format d (usagesOf format value) := by
  cases format with
  | claude =>
    show _ = latest .claude d (_ ++ _)
    rw [latest, List.foldl_append]
    change _ = latest .claude (latest .claude d _) _
    rw [latest_toList, latest_toList, extract_bind_given, extract_given, ← orElse_assoc]
    rfl
  | openAIChat =>
    show _ = latest .openAIChat d (Option.toList _)
    rw [latest_toList, extract_given]
    rfl
  | openAIResponses =>
    show _ = latest .openAIResponses d (Option.toList _)
    rw [latest_toList, extract_bind_given]
    rfl
  | gemini =>
    show _ = latest .gemini d (Option.toList _)
    rw [latest_toList, extract_given]
    rfl

/-- A run over the payloads of a stream is a run over the usages of its events. -/
theorem foldl_usageStep (codec : JsonCodec) (format : Format) (payloads : List String) (d : Usage) :
    payloads.foldl (usageStep codec format) d = latest format d
      (((payloads.filter (· ≠ "[DONE]")).filterMap codec.fromStr).flatMap (usagesOf format)) := by
  induction payloads generalizing d with
  | nil => rfl
  | cons data payloads ih =>
    rw [List.foldl_cons, ih]
    by_cases hdone : data = "[DONE]"
    · simp [usageStep, hdone]
    · cases hparse : codec.fromStr data with
      | none => simp [usageStep, hdone, hparse]
      | some value =>
        have hstep : usageStep codec format d data = latest format d (usagesOf format value) := by
          rw [← eventUsage_latest]
          simp [usageStep, hdone, hparse]
        rw [hstep, List.filter_cons_of_pos (by simpa using hdone), List.filterMap_cons_some hparse,
          List.flatMap_cons, latest, latest, latest, List.foldl_append]

theorem latest_eq (format : Format) (us : List Value) :
    latest format {} us = ((lastReport format us).map (countsOf format)).getD {} := by
  induction us using List.reverseRecOn with
  | nil => rfl
  | append_singleton us u ih =>
    have hfold : latest format {} (us ++ [u]) = orElse (countsOf format u) (latest format {} us) := by
      rw [latest, List.foldl_append]
      rfl
    rw [hfold, ih]
    unfold lastReport
    cases hu : reports (countsOf format u) with
    | true => simp [orElse, hu, List.filter_append]
    | false => simp [orElse, hu, List.filter_append]

/-- A stream gives its last usage that reports anything. -/
theorem extractStreamUsage_eq (codec : JsonCodec) (lines : List String) (format : Format) :
    extractStreamUsage codec lines format =
      ((lastReport format (usages codec format lines)).map (countsOf format)).getD {} := by
  rw [← latest_eq]
  exact foldl_usageStep codec format _ {}

/-! ## What the whole reply gives -/

theorem lookup_overlay (key : String) (fields : List (String × Value)) (u : Value) :
    (overlay fields u).lookup key = ((fieldsSaid u).lookup key).or (fields.lookup key) := by
  unfold overlay
  induction fieldsSaid u with
  | nil => rfl
  | cons f said ih =>
    obtain ⟨k, v⟩ := f
    rw [List.foldr_cons]
    by_cases hkey : key = k
    · subst hkey
      rw [Value.lookup_insertField_self, List.lookup_cons, beq_self_eq_true]
      rfl
    · rw [Value.lookup_insertField_ne hkey, ih, List.lookup_cons, beq_false_of_ne hkey]

/-- The last usage that names a field speaks for all. -/
theorem lookup_foldl_overlay (key : String) (us : List Value) :
    (us.foldl overlay []).lookup key = lastSaid key us := by
  induction us using List.reverseRecOn with
  | nil => rfl
  | append_singleton us u ih =>
    rw [List.foldl_append, List.foldl_cons, List.foldl_nil, lookup_overlay, ih, lastSaid, lastSaid,
      List.filterMap_append]
    cases hsaid : (fieldsSaid u).lookup key with
    | none => simp [hsaid]
    | some v => simp [hsaid]

theorem count_foldl_overlay (key : String) (us : List Value) :
    count key (.object (us.foldl overlay [])) = (lastSaid key us).bind Value.asU64 :=
  congrArg (·.bind Value.asU64) (lookup_foldl_overlay key us)

theorem repeated_iff (us : List Value) :
    billed (((lastReport .claude us).map claudeCounts).getD {}) =
        billed (claudeCounts (.object (us.foldl overlay []))) ↔ Repeated us := by
  have hlast : billed (((lastReport .claude us).map claudeCounts).getD {}) =
      (⟨((lastReport .claude us).bind (count "input_tokens")).getD 0,
        ((lastReport .claude us).bind (count "output_tokens")).getD 0,
        (lastReport .claude us).bind (count "cache_read_input_tokens"),
        (lastReport .claude us).bind (count "cache_creation_input_tokens")⟩, none) := by
    cases lastReport .claude us <;> rfl
  rw [hlast]
  simp only [billed, Usage.counts, claudeCounts, count_foldl_overlay, Prod.mk.injEq,
    TokenCounts.mk.injEq, and_true]
  constructor
  · rintro ⟨input, output, read, write⟩
    exact ⟨input, output, read, write⟩
  · intro h
    exact ⟨h.input, h.output, h.read, h.write⟩

theorem lastReport_eq_none_iff (format : Format) (us : List Value) :
    lastReport format us = none ↔ ∀ v ∈ us, reports (countsOf format v) = false := by
  simp [lastReport]

theorem reports_lastReport {format : Format} {us : List Value} {u : Value}
    (h : lastReport format us = some u) : reports (countsOf format u) = true :=
  (List.mem_filter.mp (List.mem_of_getLast? h)).2

/-- Where each usage stands for itself, the last that reports is the last one, or none reports. -/
theorem stands_iff (format : Format) (us : List Value) :
    billed (((lastReport format us).map (countsOf format)).getD {}) =
        billed ((us.getLast?.map (countsOf format)).getD {}) ↔
      ∀ u ∈ us.getLast?, reports (countsOf format u) = true ∨
        ∀ v ∈ us, reports (countsOf format v) = false := by
  induction us using List.reverseRecOn with
  | nil => simp [lastReport]
  | append_singleton us u =>
    have hlast : (us ++ [u]).getLast? = some u := List.getLast?_concat
    rw [hlast]
    cases hu : reports (countsOf format u) with
    | true =>
      have hreport : lastReport format (us ++ [u]) = some u := by
        simp [lastReport, List.filter_append, hu]
      rw [hreport]
      refine iff_of_true rfl ?_
      rintro _ ⟨⟩
      exact Or.inl hu
    | false =>
      have hnone : (∀ v ∈ some u, reports (countsOf format v) = true ∨
          ∀ w ∈ us ++ [u], reports (countsOf format w) = false) ↔
          lastReport format (us ++ [u]) = none := by
        rw [lastReport_eq_none_iff]
        constructor
        · intro h
          refine (h u rfl).resolve_left ?_
          rw [hu]
          exact Bool.false_ne_true
        · intro h _ _
          exact Or.inr h
      rw [hnone, Option.map_some, Option.getD_some, (reports_eq_false_iff _).mp hu,
        ← reports_eq_false_iff]
      cases hreport : lastReport format (us ++ [u]) with
      | none => exact iff_of_true rfl rfl
      | some r =>
        refine iff_of_false ?_ (by simp)
        rw [Option.map_some, Option.getD_some, reports_lastReport hreport]
        simp

theorem lastSaysAll_iff (format : Format) (us : List Value) :
    billed (((lastReport format us).map (countsOf format)).getD {}) =
        billed (((wholeUsage format us).map (countsOf format)).getD {}) ↔
      LastSaysAll format us := by
  cases format with
  | claude =>
    have hwhole : ((wholeUsage .claude us).map claudeCounts).getD {} =
        claudeCounts (.object (us.foldl overlay [])) := by
      cases us <;> rfl
    show _ = billed (((wholeUsage .claude us).map claudeCounts).getD {}) ↔ Repeated us
    rw [hwhole]
    exact repeated_iff us
  | openAIChat => exact stands_iff .openAIChat us
  | openAIResponses => exact stands_iff .openAIResponses us
  | gemini => exact stands_iff .gemini us

/-- A stream is logged with the usage of the whole reply exactly where its last usage says all. -/
theorem extractStreamUsage_iff (codec : JsonCodec) {format : Format} {lines : List String}
    {body : String} (h : SameUsage codec format lines body) :
    billed (extractStreamUsage codec lines format) = billed (extractUsage codec body format) ↔
      LastSaysAll format (usages codec format lines) := by
  obtain ⟨value, hvalue, hsame⟩ := Option.map_eq_some_iff.mp h
  rw [extractStreamUsage_eq, extractUsage, hvalue, Option.map_some, Option.getD_some,
    extractValue_eq, hsame]
  exact lastSaysAll_iff format _

/-- The usage logged of a whole body is what the core reads exactly where the names it is looked for
under say what those of the core say, and the usage logged of a stream is that of the whole reply
exactly where its last usage says all there is to say. -/
theorem usage_iff (codec : JsonCodec) (format : Format) :
    (∀ (w : World) (body : String) (resp : WireResponse),
      codec.decode (WireResponse.ofValue format) body = some resp →
        (billed (extractUsage codec body format) = billed (readResponse codec w resp).1.usage ↔
          ReadAlike format (bodyUsage codec body))) ∧
    ∀ (lines : List String) (body : String), SameUsage codec format lines body →
      (billed (extractStreamUsage codec lines format) = billed (extractUsage codec body format) ↔
        LastSaysAll format (usages codec format lines)) :=
  ⟨fun w _ _ h => extractUsage_iff codec w h, fun _ _ h => extractStreamUsage_iff codec h⟩

/-! ## Two streams of Claude's -/

/-- A text that is a payload as it stands. -/
def IsPayload (text : List Char) : Prop :=
  '\n' ∉ text ∧ BlankLines.trimList text = text ∧ text ≠ [] ∧ text ≠ "[DONE]".toList

instance (text : List Char) : Decidable (IsPayload text) := by
  unfold IsPayload
  infer_instance

theorem extractSseDataPayloads_data {text : String} (h : IsPayload text.toList) :
    extractSseDataPayloads ("data: " ++ text) = [text] := by
  obtain ⟨hline, htrim, hne, -⟩ := h
  have hmem : '\n' ∉ ("data: " ++ text).toList := by
    rw [String.toList_append]
    simpa using hline
  have hnonempty : "data: " ++ text ≠ "" := by
    intro heq
    simpa using congrArg String.toList heq
  have hdata : Text.stripPrefix "data:" ("data: " ++ text) = some (" " ++ text) := by
    have happend : "data: " ++ text = "data:" ++ (" " ++ text) := by
      apply String.toList_inj.mp
      simp
    rw [happend, Text.stripPrefix_append]
  have htext : Text.trim (" " ++ text) = text := by
    rw [BlankLines.trim_eq]
    apply String.toList_inj.mp
    rw [String.toList_append, String.toList_ofList]
    exact (BlankLines.trimList_cons (by decide) text.toList).trans htrim
  have hkept : text ≠ "" := by
    rintro rfl
    exact hne rfl
  simp [extractSseDataPayloads, Text.lines_of_not_mem hmem hnonempty, hdata, htext, hkept]

/-- A stream with an event on each line. -/
def dataLines (vs : List Value) : List String :=
  vs.map fun v => "data: " ++ JsonText.compactCodec.toText v

theorem events_dataLines {vs : List Value} (h : ∀ v ∈ vs, IsPayload (JsonText.showValue v)) :
    events JsonText.compactCodec (dataLines vs) = vs := by
  induction vs with
  | nil => rfl
  | cons v vs ih =>
    have hv : IsPayload (JsonText.compactCodec.toText v).toList := by
      rw [JsonText.compactCodec_toList]
      exact h v List.mem_cons_self
    have hdone : JsonText.compactCodec.toText v ≠ "[DONE]" := fun heq =>
      hv.2.2.2 (congrArg String.toList heq)
    have hrest := ih fun w hw => h w (List.mem_cons_of_mem _ hw)
    unfold events dataLines at hrest ⊢
    rw [List.map_cons, List.flatMap_cons, extractSseDataPayloads_data hv, List.singleton_append,
      List.filter_cons_of_pos (by simpa using hdone),
      List.filterMap_cons_some (JsonText.compactCodec_lawful.read_print v), hrest]

/-- The events of a Claude stream that tell its usage. -/
def claudeEvents (start delta : List (String × Value)) : List Value :=
  [.object [("message", .object [("usage", .object start)]), ("type", .string "message_start")],
    .object [("type", .string "message_delta"), ("usage", .object delta)]]

def startUsage : List (String × Value) :=
  [("cache_read_input_tokens", .nat 900), ("input_tokens", .nat 100), ("output_tokens", .nat 1)]

/-- The usage of the whole reply. -/
def replyUsage : List (String × Value) :=
  [("cache_read_input_tokens", .nat 900), ("input_tokens", .nat 100), ("output_tokens", .nat 50)]

def replyBody : String := JsonText.compactCodec.toText (.object [("usage", .object replyUsage)])

/-- The stream of a `message_delta` that gives the tokens of the output alone. -/
def outputEvents : List Value := claudeEvents startUsage [("output_tokens", .nat 50)]

/-- The stream of a `message_delta` that gives the whole usage. -/
def fullEvents : List Value := claudeEvents startUsage replyUsage

theorem outputEvents_usages : usages JsonText.compactCodec .claude (dataLines outputEvents) =
    [.object startUsage, .object [("output_tokens", .nat 50)]] := by
  rw [usages, events_dataLines (by decide +kernel)]
  decide +kernel

theorem fullEvents_usages : usages JsonText.compactCodec .claude (dataLines fullEvents) =
    [.object startUsage, .object replyUsage] := by
  rw [usages, events_dataLines (by decide +kernel)]
  decide +kernel

theorem replyBody_read :
    JsonText.compactCodec.fromStr replyBody = some (.object [("usage", .object replyUsage)]) :=
  JsonText.compactCodec_lawful.read_print _

theorem outputEvents_same :
    SameUsage JsonText.compactCodec .claude (dataLines outputEvents) replyBody := by
  rw [SameUsage, outputEvents_usages, replyBody_read]
  decide +kernel

/-- The tokens of the prompt are erased by a `message_delta` that gives those of the output alone. -/
theorem prompt_erased :
    SameUsage JsonText.compactCodec .claude (dataLines outputEvents) replyBody ∧
      extractUsage JsonText.compactCodec replyBody .claude =
        { inputTokens := 100, outputTokens := 50, cacheReadTokens := some 900 } ∧
      extractStreamUsage JsonText.compactCodec (dataLines outputEvents) .claude =
        { outputTokens := 50 } := by
  refine ⟨outputEvents_same, ?_, ?_⟩
  · rw [extractUsage, replyBody_read]
    decide +kernel
  · rw [extractStreamUsage_eq, outputEvents_usages]
    decide +kernel

def geminiBody : Value :=
  .object [("candidates", .array []), ("usageMetadata",
    .object [("candidatesTokenCount", .nat 60), ("promptTokenCount", .nat 150)])]

def geminiReply : WireResponse := .gemini ⟨[], some ⟨some 150, some 60, none⟩, none⟩

theorem geminiBody_decoded : JsonText.compactCodec.decode (WireResponse.ofValue .gemini)
    (JsonText.compactCodec.toText geminiBody) = some geminiReply := by
  rw [JsonText.compactCodec_decode]
  decide +kernel

theorem fullEvents_same :
    SameUsage JsonText.compactCodec .claude (dataLines fullEvents) replyBody := by
  rw [SameUsage, fullEvents_usages, replyBody_read]
  decide +kernel

theorem fullEvents_lastSaysAll :
    LastSaysAll .claude (usages JsonText.compactCodec .claude (dataLines fullEvents)) := by
  rw [fullEvents_usages]
  exact ⟨by decide +kernel, by decide +kernel, by decide +kernel, by decide +kernel⟩

theorem usage_iff_kept :
    billed (extractUsage JsonText.compactCodec (JsonText.compactCodec.toText geminiBody) .gemini) =
        billed (readResponse JsonText.compactCodec .counting geminiReply).1.usage ∧
      billed (extractStreamUsage JsonText.compactCodec (dataLines fullEvents) .claude) =
        billed (extractUsage JsonText.compactCodec replyBody .claude) :=
  ⟨((usage_iff JsonText.compactCodec .gemini).1 .counting _ geminiReply geminiBody_decoded).mpr
      trivial,
    ((usage_iff JsonText.compactCodec .claude).2 _ replyBody fullEvents_same).mpr
      fullEvents_lastSaysAll⟩

end AnyConverter.RequestLog
