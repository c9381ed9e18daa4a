import AnyConverter.Formats.OpenAIChat.Stream

/-!
# Chunks read back

A chunk that is written as JSON on a `data:` line is read back as it was, where its numbers fit the
types they are read with.

* `ofValue_toValue_chunk`: the value;
* `decode_toText`: the line.
-/

set_option autoImplicit false

namespace AnyConverter.OpenAIChat

open Serde

/-! ## Values -/

theorem ofValue_toValue_function (f : StreamFunctionCall) :
    StreamFunctionCall.ofValue f.toValue = some f := by
  obtain ⟨name, arguments⟩ := f
  cases name <;> cases arguments <;> rfl

theorem ofValue_toValue_call {c : StreamToolCall} (h : c.index < 2 ^ 32) :
    StreamToolCall.ofValue c.toValue = some c := by
  unfold StreamToolCall.toValue
  generalize hobj : field "index" (.nat c.index) ++ fieldOpt "id" (c.id.map .string) ++
    fieldOpt "type" (c.type.map .string) ++
    fieldOpt "function" (c.function.map StreamFunctionCall.toValue) = obj
  have hindex : required "index" u32 obj = some c.index :=
    required_of_lookup (by rw [← hobj]; rfl) (u32_nat h)
  have hid : Serde.optional "id" string obj = some c.id :=
    optional_string (by rw [← hobj]; simp [lookup_field, lookup_fieldOpt, lookup_fieldOpt_last])
  have htype : Serde.optional "type" string obj = some c.type :=
    optional_string (by rw [← hobj]; simp [lookup_field, lookup_fieldOpt, lookup_fieldOpt_last])
  have hfunction : Serde.optional "function" StreamFunctionCall.ofValue obj = some c.function :=
    optional_of_lookup (by rw [← hobj]; simp [lookup_field, lookup_fieldOpt, lookup_fieldOpt_last])
      (fun f _ => ofValue_toValue_function f) fun _ _ => Value.noConfusion
  simp only [StreamToolCall.ofValue, hindex, hid, htype, hfunction]
  rfl

/-- The indices a delta names are of 32 bits. -/
def Delta.Fits (d : Delta) : Prop := ∀ c ∈ d.toolCalls.getD [], c.index < 2 ^ 32

theorem ofValue_toValue_delta {d : Delta} (h : d.Fits) : Delta.ofValue d.toValue = some d := by
  unfold Delta.toValue
  generalize hobj : fieldOpt "role" (d.role.map .string) ++ fieldOpt "content" (d.content.map .string) ++
    fieldOpt "reasoning_content" (d.reasoningContent.map .string) ++
    fieldOpt "tool_calls" (d.toolCalls.map fun cs => .array (cs.map StreamToolCall.toValue)) = obj
  have hrole : Serde.optional "role" string obj = some d.role :=
    optional_string (by rw [← hobj]; simp [lookup_fieldOpt, lookup_fieldOpt_last])
  have hcontent : Serde.optional "content" string obj = some d.content :=
    optional_string (by rw [← hobj]; simp [lookup_fieldOpt, lookup_fieldOpt_last])
  have hreasoning : Serde.optional "reasoning_content" string obj = some d.reasoningContent :=
    optional_string (by rw [← hobj]; simp [lookup_fieldOpt, lookup_fieldOpt_last])
  have hlookup : obj.lookup "tool_calls" =
      d.toolCalls.map fun cs => .array (cs.map StreamToolCall.toValue) := by
    rw [← hobj]
    simp [lookup_fieldOpt, lookup_fieldOpt_last]
  have hcalls : Serde.optional "tool_calls" (vec StreamToolCall.ofValue) obj = some d.toolCalls := by
    refine optional_of_lookup hlookup ?_ ?_
    · intro cs hcs
      refine vec_map fun c hc => ofValue_toValue_call (h c ?_)
      rw [hcs]
      exact hc
    · exact fun _ _ => Value.noConfusion
  simp only [Delta.ofValue, hrole, hcontent, hreasoning, hcalls]
  rfl

theorem ofValue_toValue_choice {c : StreamChoice} (hindex : c.index < 2 ^ 32) (h : c.delta.Fits) :
    StreamChoice.ofValue c.toValue = some c := by
  obtain ⟨index, delta, finishReason⟩ := c
  have hread : u32 (.nat index) = some index := u32_nat hindex
  have hdelta := ofValue_toValue_delta h
  have hfinish : Serde.optional "finish_reason" string [("index", .nat index), ("delta", delta.toValue),
      ("finish_reason", orNull (finishReason.map .string))] = some finishReason := by
    cases finishReason <;> rfl
  have hfirst : required "index" u32 [("index", .nat index), ("delta", delta.toValue),
      ("finish_reason", orNull (finishReason.map .string))] = some index :=
    required_of_lookup rfl hread
  have hsecond : required "delta" Delta.ofValue [("index", .nat index), ("delta", delta.toValue),
      ("finish_reason", orNull (finishReason.map .string))] = some delta :=
    required_of_lookup rfl hdelta
  simp only [StreamChoice.toValue, StreamChoice.ofValue, hfirst, hsecond, hfinish]
  rfl

/-- The counts of a usage are of 64 bits. -/
structure OpenAIUsage.Fits (u : OpenAIUsage) : Prop where
  promptTokens : u.promptTokens < 2 ^ 64
  completionTokens : u.completionTokens < 2 ^ 64
  totalTokens : u.totalTokens < 2 ^ 64
  cachedTokens : ∀ d, u.promptTokensDetails = some d → ∀ n, d.cachedTokens = some n → n < 2 ^ 64

theorem ofValue_toValue_details {d : PromptTokensDetails}
    (h : ∀ n, d.cachedTokens = some n → n < 2 ^ 64) : PromptTokensDetails.ofValue d.toValue = some d := by
  unfold PromptTokensDetails.toValue
  generalize hobj : fieldOpt "cached_tokens" (d.cachedTokens.map .nat) = obj
  have hcached : Serde.optional "cached_tokens" u64 obj = some d.cachedTokens :=
    optional_of_lookup (by rw [← hobj]; simp [lookup_fieldOpt_last]) (fun n hn => u64_nat (h n hn))
      fun _ _ => Value.noConfusion
  simp only [PromptTokensDetails.ofValue, hcached]
  rfl

theorem ofValue_toValue_usage {u : OpenAIUsage} (h : u.Fits) :
    OpenAIUsage.ofValue u.toValue = some u := by
  unfold OpenAIUsage.toValue
  generalize hobj : field "prompt_tokens" (.nat u.promptTokens) ++
    field "completion_tokens" (.nat u.completionTokens) ++
    field "total_tokens" (.nat u.totalTokens) ++
    fieldOpt "prompt_tokens_details" (u.promptTokensDetails.map PromptTokensDetails.toValue) = obj
  have hprompt : required "prompt_tokens" u64 obj = some u.promptTokens :=
    required_of_lookup (by rw [← hobj]; rfl) (u64_nat h.promptTokens)
  have hcompletion : required "completion_tokens" u64 obj = some u.completionTokens :=
    required_of_lookup (by rw [← hobj]; rfl) (u64_nat h.completionTokens)
  have htotal : required "total_tokens" u64 obj = some u.totalTokens :=
    required_of_lookup (by rw [← hobj]; rfl) (u64_nat h.totalTokens)
  have hdetails : Serde.optional "prompt_tokens_details" PromptTokensDetails.ofValue obj =
      some u.promptTokensDetails :=
    optional_of_lookup (by rw [← hobj]; simp [lookup_field, lookup_fieldOpt_last])
      (fun d hd => ofValue_toValue_details (h.cachedTokens d hd)) fun _ _ => Value.noConfusion
  simp only [OpenAIUsage.ofValue, hprompt, hcompletion, htotal, hdetails]
  rfl

/-- The numbers of a chunk fit the types they are read with. -/
structure OpenAIChatStreamChunk.Fits (c : OpenAIChatStreamChunk) : Prop where
  created : c.created < 2 ^ 64
  choices : ∀ choice ∈ c.choices, choice.index < 2 ^ 32 ∧ choice.delta.Fits
  usage : ∀ u, c.usage = some u → u.Fits

theorem ofValue_toValue_chunk {c : OpenAIChatStreamChunk} (h : c.Fits) :
    OpenAIChatStreamChunk.ofValue c.toValue = some c := by
  unfold OpenAIChatStreamChunk.toValue
  generalize hobj : field "id" (.string c.id) ++ field "object" (.string c.object) ++
    field "created" (.nat c.created) ++ field "model" (.string c.model) ++
    field "choices" (.array (c.choices.map StreamChoice.toValue)) ++
    fieldOpt "usage" (c.usage.map OpenAIUsage.toValue) = obj
  have hid : required "id" string obj = some c.id :=
    required_of_lookup (by rw [← hobj]; rfl) rfl
  have hobject : required "object" string obj = some c.object :=
    required_of_lookup (by rw [← hobj]; rfl) rfl
  have hcreated : required "created" u64 obj = some c.created :=
    required_of_lookup (by rw [← hobj]; rfl) (u64_nat h.created)
  have hmodel : required "model" string obj = some c.model :=
    required_of_lookup (by rw [← hobj]; rfl) rfl
  have hchoices : required "choices" (vec StreamChoice.ofValue) obj = some c.choices := by
    refine required_of_lookup (by rw [← hobj]; rfl) (vec_map fun choice hchoice => ?_)
    obtain ⟨hindex, hdelta⟩ := h.choices choice hchoice
    exact ofValue_toValue_choice hindex hdelta
  have husage : Serde.optional "usage" OpenAIUsage.ofValue obj = some c.usage :=
    optional_of_lookup (by rw [← hobj]; simp [lookup_field, lookup_fieldOpt_last])
      (fun u hu => ofValue_toValue_usage (h.usage u hu)) fun _ _ => Value.noConfusion
  simp only [OpenAIChatStreamChunk.ofValue, hid, hobject, hcreated, hmodel, hchoices, husage]
  rfl

/-! ## Lines -/

/-- A written event as the reader takes it. -/
def StreamEvent.received : StreamEvent → Upstream
  | .chunk c => .chunk c
  | .done => .done

/-- A written event is read as itself. -/
theorem decode_toText {codec : JsonCodec} (hcodec : codec.Lawful) (hline : codec.OneLine)
    {e : StreamEvent} (h : ∀ c, e = .chunk c → c.Fits) :
    ∃ event, parseSseBlock (e.toText codec) = some event ∧ decode codec event = .ok e.received := by
  cases e with
  | done =>
    have hblock : parseSseBlock (formatSseData "[DONE]") = some ⟨none, "[DONE]"⟩ := by decide +kernel
    have hdone : isOpenaiDone "[DONE]" = true := by decide +kernel
    exact ⟨⟨none, "[DONE]"⟩, hblock, if_pos hdone⟩
  | chunk c =>
    obtain ⟨fields, hfields⟩ : ∃ fields, c.toValue = .object fields := ⟨_, rfl⟩
    have htext : (codec.toText c.toValue).toList = '\x7b' :: ((",".intercalate (fields.map fun f =>
        codec.toText (.string f.1) ++ ":" ++ codec.toText f.2)).toList ++ ['\x7d']) := by
      rw [hfields, hcodec.print_object]
      simp
    have hlast : (codec.toText c.toValue).toList.getLast? ≠ some '\r' := by
      have hclose : ['\x7d'].getLast? ≠ some '\r' := by decide
      rw [htext, ← List.cons_append, List.getLast?_append]
      exact hclose
    refine ⟨⟨none, codec.toText c.toValue⟩,
      parseSseBlock_formatSseData htext (by decide) (hline _) hlast, ?_⟩
    have hread : codec.decode OpenAIChatStreamChunk.ofValue (codec.toText c.toValue) = some c :=
      JsonCodec.decode_of_read (hcodec.read_print _) (ofValue_toValue_chunk (h c rfl))
    unfold decode
    rw [isOpenaiDone_object htext, hread]
    rfl

end AnyConverter.OpenAIChat
