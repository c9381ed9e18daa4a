import AnyConverter.Converters.StopReasons

/-!
# Token usage

Claude counts the prompt without the cached tokens, the others count them in.  A conversion keeps
the usage when the client, counting its own format's way, finds as many prompt tokens and as many
cached ones as the upstream gave.

* `readResponse_counts`, `usage_replyStream`: the readers keep the counts, under the upstream's
  convention;
* `usage_preserved_iff`: the usage survives exactly when nothing was cached.
-/

set_option autoImplicit false

namespace AnyConverter

open Transducer

/-! ## Counts -/

/-- The tokens of the prompt, the cached ones included. -/
def TokenCounts.prompt (format : Format) (c : TokenCounts) : Nat :=
  match format with
  | .claude => c.input + c.cacheRead.getD 0 + c.cacheWrite.getD 0
  | _ => c.input

def TokenCounts.cached (c : TokenCounts) : Nat := c.cacheRead.getD 0

/-- The tokens the prompt shares with a cache: read from it or written to it. -/
def TokenCounts.shared (c : TokenCounts) : Nat := c.cacheRead.getD 0 + c.cacheWrite.getD 0

def Usage.counts (u : Usage) : TokenCounts :=
  ⟨u.inputTokens, u.outputTokens, u.cacheReadTokens, u.cacheWriteTokens⟩

def Claude.ClaudeUsage.counts (u : Claude.ClaudeUsage) : TokenCounts :=
  ⟨u.inputTokens, u.outputTokens, u.cacheReadInputTokens, u.cacheCreationInputTokens⟩

def OpenAIResponses.ResponsesUsage.counts (u : OpenAIResponses.ResponsesUsage) : TokenCounts :=
  ⟨u.inputTokens, u.outputTokens,
    u.inputTokensDetails.bind OpenAIResponses.InputTokensDetails.cachedTokens, none⟩

/-- The counts of a reply. -/
def WireResponse.counts : WireResponse → Option TokenCounts
  | .claude resp => some resp.usage.counts
  | .openAIChat resp => resp.usage.map OpenAIChat.OpenAIUsage.counts
  | .openAIResponses resp => resp.usage.map OpenAIResponses.ResponsesUsage.counts
  | .gemini resp => resp.usageMetadata.map Gemini.GeminiUsageMetadata.counts

/-- The counts a stream gives: Claude's start names the prompt and its end the answer, elsewhere
the last usage stands. -/
def ReplyStream.counts : ReplyStream → Option TokenCounts
  | claude message _ _ last _ _ => message.usage.map fun u =>
    let output := match last with
      | .messageDelta _ (some usage) => usage.outputTokens
      | _ => u.outputTokens
    ⟨u.inputTokens, output, u.cacheReadInputTokens, u.cacheCreationInputTokens⟩
  | openAIChat chunks =>
    (chunks.filterMap OpenAIChat.OpenAIChatStreamChunk.usage).getLast?.map
      OpenAIChat.OpenAIUsage.counts
  | openAIResponses _ _ _ usage => usage.map Usage.counts
  | gemini chunks _ last _ =>
    ((chunks ++ [last]).filterMap Gemini.GeminiResponse.usageMetadata).getLast?.map
      Gemini.GeminiUsageMetadata.counts

/-- A reply as its body says it. -/
structure ReceivedReply where
  source : Format
  body : Value
  resp : WireResponse
  decoded : WireResponse.ofValue source body = some resp

/-- The cached tokens of a Gemini reply; the wire type has no field for them. -/
def geminiCached (body : Value) : Option Nat :=
  ((body.get "usageMetadata").bind fun u => u.get "cachedContentTokenCount").bind Value.asU64

/-- The counts of a reply, with those its wire type leaves out. -/
def ReceivedReply.counts (r : ReceivedReply) : Option TokenCounts :=
  if r.source = .gemini then
    r.resp.counts.map fun c => { c with cacheRead := geminiCached r.body }
  else r.resp.counts

/-! ## The readers -/

theorem source_of_decoded {source : Format} {body : Value} {resp : WireResponse}
    (h : WireResponse.ofValue source body = some resp) : resp.source = source := by
  cases source <;>
  · obtain ⟨_, -, rfl⟩ := Option.map_eq_some_iff.mp h
    rfl

/-- The reader of a whole reply keeps its counts. -/
theorem readResponse_counts (codec : JsonCodec) (w : World) {resp : WireResponse}
    {c : TokenCounts} (h : resp.counts = some c) :
    (readResponse codec w resp).1.usage.counts = c := by
  cases resp with
  | claude resp => exact Option.some.inj h
  | openAIChat resp =>
    obtain ⟨usage, husage, rfl⟩ := Option.map_eq_some_iff.mp h
    simp only [readResponse, OpenAIChat.readResponse]
    split <;> (rw [husage]; rfl)
  | openAIResponses resp =>
    obtain ⟨usage, husage, rfl⟩ := Option.map_eq_some_iff.mp h
    simp only [readResponse, OpenAIResponses.readResponse, husage]
    rfl
  | gemini resp =>
    obtain ⟨usage, husage, rfl⟩ := Option.map_eq_some_iff.mp h
    simp only [readResponse, Gemini.readResponse, husage]
    rfl

namespace OpenAIChat

theorem parseChoice_usage (s : AdapterState) (choice : StreamChoice) :
    (parseChoice s choice).2.accumulatedUsage = s.accumulatedUsage := by
  have hcontent : ∀ content, (parseContent s content).2.accumulatedUsage = s.accumulatedUsage := by
    intro content
    unfold parseContent
    split
    · split <;> rfl
    · rfl
  have hcalls : ∀ (t : AdapterState) calls,
      (parseToolCalls t calls).2.accumulatedUsage = t.accumulatedUsage := by
    intro t calls
    unfold parseToolCalls
    split <;> rfl
  have hreason : ∀ (t : AdapterState) reason,
      (parseFinishReason t reason).accumulatedUsage = t.accumulatedUsage := by
    intro t reason
    unfold parseFinishReason
    split <;> rfl
  simp only [parseChoice, hreason, hcalls, hcontent]

theorem parseChunk_usage (s : AdapterState) (chunk : OpenAIChatStreamChunk) :
    (parseChunk s chunk).2.accumulatedUsage = (chunk.usage.map chunkUsage).or s.accumulatedUsage := by
  have hchoices : (parseChunk s chunk).2.accumulatedUsage =
      (parseUsage (parseIds s chunk).2 chunk.usage).accumulatedUsage :=
    final_induction (I := fun t : AdapterState => t.accumulatedUsage =
        (parseUsage (parseIds s chunk).2 chunk.usage).accumulatedUsage) (P := fun _ => True)
      (fun t choice ht _ => (parseChoice_usage t choice).trans ht) chunk.choices _ rfl
      fun _ _ => trivial
  rw [hchoices]
  unfold parseUsage parseIds
  cases chunk.usage <;> cases s.responseId <;> rfl

/-- The last usage of a stream stands. -/
theorem chatState_usage (chunks : List OpenAIChatStreamChunk) (s : AdapterState) :
    (final parseChunk s chunks).accumulatedUsage =
      ((chunks.filterMap OpenAIChatStreamChunk.usage).getLast?.map chunkUsage).or
        s.accumulatedUsage := by
  induction chunks generalizing s with
  | nil => simp
  | cons chunk chunks ih =>
    have hcons : (chunk :: chunks).filterMap OpenAIChatStreamChunk.usage =
        chunk.usage.toList ++ chunks.filterMap OpenAIChatStreamChunk.usage := by
      rw [List.filterMap_cons]
      cases chunk.usage <;> rfl
    rw [final_cons, ih, parseChunk_usage, hcons, List.getLast?_append, Option.map_or,
      Option.or_assoc]
    cases chunk.usage <;> rfl

end OpenAIChat

namespace Gemini

theorem parsePart_usage (codec : JsonCodec) (s : AdapterState) (part : GeminiPart) :
    (parsePart codec s part).2.accumulatedUsage = s.accumulatedUsage := by
  have htext : (parseText s part).2.accumulatedUsage = s.accumulatedUsage := by
    unfold parseText
    split <;> rfl
  simp only [parsePart]
  split
  · rfl
  · split
    · simp only [parseFunctionCall]
      split <;> exact htext
    · exact htext

theorem parts_usage (codec : JsonCodec) (s : AdapterState) (chunk : GeminiResponse) :
    (final (parsePart codec) (parseUsage (parseIds s chunk).2 chunk.usageMetadata)
      chunk.parts).accumulatedUsage =
      (chunk.usageMetadata.map metadataUsage).or s.accumulatedUsage := by
  have hparts : (final (parsePart codec) (parseUsage (parseIds s chunk).2 chunk.usageMetadata)
      chunk.parts).accumulatedUsage =
      (parseUsage (parseIds s chunk).2 chunk.usageMetadata).accumulatedUsage :=
    final_induction (I := fun t : AdapterState => t.accumulatedUsage =
        (parseUsage (parseIds s chunk).2 chunk.usageMetadata).accumulatedUsage) (P := fun _ => True)
      (fun t part ht _ => (parsePart_usage codec t part).trans ht) chunk.parts _ rfl
      fun _ _ => trivial
  rw [hparts]
  unfold parseUsage parseIds
  cases chunk.usageMetadata <;> cases s.responseId <;> rfl

theorem parse_usage (codec : JsonCodec) (s : AdapterState) (chunk : GeminiResponse) :
    (parse codec s chunk).2.accumulatedUsage =
      (chunk.usageMetadata.map metadataUsage).or s.accumulatedUsage := by
  rw [← parts_usage codec]
  unfold parse GeminiResponse.parts
  cases chunk.candidates with
  | nil => rfl
  | cons candidate candidates =>
    simp only [parseCandidate, parseFinish]
    split <;> rfl

/-- The last usage of a stream stands, that of its last chunk included. -/
theorem geminiState_usage (codec : JsonCodec) (w : World) (chunks : List GeminiResponse)
    (last : GeminiResponse) : (ReplyStream.geminiState codec w chunks last).accumulatedUsage =
      ((chunks ++ [last]).filterMap GeminiResponse.usageMetadata).getLast?.map metadataUsage := by
  have hchunks : ∀ (chunks : List GeminiResponse) (s : AdapterState),
      (final (parse codec) s chunks).accumulatedUsage =
        ((chunks.filterMap GeminiResponse.usageMetadata).getLast?.map metadataUsage).or
          s.accumulatedUsage := by
    intro chunks
    induction chunks with
    | nil => intro s; simp
    | cons chunk chunks ih =>
      intro s
      have hcons : (chunk :: chunks).filterMap GeminiResponse.usageMetadata =
          chunk.usageMetadata.toList ++ chunks.filterMap GeminiResponse.usageMetadata := by
        rw [List.filterMap_cons]
        cases chunk.usageMetadata <;> rfl
      rw [final_cons, ih, parse_usage, hcons, List.getLast?_append, Option.map_or,
        Option.or_assoc]
      cases chunk.usageMetadata <;> rfl
  have hlast : [last].filterMap GeminiResponse.usageMetadata = last.usageMetadata.toList := by
    rw [List.filterMap_cons]
    cases last.usageMetadata <;> rfl
  have hfresh : (AdapterState.fresh w).accumulatedUsage = none := rfl
  have hparts := parts_usage codec (final (parse codec) (AdapterState.fresh w) chunks) last
  rw [hchunks, hfresh, Option.or_none] at hparts
  rw [List.filterMap_append, hlast, List.getLast?_append, Option.map_or]
  refine hparts.trans ?_
  cases last.usageMetadata <;> rfl

end Gemini

/-- The reader of a stream keeps its counts. -/
theorem usage_replyStream (codec : JsonCodec) (w : World) {r : ReplyStream} {c : TokenCounts}
    (h : r.counts = some c) : ∃ u, r.usage codec w = some u ∧ u.counts = c := by
  cases r with
  | claude message body hbody last rest hrest =>
    obtain ⟨usage, husage, rfl⟩ := Option.map_eq_some_iff.mp h
    have hstate : (ReplyStream.claudeState w message body).accumulatedUsage = some {
        inputTokens := usage.inputTokens, outputTokens := usage.outputTokens
        cacheReadTokens := usage.cacheReadInputTokens
        cacheWriteTokens := usage.cacheCreationInputTokens } := by
      refine final_induction (I := fun s : AdapterState => s.accumulatedUsage = some _)
        (P := fun u => u.isBody = true)
        (fun s u hs hu => (Claude.parse_body hu s).2.2.2.trans hs) body _ ?_ hbody
      simp only [Claude.parse, Claude.parseMessageStart, husage]
    cases last with
    | messageDelta delta usage' =>
      simp only [ReplyStream.usage, hstate]
      cases usage' with
      | none => exact ⟨_, rfl, rfl⟩
      | some usage' => exact ⟨_, rfl, rfl⟩
    | messageStop =>
      simp only [ReplyStream.usage, hstate]
      exact ⟨_, rfl, rfl⟩
  | openAIChat chunks =>
    obtain ⟨usage, husage, rfl⟩ := Option.map_eq_some_iff.mp h
    have hstate := OpenAIChat.chatState_usage chunks (AdapterState.fresh w)
    rw [husage] at hstate
    exact ⟨_, hstate, rfl⟩
  | openAIResponses body hbody stopReason usage =>
    obtain ⟨usage, rfl, rfl⟩ := Option.map_eq_some_iff.mp h
    exact ⟨_, rfl, rfl⟩
  | gemini chunks hchunks last hlast =>
    obtain ⟨usage, husage, rfl⟩ := Option.map_eq_some_iff.mp h
    have hstate := Gemini.geminiState_usage codec w chunks last
    rw [husage] at hstate
    exact ⟨_, hstate, rfl⟩

/-! ## The builders and the writers -/

/-- The counts a builder puts on a whole reply. -/
def builtCounts (target : Format) (u : Usage) : TokenCounts :=
  match target with
  | .claude => (Claude.buildUsage u).counts
  | .openAIChat => (OpenAIChat.buildUsage u).counts
  | .openAIResponses => (OpenAIResponses.buildUsage u).counts
  | .gemini => (Gemini.buildUsage u).counts

theorem convertReply_counts (codec : JsonCodec) (target : Format) (w : World)
    (resp : WireResponse) : (convertReply codec target w resp).counts =
      some (builtCounts target (readResponse codec w resp).1.usage) := by
  cases target <;> rfl

/-- The counts a writer puts on the end of a stream. -/
def writtenCounts (target : Format) (u : Usage) : TokenCounts :=
  match target with
  | .claude => (Claude.deltaUsage (some u)).counts
  | .openAIChat => (OpenAIChat.doneUsage u).counts
  | .openAIResponses => (OpenAIResponses.completedUsage u).counts
  | .gemini => (Gemini.doneUsage u).counts

theorem closingOf_counts (target : Format) (reason : StopReason) (u : Usage) :
    (closingOf target reason (some u)).counts = some (writtenCounts target u) := by
  cases target <;> rfl

section
variable (target : Format) (u : Usage)

/-- Every builder writes the prompt count as it stands. -/
theorem builtCounts_eq : (builtCounts target u).prompt target =
      u.inputTokens + (if target = .claude then u.counts.shared else 0) ∧
    (builtCounts target u).cached = (if target = .gemini then 0 else u.counts.cached) ∧
    (builtCounts target u).output = u.outputTokens := by
  cases target <;> cases hread : u.cacheReadTokens <;>
    simp [builtCounts, TokenCounts.prompt, TokenCounts.cached, TokenCounts.shared, Usage.counts,
      Claude.buildUsage, Claude.ClaudeUsage.counts, OpenAIChat.buildUsage,
      OpenAIChat.OpenAIUsage.counts, OpenAIResponses.buildUsage,
      OpenAIResponses.ResponsesUsage.counts, Gemini.buildUsage, Gemini.GeminiUsageMetadata.counts,
      hread, Nat.add_assoc]

/-- Only Claude's writer takes the cached tokens out of the prompt, and only it writes them. -/
theorem writtenCounts_eq : (writtenCounts target u).prompt target =
      (if target = .claude then u.inputTokens - u.counts.cached + u.counts.shared
      else u.inputTokens) ∧
    (writtenCounts target u).cached = (if target = .claude then u.counts.cached else 0) ∧
    (writtenCounts target u).output = u.outputTokens := by
  cases target <;> cases hread : u.cacheReadTokens <;>
    simp [writtenCounts, TokenCounts.prompt, TokenCounts.cached, TokenCounts.shared, Usage.counts,
      Claude.deltaUsage, Claude.exclusiveInput, Claude.DeltaUsage.counts, OpenAIChat.doneUsage,
      OpenAIChat.OpenAIUsage.counts, OpenAIResponses.completedUsage,
      OpenAIResponses.CompletedUsage.counts, Gemini.doneUsage, Gemini.GeminiUsageMetadata.counts,
      hread, Nat.add_assoc]

end

/-- Two counts of one format that report the same usage. -/
def SameReport (format : Format) (c c' : TokenCounts) : Prop :=
  c.prompt format = c'.prompt format ∧ c.cached = c'.cached ∧ c.output = c'.output

/-- The counts of a target carry the prompt and the cached tokens of a source. -/
def Keeps (source target : Format) (c c' : TokenCounts) : Prop :=
  c'.prompt target = c.prompt source ∧ c'.cached = c.cached

/-- Builder and writer agree and keep what was there exactly when no cache was involved. -/
theorem keeps_iff {source target : Format} (hne : source ≠ target) {u u' : Usage}
    {c : TokenCounts} (hsame : u'.counts = u.counts)
    (hcounts : u.counts = if source = .gemini then { c with cacheRead := none } else c)
    (hclaude : source ≠ .claude → c.cacheWrite = none) :
    Keeps source target c (builtCounts target u) ∧
      SameReport target (writtenCounts target u') (builtCounts target u) ↔ c.shared = 0 := by
  obtain ⟨hprompt, hcached, houtput⟩ := builtCounts_eq target u
  obtain ⟨hprompt', hcached', houtput'⟩ := writtenCounts_eq target u'
  have hinput : u.inputTokens = c.input := by
    have h := congrArg TokenCounts.input hcounts
    split at h <;> exact h
  have hin : u'.inputTokens = u.inputTokens := congrArg TokenCounts.input hsame
  have hout : u'.outputTokens = u.outputTokens := congrArg TokenCounts.output hsame
  rw [Keeps, SameReport, hprompt, hcached, houtput, hprompt', hcached', houtput', hsame, hin, hout,
    hcounts]
  cases source <;> cases target <;>
    simp_all [TokenCounts.prompt, TokenCounts.cached, TokenCounts.shared] <;> omega

theorem cacheWrite_of_counts {resp : WireResponse} {c : TokenCounts} (h : resp.counts = some c)
    (hclaude : resp.source ≠ .claude) : c.cacheWrite = none := by
  cases resp with
  | claude resp => exact absurd rfl hclaude
  | _ resp =>
    obtain ⟨usage, -, rfl⟩ := Option.map_eq_some_iff.mp h
    rfl

/-- **The usage of a reply survives exactly when nothing was cached**: the converted reply keeps the
prompt tokens and the cached tokens, and the converted stream of the same reply reports the same. -/
theorem usage_preserved_iff {codec : JsonCodec} (target : Format) (w w' : World)
    (r : ReceivedReply) (hne : r.source ≠ target) {c : TokenCounts} (hc : r.counts = some c)
    {stream : ReplyStream} {events : List SseEvent}
    (hevents : Carries codec stream.source events stream.events)
    (hsource : stream.source = r.source) (hsame : stream.counts = r.resp.counts) :
    (∃ c', (convertReply codec target w r.resp).counts = some c' ∧ Keeps r.source target c c' ∧
      ∃ c'', ((convertStream codec r.source target (AdapterState.fresh w, AdapterState.fresh w')
        events).filterMap WireEvent.closing).map Closing.counts = [some c''] ∧
        SameReport target c'' c') ↔ c.shared = 0 := by
  have hresp := source_of_decoded r.decoded
  have hcases : ∃ d, r.resp.counts = some d ∧
      d = (if r.source = .gemini then { c with cacheRead := none } else c) ∧
      (r.source ≠ .claude → c.cacheWrite = none) := by
    unfold ReceivedReply.counts at hc
    split at hc
    · rename_i hg
      obtain ⟨d, hd, rfl⟩ := Option.map_eq_some_iff.mp hc
      have hnone : r.source ≠ .claude → d.cacheWrite = none :=
        fun h => cacheWrite_of_counts hd (hresp ▸ h)
      refine ⟨d, hd, ?_, hnone⟩
      rw [if_pos hg]
      cases hr : r.resp with
      | gemini resp =>
        rw [hr] at hd
        obtain ⟨usage, -, rfl⟩ := Option.map_eq_some_iff.mp hd
        rfl
      | _ => simp [hr, hg, WireResponse.source] at hresp
    · rename_i hg
      exact ⟨c, hc, by rw [if_neg hg], fun h => cacheWrite_of_counts hc (hresp ▸ h)⟩
  obtain ⟨d, hd, hdc, hwrite⟩ := hcases
  obtain ⟨u', husage, hu'⟩ := usage_replyStream codec w (hsame.trans hd)
  have hu := readResponse_counts codec w hd
  have hpair := @convertStreamEvent_of_ne codec r.source target hne
  have hclosings : ((convertStream codec r.source target (AdapterState.fresh w,
      AdapterState.fresh w') events).filterMap WireEvent.closing).map Closing.counts =
      [some (writtenCounts target u')] := by
    rw [convertStream, hpair, ← hsource, closings_convertPair codec target w w' hevents, husage,
      List.map_singleton, closingOf_counts]
  rw [hclosings, convertReply_counts, ← keeps_iff hne (hu'.trans hu.symm) (hu.trans hdc) hwrite]
  constructor
  · rintro ⟨c', hc', hkeeps, c'', hc'', hreport⟩
    obtain rfl := Option.some.inj hc'
    obtain rfl := Option.some.inj (List.singleton_inj.mp hc'')
    exact ⟨hkeeps, hreport⟩
  · rintro ⟨hkeeps, hreport⟩
    exact ⟨_, rfl, hkeeps, _, rfl, hreport⟩

/-- A Responses reply that used no cache. -/
def uncachedReply : ReceivedReply where
  source := .openAIResponses
  body := .object [("id", .string "resp_1"), ("object", .string "response"),
    ("created_at", .nat 0), ("model", .string "gpt-5"), ("status", .string "completed"),
    ("usage", .object [("input_tokens", .nat 3), ("output_tokens", .nat 1)])]
  resp := .openAIResponses {
    id := "resp_1", object := "response", createdAt := 0, model := "gpt-5", status := "completed"
    output := []
    usage := some {
      inputTokens := 3, outputTokens := 1, totalTokens := none, inputTokensDetails := none } }
  decoded := by decide +kernel

/-- The end of its stream. -/
def uncachedCompleted : Value := .object [("response", .object [("status", .string "completed"),
  ("usage", .object [("input_tokens", .nat 3), ("output_tokens", .nat 1)])])]

theorem carries_uncached : Carries JsonText.compactCodec .openAIResponses
    [⟨some "response.completed", JsonText.compactCodec.toText uncachedCompleted⟩]
    [.openAIResponses (.completed .endTurn (some ⟨3, 1, none, none, none, none⟩))] := by
  have hread := JsonText.compactCodec_lawful.read_print uncachedCompleted
  rw [Carries, List.map_singleton, decodeEvent, OpenAIResponses.decode, hread]
  decide +kernel

theorem usage_preserved_iff_uncachedReply :
    ∃ c', (convertReply JsonText.compactCodec .openAIChat World.counting
        uncachedReply.resp).counts = some c' ∧
      Keeps uncachedReply.source .openAIChat ⟨3, 1, none, none⟩ c' ∧
      ∃ c'', ((convertStream JsonText.compactCodec uncachedReply.source .openAIChat
        (AdapterState.fresh World.counting, AdapterState.fresh World.counting)
        [⟨some "response.completed", JsonText.compactCodec.toText uncachedCompleted⟩]).filterMap
          WireEvent.closing).map Closing.counts = [some c''] ∧ SameReport .openAIChat c'' c' :=
  (@usage_preserved_iff JsonText.compactCodec .openAIChat World.counting World.counting
    uncachedReply (by decide) ⟨3, 1, none, none⟩ rfl
    (.openAIResponses [] (by simp) .endTurn (some ⟨3, 1, none, none, none, none⟩)) _
    carries_uncached rfl rfl).mpr (by decide)

/-- A Claude reply to a prompt of eight tokens, five of them read from the cache. -/
def cachedReply : ReceivedReply where
  source := .claude
  body := .object [("id", .string "msg_1"), ("type", .string "message"),
    ("role", .string "assistant"), ("model", .string "sonnet"), ("content", .array []),
    ("stop_reason", .string "end_turn"),
    ("usage", .object [("input_tokens", .nat 3), ("output_tokens", .nat 1),
      ("cache_read_input_tokens", .nat 5)])]
  resp := .claude {
    id := "msg_1", type := "message", role := "assistant", model := "sonnet", content := []
    stopReason := some "end_turn", stopSequence := none
    usage := {
      inputTokens := 3, outputTokens := 1, cacheCreationInputTokens := none, cacheCreation := none
      cacheReadInputTokens := some 5 } }
  decoded := by decide +kernel

/-- A Chat client is told of three prompt tokens, five of which are cached. -/
theorem cachedReply_not_preserved : cachedReply.counts = some ⟨3, 1, some 5, none⟩ ∧
    ∃ c', (convertReply JsonText.compactCodec .openAIChat World.counting
        cachedReply.resp).counts = some c' ∧ c'.prompt .openAIChat = 3 ∧ c'.cached = 5 ∧
      ¬ Keeps .claude .openAIChat ⟨3, 1, some 5, none⟩ c' := by
  refine ⟨rfl, ⟨3, 1, some 5, none⟩, rfl, rfl, rfl, ?_⟩
  rintro ⟨hprompt, -⟩
  exact absurd hprompt (by decide)

end AnyConverter
