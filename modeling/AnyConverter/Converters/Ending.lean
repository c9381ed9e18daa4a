import AnyConverter.Lib.Ending
import AnyConverter.Lib.JsonText
import AnyConverter.Converters.Terminal

/-!
# The end of a converted stream

A converted stream should hold one terminal event at most, and nothing after it.  Writers record
that they ended a stream but never look: whether something follows depends on what comes in.

* `parseStream_ends`: what one upstream event stands for ends the reply once at most, and last;
* `emitted_runAll_iff`: nothing of an upstream event is written just when it is idle;
* `runAll_ends`, `runAll_ended`: one event, before the end and after it;
* `convertPair_ends_iff`: a stream ends once at most just when what comes after the end is idle.
-/

set_option autoImplicit false

namespace AnyConverter

open Transducer

section
open CanonicalStreamEvent

/-- The canonical events a writer passes over in silence. -/
def Unwritten (codec : JsonCodec) (target : Format) (s : StreamState) :
    CanonicalStreamEvent → Prop
  | start _ _ => target = .gemini
  | textDelta _ => False
  | toolCallStart _ _ _ _ => False
  | toolCallDelta index delta =>
    match target with
    | .openAIResponses => findCall index s.accumulatedToolCalls = none
    | .gemini => ∀ tc, findCall index s.accumulatedToolCalls = some tc →
        codec.fromStr (tc.arguments ++ delta) = none
    | _ => False
  | thinkingDelta _ => target = .openAIResponses ∨ target = .gemini
  | thinkingSignature signer _ => ¬ (target = .gemini ∧ signer = .gemini)
  | sealedThinking signer _ => ¬ (target = .openAIResponses ∧ signer = .claude)
  | done _ _ => False

/-- Nothing in the canonical events of one upstream event is written: the writer passes over each,
or fails at arguments of a call that was never started and discards the rest. -/
def Idle (codec : JsonCodec) (target : Format) (s : AdapterState)
    (canonical : List CanonicalStreamEvent) : Prop :=
  (∃ pre index delta post, canonical = pre ++ toolCallDelta index delta :: post ∧
    target = .openAIResponses ∧
    findCall index (final (total (emitStream codec target)) s pre).accumulatedToolCalls = none) ∨
  ∀ pre e post, canonical = pre ++ e :: post →
    Unwritten codec target (final (total (emitStream codec target)) s pre).toStreamState e

end

/-- Once the writer has ended the stream, every upstream event is idle. -/
def QuietAfterEnd (codec : JsonCodec) (source target : Format)
    (st : AdapterState × AdapterState) (events : List SseEvent) : Prop :=
  ∀ pre event post, events = pre ++ event :: post →
    (final (total (convertPair codec source target)) st pre).2.done = true →
      Idle codec target (final (total (convertPair codec source target)) st pre).2
        (emitted (parseStream codec source
          (final (total (convertPair codec source target)) st pre).1 event).1)

/-! ## Readers -/

/-- Canonical events that end the reply once at most, and last. -/
def Ends (canonical : List CanonicalStreamEvent) : Prop :=
  (∀ e ∈ canonical, e.isDone = false) ∨
    ∃ body reason usage, canonical = body ++ [.done reason usage] ∧ ∀ e ∈ body, e.isDone = false

theorem ends_nil : Ends [] := .inl (by simp)

theorem ends_singleton (e : CanonicalStreamEvent) : Ends [e] := by
  by_cases he : e.isDone = true
  · cases e with
    | done reason usage => exact .inr ⟨[], reason, usage, rfl, by simp⟩
    | _ => cases he
  · refine .inl ?_
    intro x hx
    rw [List.mem_singleton.mp hx]
    simpa using he

theorem Claude.parse_ends (s : AdapterState) (u : Claude.Upstream) : Ends (Claude.parse s u).1 := by
  cases u with
  | messageStart message => exact ends_singleton _
  | sealedBlockStart index raw => exact ends_singleton _
  | contentBlockStart index block =>
    cases block with
    | toolUse id name input => exact ends_singleton _
    | thinking _ _ => exact ends_nil
    | text _ => exact ends_nil
  | contentBlockDelta index delta => cases delta <;> exact ends_singleton _
  | contentBlockStop => exact ends_nil
  | messageDelta delta usage => exact ends_singleton _
  | messageStop =>
    simp only [parse, parseMessageStop]
    split
    · exact ends_nil
    · exact ends_singleton _
  | ping => exact ends_nil

theorem OpenAIChat.parse_ends (s : AdapterState) (u : OpenAIChat.Upstream) :
    Ends (OpenAIChat.parse s u).1 := by
  cases u with
  | chunk chunk => exact .inl (parseChunk_not_done s chunk)
  | done => exact ends_singleton _

theorem OpenAIResponses.parse_ends (s : AdapterState) (u : OpenAIResponses.Upstream) :
    Ends (OpenAIResponses.parse s u).1 := by
  cases u with
  | ignored => exact ends_nil
  | _ => exact ends_singleton _

namespace Gemini

theorem parsePart_not_done (codec : JsonCodec) (s : AdapterState) (part : GeminiPart) :
    ∀ e ∈ (parsePart codec s part).1, e.isDone = false := by
  have htext : ∀ e ∈ (parseText s part).1, e.isDone = false := by
    intro e he
    unfold parseText at he
    split at he
    · rw [List.mem_singleton.mp he]
      rfl
    · cases he
  have hcall : ∀ t signature fc, ∀ e ∈ (parseFunctionCall codec t signature fc).1,
      e.isDone = false := by
    intro t signature fc e he
    simp only [parseFunctionCall, argsDelta, List.mem_cons] at he
    rcases he with rfl | he
    · rfl
    · split at he
      · cases he
      · rw [List.mem_singleton.mp he]
        rfl
  intro e he
  simp only [parsePart] at he
  split at he
  · simp only [List.mem_cons, Option.mem_toList, Option.map_eq_some_iff] at he
    rcases he with rfl | ⟨sig, -, rfl⟩ <;> rfl
  · split at he
    · rw [List.mem_append] at he
      rcases he with he | he
      · exact htext e he
      · exact hcall _ _ _ e he
    · exact htext e he

theorem parse_ends (codec : JsonCodec) (s : AdapterState) (chunk : GeminiResponse) :
    Ends (parse codec s chunk).1 := by
  have hids : ∀ e ∈ (parseIds s chunk).1, e.isDone = false := by
    intro e he
    unfold parseIds at he
    split at he
    · rw [List.mem_singleton.mp he]
      rfl
    · cases he
  unfold parse
  split
  · rename_i candidate rest hcandidates
    have hparts := outputs_forall (parsePart_not_done codec) candidate.content.parts
      (parseUsage (parseIds s chunk).2 chunk.usageMetadata)
    have hbody : ∀ e ∈ (parseIds s chunk).1 ++ outputs (parsePart codec)
        (parseUsage (parseIds s chunk).2 chunk.usageMetadata) candidate.content.parts,
        e.isDone = false := by
      intro e he
      rw [List.mem_append] at he
      rcases he with he | he
      · exact hids e he
      · exact hparts e he
    simp only [parseCandidate]
    rw [← List.append_assoc]
    unfold parseFinish
    split
    · exact .inr ⟨_, _, _, rfl, hbody⟩
    · rw [List.append_nil]
      exact .inl hbody
  · exact .inl hids

end Gemini

/-- What one upstream event stands for ends the reply once at most, and last. -/
theorem parseStream_ends (codec : JsonCodec) (source : Format) (s : AdapterState)
    (event : SseEvent) : Ends (emitted (parseStream codec source s event).1) := by
  cases source with
  | claude =>
    simp only [parseStream, decodeThen]
    split
    · exact ends_nil
    · exact Claude.parse_ends s _
  | openAIChat =>
    simp only [parseStream, decodeThen]
    split
    · exact ends_nil
    · exact OpenAIChat.parse_ends s _
  | openAIResponses =>
    simp only [parseStream, decodeThen]
    split
    · exact ends_nil
    · exact OpenAIResponses.parse_ends s _
  | gemini =>
    simp only [parseStream, decodeThen]
    split
    · exact ends_nil
    · exact Gemini.parse_ends codec s _

/-! ## Writers -/

section
variable (codec : JsonCodec) (target : Format) (s : AdapterState)

/-- The writer passes over an event in silence just when it is unwritten. -/
theorem emitted_emitStream_iff (e : CanonicalStreamEvent) :
    emitted (emitStream codec target s e).1 = [] ↔ Unwritten codec target s.toStreamState e := by
  cases e with
  | start id model => cases target <;> simp [emitStream, Unwritten, Claude.emit,
      Claude.emitMessageStart, OpenAIChat.emit, OpenAIChat.emitStart, OpenAIResponses.emit,
      OpenAIResponses.emitStart, Except.map, Gemini.emit]
  | textDelta text =>
    cases target with
    | claude =>
      simp only [emitStream, Claude.emit, Claude.emitTextDelta, Unwritten]
      split <;> simp
    | _ => simp [emitStream, Unwritten, OpenAIChat.emit, OpenAIChat.emitDelta,
        OpenAIResponses.emit, OpenAIResponses.emitTextDelta, Except.map, Gemini.emit,
        Gemini.emitPart]
  | toolCallStart index id name signature => cases target <;> simp [emitStream, Unwritten,
      Claude.emit, Claude.emitToolCallStart, OpenAIChat.emit, OpenAIChat.emitDelta,
      OpenAIResponses.emit, OpenAIResponses.emitToolCallStart, Except.map, Gemini.emit,
      Gemini.emitToolCallStart, Gemini.emitPart]
  | toolCallDelta index delta =>
    cases target with
    | claude => simp [emitStream, Unwritten, Claude.emit, Claude.emitToolCallDelta]
    | openAIChat => simp [emitStream, Unwritten, OpenAIChat.emit, OpenAIChat.emitDelta]
    | openAIResponses =>
      simp only [emitStream, Unwritten, OpenAIResponses.emit, OpenAIResponses.emitToolCallDelta]
      cases findCall index s.accumulatedToolCalls <;> simp [Except.map]
    | gemini =>
      simp only [emitStream, Unwritten, Gemini.emit, Gemini.emitToolCallDelta]
      cases hfind : findCall index s.accumulatedToolCalls with
      | none => simp
      | some tc => cases hread : codec.fromStr (tc.arguments ++ delta) <;>
          simp [hread, Gemini.emitPart]
  | thinkingDelta text =>
    cases target with
    | claude =>
      simp only [emitStream, Claude.emit, Claude.emitThinkingDelta, Unwritten]
      split <;> simp
    | _ => simp [emitStream, Unwritten, OpenAIChat.emit, OpenAIChat.emitDelta,
        OpenAIResponses.emit, Except.map, Gemini.emit]
  | thinkingSignature signer delta =>
    cases target with
    | gemini => cases signer <;> simp [emitStream, Unwritten, Gemini.emit,
        Gemini.emitThinkingSignature, Gemini.emitPart]
    | _ => simp [emitStream, Unwritten, Claude.emit, OpenAIChat.emit, OpenAIResponses.emit,
        Except.map]
  | sealedThinking signer raw =>
    cases target with
    | openAIResponses => cases signer <;> simp [emitStream, Unwritten, OpenAIResponses.emit,
        OpenAIResponses.emitSealedThinking, Except.map]
    | _ => simp [emitStream, Unwritten, Claude.emit, OpenAIChat.emit, Gemini.emit]
  | done reason usage =>
    obtain ⟨ws, hws, body, last, rfl, -⟩ := emitStream_done codec target s reason usage
    simp [hws, Unwritten]

/-- A write fails at arguments of a call the Responses writer does not know. -/
theorem emitStream_ok_iff (e : CanonicalStreamEvent) :
    (∃ xs, (emitStream codec target s e).1 = .ok xs) ↔
      ¬ (target = .openAIResponses ∧ ∃ index delta, e = .toolCallDelta index delta ∧
        findCall index s.accumulatedToolCalls = none) := by
  cases target with
  | openAIResponses =>
    cases e with
    | toolCallDelta index delta =>
      simp only [emitStream, OpenAIResponses.emit, OpenAIResponses.emitToolCallDelta]
      cases hfind : findCall index s.accumulatedToolCalls <;> simp [Except.map, hfind]
    | sealedThinking signer raw => cases signer <;> simp [emitStream, OpenAIResponses.emit, Except.map]
    | _ => simp [emitStream, OpenAIResponses.emit, Except.map]
  | _ => simp [emitStream]

/-- Only `done` ends a writer's stream, and only Claude's writer, at a start, takes that back. -/
theorem emitStream_flag {e : CanonicalStreamEvent} (he : e.isDone = false) :
    (emitStream codec target s e).2.done = s.done ∨
      target = .claude ∧ (∃ id model, e = .start id model) ∧
        (emitStream codec target s e).2.done = false := by
  cases e with
  | start id model =>
    cases target with
    | claude => exact .inr ⟨rfl, ⟨id, model, rfl⟩, rfl⟩
    | _ => exact .inl rfl
  | textDelta text =>
    left
    cases target with
    | claude =>
      simp only [emitStream, Claude.emit, Claude.emitTextDelta]
      split <;> rfl
    | openAIResponses =>
      simp only [emitStream, OpenAIResponses.emit, OpenAIResponses.emitTextDelta,
        OpenAIResponses.messageItemId]
      split <;> rfl
    | _ => rfl
  | toolCallStart index id name signature =>
    left
    cases target <;> rfl
  | toolCallDelta index delta =>
    left
    cases target with
    | openAIResponses =>
      simp only [emitStream, OpenAIResponses.emit, OpenAIResponses.emitToolCallDelta]
      split <;> rfl
    | gemini =>
      simp only [emitStream, Gemini.emit, Gemini.emitToolCallDelta]
      split
      · rfl
      · split <;> rfl
    | _ => rfl
  | thinkingDelta text =>
    left
    cases target with
    | claude =>
      simp only [emitStream, Claude.emit, Claude.emitThinkingDelta]
      split <;> rfl
    | openAIResponses =>
      simp only [emitStream, OpenAIResponses.emit, OpenAIResponses.emitThinkingDelta]
      split <;> rfl
    | _ => rfl
  | thinkingSignature signer delta =>
    left
    cases target with
    | openAIResponses =>
      simp only [emitStream, OpenAIResponses.emit, OpenAIResponses.emitThinkingSignature]
      split
      · rfl
      · split <;> rfl
    | gemini => cases signer <;> rfl
    | _ => rfl
  | sealedThinking signer raw =>
    left
    cases target with
    | openAIResponses => cases signer <;> rfl
    | _ => rfl
  | done reason usage => cases he

theorem emitStream_done_flag (reason : StopReason) (usage : Option Usage) :
    (emitStream codec target s (.done reason usage)).2.done = true := by
  cases target <;> rfl

/-- A stream that is open stays open. -/
theorem emitStream_open {e : CanonicalStreamEvent} (he : e.isDone = false)
    (hs : s.done = false) : (emitStream codec target s e).2.done = false := by
  rcases emitStream_flag codec target s he with h | ⟨-, -, h⟩
  · rw [h, hs]
  · exact h

/-- A stream that was ended stays ended where nothing is written. -/
theorem emitStream_ended (e : CanonicalStreamEvent) (hs : s.done = true)
    (hsilent : target = .claude → emitted (emitStream codec target s e).1 = []) :
    (emitStream codec target s e).2.done = true := by
  by_cases he : e.isDone = true
  · cases e with
    | done reason usage => exact emitStream_done_flag codec target s reason usage
    | _ => cases he
  · rcases emitStream_flag codec target s (by simpa using he) with h | ⟨rfl, ⟨id, model, rfl⟩, -⟩
    · rw [h, hs]
    · have hnil := hsilent rfl
      rw [emitted_emitStream_iff] at hnil
      cases hnil

/-- Nothing of an upstream event is written just when it is idle. -/
theorem emitted_runAll_iff (canonical : List CanonicalStreamEvent) :
    emitted (runAll (emitStream codec target) s canonical).1 = [] ↔
      Idle codec target s canonical := by
  by_cases hok : NoError (emitStream codec target) s canonical
  · have hnofail : ¬ ∃ pre index delta post, canonical = pre ++ .toolCallDelta index delta :: post ∧
        target = .openAIResponses ∧ findCall index
          (final (total (emitStream codec target)) s pre).accumulatedToolCalls = none := by
      rintro ⟨pre, index, delta, post, hsplit, htarget, hfind⟩
      have hwrite := noError_iff.mp hok pre _ post hsplit
      exact (emitStream_ok_iff _ _ _ _).mp hwrite ⟨htarget, index, delta, rfl, hfind⟩
    unfold Idle
    rw [or_iff_right hnofail, runAll_eq_run hok, emitted_ok]
    constructor
    · rintro hnil pre e post hsplit
      rw [← emitted_emitStream_iff]
      by_contra hne
      obtain ⟨o, ho⟩ := List.exists_mem_of_ne_nil _ hne
      have hmem := (mem_outputs_iff (total (emitStream codec target))).mpr
        ⟨pre, e, post, hsplit, ho⟩
      rw [outputs, hnil] at hmem
      cases hmem
    · intro hunwritten
      refine List.eq_nil_iff_forall_not_mem.mpr ?_
      intro o ho
      obtain ⟨pre, e, post, hsplit, ho⟩ := (mem_outputs_iff _).mp ho
      have hnil := (emitted_emitStream_iff codec target _ e).mpr (hunwritten pre e post hsplit)
      rw [total, hnil] at ho
      cases ho
  · obtain ⟨err, herr⟩ := runAll_of_error hok
    rw [herr, emitted_error]
    refine ⟨fun _ => .inl ?_, fun _ => rfl⟩
    by_contra hnofail
    refine hok (noError_iff.mpr ?_)
    intro pre e post hsplit
    rw [emitStream_ok_iff]
    rintro ⟨htarget, index, delta, rfl, hfind⟩
    exact hnofail ⟨pre, index, delta, post, hsplit, htarget, hfind⟩

/-- An upstream event that comes after the end and is idle leaves the stream ended. -/
theorem runAll_ended (canonical : List CanonicalStreamEvent) (hs : s.done = true)
    (hidle : emitted (runAll (emitStream codec target) s canonical).1 = []) :
    (runAll (emitStream codec target) s canonical).2.done = true := by
  by_cases htarget : target = .claude
  · subst htarget
    have hok : NoError (emitStream codec .claude) s canonical :=
      noError_iff.mpr fun pre e post _ => ⟨_, rfl⟩
    rw [runAll_eq_run hok] at hidle ⊢
    exact final_of_silent (I := fun t => t.done = true)
      (fun t e hnil ht => emitStream_ended codec .claude t e ht fun _ => hnil) canonical s hidle hs
  · exact runAll_induction (I := fun t => t.done = true) (P := fun _ => True)
      (fun t e ht _ => emitStream_ended codec target t e ht fun h => absurd h htarget)
      canonical s hs fun _ _ => trivial

/-- Events that do not end the reply leave an open stream open. -/
theorem runAll_open {body : List CanonicalStreamEvent} (hbody : ∀ e ∈ body, e.isDone = false)
    (hs : s.done = false) : (runAll (emitStream codec target) s body).2.done = false ∧
      ∀ w ∈ emitted (runAll (emitStream codec target) s body).1, w.isTerminal = false :=
  ⟨runAll_induction (I := fun t => t.done = false) (P := fun e => e.isDone = false)
      (fun t _ ht he => emitStream_open codec target t he ht) body s hs hbody,
    runAll_outputs (P := fun e => e.isDone = false)
      (fun t _ he _ hw => (emitStream_silent codec target t he hw).terminal) body s hbody⟩

/-- One upstream event, before the end: what it writes ends the stream once at most, and the
writer records it. -/
theorem runAll_ends {canonical : List CanonicalStreamEvent} (h : Ends canonical)
    (hs : s.done = false) :
    EndsAtMostOnce WireEvent.isTerminal (emitted (runAll (emitStream codec target) s canonical).1) ∧
      ((runAll (emitStream codec target) s canonical).2.done = true ↔
        ∃ w ∈ emitted (runAll (emitStream codec target) s canonical).1, w.isTerminal = true) := by
  rcases h with hbody | ⟨body, reason, usage, rfl, hbody⟩
  · obtain ⟨hopen, hsilent⟩ := runAll_open codec target s hbody hs
    refine ⟨endsAtMostOnce_silent hsilent, ?_⟩
    rw [hopen]
    refine iff_of_false (by simp) ?_
    rintro ⟨w, hmem, hw⟩
    rw [hsilent w hmem] at hw
    cases hw
  · obtain ⟨hopen, hsilent⟩ := runAll_open codec target s hbody hs
    rw [runAll_append]
    rcases hrun : runAll (emitStream codec target) s body with ⟨_ | ws, s'⟩
    · -- the body failed before the end came
      rw [hrun] at hopen
      exact ⟨endsAtMostOnce_silent (by simp), iff_of_false (by simpa using hopen) (by simp)⟩
    · rw [hrun, emitted_ok] at hsilent
      obtain ⟨vs, hvs, front, last, rfl, hlast, hfront⟩ :=
        emitStream_done codec target s' reason usage
      have hflag := emitStream_done_flag codec target s' reason usage
      have hdone : runAll (emitStream codec target) s' [.done reason usage] =
          (.ok (front ++ [last]), (emitStream codec target s' (.done reason usage)).2) := by
        rcases hwrite : emitStream codec target s' (.done reason usage) with ⟨r, t⟩
        rw [hwrite] at hvs
        obtain rfl : r = .ok (front ++ [last]) := hvs
        simp [runAll, hwrite]
      simp only [hdone, emitted_ok]
      refine ⟨.append hsilent (.append hfront (endsAtMostOnce_singleton last)), ?_⟩
      exact iff_of_true hflag ⟨last, by simp, hlast⟩

end

/-! ## A whole stream -/

section
variable (codec : JsonCodec) (source target : Format)

theorem convertPair_writer (st : AdapterState × AdapterState) (event : SseEvent) :
    emitted (convertPair codec source target st event).1 =
        emitted (runAll (emitStream codec target) st.2
          (emitted (parseStream codec source st.1 event).1)).1 ∧
      (convertPair codec source target st event).2.2 =
        (runAll (emitStream codec target) st.2
          (emitted (parseStream codec source st.1 event).1)).2 := by
  unfold convertPair
  split <;> (rename_i h; rw [h]; exact ⟨rfl, rfl⟩)

/-- The writer's state records the end of a converted stream. -/
theorem convertPair_recordsEnd :
    RecordsEnd (total (convertPair codec source target)) WireEvent.isTerminal
      fun st => st.2.done where
  before st event hopen := by
    obtain ⟨hout, hstate⟩ := convertPair_writer codec source target st event
    simp only [total, hout, hstate]
    exact runAll_ends codec target st.2 (parseStream_ends codec source st.1 event) hopen
  after st event hended hnil := by
    obtain ⟨hout, hstate⟩ := convertPair_writer codec source target st event
    simp only [total, hout] at hnil
    simp only [total, hstate]
    exact runAll_ended codec target st.2 _ hended hnil

/-- **A stream ends once at most just when what comes after the end is idle.** -/
theorem convertPair_ends_iff (w w' : World) (events : List SseEvent) :
    EndsAtMostOnce WireEvent.isTerminal
        (outputs (total (convertPair codec source target)) (.fresh w, .fresh w') events) ↔
      QuietAfterEnd codec source target (.fresh w, .fresh w') events := by
  rw [endsAtMostOnce_iff (convertPair_recordsEnd codec source target) rfl]
  have hstep : ∀ st event, (total (convertPair codec source target) st event).1 = [] ↔
      Idle codec target st.2 (emitted (parseStream codec source st.1 event).1) := by
    intro st event
    rw [← emitted_runAll_iff, ← (convertPair_writer codec source target st event).1]
    rfl
  constructor
  · intro h pre event post hsplit hended
    exact (hstep _ event).mp (h pre event post hsplit hended)
  · intro h pre event post hsplit hended
    exact (hstep _ event).mpr (h pre event post hsplit hended)

end

/-- A Claude stream that ends its message twice. -/
def endedTwice : List SseEvent :=
  let message := Value.object [("content", .array []), ("id", .string "msg_1"),
    ("model", .string "sonnet"), ("role", .string "assistant"), ("type", .string "message")]
  let delta := Value.object [("delta", .object [("stop_reason", .string "end_turn")]),
    ("type", .string "message_delta")]
  let start := Value.object [("message", message), ("type", .string "message_start")]
  [⟨some "message_start", JsonText.compactCodec.toText start⟩,
    ⟨some "message_delta", JsonText.compactCodec.toText delta⟩,
    ⟨some "message_delta", JsonText.compactCodec.toText delta⟩]

/-- Every `message_delta` ends the Chat stream once more. -/
theorem endedTwice_ends_twice : ¬ EndsAtMostOnce WireEvent.isTerminal
    (outputs (total (convertPair JsonText.compactCodec .claude .openAIChat))
      (.fresh .counting, .fresh .counting) endedTwice) := by
  have hterminal : (outputs (total (convertPair JsonText.compactCodec .claude .openAIChat))
      (.fresh .counting, .fresh .counting) endedTwice).map WireEvent.isTerminal =
      [false, false, true, false, true] := by decide +kernel
  intro h
  have hmap := h.map
  rw [hterminal] at hmap
  have hrest := hmap [false, false] true [false, true] rfl rfl
  cases hrest

end AnyConverter
