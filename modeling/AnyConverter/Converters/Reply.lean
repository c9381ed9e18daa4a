import AnyConverter.Converters.Ending
import AnyConverter.Converters.Writing

/-!
# Replies as they stream

The events of an upstream stream after decoding, and the streams that carry one reply: a body, the
event that ends it, and what may still follow.

* `outputs_convertPair`: on events that decode, a conversion works on what they decode to;
* `closings_replyStream`: the converted stream of a reply says once how the reply ended, and says
  what the reader made of the upstream's end.
-/

set_option autoImplicit false

namespace AnyConverter

open Transducer CanonicalStreamEvent

/-! ## Decoded events -/

inductive UpstreamEvent where
  | claude (event : Claude.Upstream)
  | openAIChat (event : OpenAIChat.Upstream)
  | openAIResponses (event : OpenAIResponses.Upstream)
  | gemini (chunk : Gemini.GeminiResponse)
  deriving DecidableEq

def decodeEvent (codec : JsonCodec) (source : Format) (event : SseEvent) :
    Except ConvertError UpstreamEvent :=
  match source with
  | .claude => (Claude.decode codec event).map .claude
  | .openAIChat => (OpenAIChat.decode codec event).map .openAIChat
  | .openAIResponses => (OpenAIResponses.decode codec event).map .openAIResponses
  | .gemini => (Gemini.decode codec event).map .gemini

def parseEvent (codec : JsonCodec) : Step AdapterState UpstreamEvent CanonicalStreamEvent :=
  fun s event =>
    match event with
    | .claude u => Claude.parse s u
    | .openAIChat u => OpenAIChat.parse s u
    | .openAIResponses u => OpenAIResponses.parse s u
    | .gemini chunk => Gemini.parse codec s chunk

/-- One decoded event through both sides of a conversion. -/
def convertEvent (codec : JsonCodec) (target : Format) :
    Step (AdapterState × AdapterState) UpstreamEvent WireEvent := fun st event =>
  let canonical := parseEvent codec st.1 event
  let written := runAll (emitStream codec target) st.2 canonical.1
  (emitted written.1, (canonical.2, written.2))

/-- The events of the wire carry these ones. -/
def Carries (codec : JsonCodec) (source : Format) (events : List SseEvent)
    (us : List UpstreamEvent) : Prop :=
  events.map (decodeEvent codec source) = us.map .ok

section
variable {codec : JsonCodec} {source target : Format}

theorem parseStream_of_decodeEvent {event : SseEvent} {u : UpstreamEvent} (s : AdapterState)
    (h : decodeEvent codec source event = .ok u) :
    parseStream codec source s event = (.ok (parseEvent codec s u).1, (parseEvent codec s u).2) := by
  have hmap : ∀ {α : Type} {r : Except ConvertError α} {f : α → UpstreamEvent},
      r.map f = .ok u → ∃ a, r = .ok a ∧ u = f a := by
    intro α r f hr
    cases r with
    | error e => cases hr
    | ok a => exact ⟨a, rfl, (Except.ok.inj hr).symm⟩
  cases source <;>
  · obtain ⟨a, ha, rfl⟩ := hmap h
    simp only [parseStream, decodeThen, ha]
    rfl

theorem total_convertPair_of_decodeEvent {event : SseEvent} {u : UpstreamEvent}
    (st : AdapterState × AdapterState) (h : decodeEvent codec source event = .ok u) :
    total (convertPair codec source target) st event = convertEvent codec target st u := by
  simp only [total, convertPair, parseStream_of_decodeEvent st.1 h]
  rfl

theorem outputs_convertPair {events : List SseEvent} {us : List UpstreamEvent}
    (h : Carries codec source events us) (st : AdapterState × AdapterState) :
    outputs (total (convertPair codec source target)) st events =
      outputs (convertEvent codec target) st us := by
  induction events generalizing us st with
  | nil =>
    cases us with
    | nil => rfl
    | cons u us => cases h
  | cons event events ih =>
    cases us with
    | nil => cases h
    | cons u us =>
      obtain ⟨hhead, htail⟩ := List.cons.inj h
      rw [outputs_cons, outputs_cons, total_convertPair_of_decodeEvent st hhead, ih htail]

theorem final_convertEvent_fst (st : AdapterState × AdapterState) (us : List UpstreamEvent) :
    (final (convertEvent codec target) st us).1 = final (parseEvent codec) st.1 us := by
  induction us generalizing st with
  | nil => rfl
  | cons u us ih => exact ih _

/-! ## What a conversion says about the end -/

theorem runAll_silent (s : AdapterState) {canonical : List CanonicalStreamEvent}
    (h : ∀ e ∈ canonical, e.isDone = false) :
    ∀ w ∈ emitted (runAll (emitStream codec target) s canonical).1, w.Silent :=
  runAll_outputs (P := fun e => e.isDone = false)
    (fun s _ he _ hw => emitStream_silent codec target s he hw) canonical s h

/-- Events none of which ends the reply say nothing about its end. -/
theorem closings_body (st : AdapterState × AdapterState) {us : List UpstreamEvent}
    (h : ∀ e ∈ outputs (parseEvent codec) st.1 us, e.isDone = false) :
    (outputs (convertEvent codec target) st us).filterMap WireEvent.closing = [] := by
  induction us generalizing st with
  | nil => rfl
  | cons u us ih =>
    rw [outputs_cons] at h
    rw [outputs_cons, List.filterMap_append]
    have hhead : (convertEvent codec target st u).1.filterMap WireEvent.closing = [] :=
      filterMap_closing_silent (runAll_silent st.2 fun e he => h e (List.mem_append_left _ he))
    rw [hhead, List.nil_append]
    exact ih _ fun e he => h e (List.mem_append_right _ he)

theorem closings_runAll_done (s : AdapterState) {pre : List CanonicalStreamEvent}
    (hpre : ∀ e ∈ pre, e.isDone = false) (hcalls : CallsStarted pre) (reason : StopReason)
    (usage : Option Usage) :
    (emitted (runAll (emitStream codec target) s (pre ++ [done reason usage])).1).filterMap
      WireEvent.closing = [closingOf target reason usage] := by
  have hdone := emitStream_done codec target
    (final (total (emitStream codec target)) s pre) reason usage
  obtain ⟨ws, hws, -⟩ := hdone
  have hok : NoError (emitStream codec target) s (pre ++ [done reason usage]) :=
    noError_append.mpr ⟨noError_of_callsStarted codec target s hcalls, ⟨ws, hws⟩, trivial⟩
  have hsilent : ∀ w ∈ outputs (total (emitStream codec target)) s pre, w.Silent :=
    outputs_induction (I := fun _ => True) (P := fun e => e.isDone = false)
      (fun _ _ _ _ => trivial)
      (fun s e _ he _ hw => emitStream_silent codec target s he hw) pre s trivial hpre
  rw [runAll_eq_run hok, emitted_ok]
  show (outputs (total (emitStream codec target)) s (pre ++ [done reason usage])).filterMap _ = _
  rw [outputs_append, List.filterMap_append, filterMap_closing_silent hsilent, List.nil_append,
    outputs_cons, outputs_nil, List.append_nil]
  exact closings_emitStream_done codec target _ reason usage

/-- A body, the event that ends the reply, and events that stand for nothing. -/
theorem closings_of_shape (st : AdapterState × AdapterState) {body rest : List UpstreamEvent}
    {last : UpstreamEvent} {pre : List CanonicalStreamEvent} {reason : StopReason}
    {usage : Option Usage}
    (hbody : ∀ e ∈ outputs (parseEvent codec) st.1 body, e.isDone = false)
    (hlast : (parseEvent codec (final (parseEvent codec) st.1 body) last).1 =
      pre ++ [done reason usage])
    (hpre : ∀ e ∈ pre, e.isDone = false) (hcalls : CallsStarted pre)
    (hrest : outputs (parseEvent codec)
      (parseEvent codec (final (parseEvent codec) st.1 body) last).2 rest = []) :
    (outputs (convertEvent codec target) st (body ++ last :: rest)).filterMap WireEvent.closing =
      [closingOf target reason usage] := by
  have hstate := @final_convertEvent_fst codec target st body
  rw [outputs_append, List.filterMap_append, closings_body st hbody, List.nil_append, outputs_cons,
    List.filterMap_append]
  have hhead : (convertEvent codec target (final (convertEvent codec target) st body)
      last).1.filterMap WireEvent.closing = [closingOf target reason usage] := by
    simp only [convertEvent, hstate, hlast]
    exact closings_runAll_done _ hpre hcalls reason usage
  rw [hhead, closings_body, List.append_nil]
  intro e he
  simp only [convertEvent, hstate, hrest] at he
  cases he

end

/-! ## Streams of one reply -/

/-- The events that open or end a Claude reply. -/
def Claude.Upstream.isBody : Claude.Upstream → Bool
  | .messageStart _ => false
  | .messageDelta _ _ => false
  | .messageStop => false
  | _ => true

/-- The events that may follow the end of a Claude reply. -/
def Claude.Upstream.isQuiet : Claude.Upstream → Bool
  | .contentBlockStop => true
  | .messageStop => true
  | .ping => true
  | _ => false

/-- What ends a Claude reply; `message_stop` does where the provider sends no `message_delta`. -/
inductive Claude.Ending where
  | messageDelta (delta : Claude.ClaudeMessageDelta) (usage : Option Claude.ClaudeStreamUsage)
  | messageStop

def Claude.Ending.event : Claude.Ending → Claude.Upstream
  | messageDelta delta usage => .messageDelta delta usage
  | messageStop => .messageStop

def OpenAIResponses.Upstream.isCompleted : OpenAIResponses.Upstream → Bool
  | .completed _ _ => true
  | _ => false

/-- Why a chunk says its reply ended. -/
def Gemini.GeminiResponse.finishReason (chunk : Gemini.GeminiResponse) : Option String :=
  chunk.candidates.head?.bind GeminiCandidate.finishReason

/-- The events of one reply, from its first to its last. -/
inductive ReplyStream where
  | claude (message : Claude.ClaudeStreamMessage) (body : List Claude.Upstream)
      (hbody : ∀ u ∈ body, u.isBody = true) (last : Claude.Ending)
      (rest : List Claude.Upstream) (hrest : ∀ u ∈ rest, u.isQuiet = true)
  | openAIChat (chunks : List OpenAIChat.OpenAIChatStreamChunk)
  | openAIResponses (body : List OpenAIResponses.Upstream)
      (hbody : ∀ u ∈ body, u.isCompleted = false) (stopReason : StopReason) (usage : Option Usage)
  | gemini (chunks : List Gemini.GeminiResponse) (hchunks : ∀ c ∈ chunks, c.finishReason = none)
      (last : Gemini.GeminiResponse) (hlast : last.finishReason ≠ none)

namespace ReplyStream

def source : ReplyStream → Format
  | claude .. => .claude
  | openAIChat .. => .openAIChat
  | openAIResponses .. => .openAIResponses
  | gemini .. => .gemini

def events : ReplyStream → List UpstreamEvent
  | claude message body _ last rest _ =>
    (.messageStart message :: body).map .claude ++ .claude last.event :: rest.map .claude
  | openAIChat chunks => (chunks.map .chunk).map .openAIChat ++ [.openAIChat .done]
  | openAIResponses body _ stopReason usage =>
    body.map .openAIResponses ++ [.openAIResponses (.completed stopReason usage)]
  | gemini chunks _ last _ => chunks.map .gemini ++ [.gemini last]

/-- The reader's state behind the body of a Claude reply. -/
def claudeState (w : World) (message : Claude.ClaudeStreamMessage) (body : List Claude.Upstream) :
    AdapterState :=
  final Claude.parse (AdapterState.fresh w) (.messageStart message :: body)

/-- The reader's state behind the chunks of a Chat reply. -/
def chatState (w : World) (chunks : List OpenAIChat.OpenAIChatStreamChunk) : AdapterState :=
  final OpenAIChat.parseChunk (AdapterState.fresh w) chunks

/-- The reader's state behind the chunks of a Gemini reply and the parts of its last one. -/
def geminiState (codec : JsonCodec) (w : World) (chunks : List Gemini.GeminiResponse)
    (last : Gemini.GeminiResponse) : AdapterState :=
  let s := final (Gemini.parse codec) (AdapterState.fresh w) chunks
  final (Gemini.parsePart codec) (Gemini.parseUsage (Gemini.parseIds s last).2 last.usageMetadata)
    ((last.candidates.head?.map fun c => c.content.parts).getD [])

/-- Why the reply ended, as the reader has it. -/
def stopReason (w : World) : ReplyStream → StopReason
  | claude message body _ last _ _ =>
    match last with
    | .messageDelta delta _ => (delta.stopReason.map StopReason.fromClaude).getD .endTurn
    | .messageStop =>
      let s := claudeState w message body
      if s.phase = .toolCalls ∨ 0 < s.toolCallIndex then .toolUse else .endTurn
  | openAIChat chunks => OpenAIChat.finalStopReason (chatState w chunks).toStreamState
  | openAIResponses _ _ stopReason _ => stopReason
  | gemini _ _ last _ => (last.finishReason.map StopReason.fromGemini).getD .endTurn

/-- What the reply used, as the reader has it. -/
def usage (codec : JsonCodec) (w : World) : ReplyStream → Option Usage
  | claude message body _ last _ _ =>
    let s := claudeState w message body
    match last with
    | .messageDelta _ usage => Claude.mergeUsage s.accumulatedUsage usage
    | .messageStop => s.accumulatedUsage
  | openAIChat chunks => (chatState w chunks).accumulatedUsage
  | openAIResponses _ _ _ usage => usage
  | gemini chunks _ last _ => (geminiState codec w chunks last).accumulatedUsage

end ReplyStream

/-! ## The readers behind a reply's body -/

theorem Claude.parse_body {u : Claude.Upstream} (hu : u.isBody = true) (s : AdapterState) :
    (∀ e ∈ (Claude.parse s u).1, e.isDone = false) ∧
      (s.phase ≠ .done → (Claude.parse s u).2.phase ≠ .done) ∧
      s.toolCallIndex ≤ (Claude.parse s u).2.toolCallIndex ∧
      (Claude.parse s u).2.accumulatedUsage = s.accumulatedUsage := by
  cases u with
  | messageStart message => cases hu
  | messageDelta delta usage => cases hu
  | messageStop => cases hu
  | sealedBlockStart index raw => simp [parse, parseSealedBlockStart, CanonicalStreamEvent.isDone]
  | contentBlockStart index block =>
    cases block <;> simp [parse, parseContentBlockStart, CanonicalStreamEvent.isDone]
  | contentBlockDelta index delta =>
    cases delta <;> simp [parse, parseContentBlockDelta, CanonicalStreamEvent.isDone]
  | contentBlockStop => simp [parse]
  | ping => simp [parse]

/-- What may follow the end of a Claude reply stands for nothing. -/
theorem Claude.parse_rest {rest : List Claude.Upstream} (h : ∀ u ∈ rest, u.isQuiet = true) :
    ∀ s : AdapterState, s.phase = .done → outputs Claude.parse s rest = [] := by
  induction rest with
  | nil => intro s _; rfl
  | cons u rest ih =>
    intro s hs
    have hu := h u List.mem_cons_self
    have hrest := ih fun v hv => h v (List.mem_cons_of_mem _ hv)
    rw [outputs_cons]
    cases u with
    | contentBlockStop => exact hrest s hs
    | ping => exact hrest s hs
    | messageStop =>
      have hstep : parse s .messageStop = ([], { s with done := true }) := by
        simp [parse, parseMessageStop, hs]
      rw [hstep]
      exact hrest _ hs
    | _ => cases hu

theorem Claude.parse_ending (last : Claude.Ending) (s : AdapterState) (hs : s.phase ≠ .done) :
    (Claude.parse s last.event).1 = [done
      (match last with
        | .messageDelta delta _ => (delta.stopReason.map StopReason.fromClaude).getD .endTurn
        | .messageStop => if s.phase = .toolCalls ∨ 0 < s.toolCallIndex then .toolUse else .endTurn)
      (match last with
        | .messageDelta _ usage => mergeUsage s.accumulatedUsage usage
        | .messageStop => s.accumulatedUsage)] ∧
      (Claude.parse s last.event).2.phase = .done := by
  cases last with
  | messageDelta delta usage => exact ⟨rfl, rfl⟩
  | messageStop => simp [Ending.event, parse, parseMessageStop, hs]

namespace Gemini

/-- The parts of a chunk's first candidate. -/
def GeminiResponse.parts (chunk : GeminiResponse) : List GeminiPart :=
  (chunk.candidates.head?.map fun c => c.content.parts).getD []

/-- A chunk stands for what its parts stand for, and for the end when it says why it ended. -/
theorem parse_eq (codec : JsonCodec) (s : AdapterState) (chunk : GeminiResponse) :
    (parse codec s chunk).1 = (parseIds s chunk).1 ++
      outputs (parsePart codec) (parseUsage (parseIds s chunk).2 chunk.usageMetadata) chunk.parts ++
      (chunk.finishReason.map fun reason => done (StopReason.fromGemini reason)
        (final (parsePart codec) (parseUsage (parseIds s chunk).2 chunk.usageMetadata)
          chunk.parts).accumulatedUsage).toList := by
  unfold parse GeminiResponse.parts GeminiResponse.finishReason
  cases chunk.candidates with
  | nil => simp
  | cons candidate candidates =>
    simp only [parseCandidate, parseFinish, List.head?_cons, Option.map_some, Option.getD_some,
      Option.bind_some]
    cases candidate.finishReason with
    | none => simp [outputs]
    | some reason => simp [outputs, final]

theorem parsePart_callsStarted (codec : JsonCodec) (s : AdapterState) (part : GeminiPart) :
    CallsStarted (parsePart codec s part).1 := by
  have htext : CallsStarted (parseText s part).1 := by
    refine callsStarted_of_no_delta ?_
    intro index arguments h
    unfold parseText at h
    split at h <;> simp at h
  have hargs : ∀ index id name signature args,
      CallsStarted (toolCallStart index id name signature :: argsDelta codec index args) := by
    intro index id name signature args
    unfold argsDelta
    split
    · exact callsStarted_call _ _ _ _ []
    · exact callsStarted_call _ _ _ _ [_]
  have hcall : ∀ t signature fc, CallsStarted (parseFunctionCall codec t signature fc).1 :=
    fun t signature fc => hargs _ _ _ _ _
  simp only [parsePart]
  split
  · refine callsStarted_of_no_delta ?_
    intro index arguments h
    simp at h
  · split
    · exact callsStarted_append htext (hcall _ _ _)
    · exact htext

theorem parts_callsStarted (codec : JsonCodec) (s : AdapterState) (parts : List GeminiPart) :
    CallsStarted (outputs (parsePart codec) s parts) := by
  induction parts generalizing s with
  | nil => exact callsStarted_of_no_delta (by simp)
  | cons part parts ih =>
    rw [outputs_cons]
    exact callsStarted_append (parsePart_callsStarted codec s part) (ih _)

theorem parseIds_plain (s : AdapterState) (chunk : GeminiResponse) :
    CallsStarted (parseIds s chunk).1 ∧ ∀ e ∈ (parseIds s chunk).1, e.isDone = false := by
  unfold parseIds
  split
  · refine ⟨callsStarted_of_no_delta ?_, ?_⟩
    · intro index arguments h
      cases List.mem_singleton.mp h
    · intro e he
      rw [List.mem_singleton.mp he]
      rfl
  · exact ⟨callsStarted_of_no_delta (by simp), by simp⟩

end Gemini

/-! ## The end of a converted reply -/

section
variable (codec : JsonCodec) (target : Format) (w w' : World)

/-- A body the source's own reader turns into nothing final, the event that ends the reply, and
events that stand for nothing. -/
theorem closings_of_reader {υ : Type} (step : Step AdapterState υ CanonicalStreamEvent)
    {wrap : υ → UpstreamEvent} (hwrap : ∀ s u, parseEvent codec s (wrap u) = step s u)
    {body rest : List υ} {last : υ} (pre : List CanonicalStreamEvent) {reason : StopReason}
    {usage : Option Usage}
    (hbody : ∀ e ∈ outputs step (AdapterState.fresh w) body, e.isDone = false)
    (hlast : (step (final step (AdapterState.fresh w) body) last).1 = pre ++ [done reason usage])
    (hpre : ∀ e ∈ pre, e.isDone = false) (hcalls : CallsStarted pre)
    (hrest : outputs step (step (final step (AdapterState.fresh w) body) last).2 rest = []) :
    (outputs (convertEvent codec target) (AdapterState.fresh w, AdapterState.fresh w')
      (body.map wrap ++ wrap last :: rest.map wrap)).filterMap WireEvent.closing =
      [closingOf target reason usage] := by
  have hrun : ∀ (us : List υ) (s : AdapterState),
      run (parseEvent codec) s (us.map wrap) = run step s us := run_map hwrap
  have hout : ∀ (us : List υ) (s : AdapterState),
      outputs (parseEvent codec) s (us.map wrap) = outputs step s us :=
    fun us s => congrArg Prod.fst (hrun us s)
  have hfinal : final (parseEvent codec) (AdapterState.fresh w) (body.map wrap) =
      final step (AdapterState.fresh w) body := congrArg Prod.snd (hrun body _)
  refine closings_of_shape _ ?_ ?_ hpre hcalls ?_
  · rw [hout]
    exact hbody
  · rw [hfinal, hwrap]
    exact hlast
  · rw [hfinal, hwrap, hout]
    exact hrest

theorem closings_claude (message : Claude.ClaudeStreamMessage) (body : List Claude.Upstream)
    (hbody : ∀ u ∈ body, u.isBody = true) (last : Claude.Ending) (rest : List Claude.Upstream)
    (hrest : ∀ u ∈ rest, u.isQuiet = true) :
    let r := ReplyStream.claude message body hbody last rest hrest
    (outputs (convertEvent codec target) (AdapterState.fresh w, AdapterState.fresh w')
      r.events).filterMap WireEvent.closing =
      [closingOf target (r.stopReason w) (r.usage codec w)] := by
  have hstart : (Claude.parse (AdapterState.fresh w) (.messageStart message)).2.phase ≠ .done := by
    simp only [Claude.parse, Claude.parseMessageStart]
    split <;> simp
  have hphase : (ReplyStream.claudeState w message body).phase ≠ .done :=
    final_induction (I := fun s : AdapterState => s.phase ≠ .done) (P := fun u => u.isBody = true)
      (fun s u hs hu => (Claude.parse_body hu s).2.1 hs) body _ hstart hbody
  obtain ⟨hlast, hdone⟩ := Claude.parse_ending last _ hphase
  have hsilent : ∀ e ∈ outputs Claude.parse (AdapterState.fresh w) (.messageStart message :: body),
      e.isDone = false := by
    intro e he
    rw [outputs_cons, List.mem_append] at he
    rcases he with he | he
    · rw [List.mem_singleton.mp he]
      rfl
    · exact outputs_induction (I := fun _ => True) (P := fun u => u.isBody = true)
        (fun _ _ _ _ => trivial) (fun s u _ hu => (Claude.parse_body hu s).1) body _ trivial hbody
        e he
  have hwrap : ∀ s u, parseEvent codec s (.claude u) = Claude.parse s u := fun _ _ => rfl
  have h := closings_of_reader codec target w w' Claude.parse hwrap [] hsilent hlast (by simp)
    (callsStarted_of_no_delta (by simp)) (Claude.parse_rest hrest _ hdone)
  cases last <;> exact h

theorem closings_openAIChat (chunks : List OpenAIChat.OpenAIChatStreamChunk) :
    let r := ReplyStream.openAIChat chunks
    (outputs (convertEvent codec target) (AdapterState.fresh w, AdapterState.fresh w')
      r.events).filterMap WireEvent.closing =
      [closingOf target (r.stopReason w) (r.usage codec w)] := by
  have hrun : ∀ s : AdapterState, run OpenAIChat.parse s (chunks.map .chunk) =
      run OpenAIChat.parseChunk s chunks := run_map (fun _ _ => rfl) chunks
  have hsilent : ∀ e ∈ outputs OpenAIChat.parse (AdapterState.fresh w) (chunks.map .chunk),
      e.isDone = false := by
    rw [outputs, hrun]
    exact outputs_forall OpenAIChat.parseChunk_not_done chunks _
  have hfinal : final OpenAIChat.parse (AdapterState.fresh w) (chunks.map .chunk) =
      ReplyStream.chatState w chunks := congrArg Prod.snd (hrun _)
  have hwrap : ∀ s u, parseEvent codec s (.openAIChat u) = OpenAIChat.parse s u := fun _ _ => rfl
  have hlast : (OpenAIChat.parse (final OpenAIChat.parse (AdapterState.fresh w)
      (chunks.map .chunk)) .done).1 = [] ++ [done
        (OpenAIChat.finalStopReason (ReplyStream.chatState w chunks).toStreamState)
        (ReplyStream.chatState w chunks).accumulatedUsage] := by
    rw [hfinal]
    rfl
  exact @closings_of_reader codec target w w' _ _ _ hwrap _ [] _ [] _ _ hsilent hlast (by simp)
    (callsStarted_of_no_delta (by simp)) rfl

theorem closings_openAIResponses (body : List OpenAIResponses.Upstream)
    (hbody : ∀ u ∈ body, u.isCompleted = false) (stopReason : StopReason) (usage : Option Usage) :
    (outputs (convertEvent codec target) (AdapterState.fresh w, AdapterState.fresh w')
      (ReplyStream.openAIResponses body hbody stopReason usage).events).filterMap
        WireEvent.closing = [closingOf target stopReason usage] := by
  have hwrap : ∀ s u, parseEvent codec s (.openAIResponses u) = OpenAIResponses.parse s u :=
    fun _ _ => rfl
  refine @closings_of_reader codec target w w' _ OpenAIResponses.parse _ hwrap body [] _ [] _ _ ?_
    rfl (by simp) (callsStarted_of_no_delta (by simp)) rfl
  refine outputs_induction (I := fun _ => True) (P := fun u => u.isCompleted = false)
    (fun _ _ _ _ => trivial) ?_ body _ trivial hbody
  intro s u _ hu e he
  cases u with
  | completed stopReason usage => cases hu
  | ignored => cases he
  | _ =>
    rw [List.mem_singleton.mp he]
    rfl

theorem closings_gemini (chunks : List Gemini.GeminiResponse)
    (hchunks : ∀ c ∈ chunks, c.finishReason = none) (last : Gemini.GeminiResponse)
    (hlast : last.finishReason ≠ none) :
    let r := ReplyStream.gemini chunks hchunks last hlast
    (outputs (convertEvent codec target) (AdapterState.fresh w, AdapterState.fresh w')
      r.events).filterMap WireEvent.closing =
      [closingOf target (r.stopReason w) (r.usage codec w)] := by
  have hplain : ∀ (s : AdapterState) (chunk : Gemini.GeminiResponse),
      ∀ e ∈ (Gemini.parseIds s chunk).1 ++ outputs (Gemini.parsePart codec)
        (Gemini.parseUsage (Gemini.parseIds s chunk).2 chunk.usageMetadata) chunk.parts,
      e.isDone = false := by
    intro s chunk e he
    rw [List.mem_append] at he
    rcases he with he | he
    · exact (Gemini.parseIds_plain s chunk).2 e he
    · exact outputs_forall (Gemini.parsePart_not_done codec) _ _ e he
  obtain ⟨reason, hreason⟩ := Option.ne_none_iff_exists'.mp hlast
  have hwrap : ∀ s u, parseEvent codec s (.gemini u) = Gemini.parse codec s u := fun _ _ => rfl
  have hcalls : ∀ s : AdapterState, CallsStarted ((Gemini.parseIds s last).1 ++
      outputs (Gemini.parsePart codec)
        (Gemini.parseUsage (Gemini.parseIds s last).2 last.usageMetadata) last.parts) :=
    fun s => callsStarted_append (Gemini.parseIds_plain s last).1
      (Gemini.parts_callsStarted codec _ _)
  refine @closings_of_reader codec target w w' _ (Gemini.parse codec) _ hwrap chunks [] last _ _ _
    ?_ ?_ (hplain (final (Gemini.parse codec) (AdapterState.fresh w) chunks) last) (hcalls _) rfl
  · refine outputs_induction (I := fun _ => True) (P := fun c => c.finishReason = none)
      (fun _ _ _ _ => trivial) ?_ chunks _ trivial hchunks
    intro s chunk _ hchunk e he
    rw [Gemini.parse_eq, hchunk] at he
    simp only [Option.map_none, Option.toList_none, List.append_nil] at he
    exact hplain s chunk e he
  · rw [Gemini.parse_eq, hreason]
    simp only [ReplyStream.stopReason, hreason, Option.map_some, Option.getD_some,
      Option.toList_some]
    rfl

/-- **A converted reply says once how it ended.** -/
theorem closings_replyStream (r : ReplyStream) :
    (outputs (convertEvent codec target) (AdapterState.fresh w, AdapterState.fresh w')
      r.events).filterMap WireEvent.closing =
      [closingOf target (r.stopReason w) (r.usage codec w)] := by
  cases r with
  | claude message body hbody last rest hrest =>
    exact closings_claude codec target w w' message body hbody last rest hrest
  | openAIChat chunks => exact closings_openAIChat codec target w w' chunks
  | openAIResponses body hbody stopReason usage =>
    exact closings_openAIResponses codec target w w' body hbody stopReason usage
  | gemini chunks hchunks last hlast =>
    exact closings_gemini codec target w w' chunks hchunks last hlast

/-- So it is for the events of the wire that carry the reply. -/
theorem closings_convertPair {r : ReplyStream} {events : List SseEvent}
    (h : Carries codec r.source events r.events) :
    (outputs (total (convertPair codec r.source target))
      (AdapterState.fresh w, AdapterState.fresh w') events).filterMap WireEvent.closing =
      [closingOf target (r.stopReason w) (r.usage codec w)] := by
  rw [outputs_convertPair h]
  exact closings_replyStream codec target w w' r

end

end AnyConverter
