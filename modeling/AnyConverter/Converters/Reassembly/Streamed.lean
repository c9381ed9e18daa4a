import AnyConverter.Converters.Reassembly.ChatCut

/-!
# Chat and Responses clients of a stream

What a client assembles of the events a writer makes of canonical ones.  A Chat client gets every
text, every thought and every call; a Responses client gets the reasoning only where Claude signed
it.

* `convertPair_eq_emit`: a converted stream is what the writer makes of what the reader says;
* `OpenAIChat.assemble_emit`, `OpenAIResponses.assemble_replyEvents`.
-/

set_option autoImplicit false

namespace AnyConverter

open Transducer CanonicalStreamEvent

/-! ## Arguments of calls -/

theorem pushArguments_empty (index : Nat) (calls : List AccumulatedToolCall) :
    pushArguments index "" calls = calls := by
  induction calls with
  | nil => rfl
  | cons tc calls ih =>
    unfold pushArguments
    split
    · simp
    · rw [ih]

theorem pushArguments_of_none {index : Nat} {calls : List AccumulatedToolCall}
    (h : findCall index calls = none) (delta : String) :
    pushArguments index delta calls = calls := by
  induction calls with
  | nil => rfl
  | cons tc calls ih =>
    simp only [findCall, List.find?_cons] at h ih
    unfold pushArguments
    by_cases hindex : tc.index = index
    · simp [hindex] at h
    · simp only [beq_eq_false_iff_ne.mpr hindex] at h
      rw [if_neg hindex, ih h]

/-- Behind calls of lower indices, a call takes its own pieces. -/
theorem pushArguments_last {calls : List AccumulatedToolCall} {tc : AccumulatedToolCall}
    (h : ∀ c ∈ calls, c.index < tc.index) (delta : String) :
    pushArguments tc.index delta (calls ++ [tc]) =
      calls ++ [{ tc with arguments := tc.arguments ++ delta }] := by
  induction calls with
  | nil => simp [pushArguments]
  | cons c calls ih =>
    have hc := h c List.mem_cons_self
    rw [List.cons_append, pushArguments, if_neg (by omega),
      ih fun x hx => h x (List.mem_cons_of_mem _ hx)]
    rfl

/-- A call behind those of lower indices is the last. -/
def PlacesLast
    (place : AccumulatedToolCall → List AccumulatedToolCall → List AccumulatedToolCall) : Prop :=
  ∀ call calls, (∀ c ∈ calls, c.index < call.index) → place call calls = calls ++ [call]

theorem append_last : PlacesLast fun call calls => calls ++ [call] := fun _ _ _ => rfl

theorem placeCall_last : PlacesLast OpenAIChat.placeCall := by
  intro call calls h
  induction calls with
  | nil => rfl
  | cons c calls ih =>
    have hc := h c List.mem_cons_self
    rw [OpenAIChat.placeCall, if_neg (by omega), if_neg (by omega),
      ih fun x hx => h x (List.mem_cons_of_mem _ hx)]
    rfl

namespace Claude

/-- Arguments that read as the input of a call are seen as its input. -/
theorem parseArguments_of_readsAs {codec : JsonCodec} (hcodec : codec.Lawful) {input : Value}
    {text : String} (h : ReadsAs codec input text) : parseArguments codec text = input := by
  rcases h with ⟨rfl, rfl⟩ | hread
  · rfl
  · have hne : text ≠ "" := by
      rintro rfl
      rw [hcodec.read_empty] at hread
      cases hread
    rw [parseArguments, if_neg hne, hread, Option.getD_some]

section
variable {codec : JsonCodec}
  {place : AccumulatedToolCall → List AccumulatedToolCall → List AccumulatedToolCall}

theorem collect_pieces (pieces : List String) {calls : List AccumulatedToolCall}
    {tc : AccumulatedToolCall} (h : ∀ c ∈ calls, c.index < tc.index) :
    ((pieces.map (toolCallDelta tc.index)).flatMap OpenAIChat.fragment).foldl
      (OpenAIChat.collectStep place pushArguments) (calls ++ [tc]) =
      calls ++ [{ tc with arguments := tc.arguments ++ String.join pieces }] := by
  induction pieces generalizing tc with
  | nil => simp
  | cons piece pieces ih =>
    have hstep : (OpenAIChat.fragment (toolCallDelta tc.index piece)).foldl
        (OpenAIChat.collectStep place pushArguments) (calls ++ [tc]) =
        calls ++ [{ tc with arguments := tc.arguments ++ piece }] := pushArguments_last h piece
    rw [List.map_cons, List.flatMap_cons, List.foldl_append, hstep, String.join_cons,
      ← String.append_assoc]
    exact @ih { tc with arguments := tc.arguments ++ piece } h

/-- What a block adds to the calls of a stream. -/
theorem collect_blockSaid (hcodec : codec.Lawful) (hplace : PlacesLast place) {n : Nat}
    {block : ClaudeContentBlock} {events : List CanonicalStreamEvent}
    (h : BlockSaid codec n block events) {calls : List AccumulatedToolCall}
    (hcalls : ∀ c ∈ calls, c.index < n) :
    ∃ new, (events.flatMap OpenAIChat.fragment).foldl
        (OpenAIChat.collectStep place pushArguments) calls = calls ++ new ∧
      new.map (AccumulatedToolCall.seen codec) = blockView.calls block ∧
      ∀ c ∈ new, c.index < n + (blockView.calls block).length := by
  cases h with
  | text pieces hpieces =>
    refine ⟨[], ?_, rfl, by simp⟩
    have hnone : (pieces.map textDelta).flatMap OpenAIChat.fragment = [] := by
      simp [OpenAIChat.fragment]
    rw [hnone, List.append_nil]
    rfl
  | thinking events hevents =>
    refine ⟨[], ?_, rfl, by simp⟩
    have hnone : events.flatMap OpenAIChat.fragment = [] := by
      rw [List.flatMap_eq_nil_iff]
      intro e he
      rcases hevents e he with ⟨t, rfl⟩ | ⟨t, rfl⟩ <;> rfl
    rw [hnone, List.append_nil]
    rfl
  | redactedThinking raw data => exact ⟨[], by simp [OpenAIChat.fragment], rfl, by simp⟩
  | toolUse id name pieces hpieces =>
    refine ⟨[⟨n, id, name, String.join pieces⟩], ?_, ?_, by simp [blockView]⟩
    · have hstart : (OpenAIChat.fragment (toolCallStart n id name none)).foldl
          (OpenAIChat.collectStep place pushArguments) calls = calls ++ [⟨n, id, name, ""⟩] := by
        show pushArguments n "" (place ⟨n, id, name, ""⟩ calls) = _
        rw [pushArguments_empty, hplace ⟨n, id, name, ""⟩ calls hcalls]
      rw [List.flatMap_cons, List.foldl_append, hstart,
        @collect_pieces place pieces calls ⟨n, id, name, ""⟩ hcalls, String.empty_append]
    · simp [AccumulatedToolCall.seen, blockView, parseArguments_of_readsAs hcodec hpieces]

/-- The calls of a stream are the calls of the reply. -/
theorem collect_blocksSaid (hcodec : codec.Lawful) (hplace : PlacesLast place) {n : Nat}
    {content : List ClaudeContentBlock} {events : List CanonicalStreamEvent}
    (h : BlocksSaid codec n content events) {calls : List AccumulatedToolCall}
    (hcalls : ∀ c ∈ calls, c.index < n) :
    ((events.flatMap OpenAIChat.fragment).foldl
        (OpenAIChat.collectStep place pushArguments) calls).map (AccumulatedToolCall.seen codec) =
      calls.map (AccumulatedToolCall.seen codec) ++ content.flatMap blockView.calls := by
  induction h generalizing calls with
  | nil n => simp
  | @cons n block blocks events rest hblock hrest ih =>
    obtain ⟨new, hnew, hseen, hindex⟩ := collect_blockSaid hcodec hplace hblock hcalls
    have hlt : ∀ c ∈ calls ++ new, c.index < n + (blockView.calls block).length := by
      intro c hc
      rcases List.mem_append.mp hc with hc | hc
      · have hc' := hcalls c hc
        omega
      · exact hindex c hc
    rw [List.flatMap_append, List.foldl_append, hnew, ih hlt, List.map_append, hseen,
      List.flatMap_cons, List.append_assoc]

end

end Claude

/-! ## A conversion as a reader and a writer -/

section
variable {codec : JsonCodec} {source target : Format}

theorem outputs_parseStream {events : List SseEvent} {us : List UpstreamEvent}
    (h : Carries codec source events us) (s : AdapterState) :
    outputs (total (parseStream codec source)) s events = outputs (parseEvent codec) s us := by
  induction events generalizing us s with
  | nil =>
    cases us with
    | nil => rfl
    | cons u us => cases h
  | cons event events ih =>
    cases us with
    | nil => cases h
    | cons u us =>
      obtain ⟨hhead, htail⟩ := List.cons.inj h
      rw [outputs_cons, outputs_cons, total, parseStream_of_decodeEvent s hhead, emitted_ok,
        ih htail]

/-- Where calls start before their arguments, no write fails. -/
theorem convertPair_eq_emit {events : List SseEvent} {us : List UpstreamEvent}
    (h : Carries codec source events us) (s s' : AdapterState)
    (hcalls : CallsStarted (outputs (parseEvent codec) s us)) :
    outputs (total (convertPair codec source target)) (s, s') events =
      outputs (total (emitStream codec target)) s' (outputs (parseEvent codec) s us) := by
  have hread := outputs_parseStream h s
  have hok : NoError (emitStream codec target) s'
      (outputs (total (parseStream codec source)) s events) := by
    rw [hread]
    exact noError_of_callsStarted codec target s' hcalls
  rw [convertPair_eq_comp events (s, s') hok, hread]

/-- The events of one target under their own names. -/
theorem assembleStream_emit (s : AdapterState) (events : List CanonicalStreamEvent) :
    assembleStream codec target (outputs (total (emitStream codec target)) s events) =
      match target with
      | .claude => Claude.assemble codec (outputs Claude.emit s events)
      | .openAIChat => OpenAIChat.assemble codec (outputs OpenAIChat.emit s events)
      | .openAIResponses =>
        OpenAIResponses.assemble codec (outputs (total (OpenAIResponses.emit codec)) s events)
      | .gemini => Gemini.assemble (outputs (Gemini.emit codec) s events) := by
  cases target with
  | claude =>
    have hnames : ∀ t e, total (emitStream codec .claude) t e =
        ((Claude.emit t e).1.map WireEvent.claude, (Claude.emit t e).2) := fun _ _ => rfl
    rw [outputs_rename hnames]
    simp [assembleStream, List.filterMap_map]
  | openAIChat =>
    have hnames : ∀ t e, total (emitStream codec .openAIChat) t e =
        ((OpenAIChat.emit t e).1.map WireEvent.openAIChat, (OpenAIChat.emit t e).2) :=
      fun _ _ => rfl
    rw [outputs_rename hnames]
    simp [assembleStream, List.filterMap_map]
  | openAIResponses =>
    have hnames : ∀ t e, total (emitStream codec .openAIResponses) t e =
        ((total (OpenAIResponses.emit codec) t e).1.map WireEvent.openAIResponses,
          (total (OpenAIResponses.emit codec) t e).2) := by
      intro t e
      simp only [total, emitStream]
      cases (OpenAIResponses.emit codec t e).1 <;> rfl
    rw [outputs_rename hnames]
    simp [assembleStream, List.filterMap_map]
  | gemini =>
    have hnames : ∀ t e, total (emitStream codec .gemini) t e =
        ((Gemini.emit codec t e).1.map WireEvent.gemini, (Gemini.emit codec t e).2) :=
      fun _ _ => rfl
    rw [outputs_rename hnames]
    simp [assembleStream, List.filterMap_map]

end

/-! ## Chat -/

namespace OpenAIChat

/-- The delta the writer sends for an event. -/
def writtenDelta : CanonicalStreamEvent → List Delta
  | start _ _ => [{ role := some "assistant" }]
  | textDelta text => [{ content := some text }]
  | thinkingDelta text => [{ reasoningContent := some text }]
  | toolCallStart index id name signature =>
    [{ toolCalls := some (fragment (toolCallStart index id name signature)) }]
  | toolCallDelta index argumentsDelta =>
    [{ toolCalls := some (fragment (toolCallDelta index argumentsDelta)) }]
  | thinkingSignature _ _ => []
  | sealedThinking _ _ => []
  | done _ _ => [{}]

theorem deltas_emit (s : AdapterState) (e : CanonicalStreamEvent) :
    (emit s e).1.flatMap StreamEvent.deltas = writtenDelta e := by
  cases e <;> rfl

theorem deltas_outputs (events : List CanonicalStreamEvent) (s : AdapterState) :
    (outputs emit s events).flatMap StreamEvent.deltas = events.flatMap writtenDelta := by
  induction events generalizing s with
  | nil => rfl
  | cons e events ih => rw [outputs_cons, List.flatMap_append, deltas_emit, ih, List.flatMap_cons]

/-- A client gets all of a stream. -/
theorem assemble_emit (codec : JsonCodec) (s : AdapterState) (events : List CanonicalStreamEvent) :
    assemble codec (outputs emit s events) =
      ⟨String.join (events.map OpenAIResponses.textOf), String.join (events.map thinkingOf),
        (gatherCalls (events.flatMap fragment)).map (AccumulatedToolCall.seen codec)⟩ := by
  have htext : ∀ e, String.join ((writtenDelta e).map fun d => d.content.getD "") =
      OpenAIResponses.textOf e := by
    intro e
    cases e <;> simp [writtenDelta, OpenAIResponses.textOf]
  have hthinking : ∀ e, String.join ((writtenDelta e).map fun d => d.reasoningContent.getD "") =
      thinkingOf e := by
    intro e
    cases e <;> simp [writtenDelta, thinkingOf]
  have hcalls : (events.flatMap writtenDelta).flatMap (fun d => d.toolCalls.getD []) =
      events.flatMap fragment := by
    rw [List.flatMap_assoc]
    refine List.flatMap_congr fun e _ => ?_
    cases e <;> simp [writtenDelta, fragment]
  simp only [assemble, deltas_outputs, assembleDeltas, Text.join_flatMap, htext, hthinking, hcalls]

/-- Of a reply: all that streams between its start and its end. -/
theorem assemble_reply (codec : JsonCodec) (s : AdapterState) (id model : String)
    (body : List CanonicalStreamEvent) (reason : StopReason) (usage : Option Usage) :
    assemble codec (outputs emit s (start id model :: body ++ [done reason usage])) =
      ⟨String.join (body.map OpenAIResponses.textOf), String.join (body.map thinkingOf),
        (gatherCalls (body.flatMap fragment)).map (AccumulatedToolCall.seen codec)⟩ := by
  rw [assemble_emit]
  simp [String.join_append, OpenAIResponses.textOf, thinkingOf, fragment]

end OpenAIChat

/-! ## Responses -/

namespace OpenAIResponses

/-- The calls of a stream in the order they start. -/
def startedCalls (fragments : List OpenAIChat.StreamToolCall) : List AccumulatedToolCall :=
  fragments.foldl (OpenAIChat.collectStep (fun call calls => calls ++ [call]) pushArguments) []

/-- What a client reads of an item of the stream. -/
theorem itemView_message (codec : JsonCodec) (id status : String) (content : List String) :
    let item := (OutputItem.message id status content).toValue
    (itemView codec).text item = String.join content ∧ (itemView codec).reasoning item = "" ∧
      (itemView codec).calls item = [] := by
  refine ⟨?_, rfl, rfl⟩
  show String.join ((content.map outputText).map fun part => textField part "text") = _
  rw [List.map_map]
  exact congrArg String.join (List.map_id content)

theorem itemView_reasoning (codec : JsonCodec) (id status : String) (summary : List String)
    (encryptedContent : Option String) :
    let item := (OutputItem.reasoning id status summary encryptedContent).toValue
    (itemView codec).text item = "" ∧ (itemView codec).reasoning item = String.join summary ∧
      (itemView codec).calls item = [] := by
  have htexts : (summary.map summaryText).map (fun part => textField part "text") = summary := by
    rw [List.map_map]
    exact List.map_id summary
  cases encryptedContent with
  | none =>
    refine ⟨rfl, ?_, rfl⟩
    show String.join ((summary.map summaryText).map fun part => textField part "text") = _
    rw [htexts]
  | some content =>
    refine ⟨rfl, ?_, rfl⟩
    show String.join ((summary.map summaryText).map fun part => textField part "text") = _
    rw [htexts]

theorem itemView_callItem (codec : JsonCodec) (tc : AccumulatedToolCall) :
    (itemView codec).text (callItem tc).toValue = "" ∧
      (itemView codec).reasoning (callItem tc).toValue = "" ∧
      (itemView codec).calls (callItem tc).toValue = [tc.seen codec] := ⟨rfl, rfl, rfl⟩

theorem assemble_callItems (codec : JsonCodec) (calls : List AccumulatedToolCall) :
    (itemView codec).assemble ((calls.map callItem).map OutputItem.toValue) =
      ⟨"", "", calls.map (AccumulatedToolCall.seen codec)⟩ := by
  induction calls with
  | nil => rfl
  | cons tc calls ih =>
    obtain ⟨htext, hreasoning, hcalls⟩ := itemView_callItem codec tc
    simp only [List.map_cons, View.assemble_cons, htext, hreasoning, hcalls, ih]
    rfl

theorem assemble_closeThinking (codec : JsonCodec) (s : AdapterState) :
    (itemView codec).assemble ((closeThinking codec s).1.2.map OutputItem.toValue) =
      ⟨"", if signedByClaude s.toStreamState then (thinkingParts s.toStreamState).1 else "", []⟩ := by
  unfold closeThinking
  split
  · by_cases hempty : (thinkingParts s.toStreamState).1 = ""
    · simp [hempty, itemView_reasoning]
    · simp [hempty, itemView_reasoning]
  · rfl

theorem assemble_closeMessage (codec : JsonCodec) (s : StreamState) (itemId : String) :
    (itemView codec).assemble ((closeMessage s itemId).2.map OutputItem.toValue) =
      ⟨s.accumulatedText, "", []⟩ := by
  unfold closeMessage
  split
  · rename_i hempty
    rw [hempty]
    rfl
  · simp [itemView_message]

/-- The items that end a reply. -/
def closingItems (codec : JsonCodec) (s : AdapterState) (itemId : String) : List OutputItem :=
  (closeThinking codec s).1.2 ++ (closeMessage s.toStreamState itemId).2 ++
    s.accumulatedToolCalls.map callItem

/-- What a client reads of them; the empty message of an empty reply says nothing. -/
theorem assemble_closingItems (codec : JsonCodec) (s : AdapterState) (itemId : String) :
    (itemView codec).assemble ((outputOrEmpty (closingItems codec s itemId) itemId).map
      OutputItem.toValue) =
      ⟨s.accumulatedText,
        if signedByClaude s.toStreamState then (thinkingParts s.toStreamState).1 else "",
        s.accumulatedToolCalls.map (AccumulatedToolCall.seen codec)⟩ := by
  have hitems : (itemView codec).assemble ((closingItems codec s itemId).map OutputItem.toValue) =
      ⟨s.accumulatedText,
        if signedByClaude s.toStreamState then (thinkingParts s.toStreamState).1 else "",
        s.accumulatedToolCalls.map (AccumulatedToolCall.seen codec)⟩ := by
    simp [closingItems, View.assemble_append, assemble_closeThinking, assemble_closeMessage,
      assemble_callItems, -List.map_map]
  rw [← hitems]
  unfold outputOrEmpty
  split
  · rename_i hnone
    rw [hnone]
    simp [itemView_message]
  · rfl

section
variable {codec : JsonCodec} {w : World} {id model : String} {body : List CanonicalStreamEvent}

/-- A stream completes once, with the items of its last state. -/
theorem outputs_replyEvents (hbody : ∀ e ∈ body, IsBody e) (reason : StopReason)
    (usage : Option Usage) :
    (replyEvents codec w id model body reason usage).filterMap StreamEvent.output =
      [outputOrEmpty (closingItems codec (stateAfter codec w id model body) (messageId w id))
        (messageId w id)] := by
  have hsilent : (bodyEvents codec w id model body).filterMap StreamEvent.output = [] := by
    refine List.filterMap_eq_nil_iff.mpr ?_
    intro o ho
    obtain ⟨pre, e, post, hsplit, hmem⟩ := (mem_outputs_iff _).mp ho
    have he : IsBody e := hbody e (by simp [hsplit])
    cases o with
    | completed response => exact absurd hmem (completed_not_mem_emit _ he response)
    | _ => rfl
  have hid := (@stateAfter_frame codec w id model body hbody).1
  have hthinking : ∀ s : AdapterState,
      (closeThinking codec s).1.1.filterMap StreamEvent.output = [] := by
    intro s
    unfold closeThinking
    split <;> rfl
  have hmessage : ∀ (s : StreamState) (itemId : String),
      (closeMessage s itemId).1.filterMap StreamEvent.output = [] := by
    intro s itemId
    unfold closeMessage
    split <;> rfl
  have hcalls : ∀ (s : StreamState) (calls : List AccumulatedToolCall),
      (calls.flatMap (closeCall s)).filterMap StreamEvent.output = [] := by
    intro s calls
    induction calls with
    | nil => rfl
    | cons tc calls ih =>
      rw [List.flatMap_cons, List.filterMap_append, ih]
      rfl
  rw [replyEvents_eq, List.filterMap_append, List.filterMap_append, hsilent]
  simp only [emitDone, hid, List.filterMap_append, hthinking, hmessage, hcalls]
  rfl

theorem accumulatedToolCalls_stateAfter (hbody : ∀ e ∈ body, IsBody e) :
    (stateAfter codec w id model body).accumulatedToolCalls =
      startedCalls (body.flatMap OpenAIChat.fragment) := by
  induction body using List.reverseRecOn with
  | nil => rfl
  | append_singleton pre e ih =>
    have hpre := ih fun x hx => hbody x (List.mem_append_left _ hx)
    have he : IsBody e := hbody e (by simp)
    rw [stateAfter_append, List.flatMap_append, startedCalls, List.foldl_append, ← startedCalls,
      ← hpre]
    generalize stateAfter codec w id model pre = s
    cases e with
    | start id model => exact he.elim
    | done reason usage => exact he.elim
    | textDelta t =>
      simp only [emit, emitTextDelta, messageItemId]
      split <;> rfl
    | thinkingDelta t =>
      simp only [emit, emitThinkingDelta]
      split <;> rfl
    | thinkingSignature signer delta =>
      simp only [emit, emitThinkingSignature]
      split
      · rfl
      · split <;> rfl
    | sealedThinking signer raw => cases signer <;> rfl
    | toolCallStart index callId name signature =>
      exact (pushArguments_empty index _).symm
    | toolCallDelta index delta =>
      simp only [emit, emitToolCallDelta]
      split
      · rename_i hnone
        exact (pushArguments_of_none hnone delta).symm
      · rfl

/-- What a Responses client has of a stream. -/
theorem assemble_replyEvents (hbody : ∀ e ∈ body, IsBody e) (reason : StopReason)
    (usage : Option Usage) :
    assemble codec (replyEvents codec w id model body reason usage) =
      ⟨String.join (body.map textOf),
        if signs body then (thinkingParts (stateAfter codec w id model body).toStreamState).1 else "",
        (startedCalls (body.flatMap OpenAIChat.fragment)).map (AccumulatedToolCall.seen codec)⟩ := by
  rw [assemble, outputs_replyEvents hbody, List.getLast?_singleton, Option.getD_some,
    assemble_closingItems, signedByClaude_stateAfter hbody, (stateAfter_frame hbody).2.1,
    accumulatedToolCalls_stateAfter hbody]

end

end OpenAIResponses

end AnyConverter
