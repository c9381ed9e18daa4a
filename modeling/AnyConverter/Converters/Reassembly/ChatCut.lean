import AnyConverter.Converters.Reassembly.ClaudeCut

/-!
# Cutting a Chat reply

A Chat reply streams as deltas of one message: pieces of its text, of its reasoning and of its
calls, the calls in any order and mixed with each other.  Empty pieces and the boundaries of chunks
are free.

* `deltaEvents`: the canonical events of a delta;
* `collect_read`: their fragments of calls add up to what the stream's add up to;
* `outputs_openAIChat`: the reader makes of the stream a start, those events, and the end.
-/

set_option autoImplicit false

namespace AnyConverter

open Transducer CanonicalStreamEvent

namespace OpenAIChat

/-! ## Chunks -/

/-- The deltas of a stream, and the fragments of calls they carry. -/
def deltasOf (chunks : List OpenAIChatStreamChunk) : List Delta :=
  chunks.flatMap OpenAIChatStreamChunk.deltas

def Delta.fragments (d : Delta) : List StreamToolCall := d.toolCalls.getD []

def fragmentsOf (chunks : List OpenAIChatStreamChunk) : List StreamToolCall :=
  (deltasOf chunks).flatMap Delta.fragments

/-- Each call begins once, with its first fragment; `known` are the calls that have begun. -/
inductive Begun : List Nat → List StreamToolCall → Prop
  | nil (known : List Nat) : Begun known []
  | first {known : List Nat} {tc : StreamToolCall} {rest : List StreamToolCall}
      (hbegins : tc.begins ≠ none) (hnew : tc.index ∉ known)
      (hrest : Begun (tc.index :: known) rest) : Begun known (tc :: rest)
  | more {known : List Nat} {tc : StreamToolCall} {rest : List StreamToolCall}
      (hbegins : tc.begins = none) (hknown : tc.index ∈ known) (hrest : Begun known rest) :
    Begun known (tc :: rest)

/-- The calls of a message, each under its position. -/
def positioned (toolCalls : List ToolCall) : List AccumulatedToolCall :=
  toolCalls.mapIdx fun i tc => ⟨i, tc.id, tc.function.name, tc.function.arguments⟩

/-- The chunks stream a message: their deltas add up to it. -/
structure Cut (message : ChoiceMessage) (chunks : List OpenAIChatStreamChunk) : Prop where
  nonempty : chunks ≠ []
  oneChoice : ∀ chunk ∈ chunks, ∀ choice ∈ chunk.choices, choice.index = 0
  content : String.join ((deltasOf chunks).map fun d => d.content.getD "") =
    message.content.getD ""
  reasoning : String.join ((deltasOf chunks).map fun d => d.reasoningContent.getD "") =
    message.reasoningContent.getD ""
  begun : Begun [] (fragmentsOf chunks)
  calls : gatherCalls (fragmentsOf chunks) = positioned (message.toolCalls.getD [])

/-! ## The reader -/

/-- What the reader makes of a delta. -/
def deltaEvents (d : Delta) : List CanonicalStreamEvent :=
  (parseContent (.fresh .counting) d.content).1 ++ parseReasoning d.reasoningContent ++
    d.fragments.flatMap parseToolCall

theorem parseContent_fst (s t : AdapterState) (content : Option String) :
    (parseContent s content).1 = (parseContent t content).1 := by
  cases content with
  | none => rfl
  | some text =>
    simp only [parseContent]
    split <;> rfl

/-- Reading a choice does not touch the ids. -/
theorem parseChoice_spec (s : AdapterState) (choice : StreamChoice) :
    (parseChoice s choice).1 = deltaEvents choice.delta ∧
      (parseChoice s choice).2.responseId = s.responseId := by
  constructor
  · simp only [parseChoice, deltaEvents, parseContent_fst s (.fresh .counting), Delta.fragments]
    cases choice.delta.toolCalls <;> simp [parseToolCalls]
  · have hcontent : (parseContent s choice.delta.content).2.responseId = s.responseId := by
      cases choice.delta.content with
      | none => rfl
      | some text =>
        simp only [parseContent]
        split <;> rfl
    have hcalls : ∀ t : AdapterState,
        (parseToolCalls t choice.delta.toolCalls).2.responseId = t.responseId := by
      intro t
      cases choice.delta.toolCalls <;> rfl
    have hreason : ∀ t : AdapterState,
        (parseFinishReason t choice.finishReason).responseId = t.responseId := by
      intro t
      cases choice.finishReason <;> rfl
    simp [parseChoice, hreason, hcalls, hcontent]

theorem run_parseChoice (choices : List StreamChoice) (s : AdapterState) :
    (run parseChoice s choices).1 = (choices.map StreamChoice.delta).flatMap deltaEvents ∧
      (run parseChoice s choices).2.responseId = s.responseId := by
  induction choices generalizing s with
  | nil => exact ⟨rfl, rfl⟩
  | cons choice choices ih =>
    obtain ⟨hevents, hid⟩ := parseChoice_spec s choice
    obtain ⟨hout, hfinal⟩ := ih (parseChoice s choice).2
    simp [run, hevents, hid, hout, hfinal]

/-- A chunk of a stream that has started stands for what its deltas stand for. -/
theorem parseChunk_spec {s : AdapterState} {id : String} (hs : s.responseId = some id)
    (chunk : OpenAIChatStreamChunk) :
    (parseChunk s chunk).1 = chunk.deltas.flatMap deltaEvents ∧
      (parseChunk s chunk).2.responseId = some id := by
  have husage : (parseUsage s chunk.usage).responseId = some id := by
    cases chunk.usage <;> exact hs
  obtain ⟨hout, hfinal⟩ := run_parseChoice chunk.choices (parseUsage s chunk.usage)
  simp [parseChunk, parseIds, hs, hout, hfinal, husage, OpenAIChatStreamChunk.deltas]

theorem outputs_parseChunk (chunks : List OpenAIChatStreamChunk) {s : AdapterState} {id : String}
    (hs : s.responseId = some id) :
    outputs parseChunk s chunks = (deltasOf chunks).flatMap deltaEvents := by
  induction chunks generalizing s with
  | nil => rfl
  | cons chunk chunks ih =>
    obtain ⟨hout, hnext⟩ := parseChunk_spec hs chunk
    rw [outputs_cons, hout, ih hnext]
    simp [deltasOf]

/-- The first chunk starts the reply. -/
theorem outputs_parseChunk_cons (w : World) (chunk : OpenAIChatStreamChunk)
    (chunks : List OpenAIChatStreamChunk) :
    outputs parseChunk (.fresh w) (chunk :: chunks) =
      start chunk.id chunk.model :: (deltasOf (chunk :: chunks)).flatMap deltaEvents := by
  have hfirst : parseChunk (.fresh w) chunk =
      (start chunk.id chunk.model :: (parseChunk { AdapterState.fresh w with
        responseId := some chunk.id, model := some chunk.model } chunk).1,
      (parseChunk { AdapterState.fresh w with
        responseId := some chunk.id, model := some chunk.model } chunk).2) := rfl
  obtain ⟨hout, hnext⟩ := @parseChunk_spec { AdapterState.fresh w with
    responseId := some chunk.id, model := some chunk.model } chunk.id rfl chunk
  rw [outputs_cons, hfirst]
  simp only [hout, outputs_parseChunk chunks hnext]
  simp [deltasOf]

/-! ## The events of the deltas -/

theorem join_parseContent (s : AdapterState) (content : Option String) :
    String.join ((parseContent s content).1.map OpenAIResponses.textOf) = content.getD "" ∧
      String.join ((parseContent s content).1.map thinkingOf) = "" := by
  cases content with
  | none => exact ⟨rfl, rfl⟩
  | some text =>
    by_cases hempty : text = ""
    · simp [parseContent, hempty]
    · simp [parseContent, hempty, OpenAIResponses.textOf, thinkingOf]

theorem join_parseReasoning (reasoning : Option String) :
    String.join ((parseReasoning reasoning).map OpenAIResponses.textOf) = "" ∧
      String.join ((parseReasoning reasoning).map thinkingOf) = reasoning.getD "" := by
  cases reasoning with
  | none => exact ⟨rfl, rfl⟩
  | some text =>
    by_cases hempty : text = ""
    · simp [parseReasoning, hempty]
    · simp [parseReasoning, hempty, OpenAIResponses.textOf, thinkingOf]

/-- A fragment stands for the start of its call, a piece of its arguments, or both. -/
theorem parseToolCall_eq (tc : StreamToolCall) :
    parseToolCall tc = (match tc.begins with
      | some (id, name) => [toolCallStart tc.index id name none]
      | none => []) ++
      if tc.piece = "" then [] else [toolCallDelta tc.index tc.piece] := by
  unfold parseToolCall toolCallStartOf toolCallDeltaOf StreamToolCall.begins StreamToolCall.piece
  congr 1
  · cases tc.id with
    | none => rfl
    | some id => cases tc.function.bind StreamFunctionCall.name <;> rfl
  · cases tc.function.bind StreamFunctionCall.arguments <;> simp

theorem mem_parseToolCall {tc : StreamToolCall} {e : CanonicalStreamEvent}
    (he : e ∈ parseToolCall tc) :
    (∃ id name, e = toolCallStart tc.index id name none) ∨
      e = toolCallDelta tc.index tc.piece := by
  rw [parseToolCall_eq, List.mem_append] at he
  rcases he with he | he
  · cases hbegins : tc.begins with
    | none => simp [hbegins] at he
    | some p => exact .inl ⟨p.1, p.2, by simpa [hbegins] using he⟩
  · split at he
    · simp at he
    · exact .inr (List.mem_singleton.mp he)

/-- The text and the reasoning of a delta. -/
theorem join_deltaEvents (d : Delta) :
    String.join ((deltaEvents d).map OpenAIResponses.textOf) = d.content.getD "" ∧
      String.join ((deltaEvents d).map thinkingOf) = d.reasoningContent.getD "" := by
  have hcalls : ∀ e ∈ d.fragments.flatMap parseToolCall,
      OpenAIResponses.textOf e = "" ∧ e.thinkingOf = "" := by
    intro e he
    obtain ⟨tc, -, he⟩ := List.mem_flatMap.mp he
    rcases mem_parseToolCall he with ⟨id, name, rfl⟩ | rfl <;> exact ⟨rfl, rfl⟩
  have htext := Text.join_map_empty_iff.mpr fun e he => (hcalls e he).1
  have hthinking := Text.join_map_empty_iff.mpr fun e he => (hcalls e he).2
  obtain ⟨hsaid, hnone⟩ := join_parseContent (.fresh .counting) d.content
  obtain ⟨hnone', hthought⟩ := join_parseReasoning d.reasoningContent
  constructor
  · simp [deltaEvents, String.join_append, htext, hsaid, hnone']
  · simp [deltaEvents, String.join_append, hthinking, hthought, hnone]

theorem join_deltasEvents (deltas : List Delta) :
    String.join ((deltas.flatMap deltaEvents).map OpenAIResponses.textOf) =
        String.join (deltas.map fun d => d.content.getD "") ∧
      String.join ((deltas.flatMap deltaEvents).map thinkingOf) =
        String.join (deltas.map fun d => d.reasoningContent.getD "") := by
  constructor
  · simp [Text.join_flatMap, (join_deltaEvents _).1]
  · simp [Text.join_flatMap, (join_deltaEvents _).2]

/-! ## The fragments of the events -/

/-- The fragment of a call a canonical event stands for. -/
def fragment : CanonicalStreamEvent → List StreamToolCall
  | toolCallStart index id name _ => [{
      index := index, id := some id, type := some "function"
      function := some { name := some name } }]
  | toolCallDelta index argumentsDelta => [{
      index := index, function := some { arguments := some argumentsDelta } }]
  | _ => []

/-- A fragment after reading: its start and its arguments apart, no empty arguments. -/
def StreamToolCall.read (tc : StreamToolCall) : List StreamToolCall :=
  (parseToolCall tc).flatMap fragment

theorem StreamToolCall.read_eq (tc : StreamToolCall) :
    tc.read = (match tc.begins with
      | some (id, name) => fragment (toolCallStart tc.index id name none)
      | none => []) ++
      if tc.piece = "" then [] else fragment (toolCallDelta tc.index tc.piece) := by
  rw [read, parseToolCall_eq, List.flatMap_append]
  congr 1
  · cases tc.begins <;> simp
  · split <;> simp

/-- The text and the reasoning of a delta are no fragments. -/
theorem flatMap_fragment_said (d : Delta) :
    ((parseContent (.fresh .counting) d.content).1 ++
      parseReasoning d.reasoningContent).flatMap fragment = [] := by
  rw [List.flatMap_append, List.append_eq_nil_iff]
  constructor
  · cases d.content with
    | none => rfl
    | some text => by_cases hempty : text = "" <;> simp [parseContent, hempty, fragment]
  · cases d.reasoningContent with
    | none => rfl
    | some text => by_cases hempty : text = "" <;> simp [parseReasoning, hempty, fragment]

theorem flatMap_fragment (deltas : List Delta) :
    (deltas.flatMap deltaEvents).flatMap fragment =
      (deltas.flatMap Delta.fragments).flatMap StreamToolCall.read := by
  have hdelta : ∀ d : Delta, (deltaEvents d).flatMap fragment =
      d.fragments.flatMap StreamToolCall.read := by
    intro d
    rw [deltaEvents, List.flatMap_append, flatMap_fragment_said, List.flatMap_assoc]
    rfl
  rw [List.flatMap_assoc, List.flatMap_assoc]
  exact List.flatMap_congr fun d _ => hdelta d

section
variable {place : AccumulatedToolCall → List AccumulatedToolCall → List AccumulatedToolCall}
  {push : Nat → String → List AccumulatedToolCall → List AccumulatedToolCall}

theorem collect_read_one (hpush : ∀ index calls, push index "" calls = calls) (tc : StreamToolCall)
    (calls : List AccumulatedToolCall) :
    tc.read.foldl (collectStep place push) calls = collectStep place push calls tc := by
  have hstart : ∀ (id name : String) (cs : List AccumulatedToolCall),
      (fragment (toolCallStart tc.index id name none)).foldl (collectStep place push) cs =
        place ⟨tc.index, id, name, ""⟩ cs := fun id name cs => hpush _ _
  have hdelta : ∀ cs : List AccumulatedToolCall,
      (fragment (toolCallDelta tc.index tc.piece)).foldl (collectStep place push) cs =
        push tc.index tc.piece cs := fun cs => rfl
  rw [tc.read_eq, List.foldl_append, collectStep]
  by_cases hpiece : tc.piece = ""
  · rw [if_pos hpiece, hpiece, hpush, List.foldl_nil]
    cases tc.begins with
    | none => rfl
    | some p => exact hstart p.1 p.2 calls
  · rw [if_neg hpiece, hdelta]
    cases tc.begins with
    | none => rfl
    | some p => exact congrArg _ (hstart p.1 p.2 calls)

/-- Reading the fragments first changes nothing about what they add up to. -/
theorem collect_read (hpush : ∀ index calls, push index "" calls = calls)
    (fragments : List StreamToolCall) (calls : List AccumulatedToolCall) :
    (fragments.flatMap StreamToolCall.read).foldl (collectStep place push) calls =
      fragments.foldl (collectStep place push) calls := by
  induction fragments generalizing calls with
  | nil => rfl
  | cons tc fragments ih =>
    rw [List.flatMap_cons, List.foldl_append, collect_read_one hpush, List.foldl_cons, ih]

end

theorem begun_read {known : List Nat} {fragments : List StreamToolCall}
    (h : Begun known fragments) : Begun known (fragments.flatMap StreamToolCall.read) := by
  induction h with
  | nil known => exact .nil known
  | @first known tc rest hbegins hnew hrest ih =>
    obtain ⟨⟨id, name⟩, hp⟩ := Option.ne_none_iff_exists'.mp hbegins
    rw [List.flatMap_cons, tc.read_eq, hp]
    refine .first (by simp [StreamToolCall.begins]) hnew ?_
    by_cases hpiece : tc.piece = ""
    · simpa [hpiece] using ih
    · simp only [hpiece, if_false]
      exact .more rfl List.mem_cons_self ih
  | @more known tc rest hbegins hknown hrest ih =>
    rw [List.flatMap_cons, tc.read_eq, hbegins]
    by_cases hpiece : tc.piece = ""
    · simpa [hpiece] using ih
    · simp only [hpiece, if_false]
      exact .more rfl hknown ih

/-- Where each call begins with its first fragment, each call starts before its arguments. -/
theorem started_of_begun {known : List Nat} {events : List CanonicalStreamEvent}
    (h : Begun known (events.flatMap fragment)) {pre post : List CanonicalStreamEvent} {index : Nat}
    {arguments : String} (hsplit : events = pre ++ toolCallDelta index arguments :: post) :
    index ∈ known ∨ ∃ id name signature, toolCallStart index id name signature ∈ pre := by
  induction pre generalizing known events with
  | nil =>
    subst hsplit
    cases h with
    | first hbegins => exact absurd rfl hbegins
    | more hbegins hknown => exact .inl hknown
  | cons e pre ih =>
    subst hsplit
    cases e with
    | toolCallStart i id name signature =>
      cases h with
      | first hbegins hnew hrest =>
        rcases ih hrest rfl with hmem | ⟨id', name', signature', hmem⟩
        · rcases List.mem_cons.mp hmem with rfl | hmem
          · exact .inr ⟨id, name, signature, List.mem_cons_self⟩
          · exact .inl hmem
        · exact .inr ⟨id', name', signature', List.mem_cons_of_mem _ hmem⟩
      | more hbegins => cases hbegins
    | toolCallDelta i piece =>
      cases h with
      | first hbegins => exact absurd rfl hbegins
      | more hbegins hknown hrest =>
        rcases ih hrest rfl with hmem | ⟨id', name', signature', hmem⟩
        · exact .inl hmem
        · exact .inr ⟨id', name', signature', List.mem_cons_of_mem _ hmem⟩
    | _ =>
      have hrest := @ih known (pre ++ toolCallDelta index arguments :: post) h rfl
      rcases hrest with hmem | ⟨id', name', signature', hmem⟩
      · exact .inl hmem
      · exact .inr ⟨id', name', signature', List.mem_cons_of_mem _ hmem⟩

variable {message : ChoiceMessage} {chunks : List OpenAIChatStreamChunk}

theorem Cut.callsStarted (h : Cut message chunks) :
    CallsStarted ((deltasOf chunks).flatMap deltaEvents) := by
  intro pre index arguments post hsplit
  have hbegun : Begun [] (((deltasOf chunks).flatMap deltaEvents).flatMap fragment) := by
    rw [flatMap_fragment]
    exact begun_read h.begun
  rcases started_of_begun hbegun hsplit with hmem | hstart
  · cases hmem
  · exact hstart

/-- What a delta stands for: text, reasoning and calls. -/
theorem isBody_deltaEvents {d : Delta} {e : CanonicalStreamEvent} (he : e ∈ deltaEvents d) :
    (∃ t, e = textDelta t ∧ t ≠ "") ∨ (∃ t, e = thinkingDelta t ∧ t ≠ "") ∨
      (∃ index id name, e = toolCallStart index id name none) ∨
      ∃ index piece, e = toolCallDelta index piece := by
  rw [deltaEvents, List.mem_append, List.mem_append] at he
  rcases he with (he | he) | he
  · cases hcontent : d.content with
    | none => simp [hcontent, parseContent] at he
    | some text =>
      by_cases hempty : text = ""
      · simp [hcontent, parseContent, hempty] at he
      · simp only [hcontent, parseContent, hempty, if_false, List.mem_singleton] at he
        exact .inl ⟨text, he, hempty⟩
  · cases hreasoning : d.reasoningContent with
    | none => simp [hreasoning, parseReasoning] at he
    | some text =>
      by_cases hempty : text = ""
      · simp [hreasoning, parseReasoning, hempty] at he
      · simp only [hreasoning, parseReasoning, hempty, if_false, List.mem_singleton] at he
        exact .inr (.inl ⟨text, he, hempty⟩)
  · obtain ⟨tc, -, he⟩ := List.mem_flatMap.mp he
    rcases mem_parseToolCall he with ⟨id, name, rfl⟩ | rfl
    · exact .inr (.inr (.inl ⟨_, id, name, rfl⟩))
    · exact .inr (.inr (.inr ⟨_, _, rfl⟩))

/-- A start, what the deltas stand for, and the end. -/
theorem outputs_openAIChat (codec : JsonCodec) (w : World) (h : Cut message chunks) :
    ∃ id model reason usage, outputs (parseEvent codec) (.fresh w)
      (ReplyStream.openAIChat chunks).events =
        start id model :: (deltasOf chunks).flatMap deltaEvents ++ [done reason usage] := by
  have hnonempty := h.nonempty
  have hrun : ∀ us : List Upstream, outputs (parseEvent codec) (.fresh w)
      (us.map UpstreamEvent.openAIChat) = outputs parse (.fresh w) us :=
    fun us => congrArg Prod.fst (run_map (fun _ _ => rfl) us _)
  have hchunks : outputs parse (.fresh w) (chunks.map .chunk) =
      outputs parseChunk (.fresh w) chunks := congrArg Prod.fst (run_map (fun _ _ => rfl) chunks _)
  have hevents : (ReplyStream.openAIChat chunks).events =
      (chunks.map Upstream.chunk ++ [Upstream.done]).map UpstreamEvent.openAIChat := by
    simp [ReplyStream.events]
  rw [hevents, hrun, outputs_append, hchunks]
  cases chunks with
  | nil => exact absurd rfl hnonempty
  | cons chunk chunks =>
    rw [outputs_parseChunk_cons]
    exact ⟨_, _, _, _, rfl⟩

end OpenAIChat

end AnyConverter
