import AnyConverter.Converters.Stream
import AnyConverter.Formats.OpenAIChat.ChunkText
import AnyConverter.Lib.JsonText

/-!
# A Chat stream written and read back

The writer makes a chunk of each piece of a reply, and a finishing chunk and the sentinel of its end;
the reader ends the reply at the sentinel, with what the finishing chunk told.

* `emit_piece`, `parse_piece`: one piece, written and read;
* `read_written`: a whole reply.
-/

set_option autoImplicit false

namespace AnyConverter.OpenAIChat

open Transducer CanonicalStreamEvent

/-! ## Pieces of a reply -/

/-- Text, thinking and arguments that are not empty, and calls; an index is a `u32`. -/
def IsPiece : CanonicalStreamEvent → Prop
  | textDelta text => text ≠ ""
  | thinkingDelta thinking => thinking ≠ ""
  | toolCallStart index _ _ _ => index < 2 ^ 32
  | toolCallDelta index arguments => arguments ≠ "" ∧ index < 2 ^ 32
  | _ => False

/-- A call without its thought signature, for which Chat has no field. -/
def unsigned : CanonicalStreamEvent → CanonicalStreamEvent
  | toolCallStart index id name _ => toolCallStart index id name none
  | e => e

/-- The delta a piece is written as. -/
def pieceDelta : CanonicalStreamEvent → Delta
  | textDelta text => { content := some text }
  | thinkingDelta thinking => { reasoningContent := some thinking }
  | toolCallStart index id name _ => { toolCalls := some [{
      index := index, id := some id, type := some "function", function := some { name := some name } }] }
  | toolCallDelta index arguments => { toolCalls := some [{
      index := index, function := some { arguments := some arguments } }] }
  | _ => {}

theorem pieceDelta_fits {e : CanonicalStreamEvent} (h : IsPiece e) : (pieceDelta e).Fits := by
  cases e with
  | toolCallStart index id name signature => simpa [Delta.Fits, pieceDelta, IsPiece] using h
  | toolCallDelta index arguments => simpa [Delta.Fits, pieceDelta] using h.2
  | _ => simp [Delta.Fits, pieceDelta]

/-! ## Writing -/

/-- The clock of a state tells `u64`s. -/
def Clocked (s : AdapterState) : Prop := ∀ n, s.world.now n < 2 ^ 64

/-- A chunk with one choice, as the writer makes them. -/
structure Carries (c : OpenAIChatStreamChunk) (delta : Delta) (finishReason : Option String)
    (usage : Option OpenAIUsage) : Prop where
  created : c.created < 2 ^ 64
  choices : c.choices = [⟨0, delta, finishReason⟩]
  usage : c.usage = usage

theorem Carries.fits {c : OpenAIChatStreamChunk} {delta : Delta} {finishReason : Option String}
    {usage : Option OpenAIUsage} (h : Carries c delta finishReason usage) (hdelta : delta.Fits)
    (husage : ∀ u, usage = some u → u.Fits) : c.Fits := by
  refine ⟨h.created, fun choice hchoice => ?_, fun u hu => husage u (h.usage ▸ hu)⟩
  rw [h.choices] at hchoice
  obtain rfl := List.mem_singleton.mp hchoice
  exact ⟨Nat.two_pow_pos 32, hdelta⟩

theorem normalizeIdToChat_now (w : World) (id : String) : (normalizeIdToChat w id).2.now = w.now := by
  unfold normalizeIdToChat normalizeIdWith
  split <;> rfl

theorem streamIds_now (s : AdapterState) : (streamIds s).2.world.now = s.world.now := by
  unfold streamIds
  cases s.responseId with
  | none => rfl
  | some id => exact normalizeIdToChat_now s.world id

/-- A piece is one chunk. -/
theorem emit_piece {s : AdapterState} (hs : Clocked s) {e : CanonicalStreamEvent} (h : IsPiece e) :
    ∃ c, (emit s e).1 = [.chunk c] ∧ Carries c (pieceDelta e) none none ∧ Clocked (emit s e).2 := by
  have hdelta : ∀ delta, ∃ c, (emitDelta s delta).1 = [.chunk c] ∧ Carries c delta none none ∧
      Clocked (emitDelta s delta).2 := by
    intro delta
    have hclock : Clocked (streamIds s).2 := by
      intro n
      rw [streamIds_now]
      exact hs n
    exact ⟨_, rfl, ⟨hclock _, rfl, rfl⟩, hclock⟩
  cases e with
  | textDelta text => exact hdelta _
  | thinkingDelta thinking => exact hdelta _
  | toolCallStart index id name signature => exact hdelta _
  | toolCallDelta index arguments => exact hdelta _
  | _ => exact absurd h id

theorem emit_start {s : AdapterState} (hs : Clocked s) (id model : String) :
    ∃ c, (emit s (start id model)).1 = [.chunk c] ∧ c.id = id ∧ c.model = model ∧
      Carries c { role := some "assistant" } none none ∧ Clocked (emit s (start id model)).2 :=
  ⟨_, rfl, rfl, rfl, ⟨hs _, rfl, rfl⟩, hs⟩

/-- The end is a finishing chunk and the sentinel. -/
theorem emit_done {s : AdapterState} (hs : Clocked s) (reason : StopReason) (usage : Option Usage) :
    ∃ c, (emit s (done reason usage)).1 = [.chunk c, .done] ∧
      Carries c {} (some reason.toOpenAIChat) (usage.map doneUsage) := by
  refine ⟨_, rfl, ?_, rfl, rfl⟩
  show (streamIds s).2.world.now _ < 2 ^ 64
  rw [streamIds_now]
  exact hs _

/-! ## Reading -/

/-- What holds of the reader's state within a reply. -/
structure Reading (s : AdapterState) : Prop where
  started : s.responseId ≠ none
  finishReason : s.finishReason = none
  usage : s.accumulatedUsage = none
  toolCalls : s.accumulatedToolCalls = []

theorem parseIds_of_started {s : AdapterState} (h : s.responseId ≠ none) (c : OpenAIChatStreamChunk) :
    parseIds s c = ([], s) := by
  unfold parseIds
  cases hid : s.responseId with
  | none => exact absurd hid h
  | some id => rfl

/-- A chunk of one choice, within a reply. -/
theorem parse_carries {s : AdapterState} (hs : Reading s) {c : OpenAIChatStreamChunk} {delta : Delta}
    {finishReason : Option String} {usage : Option OpenAIUsage}
    (h : Carries c delta finishReason usage) :
    parse s (.chunk c) = parseChoice (parseUsage s usage) ⟨0, delta, finishReason⟩ := by
  show parseChunk s c = _
  unfold parseChunk
  rw [parseIds_of_started hs.started, h.choices, h.usage]
  simp [run]

/-- A piece is read as itself, without a thought signature. -/
theorem parse_piece {s : AdapterState} (hs : Reading s) {e : CanonicalStreamEvent} (he : IsPiece e)
    {c : OpenAIChatStreamChunk} (h : Carries c (pieceDelta e) none none) :
    (parse s (.chunk c)).1 = [unsigned e] ∧ Reading (parse s (.chunk c)).2 := by
  obtain ⟨hstarted, hreason, husage, hcalls⟩ := hs
  rw [parse_carries ⟨hstarted, hreason, husage, hcalls⟩ h]
  cases e with
  | textDelta text =>
    have htext : text ≠ "" := he
    simp only [parseChoice, pieceDelta, parseContent, if_neg htext, parseUsage]
    exact ⟨rfl, hstarted, hreason, husage, hcalls⟩
  | thinkingDelta thinking =>
    have hthinking : thinking ≠ "" := he
    simp only [parseChoice, pieceDelta, parseReasoning, if_neg hthinking, parseUsage]
    exact ⟨rfl, hstarted, hreason, husage, hcalls⟩
  | toolCallStart index id name signature => exact ⟨rfl, hstarted, hreason, husage, hcalls⟩
  | toolCallDelta index arguments =>
    have harguments : arguments ≠ "" := he.1
    refine ⟨?_, hstarted, hreason, husage, hcalls⟩
    show [] ++ [] ++ [{ index := index, function := some { arguments := some arguments } }].flatMap
      parseToolCall = [toolCallDelta index arguments]
    simp [parseToolCall, toolCallStartOf, toolCallDeltaOf, harguments]
  | _ => exact absurd he id

/-- The first chunk starts the reply. -/
theorem parse_start (w : World) {c : OpenAIChatStreamChunk}
    (h : Carries c { role := some "assistant" } none none) :
    (parse (.fresh w) (.chunk c)).1 = [start c.id c.model] ∧
      Reading (parse (.fresh w) (.chunk c)).2 := by
  show (parseChunk (.fresh w) c).1 = _ ∧ Reading (parseChunk (.fresh w) c).2
  unfold parseChunk
  rw [h.choices, h.usage]
  exact ⟨rfl, nofun, rfl, rfl, rfl⟩

/-- The reason as Chat tells it: a stop sequence is an end like others. -/
def toldReason : StopReason → StopReason
  | .stopSequence => .endTurn
  | reason => reason

theorem fromOpenAIChat_toOpenAIChat (reason : StopReason) :
    StopReason.fromOpenAIChat reason.toOpenAIChat = toldReason reason := by
  cases reason <;> rfl

/-- The counts of a usage that Chat tells. -/
def toldUsage (u : Usage) : Usage := chunkUsage (doneUsage u)

/-- The finishing chunk and the sentinel end the reply. -/
theorem outputs_end {s : AdapterState} (hs : Reading s) {c : OpenAIChatStreamChunk}
    {reason : StopReason} {usage : Option Usage}
    (h : Carries c {} (some reason.toOpenAIChat) (usage.map doneUsage)) :
    outputs parse s [.chunk c, .done] = [done (toldReason reason) (usage.map toldUsage)] := by
  rw [outputs_cons, outputs_cons, outputs_nil, parse_carries hs h]
  have hreason := fromOpenAIChat_toOpenAIChat reason
  cases usage with
  | none =>
    show [] ++ ([done (if s.accumulatedToolCalls ≠ [] then .toolUse
      else StopReason.fromOpenAIChat reason.toOpenAIChat) s.accumulatedUsage] ++ []) = _
    rw [hs.toolCalls, hs.usage, hreason]
    simp
  | some u =>
    show [] ++ ([done (if s.accumulatedToolCalls ≠ [] then .toolUse
      else StopReason.fromOpenAIChat reason.toOpenAIChat) (some (toldUsage u))] ++ []) = _
    rw [hs.toolCalls, hreason]
    simp

/-! ## A whole reply -/

/-- What is written for the pieces of a reply is read as these. -/
theorem read_pieces {body : List CanonicalStreamEvent} (hbody : ∀ e ∈ body, IsPiece e)
    {s t : AdapterState} (hs : Clocked s) (ht : Reading t) :
    (∀ e ∈ outputs emit s body, ∀ c, e = .chunk c → c.Fits) ∧ Clocked (final emit s body) ∧
    outputs parse t ((outputs emit s body).map StreamEvent.received) = body.map unsigned ∧
    Reading (final parse t ((outputs emit s body).map StreamEvent.received)) := by
  induction body generalizing s t with
  | nil => exact ⟨by simp, hs, rfl, ht⟩
  | cons e body ih =>
    have he := hbody e List.mem_cons_self
    obtain ⟨c, hemit, hcarries, hclock⟩ := emit_piece hs he
    obtain ⟨hparse, hreading⟩ := parse_piece ht he hcarries
    obtain ⟨hfits, hfinal, hout, hend⟩ :=
      ih (fun e' hmem => hbody e' (List.mem_cons_of_mem e hmem)) hclock hreading
    rw [outputs_cons, final_cons, hemit]
    refine ⟨fun e' hmem c' heq => ?_, hfinal, ?_, hend⟩
    · rcases List.mem_append.mp hmem with hmem | hmem
      · obtain rfl := StreamEvent.chunk.inj (heq.symm.trans (List.mem_singleton.mp hmem))
        exact hcarries.fits (pieceDelta_fits he) nofun
      · exact hfits e' hmem c' heq
    · show (parse t (.chunk c)).1 ++ outputs parse (parse t (.chunk c)).2
        ((outputs emit (emit s e).2 body).map StreamEvent.received) = _
      rw [hparse, hout]
      rfl

/-- Events that decode are read as what they decode to. -/
theorem runAll_parseStream {codec : JsonCodec} {events : List SseEvent} {us : List Upstream}
    (h : List.Forall₂ (fun event u => decode codec event = .ok u) events us) (s : AdapterState) :
    runAll (parseStream codec .openAIChat) s events = (.ok (outputs parse s us), final parse s us) := by
  refine runAll_of_steps (h.imp fun event u hdecode s => ?_) s
  show decodeThen (decode codec event) s (parse s) = _
  rw [hdecode]
  rfl

/-- Written events are read line by line as what they are. -/
theorem decode_written {codec : JsonCodec} (hcodec : codec.Lawful) (hline : codec.OneLine)
    {written : List StreamEvent} (h : ∀ e ∈ written, ∀ c, e = .chunk c → c.Fits) :
    ∃ events, written.mapM (fun e => parseSseBlock (e.toText codec)) = some events ∧
      List.Forall₂ (fun event u => decode codec event = .ok u) events
        (written.map StreamEvent.received) := by
  induction written with
  | nil => exact ⟨[], rfl, .nil⟩
  | cons e written ih =>
    obtain ⟨event, hblock, hdecode⟩ := decode_toText hcodec hline (h e List.mem_cons_self)
    obtain ⟨events, hblocks, hdecodes⟩ := ih fun e' hmem => h e' (List.mem_cons_of_mem e hmem)
    refine ⟨event :: events, ?_, .cons hdecode hdecodes⟩
    rw [List.mapM_cons, hblock, hblocks]
    rfl

/-- What is read of the chunks written for a reply. -/
theorem events_read {codec : JsonCodec} (hcodec : codec.Lawful) (hline : codec.OneLine) {w : World}
    (w' : World) (hclock : ∀ n, w.now n < 2 ^ 64) (id model : String)
    {body : List CanonicalStreamEvent} (hbody : ∀ e ∈ body, IsPiece e) (reason : StopReason)
    {usage : Option Usage}
    (hcounts : ∀ u, usage = some u → u.inputTokens < 2 ^ 64 ∧ u.outputTokens < 2 ^ 64) :
    ∃ events,
      (outputs emit (.fresh w) (start id model :: body ++ [done reason usage])).mapM
          (fun e => parseSseBlock (e.toText codec)) = some events ∧
      (runAll (parseStream codec .openAIChat) (.fresh w') events).1 = .ok (start id model ::
        body.map unsigned ++ [done (toldReason reason) (usage.map toldUsage)]) := by
  obtain ⟨first, hfirst, rfl, rfl, hcarries, hclocked⟩ := @emit_start (.fresh w) hclock id model
  obtain ⟨hstart, hreading⟩ := parse_start w' hcarries
  obtain ⟨hfits, hfinal, hout, hend⟩ := read_pieces hbody hclocked hreading
  obtain ⟨last, hlast, hfinish⟩ := emit_done hfinal reason usage
  have hwritten : outputs emit (.fresh w) (start first.id first.model :: body ++ [done reason usage]) =
      .chunk first :: outputs emit (emit (.fresh w) (start first.id first.model)).2 body ++
        [.chunk last, .done] := by
    rw [outputs_append, outputs_cons, final_cons, outputs_cons, outputs_nil, hfirst, hlast]
    rfl
  rw [hwritten]
  have hread : ∀ e ∈ (.chunk first :: outputs emit (emit (.fresh w) (start first.id first.model)).2 body ++
      [.chunk last, .done] : List StreamEvent), ∀ c, e = .chunk c → c.Fits := by
    intro e hmem c heq
    subst heq
    simp only [List.cons_append, List.mem_cons, List.mem_append, StreamEvent.chunk.injEq,
      reduceCtorEq, List.not_mem_nil, or_false] at hmem
    rcases hmem with rfl | hmem | rfl
    · exact hcarries.fits (by simp [Delta.Fits]) nofun
    · exact hfits _ hmem c rfl
    · refine hfinish.fits (by simp [Delta.Fits]) fun u hu => ?_
      obtain ⟨v, hv, rfl⟩ := Option.map_eq_some_iff.mp hu
      obtain ⟨hinput, houtput⟩ := hcounts v hv
      exact ⟨hinput, houtput, Nat.mod_lt _ (Nat.two_pow_pos 64), nofun⟩
  obtain ⟨events, hblocks, hdecodes⟩ := decode_written hcodec hline hread
  refine ⟨events, hblocks, ?_⟩
  rw [runAll_parseStream hdecodes, List.map_append, List.map_cons, outputs_append]
  show Except.ok ((parse (.fresh w') (.chunk first)).1 ++ outputs parse (parse (.fresh w')
    (.chunk first)).2 _ ++ outputs parse (final parse (parse (.fresh w') (.chunk first)).2 _)
    [.chunk last, .done]) = _
  rw [hstart, hout, outputs_end hend hfinish]
  rfl

/-- The chunks written for a reply are read, line by line, as the reply: the same start and pieces, but
for thought signatures, and one end with the same counts. -/
theorem read_written (codec : JsonCodec) (hcodec : codec.Lawful) (hline : codec.OneLine)
    (w w' : World) (hclock : ∀ n, w.now n < 2 ^ 64) (id model : String)
    (body : List CanonicalStreamEvent) (hbody : ∀ e ∈ body, IsPiece e) (reason : StopReason)
    (usage : Option Usage)
    (hcounts : ∀ u, usage = some u → u.inputTokens < 2 ^ 64 ∧ u.outputTokens < 2 ^ 64) :
    ∃ events,
      (outputs emit (.fresh w) (start id model :: body ++ [done reason usage])).mapM
          (fun e => parseSseBlock (e.toText codec)) = some events ∧
      ∃ told : Option Usage,
        (runAll (parseStream codec .openAIChat) (.fresh w') events).1 =
          .ok (start id model :: body.map unsigned ++ [done (toldReason reason) told]) ∧
        told.map (fun u => (u.inputTokens, u.outputTokens)) =
          usage.map fun u => (u.inputTokens, u.outputTokens) := by
  obtain ⟨events, hblocks, hread⟩ := events_read hcodec hline w' hclock id model hbody reason hcounts
  refine ⟨events, hblocks, usage.map toldUsage, hread, ?_⟩
  rw [Option.map_map]
  rfl

/-- A thought and a search. -/
def searched : List CanonicalStreamEvent :=
  [thinkingDelta "Hm.", textDelta "Let me look.", toolCallStart 0 "call_1" "search" (some "sig"),
    toolCallDelta 0 "\x7b\x7d"]

theorem searched_pieces : ∀ e ∈ searched, IsPiece e := by
  simp [searched, IsPiece]

theorem read_written_searched :
    ∃ events,
      (outputs emit (.fresh .counting) (start "msg_1" "m" :: searched ++
          [done .stopSequence (some { inputTokens := 3, outputTokens := 4 })])).mapM
          (fun e => parseSseBlock (e.toText JsonText.compactCodec)) = some events ∧
      ∃ told : Option Usage,
        (runAll (parseStream JsonText.compactCodec .openAIChat) (.fresh .counting) events).1 =
          .ok (start "msg_1" "m" :: searched.map unsigned ++ [done (toldReason .stopSequence) told]) ∧
        told.map (fun u => (u.inputTokens, u.outputTokens)) = some (3, 4) :=
  read_written _ JsonText.compactCodec_lawful JsonText.compactCodec_oneLine _ .counting
    (fun _ => Nat.two_pow_pos 64) "msg_1" "m" searched searched_pieces .stopSequence
    (some { inputTokens := 3, outputTokens := 4 }) (fun u hu => by
      obtain rfl := Option.some.inj hu
      exact ⟨by decide, by decide⟩)

/-- The signature of a call is gone. -/
theorem signature_lost : ∃ events,
    (outputs emit (.fresh .counting) (start "msg_1" "m" :: searched ++ [done .toolUse none])).mapM
        (fun e => parseSseBlock (e.toText JsonText.compactCodec)) = some events ∧
    (runAll (parseStream JsonText.compactCodec .openAIChat) (.fresh .counting) events).1 =
      .ok [start "msg_1" "m", thinkingDelta "Hm.", textDelta "Let me look.",
        toolCallStart 0 "call_1" "search" none, toolCallDelta 0 "\x7b\x7d", done .toolUse none] :=
  events_read JsonText.compactCodec_lawful JsonText.compactCodec_oneLine .counting
    (fun _ => Nat.two_pow_pos 64) "msg_1" "m" searched_pieces .toolUse nofun

end AnyConverter.OpenAIChat
