import AnyConverter.Converters.Reassembly.ClaudeCut
import AnyConverter.Lib.JsonText

/-!
# What a Claude stream says

A Claude stream is one message: `message_start`, its content blocks one after another, an optional
`message_delta`, and `message_stop`, with pings anywhere.  The reader answers with a start, the pieces
of the blocks in order, and one end.

* `run_block`: the events of one block, from any state;
* `read_message`: the whole message.
-/

set_option autoImplicit false

namespace AnyConverter.Claude

open Transducer CanonicalStreamEvent

/-! ## Messages on the wire -/

/-- A piece of a thinking block. -/
inductive ThinkingPiece where
  | thinking (thinking : String)
  | signature (signature : String)
  deriving DecidableEq

/-- A content block as it is streamed: empty when it starts, then piece by piece; what Anthropic
sealed comes whole. -/
inductive WireBlock where
  | text (pieces : List String)
  | thinking (signed : Bool) (pieces : List ThinkingPiece)
  | redactedThinking (raw : Value)
  | toolUse (id name : String) (input : Value) (pieces : List String)
  deriving DecidableEq

structure WireMessage where
  message : ClaudeStreamMessage
  blocks : List WireBlock
  /-- the `message_delta`, which some providers leave out -/
  last : Option (ClaudeMessageDelta × Option ClaudeStreamUsage)

def ThinkingPiece.delta : ThinkingPiece → ClaudeStreamDelta
  | thinking t => .thinkingDelta t
  | signature s => .signatureDelta s

namespace WireBlock

def opening (index : Nat) : WireBlock → Upstream
  | text _ => .contentBlockStart index (.text "")
  | thinking signed _ => .contentBlockStart index (.thinking "" (if signed then some "" else none))
  | redactedThinking raw => .sealedBlockStart index raw
  | toolUse id name input _ => .contentBlockStart index (.toolUse id name input)

def deltas : WireBlock → List ClaudeStreamDelta
  | text pieces => pieces.map .textDelta
  | thinking _ pieces => pieces.map ThinkingPiece.delta
  | redactedThinking _ => []
  | toolUse _ _ _ pieces => pieces.map .inputJsonDelta

def events (index : Nat) (block : WireBlock) : List Upstream :=
  block.opening index :: block.deltas.map (.contentBlockDelta index) ++ [.contentBlockStop]

end WireBlock

/-- The events of blocks, from an index on. -/
def blockEvents : Nat → List WireBlock → List Upstream
  | _, [] => []
  | index, block :: blocks => block.events index ++ blockEvents (index + 1) blocks

def WireMessage.events (m : WireMessage) : List Upstream :=
  .messageStart m.message :: blockEvents 0 m.blocks ++
    (m.last.toList.map fun p => .messageDelta p.1 p.2) ++ [.messageStop]

/-- The events of the wire are those of a message, and pings. -/
def Streams (codec : JsonCodec) (m : WireMessage) (events : List SseEvent) : Prop :=
  ∃ us, List.Forall₂ (fun event u => decode codec event = .ok u) events us ∧
    us.filter (· ≠ .ping) = m.events

/-! ## What a message says -/

def ThinkingPiece.said : ThinkingPiece → CanonicalStreamEvent
  | thinking t => thinkingDelta t
  | signature s => thinkingSignature .claude s

/-- A call, with the pieces of its arguments. -/
structure WireCall where
  id : String
  name : String
  pieces : List String

namespace WireBlock

/-- What a block says, behind `n` calls. -/
def said (n : Nat) : WireBlock → List CanonicalStreamEvent
  | text pieces => pieces.map textDelta
  | thinking _ pieces => pieces.map ThinkingPiece.said
  | redactedThinking raw => [sealedThinking .claude raw]
  | toolUse id name _ pieces => toolCallStart n id name none :: pieces.map (toolCallDelta n)

/-- The call of a block. -/
def call : WireBlock → Option WireCall
  | toolUse id name _ pieces => some ⟨id, name, pieces⟩
  | _ => none

end WireBlock

/-- What blocks say, behind `n` calls. -/
def blocksSaid : Nat → List WireBlock → List CanonicalStreamEvent
  | _, [] => []
  | n, block :: blocks => block.said n ++ blocksSaid (n + block.call.toList.length) blocks

namespace WireMessage

/-- The calls of a message, in order. -/
def calls (m : WireMessage) : List WireCall :=
  m.blocks.filterMap WireBlock.call

/-- The reason of the `message_delta`; without one, a message with a call ends for it. -/
def stopReason (m : WireMessage) : StopReason :=
  match m.last with
  | some (delta, _) => (delta.stopReason.map StopReason.fromClaude).getD .endTurn
  | none => if m.calls = [] then .endTurn else .toolUse

/-- The counts of the `message_start`, the output as the `message_delta` has it. -/
def usage (m : WireMessage) : Option Usage :=
  let started : Option Usage := m.message.usage.map fun u =>
    { inputTokens := u.inputTokens
      outputTokens := u.outputTokens
      cacheReadTokens := u.cacheReadInputTokens
      cacheWriteTokens := u.cacheCreationInputTokens }
  match m.last.bind Prod.snd with
  | some u => some { started.getD {} with outputTokens := u.outputTokens }
  | none => started

def said (m : WireMessage) : List CanonicalStreamEvent :=
  start m.message.id m.message.model :: blocksSaid 0 m.blocks ++ [done m.stopReason m.usage]

end WireMessage

/-! ## Reading a block -/

variable {codec : JsonCodec}

/-- The state behind a block. -/
def WireBlock.after (index : Nat) (s : AdapterState) : WireBlock → AdapterState
  | toolUse _ _ _ _ =>
    { s with blockIndex := index, toolCallIndex := s.toolCallIndex + 1, phase := .toolCalls }
  | _ => { s with blockIndex := index, phase := .content }

/-- Deltas that leave the state as it is. -/
theorem run_deltas_of_still {α : Type} {s : AdapterState} {index : Nat} {delta : α → ClaudeStreamDelta}
    {said : α → CanonicalStreamEvent}
    (hstill : ∀ a, parseContentBlockDelta s index (delta a) = ([said a], s)) (pieces : List α) :
    run parse s ((pieces.map delta).map (.contentBlockDelta index)) = (pieces.map said, s) := by
  induction pieces with
  | nil => rfl
  | cons a pieces ih =>
    have hfirst : parse s (.contentBlockDelta index (delta a)) = ([said a], s) := hstill a
    simp only [List.map_cons, run, hfirst, ih]
    rfl

/-- The events of one block, from any state. -/
theorem run_block (s : AdapterState) (index : Nat) (block : WireBlock) :
    run parse s (block.events index) = (block.said s.toolCallIndex, block.after index s) := by
  have hdeltas : ∀ said, (parse s (block.opening index)).2 = block.after index s →
      run parse (block.after index s) (block.deltas.map (.contentBlockDelta index)) =
        (said, block.after index s) →
      run parse s (block.events index) =
        ((parse s (block.opening index)).1 ++ said, block.after index s) := by
    intro said hafter hrun
    unfold WireBlock.events
    rw [run_append, outputs, final, run, hafter, hrun]
    exact Prod.ext (List.append_nil _) rfl
  cases block with
  | text pieces => exact hdeltas _ rfl (run_deltas_of_still (fun _ => rfl) pieces)
  | thinking signed pieces =>
    refine hdeltas _ rfl (run_deltas_of_still (fun piece => ?_) pieces)
    cases piece <;> rfl
  | redactedThinking raw => exact hdeltas [] rfl rfl
  | toolUse id name input pieces => exact hdeltas _ rfl (run_deltas_of_still (fun _ => rfl) pieces)

/-- What holds of the state behind some blocks. -/
structure Behind (n : Nat) (usage : Option Usage) (s : AdapterState) : Prop where
  calls : s.toolCallIndex = n
  usage : s.accumulatedUsage = usage
  open_ : s.phase ≠ .done
  toolCalls : s.phase = .toolCalls → 0 < n

theorem Behind.after {n : Nat} {usage : Option Usage} {s : AdapterState} (h : Behind n usage s)
    (index : Nat) (block : WireBlock) :
    Behind (n + block.call.toList.length) usage (block.after index s) := by
  cases block with
  | toolUse id name input pieces =>
    exact ⟨congrArg (· + 1) h.calls, h.usage, by simp [WireBlock.after], fun _ => Nat.succ_pos n⟩
  | text pieces | thinking signed pieces | redactedThinking raw =>
    exact ⟨h.calls, h.usage, by simp [WireBlock.after], by simp [WireBlock.after]⟩

theorem run_blocks {n : Nat} {usage : Option Usage} {s : AdapterState} (h : Behind n usage s)
    (index : Nat) (blocks : List WireBlock) :
    (run parse s (blockEvents index blocks)).1 = blocksSaid n blocks ∧
      Behind (n + (blocks.filterMap WireBlock.call).length) usage
        (run parse s (blockEvents index blocks)).2 := by
  induction blocks generalizing n s index with
  | nil => exact ⟨rfl, h⟩
  | cons block blocks ih =>
    obtain ⟨hsaid, hbehind⟩ := ih (h.after index block) (index + 1)
    have hcalls : ((block :: blocks).filterMap WireBlock.call).length =
        block.call.toList.length + (blocks.filterMap WireBlock.call).length := by
      rw [List.filterMap_cons]
      cases block.call with
      | none => simp
      | some c => simp [Nat.add_comm]
    rw [blockEvents, run_append, outputs, outputs, final, final, run_block, h.calls, hcalls,
      ← Nat.add_assoc]
    exact ⟨congrArg _ hsaid, hbehind⟩

/-! ## Reading a message -/

variable (m : WireMessage)

/-- The usage behind a `message_start`. -/
theorem behind_messageStart (w : World) :
    (parse (.fresh w) (.messageStart m.message)).1 = [start m.message.id m.message.model] ∧
    Behind 0 (m.message.usage.map fun u =>
      { inputTokens := u.inputTokens
        outputTokens := u.outputTokens
        cacheReadTokens := u.cacheReadInputTokens
        cacheWriteTokens := u.cacheCreationInputTokens })
      (parse (.fresh w) (.messageStart m.message)).2 := by
  obtain ⟨⟨id, model, usage⟩, blocks, last⟩ := m
  cases usage with
  | none => exact ⟨rfl, rfl, rfl, nofun, nofun⟩
  | some usage => exact ⟨rfl, rfl, rfl, nofun, nofun⟩

/-- The end of a message, with or without a `message_delta`. -/
theorem outputs_end {n : Nat} {usage : Option Usage} {s : AdapterState} (h : Behind n usage s)
    (last : Option (ClaudeMessageDelta × Option ClaudeStreamUsage)) :
    outputs parse s ((last.toList.map fun p => .messageDelta p.1 p.2) ++ [.messageStop]) =
      match last with
      | some (delta, counts) =>
        [done ((delta.stopReason.map StopReason.fromClaude).getD .endTurn) (mergeUsage usage counts)]
      | none => [done (if n = 0 then .endTurn else .toolUse) usage] := by
  cases last with
  | some p =>
    obtain ⟨delta, counts⟩ := p
    simp [parse, parseMessageDelta, parseMessageStop, h.usage]
  | none =>
    have hcall : (s.phase = .toolCalls ∨ 0 < s.toolCallIndex) ↔ 0 < n := by
      rw [h.calls]
      exact or_iff_right_of_imp h.toolCalls
    have hreason : (if s.phase = .toolCalls ∨ 0 < s.toolCallIndex then StopReason.toolUse
        else .endTurn) = if n = 0 then .endTurn else .toolUse := by
      rw [if_congr hcall rfl rfl]
      split <;> split <;> first | rfl | omega
    show (parseMessageStop s).1 ++ [] = _
    unfold parseMessageStop
    rw [if_neg h.open_, hreason, h.usage]
    rfl

/-- The whole message. -/
theorem outputs_message (w : World) : outputs parse (.fresh w) m.events = m.said := by
  obtain ⟨hstart, hbehind⟩ := behind_messageStart m w
  obtain ⟨hblocks, hend⟩ := run_blocks hbehind 0 m.blocks
  have hlast := outputs_end hend m.last
  unfold WireMessage.events
  rw [List.append_assoc, List.cons_append, outputs_cons, hstart, outputs_append, outputs, hblocks,
    final, hlast]
  unfold WireMessage.said WireMessage.stopReason WireMessage.usage
  rw [Nat.zero_add]
  cases hm : m.last with
  | none =>
    simp [WireMessage.calls]
  | some p =>
    obtain ⟨delta, counts⟩ := p
    cases counts <;> rfl

/-- Events that decode are read as what they decode to. -/
theorem runAll_parseStream {events : List SseEvent} {us : List Upstream}
    (h : List.Forall₂ (fun event u => decode codec event = .ok u) events us) (s : AdapterState) :
    runAll (parseStream codec .claude) s events = (.ok (outputs parse s us), final parse s us) := by
  refine runAll_of_steps (h.imp fun event u hdecode s => ?_) s
  show decodeThen (decode codec event) s (parse s) = _
  rw [hdecode]
  rfl

/-! ## The calls of a message -/

theorem startOf_said (n : Nat) (block : WireBlock) :
    (block.said n).filterMap startOf = block.call.toList.map fun c => (n, c.id, c.name) := by
  cases block with
  | text pieces => simp [WireBlock.said, WireBlock.call, startOf]
  | thinking signed pieces =>
    refine List.filterMap_eq_nil_iff.mpr fun e he => ?_
    obtain ⟨piece, -, rfl⟩ := List.mem_map.mp he
    cases piece <;> rfl
  | redactedThinking raw => rfl
  | toolUse id name input pieces => simp [WireBlock.said, WireBlock.call, startOf]

theorem pieceOf_said (n index : Nat) (block : WireBlock) :
    (block.said n).filterMap (pieceOf index) =
      if index = n then block.call.toList.flatMap WireCall.pieces else [] := by
  have hnone : (∀ e ∈ block.said n, pieceOf index e = none) → block.call = none →
      (block.said n).filterMap (pieceOf index) =
        if index = n then block.call.toList.flatMap WireCall.pieces else [] := by
    intro h hcall
    rw [List.filterMap_eq_nil_iff.mpr h, hcall]
    simp
  cases block with
  | text pieces =>
    refine hnone (fun e he => ?_) rfl
    obtain ⟨piece, -, rfl⟩ := List.mem_map.mp he
    rfl
  | thinking signed pieces =>
    refine hnone (fun e he => ?_) rfl
    obtain ⟨piece, -, rfl⟩ := List.mem_map.mp he
    cases piece <;> rfl
  | redactedThinking raw =>
    refine hnone (fun e he => ?_) rfl
    obtain rfl := List.mem_singleton.mp he
    rfl
  | toolUse id name input pieces =>
    have hpieces : ∀ ps : List String, (ps.map (toolCallDelta n)).filterMap (pieceOf index) =
        if index = n then ps else [] := by
      intro ps
      rw [List.filterMap_map]
      by_cases hindex : index = n
      · simp [pieceOf, hindex]
      · simp [pieceOf, Function.comp_def, hindex, Ne.symm hindex]
    show ((pieces.map (toolCallDelta n)).filterMap (pieceOf index)) = _
    rw [hpieces]
    simp [WireBlock.call]

/-- The calls start in order, under consecutive indices. -/
theorem starts_blocksSaid (n : Nat) (blocks : List WireBlock) :
    (blocksSaid n blocks).filterMap startOf =
      (blocks.filterMap WireBlock.call).mapIdx fun i c => (n + i, c.id, c.name) := by
  induction blocks generalizing n with
  | nil => rfl
  | cons block blocks ih =>
    rw [blocksSaid, List.filterMap_append, startOf_said, ih, List.filterMap_cons]
    cases block.call with
    | none => simp
    | some c => simp [List.mapIdx_cons, Nat.add_assoc, Nat.add_comm 1]

theorem pieces_blocksSaid_of_lt {n index : Nat} (h : index < n) (blocks : List WireBlock) :
    (blocksSaid n blocks).filterMap (pieceOf index) = [] := by
  induction blocks generalizing n with
  | nil => rfl
  | cons block blocks ih =>
    rw [blocksSaid, List.filterMap_append, pieceOf_said, if_neg (by omega), ih (by omega)]
    rfl

/-- The pieces under an index are those of its call. -/
theorem pieces_blocksSaid (n : Nat) (blocks : List WireBlock) {i : Nat} {c : WireCall}
    (h : (blocks.filterMap WireBlock.call)[i]? = some c) :
    (blocksSaid n blocks).filterMap (pieceOf (n + i)) = c.pieces := by
  induction blocks generalizing n i with
  | nil => simp at h
  | cons block blocks ih =>
    rw [List.filterMap_cons] at h
    rw [blocksSaid, List.filterMap_append, pieceOf_said]
    cases hcall : block.call with
    | none =>
      rw [hcall] at h
      have hrest := ih n h
      simp [hrest]
    | some c' =>
      rw [hcall] at h
      cases i with
      | zero =>
        obtain rfl : c' = c := by simpa using h
        simp [pieces_blocksSaid_of_lt]
      | succ i =>
        have hrest := ih (n + 1) (by simpa using h)
        rw [Nat.add_assoc, Nat.add_comm 1] at hrest
        simp [hrest]

/-- A stream is read as its message: a start, the pieces of its blocks in order, and one end; its
calls start under consecutive indices, and all their arguments come under their own. -/
theorem read_message (codec : JsonCodec) (w : World) (m : WireMessage) (events : List SseEvent)
    (h : Streams codec m events) :
    (runAll (parseStream codec .claude) (.fresh w) events).1 = .ok m.said ∧
    m.said.filterMap startOf = m.calls.mapIdx (fun i c => (i, c.id, c.name)) ∧
    ∀ i c, m.calls[i]? = some c → m.said.filterMap (pieceOf i) = c.pieces := by
  obtain ⟨us, hdecode, hus⟩ := h
  have hping : outputs parse (.fresh w) us = outputs parse (.fresh w) m.events := by
    rw [← hus]
    exact (congrArg Prod.fst (run_filter_ping us _)).symm
  refine ⟨?_, ?_, fun i c hc => ?_⟩
  · rw [runAll_parseStream hdecode, hping, outputs_message]
  · have hstarts := starts_blocksSaid 0 m.blocks
    simp only [Nat.zero_add] at hstarts
    unfold WireMessage.said
    rw [List.filterMap_append, List.filterMap_cons_none rfl, hstarts]
    exact List.append_nil _
  · have hpieces := pieces_blocksSaid 0 m.blocks hc
    rw [Nat.zero_add] at hpieces
    unfold WireMessage.said
    rw [List.filterMap_append, List.filterMap_cons_none rfl, hpieces]
    exact List.append_nil _

/-- An event with a payload. -/
def wired (name : String) (fields : List (String × Value)) : SseEvent :=
  ⟨some name, JsonText.compactCodec.toText (.object (("type", .string name) :: fields))⟩

theorem decode_wired_delta {fields : List (String × Value)} {index : Nat} {delta : ClaudeStreamDelta}
    (h : contentBlockDeltaOfValue (.object (("type", .string "content_block_delta") :: fields)) =
      some (index, delta)) :
    decode JsonText.compactCodec (wired "content_block_delta" fields) =
      .ok (.contentBlockDelta index delta) := by
  unfold wired decode readPayload
  simp only [JsonText.compactCodec_decode, h]
  rfl

theorem decode_wired_start {fields : List (String × Value)} {index : Nat}
    {block : ClaudeStreamContentBlock}
    (hsealed : sealedBlock (.object (("type", .string "content_block_start") :: fields)) = none)
    (h : contentBlockStartOfValue (.object (("type", .string "content_block_start") :: fields)) =
      some (index, block)) :
    decode JsonText.compactCodec (wired "content_block_start" fields) =
      .ok (.contentBlockStart index block) := by
  unfold wired decode decodeContentBlockStart
  simp only [JsonText.compactCodec_lawful.read_print, hsealed, h]
  rfl

theorem decode_wired_message {fields : List (String × Value)} {message : ClaudeStreamMessage}
    (h : messageStartOfValue (.object (("type", .string "message_start") :: fields)) = some message) :
    decode JsonText.compactCodec (wired "message_start" fields) = .ok (.messageStart message) := by
  unfold wired decode readPayload
  simp only [JsonText.compactCodec_decode, h]
  rfl

/-- A sentence, a ping, and a call in two pieces, without a `message_delta`. -/
def weatherEvents : List SseEvent :=
  [wired "message_start" [("message", .object [("id", .string "msg_1"), ("model", .string "m"),
      ("usage", .object [("input_tokens", .nat 10), ("output_tokens", .nat 1)])])],
    wired "content_block_start" [("index", .nat 0),
      ("content_block", .object [("type", .string "text"), ("text", .string "")])],
    ⟨some "ping", ""⟩,
    wired "content_block_delta" [("index", .nat 0),
      ("delta", .object [("type", .string "text_delta"), ("text", .string "Let me look.")])],
    ⟨some "content_block_stop", ""⟩,
    wired "content_block_start" [("index", .nat 1),
      ("content_block", .object [("type", .string "tool_use"), ("id", .string "toolu_1"),
        ("name", .string "weather"), ("input", .object [])])],
    wired "content_block_delta" [("index", .nat 1),
      ("delta", .object [("type", .string "input_json_delta"), ("partial_json", .string "\x7b")])],
    wired "content_block_delta" [("index", .nat 1),
      ("delta", .object [("type", .string "input_json_delta"), ("partial_json", .string "\x7d")])],
    ⟨some "content_block_stop", ""⟩,
    ⟨some "message_stop", ""⟩]

def weather : WireMessage where
  message := ⟨"msg_1", "m", some { inputTokens := 10, outputTokens := 1 }⟩
  blocks := [.text ["Let me look."], .toolUse "toolu_1" "weather" (.object []) ["\x7b", "\x7d"]]
  last := none

theorem weather_streams : Streams JsonText.compactCodec weather weatherEvents := by
  refine ⟨[.messageStart weather.message, .contentBlockStart 0 (.text ""), .ping,
    .contentBlockDelta 0 (.textDelta "Let me look."), .contentBlockStop,
    .contentBlockStart 1 (.toolUse "toolu_1" "weather" (.object [])),
    .contentBlockDelta 1 (.inputJsonDelta "\x7b"), .contentBlockDelta 1 (.inputJsonDelta "\x7d"),
    .contentBlockStop, .messageStop], ?_, by decide⟩
  exact .cons (decode_wired_message rfl) <| .cons (decode_wired_start rfl rfl) <| .cons rfl <|
    .cons (decode_wired_delta rfl) <| .cons rfl <| .cons (decode_wired_start rfl rfl) <|
    .cons (decode_wired_delta rfl) <| .cons (decode_wired_delta rfl) <| .cons rfl <| .cons rfl .nil

theorem read_message_weather :
    (runAll (parseStream JsonText.compactCodec .claude) (.fresh .counting) weatherEvents).1 =
      .ok weather.said ∧
    weather.said.filterMap startOf = [(0, "toolu_1", "weather")] ∧
    weather.said.filterMap (pieceOf 0) = ["\x7b", "\x7d"] := by
  obtain ⟨hread, hstarts, hpieces⟩ := read_message _ .counting weather _ weather_streams
  exact ⟨hread, hstarts, hpieces 0 _ rfl⟩

end AnyConverter.Claude
