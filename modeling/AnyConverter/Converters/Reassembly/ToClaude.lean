import AnyConverter.Converters.Reassembly.Streamed

/-!
# Claude clients of a stream

The Claude writer opens one block for text and thinking and takes its index again for the first
call; a piece of arguments goes to the block that was opened last, whatever its call.

* `assemble_calls`: with calls, a client has the calls in turn and nothing else;
* `assemble_said`: without, it has the kind of text that came first.
-/

set_option autoImplicit false

namespace AnyConverter.Claude

open Transducer CanonicalStreamEvent
open OpenAIChat (StreamToolCall collectStep fragment)
open OpenAIResponses (IsBody textOf)

/-! ## Blocks under their indices -/

theorem openBlock_above {index : Nat} {blocks : List (Nat × StreamedBlock)}
    (h : ∀ p ∈ blocks, p.1 < index) (block : OpenedBlock) :
    openBlock index block blocks = blocks ++ [(index, ⟨block, ""⟩)] := by
  induction blocks with
  | nil => rfl
  | cons p blocks ih =>
    have hp : p.1 < index := h p List.mem_cons_self
    have hrest := ih fun q hq => h q (List.mem_cons_of_mem _ hq)
    rw [openBlock, if_neg (by omega), if_neg (by omega), hrest]
    rfl

theorem extendBlock_absent {index : Nat} {blocks : List (Nat × StreamedBlock)}
    (h : ∀ p ∈ blocks, p.1 ≠ index) (delta : BlockDelta) :
    extendBlock index delta blocks = blocks := by
  induction blocks with
  | nil => rfl
  | cons p blocks ih =>
    have hp : index ≠ p.1 := Ne.symm (h p List.mem_cons_self)
    rw [extendBlock, if_neg hp, ih fun q hq => h q (List.mem_cons_of_mem _ hq)]

theorem extendBlock_last {index : Nat} {blocks : List (Nat × StreamedBlock)}
    (h : ∀ p ∈ blocks, p.1 ≠ index) (block : StreamedBlock) (delta : BlockDelta) :
    extendBlock index delta (blocks ++ [(index, block)]) =
      blocks ++ [(index, { block with gathered := block.gathered ++ deltaFor block.opened delta })] := by
  induction blocks with
  | nil => simp [extendBlock]
  | cons p blocks ih =>
    have hp : index ≠ p.1 := Ne.symm (h p List.mem_cons_self)
    rw [List.cons_append, extendBlock, if_neg hp, ih fun q hq => h q (List.mem_cons_of_mem _ hq)]
    rfl

/-! ## Calls in turn -/

/-- Add a piece of arguments to the last call. -/
def pushLast (index : Nat) (delta : String) :
    List AccumulatedToolCall → List AccumulatedToolCall
  | [] => []
  | [tc] => [{ tc with arguments := tc.arguments ++ delta }]
  | tc :: next :: rest => tc :: pushLast index delta (next :: rest)

theorem pushLast_concat (index : Nat) (delta : String) (calls : List AccumulatedToolCall)
    (tc : AccumulatedToolCall) : pushLast index delta (calls ++ [tc]) =
      calls ++ [{ tc with arguments := tc.arguments ++ delta }] := by
  induction calls with
  | nil => rfl
  | cons first calls ih =>
    cases calls with
    | nil => rfl
    | cons next calls =>
      show first :: pushLast index delta (next :: calls ++ [tc]) = _
      rw [ih]
      rfl

theorem pushLast_empty (index : Nat) (calls : List AccumulatedToolCall) :
    pushLast index "" calls = calls := by
  rcases List.eq_nil_or_concat calls with rfl | ⟨init, tc, rfl⟩
  · rfl
  · rw [List.concat_eq_append, pushLast_concat]
    simp

/-- One fragment: a call that begins is the last, a piece of arguments goes to the last. -/
abbrev turnStep : List AccumulatedToolCall → StreamToolCall → List AccumulatedToolCall :=
  collectStep (fun call calls => calls ++ [call]) pushLast

/-- The calls of a stream when they take turns. -/
def callsInTurn (fragments : List StreamToolCall) : List AccumulatedToolCall :=
  fragments.foldl turnStep []

/-- The blocks of calls. -/
def callBlocks (calls : List AccumulatedToolCall) : List (Nat × StreamedBlock) :=
  calls.mapIdx fun i tc => (i, ⟨.toolUse tc.id tc.name, tc.arguments⟩)

theorem callBlocks_concat (calls : List AccumulatedToolCall) (tc : AccumulatedToolCall) :
    callBlocks (calls ++ [tc]) =
      callBlocks calls ++ [(calls.length, ⟨.toolUse tc.id tc.name, tc.arguments⟩)] := by
  simp [callBlocks, List.mapIdx_append]

theorem callBlocks_lt {calls : List AccumulatedToolCall} {p : Nat × StreamedBlock}
    (h : p ∈ callBlocks calls) : p.1 < calls.length := by
  obtain ⟨i, hi, rfl⟩ := List.mem_mapIdx.mp h
  exact hi

/-- The blocks of a client while calls stream. -/
structure Serves (s : AdapterState) (blocks : List (Nat × StreamedBlock))
    (calls : List AccumulatedToolCall) : Prop where
  phase : s.phase = .toolCalls
  next : s.blockIndex = calls.length
  nonempty : calls ≠ []
  blocks : blocks = callBlocks calls

theorem Serves.step {s : AdapterState} {blocks : List (Nat × StreamedBlock)}
    {calls : List AccumulatedToolCall} (h : Serves s blocks calls) {e : CanonicalStreamEvent}
    (he : IsBody e) :
    Serves (emit s e).2 ((emit s e).1.foldl receive blocks) ((fragment e).foldl turnStep calls) := by
  obtain ⟨hphase, hnext, hsome, rfl⟩ := h
  have habsent : ∀ p ∈ callBlocks calls, p.1 ≠ s.blockIndex := by
    intro p hp
    have hlt := callBlocks_lt hp
    omega
  cases e with
  | start id model => exact he.elim
  | done reason usage => exact he.elim
  | thinkingSignature signer delta => exact ⟨hphase, hnext, hsome, rfl⟩
  | sealedThinking signer raw => exact ⟨hphase, hnext, hsome, rfl⟩
  | textDelta text =>
    rw [emit, emitTextDelta, if_neg (by rw [hphase]; decide)]
    exact ⟨hphase, hnext, hsome, extendBlock_absent habsent _⟩
  | thinkingDelta text =>
    rw [emit, emitThinkingDelta, if_neg (by rw [hphase]; decide)]
    exact ⟨hphase, hnext, hsome, extendBlock_absent habsent _⟩
  | toolCallStart index id name signature =>
    have hopen : openBlock s.blockIndex (.toolUse id name) (callBlocks calls) =
        callBlocks (calls ++ [⟨index, id, name, ""⟩]) := by
      rw [openBlock_above (fun p hp => by have hlt := callBlocks_lt hp; omega),
        callBlocks_concat, hnext]
    have hcalls : (fragment (toolCallStart index id name signature)).foldl turnStep calls =
        calls ++ [⟨index, id, name, ""⟩] := pushLast_empty _ _
    rw [hcalls]
    exact ⟨rfl, by simp [emit, emitToolCallStart, hnext], by simp, hopen⟩
  | toolCallDelta index delta =>
    obtain ⟨init, tc, rfl⟩ := (List.eq_nil_or_concat calls).resolve_left hsome
    rw [List.concat_eq_append] at hnext habsent ⊢
    have hlength : s.blockIndex - 1 = init.length := by
      rw [hnext]
      simp
    have hextend : extendBlock (s.blockIndex - 1) (.inputJson delta) (callBlocks (init ++ [tc])) =
        callBlocks (init ++ [{ tc with arguments := tc.arguments ++ delta }]) := by
      rw [hlength, callBlocks_concat, callBlocks_concat,
        extendBlock_last (fun p hp => Nat.ne_of_lt (callBlocks_lt hp))]
      rfl
    have hcalls : (fragment (toolCallDelta index delta)).foldl turnStep (init ++ [tc]) =
        init ++ [{ tc with arguments := tc.arguments ++ delta }] := pushLast_concat _ _ _ _
    rw [hcalls]
    refine ⟨hphase, ?_, by simp, hextend⟩
    show s.blockIndex = _
    rw [hnext]
    simp

/-- Once a call has started, calls are all a client gets. -/
theorem Serves.run {body : List CanonicalStreamEvent} (hbody : ∀ e ∈ body, IsBody e)
    {s : AdapterState} {blocks : List (Nat × StreamedBlock)} {calls : List AccumulatedToolCall}
    (h : Serves s blocks calls) :
    (outputs emit s body).foldl receive blocks =
      callBlocks ((body.flatMap fragment).foldl turnStep calls) := by
  induction body generalizing s blocks calls with
  | nil => exact h.blocks
  | cons e body ih =>
    have hstep := h.step (hbody e List.mem_cons_self)
    rw [outputs_cons, List.foldl_append, List.flatMap_cons, List.foldl_append]
    exact ih (fun x hx => hbody x (List.mem_cons_of_mem _ hx)) hstep

/-! ## Text and thinking -/

/-- The block that text or thinking opens, in a message without any. -/
def firstBlock : List CanonicalStreamEvent → Option OpenedBlock
  | [] => none
  | textDelta _ :: _ => some .text
  | thinkingDelta _ :: _ => some .thinking
  | _ :: events => firstBlock events

/-- What an event adds to a block of a type. -/
def addedTo (block : OpenedBlock) : CanonicalStreamEvent → String
  | textDelta text => deltaFor block (.text text)
  | thinkingDelta text => deltaFor block (.thinking text)
  | _ => ""

theorem foldl_turnStep_ne_nil (fragments : List StreamToolCall) {calls : List AccumulatedToolCall}
    (h : calls ≠ []) : fragments.foldl turnStep calls ≠ [] := by
  induction fragments generalizing calls with
  | nil => exact h
  | cons tc fragments ih =>
    refine ih ?_
    have hpush : ∀ cs : List AccumulatedToolCall, cs ≠ [] →
        pushLast tc.index tc.piece cs ≠ [] := by
      intro cs hcs
      obtain ⟨init, last, rfl⟩ := (List.eq_nil_or_concat cs).resolve_left hcs
      rw [List.concat_eq_append, pushLast_concat]
      simp
    refine hpush _ ?_
    cases tc.begins with
    | none => exact h
    | some p => simp

/-- The first call of a message takes the first block, whatever it held. -/
theorem Serves.first {s : AdapterState} (hindex : s.blockIndex = 0)
    {blocks : List (Nat × StreamedBlock)} (hblocks : blocks = [] ∨ ∃ b, blocks = [(0, b)])
    (index : Nat) (id name : String) (signature : Option String) :
    Serves (emit s (toolCallStart index id name signature)).2
      ((emit s (toolCallStart index id name signature)).1.foldl receive blocks)
      [⟨index, id, name, ""⟩] := by
  refine ⟨rfl, by simp [emit, emitToolCallStart, hindex], by simp, ?_⟩
  show openBlock s.blockIndex (.toolUse id name) blocks = _
  rw [hindex]
  rcases hblocks with rfl | ⟨b, rfl⟩ <;> rfl

/-- Until a call starts, text and thinking go to the block that is open. -/
theorem run_said {body : List CanonicalStreamEvent} (hbody : ∀ e ∈ body, IsBody e)
    {block : OpenedBlock} (hblock : ∀ id name, block ≠ .toolUse id name) {s : AdapterState}
    (hphase : s.phase = .content) (hindex : s.blockIndex = 0) (gathered : String) :
    (outputs emit s body).foldl receive [(0, ⟨block, gathered⟩)] =
      if (body.flatMap fragment).foldl turnStep [] = [] then
        [(0, ⟨block, gathered ++ String.join (body.map (addedTo block))⟩)]
      else callBlocks ((body.flatMap fragment).foldl turnStep []) := by
  induction body generalizing s gathered with
  | nil => simp
  | cons e body ih =>
    have hrest : ∀ x ∈ body, IsBody x := fun x hx => hbody x (List.mem_cons_of_mem _ hx)
    have he : IsBody e := hbody e List.mem_cons_self
    rw [outputs_cons, List.foldl_append, List.flatMap_cons, List.foldl_append, List.map_cons,
      String.join_cons, ← String.append_assoc]
    cases e with
    | start id model => exact he.elim
    | done reason usage => exact he.elim
    | textDelta text =>
      rw [emit, emitTextDelta, if_neg (by rw [hphase]; decide), hindex]
      exact ih hrest hphase hindex _
    | thinkingDelta text =>
      rw [emit, emitThinkingDelta, if_neg (by rw [hphase]; decide), hindex]
      exact ih hrest hphase hindex _
    | thinkingSignature signer delta =>
      have hadded : addedTo block (thinkingSignature signer delta) = "" := rfl
      rw [hadded, String.append_empty]
      exact ih hrest hphase hindex _
    | sealedThinking signer raw =>
      have hadded : addedTo block (sealedThinking signer raw) = "" := rfl
      rw [hadded, String.append_empty]
      exact ih hrest hphase hindex _
    | toolCallStart index id name signature =>
      have hserves := Serves.first hindex (.inr ⟨⟨block, gathered⟩, rfl⟩) index id name signature
      have hcalls : (fragment (toolCallStart index id name signature)).foldl turnStep [] =
          [⟨index, id, name, ""⟩] := pushLast_empty _ _
      rw [hcalls, if_neg (foldl_turnStep_ne_nil _ (by simp)), hserves.run hrest]
    | toolCallDelta index delta =>
      have hnone : deltaFor block (.inputJson delta) = "" := by
        cases block with
        | toolUse id name => exact absurd rfl (hblock id name)
        | text => rfl
        | thinking => rfl
      have hextend : extendBlock (s.blockIndex - 1) (.inputJson delta) [(0, ⟨block, gathered⟩)] =
          [(0, ⟨block, gathered⟩)] := by
        rw [hindex]
        simp [extendBlock, hnone]
      have hadded : addedTo block (toolCallDelta index delta) = "" := rfl
      rw [hadded, String.append_empty]
      show (outputs emit s body).foldl receive
        (extendBlock (s.blockIndex - 1) (.inputJson delta) [(0, ⟨block, gathered⟩)]) = _
      rw [hextend]
      exact ih hrest hphase hindex gathered

/-- The blocks of a message. -/
theorem run_message {body : List CanonicalStreamEvent} (hbody : ∀ e ∈ body, IsBody e)
    {s : AdapterState} (hphase : s.phase = .init) (hindex : s.blockIndex = 0) :
    (outputs emit s body).foldl receive [] =
      if (body.flatMap fragment).foldl turnStep [] = [] then
        (firstBlock body).toList.map fun block =>
          (0, ⟨block, String.join (body.map (addedTo block))⟩)
      else callBlocks ((body.flatMap fragment).foldl turnStep []) := by
  induction body with
  | nil => rfl
  | cons e body ih =>
    have hrest : ∀ x ∈ body, IsBody x := fun x hx => hbody x (List.mem_cons_of_mem _ hx)
    have he : IsBody e := hbody e List.mem_cons_self
    cases e with
    | start id model => exact he.elim
    | done reason usage => exact he.elim
    | textDelta text =>
      have hemit : emit s (textDelta text) = ([.contentBlockStart 0 .text,
          .contentBlockDelta 0 (.text text)], { s with phase := .content }) := by
        rw [emit, emitTextDelta, if_pos hphase, hindex]
      have hsaid := @run_said body hrest .text (by simp) { s with phase := .content } rfl hindex text
      rw [outputs_cons, hemit, List.foldl_append]
      simpa [receive, openBlock, extendBlock, deltaFor, fragment, firstBlock, addedTo] using hsaid
    | thinkingDelta text =>
      have hemit : emit s (thinkingDelta text) = ([.contentBlockStart 0 .thinking,
          .contentBlockDelta 0 (.thinking text)], { s with phase := .content }) := by
        rw [emit, emitThinkingDelta, if_pos hphase, hindex]
      have hsaid := @run_said body hrest .thinking (by simp) { s with phase := .content } rfl hindex
        text
      rw [outputs_cons, hemit, List.foldl_append]
      simpa [receive, openBlock, extendBlock, deltaFor, fragment, firstBlock, addedTo] using hsaid
    | thinkingSignature signer delta =>
      simpa [emit, fragment, firstBlock, addedTo] using ih hrest
    | sealedThinking signer raw =>
      simpa [emit, fragment, firstBlock, addedTo] using ih hrest
    | toolCallStart index id name signature =>
      have hserves := Serves.first hindex (.inl rfl) index id name signature
      have hcalls : (fragment (toolCallStart index id name signature)).foldl turnStep [] =
          [⟨index, id, name, ""⟩] := pushLast_empty _ _
      rw [outputs_cons, List.foldl_append, List.flatMap_cons, List.foldl_append, hcalls,
        if_neg (foldl_turnStep_ne_nil _ (by simp)), hserves.run hrest]
    | toolCallDelta index delta =>
      have hcalls : (fragment (toolCallDelta index delta)).foldl turnStep [] = [] := rfl
      rw [List.flatMap_cons, List.foldl_append, hcalls]
      simpa [emit, emitToolCallDelta, receive, extendBlock, firstBlock, addedTo] using ih hrest

/-! ## What the client has -/

theorem assemble_callBlocks (codec : JsonCodec) (calls : List AccumulatedToolCall) :
    (streamedView codec).assemble ((callBlocks calls).map Prod.snd) =
      ⟨"", "", calls.map (AccumulatedToolCall.seen codec)⟩ := by
  induction calls using List.reverseRecOn with
  | nil => rfl
  | append_singleton calls tc ih =>
    rw [callBlocks_concat, List.map_append, View.assemble_append, ih]
    simp [streamedView, AccumulatedToolCall.seen]

section
variable {codec : JsonCodec} (w : World) (id model : String) {body : List CanonicalStreamEvent}
  (reason : StopReason) (usage : Option Usage)

/-- The start and the end of a message change no block. -/
theorem assemble_written (body : List CanonicalStreamEvent) :
    assemble codec (outputs emit (.fresh w) (start id model :: body ++ [done reason usage])) =
      (streamedView codec).assemble
        (((outputs emit (emit (.fresh w) (start id model)).2 body).foldl receive []).map
          Prod.snd) := by
  have hstart : (emit (.fresh w) (start id model)).1.foldl receive [] = [] := rfl
  have hend : ∀ (s : AdapterState) (blocks : List (Nat × StreamedBlock)),
      (outputs emit s [done reason usage]).foldl receive blocks = blocks := fun _ _ => rfl
  rw [assemble, List.cons_append, outputs_cons, outputs_append, List.foldl_append,
    List.foldl_append, hstart, hend]

/-- **With calls, the text and the reasoning are lost**, and each call has the arguments that arrived
while it was the last. -/
theorem assemble_calls (hbody : ∀ e ∈ body, IsBody e) (h : callsInTurn (body.flatMap fragment) ≠ []) :
    assemble codec (outputs emit (.fresh w) (start id model :: body ++ [done reason usage])) =
      ⟨"", "", (callsInTurn (body.flatMap fragment)).map (AccumulatedToolCall.seen codec)⟩ := by
  rw [assemble_written, run_message hbody rfl rfl, ← callsInTurn, if_neg h, assemble_callBlocks]

theorem addedTo_text : addedTo .text = textOf := by
  funext e
  cases e <;> rfl

theorem addedTo_thinking : addedTo .thinking = thinkingOf := by
  funext e
  cases e <;> rfl

/-- What opens the first block is there. -/
theorem firstBlock_spec (body : List CanonicalStreamEvent) :
    (firstBlock body = none ∧ (∀ e ∈ body, textOf e = "" ∧ e.thinkingOf = "")) ∨
      (firstBlock body = some .text ∧ ∃ t, textDelta t ∈ body) ∨
      (firstBlock body = some .thinking ∧ ∃ t, thinkingDelta t ∈ body) := by
  induction body with
  | nil => exact .inl ⟨rfl, by simp⟩
  | cons e body ih =>
    cases e with
    | textDelta t => exact .inr (.inl ⟨rfl, t, List.mem_cons_self⟩)
    | thinkingDelta t => exact .inr (.inr ⟨rfl, t, List.mem_cons_self⟩)
    | _ =>
      rcases ih with ⟨hnone, hrest⟩ | ⟨hsome, t, ht⟩ | ⟨hsome, t, ht⟩
      · refine .inl ⟨hnone, ?_⟩
        intro e he
        rcases List.mem_cons.mp he with rfl | he
        · exact ⟨rfl, rfl⟩
        · exact hrest e he
      · exact .inr (.inl ⟨hsome, t, List.mem_cons_of_mem _ ht⟩)
      · exact .inr (.inr ⟨hsome, t, List.mem_cons_of_mem _ ht⟩)

/-- **Without calls, one kind of text survives.** -/
theorem assemble_said_iff (hbody : ∀ e ∈ body, IsBody e)
    (hcalls : callsInTurn (body.flatMap fragment) = []) (htext : textDelta "" ∉ body)
    (hthinking : thinkingDelta "" ∉ body) :
    assemble codec (outputs emit (.fresh w) (start id model :: body ++ [done reason usage])) =
        ⟨String.join (body.map textOf), String.join (body.map thinkingOf), []⟩ ↔
      String.join (body.map textOf) = "" ∨ String.join (body.map thinkingOf) = "" := by
  rw [assemble_written, run_message hbody rfl rfl, ← callsInTurn, if_pos hcalls]
  rcases firstBlock_spec body with ⟨hfirst, hsilent⟩ | ⟨hfirst, t, ht⟩ | ⟨hfirst, t, ht⟩
  · rw [hfirst, Text.join_map_empty_iff.mpr fun e he => (hsilent e he).1,
      Text.join_map_empty_iff.mpr fun e he => (hsilent e he).2]
    simp
  · have hne : String.join (body.map textOf) ≠ "" := by
      intro hempty
      obtain rfl : t = "" := Text.join_map_empty_iff.mp hempty _ ht
      exact htext ht
    have hview : ∀ t : String, (streamedView codec).assemble [⟨.text, t⟩] = ⟨t, "", []⟩ := by
      simp [streamedView]
    rw [hfirst, Option.toList_some, List.map_singleton, List.map_singleton, addedTo_text, hview,
      Assembled.mk.injEq]
    exact ⟨fun h => .inr h.2.1.symm, fun h => ⟨rfl, (h.resolve_left hne).symm, rfl⟩⟩
  · have hne : String.join (body.map thinkingOf) ≠ "" := by
      intro hempty
      obtain rfl : t = "" := Text.join_map_empty_iff.mp hempty _ ht
      exact hthinking ht
    have hview : ∀ t : String, (streamedView codec).assemble [⟨.thinking, t⟩] = ⟨"", t, []⟩ := by
      simp [streamedView]
    rw [hfirst, Option.toList_some, List.map_singleton, List.map_singleton, addedTo_thinking,
      hview, Assembled.mk.injEq]
    exact ⟨fun h => .inl h.1.symm, fun h => ⟨(h.resolve_right hne).symm, rfl, rfl⟩⟩

end

end AnyConverter.Claude
