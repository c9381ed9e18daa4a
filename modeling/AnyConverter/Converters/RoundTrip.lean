import AnyConverter.Converters.Body
import AnyConverter.Lib.JsonText

/-!
# Claude's blocks through a Responses client

A Responses client keeps the items of a reply and sends them back as they are.  Between the two, a
Claude reply becomes output items and these become a Claude turn again: thinking rides sealed in
reasoning items, text in message items, calls in items of their own, and reading puts what stands
side by side back into one turn.

* `foldl_outputItems`: reading the items of a reply adds its parts to the assistant's turn;
* `turnBlocks_textOrBlocks`: the turn built from these parts holds the blocks they were read from;
* `claude_blocks_return`: so the conversation goes on with the reply's own blocks.
-/

set_option autoImplicit false

namespace AnyConverter

open Claude (ClaudeContentBlock readResponseBlock)

/-- A block Anthropic takes back: signed thinking, sealed data, text, a call of a named tool. -/
def Claude.ClaudeContentBlock.Replayable : ClaudeContentBlock → Prop
  | .text t => t ≠ ""
  | .toolUse _ name _ => name ≠ ""
  | .thinking _ signature => ∃ value, signature = some value ∧ value ≠ ""
  | .redactedThinking data => data ≠ ""

namespace OpenAIResponses

variable {codec : JsonCodec}

/-! ## Reading items back -/

theorem pushMessage_pushMessage (messages : List IrMessage) (role : Role) (xs ys : List IrPart) :
    pushMessage (pushMessage messages role xs) role ys = pushMessage messages role (xs ++ ys) := by
  by_cases hxs : xs = []
  · subst hxs
    rfl
  by_cases hys : ys = []
  · subst hys
    rw [List.append_nil]
    rfl
  have happend : xs ++ ys ≠ [] := fun h => hxs (List.append_eq_nil_iff.mp h).1
  simp only [pushMessage, List.isEmpty_iff, hxs, hys, happend, if_false]
  rcases List.eq_nil_or_concat messages with rfl | ⟨before, last, rfl⟩
  · simp [extendLast]
  · rw [List.concat_eq_append]
    by_cases hrole : last.role = role
    · rw [extendLast_eq before hrole, extendLast_eq before hrole, extendLast_eq before hrole,
        List.append_assoc]
    · have hne : ∀ parts : List IrPart, ∀ l ∈ (before ++ [last]).getLast?,
          l.role ≠ (IrMessage.mk role parts).role := by
        simpa using hrole
      have hsame : (IrMessage.mk role xs).role = (IrMessage.mk role ys).role := rfl
      rw [extendLast_ne (hne xs), extendLast_ne (hne (xs ++ ys)), extendLast_eq _ hsame]

/-- Parts added to what was read. -/
def InputState.push (st : InputState) (role : Role) (parts : List IrPart) : InputState :=
  { st with messages := pushMessage st.messages role parts }

theorem push_push (st : InputState) (role : Role) (xs ys : List IrPart) :
    (st.push role xs).push role ys = st.push role (xs ++ ys) := by
  simp only [InputState.push, pushMessage_pushMessage]

/-- Parts of another role than the last turn's are a turn of their own. -/
theorem push_messages_of_ne {st : InputState} {role : Role} {parts : List IrPart}
    (hparts : parts ≠ []) (hlast : ∀ last ∈ st.messages.getLast?, last.role ≠ role) :
    (st.push role parts).messages = st.messages ++ [⟨role, parts⟩] := by
  have hsome : ¬ parts.isEmpty = true := by simpa using hparts
  rw [InputState.push, pushMessage, if_neg hsome]
  exact extendLast_ne hlast

theorem readInputItem_parts {item : List (String × Value)} {role : Role} {parts : List IrPart}
    (h : readItem codec item = .parts role parts) (st : InputState) :
    readInputItem codec st (.object item) = st.push role parts := by
  simp only [readInputItem, h, InputState.push]

theorem partFromValue_textPart (text : String) :
    partFromValue (textPart .assistant text) = some (.plain text) := by
  simp [partFromValue, textPart, textPartType, Value.asObject, partFromObject, typeOf, isTextType,
    takeString, List.lookup_cons]

/-- Gathered text comes back as text. -/
theorem foldl_flushText (texts : List String) (st : InputState) :
    (flushText (texts.map (textPart .assistant))).foldl (readInputItem codec) st =
      st.push .assistant (texts.map .plain) := by
  by_cases htexts : texts = []
  · subst htexts
    rfl
  have hcontent : contentToParts (.array (texts.map (textPart .assistant))) =
      texts.map .plain := by
    simp only [contentToParts, List.filterMap_map, Function.comp_def, partFromValue_textPart]
    exact congrFun List.filterMap_eq_map texts
  have hflush : flushText (texts.map (textPart .assistant)) =
      [messageItem .assistant (texts.map (textPart .assistant))] := by
    rw [flushText, if_neg (by simpa using htexts)]
  rw [hflush, List.foldl_cons, List.foldl_nil, messageItem]
  refine readInputItem_parts ?_ st
  simp [readItem, inputItemKind, typeOf, readMessageItem, roleName, List.lookup_cons, hcontent]

/-- A call comes back with its arguments, which were printed and are read again. -/
theorem readInputItem_functionCallItem (h : codec.Lawful) {name : String} (hname : name ≠ "")
    (id : String) (args : Value) (st : InputState) :
    readInputItem codec st (functionCallItem codec id name args) =
      st.push .assistant [.toolCall id name args none] := by
  refine readInputItem_parts ?_ st
  have hargs : parseArguments codec (codec.toText args) = args := by
    rw [parseArguments, if_neg (h.print_ne_empty args), h.read_print, Option.getD_some]
  simp [readItem, inputItemKind, typeOf, readFunctionCall, takeString, List.lookup_cons, hname, hargs]

theorem sealBytes_ne_empty (block : String) : sealBytes block ≠ "" := by
  intro h
  have hlist := congrArg String.toList h
  simp [sealBytes, claudeSealMark] at hlist

/-- A reasoning item with a sealed block that reads is that block. -/
theorem readReasoningItem_sealed {item : List (String × Value)} {block : String} {part : IrPart}
    (hencrypted : item.lookup "encrypted_content" = some (.string (sealBytes block)))
    (hpart : claudeSealedPart codec (sealBytes block) = some part) :
    readReasoningItem codec item = part := by
  simp [readReasoningItem, hencrypted, sealBytes_ne_empty, hpart]

theorem readInputItem_reasoningItem (h : codec.Lawful) (uuid text : String) {value : String}
    (hvalue : value ≠ "") (st : InputState) :
    readInputItem codec st (reasoningItem codec uuid text (some value)) =
      st.push .assistant [.thinking text (some ⟨.claude, value⟩)] := by
  have hpart : claudeSealedPart codec (sealThinking codec text value) =
      some (.thinking text (some ⟨.claude, value⟩)) := by
    simp [claudeSealedPart, openSeal_sealThinking h, Value.get, blockText, List.lookup_cons, hvalue]
  simp only [reasoningItem, Value.set]
  refine readInputItem_parts ?_ st
  have hencrypted := Value.lookup_insertField_self "encrypted_content"
    (.string (sealThinking codec text value)) [("id", .string ("rs_" ++ uuid)),
      ("summary", .array [.object [("text", .string text), ("type", .string "summary_text")]]),
      ("type", .string "reasoning")]
  have htype := @Value.lookup_insertField_ne "encrypted_content" "type" (by decide)
    (.string (sealThinking codec text value)) [("id", .string ("rs_" ++ uuid)),
      ("summary", .array [.object [("text", .string text), ("type", .string "summary_text")]]),
      ("type", .string "reasoning")]
  simp only [readItem, inputItemKind, typeOf, htype]
  simp [List.lookup_cons, readReasoningItem_sealed hencrypted hpart]

theorem readInputItem_sealedReasoningItem (h : codec.Lawful) (uuid : String) {data : String}
    (hdata : data ≠ "") (st : InputState) :
    readInputItem codec st (sealedReasoningItem codec uuid (Claude.redactedRaw data)) =
      st.push .assistant [.sealed .claude (Claude.redactedRaw data)] := by
  have hpart : claudeSealedPart codec (sealBlock codec (Claude.redactedRaw data)) =
      some (.sealed .claude (Claude.redactedRaw data)) := by
    simp [claudeSealedPart, openSeal_sealBlock h, Claude.redactedRaw, Value.get, blockText,
      List.lookup_cons, hdata]
  refine readInputItem_parts ?_ st
  have hread : readReasoningItem codec [("encrypted_content",
        .string (sealBlock codec (Claude.redactedRaw data))), ("id", .string ("rs_" ++ uuid)),
      ("summary", .array []), ("type", .string "reasoning")] =
      .sealed .claude (Claude.redactedRaw data) :=
    readReasoningItem_sealed List.lookup_cons_self hpart
  simp [readItem, inputItemKind, typeOf, List.lookup_cons, hread]

/-- **Reading the items of a reply adds its parts to the assistant's turn.** -/
theorem foldl_outputItems (h : codec.Lawful) {blocks : List ClaudeContentBlock}
    (hblocks : ∀ b ∈ blocks, b.Replayable) (w : World) (texts : List String) (st : InputState) :
    (outputItems codec w (texts.map (textPart .assistant))
      (blocks.map readResponseBlock)).1.foldl (readInputItem codec) st =
      st.push .assistant (texts.map .plain ++ blocks.map readResponseBlock) := by
  induction blocks generalizing w texts st with
  | nil =>
    rw [List.map_nil, List.append_nil]
    exact foldl_flushText texts st
  | cons b blocks ih =>
    have hb := hblocks b List.mem_cons_self
    have hrest := ih fun c hc => hblocks c (List.mem_cons_of_mem _ hc)
    have hempty := fun (w : World) (st : InputState) => hrest w [] st
    simp only [List.map_nil, List.nil_append] at hempty
    cases b with
    | text t =>
      have htexts := hrest w (texts ++ [t]) st
      simp only [List.map_append, List.map_singleton, List.append_assoc, List.singleton_append]
        at htexts
      exact htexts
    | toolUse id name input =>
      simp only [List.map_cons, readResponseBlock, outputItems, List.foldl_append,
        foldl_flushText, List.foldl_cons, readInputItem_functionCallItem h hb, hempty, push_push,
        List.append_assoc, List.singleton_append]
    | thinking thinking signature =>
      obtain ⟨value, rfl, hvalue⟩ := hb
      have hitem := readInputItem_reasoningItem h w.newUuid.1 thinking hvalue
      have hown : claudeSignature (some ⟨.claude, value⟩) = some value := rfl
      simp only [List.map_cons, readResponseBlock, Option.map_some, outputItems, hown,
        List.foldl_append, foldl_flushText, List.foldl_cons, hitem, hempty, push_push,
        List.append_assoc, List.singleton_append]
    | redactedThinking data =>
      simp only [List.map_cons, readResponseBlock, outputItems, List.foldl_append,
        foldl_flushText, List.foldl_cons, readInputItem_sealedReasoningItem h _ hb, hempty,
        push_push, List.append_assoc, List.singleton_append]

/-! ## The turns of a conversation -/

theorem alternating_readInputItem {st : InputState} (hst : Alternating st.messages) (item : Value) :
    Alternating (readInputItem codec st item).messages := by
  unfold readInputItem
  split
  · split
    · exact hst
    · unfold pushMessage
      split
      · exact hst
      · exact alternating_extendLast hst
    · exact hst
  · exact hst

theorem alternating_foldl (items : List Value) {st : InputState} (hst : Alternating st.messages) :
    Alternating (items.foldl (readInputItem codec) st).messages := by
  induction items generalizing st with
  | nil => exact hst
  | cons item items ih => exact ih (alternating_readInputItem hst item)

/-- What is read later leaves the turns before the last one alone. -/
theorem readInputItem_append {st : InputState} {before messages : List IrMessage}
    (hst : st.messages = before ++ messages) (hne : messages ≠ []) (item : Value) :
    ∃ messages', (readInputItem codec st item).messages = before ++ messages' ∧ messages' ≠ [] ∧
      messages'.head?.map IrMessage.role = messages.head?.map IrMessage.role := by
  unfold readInputItem
  split
  · split
    · exact ⟨messages, hst, hne, rfl⟩
    · rename_i role parts _
      simp only [pushMessage, hst]
      split
      · exact ⟨messages, rfl, hne, rfl⟩
      · exact ⟨extendLast ⟨role, parts⟩ messages, extendLast_append _ before hne,
          extendLast_ne_nil _ _, head?_extendLast hne⟩
    · exact ⟨messages, hst, hne, rfl⟩
  · exact ⟨messages, hst, hne, rfl⟩

theorem foldl_append (items : List Value) {st : InputState} {before messages : List IrMessage}
    (hst : st.messages = before ++ messages) (hne : messages ≠ []) :
    ∃ messages', (items.foldl (readInputItem codec) st).messages = before ++ messages' ∧
      messages'.head?.map IrMessage.role = messages.head?.map IrMessage.role := by
  induction items generalizing st messages with
  | nil => exact ⟨messages, hst, rfl⟩
  | cons item items ih =>
    obtain ⟨messages', hst', hne', hhead⟩ := readInputItem_append hst hne item
    obtain ⟨messages'', hst'', hhead'⟩ := ih hst' hne'
    exact ⟨messages'', hst'', hhead'.trans hhead⟩

end OpenAIResponses

namespace Claude

/-- Turns that alternate are not merged. -/
theorem mergeSameRole_of_alternating {messages : List IrMessage} (h : Alternating messages) :
    mergeSameRole messages = messages := by
  have hfold : ∀ (messages before : List IrMessage), Alternating (before ++ messages) →
      messages.foldl (fun out msg => extendLast msg out) before = before ++ messages := by
    intro messages
    induction messages with
    | nil => intro before _; rw [List.append_nil]; rfl
    | cons msg messages ih =>
      intro before hbefore
      have hlast : ∀ last ∈ before.getLast?, last.role ≠ msg.role := by
        intro last hlast
        exact (List.isChain_append.mp hbefore).2.2 last hlast msg rfl
      rw [List.foldl_cons, extendLast_ne hlast, ih, List.append_assoc]
      · rfl
      · rw [List.append_assoc]
        exact hbefore
  exact hfold messages [] h

/-! ## The turn that is built -/

/-- The blocks of a message's content; a bare text is one block. -/
def turnBlocks : Value → Option (List ClaudeContentBlock)
  | .string text => some [.text text]
  | .array blocks => blocks.mapM ClaudeContentBlock.ofValue
  | _ => none

/-- A part built as a block of a request reads as the block it came from. -/
theorem buildPart_readResponseBlock {b : ClaudeContentBlock} (hb : b.Replayable) :
    ∃ v, buildPart (readResponseBlock b) = some v ∧ ClaudeContentBlock.ofValue v = some b := by
  cases b with
  | text t =>
    refine ⟨textBlock t, rfl, ?_⟩
    simp [textBlock, ClaudeContentBlock.ofValue, Serde.required, Serde.string, List.lookup_cons]
  | toolUse id name input =>
    refine ⟨_, rfl, ?_⟩
    simp [ClaudeContentBlock.ofValue, Serde.required, Serde.string, Serde.any, List.lookup_cons]
  | thinking thinking signature =>
    obtain ⟨value, rfl, -⟩ := hb
    refine ⟨thinkingBlock thinking (some ⟨.claude, value⟩), rfl, ?_⟩
    have hown : claudeSignature (some ⟨.claude, value⟩) = some value := rfl
    simp [thinkingBlock_signed hown, ClaudeContentBlock.ofValue, Serde.required, Serde.optional,
      Serde.string, List.lookup_cons]
  | redactedThinking data =>
    refine ⟨redactedRaw data, rfl, ?_⟩
    simp [redactedRaw, ClaudeContentBlock.ofValue, Serde.required, Serde.string, List.lookup_cons]

theorem mapM_buildParts {blocks : List ClaudeContentBlock} (hblocks : ∀ b ∈ blocks, b.Replayable) :
    (buildParts (blocks.map readResponseBlock)).mapM ClaudeContentBlock.ofValue = some blocks := by
  induction blocks with
  | nil => rfl
  | cons b blocks ih =>
    obtain ⟨v, hv, hread⟩ := buildPart_readResponseBlock (hblocks b List.mem_cons_self)
    have hrest := ih fun c hc => hblocks c (List.mem_cons_of_mem _ hc)
    rw [List.map_cons, buildParts, hv, Option.toList_some, List.singleton_append, List.mapM_cons,
      hread, hrest]
    rfl

/-- **The turn that is built holds the blocks its parts were read from.** -/
theorem turnBlocks_textOrBlocks {blocks : List ClaudeContentBlock}
    (hblocks : ∀ b ∈ blocks, b.Replayable) (hne : blocks ≠ []) (empty : Value) :
    turnBlocks (textOrBlocks empty (blocks.map readResponseBlock)) = some blocks := by
  have harray := mapM_buildParts hblocks
  match blocks, hne with
  | b :: [], _ =>
    cases b with
    | text t => rfl
    | _ => exact harray
  | b :: c :: rest, _ => cases b <;> exact harray

end Claude

/-! ## The conversation -/

/-- The items read so far do not end in an assistant's turn. -/
def AtUserTurn (codec : JsonCodec) (items : List Value) : Prop :=
  ∀ last ∈ (OpenAIResponses.readInput codec (some (.array items))).messages.getLast?,
    last.role = .user

/-- The items go on with something of the user: a message or the output of a call. -/
def UserNext (codec : JsonCodec) : List Value → Prop
  | [] => True
  | item :: _ => ∃ fields parts, item = .object fields ∧ parts ≠ [] ∧
    OpenAIResponses.readItem codec fields = .parts .user parts

/-- **A Responses client gives Claude its own blocks back**: the items of a converted reply, sent
back between what was said before and what follows, are one assistant turn with the blocks of the
reply in their order.  A reply without blocks has no items. -/
theorem claude_blocks_return {codec : JsonCodec} (h : codec.Lawful) (w : World)
    (resp : Claude.ClaudeResponse) (hblocks : ∀ b ∈ resp.content, b.Replayable)
    (before after : List Value) (hbefore : AtUserTurn codec before) (hafter : UserNext codec after)
    (req : OpenAIResponses.OpenAIResponsesRequest) (hinput : req.input = some (.array (before ++
      (OpenAIResponses.buildResponse codec w (Claude.readResponse resp)).1.output ++ after))) :
    (resp.content = [] →
      (OpenAIResponses.buildResponse codec w (Claude.readResponse resp)).1.output = []) ∧
    (resp.content ≠ [] → ∃ turn post,
      (Claude.build (OpenAIResponses.read codec req)).messages =
        (OpenAIResponses.readInput codec (some (.array before))).messages.map Claude.buildMessage ++
          turn :: post ∧
      turn.role = "assistant" ∧ Claude.turnBlocks turn.content = some resp.content ∧
      ∀ next ∈ post.head?, next.role = "user") := by
  refine ⟨?_, ?_⟩
  · intro hnil
    simp only [OpenAIResponses.buildResponse, Claude.readResponse, hnil]
    rfl
  · intro hne
    let st := before.foldl (OpenAIResponses.readInputItem codec) {}
    let reply : IrMessage := ⟨.assistant, resp.content.map readResponseBlock⟩
    have hreply := OpenAIResponses.foldl_outputItems h hblocks w [] st
    have hturn : (st.push .assistant (resp.content.map readResponseBlock)).messages =
        st.messages ++ [reply] := by
      refine OpenAIResponses.push_messages_of_ne (by simpa using hne) ?_
      intro last hlast
      rw [hbefore last hlast]
      simp
    obtain ⟨tail, htail, hhead⟩ : ∃ tail,
        (after.foldl (OpenAIResponses.readInputItem codec)
          (st.push .assistant (resp.content.map readResponseBlock))).messages =
          (st.messages ++ [reply]) ++ tail ∧ ∀ m ∈ tail.head?, m.role = .user := by
      cases after with
      | nil => exact ⟨[], by rw [List.append_nil]; exact hturn, by simp⟩
      | cons item rest =>
        obtain ⟨fields, parts, rfl, hparts, hread⟩ := hafter
        have hitem : (OpenAIResponses.readInputItem codec
            (st.push .assistant (resp.content.map readResponseBlock)) (.object fields)).messages =
            (st.messages ++ [reply]) ++ [⟨.user, parts⟩] := by
          rw [OpenAIResponses.readInputItem_parts hread,
            OpenAIResponses.push_messages_of_ne hparts, hturn]
          rw [hturn]
          simp [reply]
        obtain ⟨tail, htail, hrole⟩ := OpenAIResponses.foldl_append rest hitem (by simp)
        refine ⟨tail, htail, ?_⟩
        intro m hm
        rw [Option.mem_def.mp hm] at hrole
        exact Option.some.inj hrole
    have hread : (OpenAIResponses.read codec req).messages = st.messages ++ reply :: tail := by
      have houtput : (OpenAIResponses.buildResponse codec w (Claude.readResponse resp)).1.output =
          (OpenAIResponses.outputItems codec w [] (resp.content.map readResponseBlock)).1 := rfl
      have hitems : (OpenAIResponses.readInput codec req.input).messages =
          (after.foldl (OpenAIResponses.readInputItem codec)
            (st.push .assistant (resp.content.map readResponseBlock))).messages := by
        rw [hinput, OpenAIResponses.readInput, List.foldl_append, List.foldl_append, houtput]
        exact congrArg (fun s => (after.foldl (OpenAIResponses.readInputItem codec) s).messages)
          hreply
      rw [List.append_assoc, List.singleton_append] at htail
      exact hitems.trans htail
    have halternating : Alternating (OpenAIResponses.read codec req).messages := by
      have hall : Alternating (OpenAIResponses.readInput codec req.input).messages := by
        rw [hinput]
        exact OpenAIResponses.alternating_foldl _ List.isChain_nil
      exact hall
    refine ⟨Claude.buildMessage reply, tail.map Claude.buildMessage, ?_, rfl,
      Claude.turnBlocks_textOrBlocks hblocks hne _, ?_⟩
    · have hmerge := Claude.mergeSameRole_of_alternating halternating
      rw [hread] at hmerge
      simp only [Claude.build, hread, hmerge, List.map_append, List.map_cons]
      rfl
    · intro next hnext
      rw [List.head?_map, Option.mem_def, Option.map_eq_some_iff] at hnext
      obtain ⟨m, hm, rfl⟩ := hnext
      simp [Claude.buildMessage, hhead m hm, Claude.roleName]

/-- A turn of every kind of block, thinking and text in between the calls. -/
def mixedReply : Claude.ClaudeResponse where
  id := "msg_1"
  type := "message"
  role := "assistant"
  model := "sonnet"
  content := [.thinking "I should look." (some "c2ln"), .redactedThinking "ZGF0YQ==",
    .text "Let me look.", .toolUse "toolu_1" "search" (.object [("q", .string "lean")])]
  stopReason := some "tool_use"
  stopSequence := none
  usage := {
    inputTokens := 3, outputTokens := 1, cacheCreationInputTokens := none, cacheCreation := none
    cacheReadInputTokens := none }

/-- The items of a reply as the whole input of a request. -/
def echoRequest (items : List Value) : OpenAIResponses.OpenAIResponsesRequest where
  model := "gpt-5"
  input := some (.array items)
  instructions := none
  maxOutputTokens := none
  temperature := none
  topP := none
  stream := none
  tools := none
  toolChoice := none
  text := none
  reasoning := none
  previousResponseId := none
  store := none
  extra := []

theorem claude_blocks_return_mixedReply : ∃ turn post,
    (Claude.build (OpenAIResponses.read JsonText.compactCodec
      (echoRequest (([] : List Value) ++ (OpenAIResponses.buildResponse JsonText.compactCodec
        World.counting (Claude.readResponse mixedReply)).1.output ++ [])))).messages =
      (OpenAIResponses.readInput JsonText.compactCodec (some (.array []))).messages.map
        Claude.buildMessage ++ turn :: post ∧
    turn.role = "assistant" ∧ Claude.turnBlocks turn.content = some mixedReply.content ∧
    ∀ next ∈ post.head?, next.role = "user" :=
  (claude_blocks_return JsonText.compactCodec_lawful World.counting mixedReply
    (by simp [mixedReply, Claude.ClaudeContentBlock.Replayable]) [] []
    (by intro last hlast; cases hlast) trivial _ rfl).2 (by simp [mixedReply])

end AnyConverter
