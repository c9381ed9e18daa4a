import AnyConverter.Lib.JsonText
import AnyConverter.Formats.OpenAIChat.Read
import AnyConverter.Formats.Claude.Build

/-!
# A Chat history in Claude's terms

Reading a Chat request lifts the system messages out, turns tool messages into user turns and
builds Claude messages in which neighbours of one role are one message.

* `alternating_mergeSameRole`, `flatMap_mergeSameRole`: merging makes the roles alternate and
  keeps the blocks in their order;
* `historyKept_iff`: the history is the same in both formats exactly if no tool message holds an
  image.
-/

set_option autoImplicit false

namespace AnyConverter

open OpenAIChat (OpenAIChatRequest OpenAIChatMessage MessageContent ContentPart ToolCall)
open Claude (ClaudeRequest ClaudeMessage)

/-! ## What a history holds -/

/-- One thing a history holds: a text, an image by its URL, a call or the result of one. -/
inductive HistoryItem where
  | said (text : String)
  | image (url : String)
  | call (id name : String) (args : Value)
  | result (callId : String) (content : List (Glyph String))
  deriving DecidableEq

/-- A text that is there. -/
def saidItem (text : String) : List HistoryItem := if text = "" then [] else [.said text]

namespace OpenAIChat

def ContentPart.items : ContentPart → List HistoryItem
  | .text t => saidItem t
  | .imageUrl d => [.image d.url]

def contentItems : Option MessageContent → List HistoryItem
  | none => []
  | some (.text t) => saidItem t
  | some (.parts parts) => parts.flatMap ContentPart.items

def ContentPart.shown : ContentPart → List (Glyph String)
  | .text t => Glyph.ofText t
  | .imageUrl d => [.image d.url]

def contentShown : Option MessageContent → List (Glyph String)
  | none => []
  | some (.text t) => Glyph.ofText t
  | some (.parts parts) => parts.flatMap ContentPart.shown

def ToolCall.item (codec : JsonCodec) (tc : ToolCall) : HistoryItem :=
  .call tc.id tc.function.name ((codec.fromStr tc.function.arguments).getD .null)

/-- What a message adds to the history; system messages are apart from it. -/
def messageItems (codec : JsonCodec) (msg : OpenAIChatMessage) : List HistoryItem :=
  if msg.role = "system" ∨ msg.role = "developer" then []
  else if msg.role = "assistant" then
    contentItems msg.content ++ (msg.toolCalls.getD []).map (ToolCall.item codec)
  else if msg.role = "tool" then [.result (msg.toolCallId.getD "") (contentShown msg.content)]
  else contentItems msg.content

def systemText (msg : OpenAIChatMessage) : Option String :=
  if msg.role = "system" ∨ msg.role = "developer" then messageContentAsText msg.content else none

/-- The arguments of every call read as JSON. -/
def ValidArguments (codec : JsonCodec) (req : OpenAIChatRequest) : Prop :=
  ∀ msg ∈ req.messages, ∀ tc ∈ msg.toolCalls.getD [],
    (codec.fromStr tc.function.arguments).isSome

def hasImage : Option MessageContent → Bool
  | some (.parts parts) => parts.any fun
    | .imageUrl _ => true
    | .text _ => false
  | _ => false

/-- No tool message holds an image. -/
def TextOnlyTools (req : OpenAIChatRequest) : Prop :=
  ∀ msg ∈ req.messages, msg.role = "tool" → hasImage msg.content = false

end OpenAIChat

namespace Claude

/-- What a block of a tool result shows. -/
def blockShown : Value → List (Glyph String)
  | .object obj =>
    if typeOf obj = some "text" then Glyph.ofText (takeString obj "text")
    else if typeOf obj = some "image" then
      (imageBlockToUrl obj).toOption.toList.map .image
    else []
  | _ => []

def contentShown : Option Value → List (Glyph String)
  | some (.string t) => Glyph.ofText t
  | some (.array blocks) => blocks.flatMap blockShown
  | _ => []

def blockItems : Value → List HistoryItem
  | .object obj =>
    if typeOf obj = some "text" then saidItem (takeString obj "text")
    else if typeOf obj = some "image" then (imageBlockToUrl obj).toOption.toList.map .image
    else if typeOf obj = some "tool_use" then
      [.call (takeString obj "id") (takeString obj "name") ((obj.lookup "input").getD .null)]
    else if typeOf obj = some "tool_result" then
      [.result (takeString obj "tool_use_id") (contentShown (obj.lookup "content"))]
    else []
  | _ => []

def contentItems : Value → List HistoryItem
  | .string t => saidItem t
  | .array blocks => blocks.flatMap blockItems
  | _ => []

def systemTexts : Option Value → List String
  | some (.string t) => [t]
  | some (.array blocks) => blocks.filterMap fun
    | .object obj => takeOptString obj "text"
    | _ => none
  | _ => []

/-! ## Merging the turns of one role -/

theorem mergeSameRole_append (messages : List IrMessage) (msg : IrMessage) :
    mergeSameRole (messages ++ [msg]) = extendLast msg (mergeSameRole messages) := by
  rw [mergeSameRole, List.foldl_append]
  rfl

theorem alternating_mergeSameRole (messages : List IrMessage) :
    Alternating (mergeSameRole messages) := by
  induction messages using List.reverseRecOn with
  | nil => exact List.IsChain.nil
  | append_singleton messages msg ih =>
    rw [mergeSameRole_append]
    exact alternating_extendLast ih

theorem flatMap_extendLast (msg : IrMessage) (messages : List IrMessage) :
    (extendLast msg messages).flatMap IrMessage.parts =
      messages.flatMap IrMessage.parts ++ msg.parts := by
  rcases List.eq_nil_or_concat messages with rfl | ⟨before, last, rfl⟩
  · simp [extendLast]
  · rw [List.concat_eq_append]
    by_cases hrole : last.role = msg.role
    · rw [extendLast_eq before hrole]
      simp
    · rw [extendLast_ne (by simpa using hrole)]
      simp

theorem flatMap_mergeSameRole (messages : List IrMessage) :
    (mergeSameRole messages).flatMap IrMessage.parts = messages.flatMap IrMessage.parts := by
  induction messages using List.reverseRecOn with
  | nil => rfl
  | append_singleton messages msg ih =>
    rw [mergeSameRole_append, flatMap_extendLast, ih]
    simp

/-! ## What the builder writes for a part -/

/-- What a part adds to the history. -/
def partItems : IrPart → List HistoryItem
  | .text t _ => saidItem t
  | .image url mediaType data _ =>
    [.image (match data with
      | some data => "data:" ++ mediaType ++ ";base64," ++ data
      | none => url)]
  | .toolCall id name args _ => [.call id name args]
  | .toolResult callId _ inner =>
    [.result callId ((inner.filterMap systemText).flatMap Glyph.ofText)]
  | _ => []

/-- The parts the Chat reader writes: nothing sealed, and results of a text at most. -/
def FromChat : IrPart → Prop
  | .toolResult _ _ inner => ∃ text, inner = OpenAIChat.plainIfAny text
  | .sealed _ _ => False
  | _ => True

theorem contentShown_plainIfAny (text : Option String) :
    contentShown (some (textOrBlocks (.string "") (OpenAIChat.plainIfAny text))) =
      ((OpenAIChat.plainIfAny text).filterMap systemText).flatMap Glyph.ofText := by
  unfold OpenAIChat.plainIfAny
  cases text.filter (· ≠ "") with
  | none => rfl
  | some t => simp [textOrBlocks, contentShown, IrPart.plain, systemText]

theorem blockItems_buildPart {part : IrPart} (h : FromChat part) :
    (buildPart part).toList.flatMap blockItems = partItems part := by
  cases part with
  | text t signature => simp [buildPart, textBlock, blockItems, typeOf, takeString, partItems,
      Value.asStr, List.lookup_cons]
  | image url mediaType data detail =>
    cases data <;> simp [buildPart, imageSource, blockItems, typeOf, partItems, imageBlockToUrl,
      Value.asStr, Value.asObject, List.lookup_cons, Except.toOption]
  | toolCall id name args signature => simp [buildPart, blockItems, typeOf, takeString, partItems,
      Value.asStr, List.lookup_cons]
  | toolResult callId isError inner =>
    obtain ⟨text, rfl⟩ := h
    have hshown := contentShown_plainIfAny text
    simpa [buildPart, blockItems, typeOf, takeString, partItems, Value.asStr, List.lookup_cons] using
      hshown
  | thinking text signature =>
    cases hsig : claudeSignature signature with
    | none => simp [buildPart, thinkingBlock, hsig, blockItems, typeOf, partItems, Value.asStr,
        List.lookup_cons]
    | some value => simp [buildPart, thinkingBlock_signed hsig, blockItems, typeOf, partItems,
        Value.asStr, List.lookup_cons]
  | sealed by_ raw => cases h

theorem contentItems_textOrBlocks {parts : List IrPart} (h : ∀ part ∈ parts, FromChat part)
    {empty : Value} (hempty : contentItems empty = []) :
    contentItems (textOrBlocks empty parts) = parts.flatMap partItems := by
  have hblocks : (buildParts parts).flatMap blockItems = parts.flatMap partItems := by
    induction parts with
    | nil => rfl
    | cons part parts ih =>
      rw [buildParts, List.flatMap_append, blockItems_buildPart (h part List.mem_cons_self),
        ih fun p hp => h p (List.mem_cons_of_mem _ hp), List.flatMap_cons]
  cases parts with
  | nil => exact hempty
  | cons first rest =>
    cases rest with
    | nil =>
      cases first with
      | text t signature => exact (List.append_nil _).symm
      | image | toolCall | toolResult | thinking | sealed => exact hblocks
    | cons second rest => cases first <;> exact hblocks

/-- The history of a request that is built is that of the turns it is built from. -/
theorem history_build {ir : IrRequest} (h : ∀ msg ∈ ir.messages, ∀ part ∈ msg.parts, FromChat part) :
    (build ir).messages.flatMap (fun m => contentItems m.content) =
      ir.messages.flatMap fun m => m.parts.flatMap partItems := by
  have hmerged : ∀ msg ∈ mergeSameRole ir.messages, ∀ part ∈ msg.parts, FromChat part := by
    intro msg hmsg part hpart
    have hmem : part ∈ (mergeSameRole ir.messages).flatMap IrMessage.parts :=
      List.mem_flatMap.mpr ⟨msg, hmsg, hpart⟩
    rw [flatMap_mergeSameRole] at hmem
    obtain ⟨msg', hmsg', hpart'⟩ := List.mem_flatMap.mp hmem
    exact h msg' hmsg' part hpart'
  calc (build ir).messages.flatMap (fun m => contentItems m.content)
      = (mergeSameRole ir.messages).flatMap fun m => m.parts.flatMap partItems := by
        show ((mergeSameRole ir.messages).map buildMessage).flatMap _ = _
        rw [List.flatMap_map]
        apply List.flatMap_congr
        intro msg hmsg
        refine contentItems_textOrBlocks (hmerged msg hmsg) ?_
        cases msg.role <;> rfl
    _ = ((mergeSameRole ir.messages).flatMap IrMessage.parts).flatMap partItems :=
        List.flatMap_assoc.symm
    _ = (ir.messages.flatMap IrMessage.parts).flatMap partItems := by
        rw [flatMap_mergeSameRole]
    _ = _ := List.flatMap_assoc

theorem systemTexts_buildSystem (parts : List IrPart) :
    systemTexts (buildSystem parts) = parts.filterMap systemText := by
  unfold buildSystem
  generalize parts.filterMap systemText = texts
  match texts with
  | [] => rfl
  | [t] => rfl
  | t :: u :: texts =>
    show systemTexts (some (.array ((t :: u :: texts).map textBlock))) = _
    rw [systemTexts, List.filterMap_map]
    exact List.filterMap_some

end Claude

/-! ## What the reader reads -/

namespace OpenAIChat

theorem partItems_imagePart (d : ImageUrlDetail) :
    Claude.partItems (imagePart d) = [.image d.url] := by
  unfold imagePart
  split
  · rename_i mediaType data hsplit
    obtain ⟨rest, hrest, honce⟩ := Option.bind_eq_some_iff.mp hsplit
    rw [Claude.partItems, Text.stripPrefix_eq_some hrest, Text.splitOnce_eq_some honce]
    simp [String.append_assoc]
  · rfl

theorem partItems_contentPart (item : ContentPart) :
    Claude.partItems (contentPart item) = item.items := by
  cases item with
  | text t => rfl
  | imageUrl d => exact partItems_imagePart d

theorem plainIfAny_some (text : String) :
    plainIfAny (some text) = if text = "" then [] else [.plain text] := by
  by_cases h : text = "" <;> simp [plainIfAny, Option.filter, h]

theorem partItems_plainIfAny (text : String) :
    (plainIfAny (some text)).flatMap Claude.partItems = saidItem text := by
  rw [plainIfAny_some]
  by_cases h : text = ""
  · rw [if_pos h, h]
    rfl
  · rw [if_neg h]
    exact List.append_nil _

theorem partItems_userParts (content : Option MessageContent) :
    (userParts content).flatMap Claude.partItems = contentItems content := by
  match content with
  | none => rfl
  | some (.text t) => exact List.append_nil _
  | some (.parts parts) =>
    rw [userParts, List.flatMap_map]
    exact List.flatMap_congr fun item _ => partItems_contentPart item

/-- The parts of an assistant's content: empty texts are left out. -/
def saidParts : Option MessageContent → List IrPart
  | none => []
  | some (.text t) => plainIfAny (some t)
  | some (.parts items) => items.filterMap fun item =>
    if item = .text "" then none else some (contentPart item)

theorem assistantParts_eq (codec : JsonCodec) (content : Option MessageContent)
    (toolCalls : Option (List ToolCall)) (reasoning : Option String) :
    assistantParts codec content toolCalls reasoning =
      thinkingIfAny reasoning ++ saidParts content ++ readToolCalls codec toolCalls := rfl

theorem partItems_nonEmptyParts (parts : List ContentPart) :
    (parts.filterMap fun item => if item = .text "" then none else some (contentPart item)).flatMap
      Claude.partItems = parts.flatMap ContentPart.items := by
  induction parts with
  | nil => rfl
  | cons item parts ih =>
    rw [List.filterMap_cons, List.flatMap_cons, ← ih]
    by_cases h : item = .text ""
    · rw [if_pos h, h]
      rfl
    · rw [if_neg h, List.flatMap_cons, partItems_contentPart]

theorem partItems_saidParts (content : Option MessageContent) :
    (saidParts content).flatMap Claude.partItems = contentItems content := by
  match content with
  | none => rfl
  | some (.text t) => exact partItems_plainIfAny t
  | some (.parts items) => exact partItems_nonEmptyParts items

theorem partItems_thinkingIfAny (text : Option String) :
    (thinkingIfAny text).flatMap Claude.partItems = [] := by
  unfold thinkingIfAny
  cases text.filter (· ≠ "") <;> rfl

/-- The arguments of a call are the value they read as. -/
theorem partItems_readToolCall {codec : JsonCodec} (hcodec : codec.Lawful) {tc : ToolCall}
    (h : (codec.fromStr tc.function.arguments).isSome) :
    Claude.partItems (readToolCall codec tc) = [tc.item codec] := by
  obtain ⟨args, hargs⟩ := Option.isSome_iff_exists.mp h
  have hne : tc.function.arguments ≠ "" := by
    intro hempty
    rw [hempty, hcodec.read_empty] at hargs
    cases hargs
  simp [readToolCall, Claude.partItems, ToolCall.item, parseArguments, hne, hargs]

theorem partItems_assistantParts {codec : JsonCodec} (hcodec : codec.Lawful)
    (content : Option MessageContent) {toolCalls : Option (List ToolCall)}
    (h : ∀ tc ∈ toolCalls.getD [], (codec.fromStr tc.function.arguments).isSome)
    (reasoning : Option String) :
    (assistantParts codec content toolCalls reasoning).flatMap Claude.partItems =
      contentItems content ++ (toolCalls.getD []).map (ToolCall.item codec) := by
  have hcalls : (readToolCalls codec toolCalls).flatMap Claude.partItems =
      (toolCalls.getD []).map (ToolCall.item codec) := by
    rw [readToolCalls, List.flatMap_map, List.map_eq_flatMap]
    exact List.flatMap_congr fun tc htc => partItems_readToolCall hcodec (h tc htc)
  rw [assistantParts_eq, List.flatMap_append, List.flatMap_append, hcalls, partItems_thinkingIfAny,
    List.nil_append, partItems_saidParts]

/-- The content a tool message is read with: its texts. -/
def textsShown (content : Option MessageContent) : List (Glyph String) :=
  Glyph.ofText ((messageContentAsText content).getD "")

theorem partItems_toolResult (callId : String) (content : Option MessageContent) :
    Claude.partItems (.toolResult callId false (toolResultContent content)) =
      [.result callId (textsShown content)] := by
  rw [Claude.partItems, toolResultContent, textsShown]
  cases messageContentAsText content with
  | none => rfl
  | some text =>
    rw [plainIfAny_some]
    by_cases h : text = ""
    · rw [if_pos h, h]
      rfl
    · rw [if_neg h]
      exact congrArg (fun shown => [HistoryItem.result callId shown]) (List.append_nil _)

/-- What a message adds to the history that is built. -/
def readItems (codec : JsonCodec) (msg : OpenAIChatMessage) : List HistoryItem :=
  if msg.role = "tool" then [.result (msg.toolCallId.getD "") (textsShown msg.content)]
  else messageItems codec msg

theorem turn_items {codec : JsonCodec} (hcodec : codec.Lawful) {msg : OpenAIChatMessage}
    (h : ∀ tc ∈ msg.toolCalls.getD [], (codec.fromStr tc.function.arguments).isSome) :
    (turn codec msg).toList.flatMap (fun m => m.parts.flatMap Claude.partItems) =
      readItems codec msg := by
  unfold turn readItems messageItems
  by_cases hsystem : msg.role = "system" ∨ msg.role = "developer"
  · have htool : msg.role ≠ "tool" := by rcases hsystem with hrole | hrole <;> simp [hrole]
    rw [if_pos hsystem, if_neg htool, if_pos hsystem]
    rfl
  · rw [if_neg hsystem, if_neg hsystem]
    by_cases hassistant : msg.role = "assistant"
    · have htool : msg.role ≠ "tool" := by simp [hassistant]
      rw [if_pos hassistant, if_neg htool, if_pos hassistant, Option.toList_some,
        List.flatMap_singleton]
      exact partItems_assistantParts hcodec msg.content h msg.reasoningContent
    · by_cases htool : msg.role = "tool"
      · rw [if_neg hassistant, if_pos htool, if_pos htool, Option.toList_some,
          List.flatMap_singleton, List.flatMap_singleton]
        exact partItems_toolResult _ _
      · rw [if_neg hassistant, if_neg htool, if_neg htool, if_neg hassistant, if_neg htool,
          Option.toList_some, List.flatMap_singleton]
        exact partItems_userParts msg.content

theorem fromChat_contentPart (item : ContentPart) : Claude.FromChat (contentPart item) := by
  cases item with
  | text t => trivial
  | imageUrl d =>
    show Claude.FromChat (imagePart d)
    unfold imagePart
    split <;> trivial

theorem fromChat_plainIfAny (text : Option String) :
    ∀ part ∈ plainIfAny text, Claude.FromChat part := by
  intro part hpart
  unfold plainIfAny at hpart
  cases h : text.filter (· ≠ "") with
  | none =>
    rw [h] at hpart
    cases hpart
  | some t =>
    rw [h] at hpart
    obtain rfl := List.mem_singleton.mp hpart
    trivial

theorem fromChat_thinkingIfAny (text : Option String) :
    ∀ part ∈ thinkingIfAny text, Claude.FromChat part := by
  intro part hpart
  unfold thinkingIfAny at hpart
  cases h : text.filter (· ≠ "") with
  | none =>
    rw [h] at hpart
    cases hpart
  | some t =>
    rw [h] at hpart
    obtain rfl := List.mem_singleton.mp hpart
    trivial

theorem fromChat_userParts (content : Option MessageContent) :
    ∀ part ∈ userParts content, Claude.FromChat part := by
  match content with
  | none => exact fun _ h => absurd h List.not_mem_nil
  | some (.text t) => exact List.forall_mem_singleton.mpr trivial
  | some (.parts items) => exact List.forall_mem_map.mpr fun item _ => fromChat_contentPart item

theorem fromChat_saidParts (content : Option MessageContent) :
    ∀ part ∈ saidParts content, Claude.FromChat part := by
  match content with
  | none => exact fun _ h => absurd h List.not_mem_nil
  | some (.text t) => exact fromChat_plainIfAny (some t)
  | some (.parts items) =>
    intro part hpart
    obtain ⟨item, -, hitem⟩ := List.mem_filterMap.mp hpart
    split at hitem
    · cases hitem
    · cases hitem
      exact fromChat_contentPart item

theorem fromChat_turn {codec : JsonCodec} {msg : OpenAIChatMessage} {m : IrMessage}
    (h : turn codec msg = some m) : ∀ part ∈ m.parts, Claude.FromChat part := by
  unfold turn at h
  split at h
  · cases h
  · split at h
    · cases h
      intro part hpart
      rw [assistantParts_eq, List.append_assoc, List.mem_append, List.mem_append] at hpart
      rcases hpart with hthinking | hsaid | hcall
      · exact fromChat_thinkingIfAny _ part hthinking
      · exact fromChat_saidParts _ part hsaid
      · obtain ⟨tc, -, rfl⟩ := List.mem_map.mp hcall
        trivial
    · split at h
      · cases h
        exact List.forall_mem_singleton.mpr ⟨_, rfl⟩
      · cases h
        exact fromChat_userParts msg.content

/-- The history a request is converted to. -/
theorem history_converted {codec : JsonCodec} (hcodec : codec.Lawful) {req : OpenAIChatRequest}
    (h : ValidArguments codec req) :
    (Claude.build (read codec req)).messages.flatMap (fun m => Claude.contentItems m.content) =
      req.messages.flatMap (readItems codec) := by
  rw [Claude.history_build]
  · show (req.messages.filterMap (turn codec)).flatMap _ = _
    rw [List.filterMap_eq_flatMap_toList, List.flatMap_assoc]
    exact List.flatMap_congr fun msg hmsg => turn_items hcodec (h msg hmsg)
  · intro m hm
    obtain ⟨msg, -, hturn⟩ := List.mem_filterMap.mp hm
    exact fromChat_turn hturn

theorem image_mem_contentShown {content : Option MessageContent} (h : hasImage content = true) :
    ∃ url, Glyph.image url ∈ contentShown content := by
  match content with
  | some (.parts parts) =>
    obtain ⟨item, hitem, himage⟩ := List.any_eq_true.mp h
    cases item with
    | text t => cases himage
    | imageUrl d => exact ⟨d.url, List.mem_flatMap.mpr ⟨_, hitem, List.mem_singleton_self _⟩⟩

/-- A tool message shows its texts and nothing else exactly if it holds no image. -/
theorem textsShown_eq_iff (content : Option MessageContent) :
    textsShown content = contentShown content ↔ hasImage content = false := by
  match content with
  | none => exact iff_of_true rfl rfl
  | some (.text t) => exact iff_of_true rfl rfl
  | some (.parts parts) =>
    have htexts : textsShown (some (.parts parts)) = (parts.filterMap fun
        | .text t => some t
        | .imageUrl _ => none).flatMap Glyph.ofText := by
      simp only [textsShown, messageContentAsText]
      split
      · rename_i hnil
        exact (congrArg (List.flatMap Glyph.ofText) hnil).symm
      · exact Glyph.ofText_join _
    rw [htexts]
    constructor
    · intro heq
      apply Bool.eq_false_iff.mpr
      intro himage
      obtain ⟨url, hurl⟩ := image_mem_contentShown himage
      rw [← heq] at hurl
      simp [Glyph.ofText] at hurl
    · intro hnone
      have hall := List.any_eq_false.mp hnone
      clear hnone htexts
      induction parts with
      | nil => rfl
      | cons item parts ih =>
        have htail := ih fun i hi => hall i (List.mem_cons_of_mem _ hi)
        rw [contentShown, List.flatMap_cons]
        rw [contentShown] at htail
        rw [← htail]
        cases item with
        | text t => rfl
        | imageUrl d => exact absurd rfl (hall _ List.mem_cons_self)

theorem image_not_mem_textsShown (content : Option MessageContent) (url : String) :
    Glyph.image url ∉ textsShown content := by
  simp [textsShown, Glyph.ofText]

theorem result_not_mem_contentItems (content : Option MessageContent) (callId : String)
    (shown : List (Glyph String)) : .result callId shown ∉ contentItems content := by
  have hsaid (t : String) : HistoryItem.result callId shown ∉ saidItem t := by
    unfold saidItem
    split <;> simp
  match content with
  | none => exact List.not_mem_nil
  | some (.text t) => exact hsaid t
  | some (.parts items) =>
    intro hmem
    obtain ⟨item, -, hitem⟩ := List.mem_flatMap.mp hmem
    cases item with
    | text t => exact hsaid t hitem
    | imageUrl d => cases List.mem_singleton.mp hitem

/-- The results of the history that is built hold no image. -/
theorem result_mem_readItems {codec : JsonCodec} {msg : OpenAIChatMessage} {callId : String}
    {shown : List (Glyph String)} (h : .result callId shown ∈ readItems codec msg) (url : String) :
    Glyph.image url ∉ shown := by
  unfold readItems messageItems at h
  split at h
  · obtain ⟨-, rfl⟩ := HistoryItem.result.inj (List.mem_singleton.mp h)
    exact image_not_mem_textsShown msg.content url
  · split at h
    · cases h
    · split at h
      · rcases List.mem_append.mp h with hsaid | hcall
        · exact absurd hsaid (result_not_mem_contentItems _ _ _)
        · obtain ⟨tc, -, htc⟩ := List.mem_map.mp hcall
          cases htc
      · exact absurd h (result_not_mem_contentItems _ _ _)

end OpenAIChat

/-! ## The history in both formats -/

/-- A Claude request with the history of a Chat request, in turns. -/
structure HistoryKept (codec : JsonCodec) (req : OpenAIChatRequest) (out : ClaudeRequest) :
    Prop where
  roles : ∀ m ∈ out.messages, m.role = "user" ∨ m.role = "assistant"
  alternates : out.messages.IsChain fun a b => a.role ≠ b.role
  history : out.messages.flatMap (fun m => Claude.contentItems m.content) =
    req.messages.flatMap (OpenAIChat.messageItems codec)
  system : Claude.systemTexts out.system = req.messages.filterMap OpenAIChat.systemText

theorem alternates_build (ir : IrRequest) :
    (Claude.build ir).messages.IsChain fun a b => a.role ≠ b.role := by
  show ((Claude.mergeSameRole ir.messages).map Claude.buildMessage).IsChain _
  rw [List.isChain_map]
  refine (Claude.alternating_mergeSameRole ir.messages).imp ?_
  intro a b hab hnames
  cases hrole : a.role <;> cases hrole' : b.role <;>
    simp_all [Claude.buildMessage, Claude.roleName]

theorem roles_build (ir : IrRequest) :
    ∀ m ∈ (Claude.build ir).messages, m.role = "user" ∨ m.role = "assistant" := by
  intro m hm
  obtain ⟨msg, -, rfl⟩ := List.mem_map.mp hm
  show Claude.roleName msg.role = "user" ∨ Claude.roleName msg.role = "assistant"
  cases msg.role with
  | user => exact Or.inl rfl
  | assistant => exact Or.inr rfl

theorem system_converted (codec : JsonCodec) (req : OpenAIChatRequest) :
    Claude.systemTexts (Claude.build (OpenAIChat.read codec req)).system =
      req.messages.filterMap OpenAIChat.systemText := by
  show Claude.systemTexts (Claude.buildSystem (req.messages.filterMap OpenAIChat.systemPart)) = _
  rw [Claude.systemTexts_buildSystem, List.filterMap_filterMap]
  congr 1
  funext msg
  unfold OpenAIChat.systemPart OpenAIChat.systemText
  split
  · cases OpenAIChat.messageContentAsText msg.content <;> rfl
  · rfl

/-- The Claude request carries on the Chat history, turn by turn and piece by piece, exactly if no
tool message holds an image. -/
theorem historyKept_iff {codec : JsonCodec} (hcodec : codec.Lawful) {req : OpenAIChatRequest}
    (h : OpenAIChat.ValidArguments codec req) :
    HistoryKept codec req (Claude.build (OpenAIChat.read codec req)) ↔
      OpenAIChat.TextOnlyTools req := by
  have hhistory := OpenAIChat.history_converted hcodec h
  constructor
  · intro hkept msg hmsg htool
    have heq : req.messages.flatMap (OpenAIChat.readItems codec) =
        req.messages.flatMap (OpenAIChat.messageItems codec) := by
      rw [← hhistory, hkept.history]
    have hmem : .result (msg.toolCallId.getD "") (OpenAIChat.contentShown msg.content) ∈
        req.messages.flatMap (OpenAIChat.messageItems codec) := by
      refine List.mem_flatMap.mpr ⟨msg, hmsg, ?_⟩
      simp [OpenAIChat.messageItems, htool]
    rw [← heq] at hmem
    obtain ⟨other, -, hother⟩ := List.mem_flatMap.mp hmem
    apply Bool.eq_false_iff.mpr
    intro himage
    obtain ⟨url, hurl⟩ := OpenAIChat.image_mem_contentShown himage
    exact OpenAIChat.result_mem_readItems hother url hurl
  · intro htext
    refine ⟨roles_build _, alternates_build _, ?_, system_converted codec req⟩
    rw [hhistory]
    apply List.flatMap_congr
    intro msg hmsg
    unfold OpenAIChat.readItems
    split
    · rename_i htool
      have hshown := (OpenAIChat.textsShown_eq_iff msg.content).mpr (htext msg hmsg htool)
      simp [OpenAIChat.messageItems, htool, hshown]
    · rfl

/-- A call of a tool that answers with a picture. -/
def drawnRequest (answer : MessageContent) : OpenAIChatRequest where
  model := "gpt"
  messages := [
    ⟨"assistant", none, none, some [⟨"call_1", "function", ⟨"draw", "1"⟩⟩], none, none⟩,
    ⟨"tool", some answer, none, none, some "call_1", none⟩]
  temperature := none
  topP := none
  maxCompletionTokens := none
  maxTokens := none
  stop := none
  seed := none
  stream := none
  streamOptions := none
  tools := none
  toolChoice := none
  responseFormat := none
  n := none
  reasoningEffort := none
  reasoning := none

def pictureAnswer : MessageContent := .parts [.text "done", .imageUrl ⟨"https://a.b/c.png", none⟩]

theorem validArguments_drawnRequest (answer : MessageContent) :
    OpenAIChat.ValidArguments JsonText.compactCodec (drawnRequest answer) := by
  intro msg hmsg tc htc
  rcases List.mem_cons.mp hmsg with rfl | hmsg
  · obtain rfl := List.mem_singleton.mp htc
    decide +kernel
  · obtain rfl := List.mem_singleton.mp hmsg
    cases htc

theorem historyKept_iff_drawnRequest :
    OpenAIChat.ValidArguments JsonText.compactCodec (drawnRequest (.text "done")) ∧
      (HistoryKept JsonText.compactCodec (drawnRequest (.text "done"))
          (Claude.build (OpenAIChat.read JsonText.compactCodec (drawnRequest (.text "done")))) ↔
        OpenAIChat.TextOnlyTools (drawnRequest (.text "done"))) :=
  ⟨validArguments_drawnRequest _,
    historyKept_iff JsonText.compactCodec_lawful (validArguments_drawnRequest (.text "done"))⟩

/-- The picture is lost. -/
theorem drawnRequest_not_kept :
    OpenAIChat.ValidArguments JsonText.compactCodec (drawnRequest pictureAnswer) ∧
      ¬ HistoryKept JsonText.compactCodec (drawnRequest pictureAnswer)
        (Claude.build (OpenAIChat.read JsonText.compactCodec (drawnRequest pictureAnswer))) := by
  refine ⟨validArguments_drawnRequest _, fun hkept => ?_⟩
  have hhistory := hkept.history
  revert hhistory
  decide +kernel

end AnyConverter
