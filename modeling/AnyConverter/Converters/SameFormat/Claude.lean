import AnyConverter.Converters.RoundTrip
import AnyConverter.Converters.ChatToClaude

/-!
# A Claude request, read and built and read again

* `readBlocks_buildParts_iff`: which blocks come back;
* `read_build_messages_iff`, `read_build_reasoning_iff`: which messages and which reasoning do.
-/

set_option autoImplicit false

namespace AnyConverter.Claude

/-! ## Parts -/

mutual

/-- A part the reader gives. -/
def Readable : IrPart → Prop
  | .text _ signature => signature = none
  | .image url mediaType data detail =>
    detail = none ∧
      match data with
      | some data => url = "data:" ++ mediaType ++ ";base64," ++ data
      | none => mediaType = ""
  | .toolCall _ _ _ signature => signature = none
  | .toolResult _ _ content => AllReadable content
  | .thinking _ signature => ∀ s ∈ signature, s.by_ = .claude
  | .sealed by_ raw =>
    by_ = .claude ∧ ∃ obj, raw = .object obj ∧ typeOf obj = some "redacted_thinking"

def AllReadable : List IrPart → Prop
  | [] => True
  | part :: parts => Readable part ∧ AllReadable parts

end

mutual

/-- No tool result in a part is without content. -/
def Filled : IrPart → Prop
  | .toolResult _ _ content => content ≠ [] ∧ AllFilled content
  | _ => True

def AllFilled : List IrPart → Prop
  | [] => True
  | part :: parts => Filled part ∧ AllFilled parts

end

theorem allReadable_append {xs ys : List IrPart} (hxs : AllReadable xs) (hys : AllReadable ys) :
    AllReadable (xs ++ ys) := by
  induction xs with
  | nil => exact hys
  | cons part xs ih =>
    unfold AllReadable at hxs
    rw [List.cons_append, AllReadable]
    exact ⟨hxs.1, ih hxs.2⟩

theorem readable_readImage {obj : List (String × Value)} {part : IrPart}
    (h : readImage obj = some part) : Readable part := by
  unfold readImage at h
  split at h
  · rename_i url source hurl hsource
    cases h
    unfold Readable
    refine ⟨rfl, ?_⟩
    unfold imageBlockToUrl at hurl
    rw [hsource] at hurl
    dsimp only at hurl
    cases htype : (source.lookup "type").bind Value.asStr with
    | none =>
      rw [htype] at hurl
      cases hurl
    | some type =>
      rw [htype] at hurl
      dsimp only at hurl
      unfold typeOf
      rw [htype]
      by_cases hbase : type = "base64"
      · subst hbase
        simp only [if_true] at hurl ⊢
        split at hurl
        · cases hurl
        · rename_i mediaType hmedia
          split at hurl
          · cases hurl
          · rename_i data hdata
            cases hurl
            simp [textField, hmedia, hdata]
      · simp [hbase]
  · cases h

theorem readable_readObject {obj : List (String × Value)} {content : List IrPart} {part : IrPart}
    (hcontent : AllReadable content) (h : readObject obj content = some part) : Readable part := by
  unfold readObject at h
  split at h
  · cases h
  · rename_i blockType htype
    split at h
    · cases h
      rfl
    · split at h
      · exact readable_readImage h
      · split at h
        · cases h
          rfl
        · split at h
          · cases h
            exact hcontent
          · split at h
            · cases h
              intro s hs
              obtain ⟨value, -, rfl⟩ := Option.map_eq_some_iff.mp hs
              rfl
            · split at h
              · rename_i hsealed
                cases h
                exact ⟨rfl, obj, rfl, hsealed ▸ htype⟩
              · cases h

mutual

theorem allReadable_readParts : ∀ v : Value, AllReadable (readParts v)
  | .string text => by
    rw [readParts]
    exact ⟨rfl, trivial⟩
  | .array blocks => by
    rw [readParts]
    exact allReadable_readBlocks blocks
  | .null | .bool _ | .number _ | .object _ => by
    rw [readParts]
    · trivial
    all_goals simp

theorem allReadable_readBlocks : ∀ blocks : List Value, AllReadable (readBlocks blocks)
  | [] => by
    rw [readBlocks]
    trivial
  | block :: blocks => by
    rw [readBlocks]
    refine allReadable_append ?_ (allReadable_readBlocks blocks)
    cases hpart : readBlock block with
    | none => trivial
    | some part => exact ⟨readable_readBlock block part hpart, trivial⟩

theorem readable_readBlock : ∀ (v : Value) (part : IrPart), readBlock v = some part → Readable part
  | .object obj, part, h => by
    rw [readBlock] at h
    exact readable_readObject (allReadable_readContent obj) h
  | .null, _, h | .bool _, _, h | .number _, _, h | .string _, _, h | .array _, _, h => by
    rw [readBlock] at h
    · cases h
    all_goals simp

theorem allReadable_readContent :
    ∀ obj : List (String × Value), AllReadable (readContent obj)
  | [] => by
    rw [readContent]
    trivial
  | (key, v) :: rest => by
    rw [readContent]
    split
    · exact allReadable_readParts v
    · exact allReadable_readContent rest

end

/-! ## Parts that come back -/

/-- Blocks that are more than one lone text are read as they are built. -/
theorem readParts_textOrBlocks (empty : Value) {parts : List IrPart} (hne : parts ≠ [])
    (h : AllReadable parts) :
    readParts (textOrBlocks empty parts) = readBlocks (buildParts parts) := by
  match parts, hne with
  | [.text text signature], _ =>
    obtain rfl : signature = none := h.1
    rfl
  | [.image ..], _ | [.toolCall ..], _ | [.toolResult ..], _ | [.thinking ..], _
  | [.sealed ..], _ => rfl
  | first :: second :: rest, _ => cases first <;> rfl

mutual

/-- A part is built to a block that is read as one part, the same if no result lacks content. -/
theorem buildPart_back : ∀ part : IrPart, Readable part →
    ∃ block part', buildPart part = some block ∧ readBlock block = some part' ∧
      (part' = part ↔ Filled part)
  | .text text signature, h => by
    obtain rfl : signature = none := h
    exact ⟨_, _, rfl, rfl, by simp [IrPart.plain, Filled, takeString]⟩
  | .image url mediaType data detail, h => by
    obtain ⟨rfl, hdata⟩ := h
    cases data with
    | none =>
      obtain rfl : mediaType = "" := hdata
      exact ⟨_, _, rfl, rfl, by simp [Filled, typeOf]⟩
    | some data =>
      obtain rfl : url = "data:" ++ mediaType ++ ";base64," ++ data := hdata
      exact ⟨_, _, rfl, rfl, by simp [Filled, textField, typeOf, List.lookup_cons]⟩
  | .toolCall id name args signature, h => by
    obtain rfl : signature = none := h
    exact ⟨_, _, rfl, rfl, by simp [Filled, takeString, List.lookup_cons]⟩
  | .toolResult callId isError content, h => by
    have hcontent : AllReadable content := h
    have hread : readBlock (.object [("content", textOrBlocks (.string "") content),
        ("is_error", .bool isError), ("tool_use_id", .string callId),
        ("type", .string "tool_result")]) =
        some (.toolResult callId isError (readParts (textOrBlocks (.string "") content))) := rfl
    refine ⟨_, _, rfl, hread, ?_⟩
    unfold Filled
    by_cases hempty : content = []
    · subst hempty
      simp [textOrBlocks, readParts]
    · rw [readParts_textOrBlocks _ hempty hcontent]
      have hback := buildParts_back content hcontent
      simp [hempty, hback.1]
  | .thinking text signature, h => by
    cases signature with
    | none =>
      exact ⟨_, _, rfl, rfl, by
        simp [Filled, takeString, readSignature, takeOptString, List.lookup_cons]⟩
    | some s =>
      obtain ⟨by_, value⟩ := s
      obtain rfl : by_ = .claude := h _ rfl
      refine ⟨_, _, congrArg some (thinkingBlock_signed rfl text), rfl, ?_⟩
      simp [Filled, takeString, readSignature, takeOptString, List.lookup_cons]
  | .sealed by_ raw, h => by
    obtain ⟨rfl, obj, rfl, htype⟩ := h
    refine ⟨.object obj, .sealed .claude (.object obj), rfl, ?_, by simp [Filled]⟩
    rw [readBlock, readObject, htype]
    rfl

theorem buildParts_back : ∀ parts : List IrPart, AllReadable parts →
    (readBlocks (buildParts parts) = parts ↔ AllFilled parts) ∧
      (readBlocks (buildParts parts)).length = parts.length
  | [], _ => by simp [buildParts, readBlocks, AllFilled]
  | part :: parts, h => by
    obtain ⟨block, part', hbuild, hread, hback⟩ := buildPart_back part h.1
    obtain ⟨hrest, hlength⟩ := buildParts_back parts h.2
    rw [buildParts, hbuild, Option.toList_some, List.singleton_append, readBlocks, hread,
      Option.toList_some, List.singleton_append, List.cons.injEq, hback, hrest]
    refine ⟨Iff.rfl, ?_⟩
    simp [hlength]

end

/-! ## Messages -/

theorem readMessage_buildMessage (msg : IrMessage) : readMessage (buildMessage msg) =
    some ⟨msg.role, readParts (textOrBlocks (emptyContent msg.role) msg.parts)⟩ := by
  obtain ⟨role, parts⟩ := msg
  cases role <;> rfl

/-- A message comes back when it has something to say, or is the assistant's. -/
theorem readParts_content_iff {role : Role} {parts : List IrPart} (h : AllReadable parts) :
    readParts (textOrBlocks (emptyContent role) parts) = parts ↔
      (role = .user → parts ≠ []) ∧ AllFilled parts := by
  by_cases hempty : parts = []
  · subst hempty
    cases role
    · simp [textOrBlocks, emptyContent, readParts, AllFilled]
    · simp [textOrBlocks, emptyContent, readParts, readBlocks, AllFilled]
  · rw [readParts_textOrBlocks _ hempty h, (buildParts_back parts h).1]
    simp [hempty]

theorem read_build_messages_iff {messages : List IrMessage}
    (h : ∀ m ∈ messages, AllReadable m.parts) :
    ((mergeSameRole messages).map buildMessage).filterMap readMessage = messages ↔
      Alternating messages ∧
        ∀ m ∈ messages, (m.role = .user → m.parts ≠ []) ∧ AllFilled m.parts := by
  have hback : ∀ ms : List IrMessage, (ms.map buildMessage).filterMap readMessage =
      ms.map fun m => ⟨m.role, readParts (textOrBlocks (emptyContent m.role) m.parts)⟩ := by
    intro ms
    rw [List.filterMap_map, ← List.filterMap_eq_map]
    congr 1
    funext msg
    exact readMessage_buildMessage msg
  rw [hback]
  have hsame : messages.map
      (fun m => (⟨m.role, readParts (textOrBlocks (emptyContent m.role) m.parts)⟩ : IrMessage)) =
        messages ↔ ∀ m ∈ messages, (m.role = .user → m.parts ≠ []) ∧ AllFilled m.parts := by
    have hid := @List.map_inj_left _ _ messages
      (fun m => (⟨m.role, readParts (textOrBlocks (emptyContent m.role) m.parts)⟩ : IrMessage)) id
    rw [List.map_id] at hid
    rw [hid]
    refine forall_congr' fun m => forall_congr' fun hm => ?_
    rw [← readParts_content_iff (h m hm)]
    obtain ⟨role, parts⟩ := m
    simp
  constructor
  · intro heq
    have halternating : Alternating messages := by
      have hroles := congrArg (List.map IrMessage.role) heq
      rw [List.map_map] at hroles
      have hmerged := (List.isChain_map IrMessage.role).mpr (alternating_mergeSameRole messages)
      exact (List.isChain_map IrMessage.role).mp (hroles ▸ hmerged)
    rw [mergeSameRole_of_alternating halternating] at heq
    exact ⟨halternating, hsame.mp heq⟩
  · rintro ⟨halternating, hall⟩
    rw [mergeSameRole_of_alternating halternating]
    exact hsame.mpr hall

theorem readable_read (req : ClaudeRequest) : ∀ m ∈ (read req).messages, AllReadable m.parts := by
  intro m hm
  obtain ⟨msg, -, hread⟩ := List.mem_filterMap.mp hm
  obtain ⟨role, -, rfl⟩ := Option.map_eq_some_iff.mp hread
  exact allReadable_readParts msg.content

/-! ## The other fields -/

theorem readSystem_buildSystem (texts : List String) :
    readSystem (buildSystem (texts.map .plain)) = texts.map .plain := by
  have htexts : (texts.map IrPart.plain).filterMap systemText = texts := by
    rw [List.filterMap_map]
    exact List.filterMap_some
  unfold buildSystem
  rw [htexts]
  match texts with
  | [] => rfl
  | [text] => rfl
  | first :: second :: rest =>
    show ((first :: second :: rest).map textBlock).filterMap
      (fun item => (item.asObject.bind (takeOptString · "text")).map IrPart.plain) = _
    rw [List.filterMap_map, ← List.filterMap_eq_map]
    rfl

theorem readSystem_plain (system : Option Value) :
    ∃ texts : List String, readSystem system = texts.map .plain := by
  match system with
  | none => exact ⟨[], rfl⟩
  | some (.string text) => exact ⟨[text], rfl⟩
  | some (.array items) =>
    refine ⟨items.filterMap fun item => item.asObject.bind (takeOptString · "text"), ?_⟩
    rw [readSystem, List.map_filterMap]
  | some .null | some (.bool _) | some (.number _) | some (.object _) => exact ⟨[], rfl⟩

theorem readTools_buildTools (tools : List ClaudeTool) :
    let tools := tools.map readTool
    ((if tools.isEmpty then none else some (tools.map buildTool)).getD []).map readTool = tools := by
  have hback : ∀ tool : ClaudeTool, readTool (buildTool (readTool tool)) = readTool tool := by
    intro tool
    unfold readTool buildTool
    dsimp only
    by_cases hempty : tool.description.getD "" = ""
    · simp [hempty]
    · simp [hempty]
  cases tools with
  | nil => rfl
  | cons first rest => simp [hback]

theorem readToolChoice_buildToolChoice (choice : Option IrToolChoice) :
    readToolChoice (buildToolChoice choice) = choice := by
  cases choice with
  | none => rfl
  | some choice =>
    cases choice <;> simp [buildToolChoice, readToolChoice, Value.get, List.lookup_cons]

theorem clampUnit_eq_iff (x : F32) : x.clampUnit = x ↔ 0 ≤ x.mantissa ∧ x.aboveOne = false := by
  unfold F32.clampUnit
  split
  · rename_i hneg
    constructor
    · intro heq
      rw [← heq] at hneg
      exact absurd hneg (by decide)
    · rintro ⟨hpos, -⟩
      omega
  · split
    · rename_i habove
      constructor
      · intro heq
        rw [← heq] at habove
        exact absurd habove (by decide)
      · rintro ⟨-, hbelow⟩
        rw [habove] at hbelow
        cases hbelow
    · rename_i hneg hbelow
      simp only [Bool.not_eq_true] at hbelow
      simp [hbelow]
      omega

/-- A history with thinking turns it on. -/
theorem readReasoning_buildThinking_iff {reasoning : Reasoning} (maxTokens : Nat)
    (messages : List IrMessage) (h : reasoning = .off ∨ ∃ tokens, reasoning = .budget tokens) :
    readReasoning (buildThinking reasoning maxTokens messages) = reasoning ↔
      (reasoning = .off → (messages.any fun m => m.parts.any isThinking) = false) := by
  rcases h with rfl | ⟨tokens, rfl⟩
  · unfold buildThinking
    cases hany : messages.any fun m => m.parts.any isThinking
    · simp [readReasoning]
    · simp [readReasoning]
  · simp [buildThinking, readReasoning]

/-! ## The request -/

/-- A limit that is not said is `defaultMaxTokens`. -/
def fillDefaults (ir : IrRequest) : IrRequest :=
  { ir with
    sampling := { ir.sampling with
      maxTokens := some (ir.sampling.maxTokens.getD defaultMaxTokens) } }

/-- What Claude's builder writes so that its reader gives it back. -/
structure Returns (ir : IrRequest) : Prop where
  /-- no turn is merged with the one before it -/
  alternating : Alternating ir.messages
  /-- no empty content becomes an empty text -/
  filled : ∀ m ∈ ir.messages, (m.role = .user → m.parts ≠ []) ∧ AllFilled m.parts
  /-- no temperature is clamped -/
  temperature : ∀ t ∈ ir.sampling.temperature, 0 ≤ t.mantissa ∧ t.aboveOne = false
  /-- no history turns thinking on -/
  thinking : ir.reasoning = .off → (ir.messages.any fun m => m.parts.any isThinking) = false

theorem read_reasoning (req : ClaudeRequest) :
    (read req).reasoning = .off ∨ ∃ tokens, (read req).reasoning = .budget tokens := by
  show readReasoning req.thinking = .off ∨ ∃ tokens, readReasoning req.thinking = .budget tokens
  unfold readReasoning
  split
  · split
    · exact Or.inr ⟨_, rfl⟩
    · exact Or.inl rfl
  · exact Or.inl rfl

theorem read_build_extra (req : ClaudeRequest) :
    (read (build (read req))).extra = (read req).extra := by
  cases hmetadata : req.metadata with
  | none => simp [read, build, hmetadata, NamespacedExtra.putOption, NamespacedExtra.take]
  | some metadata =>
    simp [read, build, hmetadata, NamespacedExtra.putOption, NamespacedExtra.put,
      NamespacedExtra.putField, NamespacedExtra.take]

/-- **Which requests come back.** -/
theorem read_build_iff (req : ClaudeRequest) :
    fillDefaults (read (build (read req))) = fillDefaults (read req) ↔ Returns (read req) := by
  have hsystem : (read (build (read req))).system = (read req).system := by
    obtain ⟨texts, htexts⟩ := readSystem_plain req.system
    show readSystem (buildSystem (readSystem req.system)) = readSystem req.system
    rw [htexts, readSystem_buildSystem]
  have htools : (read (build (read req))).tools = (read req).tools :=
    readTools_buildTools (req.tools.getD [])
  have hchoice : (read (build (read req))).toolChoice = (read req).toolChoice :=
    readToolChoice_buildToolChoice _
  have hstream : (read (build (read req))).stream = (read req).stream := by
    show (if (read req).stream then some true else none).getD false = (read req).stream
    cases (read req).stream <;> rfl
  have hstop : (read (build (read req))).sampling.stop = (read req).sampling.stop := by
    show (if (read req).sampling.stop = [] then none else some (read req).sampling.stop).getD [] =
      (read req).sampling.stop
    split
    · rename_i hempty
      exact hempty.symm
    · rfl
  have hmessages := read_build_messages_iff (readable_read req)
  have hreasoning := readReasoning_buildThinking_iff req.maxTokens (read req).messages
    (read_reasoning req)
  have htemperature : (read req).sampling.temperature.map F32.clampUnit =
      (read req).sampling.temperature ↔
        ∀ t ∈ (read req).sampling.temperature, 0 ≤ t.mantissa ∧ t.aboveOne = false := by
    cases (read req).sampling.temperature with
    | none => simp
    | some t => simp [clampUnit_eq_iff]
  rw [IrRequest.eq_iff]
  constructor
  · rintro ⟨-, -, hm, -, -, hs, -, hr, -⟩
    have hsame := hmessages.mp hm
    refine ⟨hsame.1, hsame.2, htemperature.mp ?_, hreasoning.mp hr⟩
    exact congrArg Sampling.temperature hs
  · rintro ⟨halternating, hfilled, ht, hthinking⟩
    refine ⟨rfl, hsystem, hmessages.mpr ⟨halternating, hfilled⟩, htools, hchoice, ?_, hstream,
      hreasoning.mpr hthinking, read_build_extra req⟩
    have htemp := htemperature.mpr ht
    show (⟨_, (read req).sampling.temperature.map F32.clampUnit, _, _, _⟩ : Sampling) =
      ⟨_, (read req).sampling.temperature, _, _, _⟩
    rw [htemp]
    exact congrArg (fun stop => (⟨_, _, _, _, stop⟩ : Sampling)) hstop

end AnyConverter.Claude
