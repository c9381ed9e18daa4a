import AnyConverter.Converters.RoundTrip
import AnyConverter.Converters.ChatToClaude

/-!
# A Responses request, read and built and read again

* `foldl_inputItems`: the items of a turn add its parts to it, without its reasoning;
* `fields_back`: the fields nobody names, and those a request keeps for itself, stay what they were;
* `read_build_iff`: which requests come back.
-/

set_option autoImplicit false

namespace AnyConverter.OpenAIResponses

variable {codec : JsonCodec}

/-! ## Turns the reader gives -/

/-- A part the reader gives in a message of a role. -/
def Readable (role : Role) : IrPart → Prop
  | .text _ signature => signature = none
  | .image url mediaType data detail =>
    url ≠ "" ∧ IrPart.image url mediaType data detail = imageFromUrl url detail
  | .toolCall _ name _ signature => role = .assistant ∧ name ≠ "" ∧ signature = none
  | .toolResult _ isError content =>
    role = .user ∧ isError = false ∧ ∃ text, content = [.plain text]
  | _ => True

/-- A turn the reader gives. -/
structure ReadTurn (m : IrMessage) : Prop where
  parts_ne : m.parts ≠ []
  readable : ∀ p ∈ m.parts, Readable m.role p

theorem readable_partFromValue (role : Role) {part : Value} {p : IrPart}
    (h : partFromValue part = some p) : Readable role p := by
  obtain ⟨obj, -, hobj⟩ := Option.bind_eq_some_iff.mp h
  unfold partFromObject at hobj
  split at hobj
  · cases hobj
    rfl
  · split at hobj
    · split at hobj
      · cases hobj
      · rename_i hne
        cases hobj
        unfold imageFromUrl
        split
        · rename_i mediaType data hparse
          refine ⟨hne, ?_⟩
          rw [imageFromUrl, hparse]
        · rename_i hparse
          refine ⟨hne, ?_⟩
          rw [imageFromUrl, hparse]
    · cases hobj

theorem readable_contentToParts (role : Role) (content : Value) :
    ∀ p ∈ contentToParts content, Readable role p := by
  intro p hp
  unfold contentToParts at hp
  split at hp
  · rw [List.mem_singleton] at hp
    subst hp
    rfl
  · obtain ⟨part, -, hpart⟩ := List.mem_filterMap.mp hp
    exact readable_partFromValue role hpart
  · cases hp

theorem readable_readItem {item : List (String × Value)} {role : Role} {parts : List IrPart}
    (h : readItem codec item = .parts role parts) : ∀ p ∈ parts, Readable role p := by
  unfold readItem at h
  split at h
  · unfold readMessageItem at h
    split at h
    · split at h
      · split at h <;> cases h
      · split at h
        · cases h
          intro p hp
          cases hcontent : item.lookup "content" with
          | none =>
            rw [hcontent] at hp
            cases hp
          | some content =>
            rw [hcontent] at hp
            exact readable_contentToParts .user content p hp
        · split at h
          · cases h
            intro p hp
            cases hcontent : item.lookup "content" with
            | none =>
              rw [hcontent] at hp
              cases hp
            | some content =>
              rw [hcontent] at hp
              exact readable_contentToParts .assistant content p hp
          · cases h
    · cases h
  · cases h
    intro p hp
    rw [Option.mem_toList] at hp
    unfold readFunctionCall at hp
    split at hp
    · cases hp
    · rename_i hne
      cases hp
      exact ⟨rfl, hne, rfl⟩
  · cases h
    intro p hp
    rw [List.mem_singleton] at hp
    subst hp
    exact ⟨rfl, rfl, _, rfl⟩
  · cases h
    intro p hp
    rw [List.mem_singleton] at hp
    subst hp
    unfold readReasoningItem
    dsimp only
    split
    · trivial
    · split
      · rename_i part hsealed
        unfold claudeSealedPart at hsealed
        split at hsealed
        · cases hsealed
        · split at hsealed
          · split at hsealed
            · cases hsealed
              trivial
            · split at hsealed
              · cases hsealed
                trivial
              · cases hsealed
          · cases hsealed
      · split <;> trivial
  · cases h

/-- What holds of the messages and of the one that is added holds of all, when it holds of two that
are put together. -/
theorem forall_extendLast {P : IrMessage → Prop} {msg : IrMessage} {messages : List IrMessage}
    (hall : ∀ m ∈ messages, P m) (hmsg : P msg)
    (hmerge : ∀ last, P last → last.role = msg.role → P { last with parts := last.parts ++ msg.parts }) :
    ∀ m ∈ extendLast msg messages, P m := by
  rcases List.eq_nil_or_concat messages with rfl | ⟨before, last, rfl⟩
  · intro m hm
    rw [extendLast, List.mem_singleton] at hm
    exact hm ▸ hmsg
  · rw [List.concat_eq_append] at hall ⊢
    have hlast := hall last (List.mem_append_right _ List.mem_cons_self)
    by_cases hrole : last.role = msg.role
    · rw [extendLast_eq before hrole]
      intro m hm
      rcases List.mem_append.mp hm with hin | hin
      · exact hall m (List.mem_append_left _ hin)
      · rw [List.mem_singleton] at hin
        exact hin ▸ hmerge last hlast hrole
    · rw [extendLast_ne (by simpa using hrole)]
      intro m hm
      rcases List.mem_append.mp hm with hin | hin
      · exact hall m hin
      · rw [List.mem_singleton] at hin
        exact hin ▸ hmsg

theorem readTurn_pushMessage {messages : List IrMessage} {role : Role} {parts : List IrPart}
    (hall : ∀ m ∈ messages, ReadTurn m) (hparts : ∀ p ∈ parts, Readable role p) :
    ∀ m ∈ pushMessage messages role parts, ReadTurn m := by
  unfold pushMessage
  split
  · exact hall
  · rename_i hsome
    have hne : parts ≠ [] := by simpa using hsome
    refine forall_extendLast hall ⟨hne, hparts⟩ ?_
    rintro ⟨lastRole, lastParts⟩ hlast rfl
    refine ⟨by simp [hne], ?_⟩
    intro p hp
    rcases List.mem_append.mp hp with hin | hin
    · exact hlast.readable p hin
    · exact hparts p hin

theorem readTurn_foldl (items : List Value) {st : InputState} (hst : ∀ m ∈ st.messages, ReadTurn m) :
    ∀ m ∈ (items.foldl (readInputItem codec) st).messages, ReadTurn m := by
  induction items generalizing st with
  | nil => exact hst
  | cons item items ih =>
    refine ih ?_
    unfold readInputItem
    split
    · split
      · exact hst
      · rename_i hparts
        exact readTurn_pushMessage hst (readable_readItem hparts)
      · exact hst
    · exact hst

theorem readTurn_readInput (input : Option Value) :
    ∀ m ∈ (readInput codec input).messages, ReadTurn m := by
  have hnil : ∀ m ∈ ({} : InputState).messages, ReadTurn m :=
    fun m hm => absurd hm List.not_mem_nil
  unfold readInput
  split
  · refine @readTurn_pushMessage [] .user [IrPart.plain _] hnil ?_
    intro p hp
    rw [List.mem_singleton] at hp
    subst hp
    rfl
  · exact readTurn_foldl _ hnil
  · exact hnil

theorem alternating_readInput (input : Option Value) :
    Alternating (readInput codec input).messages := by
  unfold readInput
  split
  · exact alternating_extendLast List.IsChain.nil
  · exact alternating_foldl _ List.IsChain.nil
  · exact List.IsChain.nil

/-! ## What is written of a turn -/

/-- A part that is written: of reasoning, nothing is. -/
def IsKept : IrPart → Bool
  | .thinking _ _ => false
  | .sealed _ _ => false
  | _ => true

theorem partFromValue_text (role : Role) (text : String) :
    partFromValue (textPart role text) = some (.plain text) := by
  cases role <;>
    simp [partFromValue, textPart, textPartType, Value.asObject, partFromObject, typeOf, isTextType,
      takeString, List.lookup_cons]

theorem partFromValue_imagePart {url : String} (h : url ≠ "") (detail : Option String) :
    partFromValue (imagePart url detail) = some (imageFromUrl url detail) := by
  cases detail with
  | none =>
    simp [partFromValue, imagePart, Value.asObject, partFromObject, typeOf, isTextType,
      takeImageUrl, takeOptString, List.lookup_cons, h]
  | some detail =>
    simp [partFromValue, imagePart_some, Value.asObject, partFromObject, typeOf, isTextType,
      takeImageUrl, takeOptString, List.lookup_cons, h]

/-- Gathered content comes back as the parts it was written for. -/
theorem foldl_flushInput (role : Role) {content : List Value} {gathered : List IrPart}
    (h : content.map partFromValue = gathered.map some) (st : InputState) :
    (flushInput role content).foldl (readInputItem codec) st = st.push role gathered := by
  cases content with
  | nil =>
    obtain rfl : gathered = [] := by simpa using h.symm
    rfl
  | cons first rest =>
    have hread : contentToParts (.array (first :: rest)) = gathered := by
      have hfilter : (first :: rest).filterMap partFromValue =
          ((first :: rest).map partFromValue).filterMap id := by
        rw [List.filterMap_map]
        rfl
      rw [contentToParts, hfilter, h, List.filterMap_map]
      exact List.filterMap_some
    have hflush : flushInput role (first :: rest) = [messageItem role (first :: rest)] := rfl
    rw [hflush, List.foldl_cons, List.foldl_nil, messageItem]
    refine readInputItem_parts ?_ st
    cases role <;>
      simp [readItem, inputItemKind, typeOf, readMessageItem, roleName, List.lookup_cons, hread]

theorem readInputItem_functionCallOutputItem (id text : String) (st : InputState) :
    readInputItem codec st (functionCallOutputItem id [.plain text]) =
      st.push .user [.toolResult id false [.plain text]] := by
  refine readInputItem_parts ?_ st
  simp [readItem, inputItemKind, typeOf, takeString, partsToText, irText, IrPart.plain,
    List.lookup_cons]

/-- **Reading the items of a turn adds its parts to it, without its reasoning.** -/
theorem foldl_inputItems (h : codec.Lawful) {role : Role} {parts : List IrPart}
    (hparts : ∀ p ∈ parts, Readable role p) {content : List Value} {gathered : List IrPart}
    (hcontent : content.map partFromValue = gathered.map some) (st : InputState) :
    (inputItems codec role content parts).foldl (readInputItem codec) st =
      st.push role (gathered ++ parts.filter IsKept) := by
  induction parts generalizing content gathered st with
  | nil =>
    rw [List.filter_nil, List.append_nil]
    exact foldl_flushInput role hcontent st
  | cons p parts ih =>
    have hp := hparts p List.mem_cons_self
    have hrest := fun q hq => hparts q (List.mem_cons_of_mem _ hq)
    -- a part that is gathered goes to the end of the content
    have hgather : ∀ v : Value, partFromValue v = some p → IsKept p = true →
        (inputItems codec role (content ++ [v]) parts).foldl (readInputItem codec) st =
          st.push role (gathered ++ (p :: parts).filter IsKept) := by
      intro v hv hkept
      have hmore : (content ++ [v]).map partFromValue = (gathered ++ [p]).map some := by
        rw [List.map_append, List.map_append, hcontent, List.map_singleton, hv]
        rfl
      rw [ih hrest hmore, List.filter_cons, if_pos hkept, List.append_assoc]
      rfl
    -- a part with an item of its own closes the content before it
    have hitem : ∀ v : Value, (∀ st : InputState, readInputItem codec st v = st.push role [p]) →
        IsKept p = true →
        (flushInput role content ++ v :: inputItems codec role [] parts).foldl
          (readInputItem codec) st = st.push role (gathered ++ (p :: parts).filter IsKept) := by
      intro v hv hkept
      have hnone := @ih hrest [] [] rfl
      rw [List.foldl_append, foldl_flushInput role hcontent, List.foldl_cons, hv, hnone, push_push,
        push_push, List.filter_cons, if_pos hkept]
      rfl
    cases p with
    | text text signature =>
      obtain rfl : signature = none := hp
      exact hgather _ (partFromValue_text role text) rfl
    | image url mediaType data detail =>
      obtain ⟨hne, himage⟩ := hp
      refine hgather (imagePart url detail) ?_ rfl
      rw [partFromValue_imagePart hne, himage]
    | toolCall id name args signature =>
      obtain ⟨rfl, hname, rfl⟩ := hp
      exact hitem _ (readInputItem_functionCallItem h hname id args) rfl
    | toolResult id isError result =>
      obtain ⟨rfl, rfl, text, rfl⟩ := hp
      exact hitem _ (readInputItem_functionCallOutputItem id text) rfl
    | thinking text signature => exact ih hrest hcontent st
    | sealed by_ raw => exact ih hrest hcontent st

/-- A turn, without its reasoning. -/
def keptTurn (m : IrMessage) : IrMessage := { m with parts := m.parts.filter IsKept }

theorem readInput_messagesToInput (h : codec.Lawful) {messages : List IrMessage}
    (hmessages : ∀ m ∈ messages, ReadTurn m) :
    readInput codec (messagesToInput codec messages) =
      messages.foldl (fun st m => st.push m.role (keptTurn m).parts) {} := by
  have hfold : ∀ st : InputState,
      (messages.flatMap fun m => inputItems codec m.role [] m.parts).foldl (readInputItem codec) st =
        messages.foldl (fun st m => st.push m.role (keptTurn m).parts) st := by
    induction messages with
    | nil => exact fun _ => rfl
    | cons m messages ih =>
      intro st
      have hm := (hmessages m List.mem_cons_self).readable
      rw [List.flatMap_cons, List.foldl_append, List.foldl_cons,
        @foldl_inputItems codec h m.role m.parts hm [] [] rfl st,
        ih fun m' hm' => hmessages m' (List.mem_cons_of_mem _ hm')]
      rfl
  unfold messagesToInput
  split
  · rename_i hnil
    have hnone := hfold {}
    rw [hnil] at hnone
    exact hnone
  · exact hfold {}

/-- Turns without reasoning give no system prompt, and all their parts in their order. -/
theorem foldl_push (messages : List IrMessage) (st : InputState) :
    (messages.foldl (fun st m => st.push m.role (keptTurn m).parts) st).systemTexts =
        st.systemTexts ∧
      (messages.foldl (fun st m => st.push m.role (keptTurn m).parts) st).messages.flatMap
          IrMessage.parts =
        st.messages.flatMap IrMessage.parts ++
          (messages.flatMap IrMessage.parts).filter IsKept := by
  induction messages generalizing st with
  | nil => exact ⟨rfl, (List.append_nil _).symm⟩
  | cons m messages ih =>
    obtain ⟨hsystem, hparts⟩ := ih (st.push m.role (keptTurn m).parts)
    have hpush : (st.push m.role (keptTurn m).parts).messages.flatMap IrMessage.parts =
        st.messages.flatMap IrMessage.parts ++ m.parts.filter IsKept := by
      unfold InputState.push pushMessage
      split
      · rename_i hempty
        have hnil : m.parts.filter IsKept = [] := by simpa [keptTurn] using hempty
        rw [hnil, List.append_nil]
      · exact Claude.flatMap_extendLast _ _
    refine ⟨hsystem, ?_⟩
    rw [List.foldl_cons, hparts, hpush, List.flatMap_cons, List.filter_append, List.append_assoc]

/-- Turns that alternate and keep all their parts are not merged. -/
theorem foldl_push_of_kept {messages : List IrMessage}
    (hturns : ∀ m ∈ messages, ReadTurn m) (hkept : ∀ m ∈ messages, ∀ p ∈ m.parts, IsKept p = true)
    (halternating : Alternating messages) :
    (messages.foldl (fun (st : InputState) m => st.push m.role (keptTurn m).parts) {}).messages =
      messages := by
  have hfold : ∀ (messages : List IrMessage) (st : InputState), (∀ m ∈ messages, ReadTurn m) →
      (∀ m ∈ messages, ∀ p ∈ m.parts, IsKept p = true) →
      (messages.foldl (fun st m => st.push m.role (keptTurn m).parts) st).messages =
        messages.foldl (fun out m => extendLast m out) st.messages := by
    intro messages
    induction messages with
    | nil => exact fun _ _ _ => rfl
    | cons m messages ih =>
      intro st hturns hkept
      have hall : m.parts.filter IsKept = m.parts :=
        List.filter_eq_self.mpr (hkept m List.mem_cons_self)
      have hne : ¬ (m.parts.isEmpty = true) := by
        simpa using (hturns m List.mem_cons_self).parts_ne
      have hpush : (st.push m.role (keptTurn m).parts).messages = extendLast m st.messages := by
        rw [InputState.push, keptTurn, pushMessage, hall, if_neg hne]
      rw [List.foldl_cons, List.foldl_cons,
        ih _ (fun m' hm' => hturns m' (List.mem_cons_of_mem _ hm'))
          (fun m' hm' => hkept m' (List.mem_cons_of_mem _ hm')), hpush]
  rw [hfold messages {} hturns hkept]
  exact Claude.mergeSameRole_of_alternating halternating

/-- **The turns come back when none of their parts is reasoning.** -/
theorem messages_back_iff (h : codec.Lawful) (input : Option Value) :
    (readInput codec (messagesToInput codec (readInput codec input).messages)).messages =
        (readInput codec input).messages ↔
      ∀ m ∈ (readInput codec input).messages, ∀ p ∈ m.parts, IsKept p = true := by
  have hturns := @readTurn_readInput codec input
  rw [readInput_messagesToInput h hturns]
  constructor
  · intro hsame m hm p hp
    have hparts := (foldl_push (readInput codec input).messages {}).2
    rw [hsame] at hparts
    have hall := List.filter_eq_self.mp hparts.symm
    exact hall p (List.mem_flatMap.mpr ⟨m, hm, hp⟩)
  · intro hkept
    exact foldl_push_of_kept hturns hkept (alternating_readInput input)

/-! ## Tools -/

/-- Responses is strict where nothing is said. -/
def fillTool (tool : IrTool) : IrTool := { tool with strict := some (tool.strict.getD true) }

theorem name_functionTool {obj : List (String × Value)} {tool : IrTool}
    (h : functionTool obj = some tool) : tool.name ≠ "" := by
  unfold functionTool at h
  split at h
  · cases h
  · rename_i hne
    cases h
    exact hne

theorem qualify_ne_empty {space shortName : String} (h : shortName ≠ "") :
    qualify space shortName ≠ "" := by
  unfold qualify
  split
  · exact h
  · intro heq
    have hlist := congrArg String.toList heq
    simp at hlist

/-- No tool without a name. -/
def Tools.Named (acc : Tools) : Prop := ∀ tool ∈ acc.tools, tool.name ≠ ""

theorem Tools.Named.readChild {acc : Tools} (hacc : acc.Named) (space : String)
    (description : Option String) (child : Value) : (readChild space description acc child).Named := by
  unfold OpenAIResponses.readChild
  split
  · exact hacc
  · rename_i obj _
    split
    · exact hacc
    · dsimp only
      split
      · exact hacc
      · rename_i found hfound
        intro tool htool
        rcases List.mem_append.mp htool with hin | hin
        · exact hacc tool hin
        · rw [List.mem_singleton] at hin
          subst hin
          -- the short name that is qualified is the one the function was read with
          have hshort : ((obj.lookup "name").bind Value.asStr).getD "" ≠ "" := by
            intro hempty
            have hname : takeString obj "name" = "" := by
              unfold takeString
              split
              · rename_i text htext
                rw [htext] at hempty
                exact hempty
              · rfl
            rw [functionTool, if_pos hname] at hfound
            cases hfound
          exact qualify_ne_empty hshort

theorem Tools.Named.readTool {acc : Tools} (hacc : acc.Named) (wire : Value) :
    (readTool acc wire).Named := by
  have hchildren : ∀ (space : String) (description : Option String) (children : List Value)
      (acc : Tools), acc.Named →
      (children.foldl (OpenAIResponses.readChild space description) acc).Named := by
    intro space description children
    induction children with
    | nil => exact fun _ hacc => hacc
    | cons child children ih =>
      exact fun acc hacc => ih _ (hacc.readChild space description child)
  unfold OpenAIResponses.readTool
  split
  · exact hacc
  · split
    · intro tool htool
      rcases List.mem_append.mp htool with hin | hin
      · exact hacc tool hin
      · exact name_functionTool (Option.mem_toList.mp hin)
    · split
      · split
        · exact hchildren _ _ _ _ hacc
        · exact hacc
      · exact hacc

theorem named_readTools (tools : Option (List Value)) : (readTools tools).Named := by
  have hfold : ∀ (wires : List Value) (acc : Tools), acc.Named →
      (wires.foldl readTool acc).Named := by
    intro wires
    induction wires with
    | nil => exact fun _ hacc => hacc
    | cons wire wires ih => exact fun acc hacc => ih _ (hacc.readTool wire)
  exact hfold _ {} fun tool htool => absurd htool List.not_mem_nil

/-- A tool that is written reads as itself, strict where nothing was said. -/
theorem readTool_toolToValue {tool : IrTool} (h : tool.name ≠ "") (acc : Tools) :
    readTool acc (toolToValue tool) = { acc with tools := acc.tools ++ [fillTool tool] } := by
  obtain ⟨name, description, schema, strict⟩ := tool
  have hname : name ≠ "" := h
  by_cases hempty : description = ""
  · subst hempty
    simp [toolToValue, readTool, Value.asObject, typeOf, functionTool, takeString, fillTool,
      List.lookup_cons, hname, Value.asBool]
  · rw [toolToValue_described hempty]
    simp [readTool, Value.asObject, typeOf, functionTool, takeString, fillTool, List.lookup_cons,
      hname, Value.asBool]

theorem readTools_map {tools : List IrTool} (h : ∀ tool ∈ tools, tool.name ≠ "") :
    readTools (if tools.isEmpty then none else some (tools.map toolToValue)) =
      { tools := tools.map fillTool } := by
  have hfold : ∀ acc : Tools, (tools.map toolToValue).foldl readTool acc =
      { acc with tools := acc.tools ++ tools.map fillTool } := by
    induction tools with
    | nil =>
      intro acc
      simp
    | cons tool tools ih =>
      intro acc
      have htool := readTool_toolToValue (h tool List.mem_cons_self) acc
      rw [List.map_cons, List.foldl_cons, htool,
        ih fun t ht => h t (List.mem_cons_of_mem _ ht)]
      simp
  cases tools with
  | nil => rfl
  | cons tool tools => exact hfold {}

theorem readToolChoice_toolChoiceToValue (choice : Option IrToolChoice) :
    readToolChoice (choice.map toolChoiceToValue) [] = choice := by
  cases choice with
  | none => rfl
  | some choice =>
    cases choice with
    | named name =>
      simp [toolChoiceToValue, readToolChoice, chosenName, typeOf, List.lookup_cons]
    | auto => rfl
    | none => rfl
    | required => rfl

/-! ## The other fields -/

/-- The fields nobody names are sorted, and none of them is one a request names. -/
structure Flat (req : OpenAIResponsesRequest) : Prop where
  sorted : Value.SortedByKey req.extra
  named : ∀ f ∈ req.extra, f.1 ∉ requestFields

theorem flat_ofValue {body : Value} {req : OpenAIResponsesRequest}
    (h : OpenAIResponsesRequest.ofValue body = some req) : Flat req := by
  cases body with
  | object obj =>
    unfold OpenAIResponsesRequest.ofValue at h
    iterate 13 obtain ⟨_, -, h⟩ := Option.bind_eq_some_iff.mp h
    cases h
    obtain ⟨hsorted, hmem⟩ := @Value.foldl_insertField (obj.filter fun f => f.1 ∉ requestFields)
      [] List.Pairwise.nil
    refine ⟨hsorted, ?_⟩
    intro f hf
    rcases hmem f hf with hin | hin
    · cases hin
    · exact of_decide_eq_true (List.mem_filter.mp hin).2
  | _ => cases h

/-- The fields a request keeps for itself, in the order they are put. -/
def ownEntries (req : OpenAIResponsesRequest) : List (String × Value) :=
  (req.text.map fun v => ("text", v)).toList ++
    (req.reasoning.map fun v => ("reasoning", v)).toList ++
    (req.previousResponseId.map fun id => ("previous_response_id", Value.string id)).toList ++
    (req.store.map fun b => ("store", Value.bool b)).toList

/-- A field of a name that is not there yet is appended. -/
theorem putField_new {owner : Format} {field : String} {fields : List (Format × String × Value)}
    (h : ∀ e ∈ fields, e.2.1 ≠ field) (value : Value) :
    NamespacedExtra.putField owner field value fields = fields ++ [(owner, field, value)] := by
  induction fields with
  | nil => rfl
  | cons e fields ih =>
    obtain ⟨f, name, v⟩ := e
    have hname : ¬ (f = owner ∧ name = field) := fun hsame => h (f, name, v) List.mem_cons_self hsame.2
    rw [NamespacedExtra.putField, if_neg hname, ih fun e he => h e (List.mem_cons_of_mem _ he)]
    rfl

/-- An entry of a Responses request. -/
def ownedEntry (f : String × Value) : Format × String × Value := (.openAIResponses, f.1, f.2)

theorem foldl_put {fields before : List (String × Value)}
    (h : (before ++ fields).Pairwise fun a b => a.1 ≠ b.1) :
    fields.foldl (fun (bag : NamespacedExtra) f => bag.put .openAIResponses f.1 f.2)
        ⟨before.map ownedEntry⟩ =
      ⟨(before ++ fields).map ownedEntry⟩ := by
  induction fields generalizing before with
  | nil => rw [List.append_nil]; rfl
  | cons f fields ih =>
    have hnew : ∀ e ∈ before.map ownedEntry, e.2.1 ≠ f.1 := by
      intro e he
      obtain ⟨g, hg, rfl⟩ := List.mem_map.mp he
      exact (List.pairwise_append.mp h).2.2 g hg f List.mem_cons_self
    have hmore : before ++ [f] ++ fields = before ++ f :: fields := by
      rw [List.append_assoc]
      rfl
    have hput : NamespacedExtra.put ⟨before.map ownedEntry⟩ .openAIResponses f.1 f.2 =
        ⟨(before ++ [f]).map ownedEntry⟩ := by
      rw [NamespacedExtra.put, putField_new hnew, List.map_append]
      rfl
    rw [List.foldl_cons, hput, ih (hmore.symm ▸ h), hmore]

/-- The keys of what a request carries on differ. -/
theorem Flat.distinct {req : OpenAIResponsesRequest} (h : Flat req) :
    (req.extra ++ ownEntries req).Pairwise fun a b => a.1 ≠ b.1 := by
  have hown : ∀ f ∈ ownEntries req, f.1 ∈ requestFields := by
    intro f hf
    simp only [ownEntries, List.mem_append, Option.mem_toList, Option.map_eq_some_iff] at hf
    rcases hf with ((⟨_, -, rfl⟩ | ⟨_, -, rfl⟩) | ⟨_, -, rfl⟩) | ⟨_, -, rfl⟩ <;>
      simp [requestFields]
  refine List.pairwise_append.mpr ⟨?_, ?_, ?_⟩
  · refine h.sorted.imp ?_
    intro a b hlt heq
    rw [heq] at hlt
    exact String.lt_irrefl _ hlt
  · unfold ownEntries
    cases req.text <;> cases req.reasoning <;> cases req.previousResponseId <;> cases req.store <;>
      simp
  · intro f hf g hg heq
    exact h.named f hf (heq ▸ hown g hg)

theorem readExtra_eq {req : OpenAIResponsesRequest} (h : Flat req) :
    readExtra req = ⟨(req.extra ++ ownEntries req).map ownedEntry⟩ := by
  have hextra : req.extra.Pairwise fun a b => a.1 ≠ b.1 := (List.pairwise_append.mp h.distinct).1
  have hbag := @foldl_put req.extra [] hextra
  have hown := @foldl_put (ownEntries req) req.extra h.distinct
  rw [← hown]
  unfold readExtra
  dsimp only
  have hbag' : req.extra.foldl (fun (bag : NamespacedExtra) f => bag.put .openAIResponses f.1 f.2) {} =
      ⟨req.extra.map ownedEntry⟩ := hbag
  rw [hbag']
  unfold ownEntries
  cases req.text <;> cases req.reasoning <;> cases req.previousResponseId <;> cases req.store <;> rfl

theorem take_readExtra {req : OpenAIResponsesRequest} (h : Flat req) :
    (readExtra req).take .openAIResponses = req.extra ++ ownEntries req := by
  have htake : ∀ fields : List (String × Value),
      NamespacedExtra.take ⟨fields.map ownedEntry⟩ .openAIResponses = fields := by
    intro fields
    unfold NamespacedExtra.take
    rw [List.filterMap_map]
    have hsome : ∀ f : String × Value,
        ((fun e : Format × String × Value => if e.1 = .openAIResponses ∨ e.2.1 ∈ passlist
          then some e.2 else none) ∘ ownedEntry) f = some f := by
      intro f
      simp [ownedEntry]
    rw [funext hsome]
    exact List.filterMap_some
  rw [readExtra_eq h, htake]

/-- The fields that were named are given back, and nobody's stay what they were. -/
theorem fields_back {req : OpenAIResponsesRequest} (h : Flat req) :
    let fields := (readExtra req).take .openAIResponses
    lastOf fields "text" = req.text ∧ lastOf fields "reasoning" = req.reasoning ∧
      (lastOf fields "previous_response_id").bind Value.asStr = req.previousResponseId ∧
      (lastOf fields "store").bind Value.asBool = req.store ∧ restOf fields = req.extra := by
  intro fields
  have hfields : fields = req.extra ++ ownEntries req := take_readExtra h
  have hnone : ∀ name ∈ requestFields, req.extra.reverse.lookup name = none := by
    intro name hname
    rw [List.lookup_eq_none_iff]
    intro f hf
    have hne : f.1 ≠ name := fun heq =>
      h.named f (List.mem_reverse.mp hf) (heq ▸ hname)
    simpa using Ne.symm hne
  have htext := hnone "text" (by decide)
  have hreasoning := hnone "reasoning" (by decide)
  have hprevious := hnone "previous_response_id" (by decide)
  have hstore := hnone "store" (by decide)
  rw [hfields]
  refine ⟨?_, ?_, ?_, ?_, ?_⟩
  · unfold lastOf ownEntries
    cases req.text <;> cases req.reasoning <;> cases req.previousResponseId <;> cases req.store <;>
      simp [List.lookup_cons, htext]
  · unfold lastOf ownEntries
    cases req.text <;> cases req.reasoning <;> cases req.previousResponseId <;> cases req.store <;>
      simp [List.lookup_cons, hreasoning]
  · unfold lastOf ownEntries
    cases req.text <;> cases req.reasoning <;> cases req.previousResponseId <;> cases req.store <;>
      simp [List.lookup_cons, hprevious]
  · unfold lastOf ownEntries
    cases req.text <;> cases req.reasoning <;> cases req.previousResponseId <;> cases req.store <;>
      simp [List.lookup_cons, hstore, Value.asBool]
  · have hkeep : (req.extra ++ ownEntries req).filter (fun f => f.1 ∉ ownFields) = req.extra := by
      have hown : (ownEntries req).filter (fun f => f.1 ∉ ownFields) = [] := by
        unfold ownEntries
        cases req.text <;> cases req.reasoning <;> cases req.previousResponseId <;>
          cases req.store <;> simp [ownFields]
      have hothers : req.extra.filter (fun f => f.1 ∉ ownFields) = req.extra := by
        rw [List.filter_eq_self]
        intro f hf
        have hsub : f.1 ∈ ownFields → f.1 ∈ requestFields := by
          simp only [ownFields, requestFields, List.mem_cons, List.not_mem_nil, or_false]
          rintro (hname | hname | hname | hname) <;> simp [hname]
        exact decide_eq_true fun hin => h.named f hf (hsub hin)
      rw [List.filter_append, hown, hothers, List.append_nil]
    unfold restOf
    rw [hkeep]
    exact @Value.foldl_insertField_sorted req.extra [] h.sorted

/-! ## The request -/

/-- Strict where nothing was said. -/
def fillDefaults (ir : IrRequest) : IrRequest := { ir with tools := ir.tools.map fillTool }

/-- **Which requests come back: those without reasoning in their turns.** -/
theorem read_build_iff (h : codec.Lawful) {req : OpenAIResponsesRequest} (hflat : Flat req) :
    fillDefaults (read codec (build codec (read codec req))) = fillDefaults (read codec req) ↔
      ∀ m ∈ (read codec req).messages, ∀ p ∈ m.parts, IsKept p = true := by
  let ir := read codec req
  let built := build codec ir
  have hmessages : (read codec built).messages = ir.messages ↔
      ∀ m ∈ ir.messages, ∀ p ∈ m.parts, IsKept p = true := messages_back_iff h req.input
  have hsystemTexts : (readInput codec (messagesToInput codec ir.messages)).systemTexts = [] := by
    have hturns : ∀ m ∈ ir.messages, ReadTurn m := readTurn_readInput req.input
    rw [readInput_messagesToInput h hturns]
    exact (foldl_push _ {}).1
  have hsystem : (read codec built).system = ir.system := by
    show systemParts ((readInput codec (messagesToInput codec ir.messages)).systemTexts ++
      (systemToInstructions ir.system).toList) = ir.system
    rw [hsystemTexts, List.nil_append]
    have hcases : ir.system = [] ∨ ∃ text, ir.system = [.plain text] := by
      show systemParts _ = [] ∨ ∃ text, systemParts _ = [IrPart.plain text]
      unfold systemParts
      split
      · exact Or.inl rfl
      · exact Or.inr ⟨_, rfl⟩
    rcases hcases with hnone | ⟨text, htext⟩
    · rw [hnone]
      rfl
    · rw [htext]
      simp [systemToInstructions, irText, IrPart.plain, systemParts]
  have htoolsBack : readTools built.tools = { tools := ir.tools.map fillTool } :=
    readTools_map (named_readTools req.tools)
  have htools : (read codec built).tools.map fillTool = ir.tools.map fillTool := by
    show (readTools built.tools).tools.map fillTool = _
    rw [htoolsBack, List.map_map]
    exact List.map_congr_left fun tool _ => rfl
  have hchoice : (read codec built).toolChoice = ir.toolChoice := by
    show readToolChoice (ir.toolChoice.map toolChoiceToValue) (readTools built.tools).nsNames = _
    rw [htoolsBack]
    exact readToolChoice_toolChoiceToValue _
  have hstream : (read codec built).stream = ir.stream := by
    show (if ir.stream then some true else none).getD false = ir.stream
    cases ir.stream <;> rfl
  obtain ⟨htext, hreasoning, hprevious, hstore, hrest⟩ := fields_back hflat
  have hreasoningBack : built.reasoning = req.reasoning := by
    show (lastOf (ir.extra.take .openAIResponses) "reasoning").or (reasoningToValue ir.reasoning) = _
    have hlast : lastOf (ir.extra.take .openAIResponses) "reasoning" = req.reasoning := hreasoning
    rw [hlast]
    cases hvalue : req.reasoning with
    | some v => rfl
    | none =>
      have hoff : ir.reasoning = .off := by
        show readEffort req.reasoning = .off
        rw [hvalue]
        rfl
      rw [hoff]
      rfl
  have heffort : (read codec built).reasoning = ir.reasoning := congrArg readEffort hreasoningBack
  have hextra : (read codec built).extra = ir.extra := by
    show readExtra built = readExtra req
    have hfields : built.text = req.text ∧ built.previousResponseId = req.previousResponseId ∧
        built.store = req.store ∧ built.extra = req.extra := ⟨htext, hprevious, hstore, hrest⟩
    unfold readExtra
    rw [hfields.1, hfields.2.1, hfields.2.2.1, hfields.2.2.2, hreasoningBack]
  rw [IrRequest.eq_iff, ← hmessages]
  constructor
  · rintro ⟨-, -, hm, -⟩
    exact hm
  · intro hm
    exact ⟨rfl, hsystem, hm, htools, hchoice, rfl, hstream, heffort, hextra⟩

end AnyConverter.OpenAIResponses
