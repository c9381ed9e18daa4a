import AnyConverter.Formats.OpenAIChat.Read
import AnyConverter.Formats.OpenAIChat.Build

/-!
# A Chat request, read and built and read again

* `turns_eq_iff`: which turns come back;
* `read_build_iff`: which requests do.
-/

set_option autoImplicit false

namespace AnyConverter

/-- Where every item becomes at most one, the list stays what it is only if every item does. -/
theorem flatMap_eq_self_iff {α : Type} {f : α → List α} {l : List α}
    (h : ∀ a ∈ l, (f a).length ≤ 1) : l.flatMap f = l ↔ ∀ a ∈ l, f a = [a] := by
  induction l with
  | nil => simp
  | cons a l ih =>
    have hrest := ih fun b hb => h b (List.mem_cons_of_mem _ hb)
    have hshort : ∀ m : List α, (∀ b ∈ m, (f b).length ≤ 1) → (m.flatMap f).length ≤ m.length := by
      intro m hm
      induction m with
      | nil => simp
      | cons b m ihm =>
        have hb := hm b List.mem_cons_self
        have hmore := ihm fun c hc => hm c (List.mem_cons_of_mem _ hc)
        rw [List.flatMap_cons, List.length_append, List.length_cons]
        omega
    rw [List.flatMap_cons]
    constructor
    · intro heq
      have hlength := congrArg List.length heq
      have hle := hshort l fun b hb => h b (List.mem_cons_of_mem _ hb)
      have hone := h a List.mem_cons_self
      rw [List.length_append, List.length_cons] at hlength
      obtain ⟨b, hb⟩ := List.length_eq_one_iff.mp (show (f a).length = 1 by omega)
      rw [hb, List.singleton_append, List.cons.injEq] at heq
      intro c hc
      rcases List.mem_cons.mp hc with rfl | hin
      · rw [hb, heq.1]
      · exact hrest.mp heq.2 c hin
    · intro hall
      rw [hall a List.mem_cons_self, hrest.mpr fun b hb => hall b (List.mem_cons_of_mem _ hb)]
      rfl

namespace OpenAIChat

/-! ## Turns the reader gives -/

/-- A call of the reader's: its id, its name and its arguments. -/
def callPart (call : String × String × Value) : IrPart := .toolCall call.1 call.2.1 call.2.2 none

def ReadTurn : IrMessage → Prop
  | ⟨.user, parts⟩ =>
    (∃ id text, parts = [.toolResult id false (plainIfAny text)]) ∨
      ∃ items : List ContentPart, parts = items.map contentPart
  | ⟨.assistant, parts⟩ =>
    ∃ (reasoning : Option String) (items : List ContentPart) (calls : List (String × String × Value)),
      (∀ item ∈ items, item ≠ .text "") ∧
        parts = thinkingIfAny reasoning ++ items.map contentPart ++ calls.map callPart

/-- What an assistant's content says: the items that are no empty text. -/
def saidItems : Option MessageContent → List ContentPart
  | none => []
  | some (.text t) => if t = "" then [] else [.text t]
  | some (.parts items) => items.filter fun item => item ≠ .text ""

theorem saidItems_ne {content : Option MessageContent} :
    ∀ item ∈ saidItems content, item ≠ .text "" := by
  intro item hitem
  unfold saidItems at hitem
  split at hitem
  · cases hitem
  · split at hitem
    · cases hitem
    · rename_i hne
      rw [List.mem_singleton] at hitem
      subst hitem
      simpa using hne
  · simpa using (List.mem_filter.mp hitem).2

theorem assistantParts_said (codec : JsonCodec) (content : Option MessageContent)
    (toolCalls : Option (List ToolCall)) (reasoning : Option String) :
    assistantParts codec content toolCalls reasoning =
      thinkingIfAny reasoning ++ (saidItems content).map contentPart ++
        readToolCalls codec toolCalls := by
  unfold assistantParts
  dsimp only
  congr 2
  match content with
  | none => rfl
  | some (.text t) =>
    by_cases hempty : t = ""
    · simp [plainIfAny, saidItems, hempty]
    · simp [plainIfAny, saidItems, hempty, contentPart]
  | some (.parts items) =>
    dsimp only [saidItems]
    induction items with
    | nil => rfl
    | cons item items ih =>
      by_cases hempty : item = .text ""
      · simpa [hempty] using ih
      · simpa [hempty] using ih

theorem readTurn_turn {codec : JsonCodec} {msg : OpenAIChatMessage} {m : IrMessage}
    (h : turn codec msg = some m) : ReadTurn m := by
  unfold turn at h
  split at h
  · cases h
  · split at h
    · cases h
      refine ⟨msg.reasoningContent, saidItems msg.content, (msg.toolCalls.getD []).map fun tc =>
        (tc.id, tc.function.name, parseArguments codec tc.function.arguments), saidItems_ne, ?_⟩
      rw [assistantParts_said, List.map_map]
      rfl
    · split at h
      · cases h
        exact Or.inl ⟨_, _, rfl⟩
      · cases h
        right
        match msg.content with
        | none => exact ⟨[], rfl⟩
        | some (.text t) => exact ⟨[.text t], rfl⟩
        | some (.parts items) => exact ⟨items, rfl⟩

/-! ## Contents that come back -/

/-- An image is written with the URL it was read from. -/
theorem contentItem_contentPart (item : ContentPart) : contentItem (contentPart item) = some item := by
  cases item with
  | text t => rfl
  | imageUrl d =>
    obtain ⟨url, detail⟩ := d
    unfold contentPart imagePart
    dsimp only
    cases hsplit : (Text.stripPrefix "data:" url).bind (Text.splitOnce ";base64,") with
    | none => rfl
    | some found =>
      obtain ⟨mediaType, data⟩ := found
      obtain ⟨rest, hrest, hfound⟩ := Option.bind_eq_some_iff.mp hsplit
      have hurl : url = "data:" ++ mediaType ++ ";base64," ++ data := by
        rw [Text.stripPrefix_eq_some hrest, Text.splitOnce_eq_some hfound]
        simp only [String.append_assoc]
      show some (ContentPart.imageUrl ⟨"data:" ++ mediaType ++ ";base64," ++ data, detail⟩) = _
      rw [← hurl]

theorem filterMap_contentItem (items : List ContentPart) :
    (items.map contentPart).filterMap contentItem = items := by
  rw [List.filterMap_map]
  have hsome : contentItem ∘ contentPart = some := funext contentItem_contentPart
  rw [hsome]
  exact List.filterMap_some

theorem isContent_contentPart (item : ContentPart) : isContent (contentPart item) = true := by
  cases item with
  | text t => rfl
  | imageUrl d =>
    unfold contentPart imagePart
    dsimp only
    split <;> rfl

theorem isToolResult_contentPart (item : ContentPart) : isToolResult (contentPart item) = false := by
  cases item with
  | text t => rfl
  | imageUrl d =>
    unfold contentPart imagePart
    dsimp only
    split <;> rfl

def isImageItem : ContentPart → Bool
  | .imageUrl _ => true
  | .text _ => false

theorem isImage_contentPart (item : ContentPart) : isImage (contentPart item) = isImageItem item := by
  cases item with
  | text t => rfl
  | imageUrl d =>
    unfold contentPart imagePart
    dsimp only
    split <;> rfl

theorem any_isImage (items : List ContentPart) :
    (items.map contentPart).any isImage = items.any isImageItem := by
  rw [List.any_map]
  exact congrArg (items.any ·) (funext isImage_contentPart)

/-- Without an image a content is its texts. -/
theorem texts_of_no_image {items : List ContentPart} (h : items.any isImageItem = false) :
    ∃ texts : List String, items = texts.map ContentPart.text := by
  induction items with
  | nil => exact ⟨[], rfl⟩
  | cons item items ih =>
    rw [List.any_cons, Bool.or_eq_false_iff] at h
    obtain ⟨texts, rfl⟩ := ih h.2
    cases item with
    | imageUrl d => cases h.1
    | text t => exact ⟨t :: texts, rfl⟩

theorem textOf_texts (texts : List String) :
    textOf ((texts.map ContentPart.text).map contentPart) = String.join texts := by
  unfold textOf
  rw [List.map_map, List.filterMap_map]
  congr 1
  exact List.filterMap_some

theorem messageContent_image {items : List ContentPart} (h : items.any isImageItem = true) :
    messageContent (items.map contentPart) = some (.parts items) := by
  unfold messageContent
  rw [any_isImage, if_pos h, filterMap_contentItem]
  cases items with
  | nil => cases h
  | cons item items => rfl

theorem messageContent_texts (texts : List String) :
    messageContent ((texts.map ContentPart.text).map contentPart) =
      if String.join texts = "" then none else some (.text (String.join texts)) := by
  have hno : (texts.map ContentPart.text).any isImageItem = false := by
    rw [List.any_map, List.any_eq_false]
    intro t _
    exact Bool.false_ne_true
  unfold messageContent
  rw [any_isImage, hno, textOf_texts]
  rfl

theorem join_eq_empty {texts : List String} : String.join texts = "" ↔ ∀ t ∈ texts, t = "" := by
  have h := @Text.join_map_empty_iff String id texts
  simpa using h

theorem join_singleton (t : String) : String.join [t] = t := by
  simp [String.join]

/-! ## User turns -/

/-- A user turn that comes back: a tool result, an image, or one text that is not empty. -/
def UserReturns (parts : List IrPart) : Prop :=
  parts.any isToolResult = true ∨ parts.any isImage = true ∨ ∃ t, t ≠ "" ∧ parts = [.plain t]

def turnsOf (codec : JsonCodec) (m : IrMessage) : List IrMessage :=
  (messagesOf codec m).filterMap (turn codec)

theorem userMessages_content (items : List ContentPart) :
    userMessages (items.map contentPart) =
      ((messageContent (items.map contentPart)).map fun content =>
        message "user" (some content)).toList := by
  have hkeep : (items.map contentPart).filter (fun p => !isToolResult p) = items.map contentPart := by
    rw [List.filter_eq_self]
    intro p hp
    obtain ⟨item, -, rfl⟩ := List.mem_map.mp hp
    rw [isToolResult_contentPart]
    rfl
  have hnone : (items.map contentPart).filterMap toolMessage = [] := by
    rw [List.filterMap_eq_nil_iff]
    intro p hp
    obtain ⟨item, -, rfl⟩ := List.mem_map.mp hp
    have hresult := isToolResult_contentPart item
    cases hpart : contentPart item with
    | toolResult callId isError content =>
      rw [hpart] at hresult
      cases hresult
    | text text signature => rfl
    | image url mediaType data detail => rfl
    | toolCall id name args signature => rfl
    | thinking text signature => rfl
    | sealed by_ raw => rfl
  unfold userMessages
  rw [hkeep, hnone, List.append_nil]

theorem turnsOf_user (codec : JsonCodec) (items : List ContentPart) :
    turnsOf codec ⟨.user, items.map contentPart⟩ =
      ((messageContent (items.map contentPart)).map fun content =>
        (⟨.user, userParts (some content)⟩ : IrMessage)).toList := by
  unfold turnsOf messagesOf
  dsimp only
  rw [userMessages_content]
  cases messageContent (items.map contentPart) with
  | none => rfl
  | some content =>
    have hturn : turn codec (message "user" (some content)) = some ⟨.user, userParts (some content)⟩ :=
      rfl
    simp [hturn]

theorem turnsOf_toolResult (codec : JsonCodec) (id : String) (text : Option String) :
    turnsOf codec ⟨.user, [.toolResult id false (plainIfAny text)]⟩ =
      [⟨.user, [.toolResult id false (plainIfAny text)]⟩] := by
  have hfilter : text.filter (· ≠ "") = none ∨ ∃ t, t ≠ "" ∧ text.filter (· ≠ "") = some t := by
    cases text with
    | none => exact Or.inl rfl
    | some t =>
      by_cases hempty : t = ""
      · left
        simp [hempty]
      · right
        exact ⟨t, hempty, by simp [hempty]⟩
  unfold plainIfAny
  rcases hfilter with hnone | ⟨t, hne, hsome⟩
  · rw [hnone]
    rfl
  · rw [hsome]
    have htext : textOf [IrPart.plain t] = t := join_singleton t
    unfold turnsOf messagesOf userMessages
    have hmessage : toolMessage (.toolResult id false [.plain t]) =
        some { message "tool" (some (.text t)) with toolCallId := some id } := by
      unfold toolMessage
      dsimp only
      rw [htext, if_neg hne]
    have hturn : turn codec { message "tool" (some (.text t)) with toolCallId := some id } =
        some ⟨.user, [.toolResult id false [.plain t]]⟩ := by
      have hread : toolResultContent (some (.text t)) = [.plain t] := by
        simp [toolResultContent, messageContentAsText, plainIfAny, hne]
      show some (⟨.user, [.toolResult id false (toolResultContent (some (.text t)))]⟩ : IrMessage) = _
      rw [hread]
    simp [isToolResult, messageContent, textOf, String.join, hmessage, hturn]

theorem turnsOf_user_iff (codec : JsonCodec) (items : List ContentPart) :
    (turnsOf codec ⟨.user, items.map contentPart⟩).length ≤ 1 ∧
      (turnsOf codec ⟨.user, items.map contentPart⟩ = [⟨.user, items.map contentPart⟩] ↔
        UserReturns (items.map contentPart)) := by
  have hresult : (items.map contentPart).any isToolResult = false := by
    rw [List.any_map, List.any_eq_false]
    intro item _
    rw [Function.comp_apply, isToolResult_contentPart]
    exact Bool.false_ne_true
  rw [turnsOf_user]
  unfold UserReturns
  rw [hresult, any_isImage]
  cases himage : items.any isImageItem with
  | true =>
    rw [messageContent_image himage]
    simp [userParts]
  | false =>
    obtain ⟨texts, rfl⟩ := texts_of_no_image himage
    rw [messageContent_texts]
    by_cases hempty : String.join texts = ""
    · rw [if_pos hempty]
      refine ⟨by simp, ?_⟩
      constructor
      · intro h
        cases h
      · rintro (h | h | ⟨t, hne, h⟩)
        · cases h
        · cases h
        · rw [List.map_map] at h
          cases texts with
          | nil => cases h
          | cons first texts =>
            rw [List.map_cons] at h
            obtain ⟨hfirst, -⟩ := List.cons.inj h
            cases hfirst
            exact absurd (join_eq_empty.mp hempty t List.mem_cons_self) hne
    · rw [if_neg hempty]
      refine ⟨by simp, ?_⟩
      simp only [Option.map_some, Option.toList_some, userParts, List.cons.injEq, and_true,
        IrMessage.mk.injEq, true_and]
      constructor
      · intro h
        exact Or.inr (Or.inr ⟨_, hempty, h.symm⟩)
      · rintro (h | h | ⟨t, hne, h⟩)
        · cases h
        · cases h
        · have hjoin := textOf_texts texts
          rw [h] at hjoin ⊢
          rw [← hjoin]
          exact congrArg (fun t => [IrPart.plain t]) (join_singleton t)

/-! ## Assistant turns -/

/-- An assistant turn that comes back: an image, or at most one text. -/
def AssistantReturns (parts : List IrPart) : Prop :=
  parts.any isImage = true ∨ (parts.filter isContent).length ≤ 1

/-- The three things an assistant's parts are put together from. -/
theorem thinkingIfAny_cases (reasoning : Option String) :
    thinkingIfAny reasoning = [] ∨
      ∃ t, t ≠ "" ∧ thinkingIfAny reasoning = [.thinking t none] := by
  unfold thinkingIfAny
  cases reasoning with
  | none => exact Or.inl rfl
  | some t =>
    by_cases hempty : t = ""
    · left
      simp [hempty]
    · right
      exact ⟨t, hempty, by simp [hempty]⟩

theorem isContent_thinking (reasoning : Option String) :
    (thinkingIfAny reasoning).filter isContent = [] := by
  rcases thinkingIfAny_cases reasoning with h | ⟨t, -, h⟩ <;> rw [h] <;> rfl

theorem filter_isContent (items : List ContentPart) :
    (items.map contentPart).filter isContent = items.map contentPart := by
  rw [List.filter_eq_self]
  intro p hp
  obtain ⟨item, -, rfl⟩ := List.mem_map.mp hp
  exact isContent_contentPart item

theorem filter_isContent_calls (calls : List (String × String × Value)) :
    (calls.map callPart).filter isContent = [] := by
  rw [List.filter_eq_nil_iff]
  intro p hp
  obtain ⟨call, -, rfl⟩ := List.mem_map.mp hp
  exact Bool.false_ne_true

section
variable (codec : JsonCodec) (reasoning : Option String) (items : List ContentPart)
  (calls : List (String × String × Value))

/-- The parts of an assistant turn, as the reader puts them together. -/
def assistantTurn : List IrPart :=
  thinkingIfAny reasoning ++ items.map contentPart ++ calls.map callPart

theorem content_assistantTurn :
    (assistantTurn reasoning items calls).filter isContent = items.map contentPart := by
  unfold assistantTurn
  rw [List.filter_append, List.filter_append, isContent_thinking, filter_isContent,
    filter_isContent_calls, List.nil_append, List.append_nil]

theorem isImage_assistantTurn :
    (assistantTurn reasoning items calls).any isImage = items.any isImageItem := by
  have hthinking : (thinkingIfAny reasoning).any isImage = false := by
    rcases thinkingIfAny_cases reasoning with h | ⟨t, -, h⟩ <;> rw [h] <;> rfl
  have hcalls : (calls.map callPart).any isImage = false := by
    rw [List.any_map, List.any_eq_false]
    intro call _
    exact Bool.false_ne_true
  unfold assistantTurn
  rw [List.any_append, List.any_append, hthinking, hcalls, any_isImage, Bool.false_or,
    Bool.or_false]

theorem toolCallOf_contentPart (item : ContentPart) : toolCallOf codec (contentPart item) = none := by
  cases item with
  | text t => rfl
  | imageUrl d =>
    unfold contentPart imagePart
    dsimp only
    split <;> rfl

theorem thinkingText_contentPart (item : ContentPart) : thinkingText (contentPart item) = none := by
  cases item with
  | text t => rfl
  | imageUrl d =>
    unfold contentPart imagePart
    dsimp only
    split <;> rfl

/-- Calls are read with the arguments they were written with. -/
theorem readToolCalls_toolCallsOf (h : codec.Lawful) :
    readToolCalls codec (toolCallsOf codec (assistantTurn reasoning items calls)) =
      calls.map callPart := by
  have hthinking : (thinkingIfAny reasoning).filterMap (toolCallOf codec) = [] := by
    rcases thinkingIfAny_cases reasoning with h | ⟨t, -, h⟩ <;> rw [h] <;> rfl
  have hitems : (items.map contentPart).filterMap (toolCallOf codec) = [] := by
    rw [List.filterMap_eq_nil_iff]
    intro p hp
    obtain ⟨item, -, rfl⟩ := List.mem_map.mp hp
    exact toolCallOf_contentPart codec item
  have hcalls : (assistantTurn reasoning items calls).filterMap (toolCallOf codec) =
      calls.map fun c => ⟨c.1, "function", ⟨c.2.1, codec.toText c.2.2⟩⟩ := by
    unfold assistantTurn
    rw [List.filterMap_append, List.filterMap_append, hthinking, hitems, List.filterMap_map,
      ← List.filterMap_eq_map]
    rfl
  have hread : ∀ c : String × String × Value,
      readToolCall codec ⟨c.1, "function", ⟨c.2.1, codec.toText c.2.2⟩⟩ = callPart c := by
    intro c
    have hargs : parseArguments codec (codec.toText c.2.2) = c.2.2 := by
      unfold parseArguments
      rw [if_neg (h.print_ne_empty c.2.2), h.read_print]
      rfl
    unfold readToolCall callPart
    dsimp only
    rw [hargs]
  unfold toolCallsOf
  rw [hcalls]
  cases calls with
  | nil => rfl
  | cons c calls =>
    simp only [List.map_cons, readToolCalls, Option.getD_some, hread, List.map_map]
    congr 1
    exact List.map_congr_left fun c _ => hread c

theorem thinkingIfAny_lastThinking :
    thinkingIfAny (lastThinking (assistantTurn reasoning items calls)) =
      thinkingIfAny reasoning := by
  have hitems : (items.map contentPart).filterMap thinkingText = [] := by
    rw [List.filterMap_eq_nil_iff]
    intro p hp
    obtain ⟨item, -, rfl⟩ := List.mem_map.mp hp
    exact thinkingText_contentPart item
  have hcalls : (calls.map callPart).filterMap thinkingText = [] := by
    rw [List.filterMap_eq_nil_iff]
    intro p hp
    obtain ⟨call, -, rfl⟩ := List.mem_map.mp hp
    rfl
  unfold lastThinking assistantTurn
  rw [List.filterMap_append, List.filterMap_append, hitems, hcalls, List.append_nil,
    List.append_nil]
  rcases thinkingIfAny_cases reasoning with h | ⟨t, hne, h⟩
  · rw [h]
    rfl
  · rw [h]
    simp [thinkingText, thinkingIfAny, hne]

/-- What is said comes back when an image keeps the items apart, or there is one at most. -/
theorem saidItems_messageContent_iff (h : ∀ item ∈ items, item ≠ .text "") :
    (saidItems (messageContent (items.map contentPart))).map contentPart = items.map contentPart ↔
      items.any isImageItem = true ∨ items.length ≤ 1 := by
  cases himage : items.any isImageItem with
  | true =>
    rw [messageContent_image himage]
    have hkeep : items.filter (fun item => item ≠ .text "") = items := by
      rw [List.filter_eq_self]
      intro item hitem
      simpa using h item hitem
    simp only [saidItems, hkeep, true_or]
  | false =>
    obtain ⟨texts, rfl⟩ := texts_of_no_image himage
    rw [messageContent_texts]
    have hne : ∀ t ∈ texts, t ≠ "" := by
      intro t ht heq
      exact h (.text t) (List.mem_map_of_mem ht) (congrArg ContentPart.text heq)
    match texts with
    | [] => simp [String.join, saidItems]
    | [t] =>
      have ht := hne t List.mem_cons_self
      rw [join_singleton, if_neg ht]
      simp [saidItems, ht]
    | first :: second :: rest =>
      have hjoin : String.join (first :: second :: rest) ≠ "" := by
        intro heq
        exact hne first List.mem_cons_self (join_eq_empty.mp heq first List.mem_cons_self)
      rw [if_neg hjoin]
      generalize String.join (first :: second :: rest) = joined at hjoin
      simp [saidItems, hjoin]

end

theorem turnsOf_assistant_iff {codec : JsonCodec} (h : codec.Lawful) (reasoning : Option String)
    {items : List ContentPart} (calls : List (String × String × Value))
    (hitems : ∀ item ∈ items, item ≠ .text "") :
    let parts := assistantTurn reasoning items calls
    (turnsOf codec ⟨.assistant, parts⟩).length = 1 ∧
      (turnsOf codec ⟨.assistant, parts⟩ = [⟨.assistant, parts⟩] ↔ AssistantReturns parts) := by
  intro parts
  have hturns : turnsOf codec ⟨.assistant, parts⟩ = [⟨.assistant,
      assistantParts codec (messageContent (parts.filter isContent)) (toolCallsOf codec parts)
        (lastThinking parts)⟩] := rfl
  have hread : assistantParts codec (messageContent (parts.filter isContent))
      (toolCallsOf codec parts) (lastThinking parts) =
        thinkingIfAny reasoning ++
          (saidItems (messageContent (items.map contentPart))).map contentPart ++
            calls.map callPart := by
    rw [assistantParts_said, content_assistantTurn, readToolCalls_toolCallsOf codec reasoning items
      calls h, thinkingIfAny_lastThinking]
  rw [hturns, hread]
  refine ⟨rfl, ?_⟩
  have hsaid := saidItems_messageContent_iff items hitems
  unfold AssistantReturns
  rw [isImage_assistantTurn, content_assistantTurn, List.length_map, ← hsaid]
  simp only [List.cons.injEq, and_true, IrMessage.mk.injEq, true_and]
  show _ = thinkingIfAny reasoning ++ items.map contentPart ++ calls.map callPart ↔ _
  rw [List.append_left_inj, List.append_right_inj]

/-! ## The other fields -/

theorem systemPart_messagesOf (codec : JsonCodec) (m : IrMessage) :
    (messagesOf codec m).filterMap systemPart = [] := by
  rw [List.filterMap_eq_nil_iff]
  intro msg hmsg
  have hrole : msg.role = "assistant" ∨ msg.role = "user" ∨ msg.role = "tool" := by
    unfold messagesOf at hmsg
    split at hmsg
    · rw [List.mem_singleton] at hmsg
      subst hmsg
      exact Or.inl rfl
    · unfold userMessages at hmsg
      rcases List.mem_append.mp hmsg with hsaid | hresult
      · rw [Option.mem_toList] at hsaid
        obtain ⟨content, -, rfl⟩ := Option.map_eq_some_iff.mp hsaid
        exact Or.inr (Or.inl rfl)
      · obtain ⟨part, -, hpart⟩ := List.mem_filterMap.mp hresult
        cases part <;> cases hpart
        exact Or.inr (Or.inr rfl)
  unfold systemPart
  rw [if_neg]
  rcases hrole with h | h | h <;> rw [h] <;> decide

theorem system_read_build (codec : JsonCodec) (req : OpenAIChatRequest) :
    (read codec (build codec (read codec req))).system = (read codec req).system := by
  obtain ⟨texts, htexts⟩ : ∃ texts : List String, (read codec req).system = texts.map .plain := by
    refine ⟨req.messages.filterMap fun msg =>
      if msg.role = "system" ∨ msg.role = "developer" then messageContentAsText msg.content
      else none, ?_⟩
    show req.messages.filterMap systemPart = _
    rw [List.map_filterMap]
    congr 1
    funext msg
    unfold systemPart
    split <;> rfl
  have hback : ∀ t : String, systemPart (message "system" (some (.text t))) = some (.plain t) :=
    fun t => rfl
  show ((((read codec req).system.filterMap irText).map fun t =>
      message "system" (some (.text t))).append
        ((read codec req).messages.flatMap (messagesOf codec))).filterMap systemPart = _
  rw [List.append_eq, List.filterMap_append, List.filterMap_flatMap]
  have hturns : (read codec req).messages.flatMap
      (fun m => (messagesOf codec m).filterMap systemPart) = [] := by
    rw [List.flatMap_eq_nil_iff]
    exact fun m _ => systemPart_messagesOf codec m
  rw [hturns, List.append_nil, htexts, List.filterMap_map, List.filterMap_map]
  have hirText : irText ∘ IrPart.plain = some := rfl
  rw [hirText, List.filterMap_some, ← List.filterMap_eq_map]
  exact congrArg (texts.filterMap ·) (funext hback)

theorem messages_read_build (codec : JsonCodec) (ir : IrRequest) :
    (read codec (build codec ir)).messages = ir.messages.flatMap (turnsOf codec) := by
  show (((ir.system.filterMap irText).map fun t =>
      message "system" (some (.text t))).append (ir.messages.flatMap (messagesOf codec))).filterMap
        (turn codec) = _
  have hsystem : ((ir.system.filterMap irText).map fun t =>
      message "system" (some (.text t))).filterMap (turn codec) = [] := by
    rw [List.filterMap_map, List.filterMap_eq_nil_iff]
    exact fun t _ => rfl
  rw [List.append_eq, List.filterMap_append, hsystem, List.filterMap_flatMap]
  rfl

theorem tools_read_build (tools : List OpenAIChatTool) :
    let tools := tools.map readTool
    ((if tools.isEmpty then none else some (tools.map toolWire)).getD []).map readTool = tools := by
  have hback : ∀ tool : OpenAIChatTool, readTool (toolWire (readTool tool)) = readTool tool := by
    intro tool
    unfold readTool toolWire
    dsimp only
    by_cases hempty : tool.function.description.getD "" = ""
    · simp [hempty]
    · simp [hempty]
  cases tools with
  | nil => rfl
  | cons first rest => simp [hback]

theorem readToolChoice_toolChoiceValue (choice : Option IrToolChoice) :
    readToolChoice (toolChoiceValue choice) = choice := by
  cases choice with
  | none => rfl
  | some choice =>
    cases choice with
    | named name =>
      simp [toolChoiceValue, readToolChoice, functionName, typeOf, Value.get, List.lookup_cons]
    | auto => rfl
    | none => rfl
    | required => rfl

theorem stop_read_build (stop : List String) : ((stopValue stop).map stopValues).getD [] = stop := by
  match stop with
  | [] => rfl
  | [s] => rfl
  | first :: second :: rest => rfl

/-- What a body says in numbers of a fixed width. -/
structure InRange (req : OpenAIChatRequest) : Prop where
  seed : ∀ i ∈ req.seed, -(2 ^ 63) ≤ i ∧ i < 2 ^ 63
  n : ∀ n ∈ req.n, n < 2 ^ 32

theorem inRange_ofValue {body : Value} {req : OpenAIChatRequest}
    (h : OpenAIChatRequest.ofValue body = some req) : InRange req := by
  cases body with
  | object obj =>
    rw [OpenAIChatRequest.ofValue] at h
    iterate 7 obtain ⟨_, -, h⟩ := Option.bind_eq_some_iff.mp h
    obtain ⟨seed, hseed, h⟩ := Option.bind_eq_some_iff.mp h
    iterate 5 obtain ⟨_, -, h⟩ := Option.bind_eq_some_iff.mp h
    obtain ⟨n, hn, h⟩ := Option.bind_eq_some_iff.mp h
    iterate 2 obtain ⟨_, -, h⟩ := Option.bind_eq_some_iff.mp h
    obtain rfl := Option.some.inj h
    refine ⟨?_, ?_⟩
    · rintro i rfl
      obtain ⟨_, hi⟩ := Serde.of_optional hseed
      exact Serde.i64_range hi
    · rintro i rfl
      obtain ⟨_, hi⟩ := Serde.of_optional hn
      exact Serde.u32_lt hi
  | _ => cases h

theorem lastOf_readExtra (req : OpenAIChatRequest) :
    lastOf ((readExtra req).take .openAIChat) "seed" = req.seed.map (fun i => .number (.int i)) ∧
      lastOf ((readExtra req).take .openAIChat) "response_format" = req.responseFormat ∧
      lastOf ((readExtra req).take .openAIChat) "n" = req.n.map .nat ∧
      lastOf ((readExtra req).take .openAIChat) "stream_options" =
        req.streamOptions.map StreamOptions.toValue := by
  unfold readExtra
  dsimp only
  cases req.seed <;> cases req.responseFormat <;> cases req.n <;> cases req.streamOptions <;>
    simp [NamespacedExtra.putOption, NamespacedExtra.put, NamespacedExtra.putField,
      NamespacedExtra.take, lastOf, passlist, List.lookup_cons]

theorem ofValue_streamOptions (o : StreamOptions) : StreamOptions.ofValue o.toValue = some o := by
  obtain ⟨includeUsage⟩ := o
  cases includeUsage <;> rfl

theorem extra_read_build (codec : JsonCodec) {req : OpenAIChatRequest} (h : InRange req) :
    (read codec (build codec (read codec req))).extra = (read codec req).extra := by
  obtain ⟨hseed, hformat, hn, hoptions⟩ := lastOf_readExtra req
  have hseed' : (lastOf ((readExtra req).take .openAIChat) "seed").bind Value.asI64 = req.seed := by
    rw [hseed]
    cases hvalue : req.seed with
    | none => rfl
    | some i =>
      show Value.asI64 (.number (.int i)) = some i
      rw [Value.asI64, if_pos (h.seed i hvalue)]
  have hn' : ((lastOf ((readExtra req).take .openAIChat) "n").bind Value.asU64).map (· % 2 ^ 32) =
      req.n := by
    rw [hn]
    cases hvalue : req.n with
    | none => rfl
    | some n =>
      have hlt := h.n n hvalue
      have hbig : n < 2 ^ 64 := Nat.lt_trans hlt (by decide)
      rw [Option.map_some, Option.bind_some, Value.asU64_nat n hbig, Option.map_some,
        Nat.mod_eq_of_lt hlt]
  have hoptions' : (lastOf ((readExtra req).take .openAIChat) "stream_options").bind
      StreamOptions.ofValue = req.streamOptions := by
    rw [hoptions]
    cases req.streamOptions with
    | none => rfl
    | some o => exact ofValue_streamOptions o
  show readExtra (build codec (read codec req)) = readExtra req
  unfold readExtra
  have hbuilt : (build codec (read codec req)).seed = req.seed ∧
      (build codec (read codec req)).responseFormat = req.responseFormat ∧
      (build codec (read codec req)).n = req.n ∧
      (build codec (read codec req)).streamOptions = req.streamOptions :=
    ⟨hseed', hformat, hn', hoptions'⟩
  rw [hbuilt.1, hbuilt.2.1, hbuilt.2.2.1, hbuilt.2.2.2]

/-! ## The request -/

/-- A turn that comes back. -/
def TurnReturns (m : IrMessage) : Prop :=
  match m.role with
  | .user => UserReturns m.parts
  | .assistant => AssistantReturns m.parts

theorem turnsOf_iff {codec : JsonCodec} (h : codec.Lawful) {m : IrMessage} (hread : ReadTurn m) :
    (turnsOf codec m).length ≤ 1 ∧ (turnsOf codec m = [m] ↔ TurnReturns m) := by
  obtain ⟨role, parts⟩ := m
  cases role with
  | user =>
    rcases hread with ⟨id, text, rfl⟩ | ⟨items, rfl⟩
    · rw [turnsOf_toolResult]
      exact ⟨Nat.le_refl _, fun _ => Or.inl rfl, fun _ => rfl⟩
    · exact turnsOf_user_iff codec items
  | assistant =>
    obtain ⟨reasoning, items, calls, hitems, rfl⟩ := hread
    obtain ⟨hone, hiff⟩ := turnsOf_assistant_iff h reasoning calls hitems
    exact ⟨Nat.le_of_eq hone, hiff⟩

/-- **Which requests come back: those whose turns do.** -/
theorem read_build_iff {codec : JsonCodec} (h : codec.Lawful) {req : OpenAIChatRequest}
    (hrange : InRange req) :
    read codec (build codec (read codec req)) = read codec req ↔
      ∀ m ∈ (read codec req).messages, TurnReturns m := by
  have hread : ∀ m ∈ (read codec req).messages, ReadTurn m := by
    intro m hm
    obtain ⟨msg, -, hturn⟩ := List.mem_filterMap.mp hm
    exact readTurn_turn hturn
  have hmessages : (read codec (build codec (read codec req))).messages =
      (read codec req).messages ↔ ∀ m ∈ (read codec req).messages, TurnReturns m := by
    rw [messages_read_build, flatMap_eq_self_iff fun m hm => (turnsOf_iff h (hread m hm)).1]
    exact forall_congr' fun m => forall_congr' fun hm => (turnsOf_iff h (hread m hm)).2
  have hsampling : (read codec (build codec (read codec req))).sampling =
      (read codec req).sampling := by
    show (⟨(read codec req).sampling.maxTokens.or none, _, _, none,
      ((stopValue (read codec req).sampling.stop).map stopValues).getD []⟩ : Sampling) = _
    rw [stop_read_build, Option.or_none]
    rfl
  have hstream : (read codec (build codec (read codec req))).stream = (read codec req).stream := by
    show (if (read codec req).stream then some true else none).getD false = (read codec req).stream
    cases (read codec req).stream <;> rfl
  have hreasoning : (read codec (build codec (read codec req))).reasoning =
      (read codec req).reasoning := by
    simp only [read, build]
    cases req.reasoningEffort.or (req.reasoning.map ReasoningConfig.effort) with
    | none => rfl
    | some effort => rfl
  rw [IrRequest.eq_iff, ← hmessages]
  constructor
  · intro hsame
    exact hsame.2.2.1
  · intro hm
    exact ⟨rfl, system_read_build codec req, hm, tools_read_build _,
      readToolChoice_toolChoiceValue _, hsampling, hstream, hreasoning, extra_read_build codec hrange⟩

end OpenAIChat

end AnyConverter
