import Mathlib.Data.List.Perm.Basic
import AnyConverter.Lib.JsonText
import AnyConverter.Formats.OpenAIChat.Build

/-!
# Tool results in a Chat history

Chat wants the tool messages that answer an assistant message directly behind it, one for each of
its calls.  `userMessages` writes what a user said in front of the results of the same turn.

* `toolTurns_iff`: when each result stands in the turn behind its call, the history is in Chat's
  order exactly if every call is answered once, no turn says something beside its results and no
  result holds an image.
-/

set_option autoImplicit false

namespace AnyConverter.OpenAIChat

/-! ## What a message shows -/

abbrev Shown := List (Glyph ImageUrlDetail)

def ContentPart.glyphs : ContentPart → Shown
  | .text t => Glyph.ofText t
  | .imageUrl d => [.image d]

def MessageContent.glyphs : MessageContent → Shown
  | .text t => Glyph.ofText t
  | .parts ps => ps.flatMap ContentPart.glyphs

def contentGlyphs (content : Option MessageContent) : Shown :=
  (content.map MessageContent.glyphs).getD []

/-- What a block shows, images under the URL Chat knows them by. -/
def partGlyphs (part : IrPart) : Shown := ((contentItem part).map ContentPart.glyphs).getD []

def partsGlyphs (parts : List IrPart) : Shown := parts.flatMap partGlyphs

/-! ## The order of a history -/

def toolResultOf : IrPart → Option (String × List IrPart)
  | .toolResult callId _ inner => some (callId, inner)
  | _ => none

/-- The results of a turn: the call each answers and what it holds. -/
def resultsOf (msg : IrMessage) : List (String × List IrPart) := msg.parts.filterMap toolResultOf

def resultIds (msg : IrMessage) : List String := (resultsOf msg).map Prod.fst

def toolCallId : IrPart → Option String
  | .toolCall id _ _ _ => some id
  | _ => none

/-- The calls the next turn has to answer: those of an assistant message. -/
def pendingCalls (msg : IrMessage) : List String :=
  match msg.role with
  | .assistant => msg.parts.filterMap toolCallId
  | .user => []

/-- Each result is in the user message directly behind the assistant message that holds its call;
`pending` are the calls of the message before the first. -/
def ResultsFollow : List String → List IrMessage → Prop
  | _, [] => True
  | pending, msg :: rest =>
    (∀ id ∈ resultIds msg, msg.role = .user ∧ id ∈ pending) ∧ ResultsFollow (pendingCalls msg) rest

/-- Every call is answered exactly once, in the turn behind it. -/
def AllAnswered : List String → List IrMessage → Prop
  | pending, [] => pending = []
  | pending, msg :: rest => (resultIds msg).Perm pending ∧ AllAnswered (pendingCalls msg) rest

/-- No turn that holds results says anything besides. -/
def Unmixed (messages : List IrMessage) : Prop :=
  ∀ msg ∈ messages, resultsOf msg ≠ [] → partsGlyphs msg.parts = []

/-- No result holds an image. -/
def TextResults (messages : List IrMessage) : Prop :=
  ∀ result ∈ messages.flatMap resultsOf, ∀ part ∈ result.2, isImage part = false

def isToolMessage (msg : OpenAIChatMessage) : Bool := msg.role = "tool"

def callIds (msg : OpenAIChatMessage) : List String := (msg.toolCalls.getD []).map ToolCall.id

/-- The calls the tool messages at the head of a history answer. -/
def answeredAt (history : List OpenAIChatMessage) : List (Option String) :=
  (history.takeWhile isToolMessage).map OpenAIChatMessage.toolCallId

/-- Behind every assistant message come the answers to its calls, one for each. -/
def CallsAnswered : List OpenAIChatMessage → Prop
  | [] => True
  | msg :: rest =>
    (msg.role = "assistant" → (answeredAt rest).Perm ((callIds msg).map some)) ∧ CallsAnswered rest

/-- No tool message stands anywhere but behind an assistant message or another tool message;
`behind` tells whether one may stand at the head. -/
def ToolsPlaced : Bool → List OpenAIChatMessage → Prop
  | _, [] => True
  | behind, msg :: rest =>
    (isToolMessage msg = true → behind = true) ∧
      ToolsPlaced (msg.role = "assistant" ∨ msg.role = "tool") rest

/-- A Chat history in the vendor's order that loses nothing of what the user's turns hold. -/
structure ToolTurnsKept (ir : IrRequest) (history : List OpenAIChatMessage) : Prop where
  answered : CallsAnswered history
  placed : ToolsPlaced false history
  results : (history.filter isToolMessage).map (fun m => (m.toolCallId, contentGlyphs m.content)) =
    (ir.messages.flatMap resultsOf).map fun r => (some r.1, partsGlyphs r.2)
  said : (history.filter fun m => m.role = "user").flatMap (fun m => contentGlyphs m.content) =
    (ir.messages.filter fun m => m.role = .user).flatMap fun m => partsGlyphs m.parts

/-! ## What the builder writes for a turn -/

theorem partsGlyphs_eq (parts : List IrPart) :
    partsGlyphs parts = (parts.filterMap contentItem).flatMap ContentPart.glyphs := by
  induction parts with
  | nil => rfl
  | cons part parts ih =>
    rw [partsGlyphs, List.flatMap_cons, ← partsGlyphs, ih, List.filterMap_cons]
    cases hpart : contentItem part <;> simp [partGlyphs, hpart]

/-- Blocks with an image among them show more than their texts. -/
theorem textOf_glyphs_iff (parts : List IrPart) :
    Glyph.ofText (textOf parts) = partsGlyphs parts ↔ ∀ part ∈ parts, isImage part = false := by
  rw [textOf, Glyph.ofText_join]
  constructor
  · intro h part hpart
    cases part with
    | image url mediaType data detail =>
      have hmem : Glyph.image (imageUrl url mediaType data detail) ∈ partsGlyphs parts :=
        List.mem_flatMap.mpr ⟨_, hpart, List.mem_singleton_self _⟩
      rw [← h] at hmem
      simp [Glyph.ofText] at hmem
    | _ => rfl
  · intro h
    induction parts with
    | nil => rfl
    | cons part parts ih =>
      have htail := ih fun p hp => h p (List.mem_cons_of_mem _ hp)
      rw [partsGlyphs, List.flatMap_cons, ← partsGlyphs, ← htail, List.filterMap_cons]
      cases part with
      | text text signature => rfl
      | image url mediaType data detail => cases h _ List.mem_cons_self
      | _ => rfl

/-- A content shows what its blocks show. -/
theorem messageContent_glyphs (parts : List IrPart) :
    contentGlyphs (messageContent parts) = partsGlyphs parts := by
  unfold messageContent
  split
  · rw [partsGlyphs_eq]
    cases parts.filterMap contentItem <;> rfl
  · rename_i himage
    have himages : ∀ part ∈ parts, isImage part = false := by simpa using himage
    have htexts := (textOf_glyphs_iff parts).mpr himages
    split
    · rename_i hempty
      rw [← htexts, hempty]
      rfl
    · exact htexts

/-- Blocks that show nothing have no content. -/
theorem messageContent_eq_none_iff (parts : List IrPart) :
    messageContent parts = none ↔ partsGlyphs parts = [] := by
  constructor
  · intro h
    rw [← messageContent_glyphs, h]
    rfl
  · intro h
    have himages : ∀ part ∈ parts, isImage part = false := by
      intro part hpart
      have hnil := List.flatMap_eq_nil_iff.mp h part hpart
      cases part with
      | image url mediaType data detail => cases hnil
      | _ => rfl
    have htext : textOf parts = "" := by
      rw [← Glyph.ofText_eq_nil, (textOf_glyphs_iff parts).mpr himages, h]
    have hany : parts.any isImage = false := by simpa using himages
    simp [messageContent, hany, htext]

theorem partsGlyphs_unresulted (parts : List IrPart) :
    partsGlyphs (parts.filter fun p => !isToolResult p) = partsGlyphs parts := by
  induction parts with
  | nil => rfl
  | cons part parts ih =>
    have hparts : partsGlyphs (part :: parts) = partGlyphs part ++ partsGlyphs parts := rfl
    rw [hparts, ← ih]
    cases part <;> rfl

/-- The tool message of a result. -/
def resultMessage (result : String × List IrPart) : OpenAIChatMessage :=
  let text := textOf result.2
  { message "tool" (if text = "" then none else some (.text text)) with
    toolCallId := some result.1 }

theorem toolMessages_eq (msg : IrMessage) :
    msg.parts.filterMap toolMessage = (resultsOf msg).map resultMessage := by
  rw [resultsOf, List.map_filterMap]
  congr 1
  funext part
  cases part <;> rfl

theorem resultMessage_glyphs (result : String × List IrPart) :
    contentGlyphs (resultMessage result).content = Glyph.ofText (textOf result.2) := by
  show contentGlyphs (if textOf result.2 = "" then none else some (.text (textOf result.2))) = _
  split
  · rename_i hempty
    rw [hempty]
    rfl
  · rfl

/-- What a user's turn says, as the message it is written as. -/
def saidMessages (msg : IrMessage) : List OpenAIChatMessage :=
  ((messageContent (msg.parts.filter fun p => !isToolResult p)).map fun content =>
    message "user" (some content)).toList

theorem saidMessages_eq_nil {msg : IrMessage} (h : partsGlyphs msg.parts = []) :
    saidMessages msg = [] := by
  rw [saidMessages, (messageContent_eq_none_iff _).mpr (by rw [partsGlyphs_unresulted, h])]
  rfl

theorem saidMessages_of_ne {msg : IrMessage} (h : partsGlyphs msg.parts ≠ []) :
    ∃ content, saidMessages msg = [message "user" (some content)] := by
  have hsome : messageContent (msg.parts.filter fun p => !isToolResult p) ≠ none := by
    rw [ne_eq, messageContent_eq_none_iff, partsGlyphs_unresulted]
    exact h
  obtain ⟨content, hcontent⟩ := Option.ne_none_iff_exists'.mp hsome
  exact ⟨content, by rw [saidMessages, hcontent]; rfl⟩

theorem messagesOf_user (codec : JsonCodec) {msg : IrMessage} (h : msg.role = .user) :
    messagesOf codec msg = saidMessages msg ++ (resultsOf msg).map resultMessage := by
  rw [messagesOf, h, ← toolMessages_eq]
  rfl

theorem messagesOf_assistant (codec : JsonCodec) {msg : IrMessage} (h : msg.role = .assistant) :
    messagesOf codec msg = [assistantMessage codec msg.parts] := by
  rw [messagesOf, h]

theorem callIds_assistantMessage (codec : JsonCodec) {msg : IrMessage} (h : msg.role = .assistant) :
    callIds (assistantMessage codec msg.parts) = pendingCalls msg := by
  have hids : (msg.parts.filterMap (toolCallOf codec)).map ToolCall.id =
      msg.parts.filterMap toolCallId := by
    rw [List.map_filterMap]
    congr 1
    funext part
    cases part <;> rfl
  have hgetD : (toolCallsOf codec msg.parts).getD [] = msg.parts.filterMap (toolCallOf codec) := by
    unfold toolCallsOf
    split
    · rename_i hnil
      rw [hnil]
      rfl
    · rfl
  rw [pendingCalls, h, ← hids, ← hgetD]
  rfl

/-! ## Histories message by message -/

theorem isToolMessage_resultMessage (result : String × List IrPart) :
    isToolMessage (resultMessage result) = true := rfl

theorem answeredAt_results (results : List (String × List IrPart))
    (rest : List OpenAIChatMessage) :
    answeredAt (results.map resultMessage ++ rest) =
      results.map (fun r => some r.1) ++ answeredAt rest := by
  induction results with
  | nil => rfl
  | cons result results ih =>
    rw [List.map_cons, List.cons_append, answeredAt,
      List.takeWhile_cons_of_pos (isToolMessage_resultMessage result), List.map_cons, ← answeredAt,
      ih]
    rfl

theorem callsAnswered_results (results : List (String × List IrPart))
    (rest : List OpenAIChatMessage) :
    CallsAnswered (results.map resultMessage ++ rest) ↔ CallsAnswered rest := by
  induction results with
  | nil => rfl
  | cons result results ih =>
    rw [List.map_cons, List.cons_append, CallsAnswered, ih]
    have hrole : (resultMessage result).role ≠ "assistant" := by
      show "tool" ≠ "assistant"
      decide
    exact ⟨And.right, fun h => ⟨fun hassistant => absurd hassistant hrole, h⟩⟩

theorem toolsPlaced_results (behind : Bool) (results : List (String × List IrPart))
    (rest : List OpenAIChatMessage) :
    ToolsPlaced behind (results.map resultMessage ++ rest) ↔
      (results ≠ [] → behind = true) ∧ ToolsPlaced (behind || !results.isEmpty) rest := by
  induction results generalizing behind with
  | nil => simp
  | cons result results ih =>
    rw [List.map_cons, List.cons_append, ToolsPlaced, ih]
    have hbehind : decide ((resultMessage result).role = "assistant" ∨
        (resultMessage result).role = "tool") = true := rfl
    rw [hbehind]
    simp [isToolMessage_resultMessage]

variable (codec : JsonCodec)

/-- Where no call is pending, no answer stands at the head. -/
theorem answeredAt_of_nothing_pending {messages : List IrMessage} (h : ResultsFollow [] messages) :
    answeredAt (messages.flatMap (messagesOf codec)) = [] := by
  induction messages with
  | nil => rfl
  | cons msg rest ih =>
    obtain ⟨hresults, hrest⟩ := h
    rw [List.flatMap_cons]
    cases hrole : msg.role with
    | assistant => rw [messagesOf_assistant codec hrole]; rfl
    | user =>
      have hnone : resultsOf msg = [] := by
        apply List.eq_nil_iff_forall_not_mem.mpr
        intro result hresult
        exact absurd (hresults result.1 (List.mem_map_of_mem hresult)).2 List.not_mem_nil
      rw [messagesOf_user codec hrole, hnone, List.map_nil, List.append_nil]
      by_cases hsaid : partsGlyphs msg.parts = []
      · rw [saidMessages_eq_nil hsaid, List.nil_append]
        rw [pendingCalls, hrole] at hrest
        exact ih hrest
      · obtain ⟨content, hcontent⟩ := saidMessages_of_ne hsaid
        rw [hcontent]
        rfl

/-- The order of a history, from any message on. -/
theorem runsOfTurns_iff {pending : List String} {behind : Bool} {messages : List IrMessage}
    (h : ResultsFollow pending messages) (hbehind : pending ≠ [] → behind = true) :
    ((answeredAt (messages.flatMap (messagesOf codec))).Perm (pending.map some) ∧
      ToolsPlaced behind (messages.flatMap (messagesOf codec)) ∧
      CallsAnswered (messages.flatMap (messagesOf codec))) ↔
    (AllAnswered pending messages ∧ Unmixed messages) := by
  induction messages generalizing pending behind with
  | nil =>
    have hunmixed : Unmixed [] := fun _ hmsg => absurd hmsg List.not_mem_nil
    constructor
    · rintro ⟨hperm, -, -⟩
      exact ⟨List.map_eq_nil_iff.mp (List.nil_perm.mp hperm), hunmixed⟩
    · rintro ⟨hpending, -⟩
      rw [AllAnswered] at hpending
      rw [hpending]
      exact ⟨List.Perm.refl _, trivial, trivial⟩
  | cons msg rest ih =>
    obtain ⟨hresults, hrest⟩ := h
    have hunmixed : Unmixed (msg :: rest) ↔
        (resultsOf msg ≠ [] → partsGlyphs msg.parts = []) ∧ Unmixed rest := List.forall_mem_cons
    rw [List.flatMap_cons, AllAnswered, hunmixed]
    cases hrole : msg.role with
    | assistant =>
      have hnone : resultsOf msg = [] := by
        apply List.eq_nil_iff_forall_not_mem.mpr
        intro result hresult
        have huser := (hresults result.1 (List.mem_map_of_mem hresult)).1
        rw [hrole] at huser
        cases huser
      rw [messagesOf_assistant codec hrole, List.singleton_append, CallsAnswered, ToolsPlaced,
        callIds_assistantMessage codec hrole]
      have hstep := @ih (pendingCalls msg) true hrest (fun _ => rfl)
      have hhead : answeredAt (assistantMessage codec msg.parts ::
          rest.flatMap (messagesOf codec)) = [] := rfl
      have htool : isToolMessage (assistantMessage codec msg.parts) = false := rfl
      have hassistant : (assistantMessage codec msg.parts).role = "assistant" := rfl
      rw [hhead, resultIds, hnone]
      simp only [htool, hassistant, List.map_nil, true_or, decide_true, Bool.false_eq_true,
        false_implies, true_and, true_implies, ne_eq, not_true_eq_false, List.nil_perm,
        List.map_eq_nil_iff]
      constructor
      · rintro ⟨hpending, hplaced, hperm, hcalls⟩
        obtain ⟨hall, hrestUnmixed⟩ := hstep.mp ⟨hperm, hplaced, hcalls⟩
        exact ⟨⟨hpending, hall⟩, hrestUnmixed⟩
      · rintro ⟨⟨hpending, hall⟩, hrestUnmixed⟩
        obtain ⟨hperm, hplaced, hcalls⟩ := hstep.mpr ⟨hall, hrestUnmixed⟩
        exact ⟨hpending, hplaced, hperm, hcalls⟩
    | user =>
      rw [messagesOf_user codec hrole, List.append_assoc]
      have hpending : pendingCalls msg = [] := by rw [pendingCalls, hrole]
      rw [hpending] at hrest ⊢
      have hquiet := answeredAt_of_nothing_pending codec hrest
      by_cases hsaid : partsGlyphs msg.parts = []
      · rw [saidMessages_eq_nil hsaid, List.nil_append, answeredAt_results, toolsPlaced_results,
          callsAnswered_results, hquiet, List.append_nil]
        have hstep := @ih [] (behind || !(resultsOf msg).isEmpty) hrest (fun h => absurd rfl h)
        have hallowed : resultsOf msg ≠ [] → behind = true := by
          intro hne
          obtain ⟨result, hresult⟩ := List.exists_mem_of_ne_nil _ hne
          exact hbehind (List.ne_nil_of_mem (hresults result.1 (List.mem_map_of_mem hresult)).2)
        have hids : ((resultsOf msg).map fun r => some r.1).Perm (pending.map some) ↔
            (resultIds msg).Perm pending := by
          have hmap : ((resultsOf msg).map fun r => some r.1) = (resultIds msg).map some := by
            rw [resultIds, List.map_map]
            rfl
          rw [hmap]
          exact List.map_perm_map_iff fun _ _ => Option.some.inj
        rw [hids]
        rw [hquiet, List.map_nil] at hstep
        constructor
        · rintro ⟨hperm, ⟨-, hplaced⟩, hcalls⟩
          obtain ⟨hall, hrestUnmixed⟩ := hstep.mp ⟨List.Perm.refl _, hplaced, hcalls⟩
          exact ⟨⟨hperm, hall⟩, fun _ => hsaid, hrestUnmixed⟩
        · rintro ⟨⟨hperm, hall⟩, -, hrestUnmixed⟩
          obtain ⟨-, hplaced, hcalls⟩ := hstep.mpr ⟨hall, hrestUnmixed⟩
          exact ⟨hperm, ⟨hallowed, hplaced⟩, hcalls⟩
      · obtain ⟨content, hcontent⟩ := saidMessages_of_ne hsaid
        have hhead : answeredAt (message "user" (some content) ::
            ((resultsOf msg).map resultMessage ++ rest.flatMap (messagesOf codec))) = [] := rfl
        have hbehind : decide ((message "user" (some content)).role = "assistant" ∨
            (message "user" (some content)).role = "tool") = false := rfl
        have htool : isToolMessage (message "user" (some content)) = false := rfl
        have huser : (message "user" (some content)).role ≠ "assistant" := by
          show "user" ≠ "assistant"
          decide
        rw [hcontent, List.singleton_append, hhead, CallsAnswered, ToolsPlaced, hbehind, htool,
          callsAnswered_results, toolsPlaced_results, List.nil_perm, List.map_eq_nil_iff]
        have hstep := @ih [] false hrest (fun h => absurd rfl h)
        rw [hquiet, List.map_nil] at hstep
        by_cases hnone : resultsOf msg = []
        · have hids : resultIds msg = [] := by rw [resultIds, hnone, List.map_nil]
          rw [hnone, hids, List.nil_perm]
          constructor
          · rintro ⟨hpending, ⟨-, -, hplaced⟩, -, hcalls⟩
            obtain ⟨hall, hrestUnmixed⟩ := hstep.mp ⟨List.Perm.refl _, hplaced, hcalls⟩
            exact ⟨⟨hpending, hall⟩, fun hne => absurd rfl hne, hrestUnmixed⟩
          · rintro ⟨⟨hpending, hall⟩, -, hrestUnmixed⟩
            obtain ⟨-, hplaced, hcalls⟩ := hstep.mpr ⟨hall, hrestUnmixed⟩
            exact ⟨hpending, ⟨fun habsurd => absurd habsurd Bool.false_ne_true,
              fun hne => absurd rfl hne, hplaced⟩, fun hassistant => absurd hassistant huser, hcalls⟩
        · simp only [hnone, hsaid, ne_eq, not_false_eq_true, true_implies, Bool.false_eq_true,
            false_and, and_false]

/-! ## What a history holds -/

/-- The tool messages of a history are the results of the turns, one for one. -/
theorem filter_isToolMessage {pending : List String} {messages : List IrMessage}
    (h : ResultsFollow pending messages) :
    (messages.flatMap (messagesOf codec)).filter isToolMessage =
      (messages.flatMap resultsOf).map resultMessage := by
  induction messages generalizing pending with
  | nil => rfl
  | cons msg rest ih =>
    obtain ⟨hresults, hrest⟩ := h
    rw [List.flatMap_cons, List.flatMap_cons, List.filter_append, List.map_append, ih hrest]
    congr 1
    cases hrole : msg.role with
    | assistant =>
      have hnone : resultsOf msg = [] := by
        apply List.eq_nil_iff_forall_not_mem.mpr
        intro result hresult
        have huser := (hresults result.1 (List.mem_map_of_mem hresult)).1
        rw [hrole] at huser
        cases huser
      rw [messagesOf_assistant codec hrole, hnone]
      rfl
    | user =>
      have hkept : ((resultsOf msg).map resultMessage).filter isToolMessage =
          (resultsOf msg).map resultMessage := by
        apply List.filter_eq_self.mpr
        intro m hm
        obtain ⟨result, -, rfl⟩ := List.mem_map.mp hm
        exact isToolMessage_resultMessage result
      have hsaid : (saidMessages msg).filter isToolMessage = [] := by
        unfold saidMessages
        cases messageContent (msg.parts.filter fun p => !isToolResult p) <;> rfl
      rw [messagesOf_user codec hrole, List.filter_append, hkept, hsaid, List.nil_append]

/-- What the users said is all there. -/
theorem said_messagesOf (messages : List IrMessage) :
    ((messages.flatMap (messagesOf codec)).filter fun m => m.role = "user").flatMap
        (fun m => contentGlyphs m.content) =
      (messages.filter fun m => m.role = .user).flatMap fun m => partsGlyphs m.parts := by
  induction messages with
  | nil => rfl
  | cons msg rest ih =>
    rw [List.flatMap_cons, List.filter_append, List.flatMap_append, ih]
    cases hrole : msg.role with
    | assistant =>
      have hother : msg.role ≠ .user := by simp [hrole]
      rw [messagesOf_assistant codec hrole, @List.filter_cons_of_neg _ _ msg rest (by simpa)]
      rfl
    | user =>
      have hresults : ((resultsOf msg).map resultMessage).filter (fun m => m.role = "user") = [] := by
        apply List.filter_eq_nil_iff.mpr
        intro m hm
        obtain ⟨result, -, rfl⟩ := List.mem_map.mp hm
        show ¬ decide ("tool" = "user") = true
        decide
      have hsaid : ((saidMessages msg).filter fun m => m.role = "user").flatMap
          (fun m => contentGlyphs m.content) = partsGlyphs msg.parts := by
        rw [← partsGlyphs_unresulted, ← messageContent_glyphs, saidMessages]
        cases messageContent (msg.parts.filter fun p => !isToolResult p) with
        | none => rfl
        | some content => exact List.append_nil _
      rw [messagesOf_user codec hrole, List.filter_append, hresults, List.append_nil, hsaid,
        List.filter_cons_of_pos (by simp [hrole]), List.flatMap_cons]

/-! ## The whole request -/

def systemMessages (ir : IrRequest) : List OpenAIChatMessage :=
  (ir.system.filterMap irText).map fun t => message "system" (some (.text t))

theorem build_messages (ir : IrRequest) :
    (build codec ir).messages = systemMessages ir ++ ir.messages.flatMap (messagesOf codec) := rfl

theorem callsAnswered_system (ir : IrRequest) (rest : List OpenAIChatMessage) :
    CallsAnswered (systemMessages ir ++ rest) ↔ CallsAnswered rest := by
  unfold systemMessages
  induction ir.system.filterMap irText with
  | nil => rfl
  | cons t texts ih =>
    rw [List.map_cons, List.cons_append, CallsAnswered, ih]
    have hrole : (message "system" (some (.text t))).role ≠ "assistant" := by
      show "system" ≠ "assistant"
      decide
    exact ⟨And.right, fun h => ⟨fun hassistant => absurd hassistant hrole, h⟩⟩

theorem toolsPlaced_system (ir : IrRequest) (rest : List OpenAIChatMessage) :
    ToolsPlaced false (systemMessages ir ++ rest) ↔ ToolsPlaced false rest := by
  unfold systemMessages
  induction ir.system.filterMap irText with
  | nil => rfl
  | cons t texts ih =>
    rw [List.map_cons, List.cons_append, ToolsPlaced]
    have hbehind : decide ((message "system" (some (.text t))).role = "assistant" ∨
        (message "system" (some (.text t))).role = "tool") = false := rfl
    have htool : isToolMessage (message "system" (some (.text t))) = false := rfl
    rw [hbehind, htool]
    exact ⟨fun h => ih.mp h.2, fun h => ⟨fun habsurd => absurd habsurd Bool.false_ne_true, ih.mpr h⟩⟩

theorem filter_systemMessages {ir : IrRequest} {keep : OpenAIChatMessage → Bool}
    (h : ∀ content, keep (message "system" content) = false) :
    (systemMessages ir).filter keep = [] := by
  apply List.filter_eq_nil_iff.mpr
  intro m hm
  obtain ⟨t, -, rfl⟩ := List.mem_map.mp hm
  rw [h]
  exact Bool.false_ne_true

/-- The history Chat gets is in its order, with everything the turns hold, exactly if every call
is answered once, no turn says something beside its results and no result holds an image. -/
theorem toolTurns_iff (ir : IrRequest) (h : ResultsFollow [] ir.messages) :
    ToolTurnsKept ir (build codec ir).messages ↔
      AllAnswered [] ir.messages ∧ Unmixed ir.messages ∧ TextResults ir.messages := by
  have horder := @runsOfTurns_iff codec [] false ir.messages h (fun hne => absurd rfl hne)
  rw [answeredAt_of_nothing_pending codec h, List.map_nil] at horder
  have hresults : ((build codec ir).messages.filter isToolMessage).map
      (fun m => (m.toolCallId, contentGlyphs m.content)) =
        (ir.messages.flatMap resultsOf).map fun r => (some r.1, Glyph.ofText (textOf r.2)) := by
    rw [build_messages, List.filter_append, filter_systemMessages fun _ => rfl, List.nil_append,
      filter_isToolMessage codec h, List.map_map]
    apply List.map_congr_left
    intro result _
    exact Prod.ext rfl (resultMessage_glyphs result)
  have htext : (ir.messages.flatMap resultsOf).map
        (fun r => (some r.1, Glyph.ofText (textOf r.2))) =
      (ir.messages.flatMap resultsOf).map (fun r => (some r.1, partsGlyphs r.2)) ↔
        TextResults ir.messages := by
    rw [List.map_inj_left]
    constructor
    · intro hmap result hresult
      exact (textOf_glyphs_iff result.2).mp (Prod.mk.inj (hmap result hresult)).2
    · intro hmap result hresult
      exact Prod.ext rfl ((textOf_glyphs_iff result.2).mpr (hmap result hresult))
  have hanswered : CallsAnswered (build codec ir).messages ↔
      CallsAnswered (ir.messages.flatMap (messagesOf codec)) := callsAnswered_system ir _
  have hplaced : ToolsPlaced false (build codec ir).messages ↔
      ToolsPlaced false (ir.messages.flatMap (messagesOf codec)) := toolsPlaced_system ir _
  constructor
  · intro hkept
    obtain ⟨hall, hunmixed⟩ := horder.mp
      ⟨List.Perm.refl _, hplaced.mp hkept.placed, hanswered.mp hkept.answered⟩
    exact ⟨hall, hunmixed, htext.mp (by rw [← hresults]; exact hkept.results)⟩
  · rintro ⟨hall, hunmixed, htexts⟩
    obtain ⟨-, hp, ha⟩ := horder.mpr ⟨hall, hunmixed⟩
    refine ⟨hanswered.mpr ha, hplaced.mpr hp, ?_, ?_⟩
    · rw [hresults]
      exact htext.mpr htexts
    · rw [build_messages, List.filter_append, filter_systemMessages fun _ => rfl, List.nil_append]
      exact said_messagesOf codec ir.messages

/-- A call, its result, and a word behind the result in the same turn. -/
def remarkedResult : IrRequest where
  model := "gpt"
  messages := [
    ⟨.assistant, [.toolCall "call_1" "search" (.object []) none]⟩,
    ⟨.user, [.toolResult "call_1" false [.plain "found"], .plain "thanks"]⟩]

/-- The result alone. -/
def plainResult : IrRequest where
  model := "gpt"
  messages := [
    ⟨.assistant, [.toolCall "call_1" "search" (.object []) none]⟩,
    ⟨.user, [.toolResult "call_1" false [.plain "found"]]⟩]

theorem resultsFollow_remarkedResult : ResultsFollow [] remarkedResult.messages := by
  refine ⟨by decide, by decide, trivial⟩

theorem toolTurns_iff_plainResult : ResultsFollow [] plainResult.messages ∧
    (ToolTurnsKept plainResult (build JsonText.compactCodec plainResult).messages ↔
      AllAnswered [] plainResult.messages ∧ Unmixed plainResult.messages ∧
        TextResults plainResult.messages) := by
  have h : ResultsFollow [] plainResult.messages := ⟨by decide, by decide, trivial⟩
  exact ⟨h, toolTurns_iff JsonText.compactCodec plainResult h⟩

/-- The word stands between the call and the tool message. -/
theorem remarkedResult_not_kept : ResultsFollow [] remarkedResult.messages ∧
    ¬ ToolTurnsKept remarkedResult (build JsonText.compactCodec remarkedResult).messages := by
  refine ⟨resultsFollow_remarkedResult, fun hkept => ?_⟩
  have hplaced := hkept.placed.2.2.1
  exact absurd (hplaced rfl) Bool.false_ne_true

end AnyConverter.OpenAIChat
