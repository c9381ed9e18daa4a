import AnyConverter.Formats.Gemini.Read
import AnyConverter.Lib.JsonText

/-!
# Gemini's calls and their answers

A Gemini request names a function in a call and in its answer; the ids are optional.  Everybody else
finds the call of a result by its id, so the reader has to give both the same one.

* `callIds_read`, `resultIds_read`: the ids the reader gives, in the order of the request;
* `paired_iff`: a result has the id of the call it answers, and no two calls share one, exactly when
  the request says so itself.
-/

set_option autoImplicit false

namespace AnyConverter.Gemini

open Transducer

/-! ## Calls and answers of a request -/

/-- A call the model made, or an answer the user gave. -/
inductive ToolEvent where
  | call (fc : GeminiFunctionCall)
  | response (fr : GeminiFunctionResponse)
  deriving DecidableEq

namespace ToolEvent

/-- The id that was given. -/
def given : ToolEvent → Option String
  | call fc => fc.id
  | response fr => fr.id

def callOf : ToolEvent → Option GeminiFunctionCall
  | call fc => some fc
  | response _ => none

def responseOf : ToolEvent → Option GeminiFunctionResponse
  | call _ => none
  | response fr => some fr

/-- A call of a function. -/
def calls (name : String) : ToolEvent → Bool
  | call fc => fc.name == name
  | response _ => false

/-- An answer of a function. -/
def answers (name : String) : ToolEvent → Bool
  | call _ => false
  | response fr => fr.name == name

end ToolEvent

def partEvents (role : Role) (part : GeminiPart) : List ToolEvent :=
  match part.functionResponse, role with
  | some fr, .user => [.response fr]
  | some _, .assistant => []
  | none, .assistant => (part.functionCall.map .call).toList
  | none, .user => []

def contentEvents (content : GeminiContent) : List ToolEvent :=
  content.parts.flatMap (partEvents (readRole content.role))

/-- The calls and the answers of a request, in their order. -/
def toolEvents (req : GeminiRequest) : List ToolEvent := req.contents.flatMap contentEvents

/-- The answer, the `j`th of the request, is that of the call, the `i`th: they name one function, and
before them as many calls of it were made as were answered. -/
def Answers (events : List ToolEvent) (fc : GeminiFunctionCall) (fr : GeminiFunctionResponse)
    (i j : Nat) : Prop :=
  ∃ pre mid post, events = pre ++ .call fc :: mid ++ .response fr :: post ∧ fc.name = fr.name ∧
    pre.countP (ToolEvent.calls fc.name) = (pre ++ mid).countP (ToolEvent.answers fc.name) ∧
    i = (pre.filterMap ToolEvent.callOf).length ∧
    j = ((pre ++ mid).filterMap ToolEvent.responseOf).length

/-! ## The ids of a request that was read -/

def callId : IrPart → List String
  | .toolCall id _ _ _ => [id]
  | _ => []

def resultId : IrPart → List String
  | .toolResult callId _ _ => [callId]
  | _ => []

/-- The ids of the calls, in order. -/
def callIds (messages : List IrMessage) : List String :=
  messages.flatMap fun m => m.parts.flatMap callId

/-- The ids the results give for their calls, in order. -/
def resultIds (messages : List IrMessage) : List String :=
  messages.flatMap fun m => m.parts.flatMap resultId

/-- Every call and every answer with the id that was given, or a fresh one. -/
def drawIds : Step World ToolEvent (ToolEvent × String) := fun w e =>
  ([(e, (idOrNew w e.given).1)], (idOrNew w e.given).2)

def drawnCall : ToolEvent × String → List String
  | (.call _, id) => [id]
  | (.response _, _) => []

def drawnResult : ToolEvent × String → List String
  | (.call _, _) => []
  | (.response _, id) => [id]

theorem textPart_silent (part : GeminiPart) :
    (textPart part).flatMap callId = [] ∧ (textPart part).flatMap resultId = [] := by
  unfold textPart
  split
  · split
    · exact ⟨rfl, rfl⟩
    · split <;> exact ⟨rfl, rfl⟩
  · exact ⟨rfl, rfl⟩

/-- A part draws the ids of its call or of its answer. -/
theorem readPart_draws (codec : JsonCodec) (role : Role) (w : World) (part : GeminiPart) :
    (readPart codec role w part).2 = final drawIds w (partEvents role part) ∧
    (readPart codec role w part).1.flatMap callId =
      (outputs drawIds w (partEvents role part)).flatMap drawnCall ∧
    (readPart codec role w part).1.flatMap resultId =
      (outputs drawIds w (partEvents role part)).flatMap drawnResult := by
  obtain ⟨hcall, hresult⟩ := textPart_silent part
  unfold readPart partEvents
  cases part.functionResponse with
  | some fr => cases role <;> exact ⟨rfl, rfl, rfl⟩
  | none =>
    cases role with
    | assistant =>
      unfold readFunctionCall
      cases part.functionCall with
      | none => simp [hcall, hresult]
      | some fc => simp [hcall, hresult, drawIds, ToolEvent.given, callId, resultId, drawnCall,
          drawnResult]
    | user => cases part.inlineData <;> simp [hcall, hresult, inlineImage, callId, resultId]

theorem callId_of_result {p : IrPart} (h : isToolResult p = true) : callId p = [] := by
  cases p <;> first | rfl | cases h

theorem resultId_of_other {p : IrPart} (h : isToolResult p = false) : resultId p = [] := by
  cases p <;> first | rfl | cases h

/-- What shows nothing may be left out. -/
theorem flatMap_filter {α β : Type} {keep : α → Bool} {f : α → List β}
    (h : ∀ a, keep a = false → f a = []) (xs : List α) :
    (xs.filter keep).flatMap f = xs.flatMap f := by
  induction xs with
  | nil => rfl
  | cons x xs ih =>
    rw [List.filter_cons, List.flatMap_cons]
    split
    · rw [List.flatMap_cons, ih]
    · rename_i hx
      rw [h x (by simpa using hx), ih, List.nil_append]

/-- Hoisting the results keeps the order of the calls and that of the results. -/
theorem hoistResults_ids (parts : List IrPart) :
    (hoistResults parts).flatMap callId = parts.flatMap callId ∧
      (hoistResults parts).flatMap resultId = parts.flatMap resultId := by
  have hnocall : (parts.filter isToolResult).flatMap callId = [] :=
    List.flatMap_eq_nil_iff.mpr fun p hp => callId_of_result (List.mem_filter.mp hp).2
  have hnoresult : (parts.filter fun p => !isToolResult p).flatMap resultId = [] :=
    List.flatMap_eq_nil_iff.mpr fun p hp =>
      resultId_of_other (by simpa using (List.mem_filter.mp hp).2)
  have hcall := flatMap_filter (f := callId) (fun p (hp : (!isToolResult p) = false) =>
    callId_of_result (by simpa using hp)) parts
  have hresult := flatMap_filter (f := resultId) (fun p hp => resultId_of_other hp) parts
  simp only [hoistResults, List.flatMap_append, hnocall, hnoresult, hcall, hresult,
    List.nil_append, List.append_nil, and_self]

theorem readMessage_draws (codec : JsonCodec) (w : World) (content : GeminiContent) :
    (readMessage codec w content).2 = final drawIds w (contentEvents content) ∧
    callIds (readMessage codec w content).1 =
      (outputs drawIds w (contentEvents content)).flatMap drawnCall ∧
    resultIds (readMessage codec w content).1 =
      (outputs drawIds w (contentEvents content)).flatMap drawnResult := by
  have hpart := readPart_draws codec (readRole content.role)
  obtain ⟨hfinal, hcalls⟩ := run_expand (fun w part => (hpart w part).1)
    (fun w part => (hpart w part).2.1) content.parts w
  obtain ⟨-, hresults⟩ := run_expand (fun w part => (hpart w part).1)
    (fun w part => (hpart w part).2.2) content.parts w
  refine ⟨hfinal, ?_, ?_⟩
  · rw [contentEvents, ← hcalls]
    simp only [callIds, readMessage]
    split
    · rename_i hnil
      rw [outputs, hnil]
      rfl
    · rw [List.flatMap_singleton, (hoistResults_ids _).1]
      rfl
  · rw [contentEvents, ← hresults]
    simp only [resultIds, readMessage]
    split
    · rename_i hnil
      rw [outputs, hnil]
      rfl
    · rw [List.flatMap_singleton, (hoistResults_ids _).2]
      rfl

/-- **The ids of the calls and of the results are those that were given, or drawn in the order of
the request.** -/
theorem callIds_read (codec : JsonCodec) (w : World) (req : GeminiRequest) :
    callIds (read codec w req).1.messages =
      (outputs drawIds w (toolEvents req)).flatMap drawnCall :=
  (run_expand (fun w content => (readMessage_draws codec w content).1)
    (fun w content => (readMessage_draws codec w content).2.1) req.contents w).2

theorem resultIds_read (codec : JsonCodec) (w : World) (req : GeminiRequest) :
    resultIds (read codec w req).1.messages =
      (outputs drawIds w (toolEvents req)).flatMap drawnResult :=
  (run_expand (fun w content => (readMessage_draws codec w content).1)
    (fun w content => (readMessage_draws codec w content).2.2) req.contents w).2

/-! ## The ids that are drawn -/

/-- The events that draw an identifier. -/
def drawing (events : List ToolEvent) : Nat := events.countP fun e => e.given.isNone

theorem drawIds_step (w : World) (e : ToolEvent) : drawIds w e =
    ([(e, e.given.getD (w.uuid w.draws))], { w with draws := w.draws + drawing [e] }) := by
  unfold drawIds idOrNew drawing World.newUuid
  cases hgiven : e.given <;> simp [hgiven]

theorem drawing_cons (e : ToolEvent) (events : List ToolEvent) :
    drawing (e :: events) = drawing [e] + drawing events := by
  simp [drawing, List.countP_cons, Nat.add_comm]

theorem final_drawIds (events : List ToolEvent) (w : World) :
    final drawIds w events = { w with draws := w.draws + drawing events } := by
  induction events generalizing w with
  | nil => rfl
  | cons e events ih =>
    rw [final_cons, drawIds_step, ih, drawing_cons e events, Nat.add_assoc]

/-- An event gets the id it was given, or the one that is next after those before it. -/
theorem outputs_drawIds_split (w : World) (pre : List ToolEvent) (e : ToolEvent)
    (post : List ToolEvent) : outputs drawIds w (pre ++ e :: post) =
      outputs drawIds w pre ++ (e, e.given.getD (w.uuid (w.draws + drawing pre))) ::
        outputs drawIds (final drawIds w (pre ++ [e])) post := by
  rw [outputs_append, outputs_cons, final_drawIds pre, drawIds_step, final_append, final_drawIds pre,
    final_cons, final_nil, drawIds_step]
  rfl

theorem length_drawn (events : List ToolEvent) (w : World) :
    ((outputs drawIds w events).flatMap drawnCall).length =
        (events.filterMap ToolEvent.callOf).length ∧
      ((outputs drawIds w events).flatMap drawnResult).length =
        (events.filterMap ToolEvent.responseOf).length := by
  induction events generalizing w with
  | nil => exact ⟨rfl, rfl⟩
  | cons e events ih =>
    obtain ⟨hcalls, hresults⟩ := ih (drawIds w e).2
    rw [outputs_cons, List.flatMap_append, List.flatMap_append, List.length_append,
      List.length_append, hcalls, hresults]
    cases e <;> simp [drawIds, drawnCall, drawnResult, List.filterMap_cons, ToolEvent.callOf,
      ToolEvent.responseOf, Nat.add_comm]

/-- The id of the call behind some events. -/
theorem drawnCall_getElem? (w : World) (pre : List ToolEvent) (fc : GeminiFunctionCall)
    (post : List ToolEvent) : ((outputs drawIds w (pre ++ .call fc :: post)).flatMap drawnCall)[
      (pre.filterMap ToolEvent.callOf).length]? =
        some (fc.id.getD (w.uuid (w.draws + drawing pre))) := by
  rw [outputs_drawIds_split, List.flatMap_append, List.flatMap_cons, ← (length_drawn pre w).1,
    List.getElem?_append_right (Nat.le_refl _), Nat.sub_self]
  rfl

/-- The id of the result behind some events. -/
theorem drawnResult_getElem? (w : World) (pre : List ToolEvent) (fr : GeminiFunctionResponse)
    (post : List ToolEvent) :
    ((outputs drawIds w (pre ++ .response fr :: post)).flatMap drawnResult)[
      (pre.filterMap ToolEvent.responseOf).length]? =
        some (fr.id.getD (w.uuid (w.draws + drawing pre))) := by
  rw [outputs_drawIds_split, List.flatMap_append, List.flatMap_cons, ← (length_drawn pre w).2,
    List.getElem?_append_right (Nat.le_refl _), Nat.sub_self]
  rfl

/-- The ids that were given to calls. -/
def givenCallIds (events : List ToolEvent) : List String :=
  events.filterMap fun e => e.callOf.bind GeminiFunctionCall.id

section
variable {w : World} (hinj : Function.Injective w.uuid)

/-- A call's id was given, or it is one of those still to be drawn. -/
theorem mem_drawnCall {events : List ToolEvent} {id : String} {n : Nat}
    (h : id ∈ (outputs drawIds { w with draws := n } events).flatMap drawnCall) :
    id ∈ givenCallIds events ∨ ∃ k, n ≤ k ∧ id = w.uuid k := by
  induction events generalizing n with
  | nil => cases h
  | cons e events ih =>
    rw [outputs_cons, List.flatMap_append, List.mem_append, drawIds_step] at h
    rcases h with h | h
    · cases e with
      | response fr => cases h
      | call fc =>
        obtain rfl := List.mem_singleton.mp h
        cases hid : fc.id with
        | none => exact .inr ⟨n, Nat.le_refl n, by simp [ToolEvent.given, hid]⟩
        | some id =>
          refine .inl ?_
          simp [givenCallIds, ToolEvent.given, ToolEvent.callOf, hid]
    · rcases ih h with hmem | ⟨k, hk, rfl⟩
      · refine .inl ?_
        rw [givenCallIds, List.filterMap_cons]
        split
        · exact hmem
        · exact List.mem_cons_of_mem _ hmem
      · have hk : n + drawing [e] ≤ k := hk
        exact .inr ⟨k, by omega, rfl⟩

theorem given_mem_drawnCall {events : List ToolEvent} {id : String} (w : World)
    (h : id ∈ givenCallIds events) : id ∈ (outputs drawIds w events).flatMap drawnCall := by
  obtain ⟨e, he, hid⟩ := List.mem_filterMap.mp h
  obtain ⟨pre, post, rfl⟩ := List.append_of_mem he
  cases e with
  | response fr => cases hid
  | call fc =>
    have hget := drawnCall_getElem? w pre fc post
    have hgiven : fc.id = some id := hid
    rw [hgiven, Option.getD_some] at hget
    exact List.mem_of_getElem? hget

include hinj in
/-- The calls' ids are distinct exactly when those that were given are. -/
theorem nodup_drawnCall {events : List ToolEvent}
    (hfresh : ∀ n, ∀ e ∈ events, e.given ≠ some (w.uuid n)) (n : Nat) :
    ((outputs drawIds { w with draws := n } events).flatMap drawnCall).Nodup ↔
      (givenCallIds events).Nodup := by
  have hnotgiven : ∀ (events : List ToolEvent),
      (∀ n, ∀ e ∈ events, e.given ≠ some (w.uuid n)) → ∀ k, w.uuid k ∉ givenCallIds events := by
    intro events hfresh k hmem
    obtain ⟨e, he, hid⟩ := List.mem_filterMap.mp hmem
    cases e with
    | response fr => cases hid
    | call fc => exact hfresh k _ he hid
  induction events generalizing n with
  | nil => exact Iff.rfl
  | cons e events ih =>
    have hrest : ∀ n, ∀ e ∈ events, e.given ≠ some (w.uuid n) :=
      fun n e he => hfresh n e (List.mem_cons_of_mem _ he)
    rw [outputs_cons, drawIds_step, List.flatMap_append]
    cases e with
    | response fr => exact ih hrest _
    | call fc =>
      cases hid : fc.id with
      | none =>
        have hcons : givenCallIds (.call fc :: events) = givenCallIds events := by
          simp [givenCallIds, ToolEvent.callOf, hid]
        have hnew : w.uuid n ∉ (outputs drawIds { w with draws := n + 1 } events).flatMap
            drawnCall := by
          intro hmem
          rcases mem_drawnCall hmem with hmem | ⟨k, hk, hk'⟩
          · exact hnotgiven events hrest n hmem
          · have := hinj hk'
            omega
        have hstep : drawing [ToolEvent.call fc] = 1 := by
          simp [drawing, ToolEvent.given, hid]
        simp only [ToolEvent.given, hid, Option.getD_none, hstep, drawnCall, List.flatMap_cons,
          List.flatMap_nil, List.append_nil, List.singleton_append, List.nodup_cons, hnew,
          not_false_eq_true, true_and, hcons]
        exact ih hrest _
      | some id =>
        have hcons : givenCallIds (.call fc :: events) = id :: givenCallIds events := by
          simp [givenCallIds, ToolEvent.callOf, hid]
        have hmem : ∀ n, id ∈ (outputs drawIds { w with draws := n } events).flatMap drawnCall ↔
            id ∈ givenCallIds events := by
          intro n
          constructor
          · intro h
            rcases mem_drawnCall h with h | ⟨k, -, rfl⟩
            · exact h
            · exact absurd hid (hfresh k _ List.mem_cons_self)
          · exact given_mem_drawnCall _
        simp only [ToolEvent.given, hid, Option.getD_some, drawnCall, List.flatMap_cons,
          List.flatMap_nil, List.append_nil, List.singleton_append, List.nodup_cons, hcons, hmem]
        exact and_congr Iff.rfl (ih hrest _)

end

/-! ## Pairing -/

/-- A request says itself which call an answer is for. -/
def SaysPairs (events : List ToolEvent) : Prop :=
  (∀ fc fr i j, Answers events fc fr i j → ∃ id, fc.id = some id ∧ fr.id = some id) ∧
    (givenCallIds events).Nodup

/-- **A result has the id of the call it answers, and no two calls share one, exactly when the
request says so itself**: a missing id is drawn anew for the call and for its answer. -/
theorem paired_iff (codec : JsonCodec) (w : World) (req : GeminiRequest)
    (hinj : Function.Injective w.uuid)
    (hfresh : ∀ n, ∀ e ∈ toolEvents req, e.given ≠ some (w.uuid n)) :
    (∀ fc fr i j, Answers (toolEvents req) fc fr i j →
        ∃ id, (callIds (read codec w req).1.messages)[i]? = some id ∧
          (resultIds (read codec w req).1.messages)[j]? = some id) ∧
      (callIds (read codec w req).1.messages).Nodup ↔ SaysPairs (toolEvents req) := by
  rw [callIds_read, resultIds_read]
  refine and_congr ?_ (nodup_drawnCall hinj hfresh w.draws)
  refine forall_congr' fun fc => forall_congr' fun fr => forall_congr' fun i =>
    forall_congr' fun j => ?_
  refine forall_congr' fun hanswers => ?_
  obtain ⟨pre, mid, post, hevents, -, -, rfl, rfl⟩ := hanswers
  rw [hevents] at hfresh ⊢
  have hcall := drawnCall_getElem? w pre fc (mid ++ .response fr :: post)
  have hresult := drawnResult_getElem? w (pre ++ .call fc :: mid) fr post
  have hcount : (pre ++ .call fc :: mid).filterMap ToolEvent.responseOf =
      (pre ++ mid).filterMap ToolEvent.responseOf := by
    simp [List.filterMap_append, List.filterMap_cons, ToolEvent.responseOf]
  rw [List.append_assoc, List.cons_append] at hfresh ⊢
  rw [hcount, List.append_assoc, List.cons_append] at hresult
  rw [hcall, hresult]
  have hfc := fun n => hfresh n (.call fc) (by simp)
  have hfr := fun n => hfresh n (.response fr) (by simp)
  cases hid : fc.id with
  | none =>
    -- the call drew its id before the answer did
    have hlater : drawing pre < drawing (pre ++ .call fc :: mid) := by
      simp [drawing, List.countP_append, ToolEvent.given, hid]
    cases hid' : fr.id with
    | none =>
      simp only [Option.getD_none, Option.some.injEq, exists_eq_left', reduceCtorEq, false_and,
        exists_false, iff_false]
      intro heq
      have := hinj heq
      omega
    | some id =>
      simp only [Option.getD_none, Option.getD_some, Option.some.injEq, exists_eq_left',
        reduceCtorEq, false_and, exists_false, iff_false]
      intro heq
      exact hfr _ (by rw [ToolEvent.given, hid', heq])
  | some id =>
    cases hid' : fr.id with
    | none =>
      simp only [Option.getD_none, Option.getD_some, Option.some.injEq, exists_eq_left',
        reduceCtorEq, and_false, exists_false, iff_false]
      intro heq
      exact hfc _ (by rw [ToolEvent.given, hid, heq])
    | some id' => simp only [Option.getD_some]

/-- Identifiers of different lengths. -/
def unaryWorld : World where
  uuid n := String.ofList (List.replicate n 'u')
  now _ := 0

theorem unaryWorld_injective : Function.Injective unaryWorld.uuid := by
  intro m n h
  have hlength := congrArg String.length h
  simpa [unaryWorld] using hlength

/-- A call of `search` and its answer, under the ids a client gives them. -/
def searchRequest (callId responseId : Option String) : GeminiRequest where
  model := some "gemini-pro"
  contents := [
    { role := some "model", parts := [{ functionCall := some ⟨"search", .object [], callId⟩ }] },
    { role := some "user", parts := [{
        functionResponse := some ⟨"search", .object [("result", .string "found")], responseId⟩ }] }]
  systemInstruction := none
  generationConfig := none
  tools := none
  toolConfig := none

theorem paired_iff_searchRequest :
    (∀ fc fr i j, Answers (toolEvents (searchRequest (some "call_1") (some "call_1"))) fc fr i j →
        ∃ id, (callIds (read JsonText.compactCodec unaryWorld
            (searchRequest (some "call_1") (some "call_1"))).1.messages)[i]? = some id ∧
          (resultIds (read JsonText.compactCodec unaryWorld
            (searchRequest (some "call_1") (some "call_1"))).1.messages)[j]? = some id) ∧
      (callIds (read JsonText.compactCodec unaryWorld
        (searchRequest (some "call_1") (some "call_1"))).1.messages).Nodup := by
  have hgiven : ∀ n, "call_1" ≠ unaryWorld.uuid n := by
    intro n h
    have hmem : 'c' ∈ (unaryWorld.uuid n).toList := by
      rw [← h]
      decide
    simp [unaryWorld] at hmem
  have hevents : toolEvents (searchRequest (some "call_1") (some "call_1")) =
      [.call ⟨"search", .object [], some "call_1"⟩,
        .response ⟨"search", .object [("result", .string "found")], some "call_1"⟩] := by
    decide
  refine (paired_iff JsonText.compactCodec unaryWorld _ unaryWorld_injective ?_).mpr ?_
  · rw [hevents]
    intro n e he
    simp only [List.mem_cons, List.not_mem_nil, or_false] at he
    rcases he with rfl | rfl <;> simpa [ToolEvent.given] using hgiven n
  · rw [hevents]
    refine ⟨?_, by decide⟩
    rintro fc fr i j ⟨pre, mid, post, hsplit, -⟩
    have hcall : ToolEvent.call fc ∈ [ToolEvent.call ⟨"search", .object [], some "call_1"⟩,
        .response ⟨"search", .object [("result", .string "found")], some "call_1"⟩] := by
      rw [hsplit]
      simp
    have hresponse : ToolEvent.response fr ∈
        [ToolEvent.call ⟨"search", .object [], some "call_1"⟩,
          .response ⟨"search", .object [("result", .string "found")], some "call_1"⟩] := by
      rw [hsplit]
      simp
    simp only [List.mem_cons, ToolEvent.call.injEq, ToolEvent.response.injEq, reduceCtorEq,
      List.not_mem_nil, or_false, false_or] at hcall hresponse
    exact ⟨"call_1", by rw [hcall], by rw [hresponse]⟩

/-- Without ids the answer goes to a call nobody made. -/
theorem searchRequest_not_paired :
    Answers (toolEvents (searchRequest none none)) ⟨"search", .object [], none⟩
      ⟨"search", .object [("result", .string "found")], none⟩ 0 0 ∧
    callIds (read JsonText.compactCodec World.counting (searchRequest none none)).1.messages =
      ["0"] ∧
    resultIds (read JsonText.compactCodec World.counting (searchRequest none none)).1.messages =
      ["1"] :=
  ⟨⟨[], [], [], by decide, rfl, rfl, rfl, rfl⟩, by decide +kernel, by decide +kernel⟩

end AnyConverter.Gemini
