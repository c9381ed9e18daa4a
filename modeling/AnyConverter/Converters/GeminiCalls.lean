import AnyConverter.Converters.Reassembly.ToGemini
import AnyConverter.Lib.JsonText

/-!
# The calls of a Gemini stream

Gemini has no piecewise calls: a part holds a whole one.  The writer does not hold a call back until
its arguments are complete.

* `functionCalls_emit`: the parts that hold calls, one for each time a call is shown;
* `starts_lt_shownCalls`: they outnumber the calls as soon as one has arguments;
* `one_part_each_iff`: where each call has one part, with its complete arguments.
-/

set_option autoImplicit false

namespace AnyConverter

open CanonicalStreamEvent

/-! ## Finding a call -/

theorem findCall_append (index : Nat) (calls : List AccumulatedToolCall)
    (call : AccumulatedToolCall) :
    findCall index (calls ++ [call]) =
      (findCall index calls).or (if call.index = index then some call else none) := by
  rw [findCall, List.find?_append, List.find?_singleton]
  simp only [beq_iff_eq]
  rfl

theorem findCall_pushArguments (index i : Nat) (delta : String) (calls : List AccumulatedToolCall) :
    findCall index (pushArguments i delta calls) = (findCall index calls).map fun tc =>
      if i = index then { tc with arguments := tc.arguments ++ delta } else tc := by
  induction calls with
  | nil => rfl
  | cons tc calls ih =>
    simp only [findCall] at ih
    unfold pushArguments findCall
    by_cases hi : tc.index = i
    · rw [if_pos hi]
      by_cases hindex : tc.index = index
      · have hboth : i = index := hi ▸ hindex
        simp [hindex, hboth]
      · have hother : i ≠ index := fun h => hindex (hi.trans h)
        simp [hindex, hother]
    · rw [if_neg hi]
      by_cases hindex : tc.index = index
      · have hother : i ≠ index := fun h => hi (hindex.trans h.symm)
        simp [hindex, hother]
      · simp [hindex, ih]

/-- What has arrived for the call of an index. -/
def arrived (index : Nat) (calls : List AccumulatedToolCall) : String :=
  ((findCall index calls).map (·.arguments)).getD ""

namespace Gemini

open Transducer

/-! ## One part for each call -/

/-- The calls in the parts of chunks. -/
def functionCalls (chunks : List GeminiResponse) : List GeminiFunctionCall :=
  (chunks.flatMap GeminiResponse.parts).filterMap (·.functionCall)

/-- All the arguments of the call of an index. -/
def argumentsOf (index : Nat) (events : List CanonicalStreamEvent) : String :=
  String.join (events.filterMap (pieceOf index))

/-- The part holds the call that started, with the value of its complete arguments; a call without
any has the empty object. -/
structure Completes (codec : JsonCodec) (events : List CanonicalStreamEvent)
    (call : Nat × String × String) (part : GeminiFunctionCall) : Prop where
  id : part.id = some call.2.1
  name : part.name = call.2.2
  args : (argumentsOf call.1 events = "" ∧ part.args = .object []) ∨
    codec.fromStr (argumentsOf call.1 events) = some part.args

/-- The chunks hold one part for each call that starts, in order. -/
def OnePartEach (codec : JsonCodec) (w : World) (events : List CanonicalStreamEvent) : Prop :=
  List.Forall₂ (Completes codec events) (events.filterMap startOf)
    (functionCalls (outputs (emit codec) (.fresh w) events))

/-- A call as it is shown, in its part. -/
def callPart (call : SeenCall) : GeminiFunctionCall := ⟨call.name, call.arguments, some call.id⟩

theorem functionCalls_append (xs ys : List GeminiResponse) :
    functionCalls (xs ++ ys) = functionCalls xs ++ functionCalls ys := by
  simp [functionCalls]

/-- The parts that hold calls are the calls as they are shown. -/
theorem functionCalls_emit (codec : JsonCodec) (events : List CanonicalStreamEvent)
    (s : AdapterState) : functionCalls (outputs (emit codec) s events) =
      (shownCalls codec s.accumulatedToolCalls events).map callPart := by
  induction events generalizing s with
  | nil => rfl
  | cons e events ih =>
    rw [outputs_cons, functionCalls_append, ih]
    cases e with
    | toolCallDelta index delta =>
      simp only [emit, emitToolCallDelta, shownCalls, shownAgain]
      cases hfind : findCall index s.accumulatedToolCalls with
      | none =>
        rw [pushArguments_of_none hfind]
        rfl
      | some tc =>
        cases hread : codec.fromStr (tc.arguments ++ delta) with
        | none => simp [hread, functionCalls]
        | some args =>
          simp [hread, functionCalls, emitPart, makeStreamResponse, GeminiResponse.parts,
            GeminiPart.functionCallWithId, callPart]
    | thinkingSignature signer delta =>
      cases signer <;> rfl
    | _ => rfl

/-! ## A call that is shown again -/

theorem length_starts_le (codec : JsonCodec) (events : List CanonicalStreamEvent)
    (calls : List AccumulatedToolCall) :
    (events.filterMap startOf).length ≤ (shownCalls codec calls events).length := by
  induction events generalizing calls with
  | nil => exact Nat.le_refl 0
  | cons e events ih =>
    cases e with
    | toolCallStart index id name signature => exact Nat.succ_le_succ (ih _)
    | toolCallDelta index delta =>
      rw [shownCalls, List.length_append, List.filterMap_cons_none rfl]
      have hrest := ih (pushArguments index delta calls)
      omega
    | _ => exact ih calls

theorem argumentsOf_delta (index i : Nat) (delta : String) (events : List CanonicalStreamEvent) :
    argumentsOf index (toolCallDelta i delta :: events) =
      (if i = index then delta else "") ++ argumentsOf index events := by
  unfold argumentsOf
  rw [List.filterMap_cons, pieceOf_delta]
  by_cases hi : i = index
  · rw [if_pos hi, if_pos hi, String.join_cons]
  · rw [if_neg hi, if_neg hi, String.empty_append]

/-- Arguments for an index come when its call is there, or behind its start. -/
def Awaits (index : Nat) (calls : List AccumulatedToolCall) (events : List CanonicalStreamEvent) :
    Prop :=
  ∀ pre delta post, events = pre ++ toolCallDelta index delta :: post →
    findCall index calls ≠ none ∨ ∃ id name signature, toolCallStart index id name signature ∈ pre

theorem Awaits.tail {index : Nat} {calls calls' : List AccumulatedToolCall}
    {e : CanonicalStreamEvent} {events : List CanonicalStreamEvent}
    (h : Awaits index calls (e :: events))
    (hcalls : findCall index calls ≠ none → findCall index calls' ≠ none)
    (hstart : ∀ id name signature, e = toolCallStart index id name signature →
      findCall index calls' ≠ none) : Awaits index calls' events := by
  intro pre delta post hsplit
  rcases h (e :: pre) delta post (hsplit ▸ rfl) with hfound | ⟨id, name, signature, hmem⟩
  · exact .inl (hcalls hfound)
  · rcases List.mem_cons.mp hmem with heq | hmem
    · exact .inl (hstart id name signature heq.symm)
    · exact .inr ⟨id, name, signature, hmem⟩

theorem arrived_append (index i : Nat) (id name : String) (calls : List AccumulatedToolCall) :
    arrived index (calls ++ [⟨i, id, name, ""⟩]) = arrived index calls := by
  unfold arrived
  rw [findCall_append]
  cases findCall index calls with
  | none => by_cases hi : i = index <;> simp [hi]
  | some tc => rfl

theorem arrived_pushArguments {index i : Nat} {calls : List AccumulatedToolCall}
    (h : i = index → findCall index calls ≠ none) (delta : String) :
    arrived index (pushArguments i delta calls) =
      arrived index calls ++ if i = index then delta else "" := by
  unfold arrived
  rw [findCall_pushArguments]
  cases hfind : findCall index calls with
  | none =>
    have hi : i ≠ index := fun hi => h hi hfind
    simp [hi]
  | some tc => by_cases hi : i = index <;> simp [hi]

/-- A call whose arguments read in the end is shown again on the way. -/
theorem starts_lt_shownCalls {codec : JsonCodec} {index : Nat} {args : Value}
    {events : List CanonicalStreamEvent} {calls : List AccumulatedToolCall}
    (hawaits : Awaits index calls events) (hne : argumentsOf index events ≠ "")
    (hread : codec.fromStr (arrived index calls ++ argumentsOf index events) = some args) :
    (events.filterMap startOf).length < (shownCalls codec calls events).length := by
  induction events generalizing calls with
  | nil => exact absurd rfl hne
  | cons e events ih =>
    cases e with
    | toolCallStart i id name signature =>
      have hrest : Awaits index (calls ++ [⟨i, id, name, ""⟩]) events := by
        refine hawaits.tail (fun hfound => ?_) (fun id' name' signature' heq => ?_)
        · rw [findCall_append]
          simp [hfound]
        · obtain ⟨rfl, -⟩ := toolCallStart.inj heq
          rw [findCall_append]
          simp
      rw [← arrived_append index i id name calls] at hread
      exact Nat.succ_lt_succ (ih hrest hne hread)
    | toolCallDelta i delta =>
      have hkeeps : findCall index calls ≠ none → findCall index (pushArguments i delta calls) ≠ none := by
        intro hfound
        rw [findCall_pushArguments]
        simpa using hfound
      have hrest := hawaits.tail hkeeps (by simp)
      have hfound : i = index → findCall index calls ≠ none := by
        rintro rfl
        exact (hawaits [] delta events rfl).resolve_right (by simp)
      rw [argumentsOf_delta] at hne hread
      rw [List.filterMap_cons_none rfl, shownCalls, List.length_append]
      by_cases hlast : argumentsOf index events = ""
      · -- behind the last piece of the call its arguments read
        have hi : i = index := by
          by_contra hi
          exact hne (by rw [if_neg hi, hlast, String.append_empty])
        subst hi
        obtain ⟨tc, htc⟩ := Option.ne_none_iff_exists'.mp (hfound rfl)
        have hle := length_starts_le codec events (pushArguments i delta calls)
        rw [if_pos rfl, hlast, String.append_empty, arrived, htc] at hread
        have hshown : shownAgain codec calls i delta = [⟨tc.id, tc.name, args⟩] := by
          unfold shownAgain
          simp only [htc]
          simp only [Option.map_some, Option.getD_some] at hread
          rw [hread]
          rfl
        rw [hshown, List.length_singleton]
        omega
      · rw [← String.append_assoc, ← arrived_pushArguments hfound] at hread
        have hlt := ih hrest hlast hread
        omega
    | _ => exact ih (hawaits.tail id (by simp)) hne hread

/-! ## Calls without arguments -/

theorem argumentsOf_eq_empty_iff (index : Nat) (events : List CanonicalStreamEvent) :
    argumentsOf index events = "" ↔ ∀ delta, toolCallDelta index delta ∈ events → delta = "" := by
  have hjoin := @Text.join_map_empty_iff String id (events.filterMap (pieceOf index))
  rw [List.map_id] at hjoin
  unfold argumentsOf
  rw [hjoin]
  constructor
  · intro h delta hmem
    exact h delta (List.mem_filterMap.mpr ⟨_, hmem, if_pos rfl⟩)
  · intro h delta hmem
    obtain ⟨e, he, hpiece⟩ := List.mem_filterMap.mp hmem
    cases e with
    | toolCallDelta i arguments =>
      rw [pieceOf_delta] at hpiece
      by_cases hi : i = index
      · subst hi
        rw [if_pos rfl] at hpiece
        obtain rfl := Option.some.inj hpiece
        exact h arguments he
      · rw [if_neg hi] at hpiece
        cases hpiece
    | _ => cases hpiece

/-- Without arguments each call is shown once. -/
theorem shownCalls_noArguments {codec : JsonCodec} (hcodec : codec.Lawful)
    {events : List CanonicalStreamEvent} (h : NoArguments events)
    {calls : List AccumulatedToolCall} (hcalls : ∀ tc ∈ calls, tc.arguments = "") :
    shownCalls codec calls events =
      (events.filterMap startOf).map fun c => ⟨c.2.1, c.2.2, .object []⟩ := by
  induction events generalizing calls with
  | nil => rfl
  | cons e events ih =>
    have hrest : NoArguments events := fun index delta hmem =>
      h index delta (List.mem_cons_of_mem _ hmem)
    cases e with
    | toolCallStart index id name signature =>
      have hstarted : ∀ tc ∈ calls ++ [⟨index, id, name, ""⟩], tc.arguments = "" := by
        intro tc hmem
        rcases List.mem_append.mp hmem with hmem | hmem
        · exact hcalls tc hmem
        · rw [List.mem_singleton.mp hmem]
      exact congrArg (_ :: ·) (ih hrest hstarted)
    | toolCallDelta index delta =>
      obtain rfl : delta = "" := h index delta List.mem_cons_self
      have hshown : shownAgain codec calls index "" = [] := by
        unfold shownAgain
        cases hfind : findCall index calls with
        | none => rfl
        | some tc =>
          have htc := hcalls tc (List.mem_of_find?_eq_some hfind)
          simp only [htc, String.append_empty, hcodec.read_empty]
          rfl
      rw [shownCalls, hshown, pushArguments_empty]
      exact ih hrest hcalls
    | _ => exact ih hrest hcalls

/-- Each call has one part with its complete arguments just where no call has arguments. -/
theorem one_part_each_iff {codec : JsonCodec} (hcodec : codec.Lawful) {w : World}
    {events : List CanonicalStreamEvent} (hstarted : CallsStarted events) :
    OnePartEach codec w events ↔ NoArguments events := by
  unfold OnePartEach
  rw [functionCalls_emit]
  constructor
  · intro hone index delta hmem
    by_contra hdelta
    obtain ⟨pre, post, hsplit⟩ := List.append_of_mem hmem
    obtain ⟨id, name, signature, hstart⟩ := hstarted pre index delta post hsplit
    have hcall : (index, id, name) ∈ events.filterMap startOf :=
      List.mem_filterMap.mpr ⟨_, hsplit ▸ List.mem_append_left _ hstart, rfl⟩
    obtain ⟨n, hn, heq⟩ := List.getElem_of_mem hcall
    have hcompletes := hone.get hn (hone.length_eq ▸ hn)
    rw [List.get_eq_getElem, heq] at hcompletes
    have hne : argumentsOf index events ≠ "" := fun hempty =>
      hdelta ((argumentsOf_eq_empty_iff index events).mp hempty delta hmem)
    have hread := hcompletes.args.resolve_left fun hempty => hne hempty.1
    have hawaits : Awaits index [] events := fun pre delta post hsplit =>
      .inr (hstarted pre index delta post hsplit)
    have hlt := starts_lt_shownCalls hawaits hne
      ((congrArg codec.fromStr String.empty_append).trans hread)
    rw [hone.length_eq, List.length_map] at hlt
    exact lt_irrefl _ hlt
  · intro hnone
    have hquiet := @shownCalls_noArguments codec hcodec events hnone [] (by simp)
    show List.Forall₂ _ _ ((shownCalls codec [] events).map callPart)
    rw [hquiet, List.map_map, List.forall₂_map_right_iff, List.forall₂_same]
    rintro ⟨index, id, name⟩ -
    exact ⟨rfl, rfl, .inl ⟨(argumentsOf_eq_empty_iff index events).mpr (hnone index), rfl⟩⟩

/-- Two calls at once, without arguments. -/
theorem one_part_each_clock :
    OnePartEach JsonText.compactCodec .counting
      [start "resp_1" "m", toolCallStart 0 "call_1" "clock" none,
        toolCallStart 1 "call_2" "calendar" none, done .toolUse none] :=
  (one_part_each_iff JsonText.compactCodec_lawful (callsStarted_of_no_delta (by simp))).mpr
    (by simp [NoArguments])

def weatherCall : List CanonicalStreamEvent :=
  [start "resp_1" "m", toolCallStart 0 "call_1" "weather" none,
    toolCallDelta 0 (JsonText.compactCodec.toText (.object [("city", .string "Paris")])),
    done .toolUse none]

theorem weatherCall_started : CallsStarted weatherCall := by
  have hcall := callsStarted_call 0 "call_1" "weather" none
    [JsonText.compactCodec.toText (.object [("city", .string "Paris")])]
  have hstart := @callsStarted_of_no_delta [start "resp_1" "m"] (by simp)
  have hdone := @callsStarted_of_no_delta [done .toolUse none] (by simp)
  exact callsStarted_append (callsStarted_append hstart hcall) hdone

/-- A call with arguments has two parts, the first without them. -/
theorem weatherCall_twice :
    CallsStarted weatherCall ∧
      functionCalls (outputs (emit JsonText.compactCodec) (.fresh .counting) weatherCall) =
        [⟨"weather", .object [], some "call_1"⟩,
          ⟨"weather", .object [("city", .string "Paris")], some "call_1"⟩] ∧
      ¬ OnePartEach JsonText.compactCodec .counting weatherCall := by
  have hshown : functionCalls
      (outputs (emit JsonText.compactCodec) (.fresh .counting) weatherCall) =
        [⟨"weather", .object [], some "call_1"⟩,
          ⟨"weather", .object [("city", .string "Paris")], some "call_1"⟩] := by
    rw [functionCalls_emit]
    have hfind : findCall 0 ((AdapterState.fresh .counting).accumulatedToolCalls ++
        [⟨0, "call_1", "weather", ""⟩]) = some ⟨0, "call_1", "weather", ""⟩ := rfl
    simp only [weatherCall, shownCalls, shownAgain, hfind, String.empty_append,
      JsonText.compactCodec_lawful.read_print]
    rfl
  refine ⟨weatherCall_started, hshown, fun hone => ?_⟩
  have hlength := hone.length_eq
  rw [hshown] at hlength
  cases hlength

end Gemini

end AnyConverter
