import Mathlib.Data.List.Perm.Basic
import AnyConverter.Converters.Reassembly.ToClaude
import AnyConverter.Converters.Reassembly.ToGemini

/-!
# The calls of a Chat reply

A Chat client places calls by their index; the other writers have them in the order they start.

* `startedCalls_eq`: the calls that start are those of the message, in their own order;
* `length_begun`: as many start as the message has.
-/

set_option autoImplicit false

namespace AnyConverter.OpenAIChat

open OpenAIResponses (startedCalls)
open Gemini (startStep begunCall NoneReads NeverReads)

/-! ## Pushing and placing -/

def indices (calls : List AccumulatedToolCall) : List Nat := calls.map AccumulatedToolCall.index

/-- Where indices differ, a piece of arguments goes to the calls of its index. -/
def extended (index : Nat) (delta : String) (tc : AccumulatedToolCall) : AccumulatedToolCall :=
  if tc.index = index then { tc with arguments := tc.arguments ++ delta } else tc

theorem pushArguments_eq_map {index : Nat} (delta : String) {calls : List AccumulatedToolCall}
    (h : (indices calls).Nodup) : pushArguments index delta calls = calls.map (extended index delta) := by
  induction calls with
  | nil => rfl
  | cons tc calls ih =>
    obtain ⟨hnew, hrest⟩ := List.nodup_cons.mp h
    rw [pushArguments, List.map_cons, extended]
    split
    · rename_i hindex
      have hsame : calls.map (extended index delta) = calls.map id := by
        refine List.map_congr_left fun c hc => ?_
        have hne : c.index ≠ index := by
          rintro rfl
          exact hnew (hindex ▸ List.mem_map_of_mem hc)
        rw [extended, if_neg hne]
        rfl
      rw [hsame, List.map_id]
    · rw [ih hrest]

theorem indices_pushArguments (index : Nat) (delta : String) (calls : List AccumulatedToolCall) :
    indices (pushArguments index delta calls) = indices calls := by
  induction calls with
  | nil => rfl
  | cons tc calls ih =>
    rw [pushArguments]
    split
    · rfl
    · exact congrArg (tc.index :: ·) ih

/-- A call under a new index is one more. -/
theorem placeCall_perm {call : AccumulatedToolCall} {calls : List AccumulatedToolCall}
    (h : call.index ∉ indices calls) : (placeCall call calls).Perm (call :: calls) := by
  induction calls with
  | nil => exact List.Perm.refl _
  | cons tc calls ih =>
    have hne : call.index ≠ tc.index := fun heq => h (heq ▸ List.mem_cons_self)
    have hrest := ih fun hmem => h (List.mem_cons_of_mem _ hmem)
    rw [placeCall, if_neg hne]
    split
    · exact List.Perm.refl _
    · exact (List.Perm.cons tc hrest).trans (List.Perm.swap call tc calls)

theorem pushArguments_perm {started placed : List AccumulatedToolCall}
    (hperm : started.Perm placed) (hnodup : (indices started).Nodup) (index : Nat)
    (delta : String) :
    (pushArguments index delta started).Perm (pushArguments index delta placed) := by
  have hplaced : (indices placed).Nodup :=
    (hperm.map AccumulatedToolCall.index).nodup_iff.mp hnodup
  rw [pushArguments_eq_map delta hnodup, pushArguments_eq_map delta hplaced]
  exact hperm.map _

/-! ## The order of the starts -/

/-- The indices of the calls in the order they begin. -/
def starts (fragments : List StreamToolCall) : List Nat :=
  (fragments.filter fun tc => tc.begins ≠ none).map StreamToolCall.index

/-- The calls as they start, and as they are placed, are the same calls. -/
theorem collected_perm {known : List Nat} {fragments : List StreamToolCall}
    (h : Begun known fragments) {started placed : List AccumulatedToolCall}
    (hperm : started.Perm placed) (hindices : (indices started).Perm known)
    (hnodup : known.Nodup) :
    (fragments.foldl startStep started).Perm
        (fragments.foldl (collectStep placeCall pushArguments) placed) ∧
      indices (fragments.foldl startStep started) = indices started ++ starts fragments := by
  induction h generalizing started placed with
  | nil known => exact ⟨hperm, (List.append_nil _).symm⟩
  | @first known tc rest hbegins hnew hrest ih =>
    obtain ⟨⟨id, name⟩, hp⟩ := Option.ne_none_iff_exists'.mp hbegins
    have hplaced : tc.index ∉ indices placed := fun hmem => hnew (hindices.mem_iff.mp
      ((hperm.map AccumulatedToolCall.index).mem_iff.mpr hmem))
    obtain ⟨call, hcall⟩ : ∃ call : AccumulatedToolCall, call = ⟨tc.index, id, name, ""⟩ := ⟨_, rfl⟩
    have hindex : call.index = tc.index := by rw [hcall]
    have hbegun : (started ++ [call]).Perm (placeCall call placed) :=
      (List.perm_append_singleton _ _).trans
        ((hperm.cons _).trans (placeCall_perm (hindex ▸ hplaced)).symm)
    have hnext : (indices (started ++ [call])).Perm (tc.index :: known) := by
      rw [indices, List.map_append, ← hindex]
      exact (List.perm_append_singleton _ _).trans (hindices.cons _)
    have hnodup' : (tc.index :: known).Nodup := List.nodup_cons.mpr ⟨hnew, hnodup⟩
    have hstep := pushArguments_perm hbegun (hnext.nodup_iff.mpr hnodup') tc.index tc.piece
    have hstarts : starts (tc :: rest) = tc.index :: starts rest := by simp [starts, hp]
    rw [← indices_pushArguments tc.index tc.piece] at hnext
    obtain ⟨hcalls, horder⟩ := ih hstep hnext hnodup'
    rw [hcall] at hcalls horder
    rw [List.foldl_cons, List.foldl_cons, startStep, collectStep, collectStep, hp]
    refine ⟨hcalls, ?_⟩
    rw [horder, indices_pushArguments, hstarts]
    simp [indices]
  | @more known tc rest hbegins hknown hrest ih =>
    have hstep := pushArguments_perm hperm (hindices.nodup_iff.mpr hnodup) tc.index tc.piece
    have hstarts : starts (tc :: rest) = starts rest := by simp [starts, hbegins]
    rw [← indices_pushArguments tc.index tc.piece] at hindices
    obtain ⟨hcalls, horder⟩ := ih hstep hindices hnodup
    rw [List.foldl_cons, List.foldl_cons, startStep, collectStep, collectStep, hbegins]
    refine ⟨hcalls, ?_⟩
    rw [horder, indices_pushArguments, hstarts]

variable {message : ChoiceMessage} {chunks : List OpenAIChatStreamChunk}

theorem Cut.perm (h : Cut message chunks) :
    (startedCalls (fragmentsOf chunks)).Perm (positioned (message.toolCalls.getD [])) ∧
      indices (startedCalls (fragmentsOf chunks)) = starts (fragmentsOf chunks) := by
  obtain ⟨hperm, hindices⟩ := collected_perm h.begun (List.Perm.refl []) (List.Perm.refl [])
    List.nodup_nil
  rw [← h.calls]
  exact ⟨hperm, hindices⟩

/-- A placed call is the message's call at its index. -/
theorem getElem?_of_mem_positioned {codec : JsonCodec} {toolCalls : List ToolCall}
    {call : AccumulatedToolCall} (h : call ∈ positioned toolCalls) :
    (toolCalls[call.index]?).map (ToolCall.seen codec) = some (call.seen codec) := by
  obtain ⟨i, hi, rfl⟩ := List.mem_mapIdx.mp h
  show (toolCalls[i]?).map (ToolCall.seen codec) = _
  rw [List.getElem?_eq_getElem hi]
  rfl

/-- The calls of the message in the order they start. -/
def CallsInOrder (codec : JsonCodec) (message : ChoiceMessage)
    (chunks : List OpenAIChatStreamChunk) : Prop :=
  (starts (fragmentsOf chunks)).map (fun index =>
      ((message.toolCalls.getD [])[index]?).map (ToolCall.seen codec)) =
    (message.toolCalls.getD []).map fun tc => some (tc.seen codec)

theorem callsInOrder_iff (codec : JsonCodec) (h : Cut message chunks) :
    (startedCalls (fragmentsOf chunks)).map (AccumulatedToolCall.seen codec) =
        (message.toolCalls.getD []).map (ToolCall.seen codec) ↔
      CallsInOrder codec message chunks := by
  obtain ⟨hperm, hindices⟩ := h.perm
  have hstarted : (starts (fragmentsOf chunks)).map (fun index =>
      ((message.toolCalls.getD [])[index]?).map (ToolCall.seen codec)) =
      ((startedCalls (fragmentsOf chunks)).map (AccumulatedToolCall.seen codec)).map some := by
    rw [← hindices, indices, List.map_map, List.map_map]
    exact List.map_congr_left fun call hcall =>
      getElem?_of_mem_positioned (hperm.mem_iff.mp hcall)
  have hmessage : (message.toolCalls.getD []).map (fun tc => some (tc.seen codec)) =
      ((message.toolCalls.getD []).map (ToolCall.seen codec)).map some := by
    rw [List.map_map]
    rfl
  rw [CallsInOrder, hstarted, hmessage]
  exact ⟨congrArg _, fun heq => List.map_injective_iff.mpr (Option.some_injective _) heq⟩

/-! ## The calls that begin -/

/-- A call without its arguments. -/
def named (call : AccumulatedToolCall) : SeenCall := ⟨call.id, call.name, .object []⟩

/-- Arguments neither add calls nor change their names. -/
theorem named_collect {push : Nat → String → List AccumulatedToolCall → List AccumulatedToolCall}
    (hpush : ∀ index delta calls, (push index delta calls).map named = calls.map named)
    (fragments : List StreamToolCall) (calls : List AccumulatedToolCall) :
    (fragments.foldl (collectStep (fun call calls => calls ++ [call]) push) calls).map named =
      calls.map named ++ fragments.flatMap begunCall := by
  induction fragments generalizing calls with
  | nil => simp
  | cons tc fragments ih =>
    rw [List.foldl_cons, ih, collectStep, hpush, List.flatMap_cons, ← List.append_assoc, begunCall]
    cases tc.begins with
    | none => rw [List.append_nil]
    | some p => simp [named]

theorem named_pushArguments (index : Nat) (delta : String) (calls : List AccumulatedToolCall) :
    (pushArguments index delta calls).map named = calls.map named := by
  induction calls with
  | nil => rfl
  | cons tc calls ih =>
    rw [pushArguments]
    split
    · rfl
    · rw [List.map_cons, List.map_cons, ih]

theorem named_pushLast (index : Nat) (delta : String) (calls : List AccumulatedToolCall) :
    (Claude.pushLast index delta calls).map named = calls.map named := by
  rcases List.eq_nil_or_concat calls with rfl | ⟨init, tc, rfl⟩
  · rfl
  · rw [List.concat_eq_append, Claude.pushLast_concat]
    simp [named]

/-- As many calls begin as the message has. -/
theorem Cut.length_begun (h : Cut message chunks) :
    ((fragmentsOf chunks).flatMap begunCall).length = (message.toolCalls.getD []).length := by
  have hnamed := congrArg List.length (named_collect named_pushArguments (fragmentsOf chunks) [])
  have hlength := h.perm.1.length_eq
  simp only [positioned, List.length_mapIdx] at hlength
  rw [List.map_nil, List.nil_append, List.length_map] at hnamed
  rw [← hlength, ← hnamed]
  rfl

theorem Cut.callsInTurn_eq_nil_iff (h : Cut message chunks) :
    Claude.callsInTurn (fragmentsOf chunks) = [] ↔ message.toolCalls.getD [] = [] := by
  have hnamed := congrArg List.length (named_collect named_pushLast (fragmentsOf chunks) [])
  have hbegun := h.length_begun
  rw [List.map_nil, List.nil_append, List.length_map] at hnamed
  rw [← List.length_eq_zero_iff, ← List.length_eq_zero_iff, ← hbegun, ← hnamed]
  rfl

/-- Arguments that do not read are seen as none. -/
theorem seen_of_noneReads {codec : JsonCodec} {calls : List AccumulatedToolCall}
    (h : NoneReads codec calls) : calls.map (AccumulatedToolCall.seen codec) = calls.map named := by
  refine List.map_congr_left fun tc htc => ?_
  have hnone : parseArguments codec tc.arguments = .object [] := by
    rw [parseArguments, h tc htc]
    split <;> rfl
  rw [AccumulatedToolCall.seen, hnone, named]

/-- **The calls are shown as the message has them** when none of their arguments ever reads and they
start in its order. -/
theorem Cut.shown_iff {codec : JsonCodec} (hcodec : codec.Lawful) (h : Cut message chunks) :
    Gemini.shownCalls codec [] ((fragmentsOf chunks).flatMap parseToolCall) =
        (message.toolCalls.getD []).map (ToolCall.seen codec) ↔
      NeverReads codec [] (fragmentsOf chunks) ∧ CallsInOrder codec message chunks := by
  have hcases := @Gemini.shownCalls_fragments codec hcodec (fragmentsOf chunks) [] (by
    intro tc htc
    cases htc)
  rcases hcases with ⟨hnever, hshown⟩ | ⟨hreads, hshown⟩
  · have hnone := hnever (fragmentsOf chunks) [] (List.append_nil _).symm
    have hseen : (startedCalls (fragmentsOf chunks)).map (AccumulatedToolCall.seen codec) =
        (fragmentsOf chunks).flatMap begunCall := by
      rw [startedCalls, seen_of_noneReads hnone, named_collect named_pushArguments]
      rfl
    rw [hshown, ← hseen, callsInOrder_iff codec h]
    exact ⟨fun horder => ⟨hnever, horder⟩, fun hboth => hboth.2⟩
  · refine iff_of_false ?_ fun hboth => hreads hboth.1
    intro heq
    rw [heq, List.length_map, h.length_begun] at hshown
    exact Nat.lt_irrefl _ hshown

end AnyConverter.OpenAIChat
