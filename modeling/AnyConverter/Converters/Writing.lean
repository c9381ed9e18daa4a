import AnyConverter.Converters.Stream

/-!
# Writing without errors

A writer fails only at arguments of a call it was never told of.

* `noError_of_callsStarted`: canonical events that start their calls first are written without an
  error, whatever the target and whatever the state.
-/

set_option autoImplicit false

namespace AnyConverter

open Transducer CanonicalStreamEvent

/-- A call of an index is known. -/
def Knows (index : Nat) (s : StreamState) : Prop :=
  ∃ tc ∈ s.accumulatedToolCalls, tc.index = index

theorem findCall_ne_none_iff {index : Nat} {s : StreamState} :
    findCall index s.accumulatedToolCalls ≠ none ↔ Knows index s := by
  simp [findCall, Knows]

theorem mem_pushArguments {index i : Nat} {delta : String} {calls : List AccumulatedToolCall}
    (h : ∃ tc ∈ calls, tc.index = index) :
    ∃ tc ∈ pushArguments i delta calls, tc.index = index := by
  induction calls with
  | nil => exact h
  | cons first calls ih =>
    obtain ⟨tc, htc, hindex⟩ := h
    unfold pushArguments
    rw [List.mem_cons] at htc
    split
    · rcases htc with rfl | htc
      · exact ⟨_, List.mem_cons_self, hindex⟩
      · exact ⟨tc, List.mem_cons_of_mem _ htc, hindex⟩
    · rcases htc with rfl | htc
      · exact ⟨tc, List.mem_cons_self, hindex⟩
      · obtain ⟨tc', htc', hindex'⟩ := ih ⟨tc, htc, hindex⟩
        exact ⟨tc', List.mem_cons_of_mem _ htc', hindex'⟩

namespace OpenAIResponses

variable (codec : JsonCodec) {s : AdapterState}

/-- A call that is known stays known. -/
theorem emit_knows {index : Nat} (h : Knows index s.toStreamState) (e : CanonicalStreamEvent) :
    Knows index (emit codec s e).2.toStreamState := by
  cases e with
  | start id model => exact h
  | textDelta text =>
    simp only [emit, emitTextDelta, messageItemId]
    split <;> exact h
  | toolCallStart i id name signature =>
    obtain ⟨tc, htc, hindex⟩ := h
    exact ⟨tc, List.mem_append_left _ htc, hindex⟩
  | toolCallDelta i delta =>
    simp only [emit, emitToolCallDelta]
    split
    · exact h
    · exact mem_pushArguments h
  | thinkingDelta text =>
    simp only [emit, emitThinkingDelta]
    split <;> exact h
  | thinkingSignature signer delta =>
    simp only [emit, emitThinkingSignature]
    split
    · exact h
    · split <;> exact h
  | sealedThinking signer raw => cases signer <;> exact h
  | done reason usage =>
    have hthinking : ∀ t : AdapterState, (closeThinking codec t).2.accumulatedToolCalls =
        t.accumulatedToolCalls := by
      intro t
      unfold closeThinking
      split <;> rfl
    simp only [emit, emitDone, Knows, AdapterState.nowUnixSecs_toStreamState, hthinking]
    split <;> exact h

/-- A call that was started is known. -/
theorem final_knows {index : Nat} {id name : String} {signature : Option String}
    {pre : List CanonicalStreamEvent} (h : toolCallStart index id name signature ∈ pre) :
    Knows index (final (total (emit codec)) s pre).toStreamState := by
  obtain ⟨before, after, rfl⟩ := List.append_of_mem h
  rw [final_append, final_cons]
  refine final_induction (I := fun t : AdapterState => Knows index t.toStreamState)
    (P := fun _ => True)
    (fun t e ht _ => emit_knows codec ht e) after _ ?_ fun _ _ => trivial
  exact ⟨_, List.mem_append_right _ (List.mem_singleton.mpr rfl), rfl⟩

end OpenAIResponses

theorem final_emitStream_openAIResponses (codec : JsonCodec) (s : AdapterState)
    (events : List CanonicalStreamEvent) :
    final (total (emitStream codec .openAIResponses)) s events =
      final (total (OpenAIResponses.emit codec)) s events := by
  induction events generalizing s with
  | nil => rfl
  | cons e events ih => exact ih _

/-- Canonical events that start their calls first are written without an error. -/
theorem noError_of_callsStarted (codec : JsonCodec) (target : Format) (s : AdapterState)
    {events : List CanonicalStreamEvent} (h : CallsStarted events) :
    NoError (emitStream codec target) s events := by
  refine noError_iff.mpr ?_
  intro pre e post hsplit
  cases target with
  | openAIResponses =>
    cases e with
    | toolCallDelta index delta =>
      obtain ⟨id, name, signature, hmem⟩ := h pre index delta post hsplit
      have hknows := @OpenAIResponses.final_knows codec s index id name signature pre hmem
      rw [← final_emitStream_openAIResponses, ← findCall_ne_none_iff] at hknows
      obtain ⟨tc, htc⟩ := Option.ne_none_iff_exists'.mp hknows
      simp [emitStream, OpenAIResponses.emit, OpenAIResponses.emitToolCallDelta, htc, Except.map]
    | sealedThinking signer raw =>
      cases signer <;> exact ⟨_, rfl⟩
    | _ => exact ⟨_, rfl⟩
  | _ => exact ⟨_, rfl⟩

end AnyConverter
