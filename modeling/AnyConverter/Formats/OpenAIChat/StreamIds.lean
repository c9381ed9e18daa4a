import AnyConverter.Formats.OpenAIChat.Stream

/-!
# The ids of a Chat stream

The first chunk carries the id as the stream gave it, the others the id in Chat's form.

* `chunkId_emit`: what one event is written under;
* `one_id_iff`: where all chunks of a stream carry one id of Chat's form.
-/

set_option autoImplicit false

namespace AnyConverter.OpenAIChat

open Transducer CanonicalStreamEvent

/-- The id of a chunk. -/
def chunkId : StreamEvent → Option String
  | .chunk c => some c.id
  | .done => none

/-- Chat's form of an id. -/
def IsChatId (id : String) : Prop := Text.startsWith id "chatcmpl-"

/-- All chunks carry one id, of Chat's form. -/
def OneChatId (events : List StreamEvent) : Prop :=
  ∃ id, IsChatId id ∧ ∀ e ∈ events, ∀ i, chunkId e = some i → i = id

/-- An id of Chat's form stays as it is. -/
theorem normalizeIdToChat_of_isChatId {id : String} (h : IsChatId id) (w : World) :
    normalizeIdToChat w id = (id, w) := by
  have hne : id ≠ "" := by
    rintro rfl
    cases h
  unfold IsChatId at h
  rw [normalizeIdToChat, normalizeIdWith, if_neg hne, normalizeId, if_pos h]

/-- Under an id of Chat's form, an event that starts no other stream is written under that id. -/
theorem chunkId_emit {s : AdapterState} {id : String} (hid : IsChatId id)
    (hs : s.responseId = some id) {e : CanonicalStreamEvent}
    (he : ∀ id' model, e = start id' model → id' = id) :
    (emit s e).2.responseId = some id ∧
      ∀ o ∈ (emit s e).1, ∀ i, chunkId o = some i → i = id := by
  have hids : (streamIds s).1.1 = id ∧ (streamIds s).2.responseId = some id := by
    unfold streamIds
    simp [hs, normalizeIdToChat_of_isChatId hid]
  have hdelta : ∀ delta, (emitDelta s delta).2.responseId = some id ∧
      ∀ o ∈ (emitDelta s delta).1, ∀ i, chunkId o = some i → i = id := by
    intro delta
    refine ⟨hids.2, fun o ho i hi => ?_⟩
    obtain rfl := List.mem_singleton.mp ho
    exact (Option.some.inj hi).symm.trans hids.1
  cases e with
  | start id' model =>
    obtain rfl := he id' model rfl
    refine ⟨rfl, fun o ho i hi => ?_⟩
    obtain rfl := List.mem_singleton.mp ho
    exact (Option.some.inj hi).symm
  | done reason usage =>
    refine ⟨hids.2, fun o ho i hi => ?_⟩
    rcases List.mem_pair.mp ho with rfl | rfl
    · exact (Option.some.inj hi).symm.trans hids.1
    · cases hi
  | thinkingSignature signer d => exact ⟨hs, by simp [emit]⟩
  | sealedThinking signer raw => exact ⟨hs, by simp [emit]⟩
  | textDelta text => exact hdelta _
  | thinkingDelta thinking => exact hdelta _
  | toolCallStart index callId name signature => exact hdelta _
  | toolCallDelta index arguments => exact hdelta _

/-- Every start is written under the id it brings. -/
theorem chunkId_start {events : List CanonicalStreamEvent} {id model : String}
    (h : start id model ∈ events) (s : AdapterState) :
    ∃ o ∈ outputs emit s events, chunkId o = some id := by
  obtain ⟨pre, post, hsplit⟩ := List.append_of_mem h
  refine ⟨_, (mem_outputs_iff emit).mpr ⟨pre, _, post, hsplit, List.mem_singleton_self _⟩, rfl⟩

/-- All chunks of a stream carry one id of Chat's form just where its start brought one. -/
theorem one_id_iff (w : World) (id model : String) (events : List CanonicalStreamEvent) :
    OneChatId (outputs emit (.fresh w) (start id model :: events)) ↔
      IsChatId id ∧ ∀ id' model', start id' model' ∈ events → id' = id := by
  constructor
  · rintro ⟨one, hone, hall⟩
    have hstart : ∀ id' model', start id' model' ∈ start id model :: events → id' = one := by
      intro id' model' hmem
      obtain ⟨o, ho, hid⟩ := chunkId_start hmem (.fresh w)
      exact hall o ho id' hid
    obtain rfl := hstart id model List.mem_cons_self
    exact ⟨hone, fun id' model' hmem => hstart id' model' (List.mem_cons_of_mem _ hmem)⟩
  · rintro ⟨hid, hstarts⟩
    refine ⟨id, hid, ?_⟩
    have hfirst := @chunkId_emit ({ AdapterState.fresh w with responseId := some id }) id hid rfl
      (start id model) (by simp)
    have hrest := outputs_induction (I := fun s : AdapterState => s.responseId = some id)
      (P := fun e => ∀ id' model', e = start id' model' → id' = id)
      (Q := fun o => ∀ i, chunkId o = some i → i = id)
      (fun s e hs he => (@chunkId_emit s id hid hs e he).1)
      (fun s e hs he => (@chunkId_emit s id hid hs e he).2)
      events (emit (.fresh w) (start id model)).2 rfl
      (fun e he id' model' heq => hstarts id' model' (heq ▸ he))
    intro o ho
    rcases List.mem_append.mp ho with ho | ho
    · exact hfirst.2 o ho
    · exact hrest o ho

/-- A reply that started under a Claude id. -/
def greeting : List CanonicalStreamEvent :=
  [start "msg_1" "m", textDelta "Hi", done .endTurn none]

/-- Its first chunk carries the Claude id, the others Chat's form of it. -/
theorem greeting_two_ids :
    (outputs emit (.fresh .counting) greeting).filterMap chunkId =
      ["msg_1", "chatcmpl-1", "chatcmpl-1"] ∧
    ¬ OneChatId (outputs emit (.fresh .counting) greeting) := by
  have hids : (outputs emit (.fresh .counting) greeting).filterMap chunkId =
      ["msg_1", "chatcmpl-1", "chatcmpl-1"] := by decide
  refine ⟨hids, ?_⟩
  rintro ⟨one, hone, hall⟩
  have hfirst : "msg_1" ∈ (outputs emit (.fresh .counting) greeting).filterMap chunkId := by
    rw [hids]
    exact List.mem_cons_self
  obtain ⟨o, ho, hid⟩ := List.mem_filterMap.mp hfirst
  obtain rfl := hall o ho _ hid
  cases hone

end AnyConverter.OpenAIChat
