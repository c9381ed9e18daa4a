import Mathlib.Data.List.Induction
import AnyConverter.Formats.OpenAIResp.Stream

/-!
# The items of a streamed reply

A Responses client keys what it shows by `output_index`: an item is announced under an index, its
later events repeat the index, and `response.completed` holds the item at that position.  This
module says what a whole reply announces, from its start through any body to its end.

* `emit_frame`: what one canonical event does to the fields the indices depend on;
* `mem_announced_iff`: what a body announces;
* `finalIds_getElem?`: what is at a position of the completed response.
-/

set_option autoImplicit false

namespace AnyConverter.OpenAIResponses

open Transducer CanonicalStreamEvent

/-! ## Announcements -/

/-- The item an event announces, and under which index. -/
def announces : StreamEvent → Option (String × Nat)
  | .outputItemAdded index item => some (item.id, index)
  | _ => none

/-- The item an event continues or closes, and the index it carries. -/
def about : StreamEvent → Option (String × Nat)
  | .outputItemDone index item => some (item.id, index)
  | .contentPartAdded itemId index => some (itemId, index)
  | .contentPartDone itemId index _ => some (itemId, index)
  | .outputTextDelta itemId index _ => some (itemId, index)
  | .outputTextDone itemId index _ => some (itemId, index)
  | .functionCallArgumentsDelta itemId index _ => some (itemId, index)
  | .functionCallArgumentsDone itemId index _ => some (itemId, index)
  | _ => none

def announced (events : List StreamEvent) : List (String × Nat) := events.filterMap announces

/-! ## Replies -/

/-- A canonical event of a reply's body. -/
def IsBody : CanonicalStreamEvent → Prop
  | start _ _ => False
  | done _ _ => False
  | _ => True

variable (codec : JsonCodec) (w : World) (id model : String)

/-- The state after the start and a part of the body. -/
def stateAfter (body : List CanonicalStreamEvent) : AdapterState :=
  final (total (emit codec)) (.fresh w) (start id model :: body)

/-- The events written of a reply, from a fresh state. -/
def replyEvents (body : List CanonicalStreamEvent) (reason : StopReason) (usage : Option Usage) :
    List StreamEvent :=
  outputs (total (emit codec)) (.fresh w) (start id model :: body ++ [done reason usage])

/-- What is added to a call's number to get its index. -/
def callOffset (s : StreamState) : Nat := textOffset s + reasoningPrefix s

theorem callOutputIndex_eq (s : StreamState) (index : Nat) :
    callOutputIndex s index = index + callOffset s := Nat.add_assoc _ _ _

/-! ## Item ids -/

/-- A normalized response id carries its prefix. -/
theorem normalizeIdToResp_prefix : ∃ rest, (normalizeIdToResp w id).1 = "resp_" ++ rest := by
  unfold normalizeIdToResp normalizeIdWith
  split
  · exact ⟨_, rfl⟩
  · unfold normalizeId
    split
    · rename_i h
      obtain ⟨rest, hrest⟩ := Option.isSome_iff_exists.mp h
      exact ⟨rest, Text.stripPrefix_eq_some hrest⟩
    · exact ⟨_, rfl⟩

variable {codec w id model}

/-- The id of the response, and of its message. -/
abbrev messageId (w : World) (id : String) : String := (normalizeIdToResp w id).1 ++ "_msg_0"

theorem callItemId_ne_messageId (callId : String) : callItemId callId ≠ messageId w id := by
  obtain ⟨rest, hrest⟩ := normalizeIdToResp_prefix w id
  intro h
  have hlist := congrArg String.toList h
  simp [callItemId, messageId, hrest] at hlist

theorem reasoningId_ne_messageId (u : String) : "rs_" ++ u ≠ messageId w id := by
  obtain ⟨rest, hrest⟩ := normalizeIdToResp_prefix w id
  intro h
  have hlist := congrArg String.toList h
  simp [messageId, hrest] at hlist

theorem reasoningId_ne_callItemId (u callId : String) : "rs_" ++ u ≠ callItemId callId := by
  intro h
  have hlist := congrArg String.toList h
  simp [callItemId] at hlist

theorem callItemId_inj {a b : String} (h : callItemId a = callItemId b) : a = b := by
  have hlist := congrArg String.toList h
  simpa [callItemId, String.toList_inj] using hlist

/-! ## One canonical event -/

/-- The text an event adds. -/
def textOf : CanonicalStreamEvent → String
  | textDelta t => t
  | _ => ""

/-- The call an event starts: its index and its id. -/
def startOf : CanonicalStreamEvent → List (Nat × String)
  | toolCallStart index callId _ _ => [(index, callId)]
  | _ => []

def callKey (tc : AccumulatedToolCall) : Nat × String := (tc.index, tc.id)

theorem callKeys_pushArguments (index : Nat) (delta : String) (calls : List AccumulatedToolCall) :
    (pushArguments index delta calls).map callKey = calls.map callKey := by
  induction calls with
  | nil => rfl
  | cons tc calls ih =>
    unfold pushArguments
    split
    · rfl
    · rw [List.map_cons, List.map_cons, ih]

/-- What a body event does to the fields the indices depend on. -/
theorem emit_frame (s : AdapterState) {e : CanonicalStreamEvent} (he : IsBody e) :
    (emit codec s e).2.responseId = s.responseId ∧
    (emit codec s e).2.accumulatedText = s.accumulatedText ++ textOf e ∧
    (emit codec s e).2.accumulatedToolCalls.map callKey =
      s.accumulatedToolCalls.map callKey ++ startOf e := by
  cases e with
  | start id model => exact absurd he (by simp [IsBody])
  | done reason usage => exact absurd he (by simp [IsBody])
  | textDelta t =>
    have hid : (messageItemId s).2.responseId = s.responseId ∧
        (messageItemId s).2.accumulatedToolCalls = s.accumulatedToolCalls := by
      unfold messageItemId
      split <;> exact ⟨rfl, rfl⟩
    simp [emit, emitTextDelta, textOf, startOf, hid]
  | thinkingDelta t =>
    simp only [emit, emitThinkingDelta]
    split <;> simp [textOf, startOf]
  | thinkingSignature signer delta =>
    simp only [emit, emitThinkingSignature]
    split
    · simp [textOf, startOf]
    · split <;> simp [textOf, startOf]
  | sealedThinking signer raw =>
    cases signer <;> simp [emit, emitSealedThinking, AdapterState.newUuid, textOf, startOf]
  | toolCallStart index callId name signature =>
    simp [emit, emitToolCallStart, textOf, startOf, callKey]
  | toolCallDelta index delta =>
    simp only [emit, emitToolCallDelta]
    split <;> simp [textOf, startOf, callKeys_pushArguments]

/-- What a body event announces. -/
def announcedBy (messageId : String) (s : AdapterState) : CanonicalStreamEvent → List (String × Nat)
  | textDelta _ =>
    if s.accumulatedText = "" then [(messageId, reasoningPrefix s.toStreamState)] else []
  | toolCallStart index callId _ _ => [(callItemId callId, index + callOffset s.toStreamState)]
  | sealedThinking .claude _ =>
    [("rs_" ++ s.newUuid.1,
      textOffset s.toStreamState + s.accumulatedToolCalls.length + s.blockIndex)]
  | _ => []

theorem announcedBy_cases {messageId : String} {s : AdapterState} {e : CanonicalStreamEvent}
    {p : String × Nat} (h : p ∈ announcedBy messageId s e) :
    (∃ t, e = textDelta t ∧ s.accumulatedText = "" ∧
      p = (messageId, reasoningPrefix s.toStreamState)) ∨
    (∃ index callId name signature, e = toolCallStart index callId name signature ∧
      p = (callItemId callId, index + callOffset s.toStreamState)) ∨
    ∃ raw, e = sealedThinking .claude raw ∧ p.1 = "rs_" ++ s.newUuid.1 := by
  cases e with
  | textDelta t =>
    simp only [announcedBy] at h
    split at h
    · rename_i hempty
      exact .inl ⟨t, rfl, hempty, List.mem_singleton.mp h⟩
    · simp at h
  | toolCallStart index callId name signature =>
    exact .inr (.inl ⟨index, callId, name, signature, rfl, List.mem_singleton.mp h⟩)
  | sealedThinking signer raw =>
    cases signer with
    | claude => exact .inr (.inr ⟨raw, rfl, by rw [List.mem_singleton.mp h]⟩)
    | _ => simp [announcedBy] at h
  | _ => simp [announcedBy] at h

theorem announced_emit {s : AdapterState} {rid : String} (hid : s.responseId = some rid)
    {e : CanonicalStreamEvent} (he : IsBody e) :
    announced (emitted (emit codec s e).1) = announcedBy (rid ++ "_msg_0") s e := by
  cases e with
  | start id model => exact absurd he (by simp [IsBody])
  | done reason usage => exact absurd he (by simp [IsBody])
  | textDelta t =>
    simp only [emit, emitTextDelta, messageItemId, hid, emitted_ok, announcedBy]
    split <;> simp [announced, announces, OutputItem.id]
  | thinkingDelta t => rfl
  | thinkingSignature signer delta => rfl
  | sealedThinking signer raw => cases signer <;> rfl
  | toolCallStart index callId name signature =>
    simp [emit, emitToolCallStart, announced, announces, announcedBy, OutputItem.id,
      callOutputIndex, callOffset, Nat.add_assoc]
  | toolCallDelta index delta =>
    simp only [emit, emitToolCallDelta]
    split <;> rfl

/-! ## A body -/

/-- The piece of Claude's signature an event adds. -/
def signatureOf : CanonicalStreamEvent → String
  | thinkingSignature .claude delta => delta
  | _ => ""

/-- Claude signed the thinking of a body: of its signature, what follows the last end mark. -/
def signs (body : List CanonicalStreamEvent) : Bool :=
  Text.afterLast thinkingTextEnd (String.join (body.map signatureOf)) ≠ ""

theorem stateAfter_append (pre : List CanonicalStreamEvent) (e : CanonicalStreamEvent) :
    stateAfter codec w id model (pre ++ [e]) =
      (emit codec (stateAfter codec w id model pre) e).2 := by
  rw [stateAfter, ← List.cons_append, final_append]
  rfl

/-- The fields the indices depend on, after a part of the body. -/
theorem stateAfter_frame {body : List CanonicalStreamEvent} (hbody : ∀ e ∈ body, IsBody e) :
    (stateAfter codec w id model body).responseId = some (normalizeIdToResp w id).1 ∧
    (stateAfter codec w id model body).accumulatedText = String.join (body.map textOf) ∧
    (stateAfter codec w id model body).accumulatedToolCalls.map callKey =
      body.flatMap startOf := by
  induction body using List.reverseRecOn with
  | nil => exact ⟨rfl, rfl, rfl⟩
  | append_singleton pre e ih =>
    obtain ⟨hid, htext, hcalls⟩ := ih fun x hx => hbody x (List.mem_append_left _ hx)
    obtain ⟨hid', htext', hcalls'⟩ :=
      @emit_frame codec (stateAfter codec w id model pre) e (hbody e (by simp))
    rw [stateAfter_append]
    refine ⟨hid'.trans hid, ?_, ?_⟩
    · rw [htext', htext]
      simp [String.join_append]
    · rw [hcalls', hcalls]
      simp

/-- How the open thinking block reads the signature of a body. -/
structure Signed (s : StreamState) (signature : String) : Prop where
  signer : s.thinkingSignatureBy = if signature = "" then none else some .claude
  mark : signature ≠ "" → thinkingTextEnd ∈ s.thinkingSignature.toList ∧
    Text.afterLast thinkingTextEnd s.thinkingSignature = Text.afterLast thinkingTextEnd signature

theorem Signed.emitThinkingDelta {s : AdapterState} {signature : String}
    (h : Signed s.toStreamState signature) (delta : String) :
    Signed (emitThinkingDelta s delta).toStreamState signature := by
  have hsigner : (OpenAIResponses.emitThinkingDelta s delta).thinkingSignatureBy =
      s.thinkingSignatureBy := by
    unfold OpenAIResponses.emitThinkingDelta
    split <;> rfl
  refine ⟨hsigner.trans h.signer, fun hne => ?_⟩
  obtain ⟨hmem, hlast⟩ := h.mark hne
  obtain ⟨t, ht⟩ := Text.rsplitOnce_of_mem hmem
  obtain ⟨-, hu⟩ := Text.rsplitOnce_eq_some ht
  have hfield : (OpenAIResponses.emitThinkingDelta s delta).thinkingSignature =
      t ++ delta ++ String.singleton thinkingTextEnd ++
        Text.afterLast thinkingTextEnd s.thinkingSignature := by
    simp only [OpenAIResponses.emitThinkingDelta, splitThinking, ht]
  rw [hfield]
  refine ⟨by simp, ?_⟩
  rw [Text.afterLast_mid hu, hlast]

theorem Signed.emitThinkingSignature {s : AdapterState} {signature : String}
    (h : Signed s.toStreamState signature) (signer : Format) (delta : String) :
    Signed (emitThinkingSignature s signer delta).toStreamState
      (signature ++ signatureOf (thinkingSignature signer delta)) := by
  unfold OpenAIResponses.emitThinkingSignature
  split
  · rename_i hskip
    have hnone : signatureOf (thinkingSignature signer delta) = "" := by
      rcases hskip with hskip | rfl
      · cases signer <;> first | rfl | exact absurd rfl hskip
      · cases signer <;> rfl
    rwa [hnone, String.append_empty]
  · rename_i hskip
    rw [not_or, not_not] at hskip
    obtain ⟨rfl, hdelta⟩ := hskip
    have hne : signature ++ delta ≠ "" := by simp [hdelta]
    simp only [signatureOf]
    by_cases hsig : signature = ""
    · -- the first piece: it follows the end mark
      have hby : s.thinkingSignatureBy = none := by rw [h.signer, if_pos hsig]
      simp only [hby, reduceCtorEq, if_false]
      refine ⟨by simp [hdelta], fun _ => ⟨by simp, ?_⟩⟩
      rw [hsig, String.empty_append]
      by_cases hmem : thinkingTextEnd ∈ delta.toList
      · rw [Text.afterLast_append_of_mem hmem]
      · rw [Text.afterLast_mid hmem, Text.afterLast_of_not_mem hmem]
    · have hby : s.thinkingSignatureBy = some .claude := by rw [h.signer, if_neg hsig]
      obtain ⟨hmark, hlast⟩ := h.mark hsig
      simp only [hby, if_true]
      refine ⟨by simp [hdelta], fun _ => ⟨by simp [hmark], ?_⟩⟩
      by_cases hmem : thinkingTextEnd ∈ delta.toList
      · rw [Text.afterLast_append_of_mem hmem, Text.afterLast_append_of_mem hmem]
      · rw [Text.afterLast_append_of_not_mem hmem, Text.afterLast_append_of_not_mem hmem, hlast]

/-- Events of other kinds leave the open thinking block alone. -/
theorem emit_thinking (s : AdapterState) {e : CanonicalStreamEvent} (he : IsBody e)
    (hdelta : ∀ t, e ≠ thinkingDelta t) (hsignature : ∀ by_ t, e ≠ thinkingSignature by_ t) :
    (emit codec s e).2.thinkingSignature = s.thinkingSignature ∧
      (emit codec s e).2.thinkingSignatureBy = s.thinkingSignatureBy := by
  cases e with
  | start _ _ => exact he.elim
  | done _ _ => exact he.elim
  | thinkingDelta t => exact absurd rfl (hdelta t)
  | thinkingSignature by_ t => exact absurd rfl (hsignature by_ t)
  | textDelta t =>
    simp only [emit, emitTextDelta, messageItemId]
    split <;> exact ⟨rfl, rfl⟩
  | sealedThinking signer raw => cases signer <;> exact ⟨rfl, rfl⟩
  | toolCallDelta index delta =>
    simp only [emit, emitToolCallDelta]
    split <;> exact ⟨rfl, rfl⟩
  | toolCallStart _ _ _ _ => exact ⟨rfl, rfl⟩

theorem Signed.emit {s : AdapterState} {signature : String}
    (h : Signed s.toStreamState signature) {e : CanonicalStreamEvent} (he : IsBody e) :
    Signed (emit codec s e).2.toStreamState (signature ++ signatureOf e) := by
  by_cases hdelta : ∃ t, e = thinkingDelta t
  · obtain ⟨t, rfl⟩ := hdelta
    rw [signatureOf, String.append_empty]
    · exact h.emitThinkingDelta t
    · simp
  by_cases hsignature : ∃ by_ t, e = thinkingSignature by_ t
  · obtain ⟨by_, t, rfl⟩ := hsignature
    exact h.emitThinkingSignature by_ t
  rw [not_exists] at hdelta
  simp only [not_exists] at hsignature
  have hnone : signatureOf e = "" := by
    cases e with
    | thinkingSignature by_ t => exact absurd rfl (hsignature by_ t)
    | _ => rfl
  obtain ⟨hfield, hby⟩ := @emit_thinking codec s e he hdelta hsignature
  rw [hnone, String.append_empty]
  exact ⟨by rw [hby]; exact h.signer, by rw [hfield]; exact h.mark⟩

theorem signed_stateAfter {body : List CanonicalStreamEvent} (hbody : ∀ e ∈ body, IsBody e) :
    Signed (stateAfter codec w id model body).toStreamState
      (String.join (body.map signatureOf)) := by
  induction body using List.reverseRecOn with
  | nil => exact ⟨rfl, fun h => absurd rfl h⟩
  | append_singleton pre e ih =>
    have hpre := ih fun x hx => hbody x (List.mem_append_left _ hx)
    rw [stateAfter_append]
    simpa [String.join_append] using @Signed.emit codec _ _ hpre e (hbody e (by simp))

/-- The state knows whether the body was signed. -/
theorem signedByClaude_stateAfter {body : List CanonicalStreamEvent}
    (hbody : ∀ e ∈ body, IsBody e) :
    signedByClaude (stateAfter codec w id model body).toStreamState = signs body := by
  have hsigned := @signed_stateAfter codec w id model body hbody
  unfold signedByClaude signs
  by_cases hsig : String.join (body.map signatureOf) = ""
  · rw [hsigned.signer, if_pos hsig, hsig]
    rfl
  · obtain ⟨hmark, hlast⟩ := hsigned.mark hsig
    obtain ⟨t, ht⟩ := Text.rsplitOnce_of_mem hmark
    rw [hsigned.signer, if_neg hsig, splitThinking, ht, hlast]
    simp

variable {body : List CanonicalStreamEvent}

/-- The body's events of the reply. -/
def bodyEvents (codec : JsonCodec) (w : World) (id model : String)
    (body : List CanonicalStreamEvent) : List StreamEvent :=
  outputs (total (emit codec)) (stateAfter codec w id model []) body

/-- What a body announces: an event of it does, in the state before it. -/
theorem mem_announced_iff (hbody : ∀ e ∈ body, IsBody e) {p : String × Nat} :
    p ∈ announced (bodyEvents codec w id model body) ↔
      ∃ pre e post, body = pre ++ e :: post ∧
        p ∈ announcedBy (messageId w id) (stateAfter codec w id model pre) e := by
  have hstep : ∀ pre e post, body = pre ++ e :: post →
      announced (emitted (emit codec (stateAfter codec w id model pre) e).1) =
        announcedBy (messageId w id) (stateAfter codec w id model pre) e := by
    rintro pre e post rfl
    have hpre : ∀ x ∈ pre, IsBody x := fun x hx => hbody x (by simp [hx])
    exact announced_emit (stateAfter_frame hpre).1 (hbody e (by simp))
  unfold announced bodyEvents
  rw [List.mem_filterMap]
  constructor
  · rintro ⟨o, ho, hp⟩
    obtain ⟨pre, e, post, hsplit, ho⟩ := (mem_outputs_iff _).mp ho
    refine ⟨pre, e, post, hsplit, ?_⟩
    rw [← hstep pre e post hsplit]
    exact List.mem_filterMap.mpr ⟨o, ho, hp⟩
  · rintro ⟨pre, e, post, hsplit, hp⟩
    rw [← hstep pre e post hsplit] at hp
    obtain ⟨o, ho, hp⟩ := List.mem_filterMap.mp hp
    exact ⟨o, (mem_outputs_iff _).mpr ⟨pre, e, post, hsplit, ho⟩, hp⟩

/-- A reply with text has a piece that found none. -/
theorem exists_first_text (hbody : ∀ e ∈ body, IsBody e) (htext : ∃ t, textDelta t ∈ body) :
    ∃ pre t post, body = pre ++ textDelta t :: post ∧
      (stateAfter codec w id model pre).accumulatedText = "" := by
  induction body using List.reverseRecOn with
  | nil => simp at htext
  | append_singleton pre e ih =>
    have hpre : ∀ x ∈ pre, IsBody x := fun x hx => hbody x (List.mem_append_left _ hx)
    by_cases h : ∃ t, textDelta t ∈ pre
    · obtain ⟨p, t, post, rfl, hempty⟩ := ih hpre h
      exact ⟨p, t, post ++ [e], by simp, hempty⟩
    · obtain ⟨t, ht⟩ := htext
      rw [List.mem_append, List.mem_singleton] at ht
      rcases ht with ht | rfl
      · exact absurd ⟨t, ht⟩ h
      · refine ⟨pre, t, [], rfl, ?_⟩
        rw [(stateAfter_frame hpre).2.1]
        have hnone : ∀ x ∈ pre, textOf x = "" := by
          intro x hx
          cases x with
          | textDelta t' => exact absurd ⟨t', hx⟩ h
          | _ => rfl
        exact Text.join_map_empty_iff.mpr hnone

/-! ## The end of a reply -/

/-- The id drawn for the signed thinking. -/
def closingId (s : AdapterState) : String := "rs_" ++ s.newUuid.1

/-- The ids of the completed response's items. -/
def finalIds (messageId : String) (s : AdapterState) : List String :=
  let ids := (if signedByClaude s.toStreamState then [closingId s] else []) ++
    (if s.accumulatedText = "" then [] else [messageId]) ++
    s.accumulatedToolCalls.map fun tc => callItemId tc.id
  if ids = [] then [messageId] else ids

/-- What the end of a reply announces. -/
def closingAnnounced (s : AdapterState) : List (String × Nat) :=
  if signedByClaude s.toStreamState then [(closingId s, 0)] else []

theorem announced_append (xs ys : List StreamEvent) :
    announced (xs ++ ys) = announced xs ++ announced ys := List.filterMap_append

theorem announced_closeCalls (s : StreamState) (calls : List AccumulatedToolCall) :
    announced (calls.flatMap (closeCall s)) = [] := by
  induction calls with
  | nil => rfl
  | cons tc calls ih =>
    rw [List.flatMap_cons, announced_append, ih]
    rfl

theorem announced_closeMessage (s : StreamState) (itemId : String) :
    announced (closeMessage s itemId).1 = [] := by
  unfold closeMessage
  split <;> rfl

theorem announced_closeThinking (s : AdapterState) :
    announced (closeThinking codec s).1.1 = closingAnnounced s := by
  unfold closeThinking closingAnnounced
  split <;> rfl

section
variable {s : AdapterState} {rid : String} (hid : s.responseId = some rid) (reason : StopReason)
  (usage : Option Usage)
include hid

/-- The events that end a reply. -/
theorem emitDone_events : ∃ response, response.output.map OutputItem.id =
      finalIds (rid ++ "_msg_0") s ∧
    (emitDone codec s reason usage).1 = (closeThinking codec s).1.1 ++
      (closeMessage s.toStreamState (rid ++ "_msg_0")).1 ++
      s.accumulatedToolCalls.flatMap (closeCall s.toStreamState) ++ [.completed response] := by
  refine ⟨_, ?_, by simp only [emitDone, hid]; rfl⟩
  have hitems : ((closeThinking codec s).1.2 ++
      (closeMessage s.toStreamState (rid ++ "_msg_0")).2 ++
      s.accumulatedToolCalls.map callItem).map OutputItem.id =
      (if signedByClaude s.toStreamState then [closingId s] else []) ++
      (if s.accumulatedText = "" then [] else [rid ++ "_msg_0"]) ++
      s.accumulatedToolCalls.map fun tc => callItemId tc.id := by
    rw [List.map_append, List.map_append, List.map_map]
    congr 2
    · unfold closeThinking
      split <;> rfl
    · unfold closeMessage
      split <;> rfl
  simp only [outputOrEmpty, finalIds, ← hitems, List.map_eq_nil_iff]
  split <;> rfl

theorem announced_emitDone :
    announced (emitDone codec s reason usage).1 = closingAnnounced s := by
  obtain ⟨response, -, hevents⟩ := @emitDone_events codec s rid hid reason usage
  rw [hevents, announced_append, announced_append, announced_append, announced_closeThinking,
    announced_closeMessage, announced_closeCalls]
  simp [announced, announces]

end

/-- What is at a position of the completed response. -/
theorem finalIds_getElem? (messageId : String) (s : AdapterState) (x : String) (i : Nat) :
    (finalIds messageId s)[i]? = some x ↔
      (signedByClaude s.toStreamState = true ∧ i = 0 ∧ closingId s = x) ∨
      (messageId = x ∧ i = reasoningPrefix s.toStreamState ∧
        (s.accumulatedText = "" → s.accumulatedToolCalls = [] ∧
          signedByClaude s.toStreamState = false)) ∨
      ∃ j tc, s.accumulatedToolCalls[j]? = some tc ∧ i = j + callOffset s.toStreamState ∧
        callItemId tc.id = x := by
  have hcalls : ∀ k : Nat,
      (s.accumulatedToolCalls.map fun tc : AccumulatedToolCall => callItemId tc.id)[k]? = some x ↔
      ∃ tc, s.accumulatedToolCalls[k]? = some tc ∧ callItemId tc.id = x := by
    intro k
    rw [List.getElem?_map, Option.map_eq_some_iff]
  simp only [finalIds, callOffset, textOffset, reasoningPrefix]
  by_cases hsigned : signedByClaude s.toStreamState = true <;>
    by_cases htext : s.accumulatedText = ""
  · rcases i with _ | i
    · simp [hsigned, htext]
    · simp [hsigned, htext]
  · rcases i with _ | _ | i
    · simp [hsigned, htext]
    · simp [hsigned, htext]
    · simp [hsigned, htext]
  · by_cases hnil : s.accumulatedToolCalls = []
    · rcases i with _ | i <;> simp [hsigned, htext, hnil]
    · simp [hsigned, htext, hnil]
  · rcases i with _ | i
    · simp [hsigned, htext]
    · simp [hsigned, htext]

/-! ## The whole reply -/

theorem replyEvents_eq (reason : StopReason) (usage : Option Usage) :
    replyEvents codec w id model body reason usage =
      (emitStart (.fresh w) id model).1 ++ bodyEvents codec w id model body ++
        (emitDone codec (stateAfter codec w id model body) reason usage).1 := by
  unfold replyEvents
  rw [outputs_append]
  simp only [outputs_cons, outputs_nil, List.append_nil]
  rfl

theorem announced_replyEvents (hbody : ∀ e ∈ body, IsBody e) (reason : StopReason)
    (usage : Option Usage) :
    announced (replyEvents codec w id model body reason usage) =
      announced (bodyEvents codec w id model body) ++
        closingAnnounced (stateAfter codec w id model body) := by
  rw [replyEvents_eq, announced_append, announced_append,
    announced_emitDone (stateAfter_frame hbody).1]
  rfl

/-- A body event does not complete the response. -/
theorem completed_not_mem_emit (s : AdapterState) {e : CanonicalStreamEvent} (he : IsBody e)
    (response : StreamResponse) : .completed response ∉ emitted (emit codec s e).1 := by
  cases e with
  | start id model => exact he.elim
  | done reason usage => exact he.elim
  | textDelta t =>
    simp only [emit, emitTextDelta, emitted_ok]
    split <;> simp
  | sealedThinking signer raw => cases signer <;> simp [emit, emitSealedThinking]
  | toolCallDelta index delta =>
    simp only [emit, emitToolCallDelta]
    split <;> simp
  | toolCallStart index callId name signature => simp [emit, emitToolCallStart]
  | _ => simp [emit]

/-- The completed response of a reply holds the items of the final state. -/
theorem completed_output (hbody : ∀ e ∈ body, IsBody e) {reason : StopReason}
    {usage : Option Usage} {response : StreamResponse}
    (h : .completed response ∈ replyEvents codec w id model body reason usage) :
    response.output.map OutputItem.id =
      finalIds (messageId w id) (stateAfter codec w id model body) := by
  obtain ⟨response', hids, hevents⟩ := @emitDone_events codec (stateAfter codec w id model body) _
    (stateAfter_frame hbody).1 reason usage
  rw [replyEvents_eq, hevents, List.mem_append, List.mem_append] at h
  rcases h with (h | h) | h
  · simp [emitStart] at h
  · obtain ⟨pre, e, post, hsplit, hmem⟩ := (mem_outputs_iff _).mp h
    exact absurd hmem (completed_not_mem_emit _ (hbody e (by simp [hsplit])) response)
  · rw [List.mem_append, List.mem_append, List.mem_append] at h
    rcases h with ((h | h) | h) | h
    · unfold closeThinking at h
      split at h <;> simp at h
    · unfold closeMessage at h
      split at h <;> simp at h
    · simp [closeCall] at h
    · obtain rfl := StreamEvent.completed.inj (List.mem_singleton.mp h)
      exact hids

theorem bodyEvents_append (pre post : List CanonicalStreamEvent) :
    bodyEvents codec w id model (pre ++ post) =
      bodyEvents codec w id model pre ++
        outputs (total (emit codec)) (stateAfter codec w id model pre) post := by
  unfold bodyEvents
  rw [outputs_append]
  rfl

/-- What a body announces up to one of its events. -/
theorem announced_bodyEvents_snoc {pre : List CanonicalStreamEvent} {e : CanonicalStreamEvent}
    (hpre : ∀ x ∈ pre, IsBody x) (he : IsBody e) :
    announced (bodyEvents codec w id model (pre ++ [e])) =
      announced (bodyEvents codec w id model pre) ++
        announcedBy (messageId w id) (stateAfter codec w id model pre) e := by
  have hstep := @announced_emit codec _ _ (@stateAfter_frame codec w id model pre hpre).1 _ he
  rw [bodyEvents_append, announced_append, ← hstep]
  simp [total]

/-- A started call and the event that starts it. -/
theorem exists_start {j index : Nat} {callId : String}
    (h : (body.flatMap startOf)[j]? = some (index, callId)) :
    ∃ pre name signature post, body = pre ++ toolCallStart index callId name signature :: post ∧
      (pre.flatMap startOf).length = j := by
  induction body generalizing j with
  | nil => simp at h
  | cons e body ih =>
    have hskip : startOf e = [] → ∃ pre name signature post,
        e :: body = pre ++ toolCallStart index callId name signature :: post ∧
          (pre.flatMap startOf).length = j := by
      intro he
      rw [List.flatMap_cons, he, List.nil_append] at h
      obtain ⟨pre, name, signature, post, rfl, hlen⟩ := ih h
      exact ⟨e :: pre, name, signature, post, rfl, by simpa [he] using hlen⟩
    cases e with
    | toolCallStart i c name signature =>
      cases j with
      | zero =>
        have hkey : i = index ∧ c = callId := by simpa [startOf] using h
        obtain ⟨rfl, rfl⟩ := hkey
        exact ⟨[], name, signature, body, rfl, rfl⟩
      | succ j =>
        have htail : (body.flatMap startOf)[j]? = some (index, callId) := by
          simpa [startOf] using h
        obtain ⟨pre, n, sig, post, rfl, hlen⟩ := ih htail
        exact ⟨_ :: pre, n, sig, post, rfl, by simp [startOf, hlen]⟩
    | _ => exact hskip rfl

/-- A call in the state was started, as the call of its number. -/
theorem call_started (hbody : ∀ e ∈ body, IsBody e) {j : Nat} {tc : AccumulatedToolCall}
    (h : (stateAfter codec w id model body).accumulatedToolCalls[j]? = some tc) :
    ∃ pre name signature post, body = pre ++ toolCallStart tc.index tc.id name signature :: post ∧
      (stateAfter codec w id model pre).accumulatedToolCalls.length = j := by
  have hkey : (body.flatMap startOf)[j]? = some (tc.index, tc.id) := by
    rw [← (@stateAfter_frame codec w id model body hbody).2.2, List.getElem?_map, h]
    rfl
  obtain ⟨pre, name, signature, post, rfl, hlen⟩ := exists_start hkey
  refine ⟨pre, name, signature, post, rfl, ?_⟩
  have hpre := (@stateAfter_frame codec w id model pre fun x hx => hbody x (by simp [hx])).2.2
  rw [← hlen, ← hpre, List.length_map]

/-- The start of a call leaves it in the state, under its number. -/
theorem started_call {pre post : List CanonicalStreamEvent} {index : Nat} {callId name : String}
    {signature : Option String}
    (hbody : ∀ e ∈ pre ++ toolCallStart index callId name signature :: post, IsBody e) :
    ∃ tc, (stateAfter codec w id model
        (pre ++ toolCallStart index callId name signature :: post)).accumulatedToolCalls[
          (stateAfter codec w id model pre).accumulatedToolCalls.length]? = some tc ∧
      tc.index = index ∧ tc.id = callId := by
  have hall := (@stateAfter_frame codec w id model _ hbody).2.2
  have hpre := (@stateAfter_frame codec w id model pre fun x hx => hbody x (by simp [hx])).2.2
  have hkey := congrArg (fun l => l[(pre.flatMap startOf).length]?) hall
  simp only [List.getElem?_map, List.flatMap_append, List.flatMap_cons, startOf,
    List.singleton_append, List.getElem?_append_right (Nat.le_refl _), Nat.sub_self,
    List.getElem?_cons_zero, Option.map_eq_some_iff, callKey, Prod.mk.injEq] at hkey
  rw [← hpre, List.length_map] at hkey
  exact hkey

end AnyConverter.OpenAIResponses
