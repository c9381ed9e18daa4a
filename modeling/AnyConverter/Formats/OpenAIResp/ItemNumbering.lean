import Mathlib.Data.List.Nodup
import AnyConverter.Lib.JsonText
import AnyConverter.Formats.OpenAIResp.Items

/-!
# The numbering of output items

`Numbered` states of a list of events that every item is announced once, that its later events
carry the index it was announced under, and that the completed response holds it there.  Items are
told apart by their id.

The writer computes indices from the state at each event, so they agree only where the state
keeps the sums they come from.  `Consistent` is that condition on a reply.
-/

set_option autoImplicit false

namespace AnyConverter.OpenAIResponses

open Transducer CanonicalStreamEvent

/-! ## Numbered streams -/

structure Numbered (events : List StreamEvent) : Prop where
  /-- an item is announced once -/
  announcedOnce : ((announced events).map Prod.fst).Nodup
  /-- distinct items have distinct indices -/
  distinct : ((announced events).map Prod.snd).Nodup
  /-- a later event carries the index its item was announced under -/
  sameIndex : ∀ pre e post, events = pre ++ e :: post → ∀ p, about e = some p → p ∈ announced pre
  /-- the completed response holds exactly the announced items, each at its index -/
  position : ∀ response, .completed response ∈ events → ∀ id index,
    (id, index) ∈ announced events ↔ (response.output[index]?).map OutputItem.id = some id

/-! ## Consistent replies -/

variable {codec : JsonCodec} {w : World} {id model : String} {body : List CanonicalStreamEvent}

/-- The text of a body. -/
def textIn (body : List CanonicalStreamEvent) : String := String.join (body.map textOf)

/-- The calls a body starts, with their indices. -/
def startsIn (body : List CanonicalStreamEvent) : List (Nat × String) := body.flatMap startOf

/-- The items before the message: the signed thinking. -/
def beforeMessage (body : List CanonicalStreamEvent) : Nat := if signs body then 1 else 0

/-- The items before the calls. -/
def beforeCalls (body : List CanonicalStreamEvent) : Nat :=
  (if textIn body = "" then 0 else 1) + beforeMessage body

/-- What precedes an item is known when the item is first written. -/
structure Consistent (body : List CanonicalStreamEvent) : Prop where
  /-- no block Claude sealed: its item is not part of the completed response -/
  noSealed : ∀ raw, sealedThinking .claude raw ∉ body
  /-- the thinking is signed before the text or not at all, and only the first piece of text finds
  no text before it -/
  text : ∀ pre t post, body = pre ++ textDelta t :: post →
    beforeMessage pre = beforeMessage body ∧ (textIn pre = "" → ∀ t', textDelta t' ∉ pre)
  /-- calls start after what precedes them, numbered from zero, each under a new id -/
  calls : ∀ pre index callId name signature post,
    body = pre ++ toolCallStart index callId name signature :: post →
    beforeCalls pre = beforeCalls body ∧ index = (startsIn pre).length ∧
      ∀ p ∈ startsIn pre, p.2 ≠ callId
  /-- so do the arguments of a started call -/
  arguments : ∀ pre index delta post, body = pre ++ toolCallDelta index delta :: post →
    (∃ p ∈ startsIn pre, p.1 = index) → beforeCalls pre = beforeCalls body
  /-- a reply without text has another item, or one empty piece of text and no other item -/
  output : textIn body = "" →
    ((∃ t, textDelta t ∈ body) ↔ startsIn body = [] ∧ signs body = false)

variable (codec w id model) in
/-- The state in which an index is computed agrees with the state at the end of the reply. -/
structure Settled (body : List CanonicalStreamEvent) : Prop where
  /-- no block Claude sealed: its item is not part of the completed response -/
  noSealed : ∀ raw, sealedThinking .claude raw ∉ body
  /-- text comes under the final reasoning prefix, and only the first piece finds no text -/
  text : ∀ pre t post, body = pre ++ textDelta t :: post →
    reasoningPrefix (stateAfter codec w id model pre).toStreamState =
      reasoningPrefix (stateAfter codec w id model body).toStreamState ∧
    ((stateAfter codec w id model pre).accumulatedText = "" → ∀ t', textDelta t' ∉ pre)
  /-- calls start in order, under the final offset and ids of their own -/
  calls : ∀ pre index callId name signature post,
    body = pre ++ toolCallStart index callId name signature :: post →
    callOffset (stateAfter codec w id model pre).toStreamState =
      callOffset (stateAfter codec w id model body).toStreamState ∧
    index = (stateAfter codec w id model pre).accumulatedToolCalls.length ∧
    ∀ tc ∈ (stateAfter codec w id model pre).accumulatedToolCalls, tc.id ≠ callId
  /-- arguments of a started call come under the final offset -/
  arguments : ∀ pre index delta post, body = pre ++ toolCallDelta index delta :: post →
    findCall index (stateAfter codec w id model pre).accumulatedToolCalls ≠ none →
    callOffset (stateAfter codec w id model pre).toStreamState =
      callOffset (stateAfter codec w id model body).toStreamState
  /-- a reply without text has another item, or one empty piece of text and no other item -/
  output : (stateAfter codec w id model body).accumulatedText = "" →
    ((∃ t, textDelta t ∈ body) ↔
      (stateAfter codec w id model body).accumulatedToolCalls = [] ∧
      signedByClaude (stateAfter codec w id model body).toStreamState = false)

/-- The state holds what precedes the next item. -/
structure Counts (s : StreamState) (pre : List CanonicalStreamEvent) : Prop where
  signed : signedByClaude s = signs pre
  text : s.accumulatedText = textIn pre
  calls : s.accumulatedToolCalls.map callKey = startsIn pre

namespace Counts

variable {s : StreamState} {pre : List CanonicalStreamEvent} (h : Counts s pre)
include h

theorem reasoningPrefix_eq : reasoningPrefix s = beforeMessage pre := by
  rw [reasoningPrefix, h.signed, beforeMessage]

theorem callOffset_eq : callOffset s = beforeCalls pre := by
  rw [callOffset, textOffset, h.text, h.reasoningPrefix_eq, beforeCalls]

theorem length_eq : s.accumulatedToolCalls.length = (startsIn pre).length := by
  rw [← h.calls, List.length_map]

theorem newId_iff (callId : String) :
    (∀ tc ∈ s.accumulatedToolCalls, tc.id ≠ callId) ↔ ∀ p ∈ startsIn pre, p.2 ≠ callId := by
  rw [← h.calls]
  simp [callKey]

theorem findCall_iff (index : Nat) :
    findCall index s.accumulatedToolCalls ≠ none ↔ ∃ p ∈ startsIn pre, p.1 = index := by
  rw [← h.calls]
  simp [findCall, callKey]

theorem calls_nil_iff : s.accumulatedToolCalls = [] ↔ startsIn pre = [] := by
  rw [← h.calls, List.map_eq_nil_iff]

end Counts

theorem counts_stateAfter (hbody : ∀ e ∈ body, IsBody e) :
    Counts (stateAfter codec w id model body).toStreamState body where
  signed := signedByClaude_stateAfter hbody
  text := (stateAfter_frame hbody).2.1
  calls := (stateAfter_frame hbody).2.2

theorem settled_iff_consistent (hbody : ∀ e ∈ body, IsBody e) :
    Settled codec w id model body ↔ Consistent body := by
  have hb := @counts_stateAfter codec w id model body hbody
  have hcounts : ∀ pre post, body = pre ++ post →
      Counts (stateAfter codec w id model pre).toStreamState pre := by
    intro pre post hsplit
    exact counts_stateAfter fun x hx => hbody x (by simp [hsplit, hx])
  constructor
  · intro h
    refine ⟨h.noSealed, ?_, ?_, ?_, ?_⟩
    · intro pre t post hsplit
      have hp := hcounts pre _ hsplit
      have htext := h.text pre t post hsplit
      rwa [hp.reasoningPrefix_eq, hb.reasoningPrefix_eq, hp.text] at htext
    · intro pre index callId name signature post hsplit
      have hp := hcounts pre _ hsplit
      have hcall := h.calls pre index callId name signature post hsplit
      rwa [hp.callOffset_eq, hb.callOffset_eq, hp.length_eq, hp.newId_iff] at hcall
    · intro pre index delta post hsplit hstarted
      have hp := hcounts pre _ hsplit
      have hoffset := h.arguments pre index delta post hsplit ((hp.findCall_iff index).mpr hstarted)
      rwa [hp.callOffset_eq, hb.callOffset_eq] at hoffset
    · have hout := h.output
      rwa [hb.text, hb.calls_nil_iff, hb.signed] at hout
  · intro h
    refine ⟨h.noSealed, ?_, ?_, ?_, ?_⟩
    · intro pre t post hsplit
      have hp := hcounts pre _ hsplit
      rw [hp.reasoningPrefix_eq, hb.reasoningPrefix_eq, hp.text]
      exact h.text pre t post hsplit
    · intro pre index callId name signature post hsplit
      have hp := hcounts pre _ hsplit
      rw [hp.callOffset_eq, hb.callOffset_eq, hp.length_eq, hp.newId_iff]
      exact h.calls pre index callId name signature post hsplit
    · intro pre index delta post hsplit hfind
      have hp := hcounts pre _ hsplit
      rw [hp.callOffset_eq, hb.callOffset_eq]
      exact h.arguments pre index delta post hsplit ((hp.findCall_iff index).mp hfind)
    · rw [hb.text, hb.calls_nil_iff, hb.signed]
      exact h.output

/-! ## A numbered reply is settled -/

section
variable {reason : StopReason} {usage : Option Usage} (hbody : ∀ e ∈ body, IsBody e)
  (h : Numbered (replyEvents codec w id model body reason usage))
include hbody h

/-- What is announced is what the completed response holds. -/
theorem announced_iff_final {x : String} {i : Nat} :
    (x, i) ∈ announced (replyEvents codec w id model body reason usage) ↔
      (finalIds (messageId w id) (stateAfter codec w id model body))[i]? = some x := by
  obtain ⟨response, hids, hevents⟩ := @emitDone_events codec (stateAfter codec w id model body) _
    (stateAfter_frame hbody).1 reason usage
  have hcompleted : .completed response ∈ replyEvents codec w id model body reason usage := by
    rw [replyEvents_eq, hevents]
    simp
  rw [h.position response hcompleted, ← List.getElem?_map, hids]

/-- An event of the body carries an index of the completed response. -/
theorem final_of_about {pre post : List CanonicalStreamEvent} {e : CanonicalStreamEvent}
    (hsplit : body = pre ++ e :: post) {o : StreamEvent}
    (ho : o ∈ emitted (emit codec (stateAfter codec w id model pre) e).1) {x : String} {i : Nat}
    (habout : about o = some (x, i)) :
    (finalIds (messageId w id) (stateAfter codec w id model body))[i]? = some x := by
  have hmem : o ∈ replyEvents codec w id model body reason usage := by
    rw [replyEvents_eq]
    refine List.mem_append_left _ (List.mem_append_right _ ?_)
    exact (mem_outputs_iff _).mpr ⟨pre, e, post, hsplit, ho⟩
  obtain ⟨before, after, hevents⟩ := List.append_of_mem hmem
  have hann := h.sameIndex before o after hevents _ habout
  rw [← announced_iff_final hbody h, hevents, announced_append]
  exact List.mem_append_left _ hann

theorem final_of_announcedBy {pre post : List CanonicalStreamEvent} {e : CanonicalStreamEvent}
    (hsplit : body = pre ++ e :: post) {x : String} {i : Nat}
    (hmem : (x, i) ∈ announcedBy (messageId w id) (stateAfter codec w id model pre) e) :
    (finalIds (messageId w id) (stateAfter codec w id model body))[i]? = some x := by
  rw [← announced_iff_final hbody h, announced_replyEvents hbody]
  exact List.mem_append_left _ ((mem_announced_iff hbody).mpr ⟨pre, e, post, hsplit, hmem⟩)

/-- An event announces nothing that was announced before it. -/
theorem announcedBy_fresh {pre post : List CanonicalStreamEvent} {e : CanonicalStreamEvent}
    (hsplit : body = pre ++ e :: post) {p q : String × Nat}
    (hp : p ∈ announced (bodyEvents codec w id model pre))
    (hq : q ∈ announcedBy (messageId w id) (stateAfter codec w id model pre) e) : p.1 ≠ q.1 := by
  subst hsplit
  have hsnoc := @announced_bodyEvents_snoc codec w id model pre e
    (fun x hx => hbody x (by simp [hx])) (hbody e (by simp))
  have hnodup := h.announcedOnce
  rw [announced_replyEvents hbody, List.append_cons, bodyEvents_append, announced_append, hsnoc,
    List.map_append, List.map_append, List.map_append] at hnodup
  have hpair := (List.nodup_append.mp (List.nodup_append.mp (List.nodup_append.mp hnodup).1).1).2.2
  exact hpair _ (List.mem_map_of_mem hp) _ (List.mem_map_of_mem hq)

theorem noSealed_of_numbered (raw : Value) : sealedThinking .claude raw ∉ body := by
  intro hraw
  obtain ⟨pre, post, hsplit⟩ := List.append_of_mem hraw
  let s := stateAfter codec w id model pre
  let index := textOffset s.toStreamState + s.accumulatedToolCalls.length + s.blockIndex
  have hby : ("rs_" ++ s.newUuid.1, index) ∈
      announcedBy (messageId w id) s (sealedThinking .claude raw) := by
    simp [announcedBy, index]
  have hfinal := final_of_announcedBy hbody h hsplit hby
  rw [finalIds_getElem?] at hfinal
  rcases hfinal with ⟨hsigned, -, hid⟩ | ⟨hid, -⟩ | ⟨j, tc, -, -, hid⟩
  · -- the signed thinking would be announced a second time at the end
    have hann := (mem_announced_iff hbody).mpr ⟨pre, _, post, hsplit, hby⟩
    have hnodup := h.announcedOnce
    rw [announced_replyEvents hbody, List.map_append] at hnodup
    refine (List.nodup_append.mp hnodup).2.2 _ (List.mem_map_of_mem hann) _ ?_ hid.symm
    simp [closingAnnounced, hsigned]
  · exact reasoningId_ne_messageId _ hid.symm
  · exact reasoningId_ne_callItemId _ _ hid.symm

theorem text_of_numbered {pre post : List CanonicalStreamEvent} {t : String}
    (hsplit : body = pre ++ textDelta t :: post) :
    reasoningPrefix (stateAfter codec w id model pre).toStreamState =
      reasoningPrefix (stateAfter codec w id model body).toStreamState ∧
    ((stateAfter codec w id model pre).accumulatedText = "" → ∀ t', textDelta t' ∉ pre) := by
  have hpre : ∀ x ∈ pre, IsBody x := by
    intro x hx
    exact hbody x (by simp [hsplit, hx])
  have hid := (@stateAfter_frame codec w id model pre hpre).1
  constructor
  · have hfinal := @final_of_about codec w id model body reason usage hbody h _ _ _ hsplit
      (.outputTextDelta (messageId w id)
        (reasoningPrefix (stateAfter codec w id model pre).toStreamState) t)
      (by simp [emit, emitTextDelta, messageItemId, hid]) _ _ rfl
    rw [finalIds_getElem?] at hfinal
    rcases hfinal with ⟨-, -, hid⟩ | ⟨-, hindex, -⟩ | ⟨j, tc, -, -, hid⟩
    · exact absurd hid (reasoningId_ne_messageId _)
    · exact hindex
    · exact absurd hid (callItemId_ne_messageId _)
  · intro hempty t' ht'
    obtain ⟨p, t₁, q, hq, hp⟩ := @exists_first_text codec w id model pre hpre ⟨t', ht'⟩
    have hfirst : (messageId w id, reasoningPrefix (stateAfter codec w id model p).toStreamState) ∈
        announced (bodyEvents codec w id model pre) := by
      refine (mem_announced_iff hpre).mpr ⟨p, _, q, hq, ?_⟩
      simp [announcedBy, hp]
    have hagain : (messageId w id,
        reasoningPrefix (stateAfter codec w id model pre).toStreamState) ∈
        announcedBy (messageId w id) (stateAfter codec w id model pre) (textDelta t) := by
      simp [announcedBy, hempty]
    exact announcedBy_fresh hbody h hsplit hfirst hagain rfl

/-- A call comes under an id no earlier call has. -/
theorem fresh_of_numbered {pre post : List CanonicalStreamEvent} {index : Nat}
    {callId name : String} {signature : Option String}
    (hsplit : body = pre ++ toolCallStart index callId name signature :: post) :
    ∀ tc ∈ (stateAfter codec w id model pre).accumulatedToolCalls, tc.id ≠ callId := by
  have hpre : ∀ x ∈ pre, IsBody x := by
    intro x hx
    exact hbody x (by simp [hsplit, hx])
  intro tc htc heq
  obtain ⟨j, hj⟩ := List.getElem?_of_mem htc
  obtain ⟨p, n, sig, q, hq, -⟩ := call_started hpre hj
  have hfirst : (callItemId tc.id,
      tc.index + callOffset (stateAfter codec w id model p).toStreamState) ∈
      announced (bodyEvents codec w id model pre) :=
    (mem_announced_iff hpre).mpr ⟨p, _, q, hq, by simp [announcedBy]⟩
  refine announcedBy_fresh hbody h hsplit hfirst
    (q := (callItemId callId, index + callOffset (stateAfter codec w id model pre).toStreamState))
    (by simp [announcedBy]) ?_
  rw [heq]

/-- The calls of the reply have ids of their own. -/
theorem callIds_nodup :
    ((stateAfter codec w id model body).accumulatedToolCalls.map AccumulatedToolCall.id).Nodup := by
  have hreasoning : ∀ pre post, body = pre ++ post →
      ((stateAfter codec w id model pre).accumulatedToolCalls.map
        AccumulatedToolCall.id).Nodup := by
    intro pre
    induction pre using List.reverseRecOn with
    | nil => exact fun _ _ => List.nodup_nil
    | append_singleton pre e ih =>
      intro post hsplit
      have hsplit' : body = pre ++ e :: post := by simpa using hsplit
      have hnodup := ih _ hsplit'
      have hframe := (@emit_frame codec (stateAfter codec w id model pre) e
        (hbody e (by simp [hsplit']))).2.2
      have hids := congrArg (List.map Prod.snd) hframe
      rw [← stateAfter_append, List.map_map, List.map_append, List.map_map] at hids
      have hkey : Prod.snd ∘ callKey = AccumulatedToolCall.id := rfl
      rw [hkey] at hids
      rw [hids]
      cases e with
      | toolCallStart index callId name signature =>
        have hfresh := fresh_of_numbered hbody h hsplit'
        refine List.nodup_append.mpr ⟨hnodup, by simp [startOf], ?_⟩
        intro x hx y hy heq
        obtain ⟨tc, htc, rfl⟩ := List.mem_map.mp hx
        rw [List.mem_singleton.mp hy] at heq
        exact hfresh tc htc heq
      | _ => simpa [startOf] using hnodup
  exact hreasoning body [] (by simp)

/-- Two calls of one id are one call. -/
theorem call_position {j k : Nat} {tc tc' : AccumulatedToolCall}
    (hj : (stateAfter codec w id model body).accumulatedToolCalls[j]? = some tc)
    (hk : (stateAfter codec w id model body).accumulatedToolCalls[k]? = some tc')
    (heq : tc.id = tc'.id) : j = k := by
  have hnodup := callIds_nodup hbody h
  have hget : ((stateAfter codec w id model body).accumulatedToolCalls.map
      AccumulatedToolCall.id)[j]? = ((stateAfter codec w id model body).accumulatedToolCalls.map
      AccumulatedToolCall.id)[k]? := by
    rw [List.getElem?_map, List.getElem?_map, hj, hk]
    simp [heq]
  refine (List.getElem?_inj ?_ hnodup).mp hget
  rw [List.length_map]
  exact (List.getElem?_eq_some_iff.mp hj).1

/-- What is at the position of a call. -/
theorem final_call {j i : Nat} {tc : AccumulatedToolCall}
    (hj : (stateAfter codec w id model body).accumulatedToolCalls[j]? = some tc)
    (hi : (finalIds (messageId w id) (stateAfter codec w id model body))[i]? =
      some (callItemId tc.id)) :
    i = j + callOffset (stateAfter codec w id model body).toStreamState := by
  rw [finalIds_getElem?] at hi
  rcases hi with ⟨-, -, hid⟩ | ⟨hid, -⟩ | ⟨k, tc', hk, rfl, hid⟩
  · exact absurd hid (reasoningId_ne_callItemId _ _)
  · exact absurd hid.symm (callItemId_ne_messageId _)
  · rw [call_position hbody h hk hj (callItemId_inj hid)]

/-- The calls are numbered in order: what closes a call carries its number. -/
theorem index_of_numbered {j : Nat} {tc : AccumulatedToolCall}
    (hj : (stateAfter codec w id model body).accumulatedToolCalls[j]? = some tc) :
    tc.index = j := by
  let s := stateAfter codec w id model body
  obtain ⟨response, -, hevents⟩ := @emitDone_events codec s _ (stateAfter_frame hbody).1 reason
    usage
  have hmem : .outputItemDone (callOutputIndex s.toStreamState tc.index) (callItem tc) ∈
      replyEvents codec w id model body reason usage := by
    rw [replyEvents_eq, hevents]
    have hcall : .outputItemDone (callOutputIndex s.toStreamState tc.index) (callItem tc) ∈
        s.accumulatedToolCalls.flatMap (closeCall s.toStreamState) :=
      List.mem_flatMap.mpr ⟨tc, List.mem_of_getElem? hj, by simp [closeCall]⟩
    exact List.mem_append_right _ (List.mem_append_left _ (List.mem_append_right _ hcall))
  obtain ⟨before, after, hsplit⟩ := List.append_of_mem hmem
  have hann := h.sameIndex before _ after hsplit
    (callItemId tc.id, callOutputIndex s.toStreamState tc.index) rfl
  have hfinal : (finalIds (messageId w id) s)[callOutputIndex s.toStreamState tc.index]? =
      some (callItemId tc.id) := by
    rw [← announced_iff_final hbody h, hsplit, announced_append]
    exact List.mem_append_left _ hann
  have hindex := final_call hbody h hj hfinal
  rw [callOutputIndex_eq] at hindex
  exact Nat.add_right_cancel hindex

theorem calls_of_numbered {pre post : List CanonicalStreamEvent} {index : Nat}
    {callId name : String} {signature : Option String}
    (hsplit : body = pre ++ toolCallStart index callId name signature :: post) :
    callOffset (stateAfter codec w id model pre).toStreamState =
      callOffset (stateAfter codec w id model body).toStreamState ∧
    index = (stateAfter codec w id model pre).accumulatedToolCalls.length := by
  have hstarted := @started_call codec w id model pre post index callId name signature
    (hsplit ▸ hbody)
  rw [← hsplit] at hstarted
  obtain ⟨tc, hget, rfl, rfl⟩ := hstarted
  have hfinal := @final_of_announcedBy codec w id model body reason usage hbody h _ _ _ hsplit
    (callItemId tc.id) (tc.index + callOffset (stateAfter codec w id model pre).toStreamState)
    (by simp [announcedBy])
  have hindex := index_of_numbered hbody h hget
  have hposition := final_call hbody h hget hfinal
  exact ⟨by omega, hindex⟩

theorem arguments_of_numbered {pre post : List CanonicalStreamEvent} {index : Nat}
    {delta : String} (hsplit : body = pre ++ toolCallDelta index delta :: post)
    (hfind : findCall index (stateAfter codec w id model pre).accumulatedToolCalls ≠ none) :
    callOffset (stateAfter codec w id model pre).toStreamState =
      callOffset (stateAfter codec w id model body).toStreamState := by
  obtain ⟨tc, htc⟩ := Option.ne_none_iff_exists'.mp hfind
  have hpre : ∀ x ∈ pre, IsBody x := by
    intro x hx
    exact hbody x (by simp [hsplit, hx])
  have hmem : tc ∈ (stateAfter codec w id model pre).accumulatedToolCalls :=
    List.mem_of_find?_eq_some htc
  have hindex : tc.index = index := by simpa using List.find?_some htc
  -- the call is still there at the end, under the number it was started with
  obtain ⟨j, hj⟩ := List.getElem?_of_mem hmem
  obtain ⟨p, n, sig, q, rfl, hlen⟩ := call_started hpre hj
  have hsplit' : body = p ++ toolCallStart tc.index tc.id n sig ::
      (q ++ toolCallDelta index delta :: post) := by simp [hsplit]
  have hstarted := @started_call codec w id model p (q ++ toolCallDelta index delta :: post)
    tc.index tc.id n sig (hsplit' ▸ hbody)
  rw [← hsplit'] at hstarted
  obtain ⟨tc', hget, hi, hid⟩ := hstarted
  have hfinal := @final_of_about codec w id model body reason usage hbody h _ _ _ hsplit
    (.functionCallArgumentsDelta (callItemId tc.id)
      (callOutputIndex (stateAfter codec w id model
        (p ++ toolCallStart tc.index tc.id n sig :: q)).toStreamState index) delta)
    (by simp [emit, emitToolCallDelta, htc]) _ _ rfl
  have hposition := final_call hbody h hget (hfinal.trans (by rw [hid]))
  have hnumber := index_of_numbered hbody h hget
  rw [callOutputIndex_eq] at hposition
  omega

theorem output_of_numbered
    (hempty : (stateAfter codec w id model body).accumulatedText = "") :
    (∃ t, textDelta t ∈ body) ↔
      (stateAfter codec w id model body).accumulatedToolCalls = [] ∧
      signedByClaude (stateAfter codec w id model body).toStreamState = false := by
  constructor
  · intro htext
    obtain ⟨pre, t, post, hsplit, hp⟩ := @exists_first_text codec w id model body hbody htext
    have hfinal := @final_of_announcedBy codec w id model body reason usage hbody h _ _ _ hsplit
      (messageId w id) (reasoningPrefix (stateAfter codec w id model pre).toStreamState)
      (by simp [announcedBy, hp])
    rw [finalIds_getElem?] at hfinal
    rcases hfinal with ⟨-, -, hid⟩ | ⟨-, -, hnone⟩ | ⟨j, tc, -, -, hid⟩
    · exact absurd hid (reasoningId_ne_messageId _)
    · exact hnone hempty
    · exact absurd hid (callItemId_ne_messageId _)
  · rintro ⟨hcalls, hsigned⟩
    have hfinal : (finalIds (messageId w id) (stateAfter codec w id model body))[0]? =
        some (messageId w id) := by simp [finalIds, hempty, hcalls, hsigned]
    rw [← announced_iff_final hbody h, announced_replyEvents hbody, closingAnnounced,
      hsigned] at hfinal
    have hann : (messageId w id, 0) ∈ announced (bodyEvents codec w id model body) := by
      simpa using hfinal
    obtain ⟨pre, e, post, hsplit, hmem⟩ := (mem_announced_iff hbody).mp hann
    rcases announcedBy_cases hmem with ⟨t, rfl, -⟩ | ⟨_, _, _, _, -, hid⟩ | ⟨_, -, hid⟩
    · exact ⟨t, by simp [hsplit]⟩
    · exact absurd (congrArg Prod.fst hid).symm (callItemId_ne_messageId _)
    · exact absurd hid.symm (reasoningId_ne_messageId _)

theorem settled_of_numbered : Settled codec w id model body where
  noSealed := noSealed_of_numbered hbody h
  text _ _ _ hsplit := text_of_numbered hbody h hsplit
  calls _ _ _ _ _ _ hsplit := by
    obtain ⟨hoffset, hindex⟩ := calls_of_numbered hbody h hsplit
    exact ⟨hoffset, hindex, fresh_of_numbered hbody h hsplit⟩
  arguments _ _ _ _ hsplit hfind := arguments_of_numbered hbody h hsplit hfind
  output := output_of_numbered hbody h

end

/-! ## A settled reply is numbered -/

/-- Every event carries an index its item was announced under: before, or in `known`. -/
def RefersBack : List (String × Nat) → List StreamEvent → Prop
  | _, [] => True
  | known, e :: es =>
    (∀ p, about e = some p → p ∈ known) ∧ RefersBack (known ++ announced [e]) es

theorem refersBack_append {known : List (String × Nat)} {xs ys : List StreamEvent} :
    RefersBack known (xs ++ ys) ↔ RefersBack known xs ∧ RefersBack (known ++ announced xs) ys := by
  induction xs generalizing known with
  | nil => simp [RefersBack, announced]
  | cons x xs ih =>
    have hcons : announced (x :: xs) = announced [x] ++ announced xs := announced_append [x] xs
    rw [List.cons_append, RefersBack, RefersBack, ih, hcons, List.append_assoc, and_assoc]

theorem sameIndex_of_refersBack {events pre post : List StreamEvent} {e : StreamEvent}
    (h : RefersBack [] events) (hsplit : events = pre ++ e :: post) {p : String × Nat}
    (hp : about e = some p) : p ∈ announced pre := by
  rw [hsplit, refersBack_append] at h
  exact h.2.1 p hp

/-- Events that announce nothing refer back when each of them does. -/
theorem refersBack_of_silent {known : List (String × Nat)} {es : List StreamEvent}
    (hsilent : ∀ e ∈ es, announces e = none)
    (h : ∀ e ∈ es, ∀ p, about e = some p → p ∈ known) : RefersBack known es := by
  induction es with
  | nil => trivial
  | cons e es ih =>
    have hnone : announced [e] = [] := by simp [announced, hsilent e List.mem_cons_self]
    refine ⟨h e List.mem_cons_self, ?_⟩
    rw [hnone, List.append_nil]
    exact ih (fun x hx => hsilent x (List.mem_cons_of_mem _ hx))
      fun x hx => h x (List.mem_cons_of_mem _ hx)

section
variable (hbody : ∀ e ∈ body, IsBody e) (h : Settled codec w id model body)
include hbody h

/-- Where there is text, the message was announced. -/
theorem message_announced {pre post : List CanonicalStreamEvent} (hsplit : body = pre ++ post)
    (htext : (stateAfter codec w id model pre).accumulatedText ≠ "") :
    (messageId w id, reasoningPrefix (stateAfter codec w id model body).toStreamState) ∈
      announced (bodyEvents codec w id model pre) := by
  have hpre : ∀ x ∈ pre, IsBody x := by
    intro x hx
    exact hbody x (by simp [hsplit, hx])
  have hsome : ∃ t, textDelta t ∈ pre := by
    by_contra hnone
    refine htext ?_
    rw [(@stateAfter_frame codec w id model pre hpre).2.1]
    refine Text.join_map_empty_iff.mpr ?_
    intro x hx
    cases x with
    | textDelta t => exact absurd ⟨t, hx⟩ hnone
    | _ => rfl
  obtain ⟨p, t, q, hq, hp⟩ := @exists_first_text codec w id model pre hpre hsome
  have hreasoning := (h.text p t (q ++ post) (by simp [hsplit, hq])).1
  refine (mem_announced_iff hpre).mpr ⟨p, _, q, hq, ?_⟩
  simp [announcedBy, hp, hreasoning]

/-- A started call was announced, at its number past the final offset. -/
theorem call_announced {pre post : List CanonicalStreamEvent} (hsplit : body = pre ++ post)
    {j : Nat} {tc : AccumulatedToolCall}
    (hj : (stateAfter codec w id model pre).accumulatedToolCalls[j]? = some tc) :
    tc.index = j ∧ (callItemId tc.id,
      j + callOffset (stateAfter codec w id model body).toStreamState) ∈
        announced (bodyEvents codec w id model pre) := by
  have hpre : ∀ x ∈ pre, IsBody x := by
    intro x hx
    exact hbody x (by simp [hsplit, hx])
  obtain ⟨p, name, signature, q, hq, hlen⟩ := call_started hpre hj
  have hsplit' : body = p ++ toolCallStart tc.index tc.id name signature :: (q ++ post) := by
    simp [hsplit, hq]
  obtain ⟨hoffset, hindex, -⟩ := h.calls p _ _ _ _ _ hsplit'
  rw [hlen] at hindex
  refine ⟨hindex, (mem_announced_iff hpre).mpr ⟨p, _, q, hq, ?_⟩⟩
  rw [announcedBy, hindex, hoffset, List.mem_singleton]

theorem position_of_settled {reason : StopReason} {usage : Option Usage} {x : String} {i : Nat} :
    (x, i) ∈ announced (replyEvents codec w id model body reason usage) ↔
      (finalIds (messageId w id) (stateAfter codec w id model body))[i]? = some x := by
  rw [announced_replyEvents hbody, List.mem_append, finalIds_getElem?, mem_announced_iff hbody]
  constructor
  · rintro (⟨pre, e, post, hsplit, hmem⟩ | hmem)
    · rcases announcedBy_cases hmem with ⟨t, rfl, -, hp⟩ | ⟨index, callId, _, _, rfl, hp⟩ |
        ⟨raw, rfl, -⟩
      · obtain ⟨hreasoning, -⟩ := h.text pre t post hsplit
        obtain ⟨rfl, rfl⟩ := Prod.mk.inj hp
        exact .inr (.inl ⟨rfl, hreasoning, fun hempty => (h.output hempty).mp ⟨t, by simp [hsplit]⟩⟩)
      · obtain ⟨hoffset, hindex, -⟩ := h.calls pre _ _ _ _ post hsplit
        have hstarted := @started_call codec w id model pre post index callId _ _ (hsplit ▸ hbody)
        rw [← hsplit] at hstarted
        obtain ⟨tc, hget, -, rfl⟩ := hstarted
        obtain ⟨rfl, rfl⟩ := Prod.mk.inj hp
        exact .inr (.inr ⟨_, tc, hget, by rw [hoffset, hindex], rfl⟩)
      · exact absurd (by simp [hsplit]) (h.noSealed raw)
    · unfold closingAnnounced at hmem
      split at hmem
      · rename_i hsigned
        obtain ⟨rfl, rfl⟩ : x = closingId _ ∧ i = 0 := by simpa using hmem
        exact .inl ⟨hsigned, rfl, rfl⟩
      · simp at hmem
  · rintro (⟨hsigned, rfl, rfl⟩ | ⟨rfl, rfl, hnone⟩ | ⟨j, tc, hget, rfl, rfl⟩)
    · right
      simp [closingAnnounced, hsigned]
    · left
      rw [← mem_announced_iff hbody]
      by_cases hempty : (stateAfter codec w id model body).accumulatedText = ""
      · -- the placeholder: its announcement is that of an empty piece of text
        obtain ⟨hcalls, hsigned⟩ := hnone hempty
        have htext := (h.output hempty).mpr ⟨hcalls, hsigned⟩
        obtain ⟨pre, t, post, hsplit, hp⟩ := @exists_first_text codec w id model body hbody htext
        have hreasoning := (h.text pre t post hsplit).1
        refine (mem_announced_iff hbody).mpr ⟨pre, _, post, hsplit, ?_⟩
        simp [announcedBy, hp, hreasoning]
      · exact message_announced hbody h (List.append_nil body).symm hempty
    · left
      rw [← mem_announced_iff hbody]
      exact (call_announced hbody h (List.append_nil body).symm hget).2

/-- What an event announces was not announced before it. -/
theorem announcedBy_fresh_of_settled {pre post : List CanonicalStreamEvent}
    {e : CanonicalStreamEvent} (hsplit : body = pre ++ e :: post) {p q : String × Nat}
    (hp : p ∈ announced (bodyEvents codec w id model pre))
    (hq : q ∈ announcedBy (messageId w id) (stateAfter codec w id model pre) e) : p.1 ≠ q.1 := by
  have hpre : ∀ x ∈ pre, IsBody x := by
    intro x hx
    exact hbody x (by simp [hsplit, hx])
  obtain ⟨p₁, e₁, p₂, hsplit₁, hp⟩ := (mem_announced_iff hpre).mp hp
  have hwhole : body = p₁ ++ e₁ :: (p₂ ++ e :: post) := by simp [hsplit, hsplit₁]
  intro heq
  rcases announcedBy_cases hq with ⟨t, rfl, hempty, rfl⟩ | ⟨_, callId, _, _, rfl, rfl⟩ |
    ⟨raw, rfl, -⟩
  · rcases announcedBy_cases hp with ⟨t₁, rfl, -⟩ | ⟨_, _, _, _, -, rfl⟩ | ⟨raw, rfl, -⟩
    · exact (h.text pre t post hsplit).2 hempty t₁ (by simp [hsplit₁])
    · exact callItemId_ne_messageId _ heq
    · exact h.noSealed raw (by simp [hwhole])
  · rcases announcedBy_cases hp with ⟨_, -, -, rfl⟩ | ⟨index₁, callId₁, _, _, rfl, rfl⟩ |
      ⟨raw, rfl, -⟩
    · exact callItemId_ne_messageId _ heq.symm
    · have hstarted := @started_call codec w id model p₁ p₂ index₁ callId₁ _ _ (hsplit₁ ▸ hpre)
      rw [← hsplit₁] at hstarted
      obtain ⟨tc, hget, -, rfl⟩ := hstarted
      exact (h.calls pre _ _ _ _ post hsplit).2.2 tc (List.mem_of_getElem? hget)
        (callItemId_inj heq)
    · exact h.noSealed raw (by simp [hwhole])
  · exact h.noSealed raw (by simp [hsplit])

theorem announcedOnce_of_settled {reason : StopReason} {usage : Option Usage} :
    ((announced (replyEvents codec w id model body reason usage)).map Prod.fst).Nodup := by
  have hreasoning : ∀ pre post, body = pre ++ post →
      ((announced (bodyEvents codec w id model pre)).map Prod.fst).Nodup := by
    intro pre
    induction pre using List.reverseRecOn with
    | nil => exact fun _ _ => List.nodup_nil
    | append_singleton pre e ih =>
      intro post hsplit
      have hsplit' : body = pre ++ e :: post := by simpa using hsplit
      have hpre : ∀ x ∈ pre, IsBody x := by
        intro x hx
        exact hbody x (by simp [hsplit', hx])
      rw [announced_bodyEvents_snoc hpre (hbody e (by simp [hsplit'])), List.map_append]
      refine List.nodup_append.mpr ⟨ih _ hsplit', ?_, ?_⟩
      · cases e with
        | textDelta t =>
          simp only [announcedBy]
          split <;> simp
        | sealedThinking signer raw => cases signer <;> simp [announcedBy]
        | _ => simp [announcedBy]
      · intro x hx y hy
        obtain ⟨p, hp, rfl⟩ := List.mem_map.mp hx
        obtain ⟨q, hq, rfl⟩ := List.mem_map.mp hy
        exact announcedBy_fresh_of_settled hbody h hsplit' hp hq
  rw [announced_replyEvents hbody, List.map_append]
  refine List.nodup_append.mpr ⟨hreasoning body [] (by simp), ?_, ?_⟩
  · unfold closingAnnounced
    split <;> simp
  · intro x hx y hy
    obtain ⟨p, hp, rfl⟩ := List.mem_map.mp hx
    obtain ⟨q, hq, rfl⟩ := List.mem_map.mp hy
    have hq' : q.1 = closingId (stateAfter codec w id model body) := by
      unfold closingAnnounced at hq
      split at hq <;> simp at hq
      rw [hq]
    obtain ⟨pre, e, post, hsplit, hmem⟩ := (mem_announced_iff hbody).mp hp
    rw [hq']
    rcases announcedBy_cases hmem with ⟨_, -, -, rfl⟩ | ⟨_, _, _, _, -, rfl⟩ | ⟨raw, rfl, -⟩
    · exact (reasoningId_ne_messageId _).symm
    · exact (reasoningId_ne_callItemId _ _).symm
    · exact absurd (by simp [hsplit]) (h.noSealed raw)

/-- Every event of the body refers back. -/
theorem refersBack_bodyEvents {pre post : List CanonicalStreamEvent}
    (hsplit : body = pre ++ post) : RefersBack [] (bodyEvents codec w id model pre) := by
  induction pre using List.reverseRecOn generalizing post with
  | nil => trivial
  | append_singleton pre e ih =>
    have hsplit' : body = pre ++ e :: post := by simpa using hsplit
    have he : IsBody e := hbody e (by simp [hsplit'])
    have hid := (@stateAfter_frame codec w id model pre fun x hx => hbody x (by simp [hsplit', hx])).1
    rw [bodyEvents_append, refersBack_append]
    refine ⟨ih hsplit', ?_⟩
    cases e with
    | textDelta t =>
      obtain ⟨hreasoning, -⟩ := h.text pre t post hsplit'
      simp only [outputs_cons, outputs_nil, total, emit, emitTextDelta, messageItemId, hid,
        emitted_ok, List.append_nil, List.nil_append]
      split
      · simp [RefersBack, about, announced, announces, OutputItem.id]
      · rename_i htext
        refine ⟨fun p hp => ?_, trivial⟩
        obtain rfl := Option.some.inj hp
        rw [hreasoning]
        exact message_announced hbody h hsplit' htext
    | toolCallStart index callId name signature =>
      exact ⟨fun p hp => by simp [about] at hp, trivial⟩
    | toolCallDelta index delta =>
      simp only [outputs_cons, outputs_nil, total, emit, emitToolCallDelta, List.append_nil,
        List.nil_append]
      split
      · trivial
      · rename_i tc htc
        have hmem := List.mem_of_find?_eq_some htc
        have hindex : tc.index = index := by simpa using List.find?_some htc
        obtain ⟨j, hj⟩ := List.getElem?_of_mem hmem
        obtain ⟨hnumber, hann⟩ := call_announced hbody h hsplit' hj
        have hoffset := h.arguments pre index delta post hsplit' (by simp [htc])
        refine ⟨fun p hp => ?_, trivial⟩
        obtain rfl := Option.some.inj hp
        rw [callOutputIndex_eq, hoffset, ← hindex, hnumber]
        exact hann
    | sealedThinking signer raw =>
      cases signer with
      | claude => exact absurd (by simp [hsplit']) (h.noSealed raw)
      | _ => trivial
    | start _ _ => exact he.elim
    | done _ _ => exact he.elim
    | _ => trivial

/-- What ends the reply refers back. -/
theorem refersBack_emitDone (reason : StopReason) (usage : Option Usage) :
    RefersBack (announced (bodyEvents codec w id model body))
      (emitDone codec (stateAfter codec w id model body) reason usage).1 := by
  let s := stateAfter codec w id model body
  obtain ⟨response, -, hevents⟩ := @emitDone_events codec s _ (stateAfter_frame hbody).1 reason
    usage
  rw [hevents, refersBack_append, refersBack_append, refersBack_append, announced_append,
    announced_append, announced_closeMessage, announced_closeCalls, List.append_nil,
    List.append_nil]
  refine ⟨⟨⟨?_, ?_⟩, ?_⟩, ⟨fun p hp => by simp [about] at hp, trivial⟩⟩
  · unfold closeThinking
    split
    · simp [RefersBack, about, announced, announces, OutputItem.id]
    · trivial
  · refine refersBack_of_silent ?_ ?_
    · unfold closeMessage
      split <;> simp [announces]
    · intro e he p hp
      refine List.mem_append_left _ ?_
      unfold closeMessage at he
      split at he
      · simp at he
      · rename_i htext
        have hann := message_announced hbody h (List.append_nil body).symm htext
        simp only [List.mem_cons, List.not_mem_nil, or_false] at he
        rcases he with rfl | rfl | rfl <;> (obtain rfl := Option.some.inj hp; exact hann)
  · refine refersBack_of_silent ?_ ?_
    · intro e he
      obtain ⟨tc, -, he⟩ := List.mem_flatMap.mp he
      simp only [closeCall, List.mem_cons, List.not_mem_nil, or_false] at he
      rcases he with rfl | rfl <;> rfl
    · intro e he p hp
      obtain ⟨tc, htc, he⟩ := List.mem_flatMap.mp he
      obtain ⟨j, hj⟩ := List.getElem?_of_mem htc
      obtain ⟨hnumber, hann⟩ := call_announced hbody h (List.append_nil body).symm hj
      refine List.mem_append_left _ ?_
      have hp' : p = (callItemId tc.id, callOutputIndex s.toStreamState tc.index) := by
        simp only [closeCall, List.mem_cons, List.not_mem_nil, or_false] at he
        rcases he with rfl | rfl <;> exact (Option.some.inj hp).symm
      rw [hp', callOutputIndex_eq, hnumber]
      exact hann

theorem numbered_of_settled (reason : StopReason) (usage : Option Usage) :
    Numbered (replyEvents codec w id model body reason usage) := by
  have honce := @announcedOnce_of_settled codec w id model body hbody h reason usage
  have hposition := @position_of_settled codec w id model body hbody h reason usage
  constructor
  · exact honce
  · refine List.Nodup.map_on ?_ (List.Nodup.of_map _ honce)
    rintro ⟨x, i⟩ hx ⟨y, j⟩ hy hij
    obtain rfl : i = j := hij
    have hxy := (hposition.mp hx).symm.trans (hposition.mp hy)
    rw [Option.some.inj hxy]
  · intro pre e post hsplit p hp
    refine sameIndex_of_refersBack ?_ hsplit hp
    have hstart : announced (emitStart (.fresh w) id model).1 = [] := rfl
    rw [replyEvents_eq, refersBack_append, refersBack_append, announced_append, hstart,
      List.nil_append]
    refine ⟨⟨?_, ?_⟩, refersBack_emitDone hbody h reason usage⟩
    · exact ⟨fun p hp => by simp [about] at hp, fun p hp => by simp [about] at hp, trivial⟩
    · exact refersBack_bodyEvents hbody h (List.append_nil body).symm
  · intro response hresponse x i
    rw [hposition]
    rw [← List.getElem?_map, completed_output hbody hresponse]

end

/-- The events of a reply are numbered just when what precedes an item is known in time. -/
theorem numbered_iff (hbody : ∀ e ∈ body, IsBody e) (reason : StopReason) (usage : Option Usage) :
    Numbered (replyEvents codec w id model body reason usage) ↔ Consistent body := by
  rw [← @settled_iff_consistent codec w id model body hbody]
  exact ⟨settled_of_numbered hbody, fun h => numbered_of_settled hbody h reason usage⟩

/-- A reply that says something, then calls a tool. -/
def sayThenCall : List CanonicalStreamEvent :=
  [textDelta "Searching", toolCallStart 0 "call_1" "search" none, toolCallDelta 0 "\x7b\x7d"]

theorem numbered_iff_sayThenCall :
    Numbered (replyEvents JsonText.compactCodec .counting "msg_1" "sonnet" sayThenCall .toolUse
      none) ↔ Consistent sayThenCall :=
  numbered_iff (by simp [sayThenCall, IsBody]) .toolUse none

/-- A reply that calls a tool and then says something. -/
def callThenSay : List CanonicalStreamEvent :=
  [toolCallStart 0 "call_1" "search" none, textDelta "Searching"]

/-- The call and the message are announced under one index. -/
theorem callThenSay_not_numbered :
    (∀ e ∈ callThenSay, IsBody e) ∧
      ¬ Numbered (replyEvents JsonText.compactCodec .counting "msg_1" "sonnet" callThenSay .toolUse
        none) := by
  refine ⟨by simp [callThenSay, IsBody], fun h => ?_⟩
  have hindices : (announced (replyEvents JsonText.compactCodec .counting "msg_1" "sonnet"
      callThenSay .toolUse none)).map Prod.snd = [0, 0] := by decide +kernel
  have hdistinct := h.distinct
  rw [hindices] at hdistinct
  exact absurd hdistinct (by decide)

end AnyConverter.OpenAIResponses
