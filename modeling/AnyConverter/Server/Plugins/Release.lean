import AnyConverter.Lib.JsonText
import AnyConverter.Lib.Runs
import AnyConverter.Server.Plugins.Answers

/-!
# The end of a transport

When the reader has finished, every waiter it leaves must be released.

* `Closed.step`: where nobody waits and nobody is about to, it stays so;
* `closed_of_over`: in a timely run nobody does from the end on;
* `transport_released`: so no call is left behind.
-/

set_option autoImplicit false

namespace AnyConverter.PluginTransport

open Runs

variable {json : JsonCodec} {s s' : State}

/-! ## The end -/

/-- Steps of which the calls see at most that the plugin is gone. -/
theorem Closed.of_calls (h : Closed s) (hgone : s'.gone = s.gone ∨ s'.gone = true)
    (hpending : ∀ id, s.pending id = none → s'.pending id = none) (hcalls : s'.calls = s.calls) :
    Closed s' where
  gone := hgone.elim (fun heq => heq.trans h.gone) id
  pending := fun id => hpending id (h.pending id)
  calls := fun c => by
    rw [hcalls]
    exact h.calls c

theorem Closed.setCall (h : Closed s) {c : Nat} {call : Call} (hcall : call.registers = false) :
    Closed (s.setCall c call) where
  gone := h.gone
  pending := h.pending
  calls := fun c' => by
    by_cases hc : c' = c
    · subst hc
      rw [State.setCall_self]
      exact hcall
    · rw [State.setCall_of_ne _ _ hc]
      exact h.calls c'

theorem Closed.setPending_none (h : Closed s) (id : Nat) : Closed (s.setPending id none) := by
  refine h.of_calls (.inl rfl) ?_ rfl
  intro id' hnone
  by_cases hid : id' = id
  · subst hid
    exact State.setPending_self s id' none
  · exact (State.setPending_of_ne s none hid).trans hnone

/-- Where nobody waits and nobody is about to, it stays so: a call that comes now returns. -/
theorem Closed.step {act : Act} (h : Closed s) (hstep : step json s act = some s') : Closed s' := by
  cases act with
  | call c method params =>
    simp only [PluginTransport.step] at hstep
    split at hstep
    · cases hstep
      rw [if_pos h.gone]
      exact h.setCall rfl
    · cases hstep
  | number c =>
    simp only [PluginTransport.step] at hstep
    split at hstep
    · rename_i method params hchecked
      have hcall := h.calls c
      rw [hchecked] at hcall
      cases hcall
    · cases hstep
  | register c =>
    simp only [PluginTransport.step] at hstep
    split at hstep
    · rename_i id line hnumbered
      have hcall := h.calls c
      rw [hnumbered] at hcall
      cases hcall
    · cases hstep
  | write c result =>
    simp only [PluginTransport.step] at hstep
    split at hstep
    · rename_i id line _
      split at hstep
      · split at hstep <;> cases hstep
        · have hinput : Closed { s with input := s.input ++ [line] } :=
            h.of_calls (.inl rfl) (fun _ hnone => hnone) rfl
          exact hinput.setCall rfl
        · exact h.setCall rfl
      · cases hstep
        exact h.setCall rfl
    · cases hstep
  | unregister c =>
    simp only [PluginTransport.step] at hstep
    split at hstep <;> cases hstep
    exact (h.setPending_none _).setCall rfl
  | receive c =>
    simp only [PluginTransport.step] at hstep
    split at hstep
    · split at hstep
      · cases hstep
        exact h.setCall rfl
      · split at hstep <;> cases hstep
        exact h.setCall rfl
    · cases hstep
  | abandon c =>
    simp only [PluginTransport.step] at hstep
    split at hstep <;> cases hstep
    exact h.setCall rfl
  | line text =>
    simp only [PluginTransport.step] at hstep
    split at hstep <;> cases hstep
    rcases dispatch_cases json s text with heq | ⟨value, id, c, -, hpending, -⟩
    · rw [heq]
      exact h
    · rw [h.pending id] at hpending
      cases hpending
  | send =>
    simp only [PluginTransport.step] at hstep
    split at hstep
    · rename_i value c hholding
      cases hstep
      rcases sendTo_cases json s value c with heq | heq
      · rw [heq]
        exact h.of_calls (.inl rfl) (fun _ hnone => hnone) rfl
      · rw [heq]
        exact h.of_calls (.inl rfl) (fun _ hnone => hnone) rfl
    · cases hstep
  | leave =>
    simp only [PluginTransport.step] at hstep
    split at hstep <;> cases hstep
    exact h.of_calls (.inl rfl) (fun _ hnone => hnone) rfl
  | setGone =>
    simp only [PluginTransport.step] at hstep
    split at hstep <;> cases hstep
    exact h.of_calls (.inr rfl) (fun _ hnone => hnone) rfl
  | clear =>
    simp only [PluginTransport.step] at hstep
    split at hstep <;> cases hstep
    exact h.of_calls (.inl rfl) (fun _ _ => rfl) rfl
  | shutdown | poll | reap | take | join | storeGone | clearAll =>
    have hshutdown := shutdownStep rfl hstep
    exact h.of_calls hshutdown.gone (fun _ => hshutdown.pending_none) hshutdown.calls

/-- Who has waited for the reader has seen its end, and that comes after the flag. -/
structure Flags (s : State) : Prop where
  gone : s.reader = .clearing ∨ s.reader = .ended → s.gone = true
  joined : s.handle = .joined → s.reader = .ended
  after : ∀ j, (s.shutdowns j).hasJoined = true → s.handle = .joined

theorem flags_start : Flags start where
  gone := fun hreader => hreader.elim nofun nofun
  joined := nofun
  after := nofun

/-- A step of the calls. -/
theorem Flags.same (h : Flags s) (hgone : s'.gone = s.gone) (hreader : s'.reader = s.reader)
    (hhandle : s'.handle = s.handle) (hshutdowns : s'.shutdowns = s.shutdowns) : Flags s' where
  gone := by
    rw [hreader, hgone]
    exact h.gone
  joined := by
    rw [hreader, hhandle]
    exact h.joined
  after := by
    rw [hhandle, hshutdowns]
    exact h.after

/-- A step of the reader, which has not ended. -/
theorem Flags.setReader (h : Flags s) (hended : s.reader ≠ .ended)
    (hgone : s'.reader = .clearing ∨ s'.reader = .ended → s'.gone = true)
    (hhandle : s'.handle = s.handle) (hshutdowns : s'.shutdowns = s.shutdowns) : Flags s' where
  gone := hgone
  joined := by
    rw [hhandle]
    exact fun hjoined => absurd (h.joined hjoined) hended
  after := by
    rw [hhandle, hshutdowns]
    exact h.after

theorem Flags.shutdownStep {act : Act} (h : Flags s) (hstep : ShutdownStep s act s') :
    Flags s' where
  gone := by
    rw [hstep.reader]
    exact fun hreader => hstep.gone.elim (fun heq => heq.trans (h.gone hreader)) id
  joined := by
    intro hjoined
    rw [hstep.reader]
    rcases hstep.handle with hsame | ⟨-, hjoining⟩ | ⟨hended, -⟩
    · exact h.joined (hsame.symm.trans hjoined)
    · rw [hjoining] at hjoined
      cases hjoined
    · exact hended
  after := by
    intro j hafter
    rcases hstep.joined j hafter with hbefore | hjoined
    · have hjoined : s.handle = .joined := h.after j hbefore
      rcases hstep.handle with hsame | ⟨hheld, -⟩ | ⟨-, hnew⟩
      · exact hsame.trans hjoined
      · rw [hheld] at hjoined
        cases hjoined
      · exact hnew
    · exact hjoined

theorem Flags.step {act : Act} (h : Flags s) (hstep : step json s act = some s') : Flags s' := by
  cases act with
  | call | number | register | write | unregister | receive | abandon =>
    simp only [PluginTransport.step] at hstep
    repeat' split at hstep
    all_goals cases hstep
    all_goals exact h.same rfl rfl rfl rfl
  | line text =>
    simp only [PluginTransport.step] at hstep
    split at hstep
    · rename_i hrunning
      cases hstep
      rcases dispatch_cases json s text with heq | ⟨value, id, c, -, -, heq⟩
      · rw [heq]
        exact h
      · rw [heq]
        exact h.setReader (by simp [hrunning]) (by simp) rfl rfl
    · cases hstep
  | send =>
    simp only [PluginTransport.step] at hstep
    split at hstep
    · rename_i value c hholding
      cases hstep
      rcases sendTo_cases json s value c with heq | heq
      · rw [heq]
        exact h.setReader (by simp [hholding]) (by simp) rfl rfl
      · rw [heq]
        exact h.setReader (by simp [hholding]) (by simp) rfl rfl
    · cases hstep
  | leave =>
    simp only [PluginTransport.step] at hstep
    split at hstep
    · rename_i hrunning
      cases hstep
      exact h.setReader (by simp [hrunning]) (by simp) rfl rfl
    · cases hstep
  | setGone =>
    simp only [PluginTransport.step] at hstep
    split at hstep
    · rename_i hleaving
      cases hstep
      exact h.setReader (by simp [hleaving]) (fun _ => rfl) rfl rfl
    · cases hstep
  | clear =>
    simp only [PluginTransport.step] at hstep
    split at hstep
    · rename_i hclearing
      cases hstep
      have hgone : s.gone = true := h.gone (.inl hclearing)
      exact h.setReader (by simp [hclearing]) (fun _ => hgone) rfl rfl
    · cases hstep
  | shutdown | poll | reap | take | join | storeGone | clearAll =>
    exact h.shutdownStep (PluginTransport.shutdownStep rfl hstep)

/-- A step of the reader but its last one. -/
theorem not_over_setReader (hbefore : ¬Over s) (hreader : s'.reader ≠ .ended)
    (hshutdowns : s'.shutdowns = s.shutdowns) : ¬Over s' := by
  rintro (hended | hreturned)
  · exact hreader hended
  · rw [hshutdowns] at hreturned
    exact hbefore (.inr hreturned)

/-- When it is over from a step on, nobody is left in that step. -/
theorem closed_of_over {act : Act} (hflags : Flags s) (hbefore : ¬Over s) (htimely : Timely s act)
    (hstep : step json s act = some s') (hover : Over s') : Closed s' := by
  cases act with
  | call | number | register | write | unregister | receive | abandon =>
    simp only [PluginTransport.step] at hstep
    repeat' split at hstep
    all_goals cases hstep
    all_goals exact absurd hover hbefore
  | line text =>
    simp only [PluginTransport.step] at hstep
    split at hstep <;> cases hstep
    rcases dispatch_cases json s text with heq | ⟨value, id, c, -, -, heq⟩
    · rw [heq] at hover
      exact absurd hover hbefore
    · rw [heq] at hover
      exact absurd hover (not_over_setReader hbefore (by simp) rfl)
  | send =>
    simp only [PluginTransport.step] at hstep
    split at hstep
    · rename_i value c hholding
      cases hstep
      rcases sendTo_cases json s value c with heq | heq
      · rw [heq] at hover
        exact absurd hover (not_over_setReader hbefore (by simp) rfl)
      · rw [heq] at hover
        exact absurd hover (not_over_setReader hbefore (by simp) rfl)
    · cases hstep
  | leave =>
    simp only [PluginTransport.step] at hstep
    split at hstep <;> cases hstep
    exact absurd hover (not_over_setReader hbefore (by simp) rfl)
  | setGone =>
    simp only [PluginTransport.step] at hstep
    split at hstep <;> cases hstep
    exact absurd hover (not_over_setReader hbefore (by simp) rfl)
  | clear =>
    simp only [PluginTransport.step] at hstep
    split at hstep
    · rename_i hclearing
      cases hstep
      exact ⟨hflags.gone (.inl hclearing), fun _ => rfl, htimely⟩
    · cases hstep
  | shutdown | poll | reap | take | join | storeGone | clearAll =>
    have hshutdown := shutdownStep rfl hstep
    rcases hover with hended | ⟨j, ok, hreturned⟩
    · exact absurd (.inl (hshutdown.reader ▸ hended)) hbefore
    · rcases hshutdown.returned j ok hreturned with hbefore' | hjoined | hfails
      · exact absurd (.inr ⟨j, ok, hbefore'⟩) hbefore
      · -- it has waited for the reader
        exact absurd (.inl (hflags.joined (hflags.after j hjoined))) hbefore
      · exact (hfails htimely).step hstep

/-! ## Runs -/

structure Inv (json : JsonCodec) (s : State) : Prop where
  sound : Sound json s
  flags : Flags s
  closed : Over s → Closed s

theorem inv_start : Inv json start where
  sound := sound_start
  flags := flags_start
  closed := by
    rintro (hended | ⟨j, ok, hreturned⟩)
    · cases hended
    · cases hreturned

theorem Inv.step {act : Act} (h : Inv json s) (htimely : Timely s act)
    (hstep : step json s act = some s') : Inv json s' where
  sound := h.sound.step hstep
  flags := h.flags.step hstep
  closed := fun hover => by
    by_cases hbefore : Over s
    · exact (h.closed hbefore).step hstep
    · exact closed_of_over h.flags hbefore htimely hstep hover

theorem Inv.promised (h : Inv json s) : Promised json s where
  single := h.sound.single
  own := fun c value hmem => (h.sound.own c value hmem).2
  answered := h.sound.answered
  released := fun hover => (h.closed hover).pending
  free := by
    intro hover c id hwaiting
    cases hsent : s.sent c with
    | some result =>
      refine .inl ⟨s.setCall c (.returned (some id) (outcome result)), ?_⟩
      simp only [PluginTransport.step, hwaiting, hsent]
    | none =>
      by_cases hholding : ∃ value, s.reader = .holding value c
      · exact .inr hholding
      · refine .inl ⟨s.setCall c (.returned (some id) (.error (.protocol goneMsg))), ?_⟩
        have hdropped : s.dropped c id = true := by
          have hpending := (h.closed hover).pending id
          unfold State.dropped
          rw [hpending]
          cases hreader : s.reader with
          | holding value c' =>
            have hc : c' ≠ c := by
              rintro rfl
              exact hholding ⟨value, hreader⟩
            simp [hc]
          | running | leaving | clearing | ended => rfl
        simp only [PluginTransport.step, hwaiting, hsent, hdropped, if_true]

/-- **When no call is left behind**: every answer reaches the call it is for, and nobody is
registered once it is over, in a run in which no call stands between its look at the flag and its
registration as the reader clears the table. -/
theorem transport_released (json : JsonCodec) (acts : List Act)
    (hmeets : Meets (step json) Timely start acts) :
    Always (step json) (Promised json) start acts := by
  intro before after s heq hrun
  rw [heq] at hmeets
  have hinv : Inv json s :=
    invariant (fun _ _ _ hinv htimely hstep => hinv.step htimely hstep) inv_start
      hmeets.append.1 hrun
  exact hinv.promised

/-- The response to the first request of a transport. -/
def pong : String := "\x7b\"id\":1,\"result\":\"pong\"\x7d"

theorem parseLine_pong : parseLine JsonText.compactCodec pong =
    some (.object [("id", .nat 1), ("result", .string "pong")]) := by
  have htrim : Text.trim pong = pong := by decide +kernel
  have hread : JsonText.compactCodec.fromStr pong =
      some (.object [("id", .nat 1), ("result", .string "pong")]) := by
    rw [JsonText.compactCodec_fromStr]
    decide +kernel
  have hne : pong ≠ "" := by decide +kernel
  simp only [parseLine, htrim, if_neg hne, hread]

theorem step_line {text : String} {value : Value} {id c : Nat} (hrunning : s.reader = .running)
    (hparse : parseLine json text = some value) (hid : responseId value = some id)
    (hpending : s.pending id = some c) :
    step json s (.line text) = some { s.setPending id none with reader := .holding value c } := by
  simp only [PluginTransport.step, hrunning, dispatch, hparse, hid, hpending]

/-- A call is answered, and then the plugin ends its output. -/
theorem answered_released : Always (step JsonText.compactCodec) (Promised JsonText.compactCodec)
    start [.call 0 "ping" .null, .number 0, .register 0, .write 0 (.ok ()), .line pong, .send,
      .receive 0, .leave, .setGone, .clear] := by
  refine transport_released JsonText.compactCodec _ ?_
  refine .cons trivial rfl (.cons trivial rfl (.cons trivial rfl (.cons trivial rfl ?_)))
  refine .cons trivial (step_line rfl parseLine_pong rfl rfl) ?_
  refine .cons trivial rfl (.cons trivial rfl ?_)
  refine .cons trivial rfl (.cons trivial rfl (.cons ?_ rfl trivial))
  intro c
  by_cases hc : c = 0
  · subst hc
    rfl
  · simp [sendTo, State.setCall, State.setPending, start, Call.registers, Call.listens,
      Function.update_of_ne hc]

/-- The plugin ends its output as a call stands before its registration: it is left waiting. -/
theorem late_call_left : ¬∀ (json : JsonCodec) (acts : List Act),
    Always (step json) (Promised json) start acts := by
  intro h
  have hpromised := h JsonText.compactCodec [.call 0 "ping" .null, .leave, .setGone, .clear,
    .number 0, .register 0, .write 0 (.ok ())] _ [] _ (List.append_nil _).symm rfl
  cases hpromised.released (.inl rfl) 1

end AnyConverter.PluginTransport
