import AnyConverter.Server.Plugins.Transport

/-!
# The answers to calls

The waiter of a call goes into the table once, under the id of the call, and comes out of it once:
with the response that has that id, or with none.

* `quiet_step`: most steps register nobody and answer nobody;
* `Sound.step`: what every step keeps, so that a call is answered once and under its own id.
-/

set_option autoImplicit false

namespace AnyConverter.PluginTransport

variable {json : JsonCodec} {s s' : State}

/-! ## Answers -/

structure Sound (json : JsonCodec) (s : State) : Prop where
  table : ∀ id c, s.pending id = some c →
    (s.calls c).hasRegistered = true ∧ (s.calls c).id = some id ∧ s.sent c = none
  held : ∀ value c, s.reader = .holding value c → (s.calls c).hasRegistered = true ∧
    (∃ id, (s.calls c).id = some id ∧ responseId value = some id) ∧ s.sent c = none ∧
      ∀ id, s.pending id ≠ some c
  fresh : ∀ c, (s.calls c).hasRegistered = false → s.sent c = none
  sent : ∀ c result, s.sent c = some result →
    ∃ value, (c, value) ∈ s.answers ∧ reply json value = result
  unsent : ∀ c, s.sent c = none → c ∉ s.answers.map Prod.fst
  single : (s.answers.map Prod.fst).Nodup
  own : ∀ c value, (c, value) ∈ s.answers → (s.calls c).hasRegistered = true ∧
    ∃ id, (s.calls c).id = some id ∧ responseId value = some id
  answered : ∀ c id result, s.calls c = .returned id result →
    (∃ why, result = .error (.protocol why)) ∨
      ∃ value, (c, value) ∈ s.answers ∧ result = outcome (reply json value)

theorem sound_start : Sound json start where
  table := nofun
  held := nofun
  fresh := fun _ _ => rfl
  sent := nofun
  unsent := fun _ _ => List.not_mem_nil
  single := List.nodup_nil
  own := nofun
  answered := nofun

/-- A step that registers nobody, takes nobody out of the table to answer it, and answers nobody. -/
structure Quiet (s s' : State) : Prop where
  registered : ∀ c, (s'.calls c).hasRegistered = (s.calls c).hasRegistered
  id : ∀ c, (s.calls c).hasRegistered = true → (s'.calls c).id = (s.calls c).id
  pending : ∀ id c, s'.pending id = some c → s.pending id = some c
  reader : ∀ value c, s'.reader = .holding value c → s.reader = .holding value c
  sent : s'.sent = s.sent
  answers : s'.answers = s.answers
  returned : ∀ c id result, s'.calls c = .returned id result → s.calls c = .returned id result ∨
    (∃ why, result = .error (.protocol why)) ∨
      ∃ response, s.sent c = some response ∧ result = outcome response

theorem Sound.quiet (h : Sound json s) (hquiet : Quiet s s') : Sound json s' where
  table := by
    intro id c hpending
    obtain ⟨hregistered, hid, hsent⟩ := h.table id c (hquiet.pending id c hpending)
    rw [hquiet.registered, hquiet.id c hregistered, hquiet.sent]
    exact ⟨hregistered, hid, hsent⟩
  held := by
    intro value c hreader
    obtain ⟨hregistered, hid, hsent, hpending⟩ := h.held value c (hquiet.reader value c hreader)
    rw [hquiet.registered, hquiet.id c hregistered, hquiet.sent]
    exact ⟨hregistered, hid, hsent, fun id hid => hpending id (hquiet.pending id c hid)⟩
  fresh := by
    intro c hregistered
    rw [hquiet.registered] at hregistered
    rw [hquiet.sent]
    exact h.fresh c hregistered
  sent := by
    rw [hquiet.sent, hquiet.answers]
    exact h.sent
  unsent := by
    rw [hquiet.sent, hquiet.answers]
    exact h.unsent
  single := by
    rw [hquiet.answers]
    exact h.single
  own := by
    intro c value hmem
    rw [hquiet.answers] at hmem
    obtain ⟨hregistered, hid⟩ := h.own c value hmem
    rw [hquiet.registered, hquiet.id c hregistered]
    exact ⟨hregistered, hid⟩
  answered := by
    intro c id result hreturned
    rw [hquiet.answers]
    rcases hquiet.returned c id result hreturned with hold | hwhy | ⟨response, hsent, hresult⟩
    · exact h.answered c id result hold
    · exact .inl hwhy
    · obtain ⟨value, hmem, hreply⟩ := h.sent c response hsent
      exact .inr ⟨value, hmem, by rw [hresult, hreply]⟩

theorem Quiet.trans {s'' : State} (h : Quiet s s') (h' : Quiet s' s'') : Quiet s s'' where
  registered := fun c => (h'.registered c).trans (h.registered c)
  id := fun c hregistered =>
    (h'.id c ((h.registered c).trans hregistered)).trans (h.id c hregistered)
  pending := fun id c hpending => h.pending id c (h'.pending id c hpending)
  reader := fun value c hreader => h.reader value c (h'.reader value c hreader)
  sent := h'.sent.trans h.sent
  answers := h'.answers.trans h.answers
  returned := by
    intro c id result hreturned
    rcases h'.returned c id result hreturned with hreturned | hwhy | hsent
    · exact h.returned c id result hreturned
    · exact .inr (.inl hwhy)
    · rw [h.sent] at hsent
      exact .inr (.inr hsent)

/-- A step that leaves the calls and their answers alone, and at most empties the table. -/
theorem quiet_of_calls (hcalls : s'.calls = s.calls) (hsent : s'.sent = s.sent)
    (hanswers : s'.answers = s.answers)
    (hpending : ∀ id c, s'.pending id = some c → s.pending id = some c)
    (hreader : ∀ value c, s'.reader = .holding value c → s.reader = .holding value c) :
    Quiet s s' where
  registered := fun c => by rw [hcalls]
  id := fun c _ => by rw [hcalls]
  pending := hpending
  reader := hreader
  sent := hsent
  answers := hanswers
  returned := fun c id result hreturned => .inl (hcalls ▸ hreturned)

/-- A call that moves on, and is registered or not as it was. -/
def Call.Follows (call call' : Call) : Prop :=
  call'.hasRegistered = call.hasRegistered ∧ (call.hasRegistered = true → call'.id = call.id)

theorem quiet_setCall {c : Nat} {call : Call} (hfollows : (s.calls c).Follows call)
    (hreturned : ∀ id result, call = .returned id result →
      (∃ why, result = .error (.protocol why)) ∨
        ∃ response, s.sent c = some response ∧ result = outcome response) :
    Quiet s (s.setCall c call) where
  registered := fun c' => by
    by_cases hc : c' = c
    · subst hc
      rw [State.setCall_self, hfollows.1]
    · rw [State.setCall_of_ne _ _ hc]
  id := fun c' hregistered' => by
    by_cases hc : c' = c
    · subst hc
      rw [State.setCall_self, hfollows.2 hregistered']
    · rw [State.setCall_of_ne _ _ hc]
  pending := fun _ _ h => h
  reader := fun _ _ h => h
  sent := rfl
  answers := rfl
  returned := fun c' id result hcall => by
    by_cases hc : c' = c
    · subst hc
      rw [State.setCall_self] at hcall
      exact .inr (hreturned id result hcall)
    · rw [State.setCall_of_ne _ _ hc] at hcall
      exact .inl hcall

theorem quiet_setPending_none (s : State) (id : Nat) : Quiet s (s.setPending id none) := by
  refine quiet_of_calls rfl rfl rfl ?_ (fun _ _ h => h)
  intro id' c hpending
  by_cases hid : id' = id
  · subst hid
    rw [State.setPending_self] at hpending
    cases hpending
  · rwa [State.setPending_of_ne _ _ hid] at hpending

/-- The steps that register a waiter or answer one. -/
def Act.answers : Act → Bool
  | register _ => true
  | line _ => true
  | send => true
  | _ => false

theorem quiet_step {act : Act} (hanswers : act.answers = false)
    (h : step json s act = some s') : Quiet s s' := by
  cases act with
  | call c method params =>
    simp only [step] at h
    split at h
    · rename_i hidle
      cases h
      cases s.gone with
      | true =>
        refine quiet_setCall ?_ ?_
        · rw [hidle]
          exact ⟨rfl, fun hregistered => by cases hregistered⟩
        · intro id result hreturned
          cases hreturned
          exact .inl ⟨goneMsg, rfl⟩
      | false =>
        refine quiet_setCall ?_ (by simp)
        rw [hidle]
        exact ⟨rfl, fun hregistered => by cases hregistered⟩
    · cases h
  | number c =>
    simp only [step] at h
    split at h
    · rename_i method params hchecked
      cases h
      have hnumber : Quiet s { s with nextId := (s.nextId + 1) % 2 ^ 64 } :=
        quiet_of_calls rfl rfl rfl (fun _ _ h => h) (fun _ _ h => h)
      refine hnumber.trans (quiet_setCall ?_ (by simp))
      rw [hchecked]
      exact ⟨rfl, fun hregistered => by cases hregistered⟩
    · cases h
  | write c result =>
    simp only [step] at h
    split at h
    · rename_i id line hregistered
      split at h
      · split at h
        · cases h
          have hinput : Quiet s { s with input := s.input ++ [line] } :=
            quiet_of_calls rfl rfl rfl (fun _ _ h => h) (fun _ _ h => h)
          refine hinput.trans (quiet_setCall ?_ (by simp))
          rw [hregistered]
          exact ⟨rfl, fun _ => rfl⟩
        · cases h
          refine quiet_setCall ?_ (by simp)
          rw [hregistered]
          exact ⟨rfl, fun _ => rfl⟩
      · cases h
        refine quiet_setCall ?_ (by simp)
        rw [hregistered]
        exact ⟨rfl, fun _ => rfl⟩
    · cases h
  | unregister c =>
    simp only [step] at h
    split at h
    · rename_i id why hfailing
      cases h
      refine (quiet_setPending_none s id).trans (quiet_setCall ?_ ?_)
      · rw [State.setPending, hfailing]
        exact ⟨rfl, fun _ => rfl⟩
      · intro id' result hreturned
        cases hreturned
        exact .inl ⟨why, rfl⟩
    · cases h
  | receive c =>
    simp only [step] at h
    split at h
    · rename_i id hwaiting
      split at h
      · rename_i result hsent
        cases h
        refine quiet_setCall ?_ ?_
        · rw [hwaiting]
          exact ⟨rfl, fun _ => rfl⟩
        · intro id' result' hreturned
          cases hreturned
          exact .inr ⟨result, hsent, rfl⟩
      · split at h
        · cases h
          refine quiet_setCall ?_ ?_
          · rw [hwaiting]
            exact ⟨rfl, fun _ => rfl⟩
          · intro id' result' hreturned
            cases hreturned
            exact .inl ⟨goneMsg, rfl⟩
        · cases h
    · cases h
  | abandon c =>
    simp only [step] at h
    split at h
    · rename_i id hwaiting
      cases h
      refine quiet_setCall ?_ (by simp)
      rw [hwaiting]
      exact ⟨rfl, fun _ => rfl⟩
    · cases h
  | leave =>
    simp only [step] at h
    split at h <;> cases h
    exact quiet_of_calls rfl rfl rfl (fun _ _ h => h) (by simp)
  | setGone =>
    simp only [step] at h
    split at h <;> cases h
    exact quiet_of_calls rfl rfl rfl (fun _ _ h => h) (by simp)
  | clear =>
    simp only [step] at h
    split at h <;> cases h
    exact quiet_of_calls rfl rfl rfl (by simp) (by simp)
  | shutdown | poll | reap | take | join | storeGone | clearAll =>
    have hstep := shutdownStep rfl h
    exact quiet_of_calls hstep.calls hstep.sent hstep.answers (fun _ _ => hstep.pending_some)
      (fun _ _ hreader => hstep.reader ▸ hreader)
  | register | line | send => cases hanswers

/-- A waiter goes into the table, under the id of its call. -/
theorem Sound.register (h : Sound json s) {c id : Nat} {line : String}
    (hcall : s.calls c = .numbered id line) :
    Sound json ((s.setPending id (some c)).setCall c (.registered id line)) := by
  have hnew : (s.calls c).hasRegistered = false := by
    rw [hcall]
    rfl
  have hother : ∀ c', (s.calls c').hasRegistered = true →
      ((s.setPending id (some c)).setCall c (.registered id line)).calls c' = s.calls c' := by
    intro c' hregistered
    refine State.setCall_of_ne _ _ ?_
    rintro rfl
    rw [hnew] at hregistered
    cases hregistered
  refine ⟨?_, ?_, ?_, h.sent, h.unsent, h.single, ?_, ?_⟩
  · intro id' c' hpending
    by_cases hid : id' = id
    · subst hid
      have heq : some c = some c' := (State.setPending_self s id' (some c)).symm.trans hpending
      cases heq
      rw [State.setCall_self]
      exact ⟨rfl, rfl, h.fresh c hnew⟩
    · have hold : s.pending id' = some c' :=
        (State.setPending_of_ne s (some c) hid).symm.trans hpending
      obtain ⟨hregistered, hid', hsent⟩ := h.table id' c' hold
      rw [hother c' hregistered]
      exact ⟨hregistered, hid', hsent⟩
  · intro value c' hreader
    obtain ⟨hregistered, hid', hsent, hpending⟩ := h.held value c' hreader
    rw [hother c' hregistered]
    refine ⟨hregistered, hid', hsent, fun id' hpending' => ?_⟩
    by_cases hid : id' = id
    · subst hid
      have heq : some c = some c' := (State.setPending_self s id' (some c)).symm.trans hpending'
      cases heq
      rw [hnew] at hregistered
      cases hregistered
    · exact hpending id' ((State.setPending_of_ne s (some c) hid).symm.trans hpending')
  · intro c' hregistered
    by_cases hc : c' = c
    · subst hc
      exact h.fresh c' hnew
    · rw [State.setCall_of_ne _ _ hc] at hregistered
      exact h.fresh c' hregistered
  · intro c' value hmem
    obtain ⟨hregistered, hid⟩ := h.own c' value hmem
    rw [hother c' hregistered]
    exact ⟨hregistered, hid⟩
  · intro c' id' result hreturned
    by_cases hc : c' = c
    · subst hc
      rw [State.setCall_self] at hreturned
      cases hreturned
    · rw [State.setCall_of_ne _ _ hc] at hreturned
      exact h.answered c' id' result hreturned

/-- A line does nothing, or takes out the waiter it is for. -/
theorem dispatch_cases (json : JsonCodec) (s : State) (line : String) :
    dispatch json s line = s ∨ ∃ value id c, responseId value = some id ∧ s.pending id = some c ∧
      dispatch json s line = { s.setPending id none with reader := .holding value c } := by
  unfold dispatch
  split
  · exact .inl rfl
  · rename_i value hvalue
    split
    · exact .inl rfl
    · rename_i id hid
      split
      · exact .inl rfl
      · rename_i c hpending
        exact .inr ⟨value, id, c, hid, hpending, rfl⟩

theorem Sound.dispatch (h : Sound json s) (line : String) : Sound json (dispatch json s line) := by
  rcases dispatch_cases json s line with heq | ⟨value, id, c, hid, hpending, heq⟩
  · rw [heq]
    exact h
  · rw [heq]
    have hless := (quiet_setPending_none s id).pending
    refine ⟨fun id' c' h' => h.table id' c' (hless id' c' h'), ?_, h.fresh, h.sent, h.unsent,
      h.single, h.own, h.answered⟩
    intro value' c' hreader
    cases hreader
    obtain ⟨hregistered, hcall, hsent⟩ := h.table id c hpending
    refine ⟨hregistered, ⟨id, hcall, hid⟩, hsent, fun id' hpending' => ?_⟩
    -- its waiter was in the table once
    have hsame : id' = id := by
      have hcall' := (h.table id' c (hless id' c hpending')).2.1
      rw [hcall] at hcall'
      exact (Option.some.inj hcall').symm
    subst hsame
    have hgone : some c = none := hpending'.symm.trans (State.setPending_self s id' none)
    cases hgone

/-- A response reaches the call, or the call has gone. -/
theorem sendTo_cases (json : JsonCodec) (s : State) (value : Value) (c : Nat) :
    sendTo json s value c = { s with reader := .running } ∨
      sendTo json s value c = { s with
        reader := .running, sent := Function.update s.sent c (some (reply json value)),
        answers := s.answers ++ [(c, value)] } := by
  cases hlistens : (s.calls c).listens with
  | true => exact .inr (if_pos hlistens)
  | false => exact .inl (if_neg (by rw [hlistens]; decide))

theorem Sound.send (h : Sound json s) {value : Value} {c : Nat}
    (hreader : s.reader = .holding value c) : Sound json (sendTo json s value c) := by
  obtain ⟨hregistered, hid, hsent, hpending⟩ := h.held value c hreader
  rcases sendTo_cases json s value c with heq | heq
  · rw [heq]
    exact h.quiet (quiet_of_calls rfl rfl rfl (fun _ _ h => h) nofun)
  · rw [heq]
    have hnew : c ∉ s.answers.map Prod.fst := h.unsent c hsent
    refine ⟨?_, nofun, ?_, ?_, ?_, ?_, ?_, ?_⟩
    · intro id' c' hpending'
      obtain ⟨hregistered', hid', hsent'⟩ := h.table id' c' hpending'
      have hc : c' ≠ c := by
        rintro rfl
        exact hpending id' hpending'
      exact ⟨hregistered', hid', (Function.update_of_ne hc ..).trans hsent'⟩
    · intro c' hregistered'
      have hc : c' ≠ c := by
        rintro rfl
        rw [hregistered] at hregistered'
        cases hregistered'
      exact (Function.update_of_ne hc ..).trans (h.fresh c' hregistered')
    · intro c' result hsent'
      by_cases hc : c' = c
      · subst hc
        have heq : some (reply json value) = some result :=
          (Function.update_self c' _ s.sent).symm.trans hsent'
        exact ⟨value, List.mem_append_right _ (List.mem_singleton_self _), Option.some.inj heq⟩
      · have hold : s.sent c' = some result := (Function.update_of_ne hc ..).symm.trans hsent'
        obtain ⟨value', hmem, hreply⟩ := h.sent c' result hold
        exact ⟨value', List.mem_append_left _ hmem, hreply⟩
    · intro c' hsent'
      have hc : c' ≠ c := by
        rintro rfl
        have heq : some (reply json value) = none :=
          (Function.update_self c' _ s.sent).symm.trans hsent'
        cases heq
      have hold : s.sent c' = none := (Function.update_of_ne hc ..).symm.trans hsent'
      rw [List.map_append, List.mem_append, not_or]
      exact ⟨h.unsent c' hold, fun hmem => hc (List.mem_singleton.mp hmem)⟩
    · rw [List.map_append]
      refine List.nodup_append.mpr ⟨h.single, List.pairwise_singleton _ c, ?_⟩
      rintro c' hmem _ hmem' rfl
      rw [List.mem_singleton.mp hmem'] at hmem
      exact hnew hmem
    · intro c' value' hmem
      rcases List.mem_append.mp hmem with hold | hnew
      · exact h.own c' value' hold
      · cases List.mem_singleton.mp hnew
        exact ⟨hregistered, hid⟩
    · intro c' id' result hreturned
      refine (h.answered c' id' result hreturned).imp_right ?_
      rintro ⟨value', hmem, hresult⟩
      exact ⟨value', List.mem_append_left _ hmem, hresult⟩

theorem Sound.step {act : Act} (h : Sound json s) (hstep : step json s act = some s') :
    Sound json s' := by
  cases hanswers : act.answers with
  | false => exact h.quiet (quiet_step hanswers hstep)
  | true =>
    cases act with
    | register c =>
      simp only [PluginTransport.step] at hstep
      split at hstep
      · rename_i id line hnumbered
        cases hstep
        exact h.register hnumbered
      · cases hstep
    | line text =>
      simp only [PluginTransport.step] at hstep
      split at hstep <;> cases hstep
      exact h.dispatch text
    | send =>
      simp only [PluginTransport.step] at hstep
      split at hstep
      · rename_i value c hholding
        cases hstep
        exact h.send hholding
      · cases hstep
    | call | number | write | unregister | receive | abandon | leave | setGone | clear | shutdown
    | poll | reap | take | join | storeGone | clearAll => cases hanswers

end AnyConverter.PluginTransport
