import AnyConverter.Server.SignIn.Tasks

/-!
# Cancelled sign-ins

A cancel takes the task out of the registry and waits for the background flow that it finds there.
A submit takes that flow out before it exchanges what was pasted, and nobody waits for the submit.

* `Inv.step`: what every step keeps;
* `nothing_stored`: nothing is stored behind a cancel that finds no submit under way;
* `stored_after_cancel`: behind one that lands in the exchange of a submit, the credential is stored.
-/

set_option autoImplicit false

namespace AnyConverter.SignInTasks

open Runs

/-- A submit that may still store a credential. -/
def Submit.Stores : Submit → Prop
  | closing => True
  | exchanging => True
  | settling _ => True
  | _ => False

/-- A background flow that never ran, or runs no more. -/
def Background.Over : Background → Prop
  | none => True
  | ended _ => True
  | _ => False

/-- Nothing goes into the account store behind a cancel that returned true. -/
def NothingAfterCancel (s : State) : Prop :=
  ∀ before after, s.log = before ++ .canceled :: after → .stored ∉ after

/-- A cancel that finds the task does so while no submit of it is under way. -/
def CancelsBetween (s : State) : Act → Prop
  | .cancel _ => s.entry ≠ none → ∀ i, ¬(s.submits i).Stores
  | _ => True

/-! ## The invariant -/

structure CancelInv (flow : Flow) (s : State) : Prop where
  /-- no submit and no cancel finds a task that is not in the registry yet -/
  early : s.inserted = false → s.entry = none ∧ (∀ i, ¬(s.submits i).Stores) ∧
    (∀ j, s.cancels j ≠ .closing) ∧ .canceled ∉ s.log
  unspawned : flow.spawns = false → s.background = .none
  /-- a task that was parted from its background flow: the flow is over, or a submit waits for it -/
  taken : ∀ handle, s.entry = some handle → handle.background = false →
    s.background.Over ∨ ∃ i, s.submits i = .closing
  /-- behind a cancel, the task is gone and no submit is under way -/
  gone : (.canceled ∈ s.log ∨ ∃ j, s.cancels j = .closing) →
    s.inserted = true ∧ s.entry = none ∧ ∀ i, ¬(s.submits i).Stores
  ended : .canceled ∈ s.log → s.background.Over
  after : NothingAfterCancel s

theorem cancelInv_start (flow : Flow) : CancelInv flow (start flow) where
  early := fun _ => ⟨rfl, fun _ h => h, fun _ h => (by cases h), List.not_mem_nil⟩
  unspawned := fun h => by rw [start, h]; rfl
  taken := fun _ h => by cases h
  gone := by
    rintro (h | ⟨j, h⟩)
    · cases h
    · cases h
  ended := fun h => by cases h
  after := fun before after h => by simp [start] at h

/-- A step that neither stores a credential nor takes or leaves the task. -/
structure Calm (s s' : State) : Prop where
  inserted : s'.inserted = s.inserted
  log : s'.log = s.log ∨ s'.log = s.log ++ [.pluginStored]
  cancels : s'.cancels = s.cancels
  entry : ∀ handle', s'.entry = some handle' →
    ∃ handle, s.entry = some handle ∧ handle'.background = handle.background
  none : s.background = .none → s'.background = .none
  ended : s.background.Over → s'.background.Over
  stores : ∀ i, (s'.submits i).Stores → (s.submits i).Stores
  closing : ∀ i, s.submits i = .closing → s'.submits i = .closing

variable {flow : Flow} {s s' : State}

theorem Calm.mem_log (h : Calm s s') : .canceled ∈ s'.log ↔ .canceled ∈ s.log := by
  rcases h.log with hlog | hlog <;> simp [hlog]

theorem Calm.entry_none (h : Calm s s') (hnone : s.entry = .none) : s'.entry = .none := by
  cases hentry : s'.entry with
  | none => rfl
  | some handle' =>
    obtain ⟨handle, hsome, -⟩ := h.entry handle' hentry
    rw [hnone] at hsome
    cases hsome

/-- What stands behind a cancel, when an event that stores nothing comes behind it. -/
theorem NothingAfterCancel.append {event : Event} (h : NothingAfterCancel s)
    (hlog : s'.log = s.log ++ [event]) (hevent : event ≠ .stored) : NothingAfterCancel s' := by
  intro before after heq hmem
  rw [hlog] at heq
  rcases List.eq_nil_or_concat after with rfl | ⟨after, last, rfl⟩
  · cases hmem
  · rw [List.concat_eq_append, ← List.cons_append, ← List.append_assoc] at heq
    obtain ⟨hinit, hlast⟩ := List.append_inj' heq rfl
    rw [List.concat_eq_append, List.mem_append, List.mem_singleton] at hmem
    rcases hmem with hmem | hmem
    · exact h before after hinit hmem
    · cases hlast
      exact hevent hmem.symm

/-- A credential may be stored as long as no cancel has returned. -/
theorem NothingAfterCancel.of_notMem (h : .canceled ∉ s.log) : NothingAfterCancel s := by
  intro before after heq
  exact absurd (heq ▸ List.mem_append_right before List.mem_cons_self) h

theorem CancelInv.calm (h : CancelInv flow s) (hcalm : Calm s s') : CancelInv flow s' where
  early := fun hinserted => by
    rw [hcalm.inserted] at hinserted
    obtain ⟨hentry, hsubmits, hcancels, hlog⟩ := h.early hinserted
    refine ⟨hcalm.entry_none hentry, fun i hi => hsubmits i (hcalm.stores i hi), ?_, ?_⟩
    · rw [hcalm.cancels]
      exact hcancels
    · rw [hcalm.mem_log]
      exact hlog
  unspawned := fun hspawns => hcalm.none (h.unspawned hspawns)
  taken := fun handle' hentry' hbackground => by
    obtain ⟨handle, hentry, heq⟩ := hcalm.entry handle' hentry'
    rcases h.taken handle hentry (heq ▸ hbackground) with hover | ⟨i, hi⟩
    · exact .inl (hcalm.ended hover)
    · exact .inr ⟨i, hcalm.closing i hi⟩
  gone := fun hgone => by
    rw [hcalm.mem_log, hcalm.cancels] at hgone
    obtain ⟨hinserted, hentry, hsubmits⟩ := h.gone hgone
    exact ⟨hcalm.inserted ▸ hinserted, hcalm.entry_none hentry,
      fun i hi => hsubmits i (hcalm.stores i hi)⟩
  ended := fun hlog => hcalm.ended (h.ended (hcalm.mem_log.mp hlog))
  after := by
    rcases hcalm.log with hlog | hlog
    · unfold NothingAfterCancel
      rw [hlog]
      exact h.after
    · exact h.after.append hlog (by decide)

/-! ## Steps that leave the task alone -/

theorem calm_updateTask (f : SignInTask → SignInTask) : Calm s (s.updateTask f) where
  inserted := rfl
  log := .inl rfl
  cancels := rfl
  entry := fun handle' h => by
    obtain ⟨handle, hentry, rfl⟩ := Option.map_eq_some_iff.mp h
    exact ⟨handle, hentry, rfl⟩
  none := id
  ended := id
  stores := fun _ => id
  closing := fun _ => id

theorem calm_markFinished : Calm s s.markFinished where
  inserted := rfl
  log := .inl rfl
  cancels := rfl
  entry := fun handle' h => by
    obtain ⟨handle, hentry, rfl⟩ := Option.map_eq_some_iff.mp h
    exact ⟨handle, hentry, rfl⟩
  none := id
  ended := id
  stores := fun _ => id
  closing := fun _ => id

theorem calm_prune : Calm s s.prune where
  inserted := rfl
  log := .inl rfl
  cancels := rfl
  entry := fun handle' h => ⟨handle', (Option.filter_eq_some_iff.mp h).1, rfl⟩
  none := id
  ended := id
  stores := fun _ => id
  closing := fun _ => id

theorem calm_pluginStored : Calm s (s.record .pluginStored) where
  inserted := rfl
  log := .inr rfl
  cancels := rfl
  entry := fun handle h => ⟨handle, h, rfl⟩
  none := id
  ended := id
  stores := fun _ => id
  closing := fun _ => id

/-- The background flow moves on. -/
theorem calm_background {background : Background} (h : ¬s.background.Over) :
    Calm s { s with background := background } where
  inserted := rfl
  log := .inl rfl
  cancels := rfl
  entry := fun handle h => ⟨handle, h, rfl⟩
  none := fun hnone => absurd (hnone ▸ trivial) h
  ended := fun hover => absurd hover h
  stores := fun _ => id
  closing := fun _ => id

/-- A submit moves on, without coming to where it may store a credential. -/
theorem calm_setSubmit {i : Nat} {pc : Submit} (hnot : s.submits i ≠ .closing)
    (hstores : pc.Stores → (s.submits i).Stores) : Calm s (s.setSubmit i pc) where
  inserted := rfl
  log := .inl rfl
  cancels := rfl
  entry := fun handle h => ⟨handle, h, rfl⟩
  none := id
  ended := id
  stores := fun k hk => by
    by_cases hik : k = i
    · subst hik
      rw [State.setSubmit_self] at hk
      exact hstores hk
    · rwa [State.setSubmit_of_ne s pc hik] at hk
  closing := fun k hk => by
    have hik : k ≠ i := fun h => hnot (h ▸ hk)
    rwa [State.setSubmit_of_ne s pc hik]

theorem Calm.trans {s'' : State} (h : Calm s s') (h' : Calm s' s'') (hlog : s''.log = s'.log) :
    Calm s s'' where
  inserted := h'.inserted.trans h.inserted
  log := by
    rw [hlog]
    exact h.log
  cancels := h'.cancels.trans h.cancels
  entry := fun handle'' h'' => by
    obtain ⟨handle', hentry', heq'⟩ := h'.entry handle'' h''
    obtain ⟨handle, hentry, heq⟩ := h.entry handle' hentry'
    exact ⟨handle, hentry, heq'.trans heq⟩
  none := fun hnone => h'.none (h.none hnone)
  ended := fun hover => h'.ended (h.ended hover)
  stores := fun i hi => h.stores i (h'.stores i hi)
  closing := fun i hi => h'.closing i (h.closing i hi)

theorem Calm.refl : Calm s s := ⟨rfl, .inl rfl, rfl, fun handle h => ⟨handle, h, rfl⟩, id, id,
  fun _ => id, fun _ => id⟩

/-- The steps that matter here: those at which a task comes, goes, or is parted from its flow, and
those that store. -/
def Act.Moves : Act → Prop
  | .insert _ _ => True
  | .store _ => True
  | .submit _ => True
  | .closed _ => True
  | .submitStore _ _ => True
  | .cancel _ => True
  | .cancelReturn _ => True
  | _ => False

theorem calm_step {act : Act} (hmoves : ¬act.Moves) (h : step flow s act = some s') : Calm s s' := by
  cases act with
  | insert => exact absurd trivial hmoves
  | store => exact absurd trivial hmoves
  | submit => exact absurd trivial hmoves
  | closed => exact absurd trivial hmoves
  | submitStore => exact absurd trivial hmoves
  | cancel => exact absurd trivial hmoves
  | cancelReturn => exact absurd trivial hmoves
  | codeArrives url code =>
    obtain ⟨-, rfl⟩ := by simpa [step] using h
    exact calm_updateTask _
  | waited result =>
    obtain ⟨⟨hwaiting, -⟩, rfl⟩ := by simpa [step] using h
    exact calm_background (by rw [hwaiting]; exact id)
  | notStarted why =>
    obtain ⟨⟨hwaiting, -⟩, rfl⟩ := by simpa [step] using h
    exact calm_background (by rw [hwaiting]; exact id)
  | asked stores answer =>
    simp only [step] at h
    split at h
    · rename_i hwaiting
      have hover : ¬s.background.Over := by rw [hwaiting.1]; exact id
      have hcalm : Calm s (if stores = true then s.record .pluginStored else s) := by
        split
        · exact calm_pluginStored
        · exact Calm.refl
      have hover' : ¬(if stores = true then s.record .pluginStored else s).background.Over := by
        split <;> exact hover
      cases answer with
      | again => cases h; exact hcalm
      | ok user => cases h; exact hcalm.trans (calm_background hover') rfl
      | failed why => cases h; exact hcalm.trans (calm_background hover') rfl
    · cases h
  | update =>
    simp only [step] at h
    split at h
    · rename_i report hreporting
      cases h
      have hover : ¬(s.updateTask (·.apply report)).background.Over := by
        show ¬s.background.Over
        rw [hreporting]
        exact id
      exact (calm_updateTask _).trans (calm_background hover) rfl
    · cases h
  | mark =>
    obtain ⟨hmarking, rfl⟩ := by simpa [step] using h
    have hover : ¬s.markFinished.background.Over := by
      show ¬s.background.Over
      rw [hmarking]
      exact id
    exact calm_markFinished.trans (calm_background hover) rfl
  | drop =>
    obtain ⟨⟨hwaiting, -⟩, rfl⟩ := by simpa [step] using h
    exact calm_background (by rw [hwaiting]; exact id)
  | exchanged i result =>
    obtain ⟨hpc, rfl⟩ := by simpa [step] using h
    exact calm_setSubmit (by rw [hpc]; decide) fun _ => by rw [hpc]; trivial
  | cliAnswers i answer =>
    obtain ⟨hpc, rfl⟩ := by simpa [step] using h
    refine calm_setSubmit (by rw [hpc]; decide) fun hstores => ?_
    cases answer <;> exact hstores.elim
  | pluginAnswers i stores answer =>
    simp only [step] at h
    split at h
    · rename_i hpc
      cases h
      have hpc' : (if stores = true then s.record .pluginStored else s).submits i = .intoPlugin := by
        split <;> exact hpc
      refine Calm.trans ?_ (calm_setSubmit (by rw [hpc']; decide) fun hstores => hstores.elim) rfl
      split
      · exact calm_pluginStored
      · exact Calm.refl
    · cases h
  | submitUpdate i =>
    simp only [step] at h
    split at h
    · rename_i report hpc
      cases h
      refine (calm_updateTask _).trans (calm_setSubmit ?_ fun hstores => ?_) rfl
      · show s.submits i ≠ .closing
        rw [hpc]
        exact fun heq => by cases heq
      · split at hstores <;> exact hstores.elim
    · cases h
  | submitMark i =>
    obtain ⟨hpc, rfl⟩ := by simpa [step] using h
    refine calm_markFinished.trans (calm_setSubmit ?_ fun hstores => hstores.elim) rfl
    show s.submits i ≠ .closing
    rw [hpc]
    decide
  | submitReturn i =>
    obtain ⟨hpc, rfl⟩ := by simpa [step] using h
    refine calm_prune.trans (calm_setSubmit ?_ fun hstores => hstores.elim) rfl
    show s.submits i ≠ .closing
    rw [hpc]
    decide
  | status =>
    cases h
    exact calm_prune
  | pluginStores =>
    obtain ⟨-, rfl⟩ := by simpa [step] using h
    exact calm_pluginStored
  | tick =>
    cases h
    exact ⟨rfl, .inl rfl, rfl, fun handle h => ⟨handle, h, rfl⟩, id, id, fun _ => id, fun _ => id⟩

/-! ## Steps that move the task or store a credential -/

theorem CancelInv.insert (h : CancelInv flow s) {url code : String}
    (hstep : step flow s (.insert url code) = some s') : CancelInv flow s' := by
  simp only [step] at hstep
  split at hstep
  · cases hstep
  · rename_i hnew
    cases hstep
    obtain ⟨-, hsubmits, hcancels, hlog⟩ := h.early (Bool.not_eq_true _ ▸ hnew)
    refine ⟨fun hinserted => (by cases hinserted), h.unspawned, ?_, ?_, h.ended, h.after⟩
    · intro handle hentry hbackground
      cases hentry
      exact .inl (by rw [State.prune, h.unspawned hbackground]; trivial)
    · rintro (hgone | ⟨j, hj⟩)
      · exact absurd hgone hlog
      · exact absurd hj (hcancels j)

/-- Nothing has been cancelled while a credential may still be stored. -/
theorem CancelInv.not_canceled (h : CancelInv flow s)
    (hstores : ¬s.background.Over ∨ ∃ i, (s.submits i).Stores) : .canceled ∉ s.log := by
  intro hlog
  rcases hstores with hover | ⟨i, hi⟩
  · exact hover (h.ended hlog)
  · exact (h.gone (.inl hlog)).2.2 i hi

/-- The invariant does not look into the log, but for cancels. -/
theorem CancelInv.recordStored (h : CancelInv flow s) (hlog : .canceled ∉ s.log) :
    CancelInv flow (s.record .stored) := by
  have hmem : .canceled ∉ (s.record .stored).log := by simpa [State.record] using hlog
  refine ⟨fun hinserted => ?_, h.unspawned, h.taken, ?_, fun hlog' => absurd hlog' hmem,
    NothingAfterCancel.of_notMem hmem⟩
  · obtain ⟨hentry, hsubmits, hcancels, -⟩ := h.early hinserted
    exact ⟨hentry, hsubmits, hcancels, hmem⟩
  · rintro (hgone | hgone)
    · exact absurd hgone hmem
    · exact h.gone (.inr hgone)

theorem CancelInv.store (h : CancelInv flow s) {outcome : Kept}
    (hstep : step flow s (.store outcome) = some s') : CancelInv flow s' := by
  simp only [step] at hstep
  split at hstep
  · rename_i account hsettling
    cases hstep
    have hover : ¬s.background.Over := by rw [hsettling]; exact id
    have hrecorded : CancelInv flow (if outcome.stores = true then s.record .stored else s) := by
      split
      · exact h.recordStored (h.not_canceled (.inl hover))
      · exact h
    refine hrecorded.calm (calm_background ?_)
    split <;> exact hover
  · cases hstep

theorem CancelInv.submitStore (h : CancelInv flow s) {i : Nat} {outcome : Kept}
    (hstep : step flow s (.submitStore i outcome) = some s') : CancelInv flow s' := by
  simp only [step] at hstep
  split at hstep
  · rename_i account hsettling
    cases hstep
    have hstores : (s.submits i).Stores := by rw [hsettling]; trivial
    have hrecorded : CancelInv flow (if outcome.stores = true then s.record .stored else s) := by
      split
      · exact h.recordStored (h.not_canceled (.inr ⟨i, hstores⟩))
      · exact h
    have hpc : (if outcome.stores = true then s.record .stored else s).submits i =
        .settling account := by
      split <;> exact hsettling
    refine hrecorded.calm (calm_setSubmit ?_ fun hreport => hreport.elim)
    rw [hpc]
    exact fun heq => by cases heq
  · cases hstep

/-- A submit that was waiting for the flow it aborted goes on to the exchange. -/
theorem CancelInv.closed (h : CancelInv flow s) {i : Nat}
    (hstep : step flow s (.closed i) = some s') : CancelInv flow s' := by
  obtain ⟨⟨hpc, hended⟩, rfl⟩ := by simpa [step] using hstep
  have hover : s.background.Over := by
    cases hbackground : s.background with
    | ended itself => trivial
    | _ => rw [hbackground] at hended; cases hended
  have hstores : ∀ k, ((s.setSubmit i .exchanging).submits k).Stores → (s.submits k).Stores := by
    intro k hk
    by_cases hki : k = i
    · subst hki
      rw [hpc]
      trivial
    · rwa [State.setSubmit_of_ne s _ hki] at hk
  refine ⟨fun hinserted => ?_, h.unspawned, fun _ _ _ => .inl hover, fun hgone => ?_,
    fun _ => hover, h.after⟩
  · obtain ⟨hentry, hsubmits, hcancels, hlog⟩ := h.early hinserted
    exact ⟨hentry, fun k hk => hsubmits k (hstores k hk), hcancels, hlog⟩
  · obtain ⟨hinserted, hentry, hsubmits⟩ := h.gone hgone
    exact ⟨hinserted, hentry, fun k hk => hsubmits k (hstores k hk)⟩

theorem CancelInv.submit (h : CancelInv flow s) {i : Nat}
    (hstep : step flow s (.submit i) = some s') : CancelInv flow s' := by
  obtain ⟨hidle, rfl⟩ := by simpa [step] using hstep
  have hquiet : ∀ pc : Submit, ¬pc.Stores → CancelInv flow (s.setSubmit i pc) := fun pc hpc =>
    h.calm (calm_setSubmit (by rw [hidle]; decide) fun hstores => absurd hstores hpc)
  unfold look
  split
  · exact hquiet _ id
  · rename_i handle hentry
    split
    · exact hquiet _ id
    · -- the task is in the registry: no cancel has come, and none is on its way
      have hnone : ¬(.canceled ∈ s.log ∨ ∃ j, s.cancels j = .closing) := fun hgone => by
        have := (h.gone hgone).2.1
        rw [hentry] at this
        cases this
      have hinserted : s.inserted ≠ false := fun hinserted => by
        have := (h.early hinserted).1
        rw [hentry] at this
        cases this
      split
      · exact hquiet _ id
      · exact hquiet _ id
      · exact hquiet _ id
      · dsimp only
        split
        · rename_i hbackground
          refine ⟨fun hfalse => absurd hfalse hinserted, h.unspawned, fun _ _ _ => .inr ⟨i, ?_⟩,
            fun hgone => absurd hgone hnone, fun hlog => absurd (.inl hlog) hnone, h.after⟩
          exact State.setSubmit_self ..
        · rename_i hbackground
          refine ⟨fun hfalse => absurd hfalse hinserted, h.unspawned, ?_,
            fun hgone => absurd hgone hnone, fun hlog => absurd (.inl hlog) hnone, h.after⟩
          intro handle' hentry' _
          rcases h.taken handle hentry (by simpa using hbackground) with hover | ⟨k, hk⟩
          · exact .inl hover
          · refine .inr ⟨k, ?_⟩
            have hki : k ≠ i := fun heq => by
              rw [heq, hidle] at hk
              cases hk
            exact (State.setSubmit_of_ne _ _ hki).trans hk

theorem CancelInv.cancel (h : CancelInv flow s) {j : Nat} (hbetween : CancelsBetween s (.cancel j))
    (hstep : step flow s (.cancel j) = some s') : CancelInv flow s' := by
  obtain ⟨hidle, rfl⟩ := by simpa [step] using hstep
  unfold remove
  split
  · rename_i hentry
    have hcancels : (∃ k, (s.setCancel j (.returned false)).cancels k = .closing) →
        ∃ k, s.cancels k = .closing := by
      rintro ⟨k, hk⟩
      by_cases hkj : k = j
      · subst hkj
        rw [State.setCancel_self] at hk
        cases hk
      · rw [State.setCancel_of_ne s _ hkj] at hk
        exact ⟨k, hk⟩
    refine ⟨fun hinserted => ?_, h.unspawned, h.taken, fun hgone => ?_, h.ended, h.after⟩
    · obtain ⟨hentry, hsubmits, hclosing, hlog⟩ := h.early hinserted
      refine ⟨hentry, hsubmits, fun k hk => ?_, hlog⟩
      obtain ⟨k', hk'⟩ := hcancels ⟨k, hk⟩
      exact hclosing k' hk'
    · exact h.gone (hgone.imp id hcancels)
  · rename_i handle hentry
    have hsubmits := hbetween (by rw [hentry]; exact fun heq => by cases heq)
    have hinserted : s.inserted = true := by
      cases hcase : s.inserted with
      | true => rfl
      | false =>
        have := (h.early hcase).1
        rw [hentry] at this
        cases this
    have hnone : .canceled ∉ s.log := fun hlog => by
      have := (h.gone (.inl hlog)).2.1
      rw [hentry] at this
      cases this
    dsimp only
    split
    · refine ⟨fun hfalse => ?_, h.unspawned, fun handle hsome => ?_, fun _ => ⟨hinserted, rfl, hsubmits⟩,
        fun hlog => absurd hlog hnone, h.after⟩
      · rw [State.setCancel] at hfalse
        rw [hinserted] at hfalse
        cases hfalse
      · cases hsome
    · rename_i hbackground
      have hover : s.background.Over := by
        rcases h.taken handle hentry (by simpa using hbackground) with hover | ⟨i, hi⟩
        · exact hover
        · exact absurd (by rw [hi]; trivial) (hsubmits i)
      refine ⟨fun hfalse => ?_, h.unspawned, fun handle hsome => ?_, fun _ => ⟨hinserted, rfl, hsubmits⟩,
        fun _ => hover, h.after.append rfl (by decide)⟩
      · rw [State.record, State.setCancel] at hfalse
        rw [hinserted] at hfalse
        cases hfalse
      · cases hsome

theorem CancelInv.cancelReturn (h : CancelInv flow s) {j : Nat}
    (hstep : step flow s (.cancelReturn j) = some s') : CancelInv flow s' := by
  obtain ⟨⟨hclosing, hended⟩, rfl⟩ := by simpa [step] using hstep
  obtain ⟨hinserted, hentry, hsubmits⟩ := h.gone (.inr ⟨j, hclosing⟩)
  have hover : s.background.Over := by
    cases hbackground : s.background with
    | ended itself => trivial
    | _ => rw [hbackground] at hended; cases hended
  refine ⟨fun hfalse => ?_, h.unspawned, h.taken, fun _ => ⟨hinserted, hentry, hsubmits⟩,
    fun _ => hover, h.after.append rfl (by decide)⟩
  rw [State.record, State.setCancel] at hfalse
  rw [hinserted] at hfalse
  cases hfalse

theorem CancelInv.step {act : Act} (h : CancelInv flow s) (hbetween : CancelsBetween s act)
    (hstep : step flow s act = some s') : CancelInv flow s' := by
  cases act with
  | insert url code => exact h.insert hstep
  | store outcome => exact h.store hstep
  | submit i => exact h.submit hstep
  | closed i => exact h.closed hstep
  | submitStore i outcome => exact h.submitStore hstep
  | cancel j => exact h.cancel hbetween hstep
  | cancelReturn j => exact h.cancelReturn hstep
  | _ => exact h.calm (calm_step id hstep)

/-! ## Runs -/

/-- **Nothing is stored behind a cancel that returned true**, in a run whose cancels find no submit
under way. -/
theorem nothing_stored (flow : Flow) (acts : List Act) (s : State)
    (hbetween : Meets (step flow) CancelsBetween (start flow) acts)
    (hrun : run (step flow) (start flow) acts = some s) : NothingAfterCancel s :=
  (invariant (fun _ _ _ h hcond hstep => CancelInv.step h hcond hstep) (cancelInv_start flow)
    hbetween hrun).after

/-- A sign-in that is cancelled while a pasted code is being exchanged. -/
def canceledInExchange : List Act :=
  [.insert "https://accounts.google.com" "", .submit 0, .drop, .closed 0, .cancel 0,
    .exchanged 0 (.ok ⟨"gemini:me", "me", ""⟩), .submitStore 0 .kept]

theorem stored_after_cancel : ¬∀ (flow : Flow) (acts : List Act) (s : State),
    run (step flow) (start flow) acts = some s → NothingAfterCancel s := by
  intro h
  have hrun : run (step .google) (start .google) canceledInExchange = some _ := rfl
  exact h _ _ _ hrun [] [.stored] rfl List.mem_cons_self

theorem nothing_stored_canceled : ∃ s, run (step .google) (start .google)
    [.insert "https://accounts.google.com" "", .cancel 0, .drop, .cancelReturn 0] = some s ∧
      NothingAfterCancel s := by
  refine ⟨_, rfl, nothing_stored .google [.insert "https://accounts.google.com" "", .cancel 0, .drop,
    .cancelReturn 0] _ ?_ rfl⟩
  refine Meets.cons trivial rfl (Meets.cons ?_ rfl (Meets.of_forall ?_))
  · exact fun _ i => id
  · intro act hact t
    rcases List.mem_pair.mp hact with rfl | rfl <;> trivial

end AnyConverter.SignInTasks
