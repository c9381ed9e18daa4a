import AnyConverter.Server.SignIn.Tasks

/-!
# Settled sign-ins

A settled task is kept for a while, so that the last poll sees how it ended.  It is settled in one
step and marked as finished in the next, and only by some of those that settle it.

* `Recorded.step`: a step keeps settled tasks recorded exactly when what settles one also marks it;
* `recent_prune`: then a look at the registry leaves what is waiting and what settled lately;
* `bounded_iff`: in which runs every settled task is recorded, and so dropped in time.
-/

set_option autoImplicit false

namespace AnyConverter.SignInTasks

open Runs

/-! ## The registry -/

/-- The sign-ins of a process, in the order they are started. -/
abbrev Registry := Nat → State

/-- Whether a step looks through the whole registry. -/
def Act.prunes : Act → Bool
  | insert _ _ => true
  | submitReturn _ => true
  | status => true
  | _ => false

/-- A step of one task; the clock is that of all, and a look at the registry drops what is old. -/
def Registry.step (flows : Nat → Flow) (r : Registry) : Nat × Act → Option Registry
  | (_, .tick) => some fun j => { r j with now := (r j).now + 1 }
  | (k, act) =>
    (SignInTasks.step (flows k) (r k) act).map fun s j =>
      if j = k then s else if act.prunes then (r j).prune else r j

def Registry.start (flows : Nat → Flow) : Registry := fun k => SignInTasks.start (flows k)

/-! ## What is promised -/

/-- Somebody stands between settling the task and marking it. -/
def State.Marking (s : State) : Prop := s.background = .marking ∨ ∃ i, s.submits i = .marking

/-- A task that is done or failed has its finished time, or gets it next. -/
def Recorded (s : State) : Prop :=
  ∀ handle, s.entry = some handle → handle.task.state ≠ .waiting →
    handle.finishedAt ≠ none ∨ s.Marking

/-- The task is waiting, or settled within the window. -/
def Recent (s : State) : Prop :=
  ∀ handle, s.entry = some handle → handle.task.state = .waiting ∨ s.Marking ∨
    ∃ at_, handle.finishedAt = some at_ ∧ s.now - at_ < finishedTtl

/-- What is promised of a run: what settled is recorded, and after a look at the registry no task is
left that settled longer ago than the window. -/
structure Bounded (flows : Nat → Flow) (acts : List (Nat × Act)) : Prop where
  recorded : Always (Registry.step flows) (fun r => ∀ k, Recorded (r k)) (Registry.start flows) acts
  recent : ∀ before k act after r r', acts = before ++ (k, act) :: after →
    run (Registry.step flows) (Registry.start flows) before = some r →
    Registry.step flows r (k, act) = some r' → act.prunes = true → ∀ j, Recent (r' j)

/-- What settles a task that nobody has marked marks it next. -/
def Marks (flow : Flow) (s : State) : Act → Prop
  | .update => flow.marks = true ∨
    ∀ handle, s.entry = some handle → handle.finishedAt ≠ none ∨ s.Marking
  | .submitUpdate _ => flow.driver = .plugin ∨
    ∀ handle, s.entry = some handle → handle.finishedAt ≠ none ∨ s.Marking
  | _ => True

variable {flow : Flow} {s s' : State}

/-! ## One task -/

/-- Whatever is to be reported settles the task. -/
structure Decided (s : State) : Prop where
  background : ∀ report, s.background = .reporting report → report.state ≠ .waiting
  submits : ∀ i report, s.submits i = .reporting report → report.state ≠ .waiting

theorem decided_start (flow : Flow) : Decided (start flow) where
  background := fun report h => by
    unfold start at h
    cases hspawns : flow.spawns <;> simp [hspawns] at h
  submits := fun i report h => by cases h

/-- Nothing that matters here is new: the task is as it was, if it is there, who was about to mark
it still is, and what is to be reported settles it. -/
structure Same (s s' : State) : Prop where
  entry : ∀ handle', s'.entry = some handle' → ∃ handle, s.entry = some handle ∧
    handle.task.state = handle'.task.state ∧ handle.finishedAt = handle'.finishedAt
  marking : s.Marking → s'.Marking
  decided : Decided s → Decided s'

theorem Recorded.same (h : Recorded s) (hsame : Same s s') : Recorded s' := by
  intro handle' hentry' hsettled
  obtain ⟨handle, hentry, hstate, hfinished⟩ := hsame.entry handle' hentry'
  rw [← hstate] at hsettled
  rw [← hfinished]
  exact (h handle hentry hsettled).imp_right hsame.marking

theorem Same.trans {s'' : State} (h : Same s s') (h' : Same s' s'') : Same s s'' where
  entry := by
    intro handle'' hentry''
    obtain ⟨handle', hentry', hstate', hfinished'⟩ := h'.entry handle'' hentry''
    obtain ⟨handle, hentry, hstate, hfinished⟩ := h.entry handle' hentry'
    exact ⟨handle, hentry, hstate.trans hstate', hfinished.trans hfinished'⟩
  marking := h'.marking ∘ h.marking
  decided := h'.decided ∘ h.decided

/-- A step that leaves the flow and the submits as they are. -/
theorem same_of_entry (hbackground : s'.background = s.background) (hsubmits : s'.submits = s.submits)
    (hentry : ∀ handle', s'.entry = some handle' → ∃ handle, s.entry = some handle ∧
      handle.task.state = handle'.task.state ∧ handle.finishedAt = handle'.finishedAt) :
    Same s s' where
  entry := hentry
  marking := by
    unfold State.Marking
    rw [hbackground, hsubmits]
    exact id
  decided := fun h => ⟨hbackground ▸ h.background, hsubmits ▸ h.submits⟩

theorem same_refl (s : State) : Same s s :=
  same_of_entry rfl rfl fun handle h => ⟨handle, h, rfl, rfl⟩

theorem same_prune (s : State) : Same s s.prune := by
  refine same_of_entry rfl rfl fun handle' h => ?_
  obtain ⟨hentry, -⟩ := Option.filter_eq_some_iff.mp h
  exact ⟨handle', hentry, rfl, rfl⟩

theorem marking_of_setSubmit (s : State) {i : Nat} (pc : Submit) (h : s.submits i ≠ .marking)
    (hmarking : s.Marking) : (s.setSubmit i pc).Marking := by
  rcases hmarking with hbackground | ⟨k, hk⟩
  · exact Or.inl hbackground
  · refine Or.inr ⟨k, ?_⟩
    have hne : k ≠ i := fun heq => h (heq ▸ hk)
    rw [State.setSubmit_of_ne s pc hne, hk]

theorem Decided.setSubmit (h : Decided s) {i : Nat} {pc : Submit}
    (hpc : ∀ report, pc = .reporting report → report.state ≠ .waiting) :
    Decided (s.setSubmit i pc) where
  background := h.background
  submits := fun k report hreport => by
    by_cases hk : k = i
    · subst hk
      rw [State.setSubmit_self] at hreport
      exact hpc report hreport
    · rw [State.setSubmit_of_ne s pc hk] at hreport
      exact h.submits k report hreport

/-- A submit moves on that was not about to mark the task. -/
theorem same_setSubmit (s : State) {i : Nat} {pc : Submit} (h : s.submits i ≠ .marking)
    (hpc : ∀ report, pc = .reporting report → report.state ≠ .waiting) :
    Same s (s.setSubmit i pc) where
  entry := fun handle hentry => ⟨handle, hentry, rfl, rfl⟩
  marking := marking_of_setSubmit s pc h
  decided := fun hdecided => hdecided.setSubmit hpc

/-- So does the background flow. -/
theorem same_background (s : State) {background : Background} (h : s.background ≠ .marking)
    (hnew : ∀ report, background = .reporting report → report.state ≠ .waiting) :
    Same s { s with background := background } where
  entry := fun handle hentry => ⟨handle, hentry, rfl, rfl⟩
  marking := fun hmarking => Or.inr (hmarking.resolve_left h)
  decided := fun hdecided => ⟨hnew, hdecided.submits⟩

theorem same_record (s : State) (event : Event) : Same s (s.record event) :=
  same_of_entry rfl rfl fun handle h => ⟨handle, h, rfl, rfl⟩

theorem same_setCancel (s : State) (j : Nat) (pc : Cancel) : Same s (s.setCancel j pc) :=
  same_of_entry rfl rfl fun handle h => ⟨handle, h, rfl, rfl⟩

/-- A flow that stored something, or did not. -/
theorem same_ite_record (s : State) (stores : Bool) (event : Event) :
    Same s (if stores then s.record event else s) := by
  cases stores
  · exact same_refl s
  · exact same_record s event

theorem same_look (flow : Flow) (s : State) {i : Nat} (h : s.submits i = .idle) :
    Same s (look flow s i) := by
  have hidle : s.submits i ≠ .marking := by
    rw [h]
    decide
  unfold look
  split
  · exact same_setSubmit s hidle nofun
  · rename_i handle hentry
    have htaken : ∀ aborted, Same s
        { s with entry := some { handle with background := false }, aborted := aborted } :=
      fun _ => same_of_entry rfl rfl fun handle' h' =>
        ⟨handle, hentry, by cases h'; exact ⟨rfl, rfl⟩⟩
    have hclosing : Same s (State.setSubmit { s with
        entry := some { handle with background := false }, aborted := true } i .closing) :=
      (htaken true).trans (same_setSubmit _ hidle nofun)
    have hexchanging : Same s (State.setSubmit { s with
        entry := some { handle with background := false } } i .exchanging) :=
      (htaken s.aborted).trans (same_setSubmit _ hidle nofun)
    split
    · exact same_setSubmit s hidle nofun
    · split
      · exact same_setSubmit s hidle nofun
      · exact same_setSubmit s hidle nofun
      · exact same_setSubmit s hidle nofun
      · split
        · exact hclosing
        · exact hexchanging

theorem same_remove (s : State) (j : Nat) : Same s (remove s j) := by
  unfold remove
  split
  · exact same_setCancel s j _
  · split
    · exact same_of_entry rfl rfl nofun
    · exact same_of_entry rfl rfl nofun

theorem settle_state (flow : Flow) (account : Account) (outcome : Kept) :
    (settle flow account outcome).state ≠ .waiting := by
  cases outcome <;> simp [settle, failedReport]

theorem pluginReport_state (answer : Except String String) :
    (pluginReport answer).state ≠ .waiting := by
  cases answer <;> simp [pluginReport]

/-- The steps that write what is recorded of the task. -/
def Act.writes : Act → Bool
  | insert _ _ => true
  | update => true
  | mark => true
  | submitUpdate _ => true
  | submitMark _ => true
  | _ => false

/-- All others leave it as it is. -/
theorem same_step {act : Act} (hwrites : act.writes = false) (h : step flow s act = some s') :
    Same s s' := by
  cases act with
  | codeArrives url code =>
    obtain ⟨-, hs'⟩ := Option.ite_none_right_eq_some.mp h
    cases hs'
    refine same_of_entry rfl rfl fun handle' hentry' => ?_
    obtain ⟨handle, hentry, rfl⟩ := Option.map_eq_some_iff.mp hentry'
    exact ⟨handle, hentry, rfl, rfl⟩
  | waited result =>
    obtain ⟨⟨hwaiting, -⟩, hs'⟩ := Option.ite_none_right_eq_some.mp h
    cases hs'
    refine same_background s (by rw [hwaiting]; decide) ?_
    cases result with
    | ok account => simp
    | error why => rintro - ⟨⟩; simp [failedReport]
  | notStarted why =>
    obtain ⟨⟨hwaiting, -⟩, hs'⟩ := Option.ite_none_right_eq_some.mp h
    cases hs'
    exact same_background s (by rw [hwaiting]; decide) (by rintro - ⟨⟩; simp)
  | asked stores answer =>
    obtain ⟨⟨hwaiting, -⟩, hs'⟩ := Option.ite_none_right_eq_some.mp h
    have hstored := same_ite_record s stores .pluginStored
    have hne : (if stores then s.record .pluginStored else s).background ≠ .marking := by
      cases stores <;> simp [State.record, hwaiting]
    cases answer with
    | ok user =>
      cases hs'
      exact hstored.trans (same_background _ hne (by rintro - ⟨⟩; simp))
    | failed why =>
      cases hs'
      exact hstored.trans (same_background _ hne (by rintro - ⟨⟩; simp))
    | again =>
      cases hs'
      exact hstored
  | store outcome =>
    simp only [step] at h
    split at h
    · rename_i account hsettling
      cases h
      have hne : (if outcome.stores then s.record .stored else s).background ≠ .marking := by
        cases outcome.stores <;> simp [State.record, hsettling]
      refine (same_ite_record s _ _).trans (same_background _ hne ?_)
      rintro - ⟨⟩
      exact settle_state flow account outcome
    · cases h
  | drop =>
    obtain ⟨⟨hwaiting, -⟩, hs'⟩ := Option.ite_none_right_eq_some.mp h
    cases hs'
    exact same_background s (by rw [hwaiting]; decide) (by simp)
  | submit i =>
    obtain ⟨hidle, hs'⟩ := Option.ite_none_right_eq_some.mp h
    cases hs'
    exact same_look flow s hidle
  | closed i =>
    obtain ⟨⟨hclosing, -⟩, hs'⟩ := Option.ite_none_right_eq_some.mp h
    cases hs'
    exact same_setSubmit s (by rw [hclosing]; decide) (by simp)
  | exchanged i result =>
    obtain ⟨hexchanging, hs'⟩ := Option.ite_none_right_eq_some.mp h
    cases hs'
    refine same_setSubmit s (by rw [hexchanging]; decide) ?_
    cases result with
    | ok account => simp
    | error why => rintro - ⟨⟩; simp [failedReport, Report.withPlan]
  | submitStore i outcome =>
    simp only [step] at h
    split at h
    · rename_i account hsettling
      cases h
      have hne : (if outcome.stores then s.record .stored else s).submits i ≠ .marking := by
        cases outcome.stores <;> simp [State.record, hsettling]
      refine (same_ite_record s _ _).trans (same_setSubmit _ hne ?_)
      rintro - ⟨⟩
      exact settle_state flow account outcome
    · cases h
  | cliAnswers i answer =>
    obtain ⟨hcli, hs'⟩ := Option.ite_none_right_eq_some.mp h
    cases hs'
    refine same_setSubmit s (by rw [hcli]; decide) ?_
    cases answer with
    | ok _ => simp
    | error why => rintro - ⟨⟩; simp
  | pluginAnswers i stores answer =>
    obtain ⟨hplugin, hs'⟩ := Option.ite_none_right_eq_some.mp h
    cases hs'
    have hne : (if stores then s.record .pluginStored else s).submits i ≠ .marking := by
      cases stores <;> simp [State.record, hplugin]
    refine (same_ite_record s _ _).trans (same_setSubmit _ hne ?_)
    rintro - ⟨⟩
    exact pluginReport_state answer
  | submitReturn i =>
    obtain ⟨hreading, hs'⟩ := Option.ite_none_right_eq_some.mp h
    cases hs'
    have hne : s.prune.submits i ≠ .marking := by
      rw [State.prune, hreading]
      decide
    exact (same_prune s).trans (same_setSubmit s.prune hne (by simp))
  | cancel j =>
    obtain ⟨-, hs'⟩ := Option.ite_none_right_eq_some.mp h
    cases hs'
    exact same_remove s j
  | cancelReturn j =>
    obtain ⟨-, hs'⟩ := Option.ite_none_right_eq_some.mp h
    cases hs'
    exact (same_setCancel s j _).trans (same_record _ _)
  | status =>
    cases h
    exact same_prune s
  | pluginStores =>
    obtain ⟨-, hs'⟩ := Option.ite_none_right_eq_some.mp h
    cases hs'
    exact same_record s _
  | tick =>
    cases h
    exact same_of_entry rfl rfl fun handle hentry => ⟨handle, hentry, rfl, rfl⟩
  | insert | update | mark | submitUpdate | submitMark => cases hwrites

theorem Decided.step {act : Act} (h : Decided s) (hstep : step flow s act = some s') :
    Decided s' := by
  cases hwrites : act.writes with
  | false => exact (same_step hwrites hstep).decided h
  | true =>
    cases act with
    | insert url code =>
      simp only [SignInTasks.step] at hstep
      split at hstep <;> cases hstep
      exact ⟨h.background, h.submits⟩
    | update =>
      simp only [SignInTasks.step] at hstep
      split at hstep <;> cases hstep
      refine ⟨fun report hreport => ?_, h.submits⟩
      cases hmarks : flow.marks <;> simp [hmarks] at hreport
    | mark =>
      obtain ⟨-, hs'⟩ := Option.ite_none_right_eq_some.mp hstep
      cases hs'
      exact ⟨by simp, h.submits⟩
    | submitUpdate i =>
      simp only [SignInTasks.step] at hstep
      split at hstep
      · rename_i report _
        cases hstep
        have hupdated : Decided (s.updateTask (·.apply report)) := ⟨h.background, h.submits⟩
        refine hupdated.setSubmit fun report' hreport => ?_
        split at hreport <;> cases hreport
      · cases hstep
    | submitMark i =>
      obtain ⟨-, hs'⟩ := Option.ite_none_right_eq_some.mp hstep
      cases hs'
      have hmarked : Decided s.markFinished := ⟨h.background, h.submits⟩
      exact hmarked.setSubmit (by simp)
    | codeArrives | waited | notStarted | asked | store | drop | submit | closed | exchanged
    | submitStore | cliAnswers | pluginAnswers | submitReturn | cancel | cancelReturn | status
    | pluginStores | tick => cases hwrites

/-! ## What a step keeps -/

theorem marking_setSubmit (s : State) {i : Nat} {pc : Submit} (h : s.submits i ≠ .marking)
    (hpc : pc ≠ .marking) : (s.setSubmit i pc).Marking ↔ s.Marking := by
  refine ⟨?_, marking_of_setSubmit s pc h⟩
  rintro (hbackground | ⟨k, hk⟩)
  · exact Or.inl hbackground
  · refine Or.inr ⟨k, ?_⟩
    have hne : k ≠ i := by
      rintro rfl
      rw [State.setSubmit_self] at hk
      exact hpc hk
    rw [← hk, State.setSubmit_of_ne s pc hne]

/-- A report that nobody marks is recorded only for a task that somebody has marked before, or is
about to. -/
theorem recorded_report {report : Report} (hreport : report.state ≠ .waiting)
    (hmarking : s'.Marking ↔ s.Marking)
    (hentry : s'.entry = (s.updateTask (·.apply report)).entry) :
    Recorded s' ↔ ∀ handle, s.entry = some handle → handle.finishedAt ≠ none ∨ s.Marking := by
  unfold Recorded
  rw [hentry, hmarking]
  constructor
  · intro h handle hsome
    exact h { handle with task := handle.task.apply report } (Option.map_eq_some_iff.mpr
      ⟨handle, hsome, rfl⟩) hreport
  · intro h handle' hsome' _
    obtain ⟨handle, hsome, rfl⟩ := Option.map_eq_some_iff.mp hsome'
    exact h handle hsome

theorem recorded_markFinished (h : s'.entry = s.markFinished.entry) : Recorded s' := by
  intro handle' hentry' _
  rw [h] at hentry'
  obtain ⟨handle, -, rfl⟩ := Option.map_eq_some_iff.mp hentry'
  exact Or.inl nofun

/-- What every step keeps, exactly when what settles the task also marks it. -/
theorem Recorded.step {act : Act} (h : Recorded s) (hdecided : Decided s)
    (hstep : step flow s act = some s') : Recorded s' ↔ Marks flow s act := by
  cases hwrites : act.writes with
  | false =>
    have hmarks : Marks flow s act := by
      cases act <;> trivial
    exact iff_of_true (h.same (same_step hwrites hstep)) hmarks
  | true =>
    cases act with
    | insert url code =>
      simp only [SignInTasks.step] at hstep
      split at hstep
      · cases hstep
      · cases hstep
        refine iff_of_true ?_ trivial
        intro handle hentry hsettled
        cases hentry
        exact absurd rfl hsettled
    | update =>
      simp only [SignInTasks.step] at hstep
      split at hstep
      · rename_i report hreporting
        cases hstep
        cases hmarks : flow.marks with
        | true => exact iff_of_true (fun _ _ _ => Or.inr (Or.inl rfl)) (Or.inl hmarks)
        | false =>
          have hne : s.background ≠ .marking := by
            rw [hreporting]
            simp
          have hmarking : ({ s.updateTask (·.apply report) with
              background := .ended true } : State).Marking ↔ s.Marking :=
            ⟨fun h => Or.inr (h.resolve_left (by simp)), fun h => Or.inr (h.resolve_left hne)⟩
          refine (recorded_report (hdecided.background report hreporting) hmarking rfl).trans ?_
          exact ⟨Or.inr, fun hcond => hcond.resolve_left (by rw [hmarks]; decide)⟩
      · cases hstep
    | mark =>
      obtain ⟨-, hs'⟩ := Option.ite_none_right_eq_some.mp hstep
      cases hs'
      exact iff_of_true (recorded_markFinished (s := s) rfl) trivial
    | submitUpdate i =>
      simp only [SignInTasks.step] at hstep
      split at hstep
      · rename_i report hreporting
        cases hstep
        by_cases hdriver : flow.driver = .plugin
        · refine iff_of_true (fun _ _ _ => Or.inr (Or.inr ⟨i, ?_⟩)) (Or.inl hdriver)
          rw [if_pos hdriver, State.setSubmit_self]
        · rw [if_neg hdriver]
          have hne : s.submits i ≠ .marking := by
            rw [hreporting]
            simp
          have hmarking :
              ((s.updateTask (·.apply report)).setSubmit i .reading).Marking ↔ s.Marking :=
            marking_setSubmit (s.updateTask (·.apply report)) hne (by simp)
          refine (recorded_report (hdecided.submits i report hreporting) hmarking rfl).trans ?_
          exact ⟨Or.inr, fun hcond => hcond.resolve_left hdriver⟩
      · cases hstep
    | submitMark i =>
      obtain ⟨-, hs'⟩ := Option.ite_none_right_eq_some.mp hstep
      cases hs'
      exact iff_of_true (recorded_markFinished (s := s) rfl) trivial
    | codeArrives | waited | notStarted | asked | store | drop | submit | closed | exchanged
    | submitStore | cliAnswers | pluginAnswers | submitReturn | cancel | cancelReturn | status
    | pluginStores | tick => cases hwrites

/-- A look at the registry leaves what is waiting and what settled lately. -/
theorem recent_prune (h : Recorded s) : Recent s.prune := by
  intro handle hentry
  obtain ⟨hbefore, hyoung⟩ := Option.filter_eq_some_iff.mp hentry
  by_cases hstate : handle.task.state = .waiting
  · exact Or.inl hstate
  · refine Or.inr ?_
    rcases h handle hbefore hstate with hfinished | hmarking
    · obtain ⟨at_, hat⟩ := Option.ne_none_iff_exists'.mp hfinished
      refine Or.inr ⟨at_, hat, ?_⟩
      rw [hat, Option.all_some] at hyoung
      exact of_decide_eq_true hyoung
    · exact Or.inl hmarking

/-- So does a step that makes it. -/
theorem recent_step {act : Act} (hprunes : act.prunes = true) (h : Recorded s)
    (hstep : step flow s act = some s') : Recent s' := by
  cases act with
  | insert url code =>
    simp only [SignInTasks.step] at hstep
    split at hstep
    · cases hstep
    · cases hstep
      intro handle hentry
      cases hentry
      exact Or.inl rfl
  | submitReturn i =>
    obtain ⟨hreading, hs'⟩ := Option.ite_none_right_eq_some.mp hstep
    cases hs'
    have hne : s.prune.submits i ≠ .marking := by
      rw [State.prune, hreading]
      decide
    intro handle hentry
    have hrecent := recent_prune h handle hentry
    exact hrecent.imp_right (.imp_left (marking_of_setSubmit s.prune _ hne))
  | status =>
    cases hstep
    exact recent_prune h
  | codeArrives | waited | notStarted | asked | store | update | mark | drop | submit | closed
  | exchanged | submitStore | cliAnswers | pluginAnswers | submitUpdate | submitMark | cancel
  | cancelReturn | pluginStores | tick => cases hprunes

/-! ## The registry's runs -/

variable {flows : Nat → Flow} {r r' : Registry} {k : Nat} {act : Act}

/-- A step of the registry is the task's own. -/
theorem Registry.step_self (h : Registry.step flows r (k, act) = some r') :
    SignInTasks.step (flows k) (r k) act = some (r' k) := by
  by_cases htick : act = .tick
  · subst htick
    cases h
    rfl
  · have hmap : (SignInTasks.step (flows k) (r k) act).map (fun s j =>
        if j = k then s else if act.prunes then (r j).prune else r j) = some r' := by
      cases act <;> first | exact h | exact absurd rfl htick
    obtain ⟨s, hs, rfl⟩ := Option.map_eq_some_iff.mp hmap
    rw [hs]
    exact congrArg some (if_pos rfl).symm

/-- To another one it is a look, a tick of the clock or nothing. -/
theorem Registry.step_of_ne {j : Nat} (hne : j ≠ k) (h : Registry.step flows r (k, act) = some r') :
    (act = .tick ∧ r' j = { r j with now := (r j).now + 1 }) ∨
      r' j = if act.prunes then (r j).prune else r j := by
  by_cases htick : act = .tick
  · subst htick
    cases h
    exact Or.inl ⟨rfl, rfl⟩
  · have hmap : (SignInTasks.step (flows k) (r k) act).map (fun s j =>
        if j = k then s else if act.prunes then (r j).prune else r j) = some r' := by
      cases act <;> first | exact h | exact absurd rfl htick
    obtain ⟨s, -, rfl⟩ := Option.map_eq_some_iff.mp hmap
    exact Or.inr (if_neg hne)

theorem same_tick (s : State) : Same s { s with now := s.now + 1 } :=
  same_of_entry rfl rfl fun handle h => ⟨handle, h, rfl, rfl⟩

/-- A step of one task leaves every other one as it is. -/
theorem Registry.same_of_ne {j : Nat} (hne : j ≠ k) (h : Registry.step flows r (k, act) = some r') :
    Same (r j) (r' j) := by
  rcases Registry.step_of_ne hne h with ⟨-, heq⟩ | heq
  · rw [heq]
    exact same_tick (r j)
  · rw [heq]
    split
    · exact same_prune (r j)
    · exact same_refl (r j)

theorem Registry.decided_step (hr : ∀ j, Decided (r j))
    (h : Registry.step flows r (k, act) = some r') (j : Nat) : Decided (r' j) := by
  by_cases hne : j = k
  · subst hne
    exact (hr j).step (Registry.step_self h)
  · exact (Registry.same_of_ne hne h).decided (hr j)

theorem Registry.recorded_step (hdecided : ∀ j, Decided (r j)) (hr : ∀ j, Recorded (r j))
    (h : Registry.step flows r (k, act) = some r') :
    (∀ j, Recorded (r' j)) ↔ Marks (flows k) (r k) act := by
  have hself := (hr k).step (hdecided k) (Registry.step_self h)
  refine ⟨fun hr' => hself.mp (hr' k), fun hmarks j => ?_⟩
  by_cases hne : j = k
  · subst hne
    exact hself.mpr hmarks
  · exact (hr j).same (Registry.same_of_ne hne h)

theorem Registry.recent_step (hprunes : act.prunes = true) (hr : ∀ j, Recorded (r j))
    (h : Registry.step flows r (k, act) = some r') (j : Nat) : Recent (r' j) := by
  by_cases hne : j = k
  · subst hne
    exact SignInTasks.recent_step hprunes (hr j) (Registry.step_self h)
  · rcases Registry.step_of_ne hne h with ⟨rfl, -⟩ | heq
    · cases hprunes
    · rw [heq, if_pos hprunes]
      exact recent_prune (hr j)

theorem recorded_start (flow : Flow) : Recorded (start flow) := nofun

/-- **Which runs keep the registry bounded**: those in which no task is settled, by its background
flow or by what was pasted, that nobody has marked or then marks. -/
theorem bounded_iff (flows : Nat → Flow) (acts : List (Nat × Act)) (r : Registry)
    (hrun : run (Registry.step flows) (Registry.start flows) acts = some r) :
    Bounded flows acts ↔ Meets (Registry.step flows) (fun r l => Marks (flows l.1) (r l.1) l.2)
      (Registry.start flows) acts := by
  have hiff := always_iff_meets (I := fun r : Registry => ∀ j, Decided (r j))
    (fun r l r' hdecided h => Registry.decided_step hdecided h)
    (fun r l r' hdecided hr h => Registry.recorded_step hdecided hr h)
    (fun j => decided_start (flows j)) (fun j => recorded_start (flows j)) hrun
  refine ⟨fun h => hiff.mp h.recorded, fun hmeets => ⟨hiff.mpr hmeets, ?_⟩⟩
  intro before k act after r₁ r₂ heq hbefore hstep hprunes
  exact Registry.recent_step hprunes (hiff.mpr hmeets before _ r₁ heq hbefore) hstep

/-- A browser sign-in that succeeds is marked as it settles. -/
theorem callback_bounded : Bounded (fun _ => .google) [(0, .insert "https://auth" ""),
    (0, .waited (.ok ⟨"gemini:me", "", ""⟩)), (0, .store .kept), (0, .update), (0, .mark),
    (1, .insert "https://auth" ""), (0, .tick), (1, .status)] := by
  refine (bounded_iff _ _ _ rfl).mpr ?_
  refine .cons trivial rfl (.cons trivial rfl (.cons trivial rfl ?_))
  refine .cons (Or.inl rfl) rfl ?_
  exact .cons trivial rfl (.cons trivial rfl (.cons trivial rfl (.cons trivial rfl trivial)))

/-- A device flow that could not be started stays in the registry: it failed, nobody marks it. -/
theorem device_flow_kept : ¬∀ (flows : Nat → Flow) (acts : List (Nat × Act)) (r : Registry),
    run (Registry.step flows) (Registry.start flows) acts = some r → Bounded flows acts := by
  intro h
  have hbounded := h (fun _ => .copilot) [(0, .insert "https://device" ""),
    (0, .notStarted "no network"), (0, .update)] _ rfl
  have hrecorded := hbounded.recorded _ [] _ (List.append_nil _).symm rfl 0 _ rfl nofun
  rcases hrecorded with hfinished | hbackground | ⟨i, hi⟩
  · exact hfinished rfl
  · cases hbackground
  · cases hi

end AnyConverter.SignInTasks
