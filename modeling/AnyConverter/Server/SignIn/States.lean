import AnyConverter.Server.SignIn.Tasks

/-!
# The states of a sign-in

The state of a task is written by its background flow and by every submit, each when it is done,
whatever the task reads by then.

* `SettleInv.step`: in an orderly run at most one of them is still to write;
* `orderly_reported`: there a settled state stays, and it tells what was stored.
-/

set_option autoImplicit false

namespace AnyConverter.SignInTasks

open Runs

/-- A submit that is still to write the state of its task. -/
def Submit.Busy : Submit → Prop
  | closing => True
  | exchanging => True
  | settling _ => True
  | intoPlugin => True
  | reporting _ => True
  | _ => False

/-- A background flow that is still to write the state of its task. -/
def Background.Busy : Background → Prop
  | waiting => True
  | settling _ => True
  | reporting _ => True
  | _ => False

/-- A background flow that has its answer and has not reported it. -/
def Background.Settles : Background → Prop
  | settling _ => True
  | reporting _ => True
  | _ => False

/-- A credential was stored for the flow. -/
def StoredSome (s : State) : Prop := .stored ∈ s.log ∨ .pluginStored ∈ s.log

/-- What callers are promised of a run: a state that settled stays, it is `done` when a credential was
stored, and a background flow that came to its end by itself is reported. -/
structure Reported (flow : Flow) (acts : List Act) : Prop where
  stays : ∀ before after s s', acts = before ++ after →
    run (step flow) (start flow) before = some s → run (step flow) s after = some s' →
    ∀ handle handle', s.entry = some handle → s'.entry = some handle' →
      handle.task.state ≠ .waiting → handle'.task.state = handle.task.state
  stored : ∀ s, run (step flow) (start flow) acts = some s → StoredSome s →
    ∀ handle, s.entry = some handle → handle.task.state ≠ .waiting → handle.task.state = .done
  settled : ∀ s, run (step flow) (start flow) acts = some s → s.background = .ended true →
    ∀ handle, s.entry = some handle → handle.task.state ≠ .waiting

/-- Steps that come in an order the registry is made for: a flow reports once its task is there, what
was pasted is taken up while nothing else is about to settle the task, a flow that a submit has
aborted does not answer any more, the command line takes what is pasted, and a credential is stored
where, and only where, a sign-in succeeds. -/
def Orderly (flow : Flow) (s : State) : Act → Prop
  | .update => s.inserted = true
  | .submit _ => flow.driver ≠ .copilot → flow.driver ≠ .claude →
    (∀ k, ¬(s.submits k).Busy) ∧ ¬s.background.Settles
  | .waited _ => ∀ i, s.submits i ≠ .closing
  | .cliAnswers _ answer => answer = .ok ()
  | .store outcome => ∀ why, outcome ≠ .marked why
  | .submitStore _ outcome => ∀ why, outcome ≠ .marked why
  | .asked stores answer => stores = true ↔ ∃ user, answer = .ok user
  | .pluginAnswers _ stores answer => stores = true ↔ ∃ user, answer = .ok user
  | .pluginStores => False
  | _ => True

/-! ## The invariant -/

/-- Who is still to write: a background flow or a submit with a report of success. -/
def Succeeds (s : State) : Prop :=
  (∃ report, s.background = .reporting report ∧ report.state = .done) ∨
    ∃ i report, s.submits i = .reporting report ∧ report.state = .done

structure SettleInv (flow : Flow) (s : State) : Prop where
  early : s.inserted = false → s.entry = none ∧ (∀ i, ¬(s.submits i).Busy) ∧
    s.background ≠ .marking ∧ s.background ≠ .ended true
  unspawned : flow.spawns = false → s.background = .none
  copilot : flow.driver = .copilot → ∀ i, ¬(s.submits i).Busy
  /-- a task that was parted from its background flow: the flow is over, or a submit waits for it -/
  taken : ∀ handle, s.entry = some handle → handle.background = false →
    ¬s.background.Busy ∨ ∃ i, s.submits i = .closing
  once : ∀ i k, (s.submits i).Busy → (s.submits k).Busy → i = k
  /-- where a submit is to write, the background flow is not, or it is just being aborted -/
  apart : ∀ i, (s.submits i).Busy →
    ¬s.background.Busy ∨ (s.submits i = .closing ∧ s.background = .waiting)
  settled : ∀ handle, s.entry = some handle → handle.task.state ≠ .waiting →
    ¬s.background.Busy ∧ ∀ i, ¬(s.submits i).Busy
  stored : StoredSome s → (s.inserted = true ∧ s.entry = none) ∨
    (∃ handle, s.entry = some handle ∧ handle.task.state = .done) ∨ Succeeds s
  report : ∀ report, s.background = .reporting report → report.state ≠ .waiting
  reported : s.background = .marking ∨ s.background = .ended true →
    ∀ handle, s.entry = some handle → handle.task.state ≠ .waiting

theorem start_background (flow : Flow) :
    (start flow).background = .none ∨ (start flow).background = .waiting := by
  unfold start
  cases flow.spawns
  · exact .inl rfl
  · exact .inr rfl

theorem settleInv_start (flow : Flow) : SettleInv flow (start flow) where
  early := fun _ => by
    refine ⟨rfl, fun _ h => h, ?_, ?_⟩
    · rcases start_background flow with h | h <;> rw [h] <;> decide
    · rcases start_background flow with h | h <;> rw [h] <;> decide
  unspawned := fun h => by rw [start, h]; rfl
  copilot := fun _ _ h => h
  taken := fun _ h => by cases h
  once := fun _ _ h => h.elim
  apart := fun _ h => h.elim
  settled := fun _ h => by cases h
  stored := by
    rintro (h | h)
    · cases h
    · cases h
  report := fun report h => by
    rcases start_background flow with hstart | hstart
    · rw [hstart] at h
      cases h
    · rw [hstart] at h
      cases h
  reported := fun _ _ h => by cases h

/-- A step that leaves the state of the task and those who write it alone. -/
structure Still (s s' : State) : Prop where
  inserted : s'.inserted = s.inserted
  log : StoredSome s' → StoredSome s
  entry : ∀ handle', s'.entry = some handle' →
    ∃ handle, s.entry = some handle ∧ handle'.task.state = handle.task.state ∧
      handle'.background = handle.background
  kept : ∀ handle, s.entry = some handle → s'.entry = none ∨
    ∃ handle', s'.entry = some handle' ∧ handle'.task.state = handle.task.state
  background : s'.background = s.background
  submits : ∀ i, (s'.submits i).Busy ∨ (s.submits i).Busy → s'.submits i = s.submits i

variable {flow : Flow} {s s' : State}

theorem Still.busy (h : Still s s') {i : Nat} (hi : (s'.submits i).Busy) : (s.submits i).Busy :=
  h.submits i (.inl hi) ▸ hi

theorem Still.entry_none (h : Still s s') (hnone : s.entry = none) : s'.entry = none := by
  cases hentry : s'.entry with
  | none => rfl
  | some handle' =>
    obtain ⟨handle, hsome, -, -⟩ := h.entry handle' hentry
    rw [hnone] at hsome
    cases hsome

/-- A task in the registry was inserted. -/
theorem SettleInv.inserted (h : SettleInv flow s) {handle : TaskHandle}
    (hentry : s.entry = some handle) : s.inserted = true := by
  cases hinserted : s.inserted with
  | true => rfl
  | false =>
    have hnone := (h.early hinserted).1
    rw [hentry] at hnone
    cases hnone

theorem SettleInv.still (h : SettleInv flow s) (hstill : Still s s') : SettleInv flow s' where
  early := fun hinserted => by
    obtain ⟨hentry, hsubmits, hmarking, hended⟩ := h.early (hstill.inserted ▸ hinserted)
    rw [hstill.background]
    exact ⟨hstill.entry_none hentry, fun i hi => hsubmits i (hstill.busy hi), hmarking, hended⟩
  unspawned := fun hspawns => hstill.background.trans (h.unspawned hspawns)
  copilot := fun hdriver i hi => h.copilot hdriver i (hstill.busy hi)
  taken := fun handle' hentry' hbackground => by
    obtain ⟨handle, hentry, -, heq⟩ := hstill.entry handle' hentry'
    rw [hstill.background]
    refine (h.taken handle hentry (heq ▸ hbackground)).imp id ?_
    rintro ⟨i, hi⟩
    exact ⟨i, (hstill.submits i (.inr (by rw [hi]; trivial))).trans hi⟩
  once := fun i k hi hk => h.once i k (hstill.busy hi) (hstill.busy hk)
  apart := fun i hi => by
    rw [hstill.background, hstill.submits i (.inl hi)]
    exact h.apart i (hstill.busy hi)
  settled := fun handle' hentry' hstate => by
    obtain ⟨handle, hentry, heq, -⟩ := hstill.entry handle' hentry'
    obtain ⟨hbackground, hsubmits⟩ := h.settled handle hentry (heq ▸ hstate)
    rw [hstill.background]
    exact ⟨hbackground, fun i hi => hsubmits i (hstill.busy hi)⟩
  stored := fun hstored => by
    rcases h.stored (hstill.log hstored) with ⟨hinserted, hentry⟩ | ⟨handle, hentry, hdone⟩ | hsucceeds
    · exact .inl ⟨hstill.inserted ▸ hinserted, hstill.entry_none hentry⟩
    · rcases hstill.kept handle hentry with hnone | ⟨handle', hentry', heq⟩
      · exact .inl ⟨hstill.inserted ▸ h.inserted hentry, hnone⟩
      · exact .inr (.inl ⟨handle', hentry', heq.trans hdone⟩)
    · refine .inr (.inr ?_)
      rcases hsucceeds with ⟨report, hreporting, hdone⟩ | ⟨i, report, hreporting, hdone⟩
      · exact .inl ⟨report, hstill.background.trans hreporting, hdone⟩
      · refine .inr ⟨i, report, (hstill.submits i (.inr ?_)).trans hreporting, hdone⟩
        rw [hreporting]
        trivial
  report := fun report hreporting => h.report report (hstill.background ▸ hreporting)
  reported := fun hover handle' hentry' => by
    obtain ⟨handle, hentry, heq, -⟩ := hstill.entry handle' hentry'
    rw [heq]
    exact h.reported (hstill.background ▸ hover) handle hentry

/-! ## Steps that leave the state alone -/

theorem still_updateTask {f : SignInTask → SignInTask} (hf : ∀ task, (f task).state = task.state) :
    Still s (s.updateTask f) where
  inserted := rfl
  log := id
  entry := fun handle' h => by
    obtain ⟨handle, hentry, rfl⟩ := Option.map_eq_some_iff.mp h
    exact ⟨handle, hentry, hf handle.task, rfl⟩
  kept := fun handle h => .inr ⟨_, by rw [State.updateTask, h, Option.map_some], hf handle.task⟩
  background := rfl
  submits := fun _ _ => rfl

theorem still_markFinished : Still s s.markFinished where
  inserted := rfl
  log := id
  entry := fun handle' h => by
    obtain ⟨handle, hentry, rfl⟩ := Option.map_eq_some_iff.mp h
    exact ⟨handle, hentry, rfl, rfl⟩
  kept := fun handle h => .inr ⟨{ handle with finishedAt := some s.now },
    by rw [State.markFinished, h, Option.map_some], rfl⟩
  background := rfl
  submits := fun _ _ => rfl

theorem still_prune : Still s s.prune where
  inserted := rfl
  log := id
  entry := fun handle' h => ⟨handle', (Option.filter_eq_some_iff.mp h).1, rfl, rfl⟩
  kept := fun handle h => by
    cases hentry : s.prune.entry with
    | none => exact .inl rfl
    | some handle' =>
      have hsome := (Option.filter_eq_some_iff.mp hentry).1
      rw [h] at hsome
      cases hsome
      exact .inr ⟨handle, rfl, rfl⟩
  background := rfl
  submits := fun _ _ => rfl

/-- A submit moves on that writes nothing, and did not before. -/
theorem still_setSubmit {i : Nat} {pc : Submit} (hold : ¬(s.submits i).Busy) (hnew : ¬pc.Busy) :
    Still s (s.setSubmit i pc) where
  inserted := rfl
  log := id
  entry := fun handle h => ⟨handle, h, rfl, rfl⟩
  kept := fun handle h => .inr ⟨handle, h, rfl⟩
  background := rfl
  submits := fun k hk => by
    by_cases hki : k = i
    · subst hki
      rw [State.setSubmit_self] at hk
      exact (hk.elim hnew hold).elim
    · exact State.setSubmit_of_ne s pc hki

theorem Still.trans {s'' : State} (h : Still s s') (h' : Still s' s'') : Still s s'' where
  inserted := h'.inserted.trans h.inserted
  log := fun hlog => h.log (h'.log hlog)
  entry := fun handle'' h'' => by
    obtain ⟨handle', hentry', hstate', hbackground'⟩ := h'.entry handle'' h''
    obtain ⟨handle, hentry, hstate, hbackground⟩ := h.entry handle' hentry'
    exact ⟨handle, hentry, hstate'.trans hstate, hbackground'.trans hbackground⟩
  kept := fun handle hentry => by
    rcases h.kept handle hentry with hnone | ⟨handle', hentry', heq'⟩
    · exact .inl (h'.entry_none hnone)
    · rcases h'.kept handle' hentry' with hnone | ⟨handle'', hentry'', heq''⟩
      · exact .inl hnone
      · exact .inr ⟨handle'', hentry'', heq''.trans heq'⟩
  background := h'.background.trans h.background
  submits := fun i hi => by
    have hbusy : (s'.submits i).Busy ∨ (s.submits i).Busy := by
      rcases hi with hi | hi
      · exact .inl (h'.submits i (.inl hi) ▸ hi)
      · exact .inr hi
    have hfirst := h.submits i hbusy
    rw [h'.submits i (.inr (hbusy.elim id fun hbusy => hfirst ▸ hbusy)), hfirst]

/-! ## Steps of the background flow -/

/-- Behind a stored credential, no failure is about to be reported. -/
theorem SettleInv.stored_of_quiet (h : SettleInv flow s) (hstored : StoredSome s)
    (hbackground : ∀ report, s.background ≠ .reporting report)
    (hsubmits : ∀ i report, s.submits i ≠ .reporting report) :
    (s.inserted = true ∧ s.entry = none) ∨
      ∃ handle, s.entry = some handle ∧ handle.task.state = .done := by
  rcases h.stored hstored with hgone | hdone | hsucceeds
  · exact .inl hgone
  · exact .inr hdone
  · rcases hsucceeds with ⟨report, hreporting, -⟩ | ⟨i, report, hreporting, -⟩
    · exact absurd hreporting (hbackground report)
    · exact absurd hreporting (hsubmits i report)

theorem not_reporting {pc : Submit} (h : ¬pc.Busy) (report : Report) : pc ≠ .reporting report :=
  fun heq => h (heq ▸ trivial)

/-- A flow that still runs comes to its answer, or to its report. -/
theorem SettleInv.answers (h : SettleInv flow s) {background : Background} {log : List Event}
    (hbusy : s.background.Busy) (hnone : ∀ k, ¬(s.submits k).Busy)
    (hnot : ∀ report, s.background ≠ .reporting report) (hnext : background.Busy)
    (hreport : ∀ report, background = .reporting report → report.state ≠ .waiting)
    (hlog : .stored ∈ log ∨ .pluginStored ∈ log → StoredSome s ∨
      ∃ report, background = .reporting report ∧ report.state = .done) :
    SettleInv flow { s with background := background, log := log } where
  early := fun hinserted => by
    obtain ⟨hentry, hsubmits, -, -⟩ := h.early hinserted
    refine ⟨hentry, hsubmits, fun heq => ?_, fun heq => ?_⟩
    · rw [show background = .marking from heq] at hnext
      exact hnext
    · rw [show background = .ended true from heq] at hnext
      exact hnext
  unspawned := fun hspawns => by
    rw [h.unspawned hspawns] at hbusy
    exact hbusy.elim
  copilot := h.copilot
  taken := fun handle hentry hbackground => by
    rcases h.taken handle hentry hbackground with hover | ⟨i, hi⟩
    · exact absurd hbusy hover
    · exact absurd (by rw [hi]; trivial) (hnone i)
  once := h.once
  apart := fun i hi => absurd hi (hnone i)
  settled := fun handle hentry hstate => absurd hbusy (h.settled handle hentry hstate).1
  stored := fun hstored => by
    rcases hlog hstored with hstored | ⟨report, heq, hdone⟩
    · rcases h.stored_of_quiet hstored hnot fun i => not_reporting (hnone i) with hgone | hdone
      · exact .inl hgone
      · exact .inr (.inl hdone)
    · exact .inr (.inr (.inl ⟨report, heq, hdone⟩))
  report := hreport
  reported := fun hover => by
    rcases hover with heq | heq
    · rw [show background = .marking from heq] at hnext
      exact hnext.elim
    · rw [show background = .ended true from heq] at hnext
      exact hnext.elim

/-- A flow that still runs stops, or has reported. -/
theorem SettleInv.ends (h : SettleInv flow s) {background : Background} (hover : ¬background.Busy)
    (hnot : ∀ report, s.background ≠ .reporting report)
    (hitself : background = .ended true → s.background = .marking)
    (hmarking : background ≠ .marking) (hspawned : s.background ≠ .none) :
    SettleInv flow { s with background := background } where
  early := fun hfalse => by
    obtain ⟨hentry, hsubmits, hmark, -⟩ := h.early hfalse
    exact ⟨hentry, hsubmits, hmarking, fun heq => hmark (hitself heq)⟩
  unspawned := fun hspawns => absurd (h.unspawned hspawns) hspawned
  copilot := h.copilot
  taken := fun _ _ _ => .inl hover
  once := h.once
  apart := fun _ _ => .inl hover
  settled := fun handle hentry hstate => ⟨hover, (h.settled handle hentry hstate).2⟩
  stored := fun hstored => by
    rcases h.stored hstored with hgone | hdone | ⟨report, hreporting, -⟩ | hsubmit
    · exact .inl hgone
    · exact .inr (.inl hdone)
    · exact absurd hreporting (hnot report)
    · exact .inr (.inr (.inr hsubmit))
  report := fun report heq => by
    rw [show background = .reporting report from heq] at hover
    exact absurd trivial hover
  reported := fun hend => by
    rcases hend with heq | heq
    · exact absurd heq hmarking
    · exact h.reported (.inl (hitself heq))

theorem entry_updateTask {f : SignInTask → SignInTask} {handle' : TaskHandle}
    (h : (s.updateTask f).entry = some handle') :
    ∃ handle, s.entry = some handle ∧ handle' = { handle with task := f handle.task } := by
  obtain ⟨handle, hentry, heq⟩ := Option.map_eq_some_iff.mp h
  exact ⟨handle, hentry, heq.symm⟩

/-- The flow reports: nobody else is to write, and what was stored is told. -/
theorem SettleInv.update (h : SettleInv flow s) (hinserted : s.inserted = true)
    (hstep : step flow s .update = some s') : SettleInv flow s' := by
  simp only [step] at hstep
  split at hstep
  · rename_i report hreporting
    cases hstep
    have hnone : ∀ i, ¬(s.submits i).Busy := fun i hi => by
      rcases h.apart i hi with hover | ⟨-, hwaiting⟩
      · exact hover (by rw [hreporting]; trivial)
      · rw [hreporting] at hwaiting
        cases hwaiting
    have hover : ¬(if flow.marks then Background.marking else .ended true).Busy := by
      split <;> exact id
    refine ⟨fun hfalse => ?_, fun hspawns => ?_, h.copilot, fun _ _ _ => .inl hover, h.once,
      fun _ _ => .inl hover, fun _ _ _ => ⟨hover, hnone⟩, fun hstored => ?_, fun report' heq => ?_,
      fun _ handle hentry => ?_⟩
    · exact absurd hinserted (Bool.eq_false_iff.mp hfalse)
    · rw [h.unspawned hspawns] at hreporting
      cases hreporting
    · rcases h.stored hstored with ⟨-, hgone⟩ | ⟨handle, hentry, hdone⟩ | hsucceeds
      · exact .inl ⟨hinserted, by simp only [State.updateTask, hgone, Option.map_none]⟩
      · have hbusy := (h.settled handle hentry (by rw [hdone]; decide)).1
        exact absurd (by rw [hreporting]; trivial) hbusy
      · rcases hsucceeds with ⟨report', heq, hdone⟩ | ⟨i, report', heq, -⟩
        · rw [hreporting] at heq
          cases heq
          cases hentry : s.entry with
          | none => exact .inl ⟨hinserted, by simp only [State.updateTask, hentry, Option.map_none]⟩
          | some handle =>
            refine .inr (.inl ⟨_, by simp only [State.updateTask, hentry, Option.map_some]; rfl, ?_⟩)
            exact hdone
        · exact absurd heq (not_reporting (hnone i) report')
    · exact absurd (by rw [show (if flow.marks then Background.marking else .ended true) =
        .reporting report' from heq]; trivial) hover
    · obtain ⟨handle, -, rfl⟩ := entry_updateTask (s := s) (f := fun task => task.apply report) hentry
      exact h.report report hreporting
  · cases hstep

/-! ## Steps of a submit -/

/-- A submit that is the one to write goes on. -/
theorem SettleInv.goesOn (h : SettleInv flow s) {i : Nat} {pc : Submit} {log : List Event}
    (hbusy : (s.submits i).Busy) (hover : ¬s.background.Busy)
    (hnot : ∀ report, s.submits i ≠ .reporting report)
    (hlog : .stored ∈ log ∨ .pluginStored ∈ log → StoredSome s ∨
      ∃ report, pc = .reporting report ∧ report.state = .done) :
    SettleInv flow { s.setSubmit i pc with log := log } := by
  have hpc : ({ s.setSubmit i pc with log := log } : State).submits i = pc := State.setSubmit_self ..
  have hbusy' : ∀ k, (({ s.setSubmit i pc with log := log } : State).submits k).Busy → k = i := by
    intro k hk
    by_contra hki
    rw [show ({ s.setSubmit i pc with log := log } : State).submits k = s.submits k from
      State.setSubmit_of_ne s pc hki] at hk
    exact hki (h.once k i hk hbusy)
  refine ⟨fun hfalse => ?_, h.unspawned, fun hdriver => ?_, fun _ _ _ => .inl hover,
    fun k l hk hl => ?_, fun _ _ => .inl hover, fun handle hentry hstate => ?_, fun hstored => ?_,
    h.report, h.reported⟩
  · exact absurd hbusy ((h.early hfalse).2.1 i)
  · exact absurd hbusy (h.copilot hdriver i)
  · rw [hbusy' k hk, hbusy' l hl]
  · exact absurd hbusy ((h.settled handle hentry hstate).2 i)
  · rcases hlog hstored with hstored | ⟨report, heq, hdone⟩
    · have hbackground : ∀ report, s.background ≠ .reporting report := fun report heq =>
        hover (heq ▸ trivial)
      have hsubmits : ∀ k report, s.submits k ≠ .reporting report := fun k report heq => by
        have hki := h.once k i (by rw [heq]; trivial) hbusy
        exact hnot report (hki ▸ heq)
      rcases h.stored_of_quiet hstored hbackground hsubmits with hgone | hdone
      · exact .inl hgone
      · exact .inr (.inl hdone)
    · exact .inr (.inr (.inr ⟨i, report, hpc.trans heq, hdone⟩))

/-- A submit takes up what was pasted, while nobody else is to write. -/
theorem SettleInv.takesUp (h : SettleInv flow s) {i : Nat} {pc : Submit} {handle handle' : TaskHandle}
    (aborted : Bool) (hentry : s.entry = some handle) (htask : handle'.task = handle.task)
    (hwaiting : handle.task.state = .waiting) (hdriver : flow.driver ≠ .copilot)
    (hnone : ∀ k, ¬(s.submits k).Busy) (hsettles : ¬s.background.Settles)
    (hapart : ¬s.background.Busy ∨ (pc = .closing ∧ s.background = .waiting)) :
    SettleInv flow { s with
      entry := some handle', aborted := aborted, submits := Function.update s.submits i pc } := by
  have hpc : Function.update s.submits i pc i = pc := Function.update_self ..
  have hbusy : ∀ k, (Function.update s.submits i pc k).Busy → k = i := by
    intro k hk
    by_contra hki
    rw [Function.update_of_ne hki] at hk
    exact hnone k hk
  have hinserted := h.inserted hentry
  have hstate : handle'.task.state = .waiting := by rw [htask, hwaiting]
  refine ⟨fun hfalse => ?_, h.unspawned, fun hcopilot => absurd hcopilot hdriver, fun _ _ _ => ?_,
    fun k l hk hl => ?_, fun k hk => ?_, fun handle'' hentry'' hsettled => ?_, fun hstored => ?_,
    h.report, fun hover => ?_⟩
  · exact absurd hinserted (Bool.eq_false_iff.mp hfalse)
  · exact hapart.imp id fun hclosing => ⟨i, hpc.trans hclosing.1⟩
  · rw [hbusy k hk, hbusy l hl]
  · have hki := hbusy k hk
    subst hki
    exact hapart.imp id fun ⟨hclosing, hwaits⟩ => ⟨hpc.trans hclosing, hwaits⟩
  · cases hentry''
    exact absurd hstate hsettled
  · have hbackground : ∀ report, s.background ≠ .reporting report := fun report heq =>
      hsettles (heq ▸ trivial)
    rcases h.stored_of_quiet hstored hbackground fun k => not_reporting (hnone k) with
      ⟨-, hgone⟩ | ⟨handle'', hentry'', hdone⟩
    · rw [hentry] at hgone
      cases hgone
    · rw [hentry] at hentry''
      cases hentry''
      rw [hwaiting] at hdone
      cases hdone
  · exact absurd hwaiting (h.reported hover handle hentry)

theorem SettleInv.submit (h : SettleInv flow s) {i : Nat} (horder : Orderly flow s (.submit i))
    (hstep : step flow s (.submit i) = some s') : SettleInv flow s' := by
  obtain ⟨hidle, rfl⟩ := by simpa [step] using hstep
  have hquiet : ∀ pc : Submit, ¬pc.Busy → SettleInv flow (s.setSubmit i pc) := fun pc hpc =>
    h.still (still_setSubmit (by rw [hidle]; exact id) hpc)
  unfold look
  split
  · exact hquiet _ id
  · rename_i handle hentry
    split
    · exact hquiet _ id
    · rename_i hwaiting
      have hwaiting : handle.task.state = .waiting := by simpa using hwaiting
      split
      · exact hquiet _ id
      · exact hquiet _ id
      · -- a plugin's code flow has no background flow
        rename_i hdriver
        obtain ⟨hnone, hsettles⟩ := horder (by rw [hdriver]; decide) (by rw [hdriver]; decide)
        have hspawns : flow.spawns = false := by
          revert hdriver
          cases flow <;> decide
        have hover : ¬s.background.Busy := by rw [h.unspawned hspawns]; exact id
        have htaken : SettleInv flow { s with
            entry := some handle, submits := Function.update s.submits i .intoPlugin } :=
          h.takesUp s.aborted hentry rfl hwaiting (by rw [hdriver]; decide) hnone hsettles
            (.inl hover)
        rw [← hentry] at htaken
        exact htaken
      · rename_i hcopilot hclaude hplugin
        obtain ⟨hnone, hsettles⟩ := horder hcopilot hclaude
        dsimp only
        split
        · refine h.takesUp true hentry rfl hwaiting hcopilot hnone hsettles ?_
          cases hbackground : s.background with
          | waiting => exact .inr ⟨rfl, rfl⟩
          | settling account => exact absurd (by rw [hbackground]; trivial) hsettles
          | reporting report => exact absurd (by rw [hbackground]; trivial) hsettles
          | _ => exact .inl id
        · rename_i hbackground
          refine h.takesUp s.aborted hentry rfl hwaiting hcopilot hnone hsettles (.inl ?_)
          rcases h.taken handle hentry (by simpa using hbackground) with hover | ⟨k, hk⟩
          · exact hover
          · exact absurd (by rw [hk]; trivial) (hnone k)

/-- A submit reports: nobody else is to write, and what was stored is told. -/
theorem SettleInv.submitUpdate (h : SettleInv flow s) {i : Nat}
    (hstep : step flow s (.submitUpdate i) = some s') : SettleInv flow s' := by
  simp only [step] at hstep
  split at hstep
  · rename_i report hreporting
    cases hstep
    have hbusy : (s.submits i).Busy := by rw [hreporting]; trivial
    have hover : ¬s.background.Busy := by
      rcases h.apart i hbusy with hover | ⟨hclosing, -⟩
      · exact hover
      · rw [hreporting] at hclosing
        cases hclosing
    have hnext : ¬(if flow.driver = .plugin then Submit.marking else .reading).Busy := by
      split <;> exact id
    have hnone : ∀ k, ¬(Function.update s.submits i
        (if flow.driver = .plugin then Submit.marking else .reading) k).Busy := by
      intro k hk
      by_cases hki : k = i
      · subst hki
        rw [Function.update_self] at hk
        exact hnext hk
      · rw [Function.update_of_ne hki] at hk
        exact hki (h.once k i hk hbusy)
    have hinserted : s.inserted = true := by
      cases hcase : s.inserted with
      | true => rfl
      | false => exact absurd hbusy ((h.early hcase).2.1 i)
    refine ⟨fun hfalse => ?_, h.unspawned, fun _ => hnone, fun _ _ _ => .inl hover,
      fun k l hk => absurd hk (hnone k), fun k hk => absurd hk (hnone k), fun _ _ _ => ⟨hover, hnone⟩,
      fun hstored => ?_, h.report, fun hend handle' hentry' => ?_⟩
    · exact absurd hinserted (Bool.eq_false_iff.mp hfalse)
    · rcases h.stored hstored with ⟨-, hgone⟩ | ⟨handle, hentry, hdone⟩ | hsucceeds
      · exact .inl ⟨hinserted, by simp only [State.setSubmit, State.updateTask, hgone, Option.map_none]⟩
      · exact absurd hbusy ((h.settled handle hentry (by rw [hdone]; decide)).2 i)
      · rcases hsucceeds with ⟨report', heq, -⟩ | ⟨k, report', heq, hdone⟩
        · exact absurd (by rw [heq]; trivial) hover
        · have hki := h.once k i (by rw [heq]; trivial) hbusy
          subst hki
          rw [hreporting] at heq
          cases heq
          cases hentry : s.entry with
          | none =>
            exact .inl ⟨hinserted,
              by simp only [State.setSubmit, State.updateTask, hentry, Option.map_none]⟩
          | some handle =>
            refine .inr (.inl ⟨{ handle with task := handle.task.apply report }, ?_, hdone⟩)
            simp only [State.setSubmit, State.updateTask, hentry, Option.map_some]
    · -- the background flow has reported: the task was settled before, and no submit was to write
      obtain ⟨handle, hentry, -⟩ := entry_updateTask (s := s) (f := fun task => task.apply report) hentry'
      exact absurd hbusy ((h.settled handle hentry (h.reported hend handle hentry)).2 i)
  · cases hstep

/-! ## Every step -/

theorem SettleInv.insert (h : SettleInv flow s) {url code : String}
    (hstep : step flow s (.insert url code) = some s') : SettleInv flow s' := by
  simp only [step] at hstep
  split at hstep
  · cases hstep
  · rename_i hnew
    cases hstep
    obtain ⟨hentry, hsubmits, hmarking, hended⟩ := h.early (Bool.not_eq_true _ ▸ hnew)
    refine ⟨fun hfalse => (by cases hfalse), h.unspawned, h.copilot, fun handle hsome hbackground => ?_,
      h.once, h.apart, fun handle hsome hstate => ?_, fun hstored => ?_, h.report, fun hover => ?_⟩
    · cases hsome
      refine .inl ?_
      show ¬s.background.Busy
      rw [h.unspawned hbackground]
      exact id
    · cases hsome
      exact absurd rfl hstate
    · rcases h.stored hstored with ⟨hinserted, -⟩ | ⟨handle, hsome, -⟩ | hsucceeds
      · exact absurd hinserted hnew
      · rw [hentry] at hsome
        cases hsome
      · exact .inr (.inr hsucceeds)
    · rcases hover with hover | hover
      · exact absurd hover hmarking
      · exact absurd hover hended

theorem still_cancel {j : Nat} : Still s (remove s j) := by
  have hlog : ∀ {log : List Event}, log = s.log ++ [.canceled] →
      (.stored ∈ log ∨ .pluginStored ∈ log) → StoredSome s := by
    rintro log rfl (hmem | hmem)
    · exact .inl (by simpa using hmem)
    · exact .inr (by simpa using hmem)
  unfold remove
  split
  · exact ⟨rfl, id, fun handle h => ⟨handle, h, rfl, rfl⟩, fun handle h => .inr ⟨handle, h, rfl⟩, rfl,
      fun _ _ => rfl⟩
  · dsimp only
    split
    · exact ⟨rfl, id, fun _ h => (by cases h), fun _ _ => .inl rfl, rfl, fun _ _ => rfl⟩
    · exact ⟨rfl, hlog rfl, fun _ h => (by cases h), fun _ _ => .inl rfl, rfl, fun _ _ => rfl⟩

theorem still_cancelReturn {j : Nat} : Still s ((s.setCancel j (.returned true)).record .canceled) where
  inserted := rfl
  log := by
    rintro (hmem | hmem)
    · exact .inl (by simpa [State.record, State.setCancel] using hmem)
    · exact .inr (by simpa [State.record, State.setCancel] using hmem)
  entry := fun handle h => ⟨handle, h, rfl, rfl⟩
  kept := fun handle h => .inr ⟨handle, h, rfl⟩
  background := rfl
  submits := fun _ _ => rfl

/-- The steps at which a task comes, is taken up or settles. -/
def Act.Settles : Act → Prop
  | .insert _ _ => True
  | .waited _ => True
  | .notStarted _ => True
  | .asked _ _ => True
  | .store _ => True
  | .update => True
  | .mark => True
  | .drop => True
  | .submit _ => True
  | .closed _ => True
  | .exchanged _ _ => True
  | .submitStore _ _ => True
  | .pluginAnswers _ _ _ => True
  | .submitUpdate _ => True
  | _ => False

theorem still_step {act : Act} (hsettles : ¬act.Settles) (horder : Orderly flow s act)
    (hstep : step flow s act = some s') : Still s s' := by
  cases act with
  | codeArrives url code =>
    obtain ⟨-, rfl⟩ := by simpa [step] using hstep
    exact still_updateTask fun _ => rfl
  | cliAnswers i answer =>
    obtain ⟨hpc, rfl⟩ := by simpa [step] using hstep
    cases horder
    exact still_setSubmit (by rw [hpc]; exact id) id
  | submitMark i =>
    obtain ⟨hpc, rfl⟩ := by simpa [step] using hstep
    have hold : ¬(s.markFinished.submits i).Busy := by
      show ¬(s.submits i).Busy
      rw [hpc]
      exact id
    exact still_markFinished.trans (still_setSubmit hold id)
  | submitReturn i =>
    obtain ⟨hpc, rfl⟩ := by simpa [step] using hstep
    have hold : ¬(s.prune.submits i).Busy := by
      show ¬(s.submits i).Busy
      rw [hpc]
      exact id
    exact still_prune.trans (still_setSubmit hold id)
  | cancel j =>
    obtain ⟨-, rfl⟩ := by simpa [step] using hstep
    exact still_cancel
  | cancelReturn j =>
    obtain ⟨-, rfl⟩ := by simpa [step] using hstep
    exact still_cancelReturn
  | status =>
    cases hstep
    exact still_prune
  | pluginStores => exact horder.elim
  | tick =>
    cases hstep
    exact ⟨rfl, id, fun handle h => ⟨handle, h, rfl, rfl⟩, fun handle h => .inr ⟨handle, h, rfl⟩, rfl,
      fun _ _ => rfl⟩
  | _ => exact absurd trivial hsettles

/-- A flow that waits for its answer, and is not being aborted by a submit, has the task to itself. -/
theorem SettleInv.alone (h : SettleInv flow s) (hbusy : s.background.Busy)
    (hclosing : ∀ i, s.submits i ≠ .closing) (i : Nat) : ¬(s.submits i).Busy := by
  intro hi
  rcases h.apart i hi with hover | ⟨heq, -⟩
  · exact hover hbusy
  · exact hclosing i heq

theorem SettleInv.waited (h : SettleInv flow s) {result : Except String Account}
    (horder : Orderly flow s (.waited result)) (hstep : step flow s (.waited result) = some s') :
    SettleInv flow s' := by
  obtain ⟨⟨hwaiting, -⟩, rfl⟩ := by simpa [step] using hstep
  have hbusy : s.background.Busy := by rw [hwaiting]; trivial
  have hnot : ∀ report, s.background ≠ .reporting report := fun report heq => by
    rw [hwaiting] at heq
    cases heq
  cases result with
  | ok account =>
    exact h.answers hbusy (h.alone hbusy horder) hnot trivial (fun _ heq => by cases heq) .inl
  | error why =>
    refine h.answers hbusy (h.alone hbusy horder) hnot trivial (fun report heq => ?_) .inl
    cases heq
    exact fun heq => by cases heq

theorem SettleInv.notStarted (h : SettleInv flow s) {why : String}
    (hstep : step flow s (.notStarted why) = some s') : SettleInv flow s' := by
  obtain ⟨⟨hwaiting, hcopilot⟩, rfl⟩ := by simpa [step] using hstep
  refine h.answers (by rw [hwaiting]; trivial) (h.copilot (by rw [hcopilot]; rfl)) ?_ trivial ?_ .inl
  · intro report heq
    rw [hwaiting] at heq
    cases heq
  · intro report heq
    cases heq
    exact fun heq => by cases heq

theorem SettleInv.asked (h : SettleInv flow s) {stores : Bool} {answer : Asked}
    (horder : Orderly flow s (.asked stores answer))
    (hstep : step flow s (.asked stores answer) = some s') : SettleInv flow s' := by
  simp only [step] at hstep
  split at hstep
  · rename_i hwaiting
    have hbusy : s.background.Busy := by rw [hwaiting.1]; trivial
    have hnone := h.copilot (by rw [hwaiting.2]; rfl)
    have hnot : ∀ report, s.background ≠ .reporting report := fun report heq => by
      rw [hwaiting.1] at heq
      cases heq
    cases stores with
    | true =>
      obtain ⟨user, rfl⟩ := horder.mp rfl
      cases hstep
      refine h.answers hbusy hnone hnot trivial (fun report heq => ?_) fun _ => .inr ⟨_, rfl, rfl⟩
      cases heq
      exact fun heq => by cases heq
    | false =>
      cases answer with
      | ok user => exact absurd (horder.mpr ⟨user, rfl⟩) Bool.false_ne_true
      | again =>
        cases hstep
        exact h
      | failed why =>
        cases hstep
        refine h.answers hbusy hnone hnot trivial (fun report heq => ?_) .inl
        cases heq
        exact fun heq => by cases heq
  · cases hstep

theorem SettleInv.store (h : SettleInv flow s) {outcome : Kept}
    (horder : Orderly flow s (.store outcome)) (hstep : step flow s (.store outcome) = some s') :
    SettleInv flow s' := by
  simp only [step] at hstep
  split at hstep
  · rename_i account hsettling
    cases hstep
    have hbusy : s.background.Busy := by rw [hsettling]; trivial
    have hnone : ∀ i, ¬(s.submits i).Busy := fun i hi => by
      rcases h.apart i hi with hover | ⟨-, hwaiting⟩
      · exact hover hbusy
      · rw [hsettling] at hwaiting
        cases hwaiting
    have hnot : ∀ report, s.background ≠ .reporting report := fun report heq => by
      rw [hsettling] at heq
      cases heq
    cases outcome with
    | kept =>
      refine h.answers hbusy hnone hnot trivial (fun report heq => ?_) fun _ => .inr ⟨_, rfl, rfl⟩
      cases heq
      exact fun heq => by cases heq
    | failed why =>
      refine h.answers hbusy hnone hnot trivial (fun report heq => ?_) .inl
      cases heq
      exact fun heq => by cases heq
    | marked why => exact absurd rfl (horder why)
  · cases hstep

theorem SettleInv.mark (h : SettleInv flow s) (hstep : step flow s .mark = some s') :
    SettleInv flow s' := by
  obtain ⟨hmarking, rfl⟩ := by simpa [step] using hstep
  have hfinished := h.still (still_markFinished (s := s))
  refine hfinished.ends id (fun report heq => ?_) (fun _ => hmarking) (fun heq => by cases heq) ?_
  · rw [show s.background = .reporting report from heq] at hmarking
    cases hmarking
  · show s.background ≠ .none
    rw [hmarking]
    decide

theorem SettleInv.drop (h : SettleInv flow s) (hstep : step flow s .drop = some s') :
    SettleInv flow s' := by
  obtain ⟨⟨hwaiting, -⟩, rfl⟩ := by simpa [step] using hstep
  refine h.ends id (fun report heq => ?_) (fun heq => by cases heq) (fun heq => by cases heq) ?_
  · rw [hwaiting] at heq
    cases heq
  · rw [hwaiting]
    decide

theorem SettleInv.notBusy (h : SettleInv flow s) {i : Nat} (hbusy : (s.submits i).Busy)
    (hpc : s.submits i ≠ .closing) : ¬s.background.Busy := by
  rcases h.apart i hbusy with hover | ⟨hclosing, -⟩
  · exact hover
  · exact absurd hclosing hpc

theorem SettleInv.closed (h : SettleInv flow s) {i : Nat} (hstep : step flow s (.closed i) = some s') :
    SettleInv flow s' := by
  obtain ⟨⟨hpc, hended⟩, rfl⟩ := by simpa [step] using hstep
  have hover : ¬s.background.Busy := by
    intro hbusy
    cases hbackground : s.background <;> rw [hbackground] at hbusy hended
    all_goals first | exact hbusy.elim | cases hended
  refine h.goesOn (by rw [hpc]; trivial) hover (fun report heq => ?_) .inl
  rw [hpc] at heq
  cases heq

theorem SettleInv.exchanged (h : SettleInv flow s) {i : Nat} {result : Except String Account}
    (hstep : step flow s (.exchanged i result) = some s') : SettleInv flow s' := by
  obtain ⟨hpc, rfl⟩ := by simpa [step] using hstep
  have hbusy : (s.submits i).Busy := by rw [hpc]; trivial
  refine h.goesOn hbusy (h.notBusy hbusy (by rw [hpc]; decide)) (fun report heq => ?_) .inl
  rw [hpc] at heq
  cases heq

theorem SettleInv.submitStore (h : SettleInv flow s) {i : Nat} {outcome : Kept}
    (horder : Orderly flow s (.submitStore i outcome))
    (hstep : step flow s (.submitStore i outcome) = some s') : SettleInv flow s' := by
  simp only [step] at hstep
  split at hstep
  · rename_i account hsettling
    cases hstep
    have hbusy : (s.submits i).Busy := by rw [hsettling]; trivial
    have hover := h.notBusy hbusy (by rw [hsettling]; exact fun heq => by cases heq)
    have hnot : ∀ report, s.submits i ≠ .reporting report := fun report heq => by
      rw [hsettling] at heq
      cases heq
    cases outcome with
    | kept => exact h.goesOn hbusy hover hnot fun _ => .inr ⟨_, rfl, rfl⟩
    | failed why => exact h.goesOn hbusy hover hnot .inl
    | marked why => exact absurd rfl (horder why)
  · cases hstep

theorem SettleInv.pluginAnswers (h : SettleInv flow s) {i : Nat} {stores : Bool}
    {answer : Except String String} (horder : Orderly flow s (.pluginAnswers i stores answer))
    (hstep : step flow s (.pluginAnswers i stores answer) = some s') : SettleInv flow s' := by
  simp only [step] at hstep
  split at hstep
  · rename_i hpc
    cases hstep
    have hbusy : (s.submits i).Busy := by rw [hpc]; trivial
    have hover := h.notBusy hbusy (by rw [hpc]; decide)
    have hnot : ∀ report, s.submits i ≠ .reporting report := fun report heq => by
      rw [hpc] at heq
      cases heq
    cases stores with
    | true =>
      obtain ⟨user, rfl⟩ := horder.mp rfl
      exact h.goesOn hbusy hover hnot fun _ => .inr ⟨_, rfl, rfl⟩
    | false => exact h.goesOn hbusy hover hnot .inl
  · cases hstep

theorem SettleInv.step {act : Act} (h : SettleInv flow s) (horder : Orderly flow s act)
    (hstep : step flow s act = some s') : SettleInv flow s' := by
  cases act with
  | insert url code => exact h.insert hstep
  | waited result => exact h.waited horder hstep
  | notStarted why => exact h.notStarted hstep
  | asked stores answer => exact h.asked horder hstep
  | store outcome => exact h.store horder hstep
  | update => exact h.update horder hstep
  | mark => exact h.mark hstep
  | drop => exact h.drop hstep
  | submit i => exact h.submit horder hstep
  | closed i => exact h.closed hstep
  | exchanged i result => exact h.exchanged hstep
  | submitStore i outcome => exact h.submitStore horder hstep
  | pluginAnswers i stores answer => exact h.pluginAnswers horder hstep
  | submitUpdate i => exact h.submitUpdate hstep
  | _ => exact h.still (still_step id horder hstep)

/-! ## Runs -/

/-- A step that writes no state: the task reads as before, or is gone. -/
theorem state_of_step {act : Act} (h : SettleInv flow s) (horder : Orderly flow s act)
    (hstep : step flow s act = some s') {handle handle' : TaskHandle} (hentry : s.entry = some handle)
    (hentry' : s'.entry = some handle') (hstate : handle.task.state ≠ .waiting) :
    handle'.task.state = handle.task.state := by
  obtain ⟨hbackground, hsubmits⟩ := h.settled handle hentry hstate
  have hsame : s'.entry = s.entry → handle'.task.state = handle.task.state := fun heq => by
    rw [heq, hentry] at hentry'
    cases hentry'
    rfl
  cases act with
  | insert url code =>
    simp only [step, h.inserted hentry, if_true] at hstep
    cases hstep
  | waited result =>
    obtain ⟨-, rfl⟩ := by simpa [step] using hstep
    exact hsame rfl
  | notStarted why =>
    obtain ⟨-, rfl⟩ := by simpa [step] using hstep
    exact hsame rfl
  | asked stores answer =>
    simp only [step] at hstep
    split at hstep
    · rename_i hwaiting
      rw [hwaiting.1] at hbackground
      exact absurd trivial hbackground
    · cases hstep
  | store outcome =>
    simp only [step] at hstep
    split at hstep
    · rename_i account hsettling
      rw [hsettling] at hbackground
      exact absurd trivial hbackground
    · cases hstep
  | update =>
    simp only [step] at hstep
    split at hstep
    · rename_i report hreporting
      rw [hreporting] at hbackground
      exact absurd trivial hbackground
    · cases hstep
  | mark =>
    obtain ⟨-, rfl⟩ := by simpa [step] using hstep
    obtain ⟨handle₀, hentry₀, heq, -⟩ := (still_markFinished (s := s)).entry handle' hentry'
    rw [hentry] at hentry₀
    cases hentry₀
    exact heq
  | drop =>
    obtain ⟨-, rfl⟩ := by simpa [step] using hstep
    exact hsame rfl
  | submit i =>
    obtain ⟨-, rfl⟩ := by simpa [step] using hstep
    refine hsame ?_
    simp only [look, hentry, if_pos hstate]
    exact hentry
  | closed i =>
    obtain ⟨-, rfl⟩ := by simpa [step] using hstep
    exact hsame rfl
  | exchanged i result =>
    obtain ⟨-, rfl⟩ := by simpa [step] using hstep
    exact hsame rfl
  | submitStore i outcome =>
    simp only [step] at hstep
    split at hstep
    · rename_i account hsettling
      exact absurd (by rw [hsettling]; trivial) (hsubmits i)
    · cases hstep
  | pluginAnswers i stores answer =>
    simp only [step] at hstep
    split at hstep
    · rename_i hpc
      exact absurd (by rw [hpc]; trivial) (hsubmits i)
    · cases hstep
  | submitUpdate i =>
    simp only [step] at hstep
    split at hstep
    · rename_i report hreporting
      exact absurd (by rw [hreporting]; trivial) (hsubmits i)
    · cases hstep
  | _ =>
    obtain ⟨handle₀, hentry₀, heq, -⟩ := (still_step id horder hstep).entry handle' hentry'
    rw [hentry] at hentry₀
    cases hentry₀
    exact heq

theorem settleInv_of_run {acts : List Act}
    (horder : Meets (step flow) (Orderly flow) (start flow) acts)
    (hrun : run (step flow) (start flow) acts = some s) : SettleInv flow s :=
  invariant (fun _ _ _ h hcond hstep => SettleInv.step h hcond hstep) (settleInv_start flow) horder hrun

/-- A settled state stays for as long as the task can be read. -/
theorem state_of_run {acts : List Act} (h : SettleInv flow s)
    (horder : Meets (step flow) (Orderly flow) s acts) (hrun : run (step flow) s acts = some s')
    {handle handle' : TaskHandle} (hentry : s.entry = some handle) (hentry' : s'.entry = some handle')
    (hstate : handle.task.state ≠ .waiting) : handle'.task.state = handle.task.state := by
  have hkept := @invariant _ _ (step flow) (Orderly flow)
    (fun t => SettleInv flow t ∧ t.inserted = true ∧
      ∀ handle', t.entry = some handle' → handle'.task.state = handle.task.state)
    (fun t act t' ht hcond hstep => ?_) _ _ _ ⟨h, h.inserted hentry, fun handle'' hentry'' => ?_⟩
    horder hrun
  · exact hkept.2.2 handle' hentry'
  · obtain ⟨hinv, hinserted, hstates⟩ := ht
    cases hentryt : t.entry with
    | none =>
      obtain ⟨hinserted', hnone⟩ := entry_none_of_step hinserted hentryt hstep
      refine ⟨hinv.step hcond hstep, hinserted', fun handle'' hentry'' => ?_⟩
      rw [hnone] at hentry''
      cases hentry''
    | some handle₀ =>
      have hstate₀ := hstates handle₀ hentryt
      refine ⟨hinv.step hcond hstep, inserted_of_step hinserted hstep, fun handle'' hentry'' => ?_⟩
      rw [state_of_step hinv hcond hstep hentryt hentry'' (hstate₀ ▸ hstate), hstate₀]
  · rw [hentry] at hentry''
    cases hentry''
    rfl

/-- **What callers read, in an orderly run**: a settled state stays, it is `done` when a credential was
stored, and a background flow that came to its end is reported. -/
theorem orderly_reported (flow : Flow) (acts : List Act)
    (horder : Meets (step flow) (Orderly flow) (start flow) acts) : Reported flow acts where
  stays := fun before after s s' hacts hbefore hafter handle handle' hentry hentry' hstate => by
    subst hacts
    obtain ⟨hmeets, hrest⟩ := horder.append
    exact state_of_run (settleInv_of_run hmeets hbefore) (hrest s hbefore) hafter hentry hentry' hstate
  stored := fun s hrun hstored handle hentry hstate => by
    have h := settleInv_of_run horder hrun
    obtain ⟨hbackground, hsubmits⟩ := h.settled handle hentry hstate
    rcases h.stored_of_quiet hstored (fun report heq => hbackground (heq ▸ trivial))
      (fun i => not_reporting (hsubmits i)) with ⟨-, hgone⟩ | ⟨handle', hentry', hdone⟩
    · rw [hentry] at hgone
      cases hgone
    · rw [hentry] at hentry'
      cases hentry'
      exact hdone
  settled := fun s hrun hended => (settleInv_of_run horder hrun).reported (.inr hended)

/-- Two callers submit at once, and the one whose paste is refused comes last. -/
def submittedTwice : List Act :=
  [.insert "https://auth.openai.com" "", .submit 0, .submit 1,
    .exchanged 0 (.ok ⟨"codex:me", "me", "plus"⟩), .submitStore 0 .kept, .submitUpdate 0,
    .exchanged 1 (.error "state mismatch"), .submitUpdate 1]

/-- A sign-in that was stored and read `done` reads `failed` afterwards. -/
theorem done_overwritten : ¬∀ (flow : Flow) (acts : List Act), Reported flow acts := by
  intro h
  have hrun : run (step .codexPaste) (start .codexPaste) submittedTwice = some _ := rfl
  have hdone := (h .codexPaste submittedTwice).stored _ hrun (.inl List.mem_cons_self) _ rfl
  exact absurd (hdone (by decide)) (by decide)

/-- A flow that comes to its end before its task is in the registry is never reported. -/
example : ¬Reported .google [.waited (.error "timeout"), .update, .mark,
    .insert "https://accounts.google.com" ""] := by
  intro h
  have hrun : run (step .google) (start .google) [.waited (.error "timeout"), .update, .mark,
    .insert "https://accounts.google.com" ""] = some _ := rfl
  exact h.settled _ hrun rfl _ rfl rfl

theorem orderly_reported_google : Reported .google
    [.insert "https://accounts.google.com" "", .waited (.ok ⟨"gemini:me", "me", ""⟩), .store .kept,
      .update, .mark] := by
  refine orderly_reported .google _ ?_
  refine Meets.cons trivial rfl (Meets.cons ?_ rfl (Meets.cons ?_ rfl (Meets.cons rfl rfl
    (Meets.cons trivial rfl trivial))))
  · exact fun i heq => by cases heq
  · exact fun why heq => by cases heq

end AnyConverter.SignInTasks
