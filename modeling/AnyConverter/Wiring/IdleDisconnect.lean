import AnyConverter.Wiring.Edit.Presence
import AnyConverter.Wiring.FailedConnect

/-!
# A disconnect of an agent that is not connected

With nothing in the stash a disconnect takes every managed key for ours.

* `disconnectAll_extractsNothing`, `extractsNothing_of_same`: when the extraction leaves the files;
* `restoreFiles_restoresNothing`, `restoreFiles_calm`: when the restore leaves them;
* `idleDisconnect_iff`: a disconnect of an agent with an empty stash changes no covered file,
  whatever fails on the way, exactly if there was nothing to extract and nothing to restore.
-/

set_option autoImplicit false

namespace AnyConverter

/-! ## What a disconnect meets -/

/-- The stash has no value of the agent: it was never connected, or is disconnected again. -/
def NotConnected (spec : AgentSpec) (d : Disk) : Prop :=
  Stash.oldValues (d.stash.load false) spec.id = []

/-- What one step does when the stash is empty. -/
inductive StepEffect where
  /-- the file is no UTF-8, or its editor refuses it -/
  | stops
  | leaves
  | changes
  deriving DecidableEq

def stepEffect (d : Disk) : DisconnectStep → StepEffect
  | .edit path change =>
    match d.file path with
    | none => .leaves
    | some (.binary _) => .stops
    | some (.text s) =>
      match change [] s with
      | .error _ => .stops
      | .ok s' => if s' = s then .leaves else .changes
  | .remove path => if (d.file path).isNone then .leaves else .changes

/-- No step has anything to take out, up to the first that stops. -/
def ExtractsNothing (d : Disk) : List DisconnectStep → Prop
  | [] => True
  | step :: steps =>
    match stepEffect d step with
    | .stops => True
    | .leaves => ExtractsNothing d steps
    | .changes => False

/-- Some step stops. -/
def ExtractionFails (d : Disk) (steps : List DisconnectStep) : Prop :=
  ∃ step ∈ steps, stepEffect d step = .stops

/-- No kept backup takes the place of the file, and no marker removes it. -/
def RestoresNothing (libs : Libraries) (d : Disk) (path : String) : Prop :=
  match d.backup path, d.file path with
  | some backup, some current =>
    current = backup ∨ semanticallyEqual libs path current backup = false
  | none, some current => d.absent path = false ∨ isEmptyDocument libs path current = false
  | _, none => True

/-- The supported agents. -/
inductive Agent where
  | claude
  | codex
  | gemini
  | pi
  deriving DecidableEq

def Agent.spec (libs : Libraries) (ctx : HomeCtx) : Agent → AgentSpec
  | claude => ClaudeSpec.spec libs ctx
  | codex => CodexSpec.spec libs ctx
  | gemini => GeminiSpec.spec libs ctx
  | pi => PiSpec.spec libs ctx

theorem allSpecs_eq (libs : Libraries) (ctx : HomeCtx) :
    allSpecs libs ctx = [.claude, .codex, .gemini, .pi].map (Agent.spec libs ctx) :=
  rfl

/-- What a disconnect takes for ours in the text of a file: a key it manages.  The configuration of
Codex is printed anew, and so is the list of models of Pi; there the text is ours unless that gives
it back. -/
def Agent.Ours (libs : Libraries) (ctx : HomeCtx) : Agent → String → String → Prop
  | claude, _, text => ∃ key ∈ ClaudeSpec.ourKeys, JsonEdit.finds libs.codec text key = true
  | codex, path, text =>
    if path = CodexSpec.configPath ctx then CodexSpec.extractConfig libs [] text ≠ .ok text
    else JsonEdit.finds libs.codec text "OPENAI_API_KEY" = true
  | gemini, path, text =>
    if path = GeminiSpec.envPath ctx then
      ∃ line ∈ Text.splitInclusive (splitBom text.toList).2,
        EnvEdit.assigns GeminiSpec.envKeys line = true
    else JsonEdit.finds libs.codec text GeminiSpec.selectedType = true
  | pi, path, text =>
    if path = PiSpec.modelsPath ctx then
      JsonEdit.finds libs.codec text "providers.any-converter" = true
    else PiSpec.extractSettings libs.codec [] text ≠ .ok text

/-- No file holds anything of ours, up to the first that is refused. -/
def NothingOurs (ours : String → String → Prop) (d : Disk) : List DisconnectStep → Prop
  | [] => True
  | .edit path change :: steps =>
    match d.file path with
    | none => NothingOurs ours d steps
    | some (.binary _) => True
    | some (.text text) =>
      (∃ e, change [] text = .error e) ∨ (¬ours path text ∧ NothingOurs ours d steps)
  | .remove path :: steps => d.file path = none ∧ NothingOurs ours d steps

/-- There is nothing to take out, and, when no file is refused, nothing to put back. -/
def Spared (libs : Libraries) (ctx : HomeCtx) (agent : Agent) (d : Disk) : Prop :=
  let spec := agent.spec libs ctx
  NothingOurs (agent.Ours libs ctx) d spec.disconnectSteps ∧
    (¬ExtractionFails d spec.disconnectSteps →
      ∀ path ∈ spec.configFiles, RestoresNothing libs d path)

/-- Whether an edit finds something of ours decides whether it gives the text back. -/
def FindsOurs (ours : String → String → Prop) : DisconnectStep → Prop
  | .edit path change => ∀ text text', change [] text = .ok text' → (text' = text ↔ ¬ours path text)
  | .remove _ => True

theorem nothingOurs_iff {ours : String → String → Prop} {d : Disk} {steps : List DisconnectStep}
    (h : ∀ step ∈ steps, FindsOurs ours step) :
    NothingOurs ours d steps ↔ ExtractsNothing d steps := by
  induction steps with
  | nil => exact Iff.rfl
  | cons step steps ih =>
    have hrest := ih fun other hother => h other (List.mem_cons_of_mem _ hother)
    have hfirst := h step List.mem_cons_self
    cases step with
    | remove path =>
      cases hfile : d.file path with
      | none => simp [NothingOurs, ExtractsNothing, stepEffect, hfile, hrest]
      | some content => simp [NothingOurs, ExtractsNothing, stepEffect, hfile]
    | edit path change =>
      cases hfile : d.file path with
      | none => simp [NothingOurs, ExtractsNothing, stepEffect, hfile, hrest]
      | some content =>
        cases content with
        | binary bytes => simp [NothingOurs, ExtractsNothing, stepEffect, hfile]
        | text text =>
          cases hchange : change [] text with
          | error e => simp [NothingOurs, ExtractsNothing, stepEffect, hfile, hchange]
          | ok text' =>
            have hsame := hfirst text text' hchange
            by_cases heq : text' = text
            · have hnone := hsame.mp heq
              simp [NothingOurs, ExtractsNothing, stepEffect, hfile, hchange, heq, hnone, hrest]
            · have hours : ours path text := by
                by_contra hnone
                exact heq (hsame.mpr hnone)
              simp [NothingOurs, ExtractsNothing, stepEffect, hfile, hchange, heq, hours]

theorem of_edited {α : Type} {x : Except EditError α} {a : α} (h : edited x = .ok a) :
    x = .ok a := by
  cases x with
  | ok b => exact congrArg Except.ok (Except.ok.inj h)
  | error e => cases h

theorem JsonEdit.edited_del_same_iff {codec : JsonCodec} {text text' key : String}
    (h : edited (JsonEdit.del codec text [key]) = .ok text') :
    text' = text ↔ ¬JsonEdit.finds codec text key = true := by
  rw [JsonEdit.del_same_iff (of_edited h)]
  simp

theorem ClaudeSpec.extract_same_iff {codec : JsonCodec} {text text' : String}
    (h : ClaudeSpec.extract codec [] text = .ok text') :
    text' = text ↔ ¬∃ key ∈ ClaudeSpec.ourKeys, JsonEdit.finds codec text key = true := by
  unfold ClaudeSpec.extract at h
  rw [restoreSets_nil, restoreDeletes_nil] at h
  obtain ⟨next, hset, hdel⟩ := of_bind_ok h
  obtain rfl := JsonEdit.set_nil (of_edited hset)
  rw [JsonEdit.del_same_iff (of_edited hdel)]
  simp

theorem GeminiSpec.extractEnv_same_iff {codec : JsonCodec} {text text' : String}
    (h : GeminiSpec.extractEnv codec [] text = .ok text') :
    text' = text ↔ ¬∃ line ∈ Text.splitInclusive (splitBom text.toList).2,
      EnvEdit.assigns GeminiSpec.envKeys line = true := by
  unfold GeminiSpec.extractEnv at h
  rw [restoreSets_nil, restoreDeletes_nil, EnvEdit.set_nil] at h
  cases h
  rw [EnvEdit.del_same_iff]
  simp

theorem same_iff_of_ok {text text' : String} {result : Except WiringError String}
    (h : result = .ok text') : text' = text ↔ ¬result ≠ .ok text := by
  subst h
  simp

/-- Every edit of an agent leaves its text exactly if it finds nothing of the agent there. -/
theorem Agent.findsOurs (libs : Libraries) (ctx : HomeCtx) (agent : Agent) :
    ∀ step ∈ (agent.spec libs ctx).disconnectSteps, FindsOurs (agent.Ours libs ctx) step := by
  intro step hstep
  cases agent with
  | claude =>
    simp only [Agent.spec, ClaudeSpec.spec, List.mem_singleton] at hstep
    subst hstep
    intro text text' h
    exact ClaudeSpec.extract_same_iff h
  | codex =>
    have hne : CodexSpec.authPath ctx ≠ CodexSpec.configPath ctx :=
      fun heq => absurd (join_inj heq) (by decide)
    simp only [Agent.spec, CodexSpec.spec, List.mem_cons, List.not_mem_nil, or_false] at hstep
    rcases hstep with rfl | rfl | rfl
    · intro text text' h
      simp only [Agent.Ours, if_pos]
      exact same_iff_of_ok h
    · intro text text' h
      simp only [Agent.Ours, if_neg hne]
      exact JsonEdit.edited_del_same_iff h
    · trivial
  | gemini =>
    have hne : GeminiSpec.settingsPath ctx ≠ GeminiSpec.envPath ctx :=
      fun heq => absurd (join_inj heq) (by decide)
    simp only [Agent.spec, GeminiSpec.spec, List.mem_cons, List.not_mem_nil, or_false] at hstep
    rcases hstep with rfl | rfl
    · intro text text' h
      simp only [Agent.Ours, if_pos]
      exact GeminiSpec.extractEnv_same_iff h
    · intro text text' h
      simp only [Agent.Ours, if_neg hne]
      exact JsonEdit.edited_del_same_iff h
  | pi =>
    have hne : PiSpec.settingsPath ctx ≠ PiSpec.modelsPath ctx :=
      fun heq => absurd (join_inj heq) (by decide)
    simp only [Agent.spec, PiSpec.spec, List.mem_cons, List.not_mem_nil, or_false] at hstep
    rcases hstep with rfl | rfl
    · intro text text' h
      simp only [Agent.Ours, if_pos]
      exact JsonEdit.edited_del_same_iff h
    · intro text text' h
      simp only [Agent.Ours, if_neg hne]
      exact same_iff_of_ok h

/-! ## Where the agents write -/

def DisconnectStep.path : DisconnectStep → String
  | .edit path _ => path
  | .remove path => path

/-- A disconnect edits every covered file once, and no other. -/
structure AgentSpec.Tidy (spec : AgentSpec) : Prop where
  files_nodup : spec.configFiles.Nodup
  paths_nodup : (spec.disconnectSteps.map DisconnectStep.path).Nodup
  covered : ∀ step ∈ spec.disconnectSteps, step.path ∈ spec.configFiles

theorem allSpecs_tidy (libs : Libraries) (ctx : HomeCtx) :
    ∀ spec ∈ allSpecs libs ctx, spec.Tidy := by
  have hjoin : ∀ {dir name name' : String}, name ≠ name' → join dir name ≠ join dir name' :=
    fun hne heq => hne (join_inj heq)
  intro spec hspec
  simp only [allSpecs, List.mem_cons, List.not_mem_nil, or_false] at hspec
  rcases hspec with rfl | rfl | rfl | rfl
  · exact ⟨by simp [ClaudeSpec.spec], by simp [ClaudeSpec.spec],
      by simp [ClaudeSpec.spec, DisconnectStep.path]⟩
  · have h1 : CodexSpec.configPath ctx ≠ CodexSpec.authPath ctx := hjoin (by decide)
    have h2 : CodexSpec.configPath ctx ≠ CodexSpec.catalogPath ctx := hjoin (by decide)
    have h3 : CodexSpec.authPath ctx ≠ CodexSpec.catalogPath ctx := hjoin (by decide)
    exact ⟨by simp [CodexSpec.spec, h1, h2, h3],
      by simp [CodexSpec.spec, DisconnectStep.path, h1, h2, h3],
      by simp [CodexSpec.spec, DisconnectStep.path]⟩
  · have h1 : GeminiSpec.envPath ctx ≠ GeminiSpec.settingsPath ctx := hjoin (by decide)
    exact ⟨by simp [GeminiSpec.spec, h1], by simp [GeminiSpec.spec, DisconnectStep.path, h1],
      by simp [GeminiSpec.spec, DisconnectStep.path]⟩
  · have h1 : PiSpec.settingsPath ctx ≠ PiSpec.modelsPath ctx := hjoin (by decide)
    exact ⟨by simp [PiSpec.spec, h1], by simp [PiSpec.spec, DisconnectStep.path, Ne.symm h1],
      by simp [PiSpec.spec, DisconnectStep.path]⟩

/-! ## The extraction -/

section
variable {faults : Faults}

theorem setFile_same {d : Disk} {path : String} {content : Option Content}
    (h : d.file path = content) : d.setFile path content = d := by
  have hfile : update path content d.file = d.file := by
    funext other
    by_cases heq : other = path
    · subst heq
      rw [update_self, h]
    · rw [update_ne heq]
  unfold Disk.setFile
  rw [hfile]

/-- A step writes its own file alone. -/
theorem disconnectStep_other {old : Values} {step : DisconnectStep} {d d' : Disk}
    {written : List String} (h : AgentSpec.disconnectStep faults old step d = .ok (written, d')) :
    d'.backup = d.backup ∧ d'.absent = d.absent ∧
      ∀ other, other ≠ step.path → d'.file other = d.file other := by
  cases step with
  | edit path change =>
    simp only [AgentSpec.disconnectStep, writeConfig] at h
    repeat' split at h
    all_goals first
      | cases h
        done
      | cases h
        exact ⟨rfl, rfl, fun _ _ => rfl⟩
      | rename_i hwrite
        split at hwrite
        · cases hwrite
        · cases hwrite
          cases h
          exact ⟨rfl, rfl, fun other hne => Disk.setFile_ne d hne _⟩
  | remove path =>
    simp only [AgentSpec.disconnectStep] at h
    repeat' split at h
    · cases h
      exact ⟨rfl, rfl, fun _ _ => rfl⟩
    · cases h
    · cases h
      exact ⟨rfl, rfl, fun other hne => Disk.setFile_ne d hne _⟩

theorem disconnectStep_stops {step : DisconnectStep} {d : Disk} (h : stepEffect d step = .stops) :
    ∃ e, AgentSpec.disconnectStep faults [] step d = .error e := by
  cases step with
  | edit path change =>
    simp only [stepEffect] at h
    by_cases hread : faults (.readFile path)
    · exact ⟨_, by simp only [AgentSpec.disconnectStep, readConfig, hread, if_true]; rfl⟩
    · cases hfile : d.file path with
      | none => simp [hfile] at h
      | some content =>
        cases content with
        | binary bytes =>
          exact ⟨_, by simp only [AgentSpec.disconnectStep, readConfig, hread, hfile]; rfl⟩
        | text s =>
          cases hchange : change [] s with
          | error e =>
            exact ⟨e, by simp [AgentSpec.disconnectStep, readConfig, hread, hfile, hchange]⟩
          | ok s' =>
            simp only [hfile, hchange] at h
            by_cases hsame : s' = s
            · simp [hsame] at h
            · simp [hsame] at h
  | remove path =>
    simp only [stepEffect] at h
    by_cases hnone : (d.file path).isNone
    · simp [hnone] at h
    · simp [hnone] at h

theorem disconnectStep_leaves {step : DisconnectStep} {d d' : Disk} {written : List String}
    (heffect : stepEffect d step = .leaves)
    (h : AgentSpec.disconnectStep faults [] step d = .ok (written, d')) : d' = d := by
  cases step with
  | edit path change =>
    simp only [stepEffect] at heffect
    simp only [AgentSpec.disconnectStep, readConfig] at h
    by_cases hread : faults (.readFile path)
    · simp [hread] at h
    · rw [if_neg hread] at h
      cases hfile : d.file path with
      | none =>
        simp only [hfile] at h
        cases h
        rfl
      | some content =>
        cases content with
        | binary bytes => simp [hfile] at h
        | text s =>
          cases hchange : change [] s with
          | error e => simp [hfile, hchange] at h
          | ok s' =>
            have hsame : s' = s := by
              by_contra hne
              simp [hfile, hchange, hne] at heffect
            subst hsame
            simp only [hfile, hchange, writeConfig] at h
            by_cases hwrite : faults (.writeFile path)
            · simp [hwrite] at h
            · rw [if_neg hwrite] at h
              cases h
              exact setFile_same hfile
  | remove path =>
    simp only [stepEffect] at heffect
    have hnone : (d.file path).isNone = true := by
      by_contra hne
      simp [hne] at heffect
    simp only [AgentSpec.disconnectStep, hnone, if_true] at h
    cases h
    rfl

/-- Without a failing disk a step that leaves its file succeeds. -/
theorem disconnectStep_calm_leaves {step : DisconnectStep} {d : Disk}
    (heffect : stepEffect d step = .leaves) :
    ∃ written, AgentSpec.disconnectStep (fun _ => false) [] step d = .ok (written, d) := by
  cases step with
  | edit path change =>
    simp only [stepEffect] at heffect
    cases hfile : d.file path with
    | none => exact ⟨[], by simp [AgentSpec.disconnectStep, readConfig, hfile]⟩
    | some content =>
      cases content with
      | binary bytes => simp [hfile] at heffect
      | text s =>
        cases hchange : change [] s with
        | error e => simp [hfile, hchange] at heffect
        | ok s' =>
          have hsame : s' = s := by
            by_contra hne
            simp [hfile, hchange, hne] at heffect
          subst hsame
          refine ⟨[path], ?_⟩
          simp [AgentSpec.disconnectStep, readConfig, writeConfig, hfile, hchange,
            setFile_same hfile]
  | remove path =>
    have hnone : (d.file path).isNone = true := by
      by_contra hne
      simp [stepEffect, hne] at heffect
    exact ⟨[], by simp only [AgentSpec.disconnectStep, hnone, if_true]⟩

/-- A step that changes something changes its file, when the disk does not fail. -/
theorem disconnectStep_changes {step : DisconnectStep} {d : Disk}
    (heffect : stepEffect d step = .changes) :
    ∃ written d', AgentSpec.disconnectStep (fun _ => false) [] step d = .ok (written, d') ∧
      d'.file step.path ≠ d.file step.path := by
  cases step with
  | edit path change =>
    simp only [stepEffect] at heffect
    cases hfile : d.file path with
    | none => simp [hfile] at heffect
    | some content =>
      cases content with
      | binary bytes => simp [hfile] at heffect
      | text s =>
        cases hchange : change [] s with
        | error e => simp [hfile, hchange] at heffect
        | ok s' =>
          have hne : s' ≠ s := by
            intro heq
            simp [hfile, hchange, heq] at heffect
          refine ⟨[path], d.setFile path (some (.text s')), ?_, ?_⟩
          · simp [AgentSpec.disconnectStep, readConfig, writeConfig, hfile, hchange]
          · rw [DisconnectStep.path, Disk.setFile_self, hfile]
            simpa using hne
  | remove path =>
    simp only [stepEffect] at heffect
    cases hfile : d.file path with
    | none => simp [hfile] at heffect
    | some content =>
      refine ⟨[path], d.setFile path none, ?_, ?_⟩
      · simp [AgentSpec.disconnectStep, hfile]
      · rw [DisconnectStep.path, Disk.setFile_self, hfile]
        simp

/-- **Where there is nothing to extract nothing is written**, and when it succeeds no step stops. -/
theorem disconnectAll_extractsNothing {steps : List DisconnectStep} {d d' : Disk}
    {r : Except WiringError (List String)} (hnothing : ExtractsNothing d steps)
    (h : AgentSpec.disconnectAll faults [] steps d = (r, d')) :
    d' = d ∧ ((∃ written, r = .ok written) → ¬ExtractionFails d steps) := by
  induction steps generalizing d' r with
  | nil =>
    cases h
    refine ⟨rfl, fun _ => ?_⟩
    rintro ⟨step, hstep, -⟩
    cases hstep
  | cons step steps ih =>
    unfold AgentSpec.disconnectAll at h
    cases hstep : AgentSpec.disconnectStep faults [] step d with
    | error e =>
      rw [hstep] at h
      cases h
      refine ⟨rfl, ?_⟩
      rintro ⟨_, hok⟩
      cases hok
    | ok done =>
      obtain ⟨written, d1⟩ := done
      rw [hstep] at h
      unfold ExtractsNothing at hnothing
      cases heffect : stepEffect d step with
      | stops =>
        obtain ⟨e, he⟩ := @disconnectStep_stops faults _ _ heffect
        rw [hstep] at he
        cases he
      | changes =>
        rw [heffect] at hnothing
        exact hnothing.elim
      | leaves =>
        rw [heffect] at hnothing
        obtain rfl : d1 = d := disconnectStep_leaves heffect hstep
        dsimp only at h
        cases hrest : AgentSpec.disconnectAll faults [] steps d1 with
        | mk r1 d2 =>
          obtain ⟨rfl, hfails⟩ := ih hnothing hrest
          rw [hrest] at h
          cases r1 with
          | ok more =>
            cases h
            refine ⟨rfl, fun _ => ?_⟩
            rintro ⟨other, hother, hstops⟩
            rcases List.mem_cons.mp hother with rfl | hin
            · rw [heffect] at hstops
              cases hstops
            · exact hfails ⟨_, rfl⟩ ⟨other, hin, hstops⟩
          | error e =>
            cases h
            refine ⟨rfl, ?_⟩
            rintro ⟨_, hok⟩
            cases hok

theorem disconnectAll_other {old : Values} {steps : List DisconnectStep} {d d' : Disk}
    {r : Except WiringError (List String)}
    (h : AgentSpec.disconnectAll faults old steps d = (r, d')) {other : String}
    (hother : other ∉ steps.map DisconnectStep.path) : d'.file other = d.file other := by
  induction steps generalizing d d' r with
  | nil =>
    cases h
    rfl
  | cons step steps ih =>
    rw [List.map_cons, List.mem_cons, not_or] at hother
    unfold AgentSpec.disconnectAll at h
    cases hstep : AgentSpec.disconnectStep faults old step d with
    | error e =>
      rw [hstep] at h
      cases h
      rfl
    | ok done =>
      obtain ⟨written, d1⟩ := done
      rw [hstep] at h
      dsimp only at h
      have hone := (disconnectStep_other hstep).2.2 other hother.1
      cases hrest : AgentSpec.disconnectAll faults old steps d1 with
      | mk r1 d2 =>
        have hmore := ih hrest hother.2
        rw [hrest] at h
        cases r1 <;> cases h <;> exact hmore.trans hone

/-- When no operation fails and every file is left, there was nothing to extract. -/
theorem extractsNothing_of_same {steps : List DisconnectStep} {d d' : Disk}
    {r : Except WiringError (List String)} (hnodup : (steps.map DisconnectStep.path).Nodup)
    (h : AgentSpec.disconnectAll (fun _ => false) [] steps d = (r, d'))
    (hsame : ∀ step ∈ steps, d'.file step.path = d.file step.path) : ExtractsNothing d steps := by
  induction steps generalizing d d' r with
  | nil => trivial
  | cons step steps ih =>
    rw [List.map_cons, List.nodup_cons] at hnodup
    unfold ExtractsNothing
    unfold AgentSpec.disconnectAll at h
    cases heffect : stepEffect d step with
    | stops => trivial
    | leaves =>
      dsimp only
      obtain ⟨written, hstep⟩ := disconnectStep_calm_leaves heffect
      rw [hstep] at h
      dsimp only at h
      cases hrest : AgentSpec.disconnectAll (fun _ => false) [] steps d with
      | mk r1 d2 =>
        refine ih hnodup.2 hrest ?_
        intro other hother
        rw [hrest] at h
        cases r1 <;> cases h <;> exact hsame other (List.mem_cons_of_mem _ hother)
    | changes =>
      obtain ⟨written, d1, hstep, hne⟩ := disconnectStep_changes heffect
      rw [hstep] at h
      dsimp only at h
      cases hrest : AgentSpec.disconnectAll (fun _ => false) [] steps d1 with
      | mk r1 d2 =>
        have hkeep := disconnectAll_other hrest hnodup.1
        have hd : d'.file step.path = d2.file step.path := by
          rw [hrest] at h
          cases r1 <;> cases h <;> rfl
        exact hne (hkeep.symm.trans (hd.symm.trans (hsame step List.mem_cons_self)))

/-! ## The restore -/

/-- The restore of a file changes nothing of another one. -/
theorem restoreFile_other {libs : Libraries} {d d' : Disk} {path : String} {restored : Restored}
    (h : restoreFile libs faults d path = .ok (restored, d')) {other : String}
    (hne : other ≠ path) :
    d'.file other = d.file other ∧ d'.backup other = d.backup other ∧
      d'.absent other = d.absent other := by
  have hclear : ∀ d : Disk, (d.clear faults path).backup other = d.backup other ∧
      (d.clear faults path).absent other = d.absent other := by
    intro d
    unfold Disk.clear
    constructor
    · dsimp only
      split
      · rfl
      · exact update_ne hne _ _
    · dsimp only
      split
      · rfl
      · exact update_ne hne _ _
  have hset : ∀ content, (d.setFile path content).file other = d.file other :=
    fun content => Disk.setFile_ne d hne content
  unfold restoreFile at h
  repeat' split at h
  all_goals first
    | cases h
      done
    | cases h
      exact ⟨rfl, rfl, rfl⟩
    | cases h
      exact ⟨rfl, hclear _⟩
    | cases h
      exact ⟨hset _, hclear _⟩
    | cases h
      unfold Disk.preserveBad
      split
      · exact ⟨rfl, rfl, rfl⟩
      · exact ⟨rfl, update_ne hne _ _, rfl⟩

/-- A file for which nothing is to be restored stays, whatever fails. -/
theorem restoreFile_restoresNothing {libs : Libraries} {d d' : Disk} {path : String}
    {restored : Restored} (hnothing : RestoresNothing libs d path)
    (h : restoreFile libs faults d path = .ok (restored, d')) : d'.file = d.file := by
  unfold RestoresNothing at hnothing
  unfold restoreFile at h
  split at h
  · cases h
    exact Disk.preserveBad_file _ _ _
  · split at h
    · cases h
    · cases hb : d.backup path with
      | some backup =>
        cases hf : d.file path with
        | some current =>
          simp only [hb, hf] at h hnothing
          split at h
          · cases h
            rfl
          · rename_i hne
            have hdifferent := hnothing.resolve_left hne
            rw [hdifferent, if_neg Bool.false_ne_true] at h
            cases h
            rfl
        | none =>
          simp only [hb, hf] at h
          cases h
          rfl
      | none =>
        cases hf : d.file path with
        | some current =>
          simp only [hb, hf] at h hnothing
          by_cases habsent : d.absent path
          · have hfull := hnothing.resolve_left (by simp [habsent])
            rw [habsent, hfull] at h
            cases h
            rfl
          · simp only [habsent] at h
            cases h
            rfl
        | none =>
          simp only [hb, hf] at h
          split at h <;> cases h <;> rfl

theorem restoreFiles_restoresNothing {libs : Libraries} {files : List String} {d d' : Disk}
    {r : Except WiringError (List (String × Restored))} (hnodup : files.Nodup)
    (hnothing : ∀ path ∈ files, RestoresNothing libs d path)
    (h : restoreFiles libs faults files d = (r, d')) : d'.file = d.file := by
  induction files generalizing d d' r with
  | nil =>
    cases h
    rfl
  | cons first files ih =>
    rw [List.nodup_cons] at hnodup
    unfold restoreFiles at h
    cases hone : restoreFile libs faults d first with
    | error e =>
      rw [hone] at h
      cases h
      rfl
    | ok done =>
      obtain ⟨restored, d1⟩ := done
      rw [hone] at h
      dsimp only at h
      have hfile1 := restoreFile_restoresNothing (hnothing first List.mem_cons_self) hone
      have hrest : ∀ path ∈ files, RestoresNothing libs d1 path := by
        intro path hpath
        have hne : path ≠ first := fun heq => hnodup.1 (heq ▸ hpath)
        obtain ⟨hfile, hbackup, habsent⟩ := restoreFile_other hone hne
        have hsame := hnothing path (List.mem_cons_of_mem _ hpath)
        unfold RestoresNothing at hsame ⊢
        rw [hfile, hbackup, habsent]
        exact hsame
      cases hmore : restoreFiles libs faults files d1 with
      | mk r1 d2 =>
        have hfile2 := ih hnodup.2 hrest hmore
        rw [hmore] at h
        cases r1 <;> cases h <;> exact hfile2.trans hfile1

/-- When no operation fails every file is restored, and one with something to restore changes. -/
theorem restoreFile_calm (libs : Libraries) (d : Disk) (path : String) :
    ∃ restored d', restoreFile libs (fun _ => false) d path = .ok (restored, d') ∧
      (d'.file path = d.file path → RestoresNothing libs d path) := by
  unfold RestoresNothing
  cases hb : d.backup path with
  | some backup =>
    cases hf : d.file path with
    | some current =>
      by_cases hsame : current = backup
      · refine ⟨.settled, d.clear (fun _ => false) path, ?_, fun _ => Or.inl hsame⟩
        simp [restoreFile, hb, hf, hsame]
      · by_cases hequal : semanticallyEqual libs path current backup
        · refine ⟨.settled, (d.setFile path (some backup)).clear (fun _ => false) path, ?_, ?_⟩
          · simp [restoreFile, hb, hf, hsame, hequal]
          · intro hkeep
            rw [Disk.clear_file, Disk.setFile_self] at hkeep
            exact absurd (Option.some.inj hkeep).symm hsame
        · refine ⟨.keptBackup, d, ?_, fun _ => Or.inr (by simpa using hequal)⟩
          simp [restoreFile, hb, hf, hsame, hequal]
    | none =>
      refine ⟨.keptBackup, d, ?_, fun _ => trivial⟩
      simp [restoreFile, hb, hf]
  | none =>
    cases hf : d.file path with
    | some current =>
      by_cases habsent : d.absent path
      · by_cases hempty : isEmptyDocument libs path current
        · refine ⟨.settled, (d.setFile path none).clear (fun _ => false) path, ?_, ?_⟩
          · simp [restoreFile, hb, hf, habsent, hempty]
          · intro hkeep
            rw [Disk.clear_file, Disk.setFile_self] at hkeep
            cases hkeep
        · refine ⟨.keptBackup, d, ?_, fun _ => Or.inr (by simpa using hempty)⟩
          simp [restoreFile, hb, hf, habsent, hempty]
      · refine ⟨.settled, d, ?_, fun _ => Or.inl (by simpa using habsent)⟩
        simp [restoreFile, hb, hf, habsent]
    | none =>
      refine ⟨.settled, if d.absent path then d.clear (fun _ => false) path else d, ?_,
        fun _ => trivial⟩
      simp [restoreFile, hb, hf]

theorem restoreFiles_other {libs : Libraries} {files : List String} {d d' : Disk}
    {r : Except WiringError (List (String × Restored))}
    (h : restoreFiles libs faults files d = (r, d')) {other : String} (hother : other ∉ files) :
    d'.file other = d.file other := by
  induction files generalizing d d' r with
  | nil =>
    cases h
    rfl
  | cons first files ih =>
    rw [List.mem_cons, not_or] at hother
    unfold restoreFiles at h
    cases hone : restoreFile libs faults d first with
    | error e =>
      rw [hone] at h
      cases h
      rfl
    | ok done =>
      obtain ⟨restored, d1⟩ := done
      rw [hone] at h
      dsimp only at h
      have hkeep := (restoreFile_other hone hother.1).1
      cases hmore : restoreFiles libs faults files d1 with
      | mk r1 d2 =>
        have hmoreKeep := ih hmore hother.2
        rw [hmore] at h
        cases r1 <;> cases h <;> exact hmoreKeep.trans hkeep

theorem restoreFiles_calm {libs : Libraries} {files : List String} {d d' : Disk}
    {r : Except WiringError (List (String × Restored))} (hnodup : files.Nodup)
    (h : restoreFiles libs (fun _ => false) files d = (r, d')) :
    (∃ restored, r = .ok restored) ∧
      ∀ path ∈ files, d'.file path = d.file path → RestoresNothing libs d path := by
  induction files generalizing d d' r with
  | nil =>
    cases h
    exact ⟨⟨_, rfl⟩, fun path hpath => absurd hpath List.not_mem_nil⟩
  | cons first files ih =>
    rw [List.nodup_cons] at hnodup
    obtain ⟨restored, d1, hone, hfirst⟩ := restoreFile_calm libs d first
    unfold restoreFiles at h
    rw [hone] at h
    dsimp only at h
    cases hmore : restoreFiles libs (fun _ => false) files d1 with
    | mk r1 d2 =>
      obtain ⟨⟨more, rfl⟩, hrest⟩ := ih hnodup.2 hmore
      rw [hmore] at h
      cases h
      refine ⟨⟨_, rfl⟩, ?_⟩
      intro path hpath hsame
      rcases List.mem_cons.mp hpath with rfl | hin
      · rw [restoreFiles_other hmore hnodup.1] at hsame
        exact hfirst hsame
      · have hne : path ≠ first := fun heq => hnodup.1 (heq ▸ hin)
        obtain ⟨hfile, hbackup, habsent⟩ := restoreFile_other hone hne
        have hnothing := hrest path hin (by rw [hsame, hfile])
        unfold RestoresNothing at hnothing ⊢
        rw [hfile, hbackup, habsent] at hnothing
        exact hnothing

end

/-! ## The whole disconnect -/

theorem loadStash_idle {spec : AgentSpec} {d : Disk} (h : NotConnected spec d) (faults : Faults) :
    Stash.oldValues (loadStash faults d) spec.id = [] := by
  unfold loadStash
  cases hfail : faults .readStash with
  | false => exact h
  | true =>
    cases hstash : d.stash with
    | missing => rfl
    | corrupt => rfl
    | valid a => rfl

/-- The agent's own part of a disconnect: its extraction, and then the stash. -/
theorem specDisconnect_file {faults : Faults} {spec : AgentSpec} {d d1 d2 : Disk}
    (hidle : NotConnected spec d) {r r2 : Except WiringError (List String)}
    (hextract : AgentSpec.disconnectAll faults [] spec.disconnectSteps d = (r, d1))
    (h : spec.disconnect faults d = (r2, d2)) :
    d2.file = d1.file ∧ d2.backup = d1.backup ∧ d2.absent = d1.absent ∧
      ((∃ w, r2 = .ok w) ↔ (∃ w, r = .ok w) ∧ ¬StashFails faults d1) := by
  unfold AgentSpec.disconnect at h
  dsimp only at h
  rw [loadStash_idle hidle, hextract] at h
  cases r with
  | error e =>
    cases h
    refine ⟨rfl, rfl, rfl, ?_, ?_⟩
    · rintro ⟨_, hok⟩
      cases hok
    · rintro ⟨⟨_, hok⟩, -⟩
      cases hok
  | ok written =>
    dsimp only at h
    cases hsave : saveStash faults (Stash.takeNamespace (loadStash faults d) spec.id) d1 with
    | mk r3 d3 =>
      obtain ⟨hiff, hfile, hbackup, habsent, -⟩ := saveStash_error_iff hsave
      rw [hsave] at h
      cases r3 with
      | error e =>
        cases h
        refine ⟨hfile, hbackup, habsent, ?_, ?_⟩
        · rintro ⟨_, hok⟩
          cases hok
        · rintro ⟨-, hworks⟩
          exact absurd (hiff.mp ⟨_, rfl⟩) hworks
      | ok _ =>
        cases h
        refine ⟨hfile, hbackup, habsent, fun _ => ⟨⟨_, rfl⟩, ?_⟩, fun _ => ⟨_, rfl⟩⟩
        intro hfails
        obtain ⟨_, herr⟩ := hiff.mpr hfails
        cases herr

/-- After an agent's own part that failed nothing is written. -/
theorem disconnect_file_error (libs : Libraries) (around : Surroundings) {spec : AgentSpec}
    {d d2 : Disk} {e : WiringError}
    (h : spec.disconnect (around.faults .agent) d = (.error e, d2)) :
    (Wiring.disconnect libs around spec d).2.file = d2.file := by
  unfold Wiring.disconnect
  dsimp only
  rw [h]

/-- After one that succeeded only the restore writes files. -/
theorem disconnect_file_ok (libs : Libraries) (around : Surroundings) {spec : AgentSpec}
    {d d2 : Disk} {written : List String}
    (h : spec.disconnect (around.faults .agent) d = (.ok written, d2)) :
    (Wiring.disconnect libs around spec d).2.file =
      (restoreFiles libs (around.faults .recovery) spec.configFiles d2).2.file := by
  unfold Wiring.disconnect
  dsimp only
  rw [h]
  dsimp only
  cases hrestore : restoreFiles libs (around.faults .recovery) spec.configFiles d2 with
  | mk r3 d3 =>
    cases r3 with
    | error e => rfl
    | ok restored =>
      dsimp only
      cases hstash : saveStash (around.faults .record)
          (Stash.takeNamespace (loadStash (around.faults .record) d3) spec.id) d3 with
      | mk r4 d4 =>
        obtain ⟨-, hfile4, -, -, -⟩ := saveStash_error_iff hstash
        cases r4 with
        | error e => exact hfile4
        | ok _ =>
          dsimp only
          cases happlied : saveApplied (around.faults .record)
              ((loadApplied (around.faults .record) d4).forget spec.id) d4 with
          | mk r5 d5 =>
            have hfile5 : d5.file = d4.file := by
              obtain ⟨-, rfl⟩ := Prod.mk.inj happlied
              rfl
            cases r5 <;> exact hfile5.trans hfile4

/-- An extraction that finds nothing and is not stopped succeeds when no operation fails. -/
theorem disconnectAll_calm_ok {steps : List DisconnectStep} {d : Disk}
    (hnothing : ExtractsNothing d steps) (hsucceeds : ¬ExtractionFails d steps) :
    ∃ written, AgentSpec.disconnectAll (fun _ => false) [] steps d = (.ok written, d) := by
  induction steps with
  | nil => exact ⟨[], rfl⟩
  | cons step steps ih =>
    unfold ExtractsNothing at hnothing
    have hgoes : stepEffect d step ≠ .stops :=
      fun hstops => hsucceeds ⟨step, List.mem_cons_self, hstops⟩
    cases heffect : stepEffect d step with
    | stops => exact absurd heffect hgoes
    | changes =>
      rw [heffect] at hnothing
      exact hnothing.elim
    | leaves =>
      rw [heffect] at hnothing
      have hrest : ¬ExtractionFails d steps := by
        rintro ⟨other, hother, hstops⟩
        exact hsucceeds ⟨other, List.mem_cons_of_mem _ hother, hstops⟩
      obtain ⟨more, hmore⟩ := ih hnothing hrest
      obtain ⟨written, hstep⟩ := disconnectStep_calm_leaves heffect
      refine ⟨written ++ more, ?_⟩
      unfold AgentSpec.disconnectAll
      rw [hstep]
      dsimp only
      rw [hmore]

/-- A disconnect that succeeded leaves its agent idle. -/
theorem idle_of_disconnect {libs : Libraries} {around : Surroundings} {spec : AgentSpec}
    {d d' : Disk} {report : DisconnectReport}
    (h : Wiring.disconnect libs around spec d = (.ok report, d')) : NotConnected spec d' := by
  have hremove : ∀ stash : Stash, Stash.oldValues (Stash.takeNamespace stash spec.id) spec.id = [] := by
    intro stash
    unfold Stash.oldValues Stash.takeNamespace
    have hnone : (removeKey spec.id stash).lookup spec.id = none := by
      rw [List.lookup_eq_none_iff]
      intro p hp
      have hne := (List.mem_filter.mp hp).2
      rw [decide_eq_true_eq] at hne
      simpa using Ne.symm hne
    rw [hnone]
    rfl
  have hsaved : ∀ (s : Store Stash) (stash : Stash) {a b c : Bool} {u : Unit},
      (s.save a b c stash).1 = .ok u → (s.save a b c stash).2.load false = stash := by
    intro s stash a b c u hsave
    cases s <;> cases a <;> cases b <;> cases c <;> first | rfl | cases hsave
  unfold Wiring.disconnect at h
  dsimp only at h
  cases hagent : spec.disconnect (around.faults .agent) d with
  | mk r2 d2 =>
    rw [hagent] at h
    cases r2 with
    | error e => cases h
    | ok written =>
      dsimp only at h
      cases hrestore : restoreFiles libs (around.faults .recovery) spec.configFiles d2 with
      | mk r3 d3 =>
        rw [hrestore] at h
        cases r3 with
        | error e => cases h
        | ok restored =>
          dsimp only at h
          cases hstash : saveStash (around.faults .record)
              (Stash.takeNamespace (loadStash (around.faults .record) d3) spec.id) d3 with
          | mk r4 d4 =>
            rw [hstash] at h
            obtain ⟨hresult, rfl⟩ := Prod.mk.inj hstash
            cases r4 with
            | error e => cases h
            | ok _ =>
              dsimp only at h
              have hload := hsaved _ _ hresult
              cases happlied : saveApplied (around.faults .record)
                  ((loadApplied (around.faults .record) _).forget spec.id) _ with
              | mk r5 d5 =>
                rw [happlied] at h
                obtain ⟨-, rfl⟩ := Prod.mk.inj happlied
                cases r5 with
                | error e => cases h
                | ok _ =>
                  cases h
                  unfold NotConnected
                  dsimp only
                  rw [hload]
                  exact hremove _

/-- A restore that reads no backup changes no file. -/
theorem restoreFiles_blind (libs : Libraries) (files : List String) (d : Disk) :
    (restoreFiles libs (fun _ => true) files d).2.file = d.file := by
  induction files generalizing d with
  | nil => rfl
  | cons first files ih =>
    have hfirst : restoreFile libs (fun _ => true) d first =
        .ok (.backupCorrupt, d.preserveBad (fun _ => true) first) := rfl
    unfold restoreFiles
    rw [hfirst]
    dsimp only
    have hrest := ih (d.preserveBad (fun _ => true) first)
    rw [Disk.preserveBad_file] at hrest
    cases hmore : restoreFiles libs (fun _ => true) files (d.preserveBad (fun _ => true) first) with
    | mk r1 d1 =>
      rw [hmore] at hrest
      cases r1 <;> exact hrest

/-- **A disconnect of an idle agent changes no covered file, whatever fails on the way, exactly if
there was nothing to extract and nothing to restore.** -/
theorem idleDisconnect_iff (libs : Libraries) (ctx : HomeCtx) (agent : Agent) (d : Disk)
    (hidle : NotConnected (agent.spec libs ctx) d) :
    (∀ around, ∀ path ∈ (agent.spec libs ctx).configFiles,
      (Wiring.disconnect libs around (agent.spec libs ctx) d).2.file path = d.file path) ↔
      Spared libs ctx agent d := by
  have hours := agent.findsOurs libs ctx
  have hspec : agent.spec libs ctx ∈ allSpecs libs ctx := by
    rw [allSpecs_eq]
    exact List.mem_map_of_mem (by cases agent <;> decide)
  unfold Spared
  dsimp only
  rw [nothingOurs_iff hours]
  generalize agent.spec libs ctx = spec at hidle hspec ⊢
  have htidy := allSpecs_tidy libs ctx spec hspec
  constructor
  · intro hsame
    have hextracts : ExtractsNothing d spec.disconnectSteps := by
      -- with a recovery that reads no backup only the extraction can change a file
      let blind : Surroundings := ⟨fun phase _ => phase == .recovery, 0⟩
      cases hextract : AgentSpec.disconnectAll (fun _ => false) [] spec.disconnectSteps d with
      | mk r d1 =>
        cases hagent : spec.disconnect (fun _ => false) d with
        | mk r2 d2 =>
          obtain ⟨hfile2, -, -, -⟩ := specDisconnect_file hidle hextract hagent
          refine extractsNothing_of_same htidy.paths_nodup hextract ?_
          intro step hstep
          rw [← hsame blind step.path (htidy.covered step hstep), ← hfile2]
          cases r2 with
          | error e => rw [disconnect_file_error libs blind hagent]
          | ok written =>
            rw [disconnect_file_ok libs blind hagent]
            exact (congrFun (restoreFiles_blind libs spec.configFiles d2) _).symm
    refine ⟨hextracts, ?_⟩
    intro hsucceeds path hpath
    obtain ⟨written, hextract⟩ := disconnectAll_calm_ok hextracts hsucceeds
    cases hagent : spec.disconnect (fun _ => false) d with
    | mk r2 d2 =>
      obtain ⟨hfile2, hbackup2, habsent2, hok⟩ := specDisconnect_file hidle hextract hagent
      have hsaved : ¬StashFails (fun _ => false) d := by
        unfold StashFails
        simp
      obtain ⟨more, rfl⟩ := hok.mpr ⟨⟨_, rfl⟩, hsaved⟩
      cases hrestore : restoreFiles libs (fun _ => false) spec.configFiles d2 with
      | mk r3 d3 =>
        obtain ⟨-, hnothing⟩ := restoreFiles_calm htidy.files_nodup hrestore
        have hkeep := hsame calm path hpath
        have hwhole : (Wiring.disconnect libs calm spec d).2.file =
            (restoreFiles libs (fun _ => false) spec.configFiles d2).2.file :=
          disconnect_file_ok libs calm hagent
        rw [hwhole, hrestore, ← hfile2] at hkeep
        have hpathNothing := hnothing path hpath hkeep
        unfold RestoresNothing at hpathNothing ⊢
        rw [hfile2, hbackup2, habsent2] at hpathNothing
        exact hpathNothing
  · rintro ⟨hextracts, hrestores⟩ around path hpath
    cases hextract : AgentSpec.disconnectAll (around.faults .agent) [] spec.disconnectSteps d with
    | mk r d1 =>
      obtain ⟨rfl, hsucceeds⟩ := disconnectAll_extractsNothing hextracts hextract
      cases hagent : spec.disconnect (around.faults .agent) d1 with
      | mk r2 d2 =>
        obtain ⟨hfile2, hbackup2, habsent2, hok⟩ := specDisconnect_file hidle hextract hagent
        cases r2 with
        | error e =>
          rw [disconnect_file_error libs around hagent]
          exact congrFun hfile2 path
        | ok written =>
          rw [disconnect_file_ok libs around hagent]
          have hwent := (hok.mp ⟨_, rfl⟩).1
          have hnothing : ∀ path ∈ spec.configFiles, RestoresNothing libs d2 path := by
            intro path hpath
            have hone := hrestores (hsucceeds hwent) path hpath
            unfold RestoresNothing at hone ⊢
            rw [hfile2, hbackup2, habsent2]
            exact hone
          cases hrestore : restoreFiles libs (around.faults .recovery) spec.configFiles d2 with
          | mk r3 d3 =>
            have hfile3 := restoreFiles_restoresNothing htidy.files_nodup hnothing hrestore
            exact congrFun (hfile3.trans hfile2) path

/-- An environment file with an assignment of the user's alone. -/
def editorDisk : Disk :=
  emptyDisk.setFile (GeminiSpec.envPath ada) (some (.text "# mine\nEDITOR=vi\n"))

theorem idleDisconnect_iff_editor :
    (∀ around, ∀ path ∈ (Agent.spec sampleLibraries ada .gemini).configFiles,
      (Wiring.disconnect sampleLibraries around (Agent.spec sampleLibraries ada .gemini)
        editorDisk).2.file path = editorDisk.file path) ↔
      Spared sampleLibraries ada .gemini editorDisk :=
  idleDisconnect_iff sampleLibraries ada .gemini editorDisk rfl

/-- An environment file with a key of the user's own. -/
def ownKeyDisk : Disk :=
  emptyDisk.setFile (GeminiSpec.envPath ada) (some (.text "GEMINI_API_KEY=sk\n"))

/-- A disconnect of an agent that was never connected deletes the user's own key. -/
theorem ownKey_lost :
    ownKeyDisk.stash = .missing ∧ ownKeyDisk.applied = .missing ∧
      (∀ path, ownKeyDisk.backup path = none ∧ ownKeyDisk.absent path = false) ∧
      (Wiring.disconnect sampleLibraries calm adaGemini ownKeyDisk).1.isOk ∧
      (Wiring.disconnect sampleLibraries calm adaGemini ownKeyDisk).2.file
        (GeminiSpec.envPath ada) = some (.text "") := by
  refine ⟨rfl, rfl, fun _ => ⟨rfl, rfl⟩, by decide +kernel, by decide +kernel⟩

end AnyConverter
