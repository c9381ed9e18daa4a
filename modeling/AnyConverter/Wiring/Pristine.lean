import AnyConverter.Lib.Runs
import AnyConverter.Wiring.IdleDisconnect

/-!
# What a file was before the first connect

A connect copies every file of the agent before it writes any, and a second connect keeps the copy of
the first.  A disconnect drops the copy when the file is again what it was.

* `connect_keeps`, `connect_begins`: no connect loses the copy, and the first one makes it;
* `disconnect_keeps`: a disconnect keeps it, or leaves the file as it was;
* `pristine_kept`: so in every run of calls and of the user's own edits the file's first content is
  still kept, or some disconnect brought it back.
-/

set_option autoImplicit false

namespace AnyConverter.Pristine

open Runs

/-! ## The copy of a file -/

/-- What the file was before is kept beside it: a backup, or the marker of a file that was absent. -/
def Kept (before : Option Content) (path : String) (d : Disk) : Prop :=
  match before with
  | some bytes => d.backup path = some bytes
  | none => d.backup path = none ∧ d.absent path = true

/-- Nothing is kept of the file. -/
def Unkept (path : String) (d : Disk) : Prop := d.backup path = none ∧ d.absent path = false

/-- The copies are what they were. -/
structure SameCopies (d d' : Disk) : Prop where
  backup : d'.backup = d.backup
  absent : d'.absent = d.absent

theorem SameCopies.refl (d : Disk) : SameCopies d d := ⟨rfl, rfl⟩

theorem SameCopies.trans {d d' d'' : Disk} (h : SameCopies d d') (h' : SameCopies d' d'') :
    SameCopies d d'' := ⟨h'.backup.trans h.backup, h'.absent.trans h.absent⟩

theorem SameCopies.kept {d d' : Disk} (h : SameCopies d d') {before : Option Content}
    {path : String} (hkept : Kept before path d) : Kept before path d' := by
  cases before with
  | some bytes => rw [Kept, h.backup]; exact hkept
  | none => rw [Kept, h.backup, h.absent]; exact hkept

/-! ## Connecting -/

section
variable {faults : Faults} {before : Option Content} {path : String}

theorem takeOne_keeps {d d' : Disk} {first : String} (h : takeOne faults d first = .ok d')
    (hkept : Kept before path d) : Kept before path d' := by
  by_cases heq : path = first
  · -- what is kept already is not taken again
    subst heq
    unfold takeOne at h
    have hold : ((d.backup path).isSome || d.absent path) = true := by
      cases before with
      | some bytes =>
        have hbackup : d.backup path = some bytes := hkept
        rw [hbackup]
        rfl
      | none => rw [hkept.2, Bool.or_true]
    rw [if_pos hold] at h
    cases h
    exact hkept
  · obtain ⟨-, -, -, -, -, -, hother⟩ := takeOne_ok h
    obtain ⟨hbackup, habsent⟩ := hother path heq
    cases before with
    | some bytes => rw [Kept, hbackup]; exact hkept
    | none => rw [Kept, hbackup, habsent]; exact hkept

/-- The first snapshot of a file keeps what it is. -/
theorem takeOne_begins {d d' : Disk} (h : takeOne faults d path = .ok d') (hnew : Unkept path d) :
    Kept (d.file path) path d' := by
  obtain ⟨hbackup, habsent⟩ := hnew
  unfold takeOne at h
  rw [hbackup, habsent] at h
  simp only [Option.isSome_none, Bool.or_self, Bool.false_eq_true, if_false] at h
  split at h
  · cases h
  · split at h
    · rename_i bytes hfile
      split at h
      · cases h
      · cases h
        rw [hfile, Kept]
        exact update_self _ _ _
    · rename_i hfile
      split at h
      · cases h
      · cases h
        rw [hfile, Kept]
        exact ⟨hbackup, update_self _ _ _⟩

theorem take_keeps {files : List String} {d d' : Disk} {r : Except WiringError Unit}
    (h : take faults files d = (r, d')) (hkept : Kept before path d) : Kept before path d' := by
  induction files generalizing d with
  | nil =>
    cases h
    exact hkept
  | cons first files ih =>
    unfold take at h
    split at h
    · rename_i d1 hone
      exact ih h (takeOne_keeps hone hkept)
    · cases h
      exact hkept

theorem take_file {files : List String} {d d' : Disk} {r : Except WiringError Unit}
    (h : take faults files d = (r, d')) : d'.file = d.file := by
  cases r with
  | ok _ => exact (take_ok h).1
  | error e => exact (take_error h).1

/-- A snapshot keeps what a covered file is, or it fails before it comes to the file. -/
theorem take_begins {files : List String} {d d' : Disk} {r : Except WiringError Unit}
    (h : take faults files d = (r, d')) (hpath : path ∈ files) (hnew : Unkept path d) :
    Kept (d.file path) path d' ∨ Unkept path d' ∧ ∃ e, r = .error e := by
  induction files generalizing d with
  | nil => cases hpath
  | cons first files ih =>
    unfold take at h
    split at h
    · rename_i d1 hone
      by_cases heq : path = first
      · subst heq
        exact Or.inl (take_keeps h (takeOne_begins hone hnew))
      · obtain ⟨hfile, -, -, -, -, -, hother⟩ := takeOne_ok hone
        obtain ⟨hbackup, habsent⟩ := hother path heq
        have hnew' : Unkept path d1 := ⟨hbackup.trans hnew.1, habsent.trans hnew.2⟩
        rw [← hfile]
        exact ih h ((List.mem_cons.mp hpath).resolve_left heq) hnew'
    · cases h
      exact Or.inr ⟨hnew, _, rfl⟩

theorem saveStash_copies {stash : Stash} {d d' : Disk} {r : Except WiringError Unit}
    (h : saveStash faults stash d = (r, d')) : SameCopies d d' := by
  obtain ⟨-, -, hbackup, habsent, -⟩ := saveStash_error_iff h
  exact ⟨hbackup, habsent⟩

theorem saveApplied_copies {applied : Applied} {d d' : Disk} {r : Except WiringError Unit}
    (h : saveApplied faults applied d = (r, d')) : SameCopies d d' := by
  obtain ⟨-, rfl⟩ := Prod.mk.inj h
  exact ⟨rfl, rfl⟩

/-- An agent's own part of a connect writes its files alone. -/
theorem specConnect_copies {spec : AgentSpec} {wiring : WiringCtx} {d d' : Disk}
    {r : Except WiringError (List String)} (h : spec.connect faults wiring d = (r, d')) :
    SameCopies d d' := by
  unfold AgentSpec.connect at h
  split at h
  · cases h
    exact .refl d
  · dsimp only at h
    split at h
    · rename_i hwrites
      cases h
      obtain ⟨-, hbackup, habsent, -⟩ := writeAll_file "" hwrites
      exact ⟨hbackup, habsent⟩
    · rename_i hwrites
      obtain ⟨-, hbackup, habsent, -⟩ := writeAll_file "" hwrites
      have hwritten : SameCopies d _ := ⟨hbackup, habsent⟩
      split at h
      all_goals
        rename_i hsave
        cases h
        exact hwritten.trans (saveStash_copies hsave)

theorem restoreOne_copies (d : Disk) (first : String) :
    SameCopies d (restoreOne faults d first) := by
  unfold restoreOne
  repeat' split
  all_goals exact ⟨rfl, rfl⟩

theorem restoreAfterFailedConnect_copies (files : List String) (d : Disk) :
    SameCopies d (restoreAfterFailedConnect faults files d) := by
  induction files generalizing d with
  | nil => exact .refl d
  | cons first files ih => exact (restoreOne_copies d first).trans (ih (restoreOne faults d first))

end

/-- What a connect does to the copies is what its snapshot does. -/
theorem connect_copies {around : Surroundings} {spec : AgentSpec} {wiring : WiringCtx} {d d1 d' : Disk}
    {r : Except WiringError Unit} {result : Except WiringError (List String)}
    (htake : take (around.faults .snapshot) spec.configFiles d = (r, d1))
    (h : Wiring.connect around spec wiring d = (result, d')) :
    SameCopies d1 d' ∧ ((∃ e, r = .error e) → d' = d1) := by
  unfold Wiring.connect at h
  rw [htake] at h
  cases r with
  | error e =>
    cases h
    exact ⟨.refl d1, fun _ => rfl⟩
  | ok u =>
    refine ⟨?_, ?_⟩
    · dsimp only at h
      split at h
      · rename_i hspec
        cases h
        exact (specConnect_copies hspec).trans (restoreAfterFailedConnect_copies _ _)
      · rename_i hspec
        split at h
        all_goals
          rename_i hsave
          cases h
          exact (specConnect_copies hspec).trans (saveApplied_copies hsave)
    · rintro ⟨e, he⟩
      cases he

section
variable {around : Surroundings} {spec : AgentSpec} {wiring : WiringCtx} {before : Option Content}
  {path : String}

/-- **No connect loses what is kept of a file**, whether or not it succeeds. -/
theorem connect_keeps {d : Disk} (hkept : Kept before path d) :
    Kept before path (Wiring.connect around spec wiring d).2 := by
  cases htake : take (around.faults .snapshot) spec.configFiles d with
  | mk r d1 =>
    cases h : Wiring.connect around spec wiring d with
    | mk result d' => exact (connect_copies htake h).1.kept (take_keeps htake hkept)

/-- **The first connect keeps what the file was**, or fails before anything is written. -/
theorem connect_begins {d : Disk} (hpath : path ∈ spec.configFiles) (hnew : Unkept path d) :
    Kept (d.file path) path (Wiring.connect around spec wiring d).2 ∨
      (∃ e, (Wiring.connect around spec wiring d).1 = .error e) ∧
        (Wiring.connect around spec wiring d).2.file = d.file := by
  cases htake : take (around.faults .snapshot) spec.configFiles d with
  | mk r d1 =>
    cases h : Wiring.connect around spec wiring d with
    | mk result d' =>
      obtain ⟨hcopies, hfails⟩ := connect_copies htake h
      rcases take_begins htake hpath hnew with hkept | ⟨-, e, rfl⟩
      · exact Or.inl (hcopies.kept hkept)
      · right
        rw [hfails ⟨e, rfl⟩]
        refine ⟨?_, take_file htake⟩
        unfold Wiring.connect at h
        rw [htake] at h
        cases h
        exact ⟨e, rfl⟩

end

/-! ## Disconnecting -/

section
variable {faults : Faults} {before : Option Content} {path : String}

theorem disconnectAll_copies {old : Values} {steps : List DisconnectStep} {d d' : Disk}
    {r : Except WiringError (List String)}
    (h : AgentSpec.disconnectAll faults old steps d = (r, d')) : SameCopies d d' := by
  induction steps generalizing d d' r with
  | nil =>
    cases h
    exact .refl d
  | cons step steps ih =>
    unfold AgentSpec.disconnectAll at h
    split at h
    · cases h
      exact .refl d
    · rename_i hstep
      obtain ⟨hbackup, habsent, -⟩ := disconnectStep_other hstep
      have hone : SameCopies d _ := ⟨hbackup, habsent⟩
      split at h
      all_goals
        rename_i hrest
        cases h
        exact hone.trans (ih hrest)

theorem specDisconnect_copies {spec : AgentSpec} {d d' : Disk}
    {r : Except WiringError (List String)} (h : spec.disconnect faults d = (r, d')) :
    SameCopies d d' := by
  unfold AgentSpec.disconnect at h
  dsimp only at h
  split at h
  · rename_i hall
    cases h
    exact disconnectAll_copies hall
  · rename_i hall
    split at h
    all_goals
      rename_i hsave
      cases h
      exact (disconnectAll_copies hall).trans (saveStash_copies hsave)

/-- **The restore of a file drops what is kept of it only when the file is that again.** -/
theorem restoreFile_keeps {libs : Libraries} {d d' : Disk} {restored : Restored}
    (hreadable : faults (.readBackup path) = false)
    (h : restoreFile libs faults d path = .ok (restored, d')) (hkept : Kept before path d) :
    Kept before path d' ∨ d'.file path = before := by
  unfold restoreFile at h
  rw [hreadable] at h
  simp only [Bool.false_eq_true, if_false] at h
  split at h
  · cases h
  cases before with
  | some bytes =>
    have hbackup : d.backup path = some bytes := hkept
    rw [hbackup] at h
    cases hfile : d.file path with
    | some current =>
      rw [hfile] at h
      dsimp only at h
      split at h
      · rename_i hsame
        cases h
        right
        rw [Disk.clear_file, hfile, hsame]
      · split at h
        · split at h
          · cases h
          · cases h
            right
            rw [Disk.clear_file, Disk.setFile_self]
        · cases h
          exact Or.inl hkept
    | none =>
      rw [hfile] at h
      cases h
      exact Or.inl hkept
  | none =>
    obtain ⟨hbackup, habsent⟩ := hkept
    rw [hbackup] at h
    cases hfile : d.file path with
    | some current =>
      rw [hfile] at h
      dsimp only at h
      rw [habsent] at h
      simp only [Bool.not_true, Bool.false_eq_true, if_false] at h
      split at h
      · split at h
        · cases h
        · cases h
          right
          rw [Disk.clear_file, Disk.setFile_self]
      · cases h
        exact Or.inl ⟨hbackup, habsent⟩
    | none =>
      rw [hfile] at h
      dsimp only at h
      rw [if_pos habsent] at h
      cases h
      right
      rw [Disk.clear_file, hfile]

/-- What is kept of a file, or the file, after other files were restored. -/
theorem restoreFiles_notMem {libs : Libraries} {files : List String} {d d' : Disk}
    {r : Except WiringError (List (String × Restored))}
    (h : restoreFiles libs faults files d = (r, d')) (hnot : path ∉ files) :
    d'.file path = d.file path ∧ d'.backup path = d.backup path ∧
      d'.absent path = d.absent path := by
  induction files generalizing d d' r with
  | nil =>
    cases h
    exact ⟨rfl, rfl, rfl⟩
  | cons first files ih =>
    rw [List.mem_cons, not_or] at hnot
    unfold restoreFiles at h
    split at h
    · cases h
      exact ⟨rfl, rfl, rfl⟩
    · rename_i hone
      obtain ⟨hfile, hbackup, habsent⟩ := restoreFile_other hone hnot.1
      split at h
      all_goals
        rename_i hrest
        cases h
        obtain ⟨hfile', hbackup', habsent'⟩ := ih hrest hnot.2
        exact ⟨hfile'.trans hfile, hbackup'.trans hbackup, habsent'.trans habsent⟩

theorem restoreFiles_keeps {libs : Libraries} {files : List String} {d d' : Disk}
    {r : Except WiringError (List (String × Restored))} (hnodup : files.Nodup)
    (hreadable : faults (.readBackup path) = false)
    (h : restoreFiles libs faults files d = (r, d')) (hkept : Kept before path d) :
    Kept before path d' ∨ d'.file path = before := by
  have hcongr : ∀ {d1 d2 : Disk}, d2.backup path = d1.backup path →
      d2.absent path = d1.absent path → Kept before path d1 → Kept before path d2 := by
    intro d1 d2 hbackup habsent hk
    cases before with
    | some bytes => rw [Kept, hbackup]; exact hk
    | none => rw [Kept, hbackup, habsent]; exact hk
  induction files generalizing d d' r with
  | nil =>
    cases h
    exact Or.inl hkept
  | cons first files ih =>
    rw [List.nodup_cons] at hnodup
    unfold restoreFiles at h
    split at h
    · cases h
      exact Or.inl hkept
    · rename_i d1 hone
      by_cases heq : path = first
      · -- the other files come after it, and leave it
        subst heq
        have hfirst := restoreFile_keeps hreadable hone hkept
        split at h
        all_goals
          rename_i hrest
          cases h
          obtain ⟨hfile, hbackup, habsent⟩ := restoreFiles_notMem hrest hnodup.1
          rw [hfile]
          exact hfirst.imp_left (hcongr hbackup habsent)
      · obtain ⟨-, hbackup, habsent⟩ := restoreFile_other hone heq
        have hkept1 : Kept before path d1 := hcongr hbackup habsent hkept
        split at h
        all_goals
          rename_i hrest
          cases h
          exact ih hnodup.2 hrest hkept1

end

/-- **A disconnect keeps what the file was, or leaves the file so**, whatever fails but the reading of
the backup. -/
theorem disconnect_keeps {libs : Libraries} {around : Surroundings} {spec : AgentSpec}
    {before : Option Content} {path : String} {d : Disk} (hnodup : spec.configFiles.Nodup)
    (hreadable : around.faults .recovery (.readBackup path) = false) (hkept : Kept before path d) :
    Kept before path (Wiring.disconnect libs around spec d).2 ∨
      (Wiring.disconnect libs around spec d).2.file path = before := by
  cases h : Wiring.disconnect libs around spec d with
  | mk result d' =>
    unfold Wiring.disconnect at h
    dsimp only at h
    split at h
    · rename_i hspec
      cases h
      exact Or.inl ((specDisconnect_copies hspec).kept hkept)
    · rename_i hspec
      have hkept1 := (specDisconnect_copies hspec).kept hkept
      split at h
      · rename_i hrestore
        cases h
        exact restoreFiles_keeps hnodup hreadable hrestore hkept1
      · rename_i d2 hrestore
        have hrestored := restoreFiles_keeps hnodup hreadable hrestore hkept1
        have hends : ∀ {d3 : Disk}, SameCopies d2 d3 → d3.file = d2.file →
            Kept before path d3 ∨ d3.file path = before := by
          intro d3 hcopies hfile
          rw [hfile]
          exact hrestored.imp_left hcopies.kept
        split at h
        · rename_i hstash
          cases h
          exact hends (saveStash_copies hstash) (saveStash_error_iff hstash).2.1
        · rename_i hstash
          split at h
          all_goals
            rename_i happlied
            cases h
            exact hends ((saveStash_copies hstash).trans (saveApplied_copies happlied))
              ((saveApplied_error_iff happlied).2.1.trans (saveStash_error_iff hstash).2.1)

/-! ## Runs -/

inductive Act where
  | connect (around : Surroundings) (spec : AgentSpec) (wiring : WiringCtx)
  | disconnect (around : Surroundings) (spec : AgentSpec)
  /-- the user, or the agent itself, changes a file -/
  | edit (path : String) (content : Option Content)

def step (libs : Libraries) (d : Disk) : Act → Option Disk
  | .connect around spec wiring => some (Wiring.connect around spec wiring d).2
  | .disconnect around spec => some (Wiring.disconnect libs around spec d).2
  | .edit path content => some (d.setFile path content)

/-- A disconnect is one of the agents', and can read the backup of the file. -/
def Readable (libs : Libraries) (path : String) (_ : Disk) : Act → Prop
  | .disconnect around spec => around.faults .recovery (.readBackup path) = false ∧
    ∃ ctx, spec ∈ allSpecs libs ctx
  | _ => True

/-- A step that is a disconnect takes what is kept of a file, and leaves the file so. -/
def BroughtBack (libs : Libraries) (before : Option Content) (path : String) (d : Disk) (a : Act)
    (d' : Disk) : Prop :=
  (∃ around spec, a = .disconnect around spec) ∧ Kept before path d ∧ step libs d a = some d' ∧
    d'.file path = before

section
variable {libs : Libraries} {before : Option Content} {path : String}

theorem kept_step {d d' : Disk} {a : Act} (hkept : Kept before path d)
    (hreadable : Readable libs path d a) (hstep : step libs d a = some d') :
    Kept before path d' ∨ BroughtBack libs before path d a d' := by
  cases a with
  | connect around spec wiring =>
    cases hstep
    exact Or.inl (connect_keeps hkept)
  | disconnect around spec =>
    cases hstep
    obtain ⟨hread, ctx, hspec⟩ := hreadable
    exact (disconnect_keeps (allSpecs_tidy libs ctx spec hspec).files_nodup hread hkept).imp_right
      fun hfile => ⟨⟨around, spec, rfl⟩, hkept, rfl, hfile⟩
  | edit other content =>
    cases hstep
    have hcopies : SameCopies d (d.setFile other content) := ⟨rfl, rfl⟩
    exact Or.inl (hcopies.kept hkept)

/-- What is kept stays kept until a disconnect brings it back. -/
theorem kept_run {d d' : Disk} {acts : List Act} (hkept : Kept before path d)
    (hreadable : Meets (step libs) (Readable libs path) d acts)
    (hrun : run (step libs) d acts = some d') :
    Kept before path d' ∨ ∃ earlier a later d₁ d₂, acts = earlier ++ a :: later ∧
      run (step libs) d earlier = some d₁ ∧ BroughtBack libs before path d₁ a d₂ := by
  induction acts generalizing d with
  | nil =>
    cases hrun
    exact Or.inl hkept
  | cons a acts ih =>
    obtain ⟨hcond, hrest⟩ := hreadable
    obtain ⟨d₁, hfirst, hrun⟩ := run_cons hrun
    rcases kept_step hkept hcond hfirst with hkept₁ | hback
    · rcases ih hkept₁ (hrest d₁ hfirst) hrun with hend | ⟨earlier, b, later, d₂, d₃, rfl, hbefore, hback⟩
      · exact Or.inl hend
      · exact Or.inr ⟨a :: earlier, b, later, d₂, d₃, rfl, by rw [run_step hfirst, hbefore], hback⟩
    · exact Or.inr ⟨[], a, acts, d, d₁, rfl, rfl, hback⟩

end

/-- **What a file was before the first connect is never lost.**  After a connect of an agent that
covers it, and any further calls, edits of the user and failures, it is still kept beside the file, or
some disconnect left the file as it was; unless that connect failed before it wrote anything. -/
theorem pristine_kept {libs : Libraries} {path : String} {around : Surroundings} {spec : AgentSpec}
    {wiring : WiringCtx} {acts : List Act} {d d' : Disk} (hpath : path ∈ spec.configFiles)
    (hnew : Unkept path d)
    (hreadable : Meets (step libs) (Readable libs path) d (.connect around spec wiring :: acts))
    (hrun : run (step libs) d (.connect around spec wiring :: acts) = some d') :
    Kept (d.file path) path d' ∨
    (∃ earlier a later d₁ d₂, acts = earlier ++ a :: later ∧
      run (step libs) d (.connect around spec wiring :: earlier) = some d₁ ∧
      BroughtBack libs (d.file path) path d₁ a d₂) ∨
    ((∃ e, (Wiring.connect around spec wiring d).1 = .error e) ∧
      (Wiring.connect around spec wiring d).2.file = d.file) := by
  obtain ⟨d₁, hfirst, hrest⟩ := run_cons hrun
  have hmeets := hreadable.2 d₁ hfirst
  cases hfirst
  rcases connect_begins hpath hnew with hkept | hfailed
  · rcases kept_run hkept hmeets hrest with hend | ⟨earlier, a, later, d₂, d₃, hacts, hbefore, hback⟩
    · exact Or.inl hend
    · exact Or.inr (Or.inl ⟨earlier, a, later, d₂, d₃, hacts, hbefore, hback⟩)
  · exact Or.inr (Or.inr hfailed)

/-- The user's own variables. -/
def ownVariables : Disk := emptyDisk.setFile (GeminiSpec.envPath ada) (some (.text "A=1"))

/-- An edit, and a second connect. -/
def reconnects : List Act :=
  [.edit (GeminiSpec.envPath ada) (some (.text "A=2")), .connect calm adaGemini adaWiring]

/-- The file was edited between the two connects, and its first content is kept. -/
theorem pristine_kept_reconnect :
    ∃ d', run (step sampleLibraries) ownVariables (.connect calm adaGemini adaWiring :: reconnects) =
      some d' ∧ Kept (some (.text "A=1")) (GeminiSpec.envPath ada) d' := by
  have hfile : ownVariables.file (GeminiSpec.envPath ada) = some (.text "A=1") :=
    Disk.setFile_self _ _ _
  have hpath : GeminiSpec.envPath ada ∈ adaGemini.configFiles := List.mem_cons_self
  have hok : (Wiring.connect calm adaGemini adaWiring ownVariables).1.isOk := by decide +kernel
  have hreadable : Meets (step sampleLibraries) (Readable sampleLibraries (GeminiSpec.envPath ada))
      ownVariables (.connect calm adaGemini adaWiring :: reconnects) :=
    ⟨trivial, fun _ _ => ⟨trivial, fun _ _ => ⟨trivial, fun _ _ => trivial⟩⟩⟩
  refine ⟨_, rfl, ?_⟩
  rcases pristine_kept hpath ⟨rfl, rfl⟩ hreadable rfl with
    hkept | ⟨earlier, a, later, d₁, d₂, hacts, -, ⟨around, spec, rfl⟩, -⟩ | ⟨⟨e, he⟩, -⟩
  · rw [hfile] at hkept
    exact hkept
  · have hmem : Act.disconnect around spec ∈ reconnects := by
      rw [hacts]
      simp
    simp [reconnects] at hmem
  · rw [he] at hok
    cases hok

end AnyConverter.Pristine
