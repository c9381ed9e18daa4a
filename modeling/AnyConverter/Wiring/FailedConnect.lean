import AnyConverter.Lib.JsonText
import AnyConverter.Wiring.Wiring

/-!
# A connect that fails

A connect that fails puts the files back from the snapshot, but the snapshot may be of an earlier
connect, and nothing is put back when only the applied values could not be saved.

* `take_ok`, `take_error`: what a snapshot leaves, and when it fails;
* `writeAll_file`, `writeAll_ok_iff`: what the writes of an agent leave, and when they fail;
* `connect_cases`: how a connect may end;
* `failedConnect_iff`: a failed connect leaves the files and the applied values as they were exactly
  if `RollsBack` holds of the disk it began on.
-/

set_option autoImplicit false

namespace AnyConverter

/-! ## What a failed connect meets -/

/-- What the snapshot of a connect holds of a file: the older backup, if there is one. -/
def keptBy (d : Disk) (path : String) : Option Content :=
  match d.backup path with
  | some backup => some backup
  | none => if d.absent path then none else d.file path

/-- The snapshot of a file cannot be taken. -/
def TakeFails (faults : Faults) (d : Disk) (path : String) : Prop :=
  d.backup path = none ∧ d.absent path = false ∧
    (faults (.readFile path) ∨
      if (d.file path).isSome then faults (.writeBackup path) else faults (.writeMarker path))

/-- What stands at a path after some writes, up to the first that fails. -/
def writtenTo (faults : Faults) (path : String) :
    List (Except WiringError (String × String)) → Option Content → Option Content
  | .ok (p, text) :: writes, content =>
    if faults (.writeFile p) then content
    else writtenTo faults path writes (if p = path then some (.text text) else content)
  | _, content => content

/-- No write fails. -/
def allWritten (faults : Faults) : List (Except WiringError (String × String)) → Prop
  | [] => True
  | .ok (p, _) :: writes => faults (.writeFile p) = false ∧ allWritten faults writes
  | .error _ :: _ => False

/-- The stash cannot be saved. -/
def StashFails (faults : Faults) (d : Disk) : Prop :=
  faults .writeStash ∨ d.stash = .corrupt ∧ faults .readStash = false ∧ faults .moveStash

/-- The agent's own part of a connect fails. -/
def AgentFails (faults : Faults) (spec : AgentSpec) (wiring : WiringCtx) (d : Disk) : Prop :=
  match spec.prepare faults wiring d with
  | .error _ => True
  | .ok plan => ¬allWritten faults plan.writes ∨ StashFails faults d

/-- What the agent's own part leaves of a file. -/
def contentAfter (faults : Faults) (spec : AgentSpec) (wiring : WiringCtx) (d : Disk)
    (path : String) : Option Content :=
  match spec.prepare faults wiring d with
  | .error _ => d.file path
  | .ok plan => writtenTo faults path plan.writes (d.file path)

/-- The recovery of a file does not fail itself, where the snapshot holds `kept` of it. -/
def Restorable (faults : Faults) (path : String) (kept : Option Content) : Prop :=
  faults (.readBackup path) = false ∧ faults (.readFile path) = false ∧
    if kept.isSome then faults (.writeFile path) = false else faults (.removeFile path) = false

instance (faults : Faults) (path : String) (kept : Option Content) :
    Decidable (Restorable faults path kept) := by
  unfold Restorable
  infer_instance

/-- The failure comes before anything was written, or the snapshot of every file is what the file
was (where it is put back at all), or everything was written already. -/
def RollsBack (around : Surroundings) (spec : AgentSpec) (wiring : WiringCtx) (d : Disk) : Prop :=
  (∃ path ∈ spec.configFiles, TakeFails (around.faults .snapshot) d path) ∨
  (AgentFails (around.faults .agent) spec wiring d ∧ ∀ path ∈ spec.configFiles,
    if Restorable (around.faults .recovery) path (keptBy d path) then keptBy d path = d.file path
    else contentAfter (around.faults .agent) spec wiring d path = d.file path) ∨
  (¬AgentFails (around.faults .agent) spec wiring d ∧ ∀ path ∈ spec.configFiles,
    contentAfter (around.faults .agent) spec wiring d path = d.file path)

/-- Every covered file and the applied values are what they were. -/
structure Untouched (spec : AgentSpec) (before after : Disk) : Prop where
  files : ∀ path ∈ spec.configFiles, after.file path = before.file path
  applied : after.applied.load false = before.applied.load false

/-! ## The snapshot -/

section
variable {faults : Faults}

theorem takeOne_error {d : Disk} {path : String} {e : WiringError}
    (h : takeOne faults d path = .error e) : TakeFails faults d path := by
  unfold takeOne at h
  split at h
  · cases h
  · rename_i hnew
    simp only [Bool.or_eq_true, Option.isSome_iff_ne_none, not_or, ne_eq, not_not,
      Bool.not_eq_true] at hnew
    refine ⟨hnew.1, hnew.2, ?_⟩
    split at h
    · rename_i hread
      exact Or.inl hread
    · right
      cases hfile : d.file path with
      | some bytes =>
        rw [hfile] at h
        dsimp only at h
        split at h
        · rename_i hwrite
          simpa using hwrite
        · cases h
      | none =>
        rw [hfile] at h
        dsimp only at h
        split at h
        · rename_i hwrite
          simpa using hwrite
        · cases h

/-- What a snapshot of one file changes: its backup is what is kept of it. -/
theorem takeOne_ok {d d' : Disk} {path : String} (h : takeOne faults d path = .ok d') :
    d'.file = d.file ∧ d'.stash = d.stash ∧ d'.applied = d.applied ∧
      d'.backup path = keptBy d path ∧ ¬TakeFails faults d path ∧ ¬TakeFails faults d' path ∧
      ∀ other, other ≠ path → d'.backup other = d.backup other ∧ d'.absent other = d.absent other := by
  unfold takeOne at h
  split at h
  · rename_i hold
    cases h
    have hfails : ¬TakeFails faults d path := by
      rintro ⟨hbackup, habsent, -⟩
      simp [hbackup, habsent] at hold
    refine ⟨rfl, rfl, rfl, ?_, hfails, hfails, fun _ _ => ⟨rfl, rfl⟩⟩
    unfold keptBy
    cases hbackup : d.backup path with
    | some b => rfl
    | none =>
      rw [hbackup] at hold
      have habsent : d.absent path = true := by simpa using hold
      rw [habsent]
      rfl
  · rename_i hnew
    simp only [Bool.or_eq_true, Option.isSome_iff_ne_none, not_or, ne_eq, not_not,
      Bool.not_eq_true] at hnew
    obtain ⟨hbackup, habsent⟩ := hnew
    split at h
    · cases h
    · rename_i hread
      have hkept : keptBy d path = d.file path := by
        unfold keptBy
        rw [hbackup, habsent]
        rfl
      cases hfile : d.file path with
      | some bytes =>
        rw [hfile] at h
        dsimp only at h
        split at h
        · cases h
        · rename_i hwrite
          cases h
          refine ⟨rfl, rfl, rfl, ?_, ?_, ?_, ?_⟩
          · rw [hkept, hfile]
            exact update_self _ _ _
          · rintro ⟨-, -, hfails⟩
            rw [hfile] at hfails
            rcases hfails with h | h
            · exact hread h
            · exact hwrite (by simpa using h)
          · rintro ⟨hnone, -, -⟩
            have hsome : update path (some bytes) d.backup path = none := hnone
            rw [update_self] at hsome
            cases hsome
          · intro other hne
            exact ⟨update_ne hne _ _, rfl⟩
      | none =>
        rw [hfile] at h
        dsimp only at h
        split at h
        · cases h
        · rename_i hwrite
          cases h
          refine ⟨rfl, rfl, rfl, ?_, ?_, ?_, ?_⟩
          · rw [hkept, hfile]
            exact hbackup
          · rintro ⟨-, -, hfails⟩
            rw [hfile] at hfails
            rcases hfails with h | h
            · exact hread h
            · exact hwrite (by simpa using h)
          · rintro ⟨-, hfalse, -⟩
            have htrue : update path true d.absent path = false := hfalse
            rw [update_self] at htrue
            cases htrue
          · intro other hne
            exact ⟨rfl, update_ne hne _ _⟩

/-- What is kept of a file is not changed by the snapshot of another one. -/
theorem takeOne_other {d d' : Disk} {path other : String} (h : takeOne faults d path = .ok d')
    (hne : other ≠ path) :
    keptBy d' other = keptBy d other ∧ (TakeFails faults d' other ↔ TakeFails faults d other) := by
  obtain ⟨hfile, -, -, -, -, -, hother⟩ := takeOne_ok h
  obtain ⟨hbackup, habsent⟩ := hother other hne
  unfold keptBy TakeFails
  rw [hbackup, habsent, hfile]
  exact ⟨rfl, Iff.rfl⟩

/-- What is kept of a file is not changed by its own snapshot. -/
theorem takeOne_keptBy {d d' : Disk} {path : String} (h : takeOne faults d path = .ok d') :
    keptBy d' path = keptBy d path := by
  obtain ⟨hfile, -, -, hbackup, -, hfails', -⟩ := takeOne_ok h
  unfold keptBy at hbackup ⊢
  rw [hbackup, hfile]
  cases hkept : d.backup path with
  | some b => rfl
  | none =>
    rw [hkept] at hbackup
    cases habsent : d.absent path with
    | true =>
      have hmarker : d'.absent path = true := by
        unfold takeOne at h
        rw [hkept, habsent] at h
        simp only [Option.isSome_none, Bool.or_true, if_true, Except.ok.injEq] at h
        rw [← h]
        exact habsent
      simp [hmarker]
    | false =>
      cases hd : d.file path with
      | some c => simp
      | none =>
        simp

/-- **A snapshot that is taken** leaves the files, and keeps of every covered one what it should. -/
theorem take_ok {files : List String} {d d' : Disk} (h : take faults files d = (.ok (), d')) :
    d'.file = d.file ∧ d'.stash = d.stash ∧ d'.applied = d.applied ∧
      ∀ path ∈ files, d'.backup path = keptBy d path ∧ ¬TakeFails faults d path := by
  induction files generalizing d with
  | nil =>
    cases h
    exact ⟨rfl, rfl, rfl, fun path hpath => absurd hpath (List.not_mem_nil)⟩
  | cons first files ih =>
    unfold take at h
    split at h
    · rename_i d1 hone
      obtain ⟨hfile, hstash, happlied, hbackup, hfails, -, -⟩ := takeOne_ok hone
      obtain ⟨hfile', hstash', happlied', hkept⟩ := ih h
      refine ⟨hfile'.trans hfile, hstash'.trans hstash, happlied'.trans happlied, ?_⟩
      intro path hpath
      by_cases hin : path ∈ files
      · by_cases heq : path = first
        · subst heq
          exact ⟨(hkept path hin).1.trans (takeOne_keptBy hone), hfails⟩
        · obtain ⟨hsame, hiff⟩ := takeOne_other hone heq
          exact ⟨(hkept path hin).1.trans hsame, fun hf => (hkept path hin).2 (hiff.mpr hf)⟩
      · obtain rfl : path = first := by simpa [hin] using hpath
        refine ⟨?_, hfails⟩
        have hrest : ∀ {files : List String} {d1 d2 : Disk}, take faults files d1 = (.ok (), d2) →
            path ∉ files → d2.backup path = d1.backup path := by
          intro files
          induction files with
          | nil =>
            intro d1 d2 h _
            cases h
            rfl
          | cons f files ih =>
            intro d1 d2 h hnot
            rw [List.mem_cons, not_or] at hnot
            unfold take at h
            split at h
            · rename_i d3 hone'
              rw [ih h hnot.2]
              exact ((takeOne_ok hone').2.2.2.2.2.2 path hnot.1).1
            · cases h
        rw [hrest h hin, hbackup]
    · cases h

/-- **A snapshot that fails** has changed neither a file nor a store. -/
theorem take_error {files : List String} {d d' : Disk} {e : WiringError}
    (h : take faults files d = (.error e, d')) :
    d'.file = d.file ∧ d'.applied = d.applied ∧ ∃ path ∈ files, TakeFails faults d path := by
  induction files generalizing d with
  | nil => cases h
  | cons first files ih =>
    unfold take at h
    split at h
    · rename_i d1 hone
      obtain ⟨hfile, -, happlied, -, hfails, hfails', -⟩ := takeOne_ok hone
      obtain ⟨hfile', happlied', path, hpath, htake⟩ := ih h
      refine ⟨hfile'.trans hfile, happlied'.trans happlied, path, List.mem_cons_of_mem _ hpath, ?_⟩
      by_cases heq : path = first
      · subst heq
        exact absurd htake hfails'
      · exact (takeOne_other hone heq).2.mp htake
    · rename_i e' hone
      cases h
      exact ⟨rfl, rfl, first, List.mem_cons_self, takeOne_error hone⟩

/-! ## The agent's own part -/

/-- **What the writes of an agent leave**, whether or not one of them fails. -/
theorem writeAll_file (path : String) {writes : List (Except WiringError (String × String))}
    {d d' : Disk} {r : Except WiringError (List String)}
    (h : AgentSpec.writeAll faults writes d = (r, d')) :
    d'.file path = writtenTo faults path writes (d.file path) ∧ d'.backup = d.backup ∧
      d'.absent = d.absent ∧ d'.stash = d.stash ∧ d'.applied = d.applied := by
  induction writes generalizing d d' r with
  | nil =>
    cases h
    exact ⟨rfl, rfl, rfl, rfl, rfl⟩
  | cons write writes ih =>
    cases write with
    | error e =>
      cases h
      exact ⟨rfl, rfl, rfl, rfl, rfl⟩
    | ok write =>
      obtain ⟨p, text⟩ := write
      unfold AgentSpec.writeAll writeConfig at h
      by_cases hfault : faults (.writeFile p)
      · simp only [hfault, if_true] at h
        cases h
        refine ⟨?_, rfl, rfl, rfl, rfl⟩
        rw [writtenTo, if_pos hfault]
      · simp only [hfault] at h
        cases hrest : AgentSpec.writeAll faults writes (d.setFile p (some (.text text))) with
        | mk r1 d1 =>
          obtain ⟨hfile, hbackup, habsent, hstash, happlied⟩ := ih hrest
          have hd : d' = d1 := by
            rw [if_neg Bool.false_ne_true] at h
            dsimp only at h
            rw [hrest] at h
            cases r1 <;> cases h <;> rfl
          subst hd
          refine ⟨?_, hbackup, habsent, hstash, happlied⟩
          rw [hfile, writtenTo, if_neg hfault]
          by_cases hp : p = path
          · subst hp
            rw [Disk.setFile_self, if_pos rfl]
          · rw [Disk.setFile_ne _ (Ne.symm hp), if_neg hp]

theorem writeAll_ok_iff {writes : List (Except WiringError (String × String))} {d d' : Disk}
    {r : Except WiringError (List String)} (h : AgentSpec.writeAll faults writes d = (r, d')) :
    (∃ written, r = .ok written) ↔ allWritten faults writes := by
  induction writes generalizing d d' r with
  | nil =>
    cases h
    exact ⟨fun _ => trivial, fun _ => ⟨_, rfl⟩⟩
  | cons write writes ih =>
    cases write with
    | error e =>
      cases h
      constructor
      · rintro ⟨_, hok⟩
        cases hok
      · exact False.elim
    | ok write =>
      obtain ⟨p, text⟩ := write
      unfold AgentSpec.writeAll writeConfig at h
      by_cases hfault : faults (.writeFile p)
      · simp only [hfault, if_true] at h
        cases h
        constructor
        · rintro ⟨_, hok⟩
          cases hok
        · rintro ⟨hfree, -⟩
          rw [hfault] at hfree
          cases hfree
      · simp only [hfault] at h
        rw [if_neg Bool.false_ne_true] at h
        dsimp only at h
        cases hrest : AgentSpec.writeAll faults writes (d.setFile p (some (.text text))) with
        | mk r1 d1 =>
          rw [hrest] at h
          have hiff := ih hrest
          cases r1 with
          | ok written =>
            cases h
            exact ⟨fun _ => ⟨by simpa using hfault, hiff.mp ⟨_, rfl⟩⟩, fun _ => ⟨_, rfl⟩⟩
          | error e =>
            cases h
            constructor
            · rintro ⟨_, hok⟩
              cases hok
            · rintro ⟨-, hall⟩
              obtain ⟨_, hok⟩ := hiff.mpr hall
              cases hok

theorem saveStash_error_iff {stash : Stash} {d d' : Disk} {r : Except WiringError Unit}
    (h : saveStash faults stash d = (r, d')) :
    ((∃ e, r = .error e) ↔ StashFails faults d) ∧ d'.file = d.file ∧ d'.backup = d.backup ∧
      d'.absent = d.absent ∧ d'.applied = d.applied := by
  obtain ⟨rfl, rfl⟩ := Prod.mk.inj h
  refine ⟨?_, rfl, rfl, rfl, rfl⟩
  unfold StashFails
  cases hstash : d.stash with
  | missing => cases faults .writeStash <;> simp [Store.save]
  | valid a => cases faults .writeStash <;> simp [Store.save]
  | corrupt =>
    cases faults .readStash <;> cases faults .moveStash <;> cases faults .writeStash <;>
      simp [Store.save]

/-- Preparing reads the files alone. -/
theorem prepare_congr {spec : AgentSpec} {wiring : WiringCtx} {d d' : Disk} (h : d'.file = d.file) :
    spec.prepare faults wiring d' = spec.prepare faults wiring d := by
  have hread : ∀ path, readConfig faults d' path = readConfig faults d path := by
    intro path
    unfold readConfig
    rw [h]
  have hall : ∀ paths, AgentSpec.readAll faults d' paths = AgentSpec.readAll faults d paths := by
    intro paths
    induction paths with
    | nil => rfl
    | cons path paths ih => simp only [AgentSpec.readAll, hread, ih]
  unfold AgentSpec.prepare
  rw [hall]

/-- **What the agent's own part leaves, and when it fails.** -/
theorem specConnect_file {spec : AgentSpec} {wiring : WiringCtx} {d d' : Disk}
    {r : Except WiringError (List String)} (h : spec.connect faults wiring d = (r, d')) :
    (∀ path, d'.file path = contentAfter faults spec wiring d path) ∧ d'.backup = d.backup ∧
      d'.applied = d.applied ∧ ((∃ e, r = .error e) ↔ AgentFails faults spec wiring d) := by
  unfold AgentSpec.connect at h
  unfold contentAfter AgentFails
  cases hprepare : spec.prepare faults wiring d with
  | error e =>
    rw [hprepare] at h
    cases h
    exact ⟨fun _ => rfl, rfl, rfl, fun _ => trivial, fun _ => ⟨e, rfl⟩⟩
  | ok plan =>
    rw [hprepare] at h
    dsimp only at h ⊢
    cases hwrites : AgentSpec.writeAll faults plan.writes d with
    | mk r1 d1 =>
      have hok := writeAll_ok_iff hwrites
      obtain ⟨-, hbackup, habsent, hstash, happlied⟩ := writeAll_file "" hwrites
      have hfile : ∀ path, d1.file path = writtenTo faults path plan.writes (d.file path) :=
        fun path => (writeAll_file path hwrites).1
      rw [hwrites] at h
      cases r1 with
      | error e =>
        cases h
        refine ⟨hfile, hbackup, happlied, fun _ => Or.inl ?_, fun _ => ⟨e, rfl⟩⟩
        intro hall
        obtain ⟨_, h⟩ := hok.mpr hall
        cases h
      | ok written =>
        dsimp only at h
        have hall : allWritten faults plan.writes := hok.mp ⟨_, rfl⟩
        cases hsave : saveStash faults (recordOldValues (loadStash faults d) spec.id plan.old) d1 with
        | mk r2 d2 =>
          obtain ⟨hiff, hfile2, hbackup2, -, happlied2⟩ := saveStash_error_iff hsave
          have hfails : StashFails faults d1 ↔ StashFails faults d := by
            unfold StashFails
            rw [hstash]
          rw [hsave] at h
          cases r2 with
          | ok _ =>
            cases h
            refine ⟨fun path => by rw [hfile2, hfile], hbackup2.trans hbackup,
              happlied2.trans happlied, ?_, ?_⟩
            · rintro ⟨_, herr⟩
              cases herr
            · rintro (hnot | hstashFails)
              · exact absurd hall hnot
              · obtain ⟨_, herr⟩ := hiff.mpr (hfails.mpr hstashFails)
                cases herr
          | error e =>
            cases h
            exact ⟨fun path => by rw [hfile2, hfile], hbackup2.trans hbackup,
              happlied2.trans happlied, fun _ => Or.inr (hfails.mp (hiff.mp ⟨_, rfl⟩)),
              fun _ => ⟨_, rfl⟩⟩

/-! ## The recovery -/

/-- What the recovery leaves of a file. -/
theorem restoreOne_self (d : Disk) (path : String) (kept : Option Content)
    (hkept : d.backup path = kept) :
    (restoreOne faults d path).file path =
      if Restorable faults path kept then kept else d.file path := by
  subst hkept
  by_cases hread : faults (.readBackup path) || faults (.readFile path)
  · have hnot : ¬Restorable faults path (d.backup path) := by
      rintro ⟨hbackup, hfile, -⟩
      rw [hbackup, hfile] at hread
      cases hread
    rw [restoreOne, if_pos hread, if_neg hnot]
  · rw [restoreOne, if_neg hread]
    rw [Bool.or_eq_true, not_or, Bool.not_eq_true, Bool.not_eq_true] at hread
    cases hb : d.backup path with
    | some backup =>
      by_cases hwrite : faults (.writeFile path)
      · have hnot : ¬Restorable faults path (some backup) := by
          rintro ⟨-, -, hfree⟩
          simp [hwrite] at hfree
        rw [if_neg hnot]
        cases hf : d.file path <;> simp [hwrite, hf]
      · have hyes : Restorable faults path (some backup) :=
          ⟨hread.1, hread.2, by simpa using hwrite⟩
        rw [if_pos hyes]
        cases hf : d.file path with
        | none => simp [hwrite]
        | some current =>
          by_cases heq : backup = current
          · simp [heq, hf]
          · simp [heq, hwrite]
    | none =>
      by_cases hremove : faults (.removeFile path)
      · have hnot : ¬Restorable faults path none := by
          rintro ⟨-, -, hfree⟩
          simp [hremove] at hfree
        rw [if_neg hnot]
        cases hf : d.file path <;> simp [hremove, hf]
      · have hyes : Restorable faults path none :=
          ⟨hread.1, hread.2, by simpa using hremove⟩
        rw [if_pos hyes]
        cases hf : d.file path <;> simp [hremove, hf]

theorem restoreOne_other (d : Disk) {path other : String} (hne : other ≠ path) :
    (restoreOne faults d path).file other = d.file other := by
  unfold restoreOne
  repeat' split
  all_goals first | rfl | exact Disk.setFile_ne _ hne _

theorem restoreOne_stores (d : Disk) (path : String) :
    (restoreOne faults d path).backup = d.backup ∧
      (restoreOne faults d path).applied = d.applied := by
  unfold restoreOne
  repeat' split
  all_goals exact ⟨rfl, rfl⟩

/-- **What the recovery leaves of the covered files.** -/
theorem restoreAfterFailedConnect_file {files : List String} {d : Disk} {path : String}
    (hpath : path ∈ files) (kept : Option Content) (hkept : d.backup path = kept) :
    (restoreAfterFailedConnect faults files d).file path =
      if Restorable faults path kept then kept else d.file path := by
  -- a file that was put back once stays as it is
  have hstays : ∀ {files : List String} {d : Disk}, d.backup path = kept →
      (restoreAfterFailedConnect faults files d).file path = d.file path ∨
        (restoreAfterFailedConnect faults files d).file path =
          (restoreOne faults d path).file path := by
    intro files
    induction files with
    | nil =>
      intro d _
      exact Or.inl rfl
    | cons first files ih =>
      intro d hd
      show (restoreAfterFailedConnect faults files (restoreOne faults d first)).file path = _ ∨
        (restoreAfterFailedConnect faults files (restoreOne faults d first)).file path = _
      have hd' : (restoreOne faults d first).backup path = kept := by
        rw [(restoreOne_stores d first).1, hd]
      by_cases heq : path = first
      · subst heq
        right
        rcases ih hd' with h | h
        · exact h
        · rw [h, restoreOne_self _ _ kept hd', restoreOne_self _ _ kept hd]
          by_cases hr : Restorable faults path kept
          · rw [if_pos hr, if_pos hr]
          · rw [if_neg hr, if_neg hr]
      · rw [← restoreOne_other d heq]
        rcases ih hd' with h | h
        · exact Or.inl h
        · right
          rw [h, restoreOne_self _ _ kept hd', restoreOne_self _ _ kept hd, restoreOne_other d heq]
  induction files generalizing d with
  | nil => exact absurd hpath List.not_mem_nil
  | cons first files ih =>
    show (restoreAfterFailedConnect faults files (restoreOne faults d first)).file path = _
    have hd' : (restoreOne faults d first).backup path = kept := by
      rw [(restoreOne_stores d first).1, hkept]
    by_cases heq : path = first
    · subst heq
      rcases @hstays files _ hd' with h | h
      · rw [h, restoreOne_self _ _ kept hkept]
      · rw [h, restoreOne_self _ _ kept hd', restoreOne_self _ _ kept hkept]
        by_cases hr : Restorable faults path kept
        · rw [if_pos hr, if_pos hr]
        · rw [if_neg hr, if_neg hr]
    · have hin : path ∈ files := (List.mem_cons.mp hpath).resolve_left heq
      rw [ih hin hd', restoreOne_other d heq]

theorem restoreAfterFailedConnect_applied (files : List String) (d : Disk) :
    (restoreAfterFailedConnect faults files d).applied = d.applied := by
  induction files generalizing d with
  | nil => rfl
  | cons first files ih =>
    show (restoreAfterFailedConnect faults files (restoreOne faults d first)).applied = _
    rw [ih, (restoreOne_stores d first).2]

/-- The agent's own part depends on the files and the stash alone. -/
theorem agentFails_congr {spec : AgentSpec} {wiring : WiringCtx} {d d' : Disk}
    (hfile : d'.file = d.file) (hstash : d'.stash = d.stash) :
    AgentFails faults spec wiring d' ↔ AgentFails faults spec wiring d := by
  unfold AgentFails StashFails
  rw [prepare_congr hfile, hstash]

theorem contentAfter_congr {spec : AgentSpec} {wiring : WiringCtx} {d d' : Disk}
    (hfile : d'.file = d.file) (path : String) :
    contentAfter faults spec wiring d' path = contentAfter faults spec wiring d path := by
  unfold contentAfter
  rw [prepare_congr hfile, hfile]

end

/-! ## The whole connect -/

/-- The applied values cannot be saved. -/
def AppliedFails (faults : Faults) (d : Disk) : Prop :=
  faults .writeApplied ∨ d.applied = .corrupt ∧ faults .readApplied = false ∧ faults .moveApplied

/-- The snapshot of a file cannot be taken. -/
def SnapshotFails (around : Surroundings) (spec : AgentSpec) (d : Disk) : Prop :=
  ∃ path ∈ spec.configFiles, TakeFails (around.faults .snapshot) d path

/-- What makes a connect fail. -/
def ConnectFails (around : Surroundings) (spec : AgentSpec) (wiring : WiringCtx) (d : Disk) : Prop :=
  SnapshotFails around spec d ∨ AgentFails (around.faults .agent) spec wiring d ∨
    AppliedFails (around.faults .record) d

theorem saveApplied_error_iff {faults : Faults} {applied : Applied} {d d' : Disk}
    {r : Except WiringError Unit} (h : saveApplied faults applied d = (r, d')) :
    ((∃ e, r = .error e) ↔ AppliedFails faults d) ∧ d'.file = d.file ∧
      ((∃ e, r = .error e) → d'.applied.load false = d.applied.load false) := by
  obtain ⟨rfl, rfl⟩ := Prod.mk.inj h
  refine ⟨?_, rfl, ?_⟩
  · unfold AppliedFails
    cases happlied : d.applied with
    | missing => cases faults .writeApplied <;> simp [Store.save]
    | valid a => cases faults .writeApplied <;> simp [Store.save]
    | corrupt =>
      cases faults .readApplied <;> cases faults .moveApplied <;> cases faults .writeApplied <;>
        simp [Store.save]
  · rintro ⟨e, he⟩
    exact Store.load_save_error (Prod.ext he rfl)

/-- **How a connect may end**: no snapshot is taken, the agent's own part fails and the files are put
back, or everything is written and only the applied values may not be saved. -/
theorem connect_cases {around : Surroundings} {spec : AgentSpec} {wiring : WiringCtx} {d d' : Disk}
    {result : Except WiringError (List String)}
    (h : Wiring.connect around spec wiring d = (result, d')) :
    ((∃ e, result = .error e) ∧ SnapshotFails around spec d ∧ d'.file = d.file ∧
        d'.applied = d.applied) ∨
    ((∃ e, result = .error e) ∧ ¬SnapshotFails around spec d ∧
        AgentFails (around.faults .agent) spec wiring d ∧ d'.applied = d.applied ∧
        ∀ path ∈ spec.configFiles, d'.file path =
          if Restorable (around.faults .recovery) path (keptBy d path) then keptBy d path
          else contentAfter (around.faults .agent) spec wiring d path) ∨
    (¬SnapshotFails around spec d ∧ ¬AgentFails (around.faults .agent) spec wiring d ∧
        (∀ path, d'.file path = contentAfter (around.faults .agent) spec wiring d path) ∧
        ((∃ e, result = .error e) ↔ AppliedFails (around.faults .record) d) ∧
        ((∃ e, result = .error e) → d'.applied.load false = d.applied.load false)) := by
  unfold Wiring.connect at h
  cases htake : take (around.faults .snapshot) spec.configFiles d with
  | mk r1 d1 =>
    rw [htake] at h
    cases r1 with
    | error e1 =>
      -- nothing but backups was written
      cases h
      obtain ⟨hfile, happlied, hfails⟩ := take_error htake
      exact Or.inl ⟨⟨_, rfl⟩, hfails, hfile, happlied⟩
    | ok _ =>
      obtain ⟨hfile1, hstash1, happlied1, hkept⟩ := take_ok htake
      have htaken : ¬SnapshotFails around spec d := by
        rintro ⟨path, hpath, hf⟩
        exact (hkept path hpath).2 hf
      dsimp only at h
      cases hagent : spec.connect (around.faults .agent) wiring d1 with
      | mk r2 d2 =>
        obtain ⟨hfile2, hbackup2, happlied2, hfails2⟩ := specConnect_file hagent
        have hfails : (∃ e, r2 = .error e) ↔
            AgentFails (around.faults .agent) spec wiring d :=
          hfails2.trans (agentFails_congr hfile1 hstash1)
        have hcontent : ∀ path,
            d2.file path = contentAfter (around.faults .agent) spec wiring d path :=
          fun path => (hfile2 path).trans (contentAfter_congr hfile1 path)
        rw [hagent] at h
        cases r2 with
        | error e2 =>
          cases h
          refine Or.inr (Or.inl ⟨⟨_, rfl⟩, htaken, hfails.mp ⟨_, rfl⟩, ?_, fun path hpath => ?_⟩)
          · rw [restoreAfterFailedConnect_applied, happlied2, happlied1]
          · have hbackup : d2.backup path = keptBy d path := by
              rw [hbackup2, (hkept path hpath).1]
            rw [restoreAfterFailedConnect_file hpath _ hbackup, hcontent]
        | ok written =>
          dsimp only at h
          have hworks : ¬AgentFails (around.faults .agent) spec wiring d := by
            intro hf
            obtain ⟨_, herr⟩ := hfails.mpr hf
            cases herr
          have happliedFails : AppliedFails (around.faults .record) d2 ↔
              AppliedFails (around.faults .record) d := by
            unfold AppliedFails
            rw [happlied2, happlied1]
          right
          right
          cases hsave : saveApplied (around.faults .record)
              ((loadApplied (around.faults .record) d2).record spec.id
                (spec.appliedValues (readableText (around.faults .record) d2)) around.now) d2 with
          | mk r3 d3 =>
            obtain ⟨hiff, hfile3, hload⟩ := saveApplied_error_iff hsave
            have hfiles : ∀ path,
                d3.file path = contentAfter (around.faults .agent) spec wiring d path :=
              fun path => by rw [hfile3, hcontent]
            rw [happlied2, happlied1] at hload
            rw [hsave] at h
            cases r3 with
            | ok _ =>
              cases h
              refine ⟨htaken, hworks, hfiles, ?_, ?_⟩
              · rw [← happliedFails, ← hiff]
                constructor <;> rintro ⟨_, he⟩ <;> cases he
              · rintro ⟨_, he⟩
                cases he
            | error e3 =>
              cases h
              refine ⟨htaken, hworks, hfiles, ?_, fun _ => hload ⟨_, rfl⟩⟩
              rw [← happliedFails, ← hiff]
              exact ⟨fun _ => ⟨_, rfl⟩, fun _ => ⟨_, rfl⟩⟩

section
variable {around : Surroundings} {spec : AgentSpec} {wiring : WiringCtx} {d d' : Disk}
  {result : Except WiringError (List String)}

theorem connect_error_iff (h : Wiring.connect around spec wiring d = (result, d')) :
    (∃ e, result = .error e) ↔ ConnectFails around spec wiring d := by
  rcases connect_cases h with ⟨herr, hfails, -⟩ | ⟨herr, -, hfails, -⟩ | ⟨htaken, hworks, -, hiff, -⟩
  · exact ⟨fun _ => Or.inl hfails, fun _ => herr⟩
  · exact ⟨fun _ => Or.inr (Or.inl hfails), fun _ => herr⟩
  · rw [hiff]
    exact ⟨fun hf => Or.inr (Or.inr hf),
      fun hf => (hf.resolve_left htaken).resolve_left hworks⟩

/-- The covered files are as they were exactly if the connect rolls back, or has written nothing
else. -/
theorem connect_files_iff (h : Wiring.connect around spec wiring d = (result, d')) :
    (∀ path ∈ spec.configFiles, d'.file path = d.file path) ↔ RollsBack around spec wiring d := by
  rcases connect_cases h with ⟨-, hfails, hfile, -⟩ | ⟨-, htaken, hfails, -, hfile⟩ |
    ⟨htaken, hworks, hfile, -⟩
  · exact ⟨fun _ => Or.inl hfails, fun _ path _ => by rw [hfile]⟩
  · constructor
    · intro hsame
      refine Or.inr (Or.inl ⟨hfails, fun path hpath => ?_⟩)
      have hsame := hsame path hpath
      rw [hfile path hpath] at hsame
      by_cases hr : Restorable (around.faults .recovery) path (keptBy d path)
      · rw [if_pos hr] at hsame ⊢
        exact hsame
      · rw [if_neg hr] at hsame ⊢
        exact hsame
    · rintro (htakeFails | ⟨-, hall⟩ | ⟨hnot, -⟩) path hpath
      · exact absurd htakeFails htaken
      · rw [hfile path hpath]
        have hsame := hall path hpath
        by_cases hr : Restorable (around.faults .recovery) path (keptBy d path)
        · rw [if_pos hr] at hsame ⊢
          exact hsame
        · rw [if_neg hr] at hsame ⊢
          exact hsame
      · exact absurd hfails hnot
  · constructor
    · intro hsame
      refine Or.inr (Or.inr ⟨hworks, fun path hpath => ?_⟩)
      rw [← hfile]
      exact hsame path hpath
    · rintro (htakeFails | ⟨hagentFails, -⟩ | ⟨-, hall⟩) path hpath
      · exact absurd htakeFails htaken
      · exact absurd hagentFails hworks
      · exact (hfile path).trans (hall path hpath)

end

/-- A connect that fails leaves the applied values as they were. -/
theorem failedConnect_applied {around : Surroundings} {spec : AgentSpec} {wiring : WiringCtx}
    {d d' : Disk} {e : WiringError} (h : Wiring.connect around spec wiring d = (.error e, d')) :
    d'.applied.load false = d.applied.load false := by
  rcases connect_cases h with ⟨-, -, -, happlied⟩ | ⟨-, -, -, happlied, -⟩ | ⟨-, -, -, -, hload⟩
  · rw [happlied]
  · rw [happlied]
  · exact hload ⟨e, rfl⟩

/-- **A failed connect leaves the files and the applied values as they were exactly if it rolls
back.** -/
theorem failedConnect_iff (around : Surroundings) (spec : AgentSpec) (wiring : WiringCtx)
    (d d' : Disk) (e : WiringError)
    (hfail : Wiring.connect around spec wiring d = (.error e, d')) :
    Untouched spec d d' ↔ RollsBack around spec wiring d :=
  ⟨fun huntouched => (connect_files_iff hfail).mp huntouched.files,
    fun hback => ⟨(connect_files_iff hfail).mpr hback, failedConnect_applied hfail⟩⟩

/-! ## Two runs -/

/-- Nothing fails. -/
def calm : Surroundings := ⟨fun _ _ => false, 0⟩

/-- A compact JSON library, and a TOML library that reads the empty document. -/
def sampleLibraries : Libraries where
  codec := JsonText.compactCodec
  pretty := JsonText.compactCodec.toText
  toml := {
    Layout := Unit
    plain := ()
    inPlace := id
    parse := fun text => if text = "" then .ok ([], ()) else .error "unsupported"
    print := fun _ => ""
    itemText := fun _ => ""
    valueText := fun _ => ""
    floatText := fun _ => "" }

def ada : HomeCtx where
  home := "/home/ada"
  env := fun _ => none
  currentDir := none

def adaGemini : AgentSpec := GeminiSpec.spec sampleLibraries ada

def adaWiring : WiringCtx where
  gatewayUrl := "http://127.0.0.1:8787"
  agentKey := "key"
  catalog := []
  defaultModel := "m"

/-- A disk with nothing of an agent's or ours. -/
def emptyDisk : Disk where
  file := fun _ => none
  backup := fun _ => none
  absent := fun _ => false
  stash := .missing
  applied := .missing

/-- A text in another encoding than UTF-8. -/
def latinText : Content := .binary [35, 32, 99, 108, 233]

def latinDisk : Disk := emptyDisk.setFile (GeminiSpec.envPath ada) (some latinText)

/-- A first connect that cannot read a file puts it back. -/
theorem failedConnect_iff_latin :
    ∃ e d', Wiring.connect calm adaGemini adaWiring latinDisk = (.error e, d') ∧
      (Untouched adaGemini latinDisk d' ↔ RollsBack calm adaGemini adaWiring latinDisk) := by
  have herror : (Wiring.connect calm adaGemini adaWiring latinDisk).1 =
      .error (.io "configuration is not utf-8") := by
    decide +kernel
  exact ⟨_, _, Prod.ext herror rfl, failedConnect_iff _ _ _ _ _ _ (Prod.ext herror rfl)⟩

/-- The disk after a connect, and an edit of the user in another encoding. -/
def editedDisk : Disk :=
  (Wiring.connect calm adaGemini adaWiring emptyDisk).2.setFile (GeminiSpec.envPath ada)
    (some latinText)

/-- The next connect fails, and the file of the user is removed: it was absent before the first. -/
theorem latinReconnect_removes :
    (Wiring.connect calm adaGemini adaWiring emptyDisk).1.isOk ∧
    ∃ e d', Wiring.connect calm adaGemini adaWiring editedDisk = (.error e, d') ∧
      ¬Untouched adaGemini editedDisk d' := by
  have herror : (Wiring.connect calm adaGemini adaWiring editedDisk).1 =
      .error (.io "configuration is not utf-8") := by
    decide +kernel
  refine ⟨by decide +kernel, _, _, Prod.ext herror rfl, ?_⟩
  intro huntouched
  have hsame := huntouched.files (GeminiSpec.envPath ada) (by decide +kernel)
  revert hsame
  decide +kernel

end AnyConverter
