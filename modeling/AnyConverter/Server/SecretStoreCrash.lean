import AnyConverter.Server.Recovery

/-!
# The secrets file across a crash

A save renames the new file into its place and then copies it to the backup.

* `load_crash`: wherever a crash stops a change, a load gives the map before it or the one behind it;
* `crash_iff`: when a later damage of the file loses nothing either.
-/

set_option autoImplicit false

namespace AnyConverter.SecretStore

open Crash

variable {Credential : Type}

/-- `FileSecretStore::save`: `write_private`, and the copy. -/
def save (format : FileFormat Credential) (map : DiskMap Credential) : List (FileOp StorePath) :=
  [.write .tmp (format.toVecPretty map), .rename .tmp .path, .copy .path .backup]

/-- What `put` and `delete` do with the map they have loaded. -/
def Op.program (format : FileFormat Credential) (op : Op Credential) (map : DiskMap Credential) :
    List (FileOp StorePath) :=
  if op.saves map then save format (op.apply map) else []

/-- Before the rename the copy makes up for the file when it did so at first; between the rename and
the copy it would have to hold the new map already; and inside the copy nothing of it may be
missing. -/
def CopyHolds (format : FileFormat Credential) (disk : Disk StorePath)
    (map new : DiskMap Credential) : Point → Prop
  | ⟨0, _⟩ | ⟨1, _⟩ => Held format disk map
  | ⟨2, none⟩ => (disk .backup).bind format.fromSlice = some new
  | ⟨2, some written⟩ => (format.toVecPretty new).length ≤ written
  | ⟨_ + 3, _⟩ => True

section
variable {format : FileFormat Credential} {disk : Disk StorePath} {map new : DiskMap Credential}

/-! ## The files at each point -/

/-- Before the rename the file and its copy are as they were. -/
theorem save_before {before : Nat} (h : before < 2) (written : Option Nat) {file : StorePath}
    (hfile : file ≠ .tmp) : crash disk (save format new) ⟨before, written⟩ file = disk file := by
  have hrun : (FileOp.write StorePath.tmp (format.toVecPretty new)).run disk file = disk file :=
    Function.update_of_ne hfile ..
  match before, h with
  | 0, _ =>
    cases written with
    | none => rfl
    | some written => exact Function.update_of_ne hfile ..
  | 1, _ => cases written <;> exact hrun

/-- Once it is renamed the file holds the new map. -/
theorem save_path (before : Nat) (written : Option Nat) :
    crash disk (save format new) ⟨before + 2, written⟩ .path = some (format.toVecPretty new) := by
  match before, written with
  | 0, none => rfl
  | 0, some _ => rfl
  | _ + 1, _ => rfl

theorem save_backup_renamed : crash disk (save format new) ⟨2, none⟩ .backup = disk .backup := rfl

theorem save_backup_torn (written : Nat) : crash disk (save format new) ⟨2, some written⟩ .backup =
    some ((format.toVecPretty new).take written) := rfl

theorem save_backup_done (before : Nat) (written : Option Nat) :
    crash disk (save format new) ⟨before + 3, written⟩ .backup = some (format.toVecPretty new) :=
  rfl

/-! ## Loads -/

theorem filesOn_before {before : Nat} (h : before < 2) (written : Option Nat) :
    filesOn format (crash disk (save format new) ⟨before, written⟩) = filesOn format disk := by
  simp only [filesOn, save_before h written (show StorePath.path ≠ .tmp by decide),
    save_before h written (show StorePath.backup ≠ .tmp by decide)]

theorem load_renamed (hreads : format.Reads new) (before : Nat) (written : Option Nat) :
    load (filesOn format (crash disk (save format new) ⟨before + 2, written⟩)) = .ok new :=
  load_intact (save_path before written) hreads.back

/-- **Wherever a crash stops a change**, a load gives the map before it or the map behind it. -/
theorem load_crash (op : Op Credential) (hload : load (filesOn format disk) = .ok map)
    (hreads : format.Reads (op.apply map)) (pt : Point) :
    load (filesOn format (crash disk (op.program format map) pt)) = .ok map ∨
      load (filesOn format (crash disk (op.program format map) pt)) = .ok (op.apply map) := by
  unfold Op.program
  split
  · match pt with
    | ⟨0, written⟩ => exact Or.inl (by rw [filesOn_before (by decide), hload])
    | ⟨1, written⟩ => exact Or.inl (by rw [filesOn_before (by decide), hload])
    | ⟨before + 2, written⟩ => exact Or.inr (load_renamed hreads before written)
  · exact Or.inl hload

/-! ## Damage afterwards -/

theorem held_before {before : Nat} (h : before < 2) (written : Option Nat) :
    Held format (crash disk (save format new) ⟨before, written⟩) map ↔ Held format disk map := by
  simp only [Held, save_before h written (show StorePath.path ≠ .tmp by decide),
    save_before h written (show StorePath.backup ≠ .tmp by decide)]

theorem held_renamed (before : Nat) (written : Option Nat) :
    Held format (crash disk (save format new) ⟨before + 2, written⟩) map ↔
      (crash disk (save format new) ⟨before + 2, written⟩ .backup).bind format.fromSlice =
        some map := by
  rw [Held, save_path]
  exact or_iff_right (Option.some_ne_none _)

/-- Part of a copy does not read as the whole. -/
theorem read_take_iff (hreads : format.Reads new) (written : Nat) :
    format.fromSlice ((format.toVecPretty new).take written) = some new ↔
      (format.toVecPretty new).length ≤ written := by
  constructor
  · intro h
    by_contra hshort
    rw [hreads.whole written (Nat.not_le.mp hshort)] at h
    cases h
  · intro h
    rw [List.take_of_length_le h, hreads.back]

/-- A later damage of the file loses nothing exactly when the copy holds what the file does. -/
theorem save_survives_iff (hload : load (filesOn format disk) = .ok map) (hreads : format.Reads new)
    (pt : Point) :
    SurvivesCorruption format (crash disk (save format new) pt) ↔
      CopyHolds format disk map new pt := by
  have hempty := hreads.short [] (by decide)
  have hbefore : ∀ before < 2, ∀ written,
      (SurvivesCorruption format (crash disk (save format new) ⟨before, written⟩) ↔
        Held format disk map) := by
    intro before h written
    rw [survives_iff hempty ((congrArg load (filesOn_before h written)).trans hload), held_before h]
  match pt with
  | ⟨0, written⟩ => exact hbefore 0 (by decide) written
  | ⟨1, written⟩ => exact hbefore 1 (by decide) written
  | ⟨2, none⟩ =>
    rw [survives_iff hempty (load_renamed hreads 0 none), held_renamed, save_backup_renamed]
    exact Iff.rfl
  | ⟨2, some written⟩ =>
    rw [survives_iff hempty (load_renamed hreads 0 (some written)), held_renamed, save_backup_torn]
    exact read_take_iff hreads written
  | ⟨before + 3, written⟩ =>
    rw [survives_iff hempty (load_renamed hreads (before + 1) written), held_renamed,
      save_backup_done]
    exact iff_of_true hreads.back trivial

/-- **A crash and a later damage**: the crash alone never loses anything, and the two lose nothing
exactly when the copy holds what the file does where the crash is. -/
theorem crash_iff (op : Op Credential) (hload : load (filesOn format disk) = .ok map)
    (hreads : format.Reads (op.apply map)) (pt : Point) :
    (load (filesOn format (crash disk (op.program format map) pt)) = .ok map ∨
        load (filesOn format (crash disk (op.program format map) pt)) = .ok (op.apply map)) ∧
      (SurvivesCorruption format (crash disk (op.program format map) pt) ↔
        if op.saves map then CopyHolds format disk map (op.apply map) pt
        else Held format disk map) := by
  refine ⟨load_crash op hload hreads pt, ?_⟩
  unfold Op.program
  split
  · exact save_survives_iff hload hreads pt
  · exact survives_iff (hreads.short [] (by decide)) hload

end

/-! ## A torn copy -/

/-- An empty store with its copy. -/
def fresh : Disk StorePath
  | .path => some (ascii "\x7b\x7d")
  | .backup => some (ascii "\x7b\x7d")
  | .tmp => none

/-- **The copy is emptied before it is written**: after a crash just there, only the file is left. -/
theorem torn_copy : ¬∀ (format : FileFormat Nat) (disk : Disk StorePath) (map : DiskMap Nat)
    (op : Op Nat),
    load (filesOn format disk) = .ok map → format.Reads (op.apply map) → ∀ pt,
      (load (filesOn format (crash disk (op.program format map) pt)) = .ok map ∨
          load (filesOn format (crash disk (op.program format map) pt)) = .ok (op.apply map)) ∧
        SurvivesCorruption format (crash disk (op.program format map) pt) := by
  intro h
  have hsurvives := (h twoMaps fresh noAccounts (.put "gemini:a" 1) rfl twoMaps_reads
    ⟨2, some 0⟩).2 [] (Option.some_ne_none _) rfl
  have hbefore : load (filesOn twoMaps (crash fresh
      (Op.program twoMaps (.put "gemini:a" 1) noAccounts) ⟨2, some 0⟩)) = .ok oneAccount := rfl
  have hafter : load (filesOn twoMaps (Function.update (crash fresh
      (Op.program twoMaps (.put "gemini:a" 1) noAccounts) ⟨2, some 0⟩) .path (some []))) =
      .error .serialize := rfl
  rw [hbefore, hafter] at hsurvives
  cases hsurvives

/-- A crash before the rename, with a copy that was made. -/
theorem crash_before_rename :
    (load (filesOn twoMaps (crash fresh (Op.program twoMaps (.put "gemini:a" 1) noAccounts)
          ⟨1, none⟩)) = .ok noAccounts ∨
        load (filesOn twoMaps (crash fresh (Op.program twoMaps (.put "gemini:a" 1) noAccounts)
          ⟨1, none⟩)) = .ok oneAccount) ∧
      (SurvivesCorruption twoMaps (crash fresh (Op.program twoMaps (.put "gemini:a" 1) noAccounts)
          ⟨1, none⟩) ↔ Held twoMaps fresh noAccounts) :=
  crash_iff (.put "gemini:a" 1) rfl twoMaps_reads ⟨1, none⟩

end AnyConverter.SecretStore
