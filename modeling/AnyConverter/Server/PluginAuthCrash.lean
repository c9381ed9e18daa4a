import AnyConverter.Server.PluginAuth
import AnyConverter.Server.Recovery

/-!
# The plugin auth file across a crash

A save copies the file to its backup and then renames the new file into its place.

* `recovered_iff`: when a load survives every crash inside a change, and when the backup only ever
  holds what was committed.
-/

set_option autoImplicit false

namespace AnyConverter.PluginAuth

open Crash SecretStore

variable {Auth : Type}

inductive AuthStoreError where
  | corrupted
  | json
  deriving DecidableEq, Repr

/-- `PluginAuthStore::load`, which differs from that of the secrets file in its errors only. -/
def load (files : Files Auth) : Except AuthStoreError (Store Auth) :=
  (SecretStore.load files).mapError fun
    | .notFound => .corrupted
    | .serialize => .json

/-- `PluginAuthStore::save` -/
def save (format : FileFormat Auth) (map : Store Auth) : List (FileOp StorePath) :=
  [.write .tmp (format.toVecPretty map), .copy .path .backup, .rename .tmp .path]

/-- What `set` and `remove` do with the map they have loaded. -/
def Op.program (format : FileFormat Auth) (op : Op Auth) (map : Store Auth) :
    List (FileOp StorePath) :=
  match op.saves map with
  | some new => save format new
  | none => []

/-- A load gives the map before the change or the map behind it. -/
def Recovers (format : FileFormat Auth) (disk : Disk StorePath) (op : Op Auth) (map : Store Auth)
    (pt : Point) : Prop :=
  load (filesOn format (crash disk (op.program format map) pt)) = .ok map ∨
    load (filesOn format (crash disk (op.program format map) pt)) = .ok (op.apply map)

/-- The backup is as it was, or holds the whole of a file that parses. -/
def BackupCommitted (format : FileFormat Auth) (disk : Disk StorePath) (op : Op Auth)
    (map : Store Auth) (pt : Point) : Prop :=
  crash disk (op.program format map) pt .backup = disk .backup ∨
    ∃ bytes committed, disk .path = some bytes ∧ format.fromSlice bytes = some committed ∧
      crash disk (op.program format map) pt .backup = some bytes

/-- Whether the crash is inside the copy to the backup. -/
def InCopy (pt : Point) : Prop := pt.before = 1 ∧ pt.written ≠ none

section
variable {format : FileFormat Auth} {disk : Disk StorePath} {map new : Store Auth}

/-! ## Loads -/

theorem load_eq_ok {files : Files Auth} :
    load files = .ok map ↔ SecretStore.load files = .ok map := by
  unfold load
  cases SecretStore.load files with
  | ok loaded => simp [Except.mapError]
  | error e => simp [Except.mapError]

/-! ## The files at each point -/

/-- Up to the rename the file is as it was. -/
theorem save_path_before {before : Nat} (h : before < 3) (written : Option Nat) :
    crash disk (save format new) ⟨before, written⟩ .path = disk .path := by
  cases hpath : disk .path <;> match before, h with
  | 0, _ => cases written <;> simp [save, FileOp.tear, hpath]
  | 1, _ => cases written <;> simp [save, FileOp.run, FileOp.tear, hpath]
  | 2, _ => cases written <;> simp [save, FileOp.run, FileOp.tear, hpath]

theorem save_path_done (before : Nat) (written : Option Nat) :
    crash disk (save format new) ⟨before + 3, written⟩ .path = some (format.toVecPretty new) := by
  cases hpath : disk .path <;> simp [save, FileOp.run, hpath]

/-- Without a file there is nothing to copy. -/
theorem save_backup_absent (hpath : disk .path = none) (pt : Point) :
    crash disk (save format new) pt .backup = disk .backup := by
  match pt with
  | ⟨0, written⟩ => cases written <;> simp [save, FileOp.tear]
  | ⟨1, written⟩ => cases written <;> simp [save, FileOp.run, FileOp.tear, hpath]
  | ⟨2, written⟩ => cases written <;> simp [save, FileOp.run, FileOp.tear, hpath]
  | ⟨before + 3, written⟩ => simp [save, FileOp.run, hpath]

section
variable {bytes : List UInt8} (hpath : disk .path = some bytes)
include hpath

theorem save_backup_torn (written : Nat) :
    crash disk (save format new) ⟨1, some written⟩ .backup = some (bytes.take written) := by
  simp [save, FileOp.run, FileOp.tear, hpath]

theorem save_backup_copied (before : Nat) (written : Option Nat) :
    crash disk (save format new) ⟨before + 2, written⟩ .backup = some bytes := by
  match before, written with
  | 0, none => simp [save, FileOp.run, hpath]
  | 0, some _ => simp [save, FileOp.run, FileOp.tear, hpath]
  | before + 1, written => simp [save, FileOp.run, hpath]

/-- Outside the copy the backup is as it was or holds the whole file. -/
theorem save_backup_outside {pt : Point} (hout : ¬InCopy pt) :
    crash disk (save format new) pt .backup = disk .backup ∨
      crash disk (save format new) pt .backup = some bytes := by
  match pt with
  | ⟨0, written⟩ => exact Or.inl (by cases written <;> simp [save, FileOp.tear])
  | ⟨1, none⟩ => exact Or.inl (by simp [save, FileOp.run])
  | ⟨1, some _⟩ => exact absurd ⟨rfl, Option.some_ne_none _⟩ hout
  | ⟨before + 2, written⟩ => exact Or.inr (save_backup_copied hpath before written)

end

/-! ## Recovery -/

/-- A file that parses, or none, is what a load gives until it is replaced. -/
theorem save_load (hload : load (filesOn format disk) = .ok map) (hreads : format.Reads new)
    (hintact : ¬Corrupt format disk) (pt : Point) :
    load (filesOn format (crash disk (save format new) pt)) = .ok map ∨
      load (filesOn format (crash disk (save format new) pt)) = .ok new := by
  simp only [load_eq_ok] at hload ⊢
  obtain ⟨before, written⟩ := pt
  by_cases hbefore : before < 3
  · left
    have hsame : crash disk (save format new) ⟨before, written⟩ .path = disk .path :=
      save_path_before hbefore written
    cases hpath : disk .path with
    | none =>
      rw [load_absent (hsame.trans hpath), ← hload, load_absent hpath]
    | some bytes =>
      cases hread : format.fromSlice bytes with
      | none => exact absurd ⟨bytes, hpath, hread⟩ hintact
      | some loaded =>
        rw [load_intact (hsame.trans hpath) hread, ← hload, load_intact hpath hread]
  · right
    obtain ⟨k, rfl⟩ : ∃ k, before = k + 3 := ⟨before - 3, by omega⟩
    exact load_intact (save_path_done k written) hreads.back

/-- **A corrupt file is copied over the backup it was read from**: a crash behind that finds nothing
that parses. -/
theorem save_load_corrupt (hcorrupt : Corrupt format disk) (loaded : Store Auth) :
    load (filesOn format (crash disk (save format new) ⟨2, none⟩)) ≠ .ok loaded := by
  obtain ⟨bytes, hpath, hread⟩ := hcorrupt
  intro h
  have hstill : Corrupt format (crash disk (save format new) ⟨2, none⟩) :=
    ⟨bytes, (save_path_before (by decide) none).trans hpath, hread⟩
  have hbackup := (load_corrupt hstill).mp (load_eq_ok.mp h)
  rw [save_backup_copied hpath 0 none, Option.bind_some, hread] at hbackup
  cases hbackup

/-- What is in the backup while the file is not corrupt. -/
theorem save_backup_intact (hintact : ¬Corrupt format disk) {pt : Point} (hout : ¬InCopy pt) :
    crash disk (save format new) pt .backup = disk .backup ∨
      ∃ bytes committed, disk .path = some bytes ∧ format.fromSlice bytes = some committed ∧
        crash disk (save format new) pt .backup = some bytes := by
  cases hpath : disk .path with
  | none => exact Or.inl (save_backup_absent hpath pt)
  | some bytes =>
    have houtside : crash disk (save format new) pt .backup = disk .backup ∨
        crash disk (save format new) pt .backup = some bytes := save_backup_outside hpath hout
    rcases houtside with hsame | hcopied
    · exact Or.inl hsame
    · cases hread : format.fromSlice bytes with
      | none => exact absurd ⟨bytes, hpath, hread⟩ hintact
      | some committed => exact Or.inr ⟨bytes, committed, rfl, hread, hcopied⟩

/-- The copy of a corrupt file is not what the backup held, nor was it committed. -/
theorem save_backup_corrupt (hload : load (filesOn format disk) = .ok map)
    (hcorrupt : Corrupt format disk) :
    ¬(crash disk (save format new) ⟨2, none⟩ .backup = disk .backup ∨
      ∃ bytes committed, disk .path = some bytes ∧ format.fromSlice bytes = some committed ∧
        crash disk (save format new) ⟨2, none⟩ .backup = some bytes) := by
  have hbackup := (load_corrupt hcorrupt).mp (load_eq_ok.mp hload)
  obtain ⟨bytes, hpath, hread⟩ := hcorrupt
  rw [save_backup_copied hpath 0 none]
  rintro (hsame | ⟨bytes', committed, hpath', hread', -⟩)
  · rw [← hsame, Option.bind_some, hread] at hbackup
    cases hbackup
  · rw [hpath] at hpath'
    cases hpath'
    rw [hread] at hread'
    cases hread'

/-- A file is copied piece by piece: after no byte, or after one, the backup holds what nobody
committed. -/
theorem save_backup_pieces (hload : load (filesOn format disk) = .ok map)
    (hshort : ∀ bytes : List UInt8, bytes.length < 2 → format.fromSlice bytes = none)
    (h : ∀ written, crash disk (save format new) ⟨1, some written⟩ .backup = disk .backup ∨
      ∃ bytes committed, disk .path = some bytes ∧ format.fromSlice bytes = some committed ∧
        crash disk (save format new) ⟨1, some written⟩ .backup = some bytes) :
    disk .path = none := by
  by_contra hsome
  obtain ⟨bytes, hpath⟩ := Option.ne_none_iff_exists'.mp hsome
  -- so few bytes are what the backup held before
  have hpiece : ∀ written < 2, disk .backup = some (bytes.take written) := by
    intro written hlt
    have hlength : (bytes.take written).length < 2 :=
      Nat.lt_of_le_of_lt (List.length_take_le written bytes) hlt
    have hat := h written
    rw [save_backup_torn hpath] at hat
    rcases hat with hsame | ⟨bytes', committed, -, hread, hwhole⟩
    · exact hsame.symm
    · cases hwhole
      rw [hshort _ hlength] at hread
      cases hread
  have hsame := Option.some.inj ((hpiece 0 (by decide)).symm.trans (hpiece 1 (by decide)))
  obtain rfl : bytes = [] := by
    cases bytes with
    | nil => rfl
    | cons b bytes => cases hsame
  -- and an empty file is read from a backup that is not empty
  have hcorrupt : Corrupt format disk := ⟨[], hpath, hshort [] (by decide)⟩
  have hbackup := (load_corrupt hcorrupt).mp (load_eq_ok.mp hload)
  rw [hpiece 0 (by decide), Option.bind_some, List.take_zero, hshort [] (by decide)] at hbackup
  cases hbackup

/-- **Recovery**: a load survives every crash exactly when no corrupt file is copied; outside of the
copy the backup then holds what was committed too; and inside it only when there is nothing to
copy. -/
theorem recovered_iff (op : Op Auth) (hload : load (filesOn format disk) = .ok map)
    (hreads : format.Reads (op.apply map)) :
    ((∀ pt, Recovers format disk op map pt) ↔ (op.saves map ≠ none → ¬Corrupt format disk)) ∧
      ((∀ pt, ¬InCopy pt → BackupCommitted format disk op map pt) ↔
        (op.saves map ≠ none → ¬Corrupt format disk)) ∧
      ((∀ pt, Recovers format disk op map pt ∧ BackupCommitted format disk op map pt) ↔
        (op.saves map ≠ none → disk .path = none)) := by
  unfold Recovers BackupCommitted Op.program
  cases hsaves : op.saves map with
  | none =>
    refine ⟨iff_of_true (fun pt => Or.inl hload) fun h => absurd rfl h,
      iff_of_true (fun pt _ => Or.inl rfl) fun h => absurd rfl h,
      iff_of_true (fun pt => ⟨Or.inl hload, Or.inl rfl⟩) fun h => absurd rfl h⟩
  | some new =>
    have hnew : op.apply map = new := by simp [Op.apply, hsaves]
    rw [hnew] at hreads ⊢
    have hsome : some new ≠ none := Option.some_ne_none new
    refine ⟨⟨fun h _ hcorrupt => ?_, fun h => save_load hload hreads (h hsome)⟩,
      ⟨fun h _ hcorrupt => ?_, fun h pt hout => ?_⟩, ⟨fun h _ => ?_, fun h pt => ?_⟩⟩
    · rcases h ⟨2, none⟩ with hbefore | hbehind
      · exact save_load_corrupt hcorrupt _ hbefore
      · exact save_load_corrupt hcorrupt _ hbehind
    · have hout : ¬InCopy ⟨2, none⟩ := fun hin => absurd hin.1 (by decide)
      exact save_backup_corrupt hload hcorrupt (h ⟨2, none⟩ hout)
    · exact save_backup_intact (h hsome) hout
    · exact save_backup_pieces hload hreads.short fun written => (h ⟨1, some written⟩).2
    · have hintact : ¬Corrupt format disk := by
        rintro ⟨bytes, hpath, -⟩
        rw [h hsome] at hpath
        cases hpath
      exact ⟨save_load hload hreads hintact pt, Or.inl (save_backup_absent (h hsome) pt)⟩

end

/-- A damaged file beside a backup that parses. -/
def damaged : Disk StorePath
  | .path => some (ascii "\x7b")
  | .backup => some (ascii "\x7b\x7d")
  | .tmp => none

/-- **The damaged file is copied over the backup**: after a crash just behind that, nothing is
left. -/
theorem damaged_copied : ¬∀ (format : FileFormat Nat) (disk : Disk StorePath) (map : Store Nat)
    (op : Op Nat),
    load (filesOn format disk) = .ok map → format.Reads (op.apply map) → ∀ pt,
      Recovers format disk op map pt ∧ BackupCommitted format disk op map pt := by
  intro h
  have hrecovers := (h twoMaps damaged noAccounts (.set "gemini:a" 1) rfl twoMaps_reads ⟨2, none⟩).1
  have herror : load (filesOn twoMaps (crash damaged
      (Op.program twoMaps (.set "gemini:a" 1) noAccounts) ⟨2, none⟩)) = .error .json := rfl
  unfold Recovers at hrecovers
  rw [herror] at hrecovers
  rcases hrecovers with hbefore | hbehind
  · cases hbefore
  · cases hbehind

/-- A new account, beside a damaged file. -/
theorem recovered_damaged :
    ((∀ pt, Recovers twoMaps damaged (.set "gemini:a" 1) noAccounts pt) ↔
        ((Op.set "gemini:a" 1).saves noAccounts ≠ none → ¬Corrupt twoMaps damaged)) ∧
      ((∀ pt, ¬InCopy pt → BackupCommitted twoMaps damaged (.set "gemini:a" 1) noAccounts pt) ↔
        ((Op.set "gemini:a" 1).saves noAccounts ≠ none → ¬Corrupt twoMaps damaged)) ∧
      ((∀ pt, Recovers twoMaps damaged (.set "gemini:a" 1) noAccounts pt ∧
          BackupCommitted twoMaps damaged (.set "gemini:a" 1) noAccounts pt) ↔
        ((Op.set "gemini:a" 1).saves noAccounts ≠ none → damaged .path = none)) :=
  recovered_iff (.set "gemini:a" 1) rfl twoMaps_reads

end AnyConverter.PluginAuth
