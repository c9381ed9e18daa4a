import AnyConverter.Lib.Crash
import AnyConverter.Server.SecretStore

/-!
# Stores across a crash

The secrets file and the plugin auth file are written alike: the whole map goes into a temporary
file that is renamed over the file, and a copy of the file is kept beside it.  A file that does not
parse is read from its copy.  Both are modelled as on Unix, where a rename replaces its target.

* `load_intact`, `load_absent`, `load_corrupt`: what is read;
* `survives_iff`: when the copy makes up for a file that is damaged later;
* `twoMaps_reads`: a library of which all this is true, as far as two maps go.
-/

set_option autoImplicit false

namespace AnyConverter.SecretStore

open Crash

variable {Credential : Type}

/-- The file of a store, its copy, and the temporary file. -/
inductive StorePath where
  | path
  | backup
  | tmp
  deriving DecidableEq, Repr

/-- The JSON library: how a map is written, and what is read from the bytes of a file. -/
structure FileFormat (Credential : Type) where
  toVecPretty : DiskMap Credential → List UInt8
  fromSlice : List UInt8 → Option (DiskMap Credential)

/-- What the library is documented to do: a map is read back from what was written of it, and from
no part of that; and an object takes two bytes at least. -/
structure FileFormat.Reads (format : FileFormat Credential) (map : DiskMap Credential) : Prop where
  back : format.fromSlice (format.toVecPretty map) = some map
  whole : ∀ n < (format.toVecPretty map).length,
    format.fromSlice ((format.toVecPretty map).take n) = none
  short : ∀ bytes : List UInt8, bytes.length < 2 → format.fromSlice bytes = none

variable (format : FileFormat Credential)

/-- `read_file`, of a file that is there. -/
def FileFormat.contents (bytes : List UInt8) : Contents Credential :=
  match format.fromSlice bytes with
  | some map => .map map
  | none => .corrupt

/-- What a load sees. -/
def filesOn (disk : Disk StorePath) : Files Credential where
  path := (disk .path).map format.contents
  backup := (disk .backup).map format.contents

/-- The file is there, and does not parse. -/
def Corrupt (disk : Disk StorePath) : Prop :=
  ∃ bytes, disk .path = some bytes ∧ format.fromSlice bytes = none

/-- The copy makes up for the file, or there is no file. -/
def Held (disk : Disk StorePath) (map : DiskMap Credential) : Prop :=
  disk .path = none ∨ (disk .backup).bind format.fromSlice = some map

/-- When the file is damaged later, a load still gives what it gave before. -/
def SurvivesCorruption (disk : Disk StorePath) : Prop :=
  ∀ bytes, disk .path ≠ none → format.fromSlice bytes = none →
    load (filesOn format (Function.update disk .path (some bytes))) = load (filesOn format disk)

section
variable {format} {disk : Disk StorePath} {map : DiskMap Credential} {bytes : List UInt8}

theorem load_absent (h : disk .path = none) : load (filesOn format disk) = .ok fun _ => none := by
  simp only [load, filesOn, h, Option.map_none]

theorem load_intact (h : disk .path = some bytes) (hread : format.fromSlice bytes = some map) :
    load (filesOn format disk) = .ok map := by
  simp only [load, filesOn, h, Option.map_some, FileFormat.contents, hread]

/-- A file that does not parse is read from its copy. -/
theorem load_corrupt (h : Corrupt format disk) :
    load (filesOn format disk) = .ok map ↔ (disk .backup).bind format.fromSlice = some map := by
  obtain ⟨bytes, hpath, hread⟩ := h
  simp only [load, filesOn, hpath, Option.map_some, FileFormat.contents, hread]
  cases hbackup : disk .backup with
  | none => simp
  | some copied =>
    cases hcopied : format.fromSlice copied with
    | none => simp [FileFormat.contents, hcopied]
    | some old => simp [FileFormat.contents, hcopied]

/-- **The copy makes up for the file** exactly when it holds what the file does. -/
theorem survives_iff (hempty : format.fromSlice [] = none)
    (hload : load (filesOn format disk) = .ok map) :
    SurvivesCorruption format disk ↔ Held format disk map := by
  constructor
  · intro h
    by_cases hpath : disk .path = none
    · exact Or.inl hpath
    · have hcorrupt : Corrupt format (Function.update disk .path (some [])) :=
        ⟨[], Function.update_self .., hempty⟩
      have hread := (load_corrupt hcorrupt).mp ((h [] hpath hempty).trans hload)
      rw [Function.update_of_ne (by decide)] at hread
      exact Or.inr hread
  · rintro (hpath | hbackup) bytes hsome hread
    · exact absurd hpath hsome
    · have hcorrupt : Corrupt format (Function.update disk .path (some bytes)) :=
        ⟨bytes, Function.update_self .., hread⟩
      rw [hload, load_corrupt hcorrupt, Function.update_of_ne (by decide)]
      exact hbackup

end

/-! ## Two maps -/

def ascii (s : String) : List UInt8 := s.toList.map fun c => UInt8.ofNat c.toNat

/-- The empty map, and one with one account. -/
def noAccounts : DiskMap Nat := fun _ => none

def oneAccount : DiskMap Nat := Function.update noAccounts "gemini:a" (some 1)

/-- The JSON of these two maps. -/
def twoMaps : FileFormat Nat where
  toVecPretty map :=
    if map "gemini:a" = none then ascii "\x7b\x7d" else ascii "\x7b\n  \"gemini:a\": 1\n\x7d"
  fromSlice bytes :=
    if bytes = ascii "\x7b\x7d" then some noAccounts
    else if bytes = ascii "\x7b\n  \"gemini:a\": 1\n\x7d" then some oneAccount
    else none

theorem twoMaps_reads : twoMaps.Reads oneAccount where
  back := by rfl
  whole := by
    intro n hn
    have hall : ∀ n < (twoMaps.toVecPretty oneAccount).length,
        (twoMaps.fromSlice ((twoMaps.toVecPretty oneAccount).take n)).isNone = true := by
      decide +kernel
    exact Option.isNone_iff_eq_none.mp (hall n hn)
  short := by
    intro bytes hshort
    have hempty : bytes ≠ ascii "\x7b\x7d" := by
      rintro rfl
      exact absurd hshort (by decide)
    have hone : bytes ≠ ascii "\x7b\n  \"gemini:a\": 1\n\x7d" := by
      rintro rfl
      exact absurd hshort (by decide)
    simp [twoMaps, hempty, hone]

end AnyConverter.SecretStore
