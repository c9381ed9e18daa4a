import AnyConverter.Wiring.Edit.Basic

/-!
# Files and recovery stores

What an agent's wiring reads and writes: the configuration files, a byte backup or an absent marker
beside each of them, the stash of old values and the record of applied ones.  An operation either
fails, and has changed nothing, or does what it says.
-/

set_option autoImplicit false

namespace AnyConverter

/-- The bytes of a file: those of a text, or bytes that are no UTF-8. -/
inductive Content where
  | text (s : String)
  | binary (bytes : List UInt8)
  deriving DecidableEq

inductive WiringError where
  | backup (message : String)
  | edit (error : EditError)
  | io (message : String)
  | refused (reason : String)
  deriving DecidableEq

/-- A JSON file of our own: missing, no longer readable, or holding a value. -/
inductive Store (α : Type) where
  | missing
  | corrupt
  | valid (a : α)

/-- Keys with their values. -/
abbrev Values := List (String × String)

/-- Old values, by agent. -/
abbrev Stash := List (String × Values)

/-- An applied value, and when it was written. -/
structure Entry where
  value : String
  at_ : Nat
  deriving DecidableEq

/-- Applied values, by agent. -/
abbrev Applied := List (String × List (String × Entry))

structure Disk where
  file : String → Option Content
  /-- `<file>.before-any-converter` -/
  backup : String → Option Content
  /-- whether `<file>.before-any-converter.absent` exists -/
  absent : String → Bool
  stash : Store Stash
  applied : Store Applied

/-- What can fail. -/
inductive Op where
  | readFile (path : String)
  | writeFile (path : String)
  | removeFile (path : String)
  | readBackup (path : String)
  | writeBackup (path : String)
  | writeMarker (path : String)
  | moveBackup (path : String)
  | removeBackup (path : String)
  | removeMarker (path : String)
  | readStash
  | moveStash
  | writeStash
  | readApplied
  | moveApplied
  | writeApplied
  deriving DecidableEq

abbrev Faults := Op → Bool

/-- The result of a step that may have failed on the way, and the disk it leaves. -/
abbrev Outcome (α : Type) := Except WiringError α × Disk

def ioError : WiringError := .io "operation failed"

/-- The value at one path. -/
def update {α : Type} (at_ : String) (a : α) (f : String → α) (path : String) : α :=
  if path = at_ then a else f path

@[simp] theorem update_self {α : Type} (path : String) (a : α) (f : String → α) :
    update path a f path = a := if_pos rfl

theorem update_ne {α : Type} {path at_ : String} (h : path ≠ at_) (a : α) (f : String → α) :
    update at_ a f path = f path := if_neg h

namespace Disk

def setFile (d : Disk) (path : String) (content : Option Content) : Disk :=
  { d with file := update path content d.file }

/-- The backup of a file and its absent marker are removed, as far as that succeeds. -/
def clear (faults : Faults) (d : Disk) (path : String) : Disk :=
  { d with
    backup := if faults (.removeBackup path) then d.backup else update path none d.backup
    absent := if faults (.removeMarker path) then d.absent else update path false d.absent }

/-- A backup that cannot be read is moved aside, as far as that succeeds. -/
def preserveBad (faults : Faults) (d : Disk) (path : String) : Disk :=
  if faults (.moveBackup path) then d else { d with backup := update path none d.backup }

@[simp] theorem setFile_self (d : Disk) (path : String) (content : Option Content) :
    (d.setFile path content).file path = content := update_self _ _ _

theorem setFile_ne (d : Disk) {path other : String} (h : other ≠ path) (content : Option Content) :
    (d.setFile path content).file other = d.file other := update_ne h _ _

@[simp] theorem setFile_backup (d : Disk) (path : String) (content : Option Content) :
    (d.setFile path content).backup = d.backup := rfl

@[simp] theorem setFile_absent (d : Disk) (path : String) (content : Option Content) :
    (d.setFile path content).absent = d.absent := rfl

@[simp] theorem setFile_stash (d : Disk) (path : String) (content : Option Content) :
    (d.setFile path content).stash = d.stash := rfl

@[simp] theorem setFile_applied (d : Disk) (path : String) (content : Option Content) :
    (d.setFile path content).applied = d.applied := rfl

@[simp] theorem clear_file (faults : Faults) (d : Disk) (path : String) :
    (d.clear faults path).file = d.file := rfl

@[simp] theorem clear_stash (faults : Faults) (d : Disk) (path : String) :
    (d.clear faults path).stash = d.stash := rfl

@[simp] theorem preserveBad_file (faults : Faults) (d : Disk) (path : String) :
    (d.preserveBad faults path).file = d.file := by
  unfold preserveBad
  split <;> rfl

end Disk

/-! ## Configuration files -/

/-- The text of a configuration file; none when it is absent. -/
def readConfig (faults : Faults) (d : Disk) (path : String) : Except WiringError (Option String) :=
  if faults (.readFile path) then .error ioError
  else
    match d.file path with
    | none => .ok none
    | some (.text s) => .ok (some s)
    | some (.binary _) => .error (.io "configuration is not utf-8")

def writeConfig (faults : Faults) (d : Disk) (path text : String) : Except WiringError Disk :=
  if faults (.writeFile path) then .error ioError else .ok (d.setFile path (some (.text text)))

/-! ## Snapshots -/

/-- The backup of one file, or its absent marker; what was there before is kept. -/
def takeOne (faults : Faults) (d : Disk) (path : String) : Except WiringError Disk :=
  if (d.backup path).isSome || d.absent path then .ok d
  else if faults (.readFile path) then .error (.backup "io error")
  else
    match d.file path with
    | some bytes =>
      if faults (.writeBackup path) then .error (.backup "io error")
      else .ok { d with backup := update path (some bytes) d.backup }
    | none =>
      if faults (.writeMarker path) then .error (.backup "io error")
      else .ok { d with absent := update path true d.absent }

def take (faults : Faults) : List String → Disk → Outcome Unit
  | [], d => (.ok (), d)
  | path :: paths, d =>
    match takeOne faults d path with
    | .ok d => take faults paths d
    | .error e => (.error e, d)

/-! ## The stash and the applied values -/

/-- A value that is missing or cannot be read is empty. -/
def Store.load {α : Type} (fails : Bool) : Store (List α) → List α
  | .valid a => if fails then [] else a
  | _ => []

/-- A file that does not parse is moved aside before the new one is written. -/
def Store.save {α : Type} (readFails moveFails writeFails : Bool) (a : α) (s : Store α) :
    Except WiringError Unit × Store α :=
  match s with
  | .corrupt =>
    if readFails then if writeFails then (.error (.backup "io error"), .corrupt) else (.ok (), .valid a)
    else if moveFails then (.error (.backup "io error"), .corrupt)
    else if writeFails then (.error (.backup "io error"), .missing)
    else (.ok (), .valid a)
  | s => if writeFails then (.error (.backup "io error"), s) else (.ok (), .valid a)

/-- A save that fails leaves what can be read as it was. -/
theorem Store.load_save_error {α : Type} {readFails moveFails writeFails : Bool} {a : List α}
    {s s' : Store (List α)} {e : WiringError}
    (h : s.save readFails moveFails writeFails a = (.error e, s')) :
    s'.load false = s.load false := by
  cases s with
  | missing =>
    simp only [save] at h
    split at h <;> cases h
    rfl
  | valid b =>
    simp only [save] at h
    split at h <;> cases h
    rfl
  | corrupt =>
    simp only [save] at h
    repeat' split at h
    all_goals cases h <;> rfl

def loadStash (faults : Faults) (d : Disk) : Stash := d.stash.load (faults .readStash)

def saveStash (faults : Faults) (stash : Stash) (d : Disk) : Outcome Unit :=
  let r := d.stash.save (faults .readStash) (faults .moveStash) (faults .writeStash) stash
  (r.1, { d with stash := r.2 })

def loadApplied (faults : Faults) (d : Disk) : Applied := d.applied.load (faults .readApplied)

def saveApplied (faults : Faults) (applied : Applied) (d : Disk) : Outcome Unit :=
  let r := d.applied.save (faults .readApplied) (faults .moveApplied) (faults .writeApplied) applied
  (r.1, { d with applied := r.2 })

namespace Stash

def oldValues (stash : Stash) (agent : String) : Values := (stash.lookup agent).getD []

/-- An empty value removes its key. -/
def record (stash : Stash) (agent : String) (kvs : Values) : Stash :=
  insertKey agent (kvs.foldl (fun values kv =>
    if kv.2 = "" then removeKey kv.1 values else insertKey kv.1 kv.2 values)
      (stash.oldValues agent)) stash

def takeNamespace (stash : Stash) (agent : String) : Stash := removeKey agent stash

end Stash

/-- Old values are recorded for keys that have none yet. -/
def recordOldValues (stash : Stash) (agent : String) (values : Values) : Stash :=
  let existing := stash.oldValues agent
  let fresh := values.filter fun kv => kv.2 ≠ "" ∧ (existing.lookup kv.1).isNone
  if fresh.isEmpty then stash else stash.record agent fresh

namespace Applied

/-- An empty value removes its key. -/
def record (applied : Applied) (agent : String) (kvs : Values) (now : Nat) : Applied :=
  insertKey agent (kvs.foldl (fun entries kv =>
    if kv.2 = "" then removeKey kv.1 entries else insertKey kv.1 ⟨kv.2, now⟩ entries)
      ((applied.lookup agent).getD [])) applied

def forget (applied : Applied) (agent : String) : Applied := removeKey agent applied

end Applied

end AnyConverter
