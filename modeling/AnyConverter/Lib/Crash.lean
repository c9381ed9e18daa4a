import Mathlib.Logic.Function.Basic

/-!
# Files across a crash

A program is a list of operations on files.  A crash stops it between two of them or inside one: a
file that is being written then holds the first bytes of what it was to hold, and a rename either has
happened or has not.

* `crash_zero`, `crash_torn`, `crash_succ`: where the crash is.
-/

set_option autoImplicit false

namespace Crash

variable {Path : Type}

/-- What is in each file; `none` where there is none. -/
abbrev Disk (Path : Type) := Path → Option (List UInt8)

inductive FileOp (Path : Type) where
  /-- the file is made or emptied, and written -/
  | write (path : Path) (bytes : List UInt8)
  /-- as `write`, when there is a file to copy -/
  | copy (source target : Path)
  | rename (source target : Path)
  deriving DecidableEq, Repr

/-- Where a crash stops a program: the operations before it, and how much the next has written if
it has begun. -/
structure Point where
  before : Nat
  written : Option Nat
  deriving DecidableEq, Repr

namespace FileOp

variable [DecidableEq Path]

def run (disk : Disk Path) : FileOp Path → Disk Path
  | write path bytes => Function.update disk path (some bytes)
  | copy source target =>
    match disk source with
    | some bytes => Function.update disk target (some bytes)
    | none => disk
  | rename source target =>
    match disk source with
    | some bytes => Function.update (Function.update disk source none) target (some bytes)
    | none => disk

/-- What an operation leaves when it stops after some bytes. -/
def tear (disk : Disk Path) (written : Nat) : FileOp Path → Disk Path
  | write path bytes => Function.update disk path (some (bytes.take written))
  | copy source target =>
    match disk source with
    | some bytes => Function.update disk target (some (bytes.take written))
    | none => disk
  | rename _ _ => disk

end FileOp

variable [DecidableEq Path]

/-- The files a crash leaves. -/
def crash (disk : Disk Path) : List (FileOp Path) → Point → Disk Path
  | [], _ => disk
  | _ :: _, ⟨0, none⟩ => disk
  | op :: _, ⟨0, some written⟩ => op.tear disk written
  | op :: ops, ⟨before + 1, written⟩ => crash (op.run disk) ops ⟨before, written⟩

section
variable {disk : Disk Path} {op : FileOp Path} {ops : List (FileOp Path)}

@[simp] theorem crash_nil (pt : Point) : crash disk [] pt = disk := rfl

@[simp] theorem crash_zero : crash disk ops ⟨0, none⟩ = disk := by
  cases ops <;> rfl

@[simp] theorem crash_torn (written : Nat) :
    crash disk (op :: ops) ⟨0, some written⟩ = op.tear disk written := rfl

@[simp] theorem crash_succ (before : Nat) (written : Option Nat) :
    crash disk (op :: ops) ⟨before + 1, written⟩ = crash (op.run disk) ops ⟨before, written⟩ := rfl

end

end Crash
