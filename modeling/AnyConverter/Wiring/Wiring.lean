import AnyConverter.Wiring.Spec.Agents

/-!
# Connecting and disconnecting an agent

A connect takes a snapshot, writes the agent's files and records what it applied; when the writing
fails, the files are put back from the snapshot.  A disconnect takes our keys out and then decides,
file by file, whether the backup is put back, kept or dropped.
-/

set_option autoImplicit false

namespace AnyConverter

/-- The parts of a call, each with its own failures. -/
inductive Phase where
  | snapshot
  | agent
  | record
  | recovery
  deriving DecidableEq

/-- What a call meets: the operations that fail, and the time. -/
structure Surroundings where
  faults : Phase → Faults
  now : Nat

/-! ## Connecting -/

/-- A file after a failed connect: the backup when there is one, and nothing when there is none. -/
def restoreOne (faults : Faults) (d : Disk) (path : String) : Disk :=
  if faults (.readBackup path) || faults (.readFile path) then d
  else
    match d.backup path, d.file path with
    | some backup, some current =>
      if backup = current then d
      else if faults (.writeFile path) then d else d.setFile path (some backup)
    | some backup, none =>
      if faults (.writeFile path) then d else d.setFile path (some backup)
    | none, some _ => if faults (.removeFile path) then d else d.setFile path none
    | none, none => d

def restoreAfterFailedConnect (faults : Faults) (files : List String) (d : Disk) : Disk :=
  files.foldl (restoreOne faults) d

/-- The text of a file, when it can be read. -/
def readableText (faults : Faults) (d : Disk) (path : String) : Option String :=
  match readConfig faults d path with
  | .ok text => text
  | .error _ => none

/-- The files a connect wrote. -/
def Wiring.connect (around : Surroundings) (spec : AgentSpec) (wiring : WiringCtx) (d : Disk) :
    Outcome (List String) :=
  match take (around.faults .snapshot) spec.configFiles d with
  | (.error e, d) => (.error e, d)
  | (.ok _, d) =>
    match spec.connect (around.faults .agent) wiring d with
    | (.error e, d) =>
      (.error e, restoreAfterFailedConnect (around.faults .recovery) spec.configFiles d)
    | (.ok filesWritten, d) =>
      let recorded := spec.appliedValues (readableText (around.faults .record) d)
      let applied := (loadApplied (around.faults .record) d).record spec.id recorded around.now
      match saveApplied (around.faults .record) applied d with
      | (.ok _, d) => (.ok filesWritten, d)
      | (.error e, d) => (.error e, d)

/-! ## What a restored file is compared with -/

def fileName (path : String) : String := Text.afterLast '/' path

def extension (path : String) : String :=
  match Text.rsplitOnce '.' (fileName path) with
  | some (stem, extension) => if stem = "" then "" else extension
  | none => ""

def isDotenv (path : String) : Bool := fileName path == ".env"

def normalizeJson (codec : JsonCodec) (text : String) : Option String := JsonEdit.get codec text ""

def normalizeToml (toml : TomlEdit.TomlLibrary) (text : String) : Option String :=
  match toml.parse (Text.trimStartMatches bom text) with
  | .ok document =>
    some (Text.trim (String.ofList (dropReturns (toml.print document).toList)))
  | .error _ => none
where
  /-- Every carriage return before a line feed is dropped. -/
  dropReturns : List Char → List Char
    | '\r' :: '\n' :: cs => '\n' :: dropReturns cs
    | c :: cs => c :: dropReturns cs
    | [] => []

/-- The variable a line seems to assign. -/
def envKey (line : String) : Option String :=
  let line := line.toList.dropWhile Text.isWhitespace
  if line = [] ∨ line.head? = some '#' then none
  else
    let line := ((Text.stripList "export ".toList line).getD line).dropWhile Text.isWhitespace
    match Text.splitList ['='] line with
    | some (key, _) =>
      let key := Text.trim (String.ofList key)
      if key = "" then none else some key
    | none => none

/-- The variables of a text with their values, sorted. -/
def normalizeEnv (text : String) : List (String × Value) :=
  ((Text.lines text).filterMap envKey).foldl
    (fun values key =>
      match EnvEdit.get text key with
      | some value => Value.insertField key (.string value) values
      | none => values) []

/-- Files of the same values; what is no UTF-8 only equals itself. -/
def semanticallyEqual (libs : Libraries) (path : String) (left right : Content) : Bool :=
  if left = right then true
  else
    match left, right with
    | .text left, .text right =>
      if extension path = "json" then normalizeJson libs.codec left == normalizeJson libs.codec right
      else if extension path = "toml" then
        normalizeToml libs.toml left == normalizeToml libs.toml right
      else if isDotenv path then normalizeEnv left == normalizeEnv right
      else false
    | _, _ => false

mutual

/-- A value that holds nothing. -/
def emptyJsonValue : Value → Bool
  | .null => true
  | .object fields => emptyJsonFields fields
  | .array items => items.isEmpty
  | _ => false

def emptyJsonFields : List (String × Value) → Bool
  | [] => true
  | (_, v) :: fields => emptyJsonValue v && emptyJsonFields fields

end

def isEmptyJson (codec : JsonCodec) (text : String) : Bool :=
  match (normalizeJson codec text).bind codec.fromStr with
  | some value => emptyJsonValue value
  | none => false

def isEmptyToml (toml : TomlEdit.TomlLibrary) (text : String) : Bool :=
  match toml.parse (Text.trimStartMatches bom text) with
  | .ok document => document.1.isEmpty
  | .error _ => false

def isEmptyDocument (libs : Libraries) (path : String) : Content → Bool
  | .binary _ => false
  | .text text =>
    Text.trim text == "" ||
      if extension path = "json" then isEmptyJson libs.codec text
      else if extension path = "toml" then isEmptyToml libs.toml text
      else false

/-! ## Disconnecting -/

structure DisconnectReport where
  filesWritten : List String
  keptBackup : List String
  warnings : List String

/-- What the restore of a file decided. -/
inductive Restored where
  | settled
  | keptBackup
  | backupCorrupt
  deriving DecidableEq

def restoreFile (libs : Libraries) (faults : Faults) (d : Disk) (path : String) :
    Except WiringError (Restored × Disk) :=
  if faults (.readBackup path) then .ok (.backupCorrupt, d.preserveBad faults path)
  else if faults (.readFile path) then .error ioError
  else
    match d.backup path, d.file path with
    | some backup, some current =>
      if current = backup then .ok (.settled, d.clear faults path)
      else if semanticallyEqual libs path current backup then
        if faults (.writeFile path) then .error ioError
        else .ok (.settled, (d.setFile path (some backup)).clear faults path)
      else .ok (.keptBackup, d)
    | some _, none => .ok (.keptBackup, d)
    | none, some current =>
      if !d.absent path then .ok (.settled, d)
      else if isEmptyDocument libs path current then
        if faults (.removeFile path) then .error ioError
        else .ok (.settled, (d.setFile path none).clear faults path)
      else .ok (.keptBackup, d)
    | none, none => .ok (.settled, if d.absent path then d.clear faults path else d)

def restoreFiles (libs : Libraries) (faults : Faults) :
    List String → Disk → Outcome (List (String × Restored))
  | [], d => (.ok [], d)
  | path :: paths, d =>
    match restoreFile libs faults d path with
    | .error e => (.error e, d)
    | .ok (restored, d) =>
      match restoreFiles libs faults paths d with
      | (.ok more, d) => (.ok ((path, restored) :: more), d)
      | (.error e, d) => (.error e, d)

/-- The warnings, in the order they arise. -/
def disconnectWarnings (stashBefore : Values) (restored : List (String × Restored)) : List String :=
  (if stashBefore.isEmpty then ["stash_missing"] else []) ++
  (restored.filter fun r => r.2 == .backupCorrupt).map (fun _ => "backup_corrupt") ++
  (if restored.any fun r => r.2 == .keptBackup then ["kept_backup"] else [])

def Wiring.disconnect (libs : Libraries) (around : Surroundings) (spec : AgentSpec) (d : Disk) :
    Outcome DisconnectReport :=
  let stashBefore := (loadStash (around.faults .agent) d).oldValues spec.id
  match spec.disconnect (around.faults .agent) d with
  | (.error e, d) => (.error e, d)
  | (.ok filesWritten, d) =>
    match restoreFiles libs (around.faults .recovery) spec.configFiles d with
    | (.error e, d) => (.error e, d)
    | (.ok restored, d) =>
      let stash := (loadStash (around.faults .record) d).takeNamespace spec.id
      match saveStash (around.faults .record) stash d with
      | (.error e, d) => (.error e, d)
      | (.ok _, d) =>
        let applied := (loadApplied (around.faults .record) d).forget spec.id
        match saveApplied (around.faults .record) applied d with
        | (.error e, d) => (.error e, d)
        | (.ok _, d) =>
          (.ok {
            filesWritten := filesWritten
            keptBackup := (restored.filter fun r => r.2 == .keptBackup).map Prod.fst
            warnings := disconnectWarnings stashBefore restored }, d)

end AnyConverter
