import AnyConverter.Wiring.Files
import AnyConverter.Wiring.Edit.Jsonc
import AnyConverter.Wiring.Edit.Dotenv
import AnyConverter.Wiring.Edit.Toml

/-!
# Agent specifications

An agent's specification names its configuration files, plans the texts a connect writes and the
edits a disconnect makes, and reads back the values that were applied.  All four agents share the
order of the steps: every file a connect reads is read first, the old values are stashed last.
-/

set_option autoImplicit false

namespace AnyConverter

/-- The readers and printers the specifications rest on. -/
structure Libraries where
  codec : JsonCodec
  /-- `serde_json::to_string_pretty` -/
  pretty : Value → String
  toml : TomlEdit.TomlLibrary

/-- The home of an agent, its environment and the working directory. -/
structure HomeCtx where
  home : String
  env : String → Option String
  currentDir : Option String

/-! ## The model catalog -/

structure CatalogModel where
  id : String
  name : String
  reasoning : Bool
  contextTokens : Option Nat
  deriving DecidableEq

/-- The lower case of a character, as far as it can hold an ASCII letter. -/
def lowerChar (c : Char) : List Char :=
  if c = '\u212A' then ['k'] else if c = '\u0130' then ['i', '\u0307'] else [c.toLower]

/-- The first model whose identifier holds a word in any case. -/
def findTier (models : List CatalogModel) (needle : String) : Option CatalogModel :=
  models.find? fun m => (Text.splitList needle.toList (m.id.toList.flatMap lowerChar)).isSome

/-- What the gateway supplies for a connect. -/
structure WiringCtx where
  gatewayUrl : String
  agentKey : String
  catalog : List CatalogModel
  defaultModel : String

/-! ## Paths -/

def join (dir name : String) : String := dir ++ "/" ++ name

theorem join_inj {dir name name' : String} (h : join dir name = join dir name') : name = name' := by
  have hlist := congrArg String.toList h
  simp only [join, String.toList_append] at hlist
  exact String.toList_inj.mp (List.append_cancel_left hlist)

def expandTilde (ctx : HomeCtx) (value : String) : String :=
  if value = "~" then ctx.home
  else
    match Text.stripPrefix "~/" value with
    | some rest => join ctx.home rest
    | none => value

/-- The directory a variable names, a default when it names none. -/
def envDir (ctx : HomeCtx) (variable_ default : String) : String :=
  match ctx.env variable_ with
  | some value => if Text.trim value = "" then default else expandTilde ctx (Text.trim value)
  | none => default

def gatewayPath (gatewayUrl suffix : String) : String :=
  Text.trimEndMatches '/' gatewayUrl ++ "/" ++ Text.trimStartMatches '/' suffix

/-! ## Specifications -/

/-- What a connect is going to do: values to stash, and texts to write, in order.  A text that
could not be edited ends it. -/
structure ConnectPlan where
  old : Values
  writes : List (Except WiringError (String × String))

/-- One step of a disconnect. -/
inductive DisconnectStep where
  /-- a file that is present gets an edited text; the old values of the stash are given -/
  | edit (path : String) (change : Values → String → Except WiringError String)
  | remove (path : String)

structure AgentSpec where
  id : String
  configFiles : List String
  /-- the files a connect reads before it writes -/
  reads : List String
  connectPlan : WiringCtx → (String → String) → Except WiringError ConnectPlan
  disconnectSteps : List DisconnectStep
  appliedValues : (String → Option String) → Values

/-- An editor's result. -/
def edited {α : Type} : Except EditError α → Except WiringError α
  | .ok a => .ok a
  | .error e => .error (.edit e)

/-- The keys whose old value is restored, with the path they are written under. -/
def restoreSets (stashKey : String → String) (keys : List String) (old : Values) : List KV :=
  keys.filterMap fun key =>
    match old.lookup (stashKey key) with
    | some value => if value = "" then none else some ⟨key, .string value⟩
    | none => none

/-- The keys without an old value. -/
def restoreDeletes (stashKey : String → String) (keys : List String) (old : Values) :
    List String :=
  keys.filter fun key =>
    match old.lookup (stashKey key) with
    | some value => value = ""
    | none => true

/-- With an empty stash every key is deleted. -/
theorem restoreSets_nil (stashKey : String → String) (keys : List String) :
    restoreSets stashKey keys [] = [] := by
  simp [restoreSets]

theorem restoreDeletes_nil (stashKey : String → String) (keys : List String) :
    restoreDeletes stashKey keys [] = keys := by
  simp [restoreDeletes]

namespace AgentSpec

variable (spec : AgentSpec) (faults : Faults)

/-- The texts of the files a connect reads, the empty text for an absent one. -/
def readAll (d : Disk) : List String → Except WiringError (List (String × String))
  | [] => .ok []
  | path :: paths =>
    match readConfig faults d path with
    | .error e => .error e
    | .ok text =>
      match readAll d paths with
      | .error e => .error e
      | .ok texts => .ok ((path, text.getD "") :: texts)

/-- What a connect is going to do on this disk. -/
def prepare (wiring : WiringCtx) (d : Disk) : Except WiringError ConnectPlan :=
  match readAll faults d spec.reads with
  | .error e => .error e
  | .ok texts => spec.connectPlan wiring fun path => (texts.lookup path).getD ""

/-- The writes of a connect, up to the first that fails. -/
def writeAll : List (Except WiringError (String × String)) → Disk → Outcome (List String)
  | [], d => (.ok [], d)
  | .error e :: _, d => (.error e, d)
  | .ok (path, text) :: writes, d =>
    match writeConfig faults d path text with
    | .error e => (.error e, d)
    | .ok d =>
      match writeAll writes d with
      | (.ok written, d) => (.ok (path :: written), d)
      | (.error e, d) => (.error e, d)

def connect (wiring : WiringCtx) (d : Disk) : Outcome (List String) :=
  match spec.prepare faults wiring d with
  | .error e => (.error e, d)
  | .ok plan =>
    let stash := recordOldValues (loadStash faults d) spec.id plan.old
    match writeAll faults plan.writes d with
    | (.error e, d) => (.error e, d)
    | (.ok written, d) =>
      match saveStash faults stash d with
      | (.ok _, d) => (.ok written, d)
      | (.error e, d) => (.error e, d)

/-- One step of a disconnect, and the file it wrote. -/
def disconnectStep (old : Values) (step : DisconnectStep) (d : Disk) :
    Except WiringError (List String × Disk) :=
  match step with
  | .edit path change =>
    match readConfig faults d path with
    | .error e => .error e
    | .ok none => .ok ([], d)
    | .ok (some text) =>
      match change old text with
      | .error e => .error e
      | .ok text =>
        match writeConfig faults d path text with
        | .error e => .error e
        | .ok d => .ok ([path], d)
  | .remove path =>
    if (d.file path).isNone then .ok ([], d)
    else if faults (.removeFile path) then .error ioError
    else .ok ([path], d.setFile path none)

def disconnectAll (old : Values) : List DisconnectStep → Disk → Outcome (List String)
  | [], d => (.ok [], d)
  | step :: steps, d =>
    match disconnectStep faults old step d with
    | .error e => (.error e, d)
    | .ok (written, d) =>
      match disconnectAll old steps d with
      | (.ok more, d) => (.ok (written ++ more), d)
      | (.error e, d) => (.error e, d)

def disconnect (d : Disk) : Outcome (List String) :=
  let stash := loadStash faults d
  match disconnectAll faults (stash.oldValues spec.id) spec.disconnectSteps d with
  | (.error e, d) => (.error e, d)
  | (.ok written, d) =>
    match saveStash faults (stash.takeNamespace spec.id) d with
    | (.ok _, d) => (.ok written, d)
    | (.error e, d) => (.error e, d)

end AgentSpec

end AnyConverter
