import Mathlib.Logic.Function.Basic
import AnyConverter.Server.Accounts.Resolver
import AnyConverter.Server.SecretStore
import AnyConverter.Wiring.Spec.Probe

/-!
# The agent registry

Every agent has an entry in a state file and a gateway key in the secret store; both are kept in
memory too.  Every call holds one lock throughout, except that a listing reads the applied values
before it takes the lock, and takes it a second time to write down who has drifted.
-/

set_option autoImplicit false

namespace AnyConverter

open Accounts (Credential)

/-! ## Entries -/

def statusConnected : String := "connected"
def statusDisconnected : String := "disconnected"
def statusDrifted : String := "drifted"
def statusAbsent : String := "absent"

structure AgentEntry where
  status : String
  agentKeyId : Option String
  connectedAt : Option Int
  defaultModel : Option String
  catalogDigest : Option String
  home : Option String
  deriving DecidableEq

/-- `AgentEntry::default`. -/
def AgentEntry.blank : AgentEntry := ⟨"", none, none, none, none, none⟩

structure AgentKeyEntry where
  key : String
  id : String
  createdAt : Int
  lastUsed : Option Int
  deriving DecidableEq

abbrev Agents := String → Option AgentEntry

abbrev AgentKeys := String → Option AgentKeyEntry

structure AgentRegistry where
  gatewayUrl : String
  globalKey : Option String
  agents : Agents
  agentKeys : AgentKeys
  /-- `agent_state.json` -/
  stateFile : Store Agents
  secrets : SecretStore.Files Credential
  /-- the files of the agents, and our own beside them -/
  disk : Disk

inductive ApiError where
  | noProviders
  | configUnwritable (detail : String)
  | modelNotFound (model : String)
  | unknownAgent (agent : String)
  | notConnected (agent : String)
  deriving DecidableEq

def EditError.display : EditError → String
  | .parse message => "parse error: " ++ message
  | .notFound key => "not found: " ++ key

def ApiError.ofWiring : WiringError → ApiError
  | .backup message => .configUnwritable message
  | .edit error => .configUnwritable error.display
  | .io message => .configUnwritable message
  | .refused reason => .configUnwritable reason

/-- What a call meets besides the registry. -/
structure Call where
  catalog : List CatalogModel
  home : HomeCtx
  around : Surroundings
  /-- the random part of a key, should one be generated -/
  hex : String
  /-- the clock before the files are wired, and after -/
  now : Int
  after : Int
  /-- writing the secrets fails, or only the copy of them -/
  putFails : Bool
  copyFails : Bool
  /-- writing the state file fails -/
  saveFails : Bool

namespace AgentRegistry

/-! ## Keys -/

/-- `str::parse::<u32>`. -/
def parseU32 (s : String) : Option Nat :=
  let digits := (Text.stripList ['+'] s.toList).getD s.toList
  if digits ≠ [] ∧ digits.all Char.isDigit then
    let n := digits.foldl (fun n c => 10 * n + (c.toNat - '0'.toNat)) 0
    if n < 2 ^ 32 then some n else none
  else none

def nextKeyId (agentId : String) (current : Option String) : String :=
  let last := (current.bind fun id => parseU32 (Text.afterLast '_' id)).getD 0
  let sequence := min (last + 1) (2 ^ 32 - 1)
  "ak_" ++ agentId ++ "_" ++ (if sequence < 10 then "0" else "") ++ toString sequence

def generateKey (agentId hex : String) : String := "acw_" ++ agentId ++ "_" ++ hex

def keyStoreId (agentId : String) : String := "agent-key:" ++ agentId

/-- `FileSecretStore::put` while nobody else is at the file. -/
def putSecret (c : Call) (id : String) (cred : Credential) (files : SecretStore.Files Credential) :
    Option (SecretStore.Files Credential) :=
  match SecretStore.load files with
  | .error _ => none
  | .ok map =>
    if c.putFails then none
    else
      let new := SecretStore.Contents.map (SecretStore.Op.apply map (.put id cred))
      some ⟨some new, if c.copyFails then files.backup else some new⟩

def putKey (c : Call) (agentId key : String) (r : AgentRegistry) :
    Except ApiError Unit × AgentRegistry :=
  match putSecret c (keyStoreId agentId) (.apiKey key) r.secrets with
  | none => (.error (.configUnwritable "secret store"), r)
  | some secrets => (.ok (), { r with secrets := secrets })

/-! ## Models and specifications -/

def resolveModel (catalog : List CatalogModel) (requested stored : Option String) :
    Except ApiError String :=
  let known (model : String) := catalog.any fun m => m.id = model
  let first :=
    match catalog with
    | m :: _ => .ok m.id
    | [] => .error .noProviders
  match requested with
  | some model => if known model then .ok model else .error (.modelNotFound model)
  | none =>
    match stored with
    | some model => if known model then .ok model else first
    | none => first

def specFor (libs : Libraries) (home : HomeCtx) (agentId : String) : Except ApiError AgentSpec :=
  match (allSpecs libs home).find? fun spec => spec.id = agentId with
  | some spec => .ok spec
  | none => .error (.unknownAgent agentId)

/-! ## The state file -/

def saveState (fails : Bool) (r : AgentRegistry) : Except ApiError Unit × AgentRegistry :=
  if fails then (.error (.configUnwritable "state file"), r)
  else (.ok (), { r with stateFile := .valid r.agents })

def loadState : Store Agents → Agents
  | .valid agents => agents
  | _ => fun _ => none

def loadKeys (secrets : SecretStore.Files Credential) (agents : Agents) : AgentKeys := fun agentId =>
  match (agents agentId).bind AgentEntry.agentKeyId with
  | none => none
  | some keyId =>
    match SecretStore.get secrets (keyStoreId agentId) with
    | .ok (some (.apiKey key)) =>
      some ⟨key, keyId, ((agents agentId).bind AgentEntry.connectedAt).getD 0, none⟩
    | _ => none

/-- `AgentRegistry::new` on what another one left; a state file that does not parse is moved aside. -/
def restart (r : AgentRegistry) : AgentRegistry :=
  let agents := loadState r.stateFile
  { r with
    agents := agents
    agentKeys := loadKeys r.secrets agents
    stateFile :=
      match r.stateFile with
      | .corrupt => .missing
      | stateFile => stateFile }

def bearer (header : Option String) : Option String := header.bind (Text.stripPrefix "Bearer ")

/-- `validate_key`: whether a request with this header is let in. -/
def Validates (r : AgentRegistry) (globalKey header : Option String) : Prop :=
  match globalKey.or r.globalKey with
  | none => True
  | some expected => ∃ provided, bearer header = some provided ∧
      (provided = expected ∨ ∃ agentId entry, r.agentKeys agentId = some entry ∧ entry.key = provided)

/-! ## Calls -/

section
variable (libs : Libraries) (digest : List CatalogModel → String)

/-- What `connect`, `sync` and `rotate_key` do once the model and the key are settled. -/
def wire (c : Call) (spec : AgentSpec) (agentId key defaultModel : String) (agentKeys : AgentKeys)
    (entry : AgentEntry) (r : AgentRegistry) : Except ApiError (List String) × AgentRegistry :=
  match Wiring.connect c.around spec ⟨r.gatewayUrl, key, c.catalog, defaultModel⟩ r.disk with
  | (.error e, disk) => (.error (.ofWiring e), { r with disk := disk })
  | (.ok filesWritten, disk) =>
    match saveState c.saveFails { r with
        disk := disk
        agentKeys := agentKeys
        agents := Function.update r.agents agentId (some entry) } with
    | (.error e, r) => (.error e, r)
    | (.ok _, r) => (.ok filesWritten, r)

/-- The entry of an agent that was just wired. -/
def wiredEntry (c : Call) (keyId defaultModel : String) (connectedAt : Option Int) : AgentEntry where
  status := statusConnected
  agentKeyId := some keyId
  connectedAt := connectedAt
  defaultModel := some defaultModel
  catalogDigest := some (digest c.catalog)
  home := some c.home.home

/-- The key of a first connect. -/
def freshKey (c : Call) (agentId : String) (existing : AgentEntry) : AgentKeyEntry :=
  ⟨generateKey agentId c.hex, nextKeyId agentId existing.agentKeyId, c.now, none⟩

def connect (agentId : String) (model : Option String) (c : Call) (r : AgentRegistry) :
    Except ApiError (List String) × AgentRegistry :=
  if c.catalog = [] then (.error .noProviders, r)
  else
    match specFor libs c.home agentId with
    | .error e => (.error e, r)
    | .ok spec =>
      let existing := (r.agents agentId).getD .blank
      match resolveModel c.catalog model existing.defaultModel with
      | .error e => (.error e, r)
      | .ok defaultModel =>
        let wired (key : AgentKeyEntry) :=
          wire c spec agentId key.key defaultModel (Function.update r.agentKeys agentId (some key))
            (wiredEntry digest c key.id defaultModel (some c.after))
        match r.agentKeys agentId with
        | some key => wired key r
        | none =>
          let key := freshKey c agentId existing
          match putKey c agentId key.key r with
          | (.error e, r) => (.error e, r)
          | (.ok _, r) => wired key r

def disconnect (agentId : String) (c : Call) (r : AgentRegistry) :
    Except ApiError DisconnectReport × AgentRegistry :=
  match specFor libs c.home agentId with
  | .error e => (.error e, r)
  | .ok spec =>
    match Wiring.disconnect libs c.around spec r.disk with
    | (.error e, disk) => (.error (.ofWiring e), { r with disk := disk })
    | (.ok report, disk) =>
      let entry := (r.agents agentId).getD .blank
      match saveState c.saveFails { r with
          disk := disk
          agents := Function.update r.agents agentId
            (some { entry with status := statusDisconnected }) } with
      | (.error e, r) => (.error e, r)
      | (.ok _, r) => (.ok report, r)

def sync (agentId : String) (c : Call) (r : AgentRegistry) : Except ApiError Unit × AgentRegistry :=
  if c.catalog = [] then (.error .noProviders, r)
  else
    match specFor libs c.home agentId with
    | .error e => (.error e, r)
    | .ok spec =>
      match r.agents agentId with
      | none => (.error (.notConnected agentId), r)
      | some entry =>
        if entry.status ≠ statusConnected ∧ entry.status ≠ statusDrifted then
          (.error (.notConnected agentId), r)
        else
          match r.agentKeys agentId with
          | none => (.error (.notConnected agentId), r)
          | some key =>
            match resolveModel c.catalog none entry.defaultModel with
            | .error e => (.error e, r)
            | .ok defaultModel =>
              match wire c spec agentId key.key defaultModel r.agentKeys
                  (wiredEntry digest c key.id defaultModel entry.connectedAt) r with
              | (.error e, r) => (.error e, r)
              | (.ok _, r) => (.ok (), r)

/-- The key a rotation issues. -/
def rotatedKey (c : Call) (agentId : String) (old : AgentKeyEntry) : AgentKeyEntry :=
  ⟨generateKey agentId c.hex, nextKeyId agentId (some old.id), c.after, none⟩

def rotateKey (agentId : String) (c : Call) (r : AgentRegistry) :
    Except ApiError String × AgentRegistry :=
  if c.catalog = [] then (.error .noProviders, r)
  else
    match specFor libs c.home agentId with
    | .error e => (.error e, r)
    | .ok spec =>
      match r.agents agentId with
      | none => (.error (.notConnected agentId), r)
      | some entry =>
        match r.agentKeys agentId with
        | none => (.error (.notConnected agentId), r)
        | some old =>
          match resolveModel c.catalog none entry.defaultModel with
          | .error e => (.error e, r)
          | .ok defaultModel =>
            let key := rotatedKey c agentId old
            match putKey c agentId key.key r with
            | (.error e, r) => (.error e, r)
            | (.ok _, r) =>
              match wire c spec agentId key.key defaultModel
                  (Function.update r.agentKeys agentId (some key))
                  (wiredEntry digest c key.id defaultModel entry.connectedAt) r with
              | (.error e, r) => (.error e, r)
              | (.ok _, r) => (.ok key.id, r)

end

/-! ## Listing -/

/-- One row of a listing. -/
structure AgentStatus where
  id : String
  status : String
  model : Option String
  catalogDigest : Option String
  keyId : Option String
  connectedAt : Option Int
  deriving DecidableEq

/-- What a listing meets: where the agents live, what directories there are, and the reads that
fail. -/
structure Sight where
  home : HomeCtx
  isDir : String → Bool
  faults : Faults

/-- The row of an agent, and whether it has drifted. -/
def statusOf (sight : Sight) (applied : Applied) (r : AgentRegistry) (probe : AgentProbe) :
    AgentStatus × Bool :=
  let id := probe.spec.id
  if !probe.detect sight.isDir r.disk then (⟨id, statusAbsent, none, none, none, none⟩, false)
  else
    let entry := r.agents id
    let status :=
      match entry with
      | some entry => if entry.status = "" then statusDisconnected else entry.status
      | none => statusDisconnected
    let drifted := status == statusConnected &&
      probe.drifted r.gatewayUrl applied (readableText sight.faults r.disk)
    (⟨id, if drifted then statusDrifted else status, entry.bind AgentEntry.defaultModel,
      entry.bind AgentEntry.catalogDigest, entry.bind AgentEntry.agentKeyId,
      entry.bind AgentEntry.connectedAt⟩, drifted)

/-- The first half of `list`: its rows, and who has drifted. -/
def rows (libs : Libraries) (sight : Sight) (applied : Applied) (r : AgentRegistry) :
    List AgentStatus × List String :=
  let seen := (allProbes libs sight.home).map (statusOf sight applied r)
  (seen.map Prod.fst, (seen.filter Prod.snd).map fun row => row.1.id)

/-- The second half of `list`: who has drifted is written down. -/
def markDrifted (saveFails : Bool) (drifted : List String) (r : AgentRegistry) : AgentRegistry :=
  if drifted = [] then r
  else
    (saveState saveFails { r with
      agents := fun id =>
        if id ∈ drifted then (r.agents id).map fun entry => { entry with status := statusDrifted }
        else r.agents id }).2

end AgentRegistry

end AnyConverter
