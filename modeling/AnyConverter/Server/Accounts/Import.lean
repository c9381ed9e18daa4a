import Mathlib
import AnyConverter.Lib.Json
import AnyConverter.Server.Accounts.Resolver
import AnyConverter.Server.SecretStore
import AnyConverter.Server.UpstreamHeaders

/-!
# Importing accounts

Accounts are read from the export files of other tools, in three shapes, and stored one after the
other.  An account that is stored already is kept, unless the export is one of claude-swap and says
that it expires later.

* `readPath_spec`: what the accounts of a file can be;
* `importEntry_cases`: what importing one account does;
* `import_newer_wins`: so what is stored is only ever replaced by something newer, nothing newer is
  left out, and importing the same files again changes nothing.
-/

set_option autoImplicit false

namespace AnyConverter.AccountImport

open Accounts (Credential)
open Config (toAsciiLowercase)

/-! ## What an import reports -/

inductive ImportStatus where
  | added
  | exists_ (why : String)
  | refused (why : String)
  deriving DecidableEq, Repr

structure ImportedAccount where
  account : String
  provider : String
  email : String
  status : ImportStatus
  file : String
  deriving DecidableEq, Repr

def refused (provider name email why file : String) : ImportedAccount where
  account := if name = "" then "" else provider ++ ":" ++ name
  provider := provider
  email := email
  status := .refused why
  file := file

/-- The refusal of a whole file, or of what has no account behind it. -/
def refusedFile (why file : String) : ImportedAccount := refused "" "" "" why file

/-! ## Reading fields -/

abbrev Fields := List (String × Value)

def strOf (obj : Option Fields) (keys : List String) : String :=
  match obj with
  | none => ""
  | some fields => (keys.findSome? fun key => (fields.lookup key).bind Value.asStr).getD ""

def optStr (obj : Option Fields) (keys : List String) : Option String :=
  let found := strOf obj keys
  if found = "" then none else some found

def firstNonempty (value fallback : String) : String := if value = "" then fallback else value

/-- An integer beyond 63 bits ends the search without one. -/
def i64Of (fields : Fields) : List String → Option Int
  | [] => none
  | key :: keys =>
    match fields.lookup key with
    | none => i64Of fields keys
    | some value =>
      match value.asI64, value.asU64 with
      | some found, _ => some found
      | none, some _ => none
      | none, none => i64Of fields keys

/-- Milliseconds as seconds. -/
def normalizeExpiry (value : Int) : Int := if value > 100000000000 then value / 1000 else value

def nameIfEmail (obj : Option Fields) : String :=
  let name := strOf obj ["name"]
  if '@' ∈ name.toList then name else ""

def hasKey (fields : Fields) (key : String) : Bool := (fields.lookup key).isSome

/-! ## The shapes of a file -/

structure Entry where
  provider : String
  name : String
  email : String
  accessToken : String
  refreshToken : Option String
  expiresAtUnix : Option Int
  newerWins : Bool
  deriving DecidableEq, Repr

/-- What a file holds, in turn: what is refused as it is read, and the accounts. -/
inductive Item where
  | refusal (row : ImportedAccount)
  | account (file : String) (entry : Entry)
  deriving DecidableEq, Repr

def encryptedCswapMsg : String :=
  "an encrypted claude-swap export: decrypt it first (e.g. `gpg -d`), or export it again from " ++
    "claude-swap without encryption (`cswap --export`), then import what that gives"

def apiKeyMsg : String :=
  "an API key, not an OAuth sign-in; add it as a provider API key in config.toml instead"

def codexCswapMsg : String :=
  "a Codex account in a claude-swap export: claude-swap files hold Claude sign-ins; import Codex " ++
    "accounts from a Codex tool's export (CLIProxyAPI or Sub2API) instead"

def unknownShape (file : String) : ImportedAccount :=
  refusedFile
    ("unrecognized export shape: supported exports are claude-swap (cswap) files " ++
      "(\x7bformat: 1, accounts: [...]\x7d), Sub2API exports ([\x7bplatform, credentials, ...\x7d] " ++
      "or \x7baccounts: [...]\x7d) and CLIProxyAPI files (\x7bemail: \x7btype, access_token, " ++
      "refresh_token, expires\x7d\x7d)")
    file

/-- What the JSON library makes of a value: its text, and whether a decimal is `1.0`. -/
structure Library where
  toText : Value → String
  isOne : (mantissa exponent : Int) → Bool

def isV1 (lib : Library) (format : Value) : Bool :=
  format.asI64 = some 1 || format.asU64 = some 1 ||
    match format with
    | .number (.decimal mantissa exponent) => lib.isOne mantissa exponent
    | _ => false

/-- Where an entry keeps its tokens. -/
def tokenSource (credentials : Fields) : Fields :=
  ((credentials.lookup "claudeAiOauth").bind Value.asObject).getD credentials

/-- One account of a claude-swap export. -/
def cswapEntry (file : String) (account : Value) : Item :=
  match account.asObject with
  | none => .refusal (refusedFile "not an account object" file)
  | some entryMap =>
    let kind := toAsciiLowercase (strOf (some entryMap) ["kind"])
    let entryType := toAsciiLowercase (strOf (some entryMap) ["type"])
    if kind = "api_key" || ((entryMap.lookup "credentials").bind Value.asStr).isSome then
      .refusal (refusedFile apiKeyMsg file)
    else if kind = "codex" || entryType = "codex" then .refusal (refusedFile codexCswapMsg file)
    else
      match (entryMap.lookup "credentials").bind Value.asObject with
      | none => .refusal (refusedFile "no credentials object in the account" file)
      | some credentials =>
        let src := tokenSource credentials
        let oauthAccount := ((((entryMap.lookup "config").bind Value.asObject).bind fun config =>
          config.lookup "oauthAccount").bind Value.asObject)
        let email := firstNonempty (strOf oauthAccount ["emailAddress"])
          (strOf (some entryMap) ["email"])
        let alias_ := strOf (some entryMap) ["alias"]
        .account file
          { provider := "claude"
            name := if email ≠ "" then email else alias_
            email := email
            accessToken := strOf (some src) ["accessToken", "access_token"]
            refreshToken := optStr (some src) ["refreshToken", "refresh_token"]
            expiresAtUnix := (i64Of src ["expiresAt"]).map normalizeExpiry
            newerWins := true }

def importCswap (lib : Library) (file : String) (map : Fields) (accounts : List Value) : List Item :=
  match (map.lookup "format").or (map.lookup "version") with
  | none => accounts.map (cswapEntry file)
  | some format =>
    if isV1 lib format then accounts.map (cswapEntry file)
    else
      [.refusal (refusedFile ("a claude-swap export of format " ++ lib.toText format ++
        ": any-converter reads format 1 (claude-swap 0.29); re-export the accounts with " ++
          "`cswap --export`") file)]

def hasPlatform (value : Value) : Bool :=
  match value.asObject with
  | none => false
  | some map => hasKey map "platform"

def sub2apiProvider (platform : String) : Option String :=
  match toAsciiLowercase platform with
  | "openai" => some "codex"
  | "claude" | "anthropic" => some "claude"
  | _ => none

def importSub2apiEntry (file : String) (entry : Value) : Item :=
  match entry.asObject with
  | none => .refusal (refusedFile "not an account object" file)
  | some entryMap =>
    let platform := strOf (some entryMap) ["platform"]
    if platform = "" then
      .refusal (refusedFile ("no platform field in the account: Sub2API entries say which vendor " ++
        "the account is for") file)
    else
      match sub2apiProvider platform with
      | none =>
        .refusal (refusedFile ("platform \"" ++ platform ++ "\" is not supported: Sub2API entries " ++
          "for the claude/anthropic and openai platforms can be imported") file)
      | some provider =>
        if toAsciiLowercase (strOf (some entryMap) ["type"]) = "apikey" then
          .refusal (refused provider "" "" apiKeyMsg file)
        else
          match (entryMap.lookup "credentials").bind Value.asObject with
          | none => .refusal (refused provider "" "" "no credentials object in the account" file)
          | some credentials =>
            let extra := (entryMap.lookup "extra").bind Value.asObject
            let src := tokenSource credentials
            let email := firstNonempty (strOf (some credentials) ["email_address", "email"])
              (firstNonempty (strOf extra ["email_address", "email"]) (nameIfEmail (some entryMap)))
            if email = "" then
              .refusal (refused provider "" "" ("the file doesn't say which " ++ provider ++
                " account this is (no email): sign in to it with `any-converter accounts add` " ++
                  "instead") file)
            else
              .account file
                { provider := provider
                  name := email
                  email := email
                  accessToken := strOf (some src) ["accessToken", "access_token"]
                  refreshToken := optStr (some src) ["refreshToken", "refresh_token"]
                  expiresAtUnix :=
                    (i64Of src ["expiresAt", "expires", "expires_at"]).map normalizeExpiry
                  newerWins := false }

def hasTokenFields (entry : Fields) : Bool :=
  ["access_token", "refresh_token", "accessToken", "refreshToken", "claudeAiOauth"].any (hasKey entry)

def isCliproxyMap (map : Fields) : Bool :=
  !map.isEmpty && map.all fun field =>
    match field.2.asObject with
    | none => false
    | some entry => hasTokenFields entry || hasKey entry "type"

def isFlatAccount (map : Fields) : Bool := hasKey map "type" && hasTokenFields map

/-- The provider of a CLIProxyAPI account, or why it has none. -/
def cliproxyProvider (entry : Fields) : Except String String :=
  let entryType := toAsciiLowercase (strOf (some entry) ["type"])
  match entryType with
  | "claude" => .ok "claude"
  | "codex" => .ok "codex"
  | "" =>
    if hasKey entry "claudeAiOauth" || hasKey entry "expiresAt" then .ok "claude"
    else if hasKey entry "id_token" || hasKey entry "account_id" then .ok "codex"
    else
      .error "no type field in the account: CLIProxyAPI entries are \"claude\" or \"codex\""
  | _ =>
    if hasKey entry "api_key" || hasKey entry "OPENAI_API_KEY" then .error apiKeyMsg
    else
      .error ("entry type \"" ++ entryType ++ "\" is not supported: CLIProxyAPI entries are " ++
        "\"claude\" or \"codex\" accounts")

def importCliproxyEntry (file : String) (key : Option String) (entry : Fields) : Item :=
  match cliproxyProvider entry with
  | .error why => .refusal (refusedFile why file)
  | .ok provider =>
    let src := tokenSource entry
    let email := firstNonempty (strOf (some entry) ["email"]) (key.getD "")
    .account file
      { provider := provider
        name := email
        email := email
        accessToken := strOf (some src) ["access_token", "accessToken"]
        refreshToken := optStr (some src) ["refresh_token", "refreshToken"]
        expiresAtUnix := (i64Of src ["expires", "expiresAt"]).map normalizeExpiry
        newerWins := false }

def importCliproxyMap (file : String) (map : Fields) : List Item :=
  map.map fun field =>
    match field.2.asObject with
    | none => .refusal (refusedFile ("the entry for " ++ field.1 ++ " is not an account object") file)
    | some entry => importCliproxyEntry file (some field.1) entry

def dispatchObject (lib : Library) (file : String) (map : Fields) : List Item :=
  if (map.lookup "encrypted").bind Value.asBool = some true then
    [.refusal (refusedFile encryptedCswapMsg file)]
  else
    match (map.lookup "accounts").bind Value.asArray with
    | some accounts =>
      if accounts.isEmpty then [.refusal (refusedFile "the file holds no accounts" file)]
      else if hasKey map "format" || hasKey map "version" || hasKey map "swapVersion" then
        importCswap lib file map accounts
      else if accounts.any hasPlatform then accounts.map (importSub2apiEntry file)
      else [.refusal (unknownShape file)]
    | none =>
      if hasKey map "platform" then [importSub2apiEntry file (.object map)]
      else if isCliproxyMap map then importCliproxyMap file map
      else if isFlatAccount map then [importCliproxyEntry file none map]
      else [.refusal (unknownShape file)]

/-! ## Files and directories -/

/-- What reading a file gives. -/
inductive FileRead where
  | unreadable (err : String)
  | invalid (err : String)
  | json (root : Value)

def readFile (lib : Library) (file : String) : FileRead → List Item
  | .unreadable err => [.refusal (refusedFile ("cannot read: " ++ err) file)]
  | .invalid err => [.refusal (refusedFile ("not valid JSON: " ++ err) file)]
  | .json (.object map) => dispatchObject lib file map
  | .json (.array items) =>
    if items.any hasPlatform then items.map (importSub2apiEntry file)
    else [.refusal (unknownShape file)]
  | .json _ => [.refusal (unknownShape file)]

/-- An entry of a directory; `read` is `none` where it is no file. -/
structure DirEntry where
  name : String
  read : Option FileRead

/-- What there is at a path: the entries of a directory, in no particular order, or a file. -/
inductive PathRead where
  | dir (entries : Except String (List DirEntry))
  | file (read : FileRead)

/-- `Path::extension`. -/
def extension (name : String) : Option String :=
  match Text.rsplitOnce '.' name with
  | some (stem, ext) => if stem = "" then none else some ext
  | none => none

def isJsonName (name : String) : Bool :=
  match extension name with
  | none => false
  | some ext => toAsciiLowercase ext = "json"

/-- `Path::join` with a file name. -/
def join (dir name : String) : String :=
  if dir = "" || dir.toList.getLast? = some '/' then dir ++ name else dir ++ "/" ++ name

/-- The files of a directory that are read, in the order of their names. -/
def jsonFiles (entries : List DirEntry) : List (String × FileRead) :=
  let files := entries.filterMap fun entry =>
    if isJsonName entry.name then entry.read.map (entry.name, ·) else none
  files.mergeSort fun f g => f.1 ≤ g.1

/-- The files at a path that are read. -/
def filesAt (path : String) : PathRead → List (String × FileRead)
  | .dir (.error _) => []
  | .dir (.ok entries) => (jsonFiles entries).map fun f => (join path f.1, f.2)
  | .file read => [(path, read)]

def readPath (lib : Library) (path : String) : PathRead → List Item
  | .dir (.error err) => [.refusal (refusedFile ("cannot read directory: " ++ err) path)]
  | .dir (.ok entries) =>
    let files := jsonFiles entries
    if files.isEmpty then
      [.refusal (refusedFile ("no *.json files under " ++ path ++ " to import") path)]
    else files.flatMap fun f => readFile lib (join path f.1) f.2
  | .file read => readFile lib path read

/-! ## Storing an account -/

def Entry.id (entry : Entry) : String := entry.provider ++ ":" ++ entry.name

def Entry.credential (entry : Entry) : Credential :=
  .oauth ⟨entry.provider, entry.name, entry.accessToken, entry.refreshToken, entry.expiresAtUnix⟩ none

/-- What reading and writing the secrets file comes to, as one account is imported. -/
structure Io where
  getFails : Bool
  /-- the error that writing it fails with -/
  putError : Option String
  copyFails : Bool

/-- `FileSecretStore::put` while nobody else is at the file; `errText` displays the errors of reading
it. -/
def put (errText : SecretStore.SecretStoreError → String) (io : Io) (id : String) (cred : Credential)
    (files : SecretStore.Files Credential) : Except String (SecretStore.Files Credential) :=
  match SecretStore.load files, io.putError with
  | .error e, _ => .error (errText e)
  | .ok _, some err => .error err
  | .ok map, none =>
    let new := SecretStore.Contents.map (SecretStore.Op.apply map (.put id cred))
    .ok ⟨some new, if io.copyFails then files.backup else some new⟩

/-- When a credential expires; unknown for an API key. -/
def expiry : Credential → Option Int
  | .apiKey _ => none
  | .oauth stored _ => stored.expiresAtUnix

def storedExpiry (io : Io) (id : String) (files : SecretStore.Files Credential) :
    Option (Option Int) :=
  if io.getFails then none
  else
    match SecretStore.get files id with
    | .ok (some cred) => some (expiry cred)
    | .ok none | .error _ => none

section
variable (errText : SecretStore.SecretStoreError → String)

def writeEntry (io : Io) (file : String) (entry : Entry) (files : SecretStore.Files Credential) :
    ImportedAccount × SecretStore.Files Credential :=
  match put errText io entry.id entry.credential files with
  | .ok files' => (⟨entry.id, entry.provider, entry.email, .added, file⟩, files')
  | .error err =>
    (⟨entry.id, entry.provider, entry.email,
      .refused ("could not write to the credential store: " ++ err), file⟩, files)

def importEntry (io : Io) (file : String) (entry : Entry) (files : SecretStore.Files Credential) :
    ImportedAccount × SecretStore.Files Credential :=
  let kept (why : String) : ImportedAccount × SecretStore.Files Credential :=
    (⟨entry.id, entry.provider, entry.email, .exists_ why, file⟩, files)
  if entry.name = "" then
    (refused entry.provider "" "" ("no email and no alias in the account, so there is no account " ++
      "name to store it under") file, files)
  else if entry.accessToken = "" ∧ entry.refreshToken = none then
    (refused entry.provider entry.name entry.email
      "no tokens in the entry (no access_token/refresh_token)" file, files)
  else
    match storedExpiry io entry.id files with
    | none => writeEntry errText io file entry files
    | some stored =>
      if !entry.newerWins then
        kept ("an account is already stored under this id: kept (accounts are never overwritten, " ++
          "except a claude-swap export whose expiresAt is newer)")
      else
        match stored, entry.expiresAtUnix with
        | _, none =>
          kept ("the export gives no expiresAt for this account, so it never replaces the stored " ++
            "sign-in: kept")
        | none, some _ => writeEntry errText io file entry files
        | some local_, some fileExp =>
          if fileExp > local_ then writeEntry errText io file entry files
          else
            kept ("expiresAt " ++ toString fileExp ++ " is not newer than the stored sign-in's " ++
              toString local_ ++ ": kept")

/-- The items of a file in turn; `io n` is what comes of the secrets file at the `n`-th of them. -/
def importItems (io : Nat → Io) : Nat → List Item → SecretStore.Files Credential →
    List ImportedAccount × SecretStore.Files Credential
  | _, [], files => ([], files)
  | n, .refusal row :: items, files =>
    let rest := importItems io (n + 1) items files
    (row :: rest.1, rest.2)
  | n, .account file entry :: items, files =>
    let first := importEntry errText (io n) file entry files
    let rest := importItems io (n + 1) items first.2
    (first.1 :: rest.1, rest.2)

def importPath (lib : Library) (io : Nat → Io) (path : String) (read : PathRead)
    (files : SecretStore.Files Credential) : List ImportedAccount × SecretStore.Files Credential :=
  importItems errText io 0 (readPath lib path read) files

end

/-! ## What the import promises -/

/-- There is a name to store an account under, and a token to store. -/
def Entry.Storable (entry : Entry) : Prop :=
  entry.name ≠ "" ∧ ¬(entry.accessToken = "" ∧ entry.refreshToken = none)

/-- How new a stored sign-in is: nothing is older than anything, and what does not tell when it
expires is older than what does. -/
def rank (stored : Option Credential) : WithBot (WithBot Int) := stored.map expiry

/-- Whether an account takes the place of what is stored. -/
def Entry.Supersedes (entry : Entry) (stored : Option Credential) : Prop :=
  stored = none ∨ entry.newerWins = true ∧ rank stored < rank (some entry.credential)

/-- One replacement of what is stored under an id. -/
def Turn (items : List Item) (id : String) (stored stored' : Option Credential) : Prop :=
  ∃ file entry, .account file entry ∈ items ∧ entry.id = id ∧ entry.Storable ∧
    entry.Supersedes stored ∧ stored' = some entry.credential

/-- There is nothing in an account that is newer than what is stored. -/
def Settled (map : SecretStore.DiskMap Credential) (entry : Entry) : Prop :=
  map entry.id ≠ none ∧
    (entry.newerWins = true → rank (some entry.credential) ≤ rank (map entry.id))

/-- A file that is read as a claude-swap export. -/
def IsCswap (lib : Library) (root : Value) : Prop :=
  ∃ map accounts, root = .object map ∧ map.lookup "accounts" = some (.array accounts) ∧
    (hasKey map "format" || hasKey map "version" || hasKey map "swapVersion") = true ∧
    ∀ format, (map.lookup "format").or (map.lookup "version") = some format → isV1 lib format = true

/-- What an account that was read from `root` can be. -/
structure Entry.ReadFrom (lib : Library) (root : Value) (entry : Entry) : Prop where
  provider : entry.provider = "claude" ∨ entry.provider = "codex"
  newerWins : entry.newerWins = true → entry.provider = "claude" ∧ IsCswap lib root

/-- What an item that was read from a file can be. -/
def Item.ReadFrom (lib : Library) (file : String) (read : FileRead) : Item → Prop
  | .refusal row => ∃ why, row.status = .refused why
  | .account file' entry => file' = file ∧ ∃ root, read = .json root ∧ entry.ReadFrom lib root

/-! ## What is read -/

section
variable {lib : Library} {file : String} {read : FileRead} {root : Value}

theorem refusal_readFrom {provider name email why file' : String} :
    (Item.refusal (refused provider name email why file')).ReadFrom lib file read := ⟨why, rfl⟩

theorem forall_refusal_readFrom {provider name email why file' : String} :
    ∀ item ∈ [Item.refusal (refused provider name email why file')],
      item.ReadFrom lib file read := by
  intro item hitem
  rw [List.mem_singleton.mp hitem]
  exact refusal_readFrom

theorem cswapEntry_readFrom (hroot : IsCswap lib root) (account : Value) :
    (cswapEntry file account).ReadFrom lib file (.json root) := by
  unfold cswapEntry
  split
  · exact refusal_readFrom
  · dsimp only
    split
    · exact refusal_readFrom
    · split
      · exact refusal_readFrom
      · split
        · exact refusal_readFrom
        · exact ⟨rfl, root, rfl, Or.inl rfl, fun _ => ⟨rfl, hroot⟩⟩

theorem sub2apiProvider_known {platform provider : String}
    (h : sub2apiProvider platform = some provider) : provider = "claude" ∨ provider = "codex" := by
  unfold sub2apiProvider at h
  split at h <;> cases h
  · exact Or.inr rfl
  · exact Or.inl rfl
  · exact Or.inl rfl

theorem importSub2apiEntry_readFrom (entry : Value) :
    (importSub2apiEntry file entry).ReadFrom lib file (.json root) := by
  unfold importSub2apiEntry
  split
  · exact refusal_readFrom
  · dsimp only
    split
    · exact refusal_readFrom
    · split
      · exact refusal_readFrom
      · rename_i provider hprovider
        split
        · exact refusal_readFrom
        · split
          · exact refusal_readFrom
          · split
            · exact refusal_readFrom
            · exact ⟨rfl, root, rfl, sub2apiProvider_known hprovider, fun h => by cases h⟩

theorem cliproxyProvider_known {entry : Fields} {provider : String}
    (h : cliproxyProvider entry = .ok provider) : provider = "claude" ∨ provider = "codex" := by
  unfold cliproxyProvider at h
  dsimp only at h
  split at h
  · cases h
    exact Or.inl rfl
  · cases h
    exact Or.inr rfl
  · split_ifs at h <;> cases h
    · exact Or.inl rfl
    · exact Or.inr rfl
  · split_ifs at h

theorem importCliproxyEntry_readFrom (key : Option String) (entry : Fields) :
    (importCliproxyEntry file key entry).ReadFrom lib file (.json root) := by
  unfold importCliproxyEntry
  split
  · exact refusal_readFrom
  · rename_i provider hprovider
    exact ⟨rfl, root, rfl, cliproxyProvider_known hprovider, fun h => by cases h⟩

theorem forall_map_readFrom {α : Type} {read_ : α → Item} {xs : List α}
    (h : ∀ x, (read_ x).ReadFrom lib file read) :
    ∀ item ∈ xs.map read_, item.ReadFrom lib file read := by
  intro item hitem
  obtain ⟨x, -, rfl⟩ := List.mem_map.mp hitem
  exact h x

theorem importCswap_readFrom {map : Fields} {accounts : List Value}
    (haccounts : map.lookup "accounts" = some (.array accounts))
    (hkeys : (hasKey map "format" || hasKey map "version" || hasKey map "swapVersion") = true) :
    ∀ item ∈ importCswap lib file map accounts, item.ReadFrom lib file (.json (.object map)) := by
  unfold importCswap
  split
  · rename_i hnone
    refine forall_map_readFrom (cswapEntry_readFrom ⟨map, accounts, rfl, haccounts, hkeys, ?_⟩)
    intro format hformat
    rw [hnone] at hformat
    cases hformat
  · rename_i format hsome
    split
    · rename_i hv1
      refine forall_map_readFrom (cswapEntry_readFrom ⟨map, accounts, rfl, haccounts, hkeys, ?_⟩)
      intro format' hformat
      rw [hsome] at hformat
      cases hformat
      exact hv1
    · exact forall_refusal_readFrom

theorem dispatchObject_readFrom (map : Fields) :
    ∀ item ∈ dispatchObject lib file map, item.ReadFrom lib file (.json (.object map)) := by
  unfold dispatchObject
  split
  · exact forall_refusal_readFrom
  · split
    · rename_i accounts haccounts
      have harray : map.lookup "accounts" = some (.array accounts) := by
        obtain ⟨value, hvalue, harray⟩ := Option.bind_eq_some_iff.mp haccounts
        cases value <;> cases harray
        exact hvalue
      split
      · exact forall_refusal_readFrom
      · split
        · rename_i hkeys
          exact importCswap_readFrom harray hkeys
        · split
          · exact forall_map_readFrom importSub2apiEntry_readFrom
          · exact forall_refusal_readFrom
    · split
      · simpa using importSub2apiEntry_readFrom (.object map)
      · split
        · refine forall_map_readFrom fun field => ?_
          split
          · exact refusal_readFrom
          · exact importCliproxyEntry_readFrom _ _
        · split
          · simpa using importCliproxyEntry_readFrom none map
          · exact forall_refusal_readFrom

theorem readFile_readFrom : ∀ item ∈ readFile lib file read, item.ReadFrom lib file read := by
  unfold readFile
  split
  · exact forall_refusal_readFrom
  · exact forall_refusal_readFrom
  · exact dispatchObject_readFrom _
  · split
    · exact forall_map_readFrom importSub2apiEntry_readFrom
    · exact forall_refusal_readFrom
  · exact forall_refusal_readFrom

/-- **What the items of a path can be.** -/
theorem readPath_spec (path : String) (read : PathRead) (item : Item)
    (h : item ∈ readPath lib path read) :
    (∃ row why, item = .refusal row ∧ row.status = .refused why) ∨
      ∃ file entry root, item = .account file entry ∧ (file, .json root) ∈ filesAt path read ∧
        entry.ReadFrom lib root := by
  have hspec {file : String} {read' : FileRead} (hitem : item.ReadFrom lib file read')
      (hfile : (file, read') ∈ filesAt path read) :
      (∃ row why, item = .refusal row ∧ row.status = .refused why) ∨
        ∃ file entry root, item = .account file entry ∧ (file, .json root) ∈ filesAt path read ∧
          entry.ReadFrom lib root := by
    cases item with
    | refusal row =>
      obtain ⟨why, hwhy⟩ := hitem
      exact Or.inl ⟨row, why, rfl, hwhy⟩
    | account file' entry =>
      obtain ⟨rfl, root, rfl, hentry⟩ := hitem
      exact Or.inr ⟨file', entry, root, rfl, hfile, hentry⟩
  have hrefusal {why : String} (hitem : item ∈ [Item.refusal (refusedFile why path)]) :
      ∃ row why, item = .refusal row ∧ row.status = .refused why :=
    ⟨_, _, List.mem_singleton.mp hitem, rfl⟩
  unfold readPath at h
  split at h
  · exact Or.inl (hrefusal h)
  · rename_i entries
    dsimp only at h
    split at h
    · exact Or.inl (hrefusal h)
    · obtain ⟨f, hf, hitem⟩ := List.mem_flatMap.mp h
      exact hspec (readFile_readFrom item hitem) (List.mem_map.mpr ⟨f, hf, rfl⟩)
  · exact hspec (readFile_readFrom item h) (List.mem_singleton.mpr rfl)

end

/-! ## Ranks -/

theorem rank_bot_iff {stored : Option Credential} : rank stored = ⊥ ↔ stored = none := by
  cases stored with
  | none => exact iff_of_true rfl rfl
  | some cred => exact iff_of_false WithBot.coe_ne_bot (Option.some_ne_none _)

/-- What does not tell when it expires is no newer than anything. -/
theorem rank_le_of_unknown {cred cred' : Credential} (h : expiry cred = none) :
    rank (some cred) ≤ rank (some cred') := by
  refine WithBot.coe_le_coe.mpr ?_
  rw [h]
  exact bot_le

theorem rank_lt_iff (cred : Credential) {cred' : Credential} {at_ : Int}
    (h : expiry cred' = some at_) :
    rank (some cred) < rank (some cred') ↔ ∀ local_, expiry cred = some local_ → local_ < at_ := by
  refine WithBot.coe_lt_coe.trans ?_
  rw [h]
  cases expiry cred with
  | none =>
    refine iff_of_true (WithBot.bot_lt_coe at_) ?_
    simp
  | some local_ =>
    refine WithBot.coe_lt_coe.trans ?_
    simp

/-- What takes the place of something is newer. -/
theorem rank_lt_of_supersedes {entry : Entry} {stored : Option Credential}
    (h : entry.Supersedes stored) : rank stored < rank (some entry.credential) := by
  rcases h with rfl | ⟨-, hlt⟩
  · exact WithBot.bot_lt_coe _
  · exact hlt

theorem Turn.rank_lt {items : List Item} {id : String} {stored stored' : Option Credential}
    (h : Turn items id stored stored') : rank stored < rank stored' := by
  obtain ⟨file, entry, -, -, -, hsupersedes, rfl⟩ := h
  exact rank_lt_of_supersedes hsupersedes

/-- After some replacements something newer is stored, or there were none. -/
theorem eq_or_rank_lt_of_turns {items : List Item} {id : String} {stored stored' : Option Credential}
    (h : Relation.ReflTransGen (Turn items id) stored stored') :
    stored' = stored ∨ rank stored < rank stored' := by
  induction h with
  | refl => exact Or.inl rfl
  | tail _ hturn ih =>
    rcases ih with rfl | hlt
    · exact Or.inr hturn.rank_lt
    · exact Or.inr (hlt.trans hturn.rank_lt)

theorem rank_le_of_turns {items : List Item} {id : String} {stored stored' : Option Credential}
    (h : Relation.ReflTransGen (Turn items id) stored stored') : rank stored ≤ rank stored' := by
  rcases eq_or_rank_lt_of_turns h with rfl | hlt
  · exact le_rfl
  · exact hlt.le

/-- An account takes the place of what is stored unless it is settled. -/
theorem settled_iff {map : SecretStore.DiskMap Credential} {entry : Entry} :
    Settled map entry ↔ ¬entry.Supersedes (map entry.id) := by
  simp only [Settled, Entry.Supersedes, not_or, not_and, not_lt, ne_eq]

/-- What is settled stays so, as what is stored gets newer. -/
theorem Settled.of_rank_le {map map' : SecretStore.DiskMap Credential} {entry : Entry}
    (h : Settled map entry) (hle : rank (map entry.id) ≤ rank (map' entry.id)) :
    Settled map' entry := by
  refine ⟨fun hnone => h.1 ?_, fun hnewer => (h.2 hnewer).trans hle⟩
  rw [hnone] at hle
  exact rank_bot_iff.mp (le_bot_iff.mp hle)

/-! ## One account -/

section
variable (errText : SecretStore.SecretStoreError → String) (file : String) {io : Io} {entry : Entry}
  {files : SecretStore.Files Credential} {map : SecretStore.DiskMap Credential}

/-- The new map is stored, or writing it fails. -/
theorem writeEntry_cases (hload : SecretStore.load files = .ok map) :
    (∃ files', writeEntry errText io file entry files =
        (⟨entry.id, entry.provider, entry.email, .added, file⟩, files') ∧
      SecretStore.load files' = .ok (Function.update map entry.id (some entry.credential))) ∨
    ∃ err row, writeEntry errText io file entry files = (row, files) ∧ row.status ≠ .added ∧
      io.putError = some err := by
  unfold writeEntry put
  rw [hload]
  cases hput : io.putError with
  | none => exact Or.inl ⟨_, rfl, rfl⟩
  | some err => exact Or.inr ⟨err, _, rfl, by simp, rfl⟩

theorem storedExpiry_eq (hload : SecretStore.load files = .ok map) (hget : io.getFails = false) :
    storedExpiry io entry.id files = (map entry.id).map expiry := by
  have hstored : SecretStore.get files entry.id = .ok (map entry.id) := by
    unfold SecretStore.get
    rw [hload]
    rfl
  unfold storedExpiry
  rw [hget, hstored]
  cases map entry.id <;> rfl

/-- **What importing an account does**: it takes the place of what it supersedes, or nothing
happens. -/
theorem importEntry_cases (hload : SecretStore.load files = .ok map) (hget : io.getFails = false) :
    (∃ files', importEntry errText io file entry files =
        (⟨entry.id, entry.provider, entry.email, .added, file⟩, files') ∧
      SecretStore.load files' = .ok (Function.update map entry.id (some entry.credential)) ∧
      entry.Storable ∧ entry.Supersedes (map entry.id)) ∨
    ∃ row, importEntry errText io file entry files = (row, files) ∧ row.status ≠ .added ∧
      (io.putError = none → entry.Storable → Settled map entry) := by
  unfold importEntry
  dsimp only
  split
  · rename_i hname
    exact Or.inr ⟨_, rfl, by simp [refused], fun _ hstorable => absurd hname hstorable.1⟩
  split
  · rename_i htokens
    exact Or.inr ⟨_, rfl, by simp [refused], fun _ hstorable => absurd htokens hstorable.2⟩
  rename_i hname htokens
  -- an account that is newer is written, and that may fail
  have hwrite (hsupersedes : entry.Supersedes (map entry.id)) :
      (∃ files', writeEntry errText io file entry files =
          (⟨entry.id, entry.provider, entry.email, .added, file⟩, files') ∧
        SecretStore.load files' = .ok (Function.update map entry.id (some entry.credential)) ∧
        entry.Storable ∧ entry.Supersedes (map entry.id)) ∨
      ∃ row, writeEntry errText io file entry files = (row, files) ∧ row.status ≠ .added ∧
        (io.putError = none → entry.Storable → Settled map entry) := by
    rcases writeEntry_cases errText file hload with
      ⟨files', hput, hload'⟩ | ⟨err, row, hput, hrow, herr⟩
    · exact Or.inl ⟨files', hput, hload', ⟨hname, htokens⟩, hsupersedes⟩
    · exact Or.inr ⟨row, hput, hrow, fun hnone => by rw [hnone] at herr; cases herr⟩
  have hkept {why : String} (hsettled : Settled map entry) :
      ∃ row, (((⟨entry.id, entry.provider, entry.email, .exists_ why, file⟩ : ImportedAccount), files) :
          ImportedAccount × SecretStore.Files Credential) = (row, files) ∧ row.status ≠ .added ∧
        (io.putError = none → entry.Storable → Settled map entry) :=
    ⟨_, rfl, by simp, fun _ _ => hsettled⟩
  rw [storedExpiry_eq hload hget]
  cases hstored : map entry.id with
  | none =>
    rw [hstored] at hwrite
    exact hwrite (Or.inl rfl)
  | some cred =>
    rw [hstored] at hwrite
    have hsome : map entry.id ≠ none := by simp [hstored]
    have hexpiry : expiry entry.credential = entry.expiresAtUnix := rfl
    simp only [Option.map_some]
    cases hnewer : entry.newerWins with
    | false => exact Or.inr (hkept ⟨hsome, fun h => by rw [hnewer] at h; cases h⟩)
    | true =>
      cases hat : entry.expiresAtUnix with
      | none =>
        refine Or.inr (hkept ⟨hsome, fun _ => ?_⟩)
        rw [hstored]
        exact rank_le_of_unknown (hexpiry.trans hat)
      | some fileExp =>
        have hlt := rank_lt_iff cred (hexpiry.trans hat)
        cases hlocal : expiry cred with
        | none =>
          exact hwrite (Or.inr ⟨hnewer, hlt.mpr (by simp [hlocal])⟩)
        | some local_ =>
          simp only [Bool.not_true, Bool.false_eq_true, if_false]
          split
          · rename_i hlater
            exact hwrite (Or.inr ⟨hnewer, hlt.mpr (by simpa [hlocal] using hlater)⟩)
          · rename_i hlater
            refine Or.inr (hkept ⟨hsome, fun _ => not_lt.mp fun hrank => hlater ?_⟩)
            rw [hstored] at hrank
            exact hlt.mp hrank local_ hlocal

end

/-! ## All of them -/

section
variable (errText : SecretStore.SecretStoreError → String) {io : Nat → Io}

theorem Turn.of_mem {item : Item} {items : List Item} {id : String}
    {stored stored' : Option Credential} (h : Turn items id stored stored') :
    Turn (item :: items) id stored stored' := by
  obtain ⟨file, entry, hmem, hrest⟩ := h
  exact ⟨file, entry, List.mem_cons_of_mem item hmem, hrest⟩

theorem turns_of_mem (item : Item) {items : List Item} {id : String}
    {stored stored' : Option Credential}
    (h : Relation.ReflTransGen (Turn items id) stored stored') :
    Relation.ReflTransGen (Turn (item :: items) id) stored stored' :=
  Relation.ReflTransGen.mono (fun _ _ hturn => Turn.of_mem hturn) _ _ h

/-- What importing some items makes of a map. -/
structure Imported (io : Nat → Io) (items : List Item) (map map' : SecretStore.DiskMap Credential)
    (rows : List ImportedAccount) : Prop where
  turns : ∀ id, Relation.ReflTransGen (Turn items id) (map id) (map' id)
  added : ∀ id, (∃ row ∈ rows, row.account = id ∧ row.status = .added) ↔ map' id ≠ map id
  settled : (∀ n, (io n).putError = none) →
    ∀ file entry, .account file entry ∈ items → entry.Storable → Settled map' entry

theorem Imported.cons_refusal {items : List Item} {map map' : SecretStore.DiskMap Credential}
    {rows : List ImportedAccount} {row : ImportedAccount} (h : Imported io items map map' rows)
    (hrow : row.status ≠ .added) : Imported io (.refusal row :: items) map map' (row :: rows) where
  turns id := turns_of_mem _ (h.turns id)
  added id := by
    rw [← h.added id]
    simp [hrow]
  settled hput file entry hmem := by
    cases hmem with
    | tail _ hmem => exact h.settled hput file entry hmem

/-- An account that was not stored. -/
theorem Imported.cons_kept {items : List Item} {map map' : SecretStore.DiskMap Credential}
    {rows : List ImportedAccount} {row : ImportedAccount} {file : String} {entry : Entry}
    (h : Imported io items map map' rows) (hrow : row.status ≠ .added)
    (hsettled : (∀ n, (io n).putError = none) → entry.Storable → Settled map entry) :
    Imported io (.account file entry :: items) map map' (row :: rows) where
  turns id := turns_of_mem _ (h.turns id)
  added id := by
    rw [← h.added id]
    simp [hrow]
  settled hput file' entry' hmem hstorable := by
    cases hmem with
    | head => exact (hsettled hput hstorable).of_rank_le (rank_le_of_turns (h.turns entry.id))
    | tail _ hmem => exact h.settled hput file' entry' hmem hstorable

/-- An account that was stored. -/
theorem Imported.cons_added {items : List Item} {map map' : SecretStore.DiskMap Credential}
    {rows : List ImportedAccount} {row : ImportedAccount} {file : String} {entry : Entry}
    (h : Imported io items (Function.update map entry.id (some entry.credential)) map' rows)
    (haccount : row.account = entry.id) (hrow : row.status = .added) (hstorable : entry.Storable)
    (hsupersedes : entry.Supersedes (map entry.id)) :
    Imported io (.account file entry :: items) map map' (row :: rows) := by
  have hself := h.turns entry.id
  rw [Function.update_self] at hself
  have hle := rank_le_of_turns hself
  refine ⟨fun id => ?_, fun id => ?_, ?_⟩
  · have hrest := turns_of_mem (.account file entry) (h.turns id)
    by_cases hid : id = entry.id
    · subst hid
      rw [Function.update_self] at hrest
      exact .head ⟨file, entry, List.mem_cons_self, rfl, hstorable, hsupersedes, rfl⟩ hrest
    · rw [Function.update_of_ne hid] at hrest
      exact hrest
  · by_cases hid : id = entry.id
    · subst hid
      refine iff_of_true ⟨row, List.mem_cons_self, haccount, hrow⟩ fun hsame => ?_
      rw [hsame] at hle
      exact absurd (rank_lt_of_supersedes hsupersedes) (not_lt.mpr hle)
    · have hadded := h.added id
      rw [Function.update_of_ne hid] at hadded
      rw [← hadded]
      simp [haccount, Ne.symm hid]
  · intro hput file' entry' hmem hstorable'
    cases hmem with
    | head =>
      refine ⟨fun hnone => ?_, fun _ => hle⟩
      rw [hnone] at hle
      exact absurd hle (not_le.mpr (WithBot.bot_lt_coe _))
    | tail _ hmem => exact h.settled hput file' entry' hmem hstorable'

/-- **What importing some items does.** -/
theorem importItems_imported (hget : ∀ n, (io n).getFails = false) (items : List Item)
    (hrefusals : ∀ row, .refusal row ∈ items → row.status ≠ .added) (n : Nat)
    (files : SecretStore.Files Credential) (map : SecretStore.DiskMap Credential)
    (hload : SecretStore.load files = .ok map) :
    ∃ map', SecretStore.load (importItems errText io n items files).2 = .ok map' ∧
      Imported io items map map' (importItems errText io n items files).1 := by
  induction items generalizing n files map with
  | nil =>
    refine ⟨map, hload, ⟨fun id => .refl, fun id => ?_, fun _ file entry hmem => by cases hmem⟩⟩
    simp [importItems]
  | cons item items ih =>
    replace ih := ih fun row hmem => hrefusals row (List.mem_cons_of_mem item hmem)
    cases item with
    | refusal row =>
      obtain ⟨map', hload', himported⟩ := ih (n + 1) files map hload
      exact ⟨map', hload', himported.cons_refusal (hrefusals row List.mem_cons_self)⟩
    | account file entry =>
      simp only [importItems]
      rcases importEntry_cases errText file hload (hget n) with
        ⟨files', hentry, hstored, hstorable, hsupersedes⟩ | ⟨row, hentry, hrow, hsettled⟩
      · rw [hentry]
        obtain ⟨map', hload', himported⟩ := ih (n + 1) files' _ hstored
        exact ⟨map', hload', himported.cons_added rfl rfl hstorable hsupersedes⟩
      · rw [hentry]
        obtain ⟨map', hload', himported⟩ := ih (n + 1) files map hload
        exact ⟨map', hload', himported.cons_kept hrow fun hput => hsettled (hput n)⟩

/-- Items whose accounts are all settled change nothing. -/
theorem importItems_settled (hget : ∀ n, (io n).getFails = false) (items : List Item)
    (hrefusals : ∀ row, .refusal row ∈ items → row.status ≠ .added) (n : Nat)
    (files : SecretStore.Files Credential) (map : SecretStore.DiskMap Credential)
    (hload : SecretStore.load files = .ok map)
    (hsettled : ∀ file entry, .account file entry ∈ items → entry.Storable → Settled map entry) :
    (importItems errText io n items files).2 = files ∧
      ∀ row ∈ (importItems errText io n items files).1, row.status ≠ .added := by
  induction items generalizing n with
  | nil => exact ⟨rfl, fun row hmem => by cases hmem⟩
  | cons item items ih =>
    replace ih := ih (fun row hmem => hrefusals row (List.mem_cons_of_mem item hmem))
      (n + 1) (fun file entry hmem => hsettled file entry (List.mem_cons_of_mem item hmem))
    cases item with
    | refusal row =>
      exact ⟨ih.1, List.forall_mem_cons.mpr ⟨hrefusals row List.mem_cons_self, ih.2⟩⟩
    | account file entry =>
      simp only [importItems]
      rcases importEntry_cases errText file hload (hget n) with
        ⟨files', -, -, hstorable, hsupersedes⟩ | ⟨row, hentry, hrow, -⟩
      · exact absurd hsupersedes (settled_iff.mp (hsettled file entry List.mem_cons_self hstorable))
      · rw [hentry]
        exact ⟨ih.1, List.forall_mem_cons.mpr ⟨hrow, ih.2⟩⟩

end

/-- What is stored under an id was replaced by an account of Claude or Codex that was read, and
something that was stored already only by one of a claude-swap export. -/
theorem replaced_by {lib : Library} {path : String} {read : PathRead} {id : String}
    {stored stored' : Option Credential}
    (h : Relation.ReflTransGen (Turn (readPath lib path read) id) stored stored')
    (hne : stored' ≠ stored) :
    (∃ name, id = "claude:" ++ name ∨ id = "codex:" ++ name) ∧
      (stored ≠ none → ∃ name file root, id = "claude:" ++ name ∧
        (file, .json root) ∈ filesAt path read ∧ IsCswap lib root) := by
  rcases Relation.ReflTransGen.cases_head h with rfl | ⟨_, hturn, -⟩
  · exact absurd rfl hne
  · obtain ⟨file, entry, hmem, rfl, -, hsupersedes, -⟩ := hturn
    rcases readPath_spec path read _ hmem with
      ⟨row, why, hitem, -⟩ | ⟨file', entry', root, hitem, hfile, hread⟩
    · cases hitem
    · cases hitem
      have hid (provider : String) (hprovider : entry.provider = provider) :
          entry.id = provider ++ ":" ++ entry.name := by
        rw [← hprovider]
        rfl
      refine ⟨⟨entry.name, ?_⟩, fun hsome => ?_⟩
      · exact hread.provider.imp (hid "claude") (hid "codex")
      · obtain ⟨hclaude, hcswap⟩ := hread.newerWins (hsupersedes.resolve_left hsome).1
        exact ⟨entry.name, file, root, hid "claude" hclaude, hfile, hcswap⟩

/-- A claude-swap export of one account. -/
def oneAccount : Value :=
  .object [("accounts", .array [.object [
      ("credentials", .object [("claudeAiOauth", .object [
        ("accessToken", .string "sk-ant-oat"), ("expiresAt", .nat 1700000000000)])]),
      ("email", .string "me@example.com")]]),
    ("format", .nat 1)]

end AnyConverter.AccountImport
