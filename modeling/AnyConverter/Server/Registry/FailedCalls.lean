import AnyConverter.Server.Registry.Calls
import AnyConverter.Wiring.FailedConnect

/-!
# Calls of the registry that fail

A connect and a rotation change the secret store, the files, the entries and the state file one
after another, and only the files are put back when a later one fails.

* `putSecret_same`: when storing a key changes nothing that can be read;
* `wire_asBefore`: when a wiring that fails leaves everything as it was;
* `unchanged_iff`: when a call that fails does;
* `rotation_locks_out`: a rotation that fails, after which the agent's key is good until the next
  restart.
-/

set_option autoImplicit false

namespace AnyConverter.AgentRegistry

/-! ## What a failing call should leave -/

/-- What an agent's key rests on is as it was. -/
structure AsBefore (files : List String) (r r' : AgentRegistry) : Prop where
  secrets : ∀ id, SecretStore.get r'.secrets id = SecretStore.get r.secrets id
  agentKeys : r'.agentKeys = r.agentKeys
  agents : r'.agents = r.agents
  stateFile : r'.stateFile = r.stateFile
  files : ∀ path ∈ files, r'.disk.file path = r.disk.file path

/-- Whoever was let in still is, now and after a restart. -/
structure StillValid (r r' : AgentRegistry) : Prop where
  now : ∀ globalKey header, r.Validates globalKey header → r'.Validates globalKey header
  restarted : ∀ globalKey header,
    r.restart.Validates globalKey header → r'.restart.Validates globalKey header

def configFilesOf (libs : Libraries) (home : HomeCtx) (agentId : String) : List String :=
  match specFor libs home agentId with
  | .ok spec => spec.configFiles
  | .error _ => []

structure Unchanged (libs : Libraries) (home : HomeCtx) (agentId : String) (r r' : AgentRegistry) :
    Prop where
  asBefore : AsBefore (configFilesOf libs home agentId) r r'
  stillValid : StillValid r r'

/-! ## When it does -/

/-- A key cannot be stored. -/
def PutFails (c : Call) (r : AgentRegistry) : Prop :=
  c.putFails ∨ ∃ e, SecretStore.load r.secrets = .error e

/-- The secret store holds this key for the agent. -/
def HoldsKey (agentId key : String) (r : AgentRegistry) : Prop :=
  SecretStore.get r.secrets (keyStoreId agentId) = .ok (some (.apiKey key))

def wiringCtx (c : Call) (r : AgentRegistry) (key defaultModel : String) : WiringCtx :=
  ⟨r.gatewayUrl, key, c.catalog, defaultModel⟩

section
variable (libs : Libraries) (digest : List CatalogModel → String)

/-- A failing connect comes before its key is stored, or there is a key and the files are put back;
should only the state not be saved, nothing of it was new. -/
def ConnectKeeps (agentId : String) (model : Option String) (c : Call) (r : AgentRegistry) : Prop :=
  c.catalog = [] ∨
  match specFor libs c.home agentId with
  | .error _ => True
  | .ok spec =>
    let existing := (r.agents agentId).getD .blank
    match resolveModel c.catalog model existing.defaultModel with
    | .error _ => True
    | .ok defaultModel =>
      match r.agentKeys agentId with
      | some key =>
        let wiring := wiringCtx c r key.key defaultModel
        RollsBack c.around spec wiring r.disk ∧ (ConnectFails c.around spec wiring r.disk ∨
          r.agents agentId = some (wiredEntry digest c key.id defaultModel (some c.after)))
      | none =>
        let key := (freshKey c agentId existing).key
        let wiring := wiringCtx c r key defaultModel
        PutFails c r ∨ HoldsKey agentId key r ∧ RollsBack c.around spec wiring r.disk ∧
          ConnectFails c.around spec wiring r.disk

/-- A failing rotation comes before its key is stored, unless that key is the old one. -/
def RotateKeeps (agentId : String) (c : Call) (r : AgentRegistry) : Prop :=
  c.catalog = [] ∨
  match specFor libs c.home agentId, r.agents agentId, r.agentKeys agentId with
  | .ok spec, some entry, some old =>
    match resolveModel c.catalog none entry.defaultModel with
    | .error _ => True
    | .ok defaultModel =>
      let key := rotatedKey c agentId old
      let wiring := wiringCtx c r key.key defaultModel
      PutFails c r ∨ HoldsKey agentId key.key r ∧ RollsBack c.around spec wiring r.disk ∧
        (ConnectFails c.around spec wiring r.disk ∨
          old = key ∧ entry = wiredEntry digest c key.id defaultModel entry.connectedAt)
  | _, _, _ => True

end

/-! ## The secret store -/

theorem get_putSecret {files files' : SecretStore.Files Accounts.Credential} {c : Call}
    {id : String} {cred : Accounts.Credential} (h : putSecret c id cred files = some files') :
    ∃ map, SecretStore.load files = .ok map ∧
      ∀ id', SecretStore.get files' id' = .ok (Function.update map id (some cred) id') := by
  unfold putSecret at h
  split at h
  · cases h
  · rename_i map hload
    dsimp only at h
    split at h
    · cases h
    · cases h
      exact ⟨map, hload, fun _ => rfl⟩

/-- **Storing a key changes what is read**, unless it was there. -/
theorem putSecret_same {files files' : SecretStore.Files Accounts.Credential} {c : Call}
    {id : String} {cred : Accounts.Credential} (h : putSecret c id cred files = some files') :
    (∀ id', SecretStore.get files' id' = SecretStore.get files id') ↔
      SecretStore.get files id = .ok (some cred) := by
  obtain ⟨map, hload, hget⟩ := get_putSecret h
  have hbefore : ∀ id', SecretStore.get files id' = .ok (map id') := by
    intro id'
    unfold SecretStore.get
    rw [hload]
    rfl
  constructor
  · intro hsame
    rw [← hsame id, hget, Function.update_self]
  · intro hheld id'
    rw [hget, hbefore]
    rw [hbefore] at hheld
    by_cases hid : id' = id
    · subst hid
      rw [Function.update_self, Except.ok.inj hheld]
    · rw [Function.update_of_ne hid]

theorem putSecret_none_iff {files : SecretStore.Files Accounts.Credential} {c : Call} {id : String}
    {cred : Accounts.Credential} :
    putSecret c id cred files = none ↔
      c.putFails ∨ ∃ e, SecretStore.load files = .error e := by
  unfold putSecret
  cases hload : SecretStore.load files with
  | error e => simp
  | ok map =>
    cases hfails : c.putFails <;> simp

theorem putKey_error {c : Call} {agentId key : String} {r r' : AgentRegistry} {e : ApiError}
    (h : putKey c agentId key r = (.error e, r')) : r' = r ∧ PutFails c r := by
  unfold putKey at h
  split at h
  · rename_i hput
    cases h
    exact ⟨rfl, putSecret_none_iff.mp hput⟩
  · cases h

theorem putKey_ok {c : Call} {agentId key : String} {r r' : AgentRegistry} {u : Unit}
    (h : putKey c agentId key r = (.ok u, r')) :
    ¬PutFails c r ∧ ∃ secrets, r' = { r with secrets := secrets } ∧
      ((∀ id, SecretStore.get secrets id = SecretStore.get r.secrets id) ↔
        HoldsKey agentId key r) := by
  unfold putKey at h
  split at h
  · cases h
  · rename_i secrets hput
    cases h
    refine ⟨?_, secrets, rfl, putSecret_same hput⟩
    intro hfails
    rw [putSecret_none_iff.mpr hfails] at hput
    cases hput

/-! ## Wiring -/

/-- **What a wiring that fails leaves.** -/
theorem wire_error {c : Call} {spec : AgentSpec} {agentId key defaultModel : String}
    {agentKeys : AgentKeys} {entry : AgentEntry} {r r' : AgentRegistry} {e : ApiError}
    (h : wire c spec agentId key defaultModel agentKeys entry r = (.error e, r')) :
    r'.secrets = r.secrets ∧ r'.globalKey = r.globalKey ∧ r'.stateFile = r.stateFile ∧
      ((∀ path ∈ spec.configFiles, r'.disk.file path = r.disk.file path) ↔
        RollsBack c.around spec (wiringCtx c r key defaultModel) r.disk) ∧
      (ConnectFails c.around spec (wiringCtx c r key defaultModel) r.disk ∧
          r'.agents = r.agents ∧ r'.agentKeys = r.agentKeys ∨
        ¬ConnectFails c.around spec (wiringCtx c r key defaultModel) r.disk ∧
          r'.agents = Function.update r.agents agentId (some entry) ∧ r'.agentKeys = agentKeys) := by
  unfold wire at h
  split at h
  · rename_i hconnect
    cases h
    exact ⟨rfl, rfl, rfl, connect_files_iff hconnect,
      Or.inl ⟨(connect_error_iff hconnect).mp ⟨_, rfl⟩, rfl, rfl⟩⟩
  · rename_i hconnect
    have hworks : ¬ConnectFails c.around spec (wiringCtx c r key defaultModel) r.disk := by
      intro hfails
      obtain ⟨_, he⟩ := (connect_error_iff hconnect).mpr hfails
      cases he
    unfold saveState at h
    by_cases hsave : c.saveFails
    · rw [if_pos hsave] at h
      cases h
      exact ⟨rfl, rfl, rfl, connect_files_iff hconnect, Or.inr ⟨hworks, rfl, rfl⟩⟩
    · rw [if_neg hsave] at h
      cases h

/-- **When a wiring that fails leaves everything as it was**, the secrets included that were stored
for it. -/
theorem wire_asBefore {c : Call} {spec : AgentSpec} {agentId key defaultModel : String}
    {agentKeys : AgentKeys} {entry : AgentEntry} {r r' : AgentRegistry} {e : ApiError}
    {secrets : SecretStore.Files Accounts.Credential}
    (h : wire c spec agentId key defaultModel agentKeys entry { r with secrets := secrets } =
      (.error e, r')) :
    AsBefore spec.configFiles r r' ↔
      (∀ id, SecretStore.get secrets id = SecretStore.get r.secrets id) ∧
      RollsBack c.around spec (wiringCtx c r key defaultModel) r.disk ∧
      (ConnectFails c.around spec (wiringCtx c r key defaultModel) r.disk ∨
        agentKeys = r.agentKeys ∧ r.agents agentId = some entry) := by
  obtain ⟨hsecrets, -, hstate, hfiles, hrest⟩ := wire_error h
  have hfiles : (∀ path ∈ spec.configFiles, r'.disk.file path = r.disk.file path) ↔
      RollsBack c.around spec (wiringCtx c r key defaultModel) r.disk := hfiles
  constructor
  · intro hbefore
    refine ⟨?_, hfiles.mp hbefore.files, ?_⟩
    · intro id
      have hid := hbefore.secrets id
      rw [hsecrets] at hid
      exact hid
    · rcases hrest with ⟨hfails, -⟩ | ⟨-, hagents, hkeys⟩
      · exact Or.inl hfails
      · right
        refine ⟨hkeys ▸ hbefore.agentKeys, ?_⟩
        rw [← hbefore.agents, hagents, Function.update_self]
  · rintro ⟨hsame, hback, hkept⟩
    have hstores : r'.agentKeys = r.agentKeys ∧ r'.agents = r.agents := by
      rcases hrest with ⟨-, hagents, hkeys⟩ | ⟨hworks, hagents, hkeys⟩
      · exact ⟨hkeys, hagents⟩
      · obtain ⟨hkeep, hentry⟩ := hkept.resolve_left hworks
        refine ⟨hkeys.trans hkeep, ?_⟩
        rw [hagents]
        show Function.update r.agents agentId (some entry) = r.agents
        rw [← hentry, Function.update_eq_self]
    refine ⟨fun id => ?_, hstores.1, hstores.2, hstate, hfiles.mpr hback⟩
    rw [hsecrets]
    exact hsame id

/-! ## Keys -/

/-- The keys of a registry that has not changed are let in as before. -/
theorem AsBefore.stillValid {files : List String} {r r' : AgentRegistry} (h : AsBefore files r r')
    (hglobal : r'.globalKey = r.globalKey) : StillValid r r' where
  now globalKey header hvalid := by
    unfold Validates at hvalid ⊢
    rw [hglobal, h.agentKeys]
    exact hvalid
  restarted globalKey header hvalid := by
    have hkeys : r'.restart.agentKeys = r.restart.agentKeys := by
      show loadKeys r'.secrets (loadState r'.stateFile) = loadKeys r.secrets (loadState r.stateFile)
      rw [h.stateFile]
      funext agentId
      simp only [loadKeys, h.secrets]
    have hrestart : r'.restart.globalKey = r.restart.globalKey := hglobal
    unfold Validates at hvalid ⊢
    rw [hkeys, hrestart]
    exact hvalid

theorem AsBefore.refl (files : List String) (r : AgentRegistry) : AsBefore files r r :=
  ⟨fun _ => rfl, rfl, rfl, rfl, fun _ _ => rfl⟩

theorem Unchanged.refl (libs : Libraries) (home : HomeCtx) (agentId : String) (r : AgentRegistry) :
    Unchanged libs home agentId r r :=
  ⟨.refl _ r, (AsBefore.refl [] r).stillValid rfl⟩

/-! ## Whole calls -/

section
variable {libs : Libraries} {digest : List CatalogModel → String}

theorem wire_globalKey {c : Call} {spec : AgentSpec} {agentId key defaultModel : String}
    {agentKeys : AgentKeys} {entry : AgentEntry} {r r' : AgentRegistry} {e : ApiError}
    {secrets : SecretStore.Files Accounts.Credential}
    (h : wire c spec agentId key defaultModel agentKeys entry { r with secrets := secrets } =
      (.error e, r')) : r'.globalKey = r.globalKey := (wire_error h).2.1

/-- A key that was there is no change of the key table. -/
theorem update_agentKeys_iff {agentKeys : AgentKeys} {agentId : String} {key : AgentKeyEntry} :
    Function.update agentKeys agentId (some key) = agentKeys ↔ agentKeys agentId = some key := by
  constructor
  · intro h
    rw [← h, Function.update_self]
  · intro h
    rw [← h, Function.update_eq_self]

theorem unchanged_iff_asBefore {home : HomeCtx} {agentId : String} {spec : AgentSpec}
    {r r' : AgentRegistry} (hspec : specFor libs home agentId = .ok spec)
    (hglobal : r'.globalKey = r.globalKey) :
    Unchanged libs home agentId r r' ↔ AsBefore spec.configFiles r r' := by
  have hfiles : configFilesOf libs home agentId = spec.configFiles := by
    unfold configFilesOf
    rw [hspec]
  constructor
  · intro h
    exact hfiles ▸ h.asBefore
  · intro h
    exact ⟨hfiles ▸ h, h.stillValid hglobal⟩

theorem connect_unchanged_iff {agentId : String} {model : Option String} {c : Call}
    {r r' : AgentRegistry} {e : ApiError}
    (h : r.connect libs digest agentId model c = (.error e, r')) :
    Unchanged libs c.home agentId r r' ↔ ConnectKeeps libs digest agentId model c r := by
  unfold connect at h
  unfold ConnectKeeps
  split at h
  · rename_i hcatalog
    cases h
    exact ⟨fun _ => Or.inl hcatalog, fun _ => .refl ..⟩
  rename_i hcatalog
  rw [or_iff_right hcatalog]
  cases hspec : specFor libs c.home agentId with
  | error e =>
    rw [hspec] at h
    cases h
    exact ⟨fun _ => trivial, fun _ => .refl ..⟩
  | ok spec =>
    rw [hspec] at h
    dsimp only at h ⊢
    cases hmodel : resolveModel c.catalog model ((r.agents agentId).getD .blank).defaultModel with
    | error e =>
      rw [hmodel] at h
      cases h
      exact ⟨fun _ => trivial, fun _ => .refl ..⟩
    | ok defaultModel =>
      rw [hmodel] at h
      dsimp only at h ⊢
      cases hkey : r.agentKeys agentId with
      | some key =>
        rw [hkey] at h
        dsimp only at h ⊢
        rw [unchanged_iff_asBefore hspec (wire_error h).2.1, wire_asBefore h,
          update_agentKeys_iff, and_iff_right hkey, and_iff_right fun _ => rfl]
      | none =>
        rw [hkey] at h
        dsimp only at h ⊢
        split at h
        · rename_i hput
          cases h
          obtain ⟨rfl, hfails⟩ := putKey_error hput
          exact ⟨fun _ => Or.inl hfails, fun _ => .refl ..⟩
        · rename_i hput
          obtain ⟨hworks, secrets, rfl, hholds⟩ := putKey_ok hput
          have hnew : ¬r.agentKeys agentId =
              some (freshKey c agentId ((r.agents agentId).getD .blank)) := by
            rw [hkey]
            nofun
          rw [unchanged_iff_asBefore hspec (wire_globalKey h), wire_asBefore h, hholds,
            update_agentKeys_iff, or_iff_right hworks, or_iff_left fun hboth => hnew hboth.1]

theorem rotateKey_unchanged_iff {agentId : String} {c : Call} {r r' : AgentRegistry} {e : ApiError}
    (h : r.rotateKey libs digest agentId c = (.error e, r')) :
    Unchanged libs c.home agentId r r' ↔ RotateKeeps libs digest agentId c r := by
  unfold rotateKey at h
  unfold RotateKeeps
  split at h
  · rename_i hcatalog
    cases h
    exact ⟨fun _ => Or.inl hcatalog, fun _ => .refl ..⟩
  rename_i hcatalog
  rw [or_iff_right hcatalog]
  cases hspec : specFor libs c.home agentId with
  | error e =>
    rw [hspec] at h
    cases h
    exact ⟨fun _ => trivial, fun _ => .refl ..⟩
  | ok spec =>
    rw [hspec] at h
    cases hentry : r.agents agentId with
    | none =>
      rw [hentry] at h
      cases h
      exact ⟨fun _ => trivial, fun _ => .refl ..⟩
    | some entry =>
      rw [hentry] at h
      cases hkey : r.agentKeys agentId with
      | none =>
        rw [hkey] at h
        cases h
        exact ⟨fun _ => trivial, fun _ => .refl ..⟩
      | some old =>
        rw [hkey] at h
        dsimp only at h ⊢
        cases hmodel : resolveModel c.catalog none entry.defaultModel with
        | error e =>
          rw [hmodel] at h
          cases h
          exact ⟨fun _ => trivial, fun _ => .refl ..⟩
        | ok defaultModel =>
          rw [hmodel] at h
          dsimp only at h ⊢
          split at h
          · rename_i hput
            cases h
            obtain ⟨rfl, hfails⟩ := putKey_error hput
            exact ⟨fun _ => Or.inl hfails, fun _ => .refl ..⟩
          · rename_i hput
            obtain ⟨hworks, secrets, rfl, hholds⟩ := putKey_ok hput
            split at h
            · rename_i hwire
              cases h
              rw [unchanged_iff_asBefore hspec (wire_globalKey hwire), wire_asBefore hwire, hholds,
                update_agentKeys_iff, or_iff_right hworks, hkey, hentry, Option.some_inj,
                Option.some_inj]
            · cases h

end

/-- **When a call that fails leaves everything as it was**: the stores, the files, and with them the
keys that are let in, now and after a restart. -/
theorem unchanged_iff (libs : Libraries) (digest : List CatalogModel → String) (agentId : String)
    (c : Call) (r : AgentRegistry) :
    (∀ model e r', r.connect libs digest agentId model c = (.error e, r') →
      (Unchanged libs c.home agentId r r' ↔ ConnectKeeps libs digest agentId model c r)) ∧
    (∀ e r', r.rotateKey libs digest agentId c = (.error e, r') →
      (Unchanged libs c.home agentId r r' ↔ RotateKeeps libs digest agentId c r)) :=
  ⟨fun _ _ _ h => connect_unchanged_iff h, fun _ _ h => rotateKey_unchanged_iff h⟩

/-! ## A rotation that fails -/

/-- A call to which nothing happens. -/
def adaCall : Call where
  catalog := [⟨"m", "m", false, none⟩]
  home := ada
  around := calm
  hex := "0"
  now := 0
  after := 0
  putFails := false
  copyFails := false
  saveFails := false

/-- A registry that knows no agent yet. -/
def newRegistry : AgentRegistry where
  gatewayUrl := "http://127.0.0.1:8787"
  globalKey := some "admin"
  agents := fun _ => none
  agentKeys := fun _ => none
  stateFile := .missing
  secrets := ⟨none, none⟩
  disk := emptyDisk

/-- The identifiers of the models stand for their digest. -/
def idDigest (catalog : List CatalogModel) : String := String.join (catalog.map CatalogModel.id)

/-- The registry after the agent was connected. -/
def connectedRegistry : AgentRegistry :=
  let agents : Agents := Function.update newRegistry.agents "gemini-cli"
    (some (wiredEntry idDigest adaCall "ak_gemini-cli_01" "m" (some 0)))
  { newRegistry with
    agents := agents
    agentKeys := Function.update newRegistry.agentKeys "gemini-cli"
      (some ⟨"acw_gemini-cli_0", "ak_gemini-cli_01", 0, none⟩)
    stateFile := .valid agents
    secrets := ⟨some (.map (Function.update (fun _ => none) "agent-key:gemini-cli"
      (some (.apiKey "acw_gemini-cli_0")))), none⟩
    disk := (Wiring.connect calm adaGemini
      (wiringCtx adaCall newRegistry "acw_gemini-cli_0" "m") emptyDisk).2 }

/-- The agent's directory can no longer be written. -/
def readOnly : Surroundings where
  faults := fun _ op =>
    match op with
    | .writeFile _ | .removeFile _ => true
    | _ => false
  now := 0

def readOnlyCall : Call := { adaCall with around := readOnly, hex := "1" }

def adaHeader : Option String := some "Bearer acw_gemini-cli_0"

theorem readOnly_fails :
    (connectedRegistry.rotateKey sampleLibraries idDigest "gemini-cli" readOnlyCall).1 =
      .error (.configUnwritable "operation failed") := by
  decide +kernel

/-- Both calls fail on a directory that cannot be written. -/
theorem unchanged_iff_readOnly :
    (∃ e r', newRegistry.connect sampleLibraries idDigest "gemini-cli" none readOnlyCall =
      (.error e, r') ∧ (Unchanged sampleLibraries ada "gemini-cli" newRegistry r' ↔
        ConnectKeeps sampleLibraries idDigest "gemini-cli" none readOnlyCall newRegistry)) ∧
    (∃ e r', connectedRegistry.rotateKey sampleLibraries idDigest "gemini-cli" readOnlyCall =
      (.error e, r') ∧ (Unchanged sampleLibraries ada "gemini-cli" connectedRegistry r' ↔
        RotateKeeps sampleLibraries idDigest "gemini-cli" readOnlyCall connectedRegistry)) := by
  have hconnect : (newRegistry.connect sampleLibraries idDigest "gemini-cli" none readOnlyCall).1 =
      .error (.configUnwritable "operation failed") := by
    decide +kernel
  exact ⟨⟨_, _, Prod.ext hconnect rfl, (unchanged_iff sampleLibraries idDigest "gemini-cli"
      readOnlyCall newRegistry).1 none _ _ (Prod.ext hconnect rfl)⟩,
    ⟨_, _, Prod.ext readOnly_fails rfl, (unchanged_iff sampleLibraries idDigest "gemini-cli"
      readOnlyCall connectedRegistry).2 _ _ (Prod.ext readOnly_fails rfl)⟩⟩

/-- The new key is stored, and the agent keeps the old one: it is let in until the next restart. -/
theorem rotation_locks_out :
    ∃ e r', connectedRegistry.rotateKey sampleLibraries idDigest "gemini-cli" readOnlyCall =
      (.error e, r') ∧
      ¬Unchanged sampleLibraries ada "gemini-cli" connectedRegistry r' ∧
      ((readableText (fun _ => false) r'.disk (GeminiSpec.envPath ada)).bind fun text =>
        EnvEdit.get text "GEMINI_API_KEY") = some "acw_gemini-cli_0" ∧
      r'.Validates none adaHeader ∧ ¬r'.restart.Validates none adaHeader := by
  have hlocked : ¬(connectedRegistry.rotateKey sampleLibraries idDigest "gemini-cli"
      readOnlyCall).2.restart.Validates none adaHeader := by
    rintro ⟨provided, hprovided, hadmin | ⟨agentId, entry, hentry, hkey⟩⟩
    · cases hprovided
      exact absurd hadmin (by decide)
    · cases hprovided
      by_cases hid : agentId = "gemini-cli"
      · subst hid
        have hstored : ((connectedRegistry.rotateKey sampleLibraries idDigest "gemini-cli"
            readOnlyCall).2.restart.agentKeys "gemini-cli").map AgentKeyEntry.key =
              some "acw_gemini-cli_1" := by
          decide +kernel
        rw [hentry, Option.map_some, hkey] at hstored
        exact absurd hstored (by decide)
      · have hnone : (connectedRegistry.rotateKey sampleLibraries idDigest "gemini-cli"
            readOnlyCall).2.restart.agentKeys agentId = none := by
          show loadKeys _ (Function.update newRegistry.agents "gemini-cli" _) agentId = none
          unfold loadKeys
          rw [Function.update_of_ne hid]
          rfl
        rw [hnone] at hentry
        cases hentry
  refine ⟨_, _, Prod.ext readOnly_fails rfl, ?_, by decide +kernel, ?_, hlocked⟩
  · intro hsame
    have hstored := hsame.asBefore.secrets "agent-key:gemini-cli"
    revert hstored
    decide +kernel
  · exact ⟨"acw_gemini-cli_0", by decide +kernel,
      Or.inr ⟨"gemini-cli", ⟨"acw_gemini-cli_0", "ak_gemini-cli_01", 0, none⟩, rfl, rfl⟩⟩

end AnyConverter.AgentRegistry
