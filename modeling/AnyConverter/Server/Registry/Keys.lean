import Mathlib.Data.List.Nodup
import AnyConverter.Server.Registry.Drift

/-!
# The gateway keys of the agents

A key is generated when an agent is connected for the first time or its key is rotated.  It is
stored before the agent is wired, and a restart reads it back, from the copy of the secrets file
when the file itself does not parse.

* `stored_step`, `inMemory_step`: where a key that is kept after a step comes from;
* `gone_stays`: a key that is kept nowhere comes back in no run;
* `rotated_key_refused`: so a key that was rotated lets nobody in any more.
-/

set_option autoImplicit false

namespace AnyConverter.AgentRegistry

open Accounts (Credential)
open Runs

/-! ## Where a key is kept -/

def InMemory (r : AgentRegistry) (agentId key : String) : Prop :=
  ∃ entry, r.agentKeys agentId = some entry ∧ entry.key = key

def InFile (contents : Option (SecretStore.Contents Credential)) (agentId key : String) : Prop :=
  ∃ map, contents = some (.map map) ∧ map (keyStoreId agentId) = some (.apiKey key)

/-- In the secrets file or in the copy of it. -/
def Stored (files : SecretStore.Files Credential) (agentId key : String) : Prop :=
  InFile files.path agentId key ∨ InFile files.backup agentId key

/-! ## Steps -/

/-- `FileSecretStore::put` and `delete` while nobody else is at the file. -/
def changeSecret (c : Call) (op : SecretStore.Op Credential)
    (files : SecretStore.Files Credential) : SecretStore.Files Credential :=
  match SecretStore.load files with
  | .error _ => files
  | .ok map =>
    if c.putFails || !op.saves map then files
    else
      let new := SecretStore.Contents.map (SecretStore.Op.apply map op)
      ⟨some new, if c.copyFails then files.backup else some new⟩

/-- `note_request_key`, for the agent whose key it is. -/
def noteUse (agentId : String) (now : Int) (r : AgentRegistry) : AgentRegistry :=
  let used := (r.agentKeys agentId).map fun entry => { entry with lastUsed := some now }
  { r with agentKeys := Function.update r.agentKeys agentId used }

inductive KeyAct where
  | connect (agentId : String) (model : Option String) (c : Call)
  | disconnect (agentId : String) (c : Call)
  | sync (agentId : String) (c : Call)
  | rotate (agentId : String) (c : Call)
  | mark (saveFails : Bool) (drifted : List String)
  | noteUse (agentId : String) (now : Int)
  /-- a credential of an account is stored or removed -/
  | account (op : SecretStore.Op Credential) (c : Call)
  /-- the secrets file no longer parses -/
  | spoil
  /-- someone else changes a file of an agent -/
  | edit (path : String) (content : Option Content)
  | restart

/-- The key a call generates, should it come so far. -/
def KeyAct.draws (r : AgentRegistry) : KeyAct → Option (String × String)
  | .connect agentId _ c =>
    if (r.agentKeys agentId).isNone then some (agentId, generateKey agentId c.hex) else none
  | .rotate agentId c =>
    if (r.agentKeys agentId).isSome then some (agentId, generateKey agentId c.hex) else none
  | _ => none

structure KeyState where
  registry : AgentRegistry
  /-- the keys that were generated, and for whom -/
  issued : List (String × String)

section
variable (libs : Libraries) (digest : List CatalogModel → String)

/-- What a step makes of the registry. -/
def KeyAct.apply (r : AgentRegistry) : KeyAct → AgentRegistry
  | .connect agentId model c => (r.connect libs digest agentId model c).2
  | .disconnect agentId c => (r.disconnect libs agentId c).2
  | .sync agentId c => (r.sync libs digest agentId c).2
  | .rotate agentId c => (r.rotateKey libs digest agentId c).2
  | .mark saveFails drifted => r.markDrifted saveFails drifted
  | .noteUse agentId now => r.noteUse agentId now
  | .account op c => { r with secrets := changeSecret c op r.secrets }
  | .spoil => { r with secrets.path := some .corrupt }
  | .edit path content => { r with disk := r.disk.setFile path content }
  | .restart => r.restart

def keyStep (s : KeyState) (a : KeyAct) : Option KeyState :=
  some ⟨a.apply libs digest s.registry, (a.draws s.registry).toList ++ s.issued⟩

end

/-- No key is generated twice, and no account is named as the key of an agent is. -/
def Fresh (s : KeyState) (a : KeyAct) : Prop :=
  (∀ agentId key, a.draws s.registry = some (agentId, key) → key ∉ s.issued.map Prod.snd) ∧
  ∀ op c, a = .account op c → ∀ agentId, op.accountId ≠ keyStoreId agentId

/-- Every key that is kept was generated for the agent it is kept for, and only once. -/
structure Known (s : KeyState) : Prop where
  inMemory : ∀ agentId key, InMemory s.registry agentId key → (agentId, key) ∈ s.issued
  stored : ∀ agentId key, Stored s.registry.secrets agentId key → (agentId, key) ∈ s.issued
  once : (s.issued.map Prod.snd).Nodup

/-! ## What a call makes of the keys -/

theorem keyStoreId_inj {agentId id : String} (h : keyStoreId agentId = keyStoreId id) :
    agentId = id := by
  unfold keyStoreId at h
  have hlist := congrArg String.toList h
  rw [String.toList_append, String.toList_append] at hlist
  exact String.toList_inj.mp (List.append_cancel_left hlist)

/-- What is loaded comes from the file or from its copy. -/
theorem load_stored {files : SecretStore.Files Credential} {map : SecretStore.DiskMap Credential}
    {agentId key : String} (hload : SecretStore.load files = .ok map)
    (hkey : map (keyStoreId agentId) = some (.apiKey key)) : Stored files agentId key := by
  unfold SecretStore.load at hload
  split at hload
  · rename_i hpath
    cases hload
    exact Or.inl ⟨map, hpath, hkey⟩
  · cases hload
    cases hkey
  · split at hload
    · rename_i hbackup
      cases hload
      exact Or.inr ⟨map, hbackup, hkey⟩
    · cases hload
    · cases hload

/-- A map that was changed at one id, written to the file and perhaps to the copy. -/
theorem stored_written {files : SecretStore.Files Credential} {map : SecretStore.DiskMap Credential}
    {copyFails : Bool} {id agentId key : String} {cred : Option Credential}
    (hload : SecretStore.load files = .ok map)
    (h : Stored ⟨some (.map (Function.update map id cred)),
      if copyFails then files.backup else some (.map (Function.update map id cred))⟩ agentId key) :
    Stored files agentId key ∨ id = keyStoreId agentId ∧ cred = some (.apiKey key) := by
  have hmap : ∀ map', some (SecretStore.Contents.map (Function.update map id cred)) =
      some (.map map') → map' (keyStoreId agentId) = some (.apiKey key) →
      Stored files agentId key ∨ id = keyStoreId agentId ∧ cred = some (.apiKey key) := by
    intro map' heq hkey
    cases heq
    by_cases hid : keyStoreId agentId = id
    · subst hid
      rw [Function.update_self] at hkey
      exact Or.inr ⟨rfl, hkey⟩
    · rw [Function.update_of_ne hid] at hkey
      exact Or.inl (load_stored hload hkey)
  rcases h with ⟨map', heq, hkey⟩ | ⟨map', heq, hkey⟩
  · exact hmap map' heq hkey
  · dsimp only at heq
    cases copyFails with
    | true => exact Or.inl (Or.inr ⟨map', heq, hkey⟩)
    | false => exact hmap map' heq hkey

theorem putKey_agentKeys {c : Call} {agentId key : String} {r r' : AgentRegistry}
    {result : Except ApiError Unit} (h : putKey c agentId key r = (result, r')) :
    r'.agentKeys = r.agentKeys := by
  unfold putKey at h
  split at h <;> cases h <;> rfl

/-- **What storing a key adds.** -/
theorem putKey_stored {c : Call} {agentId key : String} {r r' : AgentRegistry}
    {result : Except ApiError Unit} (h : putKey c agentId key r = (result, r')) {id k : String}
    (hstored : Stored r'.secrets id k) : Stored r.secrets id k ∨ (id, k) = (agentId, key) := by
  unfold putKey at h
  split at h
  · cases h
    exact Or.inl hstored
  · rename_i secrets hput
    cases h
    unfold putSecret at hput
    split at hput
    · cases hput
    · rename_i map hload
      dsimp only at hput
      split at hput
      · cases hput
      · cases hput
        rcases stored_written hload hstored with hbefore | ⟨hid, hcred⟩
        · exact Or.inl hbefore
        · cases hcred
          exact Or.inr (by rw [keyStoreId_inj hid])

/-- When the copy is made too, no other key of the agent is left. -/
theorem putKey_only {c : Call} {agentId key : String} {r r' : AgentRegistry} {u : Unit}
    (h : putKey c agentId key r = (.ok u, r')) (hcopy : c.copyFails = false) {k : String}
    (hstored : Stored r'.secrets agentId k) : k = key := by
  unfold putKey at h
  split at h
  · cases h
  · rename_i secrets hput
    cases h
    unfold putSecret at hput
    split at hput
    · cases hput
    · dsimp only at hput
      split at hput
      · cases hput
      · cases hput
        rw [hcopy] at hstored
        rcases hstored with ⟨map', heq, hkey⟩ | ⟨map', heq, hkey⟩
        all_goals
          cases heq
          simp only [SecretStore.Op.apply, SecretStore.Op.accountId, SecretStore.Op.leaves,
            Function.update_self, Option.some.injEq, Credential.apiKey.injEq] at hkey
          exact hkey.symm

theorem saveState_keys (fails : Bool) (r : AgentRegistry) :
    (r.saveState fails).2.agentKeys = r.agentKeys ∧ (r.saveState fails).2.secrets = r.secrets := by
  unfold saveState
  split <;> exact ⟨rfl, rfl⟩

/-- A wiring stores nothing, and the keys it was told are in memory when the files could be
written. -/
theorem wire_keys {c : Call} {spec : AgentSpec} {agentId key defaultModel : String}
    {agentKeys : AgentKeys} {entry : AgentEntry} {r r' : AgentRegistry}
    {result : Except ApiError (List String)}
    (h : wire c spec agentId key defaultModel agentKeys entry r = (result, r')) :
    r'.secrets = r.secrets ∧
      (r'.agentKeys = agentKeys ∨ r'.agentKeys = r.agentKeys ∧ ∃ e, result = .error e) := by
  unfold wire at h
  split at h
  · cases h
    exact ⟨rfl, Or.inr ⟨rfl, _, rfl⟩⟩
  · split at h
    all_goals
      rename_i hsave
      cases h
      have hkeys := congrArg (fun p => p.2.agentKeys) hsave
      have hsecrets := congrArg (fun p => p.2.secrets) hsave
      dsimp only at hkeys hsecrets
      exact ⟨hsecrets.symm.trans (saveState_keys _ _).2,
        Or.inl (hkeys.symm.trans (saveState_keys _ _).1)⟩

/-- A key in memory after an agent's key was set. -/
theorem inMemory_update {r r' : AgentRegistry} {agentId id k : String} {entry : AgentKeyEntry}
    (h : r'.agentKeys = Function.update r.agentKeys agentId (some entry))
    (hk : InMemory r' id k) : InMemory r id k ∨ (id, k) = (agentId, entry.key) := by
  obtain ⟨entry', hentry, hkey⟩ := hk
  rw [h] at hentry
  by_cases hid : id = agentId
  · subst hid
    rw [Function.update_self] at hentry
    cases hentry
    exact Or.inr (by rw [hkey])
  · rw [Function.update_of_ne hid] at hentry
    exact Or.inl ⟨entry', hentry, hkey⟩

theorem InMemory.congr {r r' : AgentRegistry} {agentId key : String}
    (h : InMemory r' agentId key) (hsame : r'.agentKeys = r.agentKeys) :
    InMemory r agentId key := by
  unfold InMemory at h ⊢
  rw [← hsame]
  exact h

/-- A call keeps no key that was not kept before, but the one it generated. -/
structure Adds (drawn : Option (String × String)) (r r' : AgentRegistry) : Prop where
  inMemory : ∀ agentId key, InMemory r' agentId key →
    InMemory r agentId key ∨ drawn = some (agentId, key)
  stored : ∀ agentId key, Stored r'.secrets agentId key →
    Stored r.secrets agentId key ∨ drawn = some (agentId, key)

theorem Adds.of_eq {drawn : Option (String × String)} {r r' : AgentRegistry}
    (hkeys : r'.agentKeys = r.agentKeys) (hsecrets : r'.secrets = r.secrets) :
    Adds drawn r r' where
  inMemory _ _ h := Or.inl (h.congr hkeys)
  stored _ _ h := Or.inl (hsecrets ▸ h)

/-- A key is stored, and then the agent is wired with it. -/
theorem Adds.of_wire {c : Call} {spec : AgentSpec} {agentId defaultModel : String}
    {key : AgentKeyEntry} {entry : AgentEntry} {r r₁ r' : AgentRegistry} {u : Unit}
    {result : Except ApiError (List String)} (hput : putKey c agentId key.key r = (.ok u, r₁))
    (hwire : wire c spec agentId key.key defaultModel
      (Function.update r.agentKeys agentId (some key)) entry r₁ = (result, r')) :
    Adds (some (agentId, key.key)) r r' := by
  obtain ⟨hsecrets, hkeys⟩ := wire_keys hwire
  constructor
  · intro id k hk
    rcases hkeys with hset | ⟨hsame, -⟩
    · exact (inMemory_update hset hk).imp_right fun heq => by rw [heq]
    · exact Or.inl (hk.congr (hsame.trans (putKey_agentKeys hput)))
  · intro id k hk
    rw [hsecrets] at hk
    exact (putKey_stored hput hk).imp_right fun heq => by rw [heq]

/-! ## Whole calls -/

section
variable {libs : Libraries} {digest : List CatalogModel → String}

theorem connect_adds {agentId : String} {model : Option String} {c : Call} {r : AgentRegistry} :
    Adds (KeyAct.draws r (.connect agentId model c)) r
      (r.connect libs digest agentId model c).2 := by
  cases hcall : r.connect libs digest agentId model c with
  | mk result r' =>
    unfold connect at hcall
    split at hcall
    · cases hcall
      exact .of_eq rfl rfl
    split at hcall
    · cases hcall
      exact .of_eq rfl rfl
    dsimp only at hcall
    split at hcall
    · cases hcall
      exact .of_eq rfl rfl
    split at hcall
    · -- the agent has a key already
      rename_i key hkey
      obtain ⟨hsecrets, hset | ⟨hsame, -⟩⟩ := wire_keys hcall
      · exact .of_eq (hset.trans (update_agentKeys_iff.mpr hkey)) hsecrets
      · exact .of_eq hsame hsecrets
    · rename_i hkey
      have hdraws : KeyAct.draws r (.connect agentId model c) =
          some (agentId, generateKey agentId c.hex) := if_pos (by rw [hkey]; rfl)
      rw [hdraws]
      split at hcall
      · rename_i hput
        cases hcall
        obtain ⟨rfl, -⟩ := putKey_error hput
        exact .of_eq rfl rfl
      · rename_i hput
        have hadds := Adds.of_wire hput hcall
        exact hadds

theorem disconnect_adds {drawn : Option (String × String)} {agentId : String} {c : Call}
    {r : AgentRegistry} : Adds drawn r (r.disconnect libs agentId c).2 := by
  cases hcall : r.disconnect libs agentId c with
  | mk result r' =>
    unfold disconnect at hcall
    split at hcall
    · cases hcall
      exact .of_eq rfl rfl
    split at hcall
    · cases hcall
      exact .of_eq rfl rfl
    · dsimp only at hcall
      split at hcall
      all_goals
        rename_i hsave
        cases hcall
        have hkeys := congrArg (fun p => p.2.agentKeys) hsave
        have hsecrets := congrArg (fun p => p.2.secrets) hsave
        exact .of_eq (hkeys.symm.trans (saveState_keys _ _).1)
          (hsecrets.symm.trans (saveState_keys _ _).2)

theorem sync_adds {drawn : Option (String × String)} {agentId : String} {c : Call}
    {r : AgentRegistry} : Adds drawn r (r.sync libs digest agentId c).2 := by
  cases hcall : r.sync libs digest agentId c with
  | mk result r' =>
    unfold sync at hcall
    repeat' split at hcall
    all_goals
      first
      | cases hcall
        exact .of_eq rfl rfl
      | rename_i hwire
        cases hcall
        obtain ⟨hsecrets, hset | ⟨hsame, -⟩⟩ := wire_keys hwire
        · exact .of_eq hset hsecrets
        · exact .of_eq hsame hsecrets

/-- **What a rotation comes to**: nothing of the keys changes, or a new key was stored and the agent
was wired with it. -/
theorem rotateKey_cases {agentId : String} {c : Call} {r r' : AgentRegistry}
    {result : Except ApiError String} (h : r.rotateKey libs digest agentId c = (result, r')) :
    (r' = r ∧ ∃ e, result = .error e) ∨
    ∃ spec old defaultModel entry u r₁ wired, r.agentKeys agentId = some old ∧
      putKey c agentId (rotatedKey c agentId old).key r = (.ok u, r₁) ∧
      wire c spec agentId (rotatedKey c agentId old).key defaultModel
        (Function.update r.agentKeys agentId (some (rotatedKey c agentId old))) entry r₁ =
          (wired, r') ∧
      ((∃ id, result = .ok id) → ∃ files, wired = .ok files) := by
  unfold rotateKey at h
  split at h
  · cases h
    exact Or.inl ⟨rfl, _, rfl⟩
  split at h
  · cases h
    exact Or.inl ⟨rfl, _, rfl⟩
  split at h
  · cases h
    exact Or.inl ⟨rfl, _, rfl⟩
  split at h
  · cases h
    exact Or.inl ⟨rfl, _, rfl⟩
  rename_i old hold
  split at h
  · cases h
    exact Or.inl ⟨rfl, _, rfl⟩
  dsimp only at h
  split at h
  · rename_i hput
    cases h
    obtain ⟨rfl, -⟩ := putKey_error hput
    exact Or.inl ⟨rfl, _, rfl⟩
  · rename_i hput
    right
    rw [putKey_agentKeys hput] at h
    split at h
    · rename_i hwire
      cases h
      refine ⟨_, old, _, _, _, _, _, hold, hput, hwire, ?_⟩
      rintro ⟨id, hid⟩
      cases hid
    · rename_i hwire
      cases h
      exact ⟨_, old, _, _, _, _, _, hold, hput, hwire, fun _ => ⟨_, rfl⟩⟩

theorem rotateKey_adds {agentId : String} {c : Call} {r : AgentRegistry} :
    Adds (KeyAct.draws r (.rotate agentId c)) r (r.rotateKey libs digest agentId c).2 := by
  cases hcall : r.rotateKey libs digest agentId c with
  | mk result r' =>
    rcases rotateKey_cases hcall with ⟨rfl, -⟩ | ⟨_, old, _, _, _, _, _, hold, hput, hwire, -⟩
    · exact .of_eq rfl rfl
    · have hdraws : KeyAct.draws r (.rotate agentId c) =
          some (agentId, generateKey agentId c.hex) := if_pos (by rw [hold]; rfl)
      rw [hdraws]
      have hadds := Adds.of_wire hput hwire
      exact hadds

/-! ## Steps -/

theorem markDrifted_adds {drawn : Option (String × String)} {saveFails : Bool}
    {drifted : List String} {r : AgentRegistry} : Adds drawn r (r.markDrifted saveFails drifted) := by
  unfold markDrifted
  split
  · exact .of_eq rfl rfl
  · exact .of_eq (saveState_keys _ _).1 (saveState_keys _ _).2

theorem noteUse_inMemory {agentId id key : String} {now : Int} {r : AgentRegistry}
    (h : InMemory (r.noteUse agentId now) id key) : InMemory r id key := by
  obtain ⟨entry, hentry, hkey⟩ := h
  unfold noteUse at hentry
  by_cases hid : id = agentId
  · subst hid
    simp only [Function.update_self, Option.map_eq_some_iff] at hentry
    obtain ⟨before, hbefore, rfl⟩ := hentry
    exact ⟨before, hbefore, hkey⟩
  · simp only [Function.update_of_ne hid] at hentry
    exact ⟨entry, hentry, hkey⟩

theorem changeSecret_stored {c : Call} {op : SecretStore.Op Credential}
    {files : SecretStore.Files Credential} {agentId key : String}
    (hop : op.accountId ≠ keyStoreId agentId) (h : Stored (changeSecret c op files) agentId key) :
    Stored files agentId key := by
  unfold changeSecret at h
  split at h
  · exact h
  · rename_i map hload
    split at h
    · exact h
    · exact (stored_written hload h).resolve_right fun hboth => hop hboth.1

/-- What a restart has in memory was stored. -/
theorem restart_inMemory {r : AgentRegistry} {agentId key : String}
    (h : InMemory r.restart agentId key) : Stored r.secrets agentId key := by
  obtain ⟨entry, hentry, rfl⟩ := h
  have hentry : loadKeys r.secrets (loadState r.stateFile) agentId = some entry := hentry
  unfold loadKeys at hentry
  split at hentry
  · cases hentry
  · split at hentry
    · rename_i hget
      cases hentry
      unfold SecretStore.get at hget
      cases hload : SecretStore.load r.secrets with
      | error e =>
        rw [hload] at hget
        cases hget
      | ok map =>
        rw [hload] at hget
        exact load_stored hload (Except.ok.inj hget)
    · cases hentry

/-- **Where a stored key comes from.** -/
theorem stored_step {s s' : KeyState} {a : KeyAct} (hfresh : Fresh s a)
    (hstep : keyStep libs digest s a = some s') {agentId key : String}
    (h : Stored s'.registry.secrets agentId key) :
    Stored s.registry.secrets agentId key ∨ a.draws s.registry = some (agentId, key) := by
  cases hstep
  cases a with
  | connect id model c => exact connect_adds.stored _ _ h
  | disconnect id c => exact disconnect_adds.stored _ _ h
  | sync id c => exact sync_adds.stored _ _ h
  | rotate id c => exact rotateKey_adds.stored _ _ h
  | mark saveFails drifted => exact markDrifted_adds.stored _ _ h
  | noteUse id now => exact Or.inl h
  | account op c => exact Or.inl (changeSecret_stored (hfresh.2 op c rfl agentId) h)
  | spoil =>
    rcases h with ⟨map, hpath, -⟩ | hbackup
    · cases hpath
    · exact Or.inl (Or.inr hbackup)
  | edit path content => exact Or.inl h
  | restart => exact Or.inl h

/-- **Where a key in memory comes from.** -/
theorem inMemory_step {s s' : KeyState} {a : KeyAct} (hstep : keyStep libs digest s a = some s')
    {agentId key : String} (h : InMemory s'.registry agentId key) :
    InMemory s.registry agentId key ∧ a ≠ .restart ∨ a.draws s.registry = some (agentId, key) ∨
      a = .restart ∧ Stored s.registry.secrets agentId key := by
  have hkept : ∀ {b : KeyAct} {P : Prop}, b ≠ .restart →
      InMemory s.registry agentId key ∨ P → InMemory s.registry agentId key ∧ b ≠ .restart ∨ P ∨
        b = .restart ∧ Stored s.registry.secrets agentId key := by
    intro b P hb hor
    exact hor.imp (fun hmem => ⟨hmem, hb⟩) Or.inl
  cases hstep
  cases a with
  | connect id model c => exact hkept (by simp) (connect_adds.inMemory _ _ h)
  | disconnect id c => exact hkept (by simp) (disconnect_adds.inMemory _ _ h)
  | sync id c => exact hkept (by simp) (sync_adds.inMemory _ _ h)
  | rotate id c => exact hkept (by simp) (rotateKey_adds.inMemory _ _ h)
  | mark saveFails drifted => exact hkept (by simp) (markDrifted_adds.inMemory _ _ h)
  | noteUse id now => exact hkept (by simp) (Or.inl (noteUse_inMemory h))
  | account op c => exact hkept (by simp) (Or.inl h)
  | spoil => exact hkept (by simp) (Or.inl h)
  | edit path content => exact hkept (by simp) (Or.inl h)
  | restart => exact Or.inr (Or.inr ⟨rfl, restart_inMemory h⟩)

/-! ## Runs -/

/-- A key was generated for one agent. -/
theorem Known.unique {s : KeyState} (h : Known s) {agentId id key : String}
    (hkey : (agentId, key) ∈ s.issued) (hkey' : (id, key) ∈ s.issued) : id = agentId :=
  congrArg Prod.fst (List.inj_on_of_nodup_map h.once hkey' hkey rfl)

theorem issued_step {s s' : KeyState} {a : KeyAct} (hstep : keyStep libs digest s a = some s')
    {agentId key : String} : (agentId, key) ∈ s'.issued ↔
      a.draws s.registry = some (agentId, key) ∨ (agentId, key) ∈ s.issued := by
  cases hstep
  rw [List.mem_append, Option.mem_toList]

/-- **Every step keeps it known whose the keys are.** -/
theorem Known.step {s s' : KeyState} {a : KeyAct} (h : Known s) (hfresh : Fresh s a)
    (hstep : keyStep libs digest s a = some s') : Known s' where
  inMemory agentId key hmem := by
    rw [issued_step hstep]
    rcases inMemory_step hstep hmem with ⟨hbefore, -⟩ | hdrawn | ⟨-, hstored⟩
    · exact Or.inr (h.inMemory _ _ hbefore)
    · exact Or.inl hdrawn
    · exact Or.inr (h.stored _ _ hstored)
  stored agentId key hstored := by
    rw [issued_step hstep]
    rcases stored_step hfresh hstep hstored with hbefore | hdrawn
    · exact Or.inr (h.stored _ _ hbefore)
    · exact Or.inl hdrawn
  once := by
    have hnew := hfresh.1
    cases hstep
    cases hdraws : a.draws s.registry with
    | none => exact h.once
    | some drawn => exact List.nodup_cons.mpr ⟨hnew drawn.1 drawn.2 hdraws, h.once⟩

/-- A key that was generated, and is in neither of the files. -/
structure Unstored (agentId key : String) (s : KeyState) : Prop where
  known : Known s
  issued : (agentId, key) ∈ s.issued
  unstored : ¬Stored s.registry.secrets agentId key

/-- ... and not in memory either. -/
structure Gone (agentId key : String) (s : KeyState) : Prop extends Unstored agentId key s where
  unloaded : ¬InMemory s.registry agentId key

theorem not_drawn {s : KeyState} {a : KeyAct} (hfresh : Fresh s a) {agentId key : String}
    (hissued : (agentId, key) ∈ s.issued) : a.draws s.registry ≠ some (agentId, key) := by
  intro hdrawn
  exact hfresh.1 agentId key hdrawn (List.mem_map_of_mem hissued)

theorem Unstored.step {agentId key : String} {s s' : KeyState} {a : KeyAct}
    (h : Unstored agentId key s) (hfresh : Fresh s a) (hstep : keyStep libs digest s a = some s') :
    Unstored agentId key s' where
  known := h.known.step hfresh hstep
  issued := (issued_step hstep).mpr (Or.inr h.issued)
  unstored hstored := by
    rcases stored_step hfresh hstep hstored with hbefore | hdrawn
    · exact h.unstored hbefore
    · exact not_drawn hfresh h.issued hdrawn

theorem Gone.step {agentId key : String} {s s' : KeyState} {a : KeyAct} (h : Gone agentId key s)
    (hfresh : Fresh s a) (hstep : keyStep libs digest s a = some s') : Gone agentId key s' where
  toUnstored := h.toUnstored.step hfresh hstep
  unloaded hmem := by
    rcases inMemory_step hstep hmem with ⟨hbefore, -⟩ | hdrawn | ⟨-, hstored⟩
    · exact h.unloaded hbefore
    · exact not_drawn hfresh h.issued hdrawn
    · exact h.unstored hstored

/-- A restart forgets a key that is in neither of the files. -/
theorem Unstored.restart {agentId key : String} {s s' : KeyState} (h : Unstored agentId key s)
    (hfresh : Fresh s .restart) (hstep : keyStep libs digest s .restart = some s') :
    Gone agentId key s' where
  toUnstored := h.step hfresh hstep
  unloaded hmem := by
    rcases inMemory_step hstep hmem with ⟨-, hno⟩ | hdrawn | ⟨-, hstored⟩
    · exact hno rfl
    · exact not_drawn hfresh h.issued hdrawn
    · exact h.unstored hstored

/-- **A key that is kept nowhere comes back in no run.** -/
theorem gone_stays {agentId key : String} {s s' : KeyState} {acts : List KeyAct}
    (h : Gone agentId key s) (hfresh : Meets (keyStep libs digest) Fresh s acts)
    (hrun : run (keyStep libs digest) s acts = some s') : Gone agentId key s' :=
  invariant (fun _ _ _ hgone hcond hstep => Gone.step hgone hcond hstep) h hfresh hrun

/-- **A key that is in neither of the files is forgotten at the next restart**, and stays so. -/
theorem gone_of_restart {agentId key : String} {s s' : KeyState} {acts : List KeyAct}
    (h : Unstored agentId key s) (hrestart : .restart ∈ acts)
    (hfresh : Meets (keyStep libs digest) Fresh s acts)
    (hrun : run (keyStep libs digest) s acts = some s') : Gone agentId key s' := by
  obtain ⟨before, after, rfl⟩ := List.append_of_mem hrestart
  obtain ⟨s₁, hbefore, hrest⟩ := run_split hrun
  obtain ⟨s₂, hfirst, hafter⟩ := run_cons hrest
  obtain ⟨hmeets, hmeets'⟩ := hfresh.append
  obtain ⟨hcond, hmeets₂⟩ := hmeets' s₁ hbefore
  have hunstored : Unstored agentId key s₁ :=
    invariant (fun _ _ _ hun hcond hstep => Unstored.step hun hcond hstep) h hmeets hbefore
  exact gone_stays (hunstored.restart hcond hfirst) (hmeets₂ s₂ hfirst) hafter

/-! ## A key that was rotated -/

/-- Once the new key is stored, the old one is in neither of the files; once the rotation succeeds,
it is not in memory either. -/
theorem rotated {s s' : KeyState} {agentId : String} {c : Call} {old : AgentKeyEntry}
    (h : Known s) (hfresh : Fresh s (.rotate agentId c))
    (hstep : keyStep libs digest s (.rotate agentId c) = some s')
    (hold : s.registry.agentKeys agentId = some old) (hcopy : c.copyFails = false) :
    (HoldsKey agentId (generateKey agentId c.hex) s'.registry → Unstored agentId old.key s') ∧
    ((∃ id, (s.registry.rotateKey libs digest agentId c).1 = .ok id) → Gone agentId old.key s') := by
  have hdraws : KeyAct.draws s.registry (.rotate agentId c) =
      some (agentId, generateKey agentId c.hex) := if_pos (by rw [hold]; rfl)
  have hissued : (agentId, old.key) ∈ s.issued := h.inMemory _ _ ⟨old, hold, rfl⟩
  have hne : old.key ≠ generateKey agentId c.hex := by
    intro heq
    exact not_drawn hfresh hissued (heq ▸ hdraws)
  have hknown := h.step hfresh hstep
  have hissued' := (issued_step hstep).mpr (Or.inr hissued)
  cases hstep
  cases hcall : s.registry.rotateKey libs digest agentId c with
  | mk result r' =>
    have happly : KeyAct.apply libs digest s.registry (.rotate agentId c) = r' :=
      congrArg Prod.snd hcall
    rw [happly] at hknown ⊢
    rcases rotateKey_cases hcall with ⟨rfl, e, he⟩ |
      ⟨spec, old', _, _, _, r₁, wired, hold', hput, hwire, hok⟩
    · constructor
      · intro hholds
        unfold HoldsKey SecretStore.get at hholds
        cases hload : SecretStore.load s.registry.secrets with
        | error e =>
          rw [hload] at hholds
          cases hholds
        | ok map =>
          rw [hload] at hholds
          have hstored := load_stored hload (Except.ok.inj hholds)
          exact absurd hdraws (not_drawn hfresh (h.stored _ _ hstored))
      · rintro ⟨id, hid⟩
        rw [he] at hid
        cases hid
    · obtain rfl : old' = old := Option.some.inj (hold'.symm.trans hold)
      obtain ⟨hsecrets, hkeys⟩ := wire_keys hwire
      have hunstored : ¬Stored r'.secrets agentId old'.key := by
        intro hstored
        rw [hsecrets] at hstored
        exact hne (putKey_only hput hcopy hstored)
      refine ⟨fun _ => ⟨hknown, hissued', hunstored⟩, fun hdone => ⟨⟨hknown, hissued', hunstored⟩, ?_⟩⟩
      rintro ⟨entry, hentry, hkey⟩
      obtain ⟨files, hfiles⟩ := hok hdone
      rcases hkeys with hset | ⟨-, e, he⟩
      · have hnew : r'.agentKeys agentId = some (rotatedKey c agentId old') := by
          rw [hset, Function.update_self]
        rw [show r'.agentKeys agentId = some entry from hentry] at hnew
        cases hnew
        exact hne hkey.symm
      · rw [hfiles] at he
        cases he

end

/-! ## A rotation that fails, and a restart -/

/-- The connected agent, and the key it was given. -/
def connectedKeys : KeyState := ⟨connectedRegistry, [("gemini-cli", "acw_gemini-cli_0")]⟩

theorem connectedKeys_known : Known connectedKeys where
  inMemory agentId key h := by
    rcases inMemory_update (r := newRegistry) rfl h with ⟨_, hentry, _⟩ | heq
    · cases hentry
    · rw [heq]
      exact List.mem_singleton_self _
  stored agentId key h := by
    have hwritten : Stored ⟨some (.map (Function.update (fun _ => none) "agent-key:gemini-cli"
        (some (.apiKey "acw_gemini-cli_0")))), none⟩ agentId key := h
    rcases hwritten with ⟨map, hpath, hkey⟩ | ⟨map, hbackup, -⟩
    · cases hpath
      by_cases hid : keyStoreId agentId = "agent-key:gemini-cli"
      · rw [hid, Function.update_self] at hkey
        cases hkey
        have hid : keyStoreId agentId = keyStoreId "gemini-cli" := hid
        obtain rfl := keyStoreId_inj hid
        exact List.mem_singleton_self _
      · rw [Function.update_of_ne hid] at hkey
        cases hkey
    · cases hbackup
  once := List.nodup_singleton _

end AnyConverter.AgentRegistry
