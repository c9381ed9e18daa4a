import AnyConverter.Server.Registry.Drift

/-!
# Calls for an agent that is disconnected

A sync turns such an agent away.  A rotation looks only whether the agent has an entry and a key,
and both stay when an agent is disconnected.

* `sync_refused`: what a sync answers;
* `rotateKey_refused_iff`: when a rotation answers the same.
-/

set_option autoImplicit false

namespace AnyConverter.AgentRegistry

/-- An agent that was never connected, or was disconnected since. -/
def NotWired (agentId : String) (r : AgentRegistry) : Prop :=
  ∀ entry, r.agents agentId = some entry →
    entry.status ≠ statusConnected ∧ entry.status ≠ statusDrifted

/-- What keeps a call from looking at the agent: no model to wire, or no such agent. -/
def turnedAway (libs : Libraries) (agentId : String) (c : Call) : Option ApiError :=
  if c.catalog = [] then some .noProviders
  else
    match specFor libs c.home agentId with
    | .error e => some e
    | .ok _ => none

section
variable {libs : Libraries} {digest : List CatalogModel → String} {agentId : String} {c : Call}
  {r : AgentRegistry}

/-- A sync of an agent that is not wired answers that it is not connected, and does nothing. -/
theorem sync_refused (h : NotWired agentId r) : r.sync libs digest agentId c =
    (.error ((turnedAway libs agentId c).getD (.notConnected agentId)), r) := by
  unfold sync turnedAway
  by_cases hcatalog : c.catalog = []
  · rw [if_pos hcatalog, if_pos hcatalog]
    rfl
  · rw [if_neg hcatalog, if_neg hcatalog]
    cases specFor libs c.home agentId with
    | error e => rfl
    | ok spec =>
      cases hentry : r.agents agentId with
      | none => rfl
      | some entry =>
        dsimp only
        rw [if_pos (h entry hentry)]
        rfl

/-- There is always a model to wire. -/
theorem resolveModel_ok {catalog : List CatalogModel} (h : catalog ≠ []) (stored : Option String) :
    ∃ model, resolveModel catalog none stored = .ok model := by
  obtain ⟨m, ms, rfl⟩ := List.exists_cons_of_ne_nil h
  unfold resolveModel
  cases stored with
  | none => exact ⟨_, rfl⟩
  | some model =>
    dsimp only
    split
    · exact ⟨_, rfl⟩
    · exact ⟨_, rfl⟩

/-- What goes wrong while an agent is wired is never that it is not connected. -/
theorem wire_notConnected {spec : AgentSpec} {key defaultModel : String} {agentKeys : AgentKeys}
    {entry : AgentEntry} {r' : AgentRegistry} {e : ApiError}
    (h : wire c spec agentId key defaultModel agentKeys entry r = (.error e, r')) :
    e ≠ .notConnected agentId := by
  unfold wire at h
  split at h
  · rename_i e' disk _
    cases h
    cases e' <;> exact nofun
  · unfold saveState at h
    split at h
    · rename_i _ heq
      split at heq
      · cases heq
        cases h
        exact nofun
      · cases heq
    · cases h

/-- **A rotation for an agent that is not wired is refused as a sync is, just where the agent has no
entry or no key.** -/
theorem rotateKey_refused_iff (h : NotWired agentId r) :
    (∃ e, r.sync libs digest agentId c = (.error e, r) ∧
        r.rotateKey libs digest agentId c = (.error e, r) ∧
        (turnedAway libs agentId c = none → e = .notConnected agentId)) ↔
      ((turnedAway libs agentId c).isSome ∨ r.agents agentId = none ∨
        r.agentKeys agentId = none) := by
  rw [sync_refused h]
  unfold turnedAway rotateKey
  by_cases hcatalog : c.catalog = []
  · rw [if_pos hcatalog, if_pos hcatalog]
    exact iff_of_true ⟨_, rfl, rfl, nofun⟩ (.inl rfl)
  rw [if_neg hcatalog, if_neg hcatalog]
  cases specFor libs c.home agentId with
  | error e => exact iff_of_true ⟨_, rfl, rfl, nofun⟩ (.inl rfl)
  | ok spec =>
    cases hentry : r.agents agentId with
    | none => exact iff_of_true ⟨_, rfl, rfl, fun _ => rfl⟩ (.inr (.inl rfl))
    | some entry =>
      cases hkey : r.agentKeys agentId with
      | none => exact iff_of_true ⟨_, rfl, rfl, fun _ => rfl⟩ (.inr (.inr rfl))
      | some old =>
        refine iff_of_false ?_ (by simp)
        rintro ⟨e, -, hrotate, hnot⟩
        obtain rfl := hnot rfl
        obtain ⟨model, hmodel⟩ := resolveModel_ok hcatalog entry.defaultModel
        simp only [hmodel] at hrotate
        split at hrotate
        · -- the new key could not be stored
          rename_i e' r' hput
          unfold putKey at hput
          split at hput
          · cases hput
            cases hrotate
          · cases hput
        · split at hrotate
          · rename_i e' r' hwire
            cases hrotate
            exact wire_notConnected hwire rfl
          · cases hrotate

end

/-! ## An agent that was disconnected -/

/-- The registry after the agent was connected and disconnected again. -/
def disconnectedRegistry : AgentRegistry :=
  ((newRegistry.connect sampleLibraries idDigest "gemini-cli" none adaCall).2.disconnect
    sampleLibraries "gemini-cli" adaCall).2

/-- Before the first connect a rotation is refused. -/
theorem rotateKey_refused_new :
    ∃ e, newRegistry.sync sampleLibraries idDigest "gemini-cli" adaCall = (.error e, newRegistry) ∧
      newRegistry.rotateKey sampleLibraries idDigest "gemini-cli" adaCall = (.error e, newRegistry) ∧
      (turnedAway sampleLibraries "gemini-cli" adaCall = none → e = .notConnected "gemini-cli") :=
  (rotateKey_refused_iff (fun _ h => by cases h)).mpr (.inr (.inl rfl))

/-- A rotation connects the agent that was disconnected. -/
theorem rotation_reconnects :
    Recorded disconnectedRegistry "gemini-cli" statusDisconnected ∧
      disconnectedRegistry.disk.file (GeminiSpec.envPath ada) = none ∧
      (disconnectedRegistry.rotateKey sampleLibraries idDigest "gemini-cli" adaCall).1 =
        .ok "ak_gemini-cli_02" ∧
      Recorded (disconnectedRegistry.rotateKey sampleLibraries idDigest "gemini-cli" adaCall).2
        "gemini-cli" statusConnected ∧
      ((disconnectedRegistry.rotateKey sampleLibraries idDigest "gemini-cli" adaCall).2.disk.file
        (GeminiSpec.envPath ada)).isSome := by
  simp only [Recorded, ← Option.map_eq_some_iff]
  decide +kernel

end AnyConverter.AgentRegistry
