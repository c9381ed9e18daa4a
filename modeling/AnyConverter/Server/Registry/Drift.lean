import AnyConverter.Lib.Runs
import AnyConverter.Server.Registry.FailedCalls

/-!
# Listing beside connecting and disconnecting

A listing reads the applied values, decides under the lock who has drifted, and writes it down when
it has the lock again.  Connects and disconnects may come in between.

* `rows_drifted`, `rows_status`: what a listing says of an agent, from its entry;
* `Off.step`, `On.step`: what the steps keep of an agent that was disconnected, or connected;
* `changes_stand`: an agent stays what the last change made of it, as long as no listing writes down
  what it read before that change;
* `drifted_after_disconnect`: without that condition, it does not.
-/

set_option autoImplicit false

namespace AnyConverter.AgentRegistry

open Runs

/-! ## Steps -/

/-- Where a listing stands. -/
inductive ListPc where
  | idle
  | loaded (home : HomeCtx) (applied : Applied)
  | decided (rows : List AgentStatus) (drifted : List String)

structure State where
  registry : AgentRegistry
  lists : Nat → ListPc
  /-- how often each agent was connected or disconnected -/
  changes : String → Nat
  /-- the same, at the time a listing read the applied values -/
  seen : Nat → String → Nat

inductive Act where
  | load (i : Nat) (home : HomeCtx) (faults : Faults)
  | decide (i : Nat) (isDir : String → Bool) (faults : Faults)
  | mark (i : Nat) (saveFails : Bool)
  | connect (agentId : String) (model : Option String) (c : Call)
  | disconnect (agentId : String) (c : Call)
  | sync (agentId : String) (c : Call)
  /-- someone else changes a file -/
  | edit (path : String) (content : Option Content)

/-- An agent was changed, if the call succeeded. -/
def bump {α : Type} (agentId : String) (result : Except ApiError α) (changes : String → Nat) :
    String → Nat :=
  match result with
  | .ok _ => Function.update changes agentId (changes agentId + 1)
  | .error _ => changes

section
variable (libs : Libraries) (digest : List CatalogModel → String)

def step (s : State) : Act → Option State
  | .load i home faults =>
    match s.lists i with
    | .idle => some { s with
        lists := Function.update s.lists i (.loaded home (loadApplied faults s.registry.disk))
        seen := Function.update s.seen i s.changes }
    | _ => none
  | .decide i isDir faults =>
    match s.lists i with
    | .loaded home applied =>
      let seen := rows libs ⟨home, isDir, faults⟩ applied s.registry
      some { s with lists := Function.update s.lists i (.decided seen.1 seen.2) }
    | _ => none
  | .mark i saveFails =>
    match s.lists i with
    | .decided _ drifted => some { s with
        registry := s.registry.markDrifted saveFails drifted
        lists := Function.update s.lists i .idle }
    | _ => none
  | .connect agentId model c =>
    let r := s.registry.connect libs digest agentId model c
    some { s with registry := r.2, changes := bump agentId r.1 s.changes }
  | .disconnect agentId c =>
    let r := s.registry.disconnect libs agentId c
    some { s with registry := r.2, changes := bump agentId r.1 s.changes }
  | .sync agentId c => some { s with registry := (s.registry.sync libs digest agentId c).2 }
  | .edit path content => some { s with
      registry := { s.registry with disk := s.registry.disk.setFile path content } }

/-- Any registry, and no listing under way. -/
def start (r : AgentRegistry) : State := ⟨r, fun _ => .idle, fun _ => 0, fun _ _ => 0⟩

end

/-! ## What is promised -/

/-- The agent has an entry with this status. -/
def Recorded (r : AgentRegistry) (agentId status : String) : Prop :=
  ∃ entry, r.agents agentId = some entry ∧ entry.status = status

/-- An agent that is disconnected: it is not listed as anything else, and a sync does nothing. -/
structure Disconnected (libs : Libraries) (digest : List CatalogModel → String) (agentId : String)
    (r : AgentRegistry) : Prop where
  recorded : Recorded r agentId statusDisconnected
  listed : ∀ sight applied, ∀ row ∈ (rows libs sight applied r).1, row.id = agentId →
    row.status = statusDisconnected ∨ row.status = statusAbsent
  unwired : ∀ c, ∃ e, r.sync libs digest agentId c = (.error e, r)

/-- A step of a listing, or a sync of the agent. -/
def Act.ListsOrSyncs (agentId : String) : Act → Prop
  | .load _ _ _ | .decide _ _ _ | .mark _ _ => True
  | .sync id _ => id = agentId
  | _ => False

/-- A step that is no connect of the agent. -/
def Act.NoConnect (agentId : String) : Act → Prop
  | .connect id _ _ => id ≠ agentId
  | _ => True

/-- A step that neither begins a listing nor connects or disconnects the agent. -/
def Act.Settles (agentId : String) : Act → Prop
  | .load _ _ _ => False
  | .connect id _ _ | .disconnect id _ => id ≠ agentId
  | _ => True

/-- Who is written down as drifted was neither connected nor disconnected since the listing read the
applied values. -/
def Current (agentId : String) (s : State) : Act → Prop
  | .mark i _ => ∀ rows drifted, s.lists i = .decided rows drifted → agentId ∈ drifted →
    s.seen i agentId = s.changes agentId
  | _ => True

/-! ## What a call makes of the entries -/

theorem Recorded.congr {r r' : AgentRegistry} {agentId status : String}
    (h : Recorded r agentId status) (hsame : r'.agents agentId = r.agents agentId) :
    Recorded r' agentId status := by
  obtain ⟨entry, hentry, hstatus⟩ := h
  exact ⟨entry, hsame.trans hentry, hstatus⟩

theorem Recorded.update {r r' : AgentRegistry} {agentId : String} {entry : AgentEntry}
    (h : r'.agents = Function.update r.agents agentId (some entry)) :
    Recorded r' agentId entry.status := ⟨entry, by rw [h, Function.update_self], rfl⟩

/-- An agent has one status. -/
theorem Recorded.unique {r : AgentRegistry} {agentId status status' : String}
    (h : Recorded r agentId status) (h' : Recorded r agentId status') : status = status' := by
  obtain ⟨entry, hentry, rfl⟩ := h
  obtain ⟨entry', hentry', rfl⟩ := h'
  rw [hentry] at hentry'
  cases hentry'
  rfl

section
variable {libs : Libraries} {digest : List CatalogModel → String}

@[simp] theorem saveState_agents (fails : Bool) (r : AgentRegistry) :
    (r.saveState fails).2.agents = r.agents := by
  unfold saveState
  split <;> rfl

@[simp] theorem saveState_disk (fails : Bool) (r : AgentRegistry) :
    (r.saveState fails).2.disk = r.disk := by
  unfold saveState
  split <;> rfl

/-- What is wired is recorded, when the files could be written. -/
theorem wire_agents {c : Call} {spec : AgentSpec} {agentId key defaultModel : String}
    {agentKeys : AgentKeys} {entry : AgentEntry} {r r' : AgentRegistry}
    {result : Except ApiError (List String)}
    (h : wire c spec agentId key defaultModel agentKeys entry r = (result, r')) :
    r'.agents = Function.update r.agents agentId (some entry) ∨
      r'.agents = r.agents ∧ ∃ e, result = .error e := by
  unfold wire at h
  split at h
  · cases h
    exact Or.inr ⟨rfl, _, rfl⟩
  · left
    split at h
    all_goals
      rename_i hsave
      cases h
      have hagents := congrArg (fun p => p.2.agents) hsave
      dsimp only at hagents
      rw [← hagents, saveState_agents]

theorem putKey_agents {c : Call} {agentId key : String} {r r' : AgentRegistry}
    {result : Except ApiError Unit} (h : putKey c agentId key r = (result, r')) :
    r'.agents = r.agents := by
  unfold putKey at h
  split at h <;> cases h <;> rfl

/-- **What a connect makes of the entries**: the agent's becomes connected, or nothing changes. -/
theorem connect_agents {agentId : String} {model : Option String} {c : Call} {r r' : AgentRegistry}
    {result : Except ApiError (List String)}
    (h : r.connect libs digest agentId model c = (result, r')) :
    (∃ entry, r'.agents = Function.update r.agents agentId (some entry) ∧
      entry.status = statusConnected) ∨ r'.agents = r.agents ∧ ∃ e, result = .error e := by
  unfold connect at h
  split at h
  · cases h
    exact Or.inr ⟨rfl, _, rfl⟩
  split at h
  · cases h
    exact Or.inr ⟨rfl, _, rfl⟩
  dsimp only at h
  split at h
  · cases h
    exact Or.inr ⟨rfl, _, rfl⟩
  split at h
  · rcases wire_agents h with hagents | hsame
    · exact Or.inl ⟨_, hagents, rfl⟩
    · exact Or.inr hsame
  · split at h
    · rename_i hput
      cases h
      exact Or.inr ⟨putKey_agents hput, _, rfl⟩
    · rename_i hput
      rw [← putKey_agents hput]
      rcases wire_agents h with hagents | hsame
      · exact Or.inl ⟨_, hagents, rfl⟩
      · exact Or.inr hsame

/-- **What a disconnect makes of the entries**. -/
theorem disconnect_agents {agentId : String} {c : Call} {r r' : AgentRegistry}
    {result : Except ApiError DisconnectReport} (h : r.disconnect libs agentId c = (result, r')) :
    (∃ entry, r'.agents = Function.update r.agents agentId (some entry) ∧
      entry.status = statusDisconnected) ∨ r'.agents = r.agents ∧ ∃ e, result = .error e := by
  unfold disconnect at h
  split at h
  · cases h
    exact Or.inr ⟨rfl, _, rfl⟩
  split at h
  · cases h
    exact Or.inr ⟨rfl, _, rfl⟩
  · left
    dsimp only at h
    split at h
    all_goals
      rename_i hsave
      cases h
      have hagents := congrArg (fun p => p.2.agents) hsave
      dsimp only at hagents
      rw [saveState_agents] at hagents
      exact ⟨_, hagents.symm, rfl⟩

/-- **What a sync makes of the entries**: it changes none but that of an agent which is connected or
drifted, and makes that connected. -/
theorem sync_agents {agentId : String} {c : Call} {r r' : AgentRegistry}
    {result : Except ApiError Unit} (h : r.sync libs digest agentId c = (result, r')) :
    (∃ entry, r'.agents = Function.update r.agents agentId (some entry) ∧
      entry.status = statusConnected) ∨ r'.agents = r.agents := by
  unfold sync at h
  repeat' split at h
  all_goals
    first
    | cases h
      exact Or.inr rfl
    | rename_i hwire
      cases h
      rcases wire_agents hwire with hagents | ⟨hsame, -⟩
      · exact Or.inl ⟨_, hagents, rfl⟩
      · exact Or.inr hsame

theorem connect_other {agentId id : String} (hne : agentId ≠ id) (model : Option String) (c : Call)
    (r : AgentRegistry) :
    (r.connect libs digest id model c).2.agents agentId = r.agents agentId := by
  cases hcall : r.connect libs digest id model c with
  | mk result r' =>
    rcases connect_agents hcall with ⟨entry, hagents, -⟩ | ⟨hagents, -⟩
    · rw [hagents, Function.update_of_ne hne]
    · rw [hagents]

theorem disconnect_other {agentId id : String} (hne : agentId ≠ id) (c : Call) (r : AgentRegistry) :
    (r.disconnect libs id c).2.agents agentId = r.agents agentId := by
  cases hcall : r.disconnect libs id c with
  | mk result r' =>
    rcases disconnect_agents hcall with ⟨entry, hagents, -⟩ | ⟨hagents, -⟩
    · rw [hagents, Function.update_of_ne hne]
    · rw [hagents]

theorem sync_other {agentId id : String} (hne : agentId ≠ id) (c : Call) (r : AgentRegistry) :
    (r.sync libs digest id c).2.agents agentId = r.agents agentId := by
  cases hcall : r.sync libs digest id c with
  | mk result r' =>
    rcases sync_agents hcall with ⟨entry, hagents, -⟩ | hagents
    · rw [hagents, Function.update_of_ne hne]
    · rw [hagents]

/-- A call that succeeds makes of the agent's entry what it is meant to. -/
theorem connect_recorded {agentId : String} {model : Option String} {c : Call} {r : AgentRegistry}
    {written : List String} (h : (r.connect libs digest agentId model c).1 = .ok written) :
    Recorded (r.connect libs digest agentId model c).2 agentId statusConnected := by
  cases hcall : r.connect libs digest agentId model c with
  | mk result r' =>
    rw [hcall] at h
    rcases connect_agents hcall with ⟨entry, hagents, hstatus⟩ | ⟨-, e, he⟩
    · rw [← hstatus]
      exact .update hagents
    · rw [he] at h
      cases h

theorem disconnect_recorded {agentId : String} {c : Call} {r : AgentRegistry}
    (h : (∃ report, (r.disconnect libs agentId c).1 = .ok report) ∨
      Recorded r agentId statusDisconnected) :
    Recorded (r.disconnect libs agentId c).2 agentId statusDisconnected := by
  cases hcall : r.disconnect libs agentId c with
  | mk result r' =>
    rw [hcall] at h
    rcases disconnect_agents hcall with ⟨entry, hagents, hstatus⟩ | ⟨hagents, e, he⟩
    · rw [← hstatus]
      exact .update hagents
    · rcases h with ⟨report, hok⟩ | h
      · rw [he] at hok
        cases hok
      · exact h.congr (by rw [hagents])

theorem sync_recorded {agentId : String} {c : Call} {r : AgentRegistry}
    (h : Recorded r agentId statusConnected) :
    Recorded (r.sync libs digest agentId c).2 agentId statusConnected := by
  cases hcall : r.sync libs digest agentId c with
  | mk result r' =>
    rcases sync_agents hcall with ⟨entry, hagents, hstatus⟩ | hagents
    · rw [← hstatus]
      exact .update hagents
    · exact h.congr (by rw [hagents])

variable (libs digest) in
/-- An agent that is disconnected is not synced. -/
theorem sync_of_disconnected {agentId : String} (c : Call) {r : AgentRegistry}
    (h : Recorded r agentId statusDisconnected) :
    ∃ e, r.sync libs digest agentId c = (.error e, r) := by
  obtain ⟨entry, hentry, hstatus⟩ := h
  unfold sync
  split
  · exact ⟨_, rfl⟩
  split
  · exact ⟨_, rfl⟩
  rw [hentry]
  dsimp only
  rw [if_pos (by rw [hstatus]; decide)]
  exact ⟨_, rfl⟩

theorem markDrifted_agents {saveFails : Bool} {drifted : List String} {r : AgentRegistry}
    {agentId : String} (h : agentId ∉ drifted) :
    (r.markDrifted saveFails drifted).agents agentId = r.agents agentId := by
  unfold markDrifted
  split
  · rfl
  · rw [saveState_agents]
    exact if_neg h

theorem markDrifted_disk (saveFails : Bool) (drifted : List String) (r : AgentRegistry) :
    (r.markDrifted saveFails drifted).disk = r.disk := by
  unfold markDrifted
  split
  · rfl
  · rw [saveState_disk]

/-! ## What a listing says -/

/-- Only a connected agent drifts. -/
theorem rows_drifted {sight : Sight} {applied : Applied} {r : AgentRegistry} {agentId : String}
    (h : agentId ∈ (rows libs sight applied r).2) : Recorded r agentId statusConnected := by
  obtain ⟨row, hrow, rfl⟩ := List.mem_map.mp h
  obtain ⟨hmem, hdrifted⟩ := List.mem_filter.mp hrow
  obtain ⟨probe, -, rfl⟩ := List.mem_map.mp hmem
  unfold statusOf at hdrifted ⊢
  split at hdrifted
  · cases hdrifted
  · rename_i hdetect
    rw [if_neg hdetect]
    dsimp only at hdrifted ⊢
    rw [Bool.and_eq_true, beq_iff_eq] at hdrifted
    have hstatus := hdrifted.1
    cases hentry : r.agents probe.spec.id with
    | none =>
      rw [hentry] at hstatus
      exact absurd hstatus (by decide)
    | some entry =>
      rw [hentry] at hstatus
      dsimp only at hstatus
      split at hstatus
      · exact absurd hstatus (by decide)
      · exact ⟨entry, hentry, hstatus⟩

/-- A disconnected agent is listed as such, or as absent. -/
theorem rows_status {sight : Sight} {applied : Applied} {r : AgentRegistry} {agentId : String}
    (h : Recorded r agentId statusDisconnected) {row : AgentStatus}
    (hrow : row ∈ (rows libs sight applied r).1) (hid : row.id = agentId) :
    row.status = statusDisconnected ∨ row.status = statusAbsent := by
  obtain ⟨seen, hseen, rfl⟩ := List.mem_map.mp hrow
  obtain ⟨probe, -, rfl⟩ := List.mem_map.mp hseen
  obtain ⟨entry, hentry, hstatus⟩ := h
  unfold statusOf at hid ⊢
  split at hid
  · rename_i hdetect
    rw [if_pos hdetect]
    exact Or.inr rfl
  · rename_i hdetect
    rw [if_neg hdetect]
    left
    have hid : probe.spec.id = agentId := hid
    simp only [hid, hentry, hstatus]
    rfl

/-! ## What the steps keep -/

theorem le_bump {α : Type} (agentId : String) (result : Except ApiError α) (changes : String → Nat)
    (id : String) : changes id ≤ bump agentId result changes id := by
  cases result with
  | error e => exact Nat.le_refl _
  | ok a =>
    by_cases hid : id = agentId
    · subst hid
      simp [bump]
    · simp [bump, hid]

/-- No listing has read anything later than now. -/
def Seen (s : State) : Prop := ∀ i id, s.seen i id ≤ s.changes id

theorem Seen.step {s s' : State} {a : Act} (h : Seen s) (hstep : step libs digest s a = some s') :
    Seen s' := by
  cases a with
  | load i home faults =>
    simp only [AgentRegistry.step] at hstep
    split at hstep
    · cases hstep
      intro j id
      by_cases hji : j = i
      · subst hji
        simp
      · simpa [hji] using h j id
    · cases hstep
  | decide i isDir faults =>
    simp only [AgentRegistry.step] at hstep
    split at hstep <;> cases hstep
    exact h
  | mark i saveFails =>
    simp only [AgentRegistry.step] at hstep
    split at hstep <;> cases hstep
    exact h
  | connect agentId model c =>
    cases hstep
    exact fun i id => (h i id).trans (le_bump ..)
  | disconnect agentId c =>
    cases hstep
    exact fun i id => (h i id).trans (le_bump ..)
  | sync agentId c =>
    cases hstep
    exact h
  | edit path content =>
    cases hstep
    exact h

/-- The agent is disconnected, and who has decided that it drifted did so on an older reading. -/
structure Off (agentId : String) (s : State) : Prop where
  recorded : Recorded s.registry agentId statusDisconnected
  older : ∀ i rows drifted, s.lists i = .decided rows drifted → agentId ∈ drifted →
    s.seen i agentId < s.changes agentId

/-- **A disconnected agent stays so** until it is connected. -/
theorem Off.step {agentId : String} {s s' : State} {a : Act} (h : Off agentId s)
    (hcurrent : Current agentId s a) (hno : a.NoConnect agentId)
    (hstep : step libs digest s a = some s') : Off agentId s' := by
  cases a with
  | load i home faults =>
    simp only [AgentRegistry.step] at hstep
    split at hstep
    · cases hstep
      refine ⟨h.recorded, ?_⟩
      intro j rows drifted hlist hmem
      by_cases hji : j = i
      · subst hji
        simp at hlist
      · simp only [Function.update_of_ne hji] at hlist ⊢
        exact h.older j rows drifted hlist hmem
    · cases hstep
  | decide i isDir faults =>
    simp only [AgentRegistry.step] at hstep
    split at hstep
    · cases hstep
      refine ⟨h.recorded, ?_⟩
      intro j rows drifted hlist hmem
      by_cases hji : j = i
      · subst hji
        simp only [Function.update_self, ListPc.decided.injEq] at hlist
        rw [← hlist.2] at hmem
        have hconnected := (rows_drifted hmem).unique h.recorded
        exact absurd hconnected (by decide)
      · simp only [Function.update_of_ne hji] at hlist
        exact h.older j rows drifted hlist hmem
    · cases hstep
  | mark i saveFails =>
    simp only [AgentRegistry.step] at hstep
    split at hstep
    · rename_i rows drifted hpc
      cases hstep
      have hnot : agentId ∉ drifted := by
        intro hmem
        have holder := h.older i rows drifted hpc hmem
        have hsame := hcurrent rows drifted hpc hmem
        omega
      refine ⟨h.recorded.congr (markDrifted_agents hnot), ?_⟩
      intro j rows drifted hlist hmem
      by_cases hji : j = i
      · subst hji
        simp at hlist
      · simp only [Function.update_of_ne hji] at hlist
        exact h.older j rows drifted hlist hmem
    · cases hstep
  | connect id model c =>
    cases hstep
    refine ⟨h.recorded.congr (connect_other (Ne.symm hno) ..), ?_⟩
    intro i rows drifted hlist hmem
    exact lt_of_lt_of_le (h.older i rows drifted hlist hmem) (le_bump ..)
  | disconnect id c =>
    cases hstep
    refine ⟨?_, ?_⟩
    · by_cases hid : agentId = id
      · subst hid
        exact disconnect_recorded (Or.inr h.recorded)
      · exact h.recorded.congr (disconnect_other hid ..)
    · intro i rows drifted hlist hmem
      exact lt_of_lt_of_le (h.older i rows drifted hlist hmem) (le_bump ..)
  | sync id c =>
    cases hstep
    refine ⟨?_, h.older⟩
    by_cases hid : agentId = id
    · subst hid
      obtain ⟨e, hsync⟩ := sync_of_disconnected libs digest c h.recorded
      show Recorded (s.registry.sync libs digest agentId c).2 agentId statusDisconnected
      rw [hsync]
      exact h.recorded
    · exact h.recorded.congr (sync_other hid ..)
  | edit path content =>
    cases hstep
    exact ⟨h.recorded.congr rfl, h.older⟩

/-- The agent is connected, and every listing under way has begun before. -/
structure On (agentId : String) (s : State) : Prop where
  recorded : Recorded s.registry agentId statusConnected
  older : ∀ i, s.lists i ≠ .idle → s.seen i agentId < s.changes agentId

/-- **A connected agent stays so**, as far as the listings go that have begun before. -/
theorem On.step {agentId : String} {s s' : State} {a : Act} (h : On agentId s)
    (hcurrent : Current agentId s a) (hsettles : a.Settles agentId)
    (hstep : step libs digest s a = some s') : On agentId s' := by
  cases a with
  | load i home faults => exact hsettles.elim
  | decide i isDir faults =>
    simp only [AgentRegistry.step] at hstep
    split at hstep
    · rename_i home applied hpc
      cases hstep
      refine ⟨h.recorded, ?_⟩
      intro j hlist
      by_cases hji : j = i
      · subst hji
        exact h.older j (by rw [hpc]; nofun)
      · simp only [Function.update_of_ne hji] at hlist
        exact h.older j hlist
    · cases hstep
  | mark i saveFails =>
    simp only [AgentRegistry.step] at hstep
    split at hstep
    · rename_i rows drifted hpc
      cases hstep
      have hnot : agentId ∉ drifted := by
        intro hmem
        have holder := h.older i (by rw [hpc]; nofun)
        have hsame := hcurrent rows drifted hpc hmem
        omega
      refine ⟨h.recorded.congr (markDrifted_agents hnot), ?_⟩
      intro j hlist
      by_cases hji : j = i
      · subst hji
        simp at hlist
      · simp only [Function.update_of_ne hji] at hlist
        exact h.older j hlist
    · cases hstep
  | connect id model c =>
    cases hstep
    exact ⟨h.recorded.congr (connect_other (Ne.symm hsettles) ..),
      fun i hlist => lt_of_lt_of_le (h.older i hlist) (le_bump ..)⟩
  | disconnect id c =>
    cases hstep
    exact ⟨h.recorded.congr (disconnect_other (Ne.symm hsettles) ..),
      fun i hlist => lt_of_lt_of_le (h.older i hlist) (le_bump ..)⟩
  | sync id c =>
    cases hstep
    refine ⟨?_, h.older⟩
    by_cases hid : agentId = id
    · subst hid
      exact sync_recorded h.recorded
    · exact h.recorded.congr (sync_other hid ..)
  | edit path content =>
    cases hstep
    exact ⟨h.recorded.congr rfl, h.older⟩

/-! ## Whole runs -/

/-- What a disconnected agent's entry says. -/
theorem Disconnected.of_recorded {agentId : String} {r : AgentRegistry}
    (h : Recorded r agentId statusDisconnected) : Disconnected libs digest agentId r where
  recorded := h
  listed _ _ _ hrow hid := rows_status h hrow hid
  unwired c := sync_of_disconnected libs digest c h

theorem Act.ListsOrSyncs.noConnect {agentId : String} {a : Act} (h : a.ListsOrSyncs agentId) :
    a.NoConnect agentId := by
  cases a with
  | connect id model c => exact h.elim
  | _ => trivial

/-- The files of a disconnected agent are left alone by listings and syncs. -/
theorem Off.disk {agentId : String} {s s' : State} {a : Act} (h : Off agentId s)
    (ha : a.ListsOrSyncs agentId) (hstep : AgentRegistry.step libs digest s a = some s') :
    s'.registry.disk = s.registry.disk := by
  cases a with
  | load i home faults =>
    simp only [AgentRegistry.step] at hstep
    split at hstep <;> cases hstep
    rfl
  | decide i isDir faults =>
    simp only [AgentRegistry.step] at hstep
    split at hstep <;> cases hstep
    rfl
  | mark i saveFails =>
    simp only [AgentRegistry.step] at hstep
    split at hstep <;> cases hstep
    exact markDrifted_disk ..
  | sync id c =>
    cases hstep
    obtain rfl : id = agentId := ha
    obtain ⟨e, hsync⟩ := sync_of_disconnected libs digest c h.recorded
    show (s.registry.sync libs digest id c).2.disk = s.registry.disk
    rw [hsync]
  | connect id model c => exact ha.elim
  | disconnect id c => exact ha.elim
  | edit path content => exact ha.elim

end

/-- **An agent stays what it was made**, in every run in which no listing writes down what it read
before a connect or disconnect: disconnected until it is connected, and connected as far as the
listings go that had begun. -/
theorem changes_stand (libs : Libraries) (digest : List CatalogModel → String) (agentId : String)
    (r : AgentRegistry) (before after : List Act) (a : Act) (s₁ s₂ s : State)
    (hbefore : run (step libs digest) (start r) before = some s₁)
    (hstep : step libs digest s₁ a = some s₂) (hafter : run (step libs digest) s₂ after = some s)
    (hcurrent : Meets (step libs digest) (Current agentId) (start r) (before ++ a :: after)) :
    (∀ c report, a = .disconnect agentId c →
      (s₁.registry.disconnect libs agentId c).1 = .ok report →
      (∀ b ∈ after, b.NoConnect agentId) →
        Disconnected libs digest agentId s.registry ∧
        ((∀ b ∈ after, b.ListsOrSyncs agentId) → s.registry.disk = s₂.registry.disk)) ∧
    (∀ model c written, a = .connect agentId model c →
      (s₁.registry.connect libs digest agentId model c).1 = .ok written →
      (∀ b ∈ after, b.Settles agentId) → Recorded s.registry agentId statusConnected) := by
  obtain ⟨hcurrent₁, hrest⟩ := hcurrent.append
  have hcurrent₂ := (hrest s₁ hbefore).2 s₂ hstep
  have hseen : Seen s₁ :=
    invariant (fun s b s' hI _ h => hI.step h) (fun _ _ => Nat.le_refl _) hcurrent₁ hbefore
  -- whoever has read the agent so far has read it before this change
  have holder : ∀ {α : Type} {result : Except ApiError α} {x : α}, result = .ok x →
      ∀ i, s₁.seen i agentId < bump agentId result s₁.changes agentId := by
    intro α result x hok i
    rw [hok]
    simpa [bump] using Nat.lt_succ_of_le (hseen i agentId)
  constructor
  · rintro c report rfl hok hno
    have hoff : Off agentId s₂ := by
      cases hstep
      exact ⟨disconnect_recorded (Or.inl ⟨report, hok⟩), fun i _ _ _ _ => holder hok i⟩
    refine ⟨?_, ?_⟩
    · have hcond := hcurrent₂.and (Meets.of_forall fun b hb _ => hno b hb)
      exact .of_recorded
        (invariant (fun s b s' hI hc h => Off.step hI hc.1 hc.2 h) hoff hcond hafter).recorded
    · intro hlists
      have hcond := hcurrent₂.and (Meets.of_forall fun b hb _ => hlists b hb)
      exact (invariant (I := fun s' => Off agentId s' ∧ s'.registry.disk = s₂.registry.disk)
        (fun s b s' hI hc h => ⟨hI.1.step hc.1 hc.2.noConnect h, (hI.1.disk hc.2 h).trans hI.2⟩)
        ⟨hoff, rfl⟩ hcond hafter).2
  · rintro model c written rfl hok hsettles
    have hon : On agentId s₂ := by
      cases hstep
      exact ⟨connect_recorded hok, fun i _ => holder hok i⟩
    have hcond := hcurrent₂.and (Meets.of_forall fun b hb _ => hsettles b hb)
    exact (invariant (fun s b s' hI hc h => On.step hI hc.1 hc.2 h) hon hcond hafter).recorded

/-! ## Two runs -/

def sampleStep : State → Act → Option State := step sampleLibraries idDigest

/-- A listing that has begun after the disconnect. -/
theorem changes_stand_listed :
    ∃ s₁ s₂ s,
      run sampleStep (start newRegistry) [.connect "gemini-cli" none adaCall] = some s₁ ∧
      sampleStep s₁ (.disconnect "gemini-cli" adaCall) = some s₂ ∧
      run sampleStep s₂ [.load 0 ada fun _ => false, .decide 0 (fun _ => true) fun _ => false,
        .mark 0 false] = some s ∧
      Disconnected sampleLibraries idDigest "gemini-cli" s.registry := by
  have hok : ∃ report, ((newRegistry.connect sampleLibraries idDigest "gemini-cli" none
      adaCall).2.disconnect sampleLibraries "gemini-cli" adaCall).1 = .ok report := by
    have hisOk : ((newRegistry.connect sampleLibraries idDigest "gemini-cli" none
        adaCall).2.disconnect sampleLibraries "gemini-cli" adaCall).1.isOk := by
      decide +kernel
    revert hisOk
    cases ((newRegistry.connect sampleLibraries idDigest "gemini-cli" none
      adaCall).2.disconnect sampleLibraries "gemini-cli" adaCall).1 with
    | ok report => exact fun _ => ⟨report, rfl⟩
    | error e => exact nofun
  obtain ⟨report, hok⟩ := hok
  refine ⟨_, _, _, rfl, rfl, rfl, ?_⟩
  refine ((changes_stand sampleLibraries idDigest "gemini-cli" newRegistry
    [.connect "gemini-cli" none adaCall]
    [.load 0 ada fun _ => false, .decide 0 (fun _ => true) fun _ => false, .mark 0 false]
    (.disconnect "gemini-cli" adaCall) _ _ _ rfl rfl rfl ?_).1 adaCall report rfl hok ?_).1
  · iterate 4 refine .cons trivial rfl ?_
    refine .cons ?_ rfl trivial
    intro rows drifted hlist hmem
    cases hlist
    revert hmem
    decide +kernel
  · intro b hb
    simp only [List.mem_cons, List.not_mem_nil, or_false] at hb
    rcases hb with rfl | rfl | rfl <;> trivial

/-- A listing finds the agent drifted; before it has written that down, the agent is disconnected.
Then it counts as drifted again, and the next sync wires it. -/
theorem drifted_after_disconnect :
    ∃ s₁ s₂ s₃ s₄,
      run sampleStep (start newRegistry) [.connect "gemini-cli" none adaCall,
        .edit (GeminiSpec.envPath ada) none, .load 0 ada fun _ => false,
        .decide 0 (fun _ => true) fun _ => false] = some s₁ ∧
      (s₁.registry.disconnect sampleLibraries "gemini-cli" adaCall).1.isOk ∧
      sampleStep s₁ (.disconnect "gemini-cli" adaCall) = some s₂ ∧
      s₂.registry.disk.file (GeminiSpec.envPath ada) = none ∧
      sampleStep s₂ (.mark 0 false) = some s₃ ∧
      Recorded s₃.registry "gemini-cli" statusDrifted ∧
      sampleStep s₃ (.sync "gemini-cli" adaCall) = some s₄ ∧
      (s₄.registry.disk.file (GeminiSpec.envPath ada)).isSome := by
  refine ⟨_, _, _, _, rfl, ?_, rfl, ?_, rfl, Option.map_eq_some_iff.mp ?_, rfl, ?_⟩
  all_goals decide +kernel

end AnyConverter.AgentRegistry
