import Mathlib.Data.List.Induction
import Mathlib.Logic.Function.Basic
import AnyConverter.Lib.Runs

/-!
# The secrets file

Credentials are kept in one file, a map from account ids.  Every change reads the whole map and
writes it back under a lock of the instance, and several instances share the file.

* `Inv.step`: what every step keeps, when a file is replaced that still is as it was loaded;
* `last_kept_of_undisturbed`: so every account id holds what was done to it last;
* `other_put_lost`: without that condition, it does not.
-/

set_option autoImplicit false

namespace AnyConverter.SecretStore

open Runs

variable {Credential : Type}

/-! ## The files -/

abbrev DiskMap (Credential : Type) := String → Option Credential

/-- What is in a file: a map, or something that does not parse as one. -/
inductive Contents (Credential : Type) where
  | map (map : DiskMap Credential)
  | corrupt

inductive SecretStoreError where
  | serialize
  | notFound
  deriving DecidableEq, Repr

/-- The file and its backup; `none` where there is none. -/
structure Files (Credential : Type) where
  path : Option (Contents Credential)
  backup : Option (Contents Credential)

/-- `FileSecretStore::load`. -/
def load (files : Files Credential) : Except SecretStoreError (DiskMap Credential) :=
  match files.path with
  | some (.map map) => .ok map
  | none => .ok fun _ => none
  | some .corrupt =>
    match files.backup with
    | some (.map map) => .ok map
    | none => .error .notFound
    | some .corrupt => .error .serialize

def get (files : Files Credential) (accountId : String) :
    Except SecretStoreError (Option Credential) :=
  (load files).map fun map => map accountId

/-! ## The operations -/

inductive Op (Credential : Type) where
  | put (accountId : String) (cred : Credential)
  | delete (accountId : String)

def Op.accountId : Op Credential → String
  | .put accountId _ | .delete accountId => accountId

/-- What an operation leaves under its account id. -/
def Op.leaves : Op Credential → Option Credential
  | .put _ cred => some cred
  | .delete _ => none

def Op.apply (map : DiskMap Credential) (op : Op Credential) : DiskMap Credential :=
  Function.update map op.accountId op.leaves

/-- Whether an operation has something to save. -/
def Op.saves (map : DiskMap Credential) : Op Credential → Bool
  | .put _ _ => true
  | .delete accountId => (map accountId).isSome

/-- Where an instance stands; its lock admits one operation at a time. -/
inductive Pc (Credential : Type) where
  | idle
  | locked (op : Op Credential)
  | loaded (op : Op Credential) (map : DiskMap Credential)
  /-- the temporary file is written -/
  | written (op : Op Credential) (map : DiskMap Credential)
  /-- the file is replaced, and its backup is still to be made -/
  | renamed

structure State (Credential : Type) where
  files : Files Credential
  /-- the temporary file of each process -/
  tmp : Nat → Option (DiskMap Credential)
  /-- the operations that were carried out, in order -/
  log : List (Op Credential)
  pc : Nat → Pc Credential

/-- A step of one instance. -/
inductive Act (Credential : Type) where
  | begin_ (i : Nat) (op : Op Credential)
  | load (i : Nat)
  | writeTmp (i : Nat)
  | rename (i : Nat)
  | backUp (i : Nat)
  /-- reading or writing a file fails -/
  | fail (i : Nat)

def State.goto (s : State Credential) (i : Nat) (pc : Pc Credential) : State Credential :=
  { s with pc := Function.update s.pc i pc }

section
variable (pid : Nat → Nat)

/-- `FileSecretStore::put` and `delete`, one file operation at a time. -/
def step (s : State Credential) : Act Credential → Option (State Credential)
  | .begin_ i op =>
    match s.pc i with
    | .idle => some (s.goto i (.locked op))
    | _ => none
  | .load i =>
    match s.pc i with
    | .locked op =>
      match SecretStore.load s.files with
      | .ok map =>
        if op.saves map then some (s.goto i (.loaded op map))
        else some ({ s with log := s.log ++ [op] }.goto i .idle)
      | .error _ => some (s.goto i .idle)
    | _ => none
  | .writeTmp i =>
    match s.pc i with
    | .loaded op map =>
      some ({ s with tmp := Function.update s.tmp (pid i) (some (op.apply map)) }.goto i
        (.written op map))
    | _ => none
  | .rename i =>
    match s.pc i with
    | .written op _ =>
      match s.tmp (pid i) with
      | some new =>
        some ({ s with files.path := some (.map new), tmp := Function.update s.tmp (pid i) none,
                       log := s.log ++ [op] }.goto i .renamed)
      -- another instance of the process has renamed it away
      | none => some (s.goto i .idle)
    | _ => none
  | .backUp i =>
    match s.pc i with
    | .renamed =>
      match s.files.path with
      | some contents => some ({ s with files.backup := some contents }.goto i .idle)
      | none => some (s.goto i .idle)
    | _ => none
  | .fail i =>
    match s.pc i with
    | .idle => none
    | _ => some (s.goto i .idle)

/-- Any files, and nobody at them. -/
def start (files : Files Credential) : State Credential := ⟨files, fun _ => none, [], fun _ => .idle⟩

/-! ## What the store promises -/

/-- The operation that was carried out last on an account id. -/
def lastOn (log : List (Op Credential)) (accountId : String) : Option (Op Credential) :=
  log.reverse.find? fun op => op.accountId = accountId

/-- Every account id holds what was done to it last, or what it held at first. -/
def NoneLost (files : Files Credential) (s : State Credential) : Prop :=
  ∀ accountId, get s.files accountId =
    match lastOn s.log accountId with
    | some op => .ok op.leaves
    | none => get files accountId

/-- Nobody has touched what an instance is about to replace: the temporary file is as it wrote it, and
the file agrees with what it loaded on every other account id. -/
def Undisturbed (s : State Credential) : Act Credential → Prop
  | .rename i => ∀ op map, s.pc i = .written op map →
    s.tmp (pid i) = some (op.apply map) ∧
      ∀ now, SecretStore.load s.files = .ok now → ∀ id, id ≠ op.accountId → now id = map id
  | _ => True

end

/-! ## The map after some operations -/

theorem foldl_apply (map : DiskMap Credential) (log : List (Op Credential)) (accountId : String) :
    log.foldl Op.apply map accountId =
      match lastOn log accountId with
      | some op => op.leaves
      | none => map accountId := by
  induction log using List.reverseRecOn with
  | nil => rfl
  | append_singleton log op ih =>
    rw [List.foldl_append]
    by_cases hid : op.accountId = accountId
    · have hlast : lastOn (log ++ [op]) accountId = some op := by simp [lastOn, hid]
      rw [hlast]
      subst hid
      exact Function.update_self ..
    · have hlast : lastOn (log ++ [op]) accountId = lastOn log accountId := by simp [lastOn, hid]
      rw [hlast, ← ih]
      exact Function.update_of_ne (Ne.symm hid) ..

/-- An operation with nothing to save leaves the map as it is. -/
theorem Op.apply_of_not_saves {map : DiskMap Credential} {op : Op Credential}
    (h : ¬op.saves map = true) : op.apply map = map := by
  cases op with
  | put accountId cred => exact absurd rfl h
  | delete accountId =>
    have hnone : map accountId = none := by simpa [Op.saves] using h
    show Function.update map accountId none = map
    rw [← hnone, Function.update_eq_self]

/-- An operation sees nothing of a map but what the other ids hold. -/
theorem Op.apply_congr {map map' : DiskMap Credential} {op : Op Credential}
    (h : ∀ id, id ≠ op.accountId → map id = map' id) : op.apply map = op.apply map' := by
  funext id
  by_cases hid : id = op.accountId
  · subst hid
    simp [Op.apply]
  · simp [Op.apply, hid, h id hid]

/-! ## The invariant -/

/-- An instance that has loaded the map, and is not done with it. -/
def Pc.Loaded : Pc Credential → Prop
  | .loaded _ _ | .written _ _ => True
  | _ => False

/-- What every step keeps. -/
structure Inv (files : Files Credential) (s : State Credential) : Prop where
  kept : SecretStore.load s.files =
    (SecretStore.load files).map fun map => s.log.foldl Op.apply map
  loads : (∃ i, (s.pc i).Loaded) ∨ s.log ≠ [] → ∃ map, SecretStore.load files = .ok map
  renamed : ∀ i, s.pc i = .renamed → ∃ map, s.files.path = some (.map map)

theorem Inv.start (files : Files Credential) : Inv files (start files) where
  kept := by
    show SecretStore.load files = _
    cases SecretStore.load files <;> rfl
  loads h := by
    rcases h with ⟨i, hi⟩ | hlog
    · cases hi
    · exact absurd rfl hlog
  renamed i hi := by cases hi

section
variable {pid : Nat → Nat} {files : Files Credential} {s : State Credential}

/-- An instance moves on, and the files are left alone. -/
theorem Inv.goto (h : Inv files s) (i : Nat) {pc : Pc Credential}
    (hloads : pc.Loaded → ∃ map, SecretStore.load files = .ok map) (hpc : pc ≠ .renamed) :
    Inv files (s.goto i pc) where
  kept := h.kept
  loads hor := by
    rcases hor with ⟨j, hj⟩ | hlog
    · by_cases hji : j = i
      · subst hji
        exact hloads (by simpa [State.goto] using hj)
      · exact h.loads (Or.inl ⟨j, by simpa [State.goto, hji] using hj⟩)
    · exact h.loads (Or.inr hlog)
  renamed j hj := by
    by_cases hji : j = i
    · subst hji
      exact absurd (by simpa [State.goto] using hj) hpc
    · exact h.renamed j (by simpa [State.goto, hji] using hj)

theorem Inv.leave (h : Inv files s) (i : Nat) : Inv files (s.goto i .idle) :=
  h.goto i (fun hloaded => hloaded.elim) nofun

/-- **What a step keeps**, when the file it replaces still is as it was loaded. -/
theorem Inv.step {s' : State Credential} {a : Act Credential} (h : Inv files s)
    (hundisturbed : Undisturbed pid s a) (hstep : step pid s a = some s') : Inv files s' := by
  cases a with
  | begin_ i op =>
    simp only [SecretStore.step] at hstep
    split at hstep
    · cases hstep
      exact h.goto i (fun hloaded => hloaded.elim) nofun
    · cases hstep
  | load i =>
    simp only [SecretStore.step] at hstep
    split at hstep
    · rename_i op hpc
      split at hstep
      · rename_i map hload
        -- what loads now comes from what loaded at first
        have hfirst : ∃ first, SecretStore.load files = .ok first ∧
            s.log.foldl Op.apply first = map := by
          have hkept := h.kept
          rw [hload] at hkept
          cases hfiles : SecretStore.load files with
          | error e =>
            rw [hfiles] at hkept
            cases hkept
          | ok first =>
            rw [hfiles] at hkept
            cases hkept
            exact ⟨first, rfl, rfl⟩
        obtain ⟨first, hfiles, hmap⟩ := hfirst
        split at hstep
        · cases hstep
          exact h.goto i (fun _ => ⟨first, hfiles⟩) nofun
        · rename_i hsaves
          cases hstep
          refine Inv.leave (s := { s with log := s.log ++ [op] }) ⟨?_, fun _ => ⟨first, hfiles⟩, ?_⟩ i
          · show SecretStore.load s.files = _
            rw [hload, hfiles]
            show Except.ok map = Except.ok ((s.log ++ [op]).foldl Op.apply first)
            rw [List.foldl_append, hmap]
            exact congrArg _ (Op.apply_of_not_saves hsaves).symm
          · exact h.renamed
      · cases hstep
        exact h.leave i
    · cases hstep
  | writeTmp i =>
    simp only [SecretStore.step] at hstep
    split at hstep
    · rename_i op map hpc
      cases hstep
      have hsame : Inv files { s with tmp := Function.update s.tmp (pid i) (some (op.apply map)) } :=
        ⟨h.kept, h.loads, h.renamed⟩
      exact hsame.goto i (fun _ => h.loads (Or.inl ⟨i, by rw [hpc]; trivial⟩)) nofun
    · cases hstep
  | rename i =>
    simp only [SecretStore.step] at hstep
    split at hstep
    · rename_i op map hpc
      obtain ⟨htmp, hagrees⟩ := hundisturbed op map hpc
      obtain ⟨first, hfiles⟩ := h.loads (Or.inl ⟨i, by rw [hpc]; trivial⟩)
      have hload : SecretStore.load s.files = .ok (s.log.foldl Op.apply first) := by
        rw [h.kept, hfiles]
        rfl
      rw [htmp] at hstep
      cases hstep
      refine ⟨?_, fun _ => ⟨first, hfiles⟩, fun _ _ => ⟨_, rfl⟩⟩
      rw [hfiles]
      show Except.ok (op.apply map) = Except.ok ((s.log ++ [op]).foldl Op.apply first)
      rw [List.foldl_append]
      exact congrArg _ (Op.apply_congr fun id hid => (hagrees _ hload id hid).symm)
    · cases hstep
  | backUp i =>
    simp only [SecretStore.step] at hstep
    split at hstep
    · rename_i hpc
      obtain ⟨map, hpath⟩ := h.renamed i hpc
      rw [hpath] at hstep
      cases hstep
      have hsame : Inv files { s with files := ⟨some (.map map), some (.map map)⟩ } := by
        refine ⟨?_, h.loads, fun _ _ => ⟨map, rfl⟩⟩
        rw [← h.kept]
        simp only [SecretStore.load, hpath]
      exact hsame.leave i
    · cases hstep
  | fail i =>
    simp only [SecretStore.step] at hstep
    split at hstep
    · cases hstep
    · cases hstep
      exact h.leave i

theorem Inv.noneLost (h : Inv files s) : NoneLost files s := by
  intro accountId
  cases hfiles : SecretStore.load files with
  | error e =>
    -- nothing was carried out on files that do not load
    have hlog : s.log = [] := by
      by_contra hne
      obtain ⟨map, hok⟩ := h.loads (Or.inr hne)
      rw [hfiles] at hok
      cases hok
    have hkept := h.kept
    simp only [hlog, hfiles] at hkept ⊢
    simp only [get, hkept, hfiles]
    rfl
  | ok first =>
    have hget : get s.files accountId = .ok (s.log.foldl Op.apply first accountId) := by
      simp only [get, h.kept, hfiles]
      rfl
    rw [hget, foldl_apply]
    cases lastOn s.log accountId with
    | none => simp only [get, hfiles]; rfl
    | some op => rfl

end

/-! ## Runs -/

/-- **No update is lost**: in every run that replaces a file only while it still is as it was loaded,
every account id holds what was done to it last. -/
theorem last_kept_of_undisturbed (pid : Nat → Nat) (files : Files Credential)
    (acts : List (Act Credential))
    (hundisturbed : Meets (step pid) (Undisturbed pid) (start files) acts) :
    ∀ s, run (step pid) (start files) acts = some s → NoneLost files s := by
  intro s hrun
  exact (invariant (fun s a s' h hu hs => h.step hu hs) (Inv.start files) hundisturbed hrun).noneLost

/-- Two instances load the empty file, one after the other; then each puts its credential. -/
def bothLoad : List (Act Nat) :=
  [.begin_ 0 (.put "gemini:a" 1), .begin_ 1 (.put "codex:b" 2), .load 0, .load 1, .writeTmp 0,
    .rename 0, .backUp 0, .writeTmp 1, .rename 1, .backUp 1]

/-- The first credential is gone when both are done. -/
theorem other_put_lost : ¬∀ (pid : Nat → Nat) (files : Files Nat) (acts : List (Act Nat)) (s : State Nat),
    run (step pid) (start files) acts = some s → (∀ i, s.pc i = .idle) → NoneLost files s := by
  intro h
  have hboth : ∃ s, run (step id) (start ⟨none, none⟩) bothLoad = some s ∧ (∀ i, s.pc i = .idle) ∧
      get s.files "gemini:a" = .ok none ∧ lastOn s.log "gemini:a" = some (.put "gemini:a" 1) := by
    refine ⟨_, rfl, fun i => ?_, rfl, rfl⟩
    simp only [State.goto, start, Function.update_apply]
    split_ifs <;> rfl
  obtain ⟨s, hrun, hidle, hget, hlast⟩ := hboth
  have hheld := h id ⟨none, none⟩ bothLoad s hrun hidle "gemini:a"
  rw [hget, hlast] at hheld
  cases hheld

/-- Two instances, one after the other. -/
theorem last_kept_of_turns : ∃ s, run (step id) (start (⟨none, none⟩ : Files Nat))
    [.begin_ 0 (.put "gemini:a" 1), .load 0, .writeTmp 0, .rename 0, .begin_ 1 (.delete "gemini:a"),
      .load 1, .writeTmp 1, .rename 1] = some s ∧ NoneLost ⟨none, none⟩ s := by
  refine ⟨_, rfl, last_kept_of_undisturbed id ⟨none, none⟩
    [.begin_ 0 (.put "gemini:a" 1), .load 0, .writeTmp 0, .rename 0, .begin_ 1 (.delete "gemini:a"),
      .load 1, .writeTmp 1, .rename 1] ?_ _ rfl⟩
  iterate 3 refine .cons trivial rfl ?_
  refine .cons ?_ rfl ?_
  · intro op map hpc
    cases hpc
    refine ⟨rfl, fun now hnow id _ => ?_⟩
    cases hnow
    rfl
  iterate 3 refine .cons trivial rfl ?_
  refine .cons ?_ rfl trivial
  intro op map hpc
  cases hpc
  refine ⟨rfl, fun now hnow id _ => ?_⟩
  cases hnow
  rfl

end AnyConverter.SecretStore
