import Mathlib.Logic.Function.Basic
import AnyConverter.Lib.Runs

/-!
# The plugin auth store

Processes keep the credentials of plugins in one file, and change it inside a critical section that
a lock file guards.  A lock file that is older than `staleAfter` counts as abandoned, and so does one
whose age cannot be read.

* `Inv.step`: what every file-system step keeps, when a lock file that is removed as abandoned is the
  one that was looked at;
* `kept_of_undisturbed`: so one critical section runs at a time, and no change is lost;
* `released_lock_taken`: without that condition, it is not so.
-/

set_option autoImplicit false

namespace AnyConverter.PluginAuth

open Runs

variable {Auth : Type}

/-! ## The store and its lock -/

abbrev Store (Auth : Type) := String → Option Auth

/-- What a process does inside its critical section: `set`, `remove`, or something of the caller's. -/
inductive Op (Auth : Type) where
  | set (accountKey : String) (auth : Auth)
  | remove (accountKey : String)
  | other

/-- What a section saves, when it saves anything. -/
def Op.saves (store : Store Auth) : Op Auth → Option (Store Auth)
  | .set accountKey auth => some (Function.update store accountKey (some auth))
  | .remove accountKey =>
    if (store accountKey).isSome then some (Function.update store accountKey none) else none
  | .other => none

def Op.apply (store : Store Auth) (op : Op Auth) : Store Auth := (op.saves store).getD store

structure LockFile where
  id : Nat
  modified : Nat
  deriving DecidableEq, Repr

/-- Where a process stands. -/
inductive Pc (Auth : Type) where
  | idle
  | acquiring (op : Op Auth)
  /-- the lock file is there already -/
  | sawLock (op : Op Auth)
  /-- the lock file counts as abandoned; `none` where its age could not be read -/
  | takingOver (op : Op Auth) (seen : Option LockFile)
  | entered (op : Op Auth) (own : LockFile)
  | loaded (op : Op Auth) (own : LockFile) (map : Store Auth)
  | leaving (own : LockFile)

structure State (Auth : Type) where
  now : Nat
  lock : Option LockFile
  nextId : Nat
  store : Store Auth
  /-- the sections that came to their end, in order -/
  log : List (Op Auth)
  pc : Nat → Pc Auth

/-- A step of one process; or time passes. -/
inductive Act (Auth : Type) where
  | wait (n : Nat)
  | begin_ (p : Nat) (op : Op Auth)
  | create (p : Nat)
  | metadata (p : Nat)
  | removeStale (p : Nat)
  | load (p : Nat)
  | save (p : Nat)
  /-- loading or saving fails -/
  | fail (p : Nat)
  | release (p : Nat)
  /-- the process ends inside its section -/
  | crash (p : Nat)

def State.goto (s : State Auth) (p : Nat) (pc : Pc Auth) : State Auth :=
  { s with pc := Function.update s.pc p pc }

/-- The lock file of a process that is inside its critical section. -/
def Pc.own : Pc Auth → Option LockFile
  | .entered _ own | .loaded _ own _ | .leaving own => some own
  | _ => none

/-- `PluginAuthStore::with_lock` around `set` and `remove`, one file-system step at a time. -/
def step (staleAfter : Nat) (s : State Auth) : Act Auth → Option (State Auth)
  | .wait n => some { s with now := s.now + n }
  | .begin_ p op =>
    match s.pc p with
    | .idle => some (s.goto p (.acquiring op))
    | _ => none
  | .create p =>
    match s.pc p, s.lock with
    | .acquiring op, none =>
      let own : LockFile := ⟨s.nextId, s.now⟩
      some ({ s with lock := some own, nextId := s.nextId + 1 }.goto p (.entered op own))
    | .acquiring op, some _ => some (s.goto p (.sawLock op))
    | _, _ => none
  | .metadata p =>
    match s.pc p, s.lock with
    | .sawLock op, some f =>
      some (s.goto p (if f.modified + staleAfter < s.now then .takingOver op (some f)
        else .acquiring op))
    -- the lock has just been released
    | .sawLock op, none => some (s.goto p (.takingOver op none))
    | _, _ => none
  | .removeStale p =>
    match s.pc p with
    | .takingOver op _ => some ({ s with lock := none }.goto p (.acquiring op))
    | _ => none
  | .load p =>
    match s.pc p with
    | .entered op own => some (s.goto p (.loaded op own s.store))
    | _ => none
  | .save p =>
    match s.pc p with
    | .loaded op own map =>
      some ({ s with store := (op.saves map).getD s.store, log := s.log ++ [op] }.goto p
        (.leaving own))
    | _ => none
  | .fail p =>
    match s.pc p with
    | .entered _ own | .loaded _ own _ => some (s.goto p (.leaving own))
    | _ => none
  | .release p =>
    match s.pc p with
    | .leaving _ => some ({ s with lock := none }.goto p .idle)
    | _ => none
  | .crash p =>
    match (s.pc p).own with
    | some _ => some (s.goto p .idle)
    | none => none

/-- Any store, any lock file or none, and nobody at it. -/
def start (now : Nat) (lock : Option Nat) (store : Store Auth) : State Auth :=
  ⟨now, lock.map fun modified => ⟨0, modified⟩, 1, store, [], fun _ => .idle⟩

/-! ## What the lock promises -/

/-- One critical section runs at a time. -/
def OneInside (s : State Auth) : Prop :=
  ∀ p q f g, (s.pc p).own = some f → (s.pc q).own = some g → p = q

/-- What was stored at first, and the sections that came to their end one after another. -/
def NoneLost (store : Store Auth) (s : State Auth) : Prop := s.store = s.log.foldl Op.apply store

/-- A takeover removes the lock file of nobody who is inside. -/
def RemovesRightly (s : State Auth) : Act Auth → Prop
  | .removeStale p => ∀ op seen q f, s.pc p = .takingOver op seen → (s.pc q).own = some f →
    s.lock ≠ some f
  | _ => True

/-- Every critical section is shorter than `staleAfter`. -/
def ShortSections (staleAfter : Nat) (s : State Auth) : Act Auth → Prop
  | .wait n => ∀ p own, (s.pc p).own = some own → s.now + n ≤ own.modified + staleAfter
  | _ => True

/-- A lock file that is removed as abandoned is the one that was looked at, or there is none. -/
def Undisturbed (s : State Auth) : Act Auth → Prop
  | .removeStale p => ∀ op seen, s.pc p = .takingOver op seen → s.lock = none ∨ s.lock = seen
  | _ => True

/-! ## The invariant -/

/-- What holds of one process. -/
structure Good (staleAfter : Nat) (s : State Auth) (pc : Pc Auth) : Prop where
  inside : ∀ own, pc.own = some own → s.lock = some own ∧ s.now ≤ own.modified + staleAfter
  loaded : ∀ op own map, pc = .loaded op own map → map = s.store
  seen : ∀ op f, pc = .takingOver op (some f) → f.modified + staleAfter < s.now

/-- What every step keeps. -/
structure Inv (staleAfter : Nat) (store : Store Auth) (s : State Auth) : Prop where
  kept : NoneLost store s
  oneInside : OneInside s
  good : ∀ p, Good staleAfter s (s.pc p)

theorem Inv.start (staleAfter now : Nat) (lock : Option Nat) (store : Store Auth) :
    Inv staleAfter store (start now lock store) where
  kept := rfl
  oneInside p q f g h := by cases h
  good p := {
    inside := fun own h => by cases h
    loaded := fun op own map h => by cases h
    seen := fun op f h => by cases h }

section
variable {staleAfter : Nat} {store : Store Auth} {s s' : State Auth} {p : Nat}

/-- A process that is not inside, and is not about to take the lock over. -/
theorem Good.away {pc : Pc Auth} (hown : pc.own = none)
    (hseen : ∀ op f, pc ≠ .takingOver op (some f)) : Good staleAfter s pc where
  inside own h := by rw [hown] at h; cases h
  loaded op own map h := by rw [h] at hown; cases hown
  seen op f h := absurd h (hseen op f)

theorem Good.stay {pc : Pc Auth} (h : Good staleAfter s pc) (hlock : s'.lock = s.lock)
    (hnow : s'.now = s.now) (hstore : s'.store = s.store) : Good staleAfter s' pc where
  inside own hown := by rw [hlock, hnow]; exact h.inside own hown
  loaded op own map hpc := by rw [hstore]; exact h.loaded op own map hpc
  seen op f hpc := by rw [hnow]; exact h.seen op f hpc

/-- A process that is not inside stays good, whatever the lock and the store do. -/
theorem Good.outside {pc : Pc Auth} (h : Good staleAfter s pc) (hown : pc.own = none)
    (hnow : s'.now = s.now) : Good staleAfter s' pc where
  inside own hpc := by rw [hown] at hpc; cases hpc
  loaded op own map hpc := by rw [hpc] at hown; cases hown
  seen op f hpc := by rw [hnow]; exact h.seen op f hpc

variable (s' p) in
/-- One process moves on. -/
theorem Inv.goto (h : Inv staleAfter store s) {pc : Pc Auth} (hpcs : s'.pc = s.pc)
    (hkept : NoneLost store s')
    (hone : ∀ own, pc.own = some own → ∀ q, q ≠ p → (s.pc q).own = none)
    (hgood : Good staleAfter s' pc) (hothers : ∀ q, q ≠ p → Good staleAfter s' (s.pc q)) :
    Inv staleAfter store (s'.goto p pc) where
  kept := hkept
  oneInside q r f g hq hr := by
    simp only [State.goto, hpcs] at hq hr
    by_cases hqp : q = p
    · by_cases hrp : r = p
      · exact hqp.trans hrp.symm
      · subst hqp
        rw [Function.update_self] at hq
        rw [Function.update_of_ne hrp, hone f hq r hrp] at hr
        cases hr
    · rw [Function.update_of_ne hqp] at hq
      by_cases hrp : r = p
      · subst hrp
        rw [Function.update_self] at hr
        rw [hone g hr q hqp] at hq
        cases hq
      · rw [Function.update_of_ne hrp] at hr
        exact h.oneInside q r f g hq hr
  good := by
    refine (Function.forall_update_iff s'.pc fun _ pc => Good staleAfter (s'.goto p _) pc).mpr ?_
    refine ⟨hgood.stay rfl rfl rfl, fun q hq => ?_⟩
    rw [hpcs]
    exact (hothers q hq).stay rfl rfl rfl

/-- A process that moves on while nothing changes. -/
theorem Inv.move (h : Inv staleAfter store s) {pc : Pc Auth}
    (hown : ∀ own, pc.own = some own → ∃ f, (s.pc p).own = some f)
    (hgood : Good staleAfter s pc) : Inv staleAfter store (s.goto p pc) := by
  refine h.goto _ p rfl h.kept ?_ hgood fun q _ => h.good q
  intro own hpc q hq
  obtain ⟨f, hf⟩ := hown own hpc
  by_contra hsome
  obtain ⟨g, hg⟩ := Option.ne_none_iff_exists'.mp hsome
  exact hq (h.oneInside q p g f hg hf)

/-- While one process is inside, the others are not. -/
theorem Inv.others_out (h : Inv staleAfter store s) {own : LockFile} (hp : (s.pc p).own = some own)
    (q : Nat) (hq : q ≠ p) : (s.pc q).own = none := by
  by_contra hsome
  obtain ⟨g, hg⟩ := Option.ne_none_iff_exists'.mp hsome
  exact hq (h.oneInside q p g own hg hp)

/-- Without a lock file nobody is inside. -/
theorem Inv.nobody (h : Inv staleAfter store s) (hlock : s.lock = none) (q : Nat) :
    (s.pc q).own = none := by
  by_contra hsome
  obtain ⟨g, hg⟩ := Option.ne_none_iff_exists'.mp hsome
  have hat := ((h.good q).inside g hg).1
  rw [hlock] at hat
  cases hat

/-- A lock file that is removed as abandoned is that of nobody inside. -/
theorem Inv.abandoned (h : Inv staleAfter store s) {op : Op Auth} {seen : Option LockFile}
    (hpc : s.pc p = .takingOver op seen) (hlock : s.lock = none ∨ s.lock = seen) (q : Nat) :
    (s.pc q).own = none := by
  cases hseen : s.lock with
  | none => exact h.nobody hseen q
  | some f =>
    have hf : seen = some f := by
      rcases hlock with hnone | hsame
      · rw [hnone] at hseen
        cases hseen
      · exact hsame.symm.trans hseen
    subst hf
    by_contra hsome
    obtain ⟨g, hg⟩ := Option.ne_none_iff_exists'.mp hsome
    obtain ⟨hat, hyoung⟩ := (h.good q).inside g hg
    rw [hseen] at hat
    cases hat
    have hstale := (h.good p).seen op _ hpc
    omega

/-- **What a step keeps**, when sections are short and nobody disturbs a takeover. -/
theorem Inv.step {a : Act Auth} (h : Inv staleAfter store s) (hshort : ShortSections staleAfter s a)
    (hundisturbed : Undisturbed s a) (hstep : step staleAfter s a = some s') :
    Inv staleAfter store s' := by
  cases a with
  | wait n =>
    cases hstep
    refine ⟨h.kept, h.oneInside, fun q => ?_⟩
    exact {
      inside := fun own hown => ⟨((h.good q).inside own hown).1, hshort q own hown⟩
      loaded := (h.good q).loaded
      seen := fun op f hpc => Nat.lt_of_lt_of_le ((h.good q).seen op f hpc) (Nat.le_add_right _ _) }
  | begin_ p op =>
    simp only [PluginAuth.step] at hstep
    split at hstep
    · cases hstep
      exact h.move (fun own hown => by cases hown) (.away rfl fun _ _ hpc => by cases hpc)
    · cases hstep
  | create p =>
    simp only [PluginAuth.step] at hstep
    split at hstep
    · rename_i op hpc hlock
      cases hstep
      refine h.goto { s with lock := _, nextId := _ } p rfl h.kept ?_ ?_ ?_
      · exact fun own _ q _ => h.nobody hlock q
      · exact {
          inside := fun own hown => by cases hown; exact ⟨rfl, Nat.le_add_right _ _⟩
          loaded := fun op own map hpc => by cases hpc
          seen := fun op f hpc => by cases hpc }
      · exact fun q _ => (h.good q).outside (h.nobody hlock q) rfl
    · cases hstep
      exact h.move (fun own hown => by cases hown) (.away rfl fun _ _ hpc => by cases hpc)
    · cases hstep
  | metadata p =>
    simp only [PluginAuth.step] at hstep
    split at hstep
    · rename_i op f hpc hlock
      cases hstep
      by_cases hstale : f.modified + staleAfter < s.now
      · rw [if_pos hstale]
        refine h.move (fun own hown => by cases hown) ?_
        exact {
          inside := fun own hown => by cases hown
          loaded := fun op own map hpc => by cases hpc
          seen := fun op g hpc => by cases hpc; exact hstale }
      · rw [if_neg hstale]
        exact h.move (fun own hown => by cases hown) (.away rfl fun _ _ hpc => by cases hpc)
    · cases hstep
      exact h.move (fun own hown => by cases hown) (.away rfl fun _ _ hpc => by cases hpc)
    · cases hstep
  | removeStale p =>
    simp only [PluginAuth.step] at hstep
    split at hstep
    · rename_i op seen hpc
      cases hstep
      have hout := h.abandoned hpc (hundisturbed op seen hpc)
      refine h.goto { s with lock := none } p rfl h.kept ?_ ?_ ?_
      · exact fun own _ q _ => hout q
      · exact .away rfl fun _ _ hpc => by cases hpc
      · exact fun q _ => (h.good q).outside (hout q) rfl
    · cases hstep
  | load p =>
    simp only [PluginAuth.step] at hstep
    split at hstep
    · rename_i op own hpc
      cases hstep
      have hown : (s.pc p).own = some own := by rw [hpc]; rfl
      refine h.move (fun _ _ => ⟨own, hown⟩) ?_
      exact {
        inside := fun f hf => by cases hf; exact (h.good p).inside own hown
        loaded := fun op own map hpc => by cases hpc; rfl
        seen := fun op f hpc => by cases hpc }
    · cases hstep
  | save p =>
    simp only [PluginAuth.step] at hstep
    split at hstep
    · rename_i op own map hpc
      cases hstep
      have hown : (s.pc p).own = some own := by rw [hpc]; rfl
      have hmap : map = s.store := (h.good p).loaded op own map hpc
      refine h.goto { s with store := _, log := _ } p rfl ?_ ?_ ?_ ?_
      · have hkept : s.store = s.log.foldl Op.apply store := h.kept
        unfold NoneLost
        rw [List.foldl_append, ← hkept, hmap]
        rfl
      · exact fun _ _ q hq => h.others_out hown q hq
      · exact {
          inside := fun f hf => by cases hf; exact (h.good p).inside own hown
          loaded := fun op own map hpc => by cases hpc
          seen := fun op f hpc => by cases hpc }
      · exact fun q hq => (h.good q).outside (h.others_out hown q hq) rfl
    · cases hstep
  | fail p =>
    have hleaves : ∀ own, (s.pc p).own = some own → Inv staleAfter store (s.goto p (.leaving own)) := by
      intro own hown
      refine h.move (fun _ _ => ⟨own, hown⟩) ?_
      exact {
        inside := fun f hf => by cases hf; exact (h.good p).inside own hown
        loaded := fun op own map hpc => by cases hpc
        seen := fun op f hpc => by cases hpc }
    simp only [PluginAuth.step] at hstep
    split at hstep
    · rename_i own hpc
      cases hstep
      exact hleaves own (by rw [hpc]; rfl)
    · rename_i own map hpc
      cases hstep
      exact hleaves own (by rw [hpc]; rfl)
    · cases hstep
  | release p =>
    simp only [PluginAuth.step] at hstep
    split at hstep
    · rename_i own hpc
      cases hstep
      have hown : (s.pc p).own = some own := by rw [hpc]; rfl
      refine h.goto { s with lock := none } p rfl h.kept ?_ ?_ ?_
      · exact fun _ _ q hq => h.others_out hown q hq
      · exact .away rfl fun _ _ hpc => by cases hpc
      · exact fun q hq => (h.good q).outside (h.others_out hown q hq) rfl
    · cases hstep
  | crash p =>
    simp only [PluginAuth.step] at hstep
    split at hstep
    · cases hstep
      exact h.move (fun own hown => by cases hown) (.away rfl fun _ _ hpc => by cases hpc)
    · cases hstep

/-- What the invariant says of the next step. -/
theorem Inv.removesRightly {a : Act Auth} (h : Inv staleAfter store s)
    (hundisturbed : Undisturbed s a) : RemovesRightly s a := by
  cases a with
  | removeStale p =>
    intro op seen q f hpc hq
    rw [h.abandoned hpc (hundisturbed op seen hpc) q] at hq
    cases hq
  | _ => trivial

end

/-! ## Runs -/

/-- **No change is lost**: in every run with short sections whose takeovers nobody disturbs, one
section runs at a time, the store is what the sections made of it one after another, and no takeover
removes the lock of somebody inside. -/
theorem kept_of_undisturbed (staleAfter now : Nat) (lock : Option Nat) (store : Store Auth)
    (acts : List (Act Auth))
    (hmeets : Meets (step staleAfter) (fun s a => ShortSections staleAfter s a ∧ Undisturbed s a)
      (start now lock store) acts) :
    (∀ s, run (step staleAfter) (start now lock store) acts = some s →
        OneInside s ∧ NoneLost store s) ∧
      Meets (step staleAfter) RemovesRightly (start now lock store) acts := by
  have hstart := Inv.start staleAfter now lock store
  have hkeeps : ∀ s a s', Inv staleAfter store s → ShortSections staleAfter s a ∧ Undisturbed s a →
      step staleAfter s a = some s' → Inv staleAfter store s' :=
    fun s a s' h hcond hs => h.step hcond.1 hcond.2 hs
  refine ⟨fun s hrun => ?_, ?_⟩
  · have hinv := invariant hkeeps hstart hmeets hrun
    exact ⟨hinv.oneInside, hinv.kept⟩
  · exact hmeets.of_invariant hkeeps (fun s a h hcond => h.removesRightly hcond.2) hstart

/-- The first process releases its lock while the second looks at it; a third enters before the
second removes what it takes for an abandoned lock file, and both change what they have loaded. -/
def lockTaken : List (Act Unit) :=
  [.begin_ 0 .other, .create 0, .begin_ 1 (.set "github:a" ()), .create 1, .load 0, .save 0,
    .release 0, .metadata 1, .begin_ 2 (.set "github:b" ()), .create 2, .removeStale 1, .create 1,
    .load 1, .load 2, .save 2, .save 1]

/-- Both are inside, and one change is lost. -/
theorem released_lock_taken : ¬∀ (staleAfter now : Nat) (lock : Option Nat) (store : Store Unit)
    (acts : List (Act Unit)),
    Meets (step staleAfter) (ShortSections staleAfter) (start now lock store) acts →
    (∀ s, run (step staleAfter) (start now lock store) acts = some s →
        OneInside s ∧ NoneLost store s) ∧
      Meets (step staleAfter) RemovesRightly (start now lock store) acts := by
  intro h
  have hshort : Meets (step 60) (ShortSections 60) (start 0 none fun _ => none) lockTaken := by
    iterate 16 refine .cons trivial rfl ?_
    trivial
  have hboth : ∃ s, run (step 60) (start 0 none fun _ => none) lockTaken = some s ∧
      (s.pc 1).own = some ⟨3, 0⟩ ∧ (s.pc 2).own = some ⟨2, 0⟩ := ⟨_, rfl, rfl, rfl⟩
  obtain ⟨s, hrun, h1, h2⟩ := hboth
  exact absurd (((h 60 0 none _ lockTaken hshort).1 s hrun).1 1 2 _ _ h1 h2) (by decide)

/-- A takeover of an abandoned lock that nobody disturbs. -/
theorem kept_of_takeover :
    (∀ s, run (step 60) (start 61 (some 0) fun _ : String => (none : Option Unit))
        [.begin_ 0 (.set "github:a" ()), .create 0, .metadata 0, .removeStale 0, .create 0, .load 0,
          .save 0, .release 0] = some s → OneInside s ∧ NoneLost (fun _ => none) s) ∧
      Meets (step 60) RemovesRightly (start 61 (some 0) fun _ : String => (none : Option Unit))
        [.begin_ 0 (.set "github:a" ()), .create 0, .metadata 0, .removeStale 0, .create 0, .load 0,
          .save 0, .release 0] := by
  apply kept_of_undisturbed
  iterate 3 refine .cons ⟨trivial, trivial⟩ rfl ?_
  refine .cons ⟨trivial, ?_⟩ rfl ?_
  · intro op seen hpc
    cases hpc
    exact Or.inr rfl
  · iterate 4 refine .cons ⟨trivial, trivial⟩ rfl ?_
    trivial

end AnyConverter.PluginAuth
