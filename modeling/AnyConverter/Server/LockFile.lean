import Mathlib.Logic.Function.Basic
import AnyConverter.Lib.Runs

/-!
# The lock file

Processes that agree on a path create a lock file there, write their payload into it and remove it
when they are done; a file that is older than `staleAfter` counts as abandoned and is taken over.

* `Inv.step`: what every file-system step keeps, when the file it acts on is the one it looked at;
* `locked_of_undisturbed`: so at most one guard is young at a time, no fresh lock is taken over, and
  no guard removes the file of another;
* `takeover_removes_fresh`: without that condition, it is not so.
-/

set_option autoImplicit false

namespace AnyConverter.FileLock

open Runs

/-! ## The file and its contenders -/

/-- What a holder writes into the file: its process and the time. -/
structure Payload where
  pid : Nat
  at_ : Nat
  deriving DecidableEq, Repr

/-- A file, which stays itself while it is written to; `none` where it holds no payload. -/
structure File where
  id : Nat
  modified : Nat
  contents : Option Payload
  deriving DecidableEq, Repr

/-- Where a contender stands. -/
inductive Pc where
  | idle
  | created (own : File)
  /-- the payload could not be written -/
  | unwritten (own : File)
  /-- the lock file is there already -/
  | exists_
  | takingOver (seen : File)
  /-- the guard is alive -/
  | holding (own : File)
  /-- the guard is dropped, and has found its payload in a file -/
  | dropping (own seen : File)
  deriving DecidableEq, Repr

structure State where
  now : Nat
  file : Option File
  nextId : Nat
  pc : Nat → Pc

/-- A step of one contender; or time passes. -/
inductive Act where
  | wait (n : Nat)
  | create (p : Nat)
  | write (p : Nat)
  | failWrite (p : Nat)
  | removeUnwritten (p : Nat)
  | metadata (p : Nat)
  | removeStale (p : Nat)
  | readBack (p : Nat)
  | removeOwn (p : Nat)
  deriving DecidableEq, Repr

def State.goto (s : State) (p : Nat) (pc : Pc) : State := { s with pc := Function.update s.pc p pc }

section
variable (staleAfter : Nat) (pid : Nat → Nat)

def isStale (now : Nat) (f : File) : Bool := f.modified + staleAfter < now

/-- `FileLock::try_acquire` and `FileLockGuard::drop`, one file-system step at a time. -/
def step (s : State) : Act → Option State
  | .wait n => some { s with now := s.now + n }
  | .create p =>
    match s.pc p, s.file with
    | .idle, none =>
      let own : File := ⟨s.nextId, s.now, none⟩
      some ({ s with file := some own, nextId := s.nextId + 1 }.goto p (.created own))
    | .idle, some _ => some (s.goto p .exists_)
    | _, _ => none
  | .write p =>
    match s.pc p with
    | .created own =>
      let written : File := ⟨own.id, s.now, some ⟨pid p, s.now⟩⟩
      -- the file may no longer be the one at the path
      let file := if s.file.map File.id = some own.id then some written else s.file
      some ({ s with file := file }.goto p (.holding written))
    | _ => none
  | .failWrite p =>
    match s.pc p with
    | .created own => some (s.goto p (.unwritten own))
    | _ => none
  | .removeUnwritten p =>
    match s.pc p with
    | .unwritten _ => some ({ s with file := none }.goto p .idle)
    | _ => none
  | .metadata p =>
    match s.pc p with
    | .exists_ =>
      match s.file with
      | some f => some (s.goto p (if isStale staleAfter s.now f then .takingOver f else .idle))
      | none => some (s.goto p .idle)
    | _ => none
  | .removeStale p =>
    match s.pc p with
    | .takingOver _ => some ({ s with file := none }.goto p .idle)
    | _ => none
  | .readBack p =>
    match s.pc p with
    | .holding own =>
      match s.file with
      | some f => some (s.goto p (if f.contents = own.contents then .dropping own f else .idle))
      | none => some (s.goto p .idle)
    | _ => none
  | .removeOwn p =>
    match s.pc p with
    | .dropping _ _ => some ({ s with file := none }.goto p .idle)
    | _ => none

/-- Any lock file, or none, and nobody at it. -/
def start (now : Nat) (file : Option (Nat × Option Payload)) : State :=
  ⟨now, file.map fun f => ⟨0, f.1, f.2⟩, 1, fun _ => .idle⟩

/-! ## What a lock file promises -/

/-- A live guard that is not older than `staleAfter`. -/
def Young (s : State) (p : Nat) : Prop :=
  ∃ own, s.pc p = .holding own ∧ s.now ≤ own.modified + staleAfter

def AtMostOne (s : State) : Prop := ∀ p q, Young staleAfter s p → Young staleAfter s q → p = q

/-- A takeover removes no fresh lock, and a guard removes no file of another. -/
def RemovesRightly (s : State) : Act → Prop
  | .removeStale p => ∀ seen f, s.pc p = .takingOver seen → s.file = some f →
    isStale staleAfter s.now f = true
  | .removeOwn p => ∀ own seen f, s.pc p = .dropping own seen → s.file = some f → f.id = own.id
  | _ => True

/-- Nobody has touched the file since the contender looked at it. -/
def Undisturbed (s : State) : Act → Prop
  | .write p => ∀ own, s.pc p = .created own → s.file = some own
  | .removeUnwritten p => ∀ own, s.pc p = .unwritten own → s.file = none ∨ s.file = some own
  | .removeStale p => ∀ seen, s.pc p = .takingOver seen → s.file = none ∨ s.file = some seen
  | .removeOwn p => ∀ own seen, s.pc p = .dropping own seen → s.file = none ∨ s.file = some seen
  | _ => True

/-! ## The invariant -/

/-- The file a contender made. -/
def Pc.own : Pc → Option File
  | .created own | .unwritten own | .holding own | .dropping own _ => some own
  | _ => none

/-- What holds of one contender. -/
structure Good (s : State) (p : Nat) (pc : Pc) : Prop where
  own_lt : ∀ own, pc.own = some own → own.id < s.nextId
  /-- a guard's own file is at the path, or the guard is old -/
  held : ∀ own, pc = .holding own → s.file = some own ∨ own.modified + staleAfter < s.now
  payload : ∀ own, pc = .holding own → own.contents = some ⟨pid p, own.modified⟩
  /-- another file is younger than the guard ever was -/
  newer : ∀ own f, pc = .holding own → s.file = some f → f.id ≠ own.id →
    own.modified + staleAfter < f.modified ∧ ∀ w, f.contents = some w → w.at_ = f.modified
  seen_stale : ∀ seen, pc = .takingOver seen → seen.modified + staleAfter < s.now
  seen_own : ∀ own seen, pc = .dropping own seen → seen.id = own.id

/-- What every step keeps. -/
structure Inv (s : State) : Prop where
  file_lt : ∀ f, s.file = some f → f.id < s.nextId
  own_inj : ∀ p q f g, (s.pc p).own = some f → (s.pc q).own = some g → f.id = g.id → p = q
  good : ∀ p, Good staleAfter pid s p (s.pc p)

theorem Inv.start (now : Nat) (file : Option (Nat × Option Payload)) :
    Inv staleAfter pid (start now file) where
  file_lt f hf := by
    cases file with
    | none => cases hf
    | some g =>
      cases hf
      exact Nat.one_pos
  own_inj p q f g h := by cases h
  good p := {
    own_lt := fun own h => by cases h
    held := fun own h => by cases h
    payload := fun own h => by cases h
    newer := fun own f h => by cases h
    seen_stale := fun seen h => by cases h
    seen_own := fun own seen h => by cases h }

end

section
variable {staleAfter : Nat} {pid : Nat → Nat} {s s' : State} {p : Nat}

/-- A contender that does nothing while the file changes. -/
theorem Good.change {pc : Pc} (h : Good staleAfter pid s p pc) (hnow : s.now ≤ s'.now)
    (hid : s.nextId ≤ s'.nextId)
    (hheld : ∀ own, pc = .holding own → s'.file = some own ∨ own.modified + staleAfter < s'.now)
    (hnewer : ∀ own f, pc = .holding own → s'.file = some f → f.id ≠ own.id →
      own.modified + staleAfter < f.modified ∧ ∀ w, f.contents = some w → w.at_ = f.modified) :
    Good staleAfter pid s' p pc where
  own_lt own hown := Nat.lt_of_lt_of_le (h.own_lt own hown) hid
  held := hheld
  payload := h.payload
  newer := hnewer
  seen_stale seen hpc := Nat.lt_of_lt_of_le (h.seen_stale seen hpc) hnow
  seen_own := h.seen_own

/-- A contender that does nothing while the file stays. -/
theorem Good.stay {pc : Pc} (h : Good staleAfter pid s p pc) (hnow : s.now ≤ s'.now)
    (hid : s.nextId ≤ s'.nextId) (hfile : s'.file = s.file) : Good staleAfter pid s' p pc := by
  refine h.change hnow hid ?_ ?_
  · intro own hpc
    rw [hfile]
    rcases h.held own hpc with hat | hold
    · exact Or.inl hat
    · exact Or.inr (Nat.lt_of_lt_of_le hold hnow)
  · intro own f hpc hf
    exact h.newer own f hpc (hfile ▸ hf)

/-- A contender whose file is removed is old, when what is removed is not its own young file. -/
theorem Good.removed {pc : Pc} (h : Good staleAfter pid s p pc)
    (hold : ∀ own, pc = .holding own → s.file = some own → own.modified + staleAfter < s.now) :
    Good staleAfter pid { s with file := none } p pc := by
  refine h.change (Nat.le_refl _) (Nat.le_refl _) ?_ ?_
  · intro own hpc
    rcases h.held own hpc with hat | hold'
    · exact Or.inr (hold own hpc hat)
    · exact Or.inr hold'
  · intro own f _ hf
    cases hf

/-- A contender that is nowhere near the file. -/
theorem Good.away {pc : Pc} (hpc : pc = .idle ∨ pc = .exists_) : Good staleAfter pid s p pc := by
  rcases hpc with rfl | rfl <;> exact {
    own_lt := fun own h => by cases h
    held := fun own h => by cases h
    payload := fun own h => by cases h
    newer := fun own f h => by cases h
    seen_stale := fun seen h => by cases h
    seen_own := fun own seen h => by cases h }

variable (s' p) in
/-- One contender moves on with no new file of its own. -/
theorem Inv.goto (h : Inv staleAfter pid s) {pc : Pc}
    (hown : ∀ f, pc.own = some f → ∃ g, (s.pc p).own = some g ∧ f.id = g.id)
    (hfile : ∀ f, s'.file = some f → f.id < s'.nextId) (hpcs : s'.pc = s.pc)
    (hgood : Good staleAfter pid s' p pc)
    (hothers : ∀ q, q ≠ p → Good staleAfter pid s' q (s.pc q)) :
    Inv staleAfter pid (s'.goto p pc) where
  file_lt := hfile
  own_inj q r f g hq hr hid := by
    have hold : ∀ q f, (Function.update s'.pc p pc q).own = some f →
        ∃ f', (s.pc q).own = some f' ∧ f.id = f'.id := by
      intro q f hq
      by_cases hqp : q = p
      · subst hqp
        rw [Function.update_self] at hq
        exact hown f hq
      · rw [Function.update_of_ne hqp, hpcs] at hq
        exact ⟨f, hq, rfl⟩
    obtain ⟨f', hf', hidf⟩ := hold q f hq
    obtain ⟨g', hg', hidg⟩ := hold r g hr
    exact h.own_inj q r f' g' hf' hg' (by rw [← hidf, ← hidg, hid])
  good := by
    refine (Function.forall_update_iff s'.pc fun q pc => Good staleAfter pid (s'.goto p _) q pc).mpr ?_
    refine ⟨hgood.stay (Nat.le_refl _) (Nat.le_refl _) rfl, fun q hq => ?_⟩
    rw [hpcs]
    exact (hothers q hq).stay (Nat.le_refl _) (Nat.le_refl _) rfl

theorem isStale_iff {now : Nat} {f : File} :
    isStale staleAfter now f = true ↔ f.modified + staleAfter < now := decide_eq_true_iff

/-- The removal of a file that is nobody's young file. -/
theorem Inv.remove (h : Inv staleAfter pid s)
    (hold : ∀ q own, q ≠ p → s.pc q = .holding own → s.file = some own →
      own.modified + staleAfter < s.now) :
    Inv staleAfter pid ({ s with file := none }.goto p .idle) := by
  refine h.goto _ p ?_ ?_ rfl (.away (Or.inl rfl)) ?_
  · intro f hf
    cases hf
  · intro f hf
    cases hf
  · exact fun q hq => (h.good q).removed fun own hpc hat => hold q own hq hpc hat

/-- A contender that goes away, or to look, while the file stays. -/
theorem Inv.leave (h : Inv staleAfter pid s) {pc : Pc} (hpc : pc = .idle ∨ pc = .exists_) :
    Inv staleAfter pid (s.goto p pc) := by
  refine h.goto _ p ?_ h.file_lt rfl (.away hpc) fun q _ => h.good q
  intro f hf
  rcases hpc with rfl | rfl <;> cases hf

/-- The file at the path is not the young file of another than the one who made it. -/
theorem Inv.not_own (h : Inv staleAfter pid s) {q : Nat} {own mine : File}
    (hp : (s.pc p).own = some mine) (hq : q ≠ p) (hpc : s.pc q = .holding own) :
    own.id ≠ mine.id := by
  intro hid
  exact hq (h.own_inj q p own mine (by rw [hpc]; rfl) hp hid)

/-- A new lock file. -/
theorem Inv.create (h : Inv staleAfter pid s) (hfile : s.file = none) :
    Inv staleAfter pid ({ s with file := some ⟨s.nextId, s.now, none⟩, nextId := s.nextId + 1 }.goto p
      (.created ⟨s.nextId, s.now, none⟩)) where
  file_lt f hf := by
    cases hf
    exact Nat.lt_succ_self _
  own_inj q r f g hq hr hid := by
    -- the new file is none of those there are
    have hother : ∀ q f, q ≠ p → (s.pc q).own = some f → f.id ≠ s.nextId := by
      intro q f hq hf
      exact Nat.ne_of_lt ((h.good q).own_lt f hf)
    simp only [State.goto] at hq hr
    by_cases hqp : q = p
    · by_cases hrp : r = p
      · exact hqp.trans hrp.symm
      · subst hqp
        rw [Function.update_self] at hq
        rw [Function.update_of_ne hrp] at hr
        cases hq
        exact absurd hid.symm (hother r g hrp hr)
    · rw [Function.update_of_ne hqp] at hq
      by_cases hrp : r = p
      · subst hrp
        rw [Function.update_self] at hr
        cases hr
        exact absurd hid (hother q f hqp hq)
      · rw [Function.update_of_ne hrp] at hr
        exact h.own_inj q r f g hq hr hid
  good := by
    refine (Function.forall_update_iff s.pc fun q pc => Good staleAfter pid (State.goto _ p _) q pc).mpr
      ⟨?_, fun q hq => ?_⟩
    · exact {
        own_lt := fun f hf => by cases hf; exact Nat.lt_succ_self _
        held := fun f hf => by cases hf
        payload := fun f hf => by cases hf
        newer := fun f g hf => by cases hf
        seen_stale := fun seen hf => by cases hf
        seen_own := fun f seen hf => by cases hf }
    · -- without a file at the path every guard is old
      have hold : ∀ f, s.pc q = .holding f → f.modified + staleAfter < s.now := by
        intro f hf
        rcases (h.good q).held f hf with hat | hold
        · rw [hfile] at hat
          cases hat
        · exact hold
      refine (h.good q).change (Nat.le_refl _) (Nat.le_succ _) (fun f hf => Or.inr (hold f hf)) ?_
      intro f g hf hg _
      cases hg
      refine ⟨hold f hf, fun w hw => ?_⟩
      cases hw

/-- **What a step keeps**, when nobody has touched the file since the contender looked at it. -/
theorem Inv.step {a : Act} (h : Inv staleAfter pid s) (hundisturbed : Undisturbed s a)
    (hstep : step staleAfter pid s a = some s') : Inv staleAfter pid s' := by
  cases a with
  | wait n =>
    cases hstep
    exact ⟨h.file_lt, h.own_inj, fun q => (h.good q).stay (Nat.le_add_right _ _) (Nat.le_refl _) rfl⟩
  | create p =>
    simp only [FileLock.step] at hstep
    split at hstep
    · rename_i hpc hfile
      cases hstep
      exact h.create hfile
    · cases hstep
      exact h.leave (Or.inr rfl)
    · cases hstep
  | write p =>
    simp only [FileLock.step] at hstep
    split at hstep
    · rename_i own hpc
      have hat : s.file = some own := hundisturbed own hpc
      rw [hat] at hstep
      simp only [Option.map_some, if_true] at hstep
      cases hstep
      have hown : (s.pc p).own = some own := by rw [hpc]; rfl
      refine h.goto { s with file := _ } p ?_ ?_ rfl ?_ ?_
      · intro f hf
        cases hf
        exact ⟨own, hown, rfl⟩
      · intro f hf
        cases hf
        exact h.file_lt own hat
      · exact {
          own_lt := fun f hf => by cases hf; exact h.file_lt own hat
          held := fun f hf => by cases hf; exact Or.inl rfl
          payload := fun f hf => by cases hf; rfl
          newer := fun f g hf hg hne => by
            cases hf
            cases hg
            exact absurd rfl hne
          seen_stale := fun seen hf => by cases hf
          seen_own := fun f seen hf => by cases hf }
      · intro q hq
        -- a guard whose file is not at the path is old
        have hold : ∀ f, s.pc q = .holding f → f.modified + staleAfter < s.now := by
          intro f hf
          rcases (h.good q).held f hf with hat' | hold
          · rw [hat] at hat'
            cases hat'
            exact absurd rfl (h.not_own hown hq hf)
          · exact hold
        refine (h.good q).change (Nat.le_refl _) (Nat.le_refl _) (fun f hf => Or.inr (hold f hf)) ?_
        intro f g hf hg _
        cases hg
        refine ⟨hold f hf, fun w hw => ?_⟩
        cases hw
        rfl
    · cases hstep
  | failWrite p =>
    simp only [FileLock.step] at hstep
    split at hstep
    · rename_i own hpc
      cases hstep
      have hown : (s.pc p).own = some own := by rw [hpc]; rfl
      refine h.goto _ p ?_ h.file_lt rfl ?_ fun q _ => h.good q
      · intro f hf
        cases hf
        exact ⟨own, hown, rfl⟩
      · exact {
          own_lt := fun f hf => by cases hf; exact (h.good p).own_lt own hown
          held := fun f hf => by cases hf
          payload := fun f hf => by cases hf
          newer := fun f g hf => by cases hf
          seen_stale := fun seen hf => by cases hf
          seen_own := fun f seen hf => by cases hf }
    · cases hstep
  | removeUnwritten p =>
    simp only [FileLock.step] at hstep
    split at hstep
    · rename_i own hpc
      cases hstep
      refine h.remove fun q f hq hf hat => ?_
      rcases hundisturbed own hpc with hnone | hown
      · rw [hnone] at hat
        cases hat
      · rw [hown] at hat
        cases hat
        exact absurd rfl (h.not_own (by rw [hpc]; rfl) hq hf)
    · cases hstep
  | metadata p =>
    simp only [FileLock.step] at hstep
    split at hstep
    · split at hstep
      · rename_i f hat
        cases hstep
        by_cases hstale : isStale staleAfter s.now f = true
        · rw [if_pos hstale]
          refine h.goto _ p ?_ h.file_lt rfl ?_ fun q _ => h.good q
          · intro g hg
            cases hg
          · exact {
              own_lt := fun g hg => by cases hg
              held := fun g hg => by cases hg
              payload := fun g hg => by cases hg
              newer := fun g k hg => by cases hg
              seen_stale := fun g hg => by cases hg; exact isStale_iff.mp hstale
              seen_own := fun g seen hg => by cases hg }
        · rw [if_neg hstale]
          exact h.leave (Or.inl rfl)
      · cases hstep
        exact h.leave (Or.inl rfl)
    · cases hstep
  | removeStale p =>
    simp only [FileLock.step] at hstep
    split at hstep
    · rename_i seen hpc
      cases hstep
      refine h.remove fun q f hq hf hat => ?_
      rcases hundisturbed seen hpc with hnone | hseen
      · rw [hnone] at hat
        cases hat
      · rw [hseen] at hat
        cases hat
        exact (h.good p).seen_stale _ hpc
    · cases hstep
  | readBack p =>
    simp only [FileLock.step] at hstep
    split at hstep
    · rename_i own hpc
      split at hstep
      · rename_i f hat
        cases hstep
        by_cases hsame : f.contents = own.contents
        · rw [if_pos hsame]
          have hown : (s.pc p).own = some own := by rw [hpc]; rfl
          -- a younger file does not hold the guard's payload
          have hid : f.id = own.id := by
            by_contra hne
            obtain ⟨hnewer, hstamp⟩ := (h.good p).newer own f hpc hat hne
            have hw := hstamp _ (hsame.trans ((h.good p).payload own hpc))
            simp only at hw
            omega
          refine h.goto _ p ?_ h.file_lt rfl ?_ fun q _ => h.good q
          · intro g hg
            cases hg
            exact ⟨own, hown, rfl⟩
          · exact {
              own_lt := fun g hg => by cases hg; exact (h.good p).own_lt own hown
              held := fun g hg => by cases hg
              payload := fun g hg => by cases hg
              newer := fun g k hg => by cases hg
              seen_stale := fun g hg => by cases hg
              seen_own := fun g seen hg => by cases hg; exact hid }
        · rw [if_neg hsame]
          exact h.leave (Or.inl rfl)
      · cases hstep
        exact h.leave (Or.inl rfl)
    · cases hstep
  | removeOwn p =>
    simp only [FileLock.step] at hstep
    split at hstep
    · rename_i own seen hpc
      cases hstep
      refine h.remove fun q f hq hf hat => ?_
      rcases hundisturbed own seen hpc with hnone | hseen
      · rw [hnone] at hat
        cases hat
      · rw [hseen] at hat
        cases hat
        have hid := (h.good p).seen_own own _ hpc
        exact absurd hid (h.not_own (by rw [hpc]; rfl) hq hf)
    · cases hstep

/-- What the invariant says of the guards that are alive. -/
theorem Inv.atMostOne (h : Inv staleAfter pid s) : AtMostOne staleAfter s := by
  rintro p q ⟨own, hp, hyoung⟩ ⟨own', hq, hyoung'⟩
  have hat : s.file = some own := ((h.good p).held own hp).resolve_right (by omega)
  have hat' : s.file = some own' := ((h.good q).held own' hq).resolve_right (by omega)
  rw [hat] at hat'
  cases hat'
  exact h.own_inj p q own own (by rw [hp]; rfl) (by rw [hq]; rfl) rfl

/-- What the invariant says of the next step. -/
theorem Inv.removesRightly {a : Act} (h : Inv staleAfter pid s) (hundisturbed : Undisturbed s a) :
    RemovesRightly staleAfter s a := by
  cases a with
  | removeStale p =>
    intro seen f hpc hat
    rcases hundisturbed seen hpc with hnone | hseen
    · rw [hnone] at hat
      cases hat
    · rw [hseen] at hat
      cases hat
      exact isStale_iff.mpr ((h.good p).seen_stale _ hpc)
  | removeOwn p =>
    intro own seen f hpc hat
    rcases hundisturbed own seen hpc with hnone | hseen
    · rw [hnone] at hat
      cases hat
    · rw [hseen] at hat
      cases hat
      exact (h.good p).seen_own own _ hpc
  | _ => trivial

end

/-! ## Runs -/

/-- **The lock locks**: in every run whose contenders act on the file they looked at, from any lock
file, at most one guard is young at a time, no takeover removes a fresh lock, and no guard removes
the file of another. -/
theorem locked_of_undisturbed (staleAfter : Nat) (pid : Nat → Nat) (now : Nat)
    (file : Option (Nat × Option Payload)) (acts : List Act)
    (hundisturbed : Meets (step staleAfter pid) Undisturbed (start now file) acts) :
    (∀ s, run (step staleAfter pid) (start now file) acts = some s → AtMostOne staleAfter s) ∧
      Meets (step staleAfter pid) (RemovesRightly staleAfter) (start now file) acts := by
  have hstart := Inv.start staleAfter pid now file
  have hkeeps : ∀ s a s', Inv staleAfter pid s → Undisturbed s a →
      step staleAfter pid s a = some s' → Inv staleAfter pid s' := fun s a s' h hu hs => h.step hu hs
  refine ⟨fun s hrun => (invariant hkeeps hstart hundisturbed hrun).atMostOne, ?_⟩
  exact hundisturbed.of_invariant hkeeps (fun s a h hu => h.removesRightly hu) hstart

/-- Two contenders find an abandoned lock; the second takes it over and holds it before the first
removes what is there. -/
def takenTwice : List Act :=
  [.create 0, .create 1, .metadata 0, .metadata 1, .removeStale 1, .create 1, .write 1,
    .removeStale 0, .create 0, .write 0]

/-- Both hold the lock. -/
theorem takeover_removes_fresh : ¬∀ (staleAfter : Nat) (pid : Nat → Nat) (now : Nat)
    (file : Option (Nat × Option Payload)) (acts : List Act),
    (∀ s, run (step staleAfter pid) (start now file) acts = some s → AtMostOne staleAfter s) ∧
      Meets (step staleAfter pid) (RemovesRightly staleAfter) (start now file) acts := by
  intro h
  have hboth : ∃ s, run (step 30 id) (start 31 (some (0, none))) takenTwice = some s ∧
      Young 30 s 0 ∧ Young 30 s 1 := ⟨_, rfl, ⟨_, rfl, by decide⟩, ⟨_, rfl, by decide⟩⟩
  obtain ⟨s, hrun, h0, h1⟩ := hboth
  exact absurd ((h 30 id 31 (some (0, none)) takenTwice).1 s hrun 0 1 h0 h1) (by decide)

/-- A takeover of an abandoned lock that nobody disturbs. -/
theorem locked_of_takeover :
    (∀ s, run (step 30 id) (start 31 (some (0, none)))
        [.create 0, .metadata 0, .removeStale 0, .create 0, .write 0] = some s → AtMostOne 30 s) ∧
      Meets (step 30 id) (RemovesRightly 30) (start 31 (some (0, none)))
        [.create 0, .metadata 0, .removeStale 0, .create 0, .write 0] := by
  apply locked_of_undisturbed
  refine .cons trivial rfl (.cons trivial rfl (.cons ?_ rfl (.cons trivial rfl (.cons ?_ rfl trivial))))
  · intro seen hpc
    cases hpc
    exact Or.inr rfl
  · intro own hpc
    cases hpc
    rfl

end AnyConverter.FileLock
