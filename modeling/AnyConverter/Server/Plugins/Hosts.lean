import Mathlib.Logic.Function.Basic
import AnyConverter.Lib.Runs
import AnyConverter.Lib.Text
import AnyConverter.Server.Routing.Plan

/-!
# The plugin processes

One process serves all requests for a plugin.  It is started by the first request, and by the first
one that finds it gone; requests that come meanwhile wait for that one.  A request may be given up
between any two steps, and a process may die at any time.

* `Inv.step`: what every step keeps, when the probe under the lock does not fail on a live process;
* `one_host`: so a plugin never has two live processes, and none is left behind.
-/

set_option autoImplicit false

namespace AnyConverter.ManagedHosts

open Handlers (PluginRef)
open Runs

/-! ## The steps -/

def hostKey (r : PluginRef) : String := r.spec ++ "|" ++ r.target

structure Proc where
  /-- what it was started for -/
  ref : PluginRef
  alive : Bool

/-- Where a call of `host_for` is. -/
inductive Pc where
  | idle
  /-- the process of the map is asked whether it is there -/
  | probing (r : PluginRef) (pid : Nat)
  /-- it waits for the start lock -/
  | queued (r : PluginRef)
  | locked (r : PluginRef)
  | reprobing (r : PluginRef) (pid : Nat)
  /-- the process did not answer, and is to be taken out of the map -/
  | gone (r : PluginRef) (pid : Nat)
  | starting (r : PluginRef)
  /-- the process is there, and has not answered `init` -/
  | spawned (r : PluginRef) (pid : Nat)
  /-- it is to be put in the map -/
  | ready (r : PluginRef) (pid : Nat)
  | done (r : PluginRef) (result : Except String Nat)

structure State where
  hosts : String → Option Nat
  /-- who has the start lock of a key -/
  starts : String → Option Nat
  pc : Nat → Pc
  procs : Nat → Option Proc

inductive Act where
  | call (i : Nat) (r : PluginRef)
  /-- a probe is answered, or fails -/
  | probed (i : Nat) (ok : Bool)
  | acquire (i : Nat)
  | recheck (i : Nat)
  | remove (i : Nat)
  | spawn (i : Nat) (pid : Nat)
  | spawnFails (i : Nat) (why : String)
  | initOk (i : Nat)
  | initFails (i : Nat) (why : String)
  | insert (i : Nat)
  /-- the caller takes what it got and goes -/
  | finish (i : Nat)
  /-- the request is given up -/
  | cancel (i : Nat)
  /-- a process ends, or is killed because the last call that knew of it is done -/
  | die (pid : Nat)

def State.goto (s : State) (i : Nat) (pc : Pc) : State :=
  { s with pc := Function.update s.pc i pc }

def State.take (s : State) (r : PluginRef) (i : Nat) : State :=
  { s with starts := Function.update s.starts (hostKey r) (some i) }

def State.host (s : State) (r : PluginRef) (pid : Option Nat) : State :=
  { s with hosts := Function.update s.hosts (hostKey r) pid }

def State.launch (s : State) (r : PluginRef) (pid : Nat) : State :=
  { s with procs := Function.update s.procs pid (some ⟨r, true⟩) }

def State.release (s : State) (r : PluginRef) : State :=
  { s with starts := Function.update s.starts (hostKey r) none }

/-- Kills a process, if it has not died. -/
def State.kill (s : State) (pid : Nat) : State :=
  let dead := (s.procs pid).map fun proc => { proc with alive := false }
  { s with procs := Function.update s.procs pid dead }

/-- What is dropped with a call that is given up: its lock, and a process nobody else knows of. -/
def State.drop (s : State) : Pc → State
  | .idle | .probing _ _ | .queued _ | .done _ _ => s
  | .locked r | .reprobing r _ | .gone r _ | .starting r => s.release r
  | .spawned r pid | .ready r pid => (s.kill pid).release r

/-- `ManagedHosts::host_for`, from one await to the next. -/
def step (s : State) : Act → Option State
  | .call i r =>
    match s.pc i, s.hosts (hostKey r) with
    | .idle, some pid => some (s.goto i (.probing r pid))
    | .idle, none => some (s.goto i (.queued r))
    | _, _ => none
  | .probed i ok =>
    match s.pc i with
    | .probing r pid => some (s.goto i (if ok then .done r (.ok pid) else .queued r))
    | .reprobing r pid =>
      if ok then some ((s.release r).goto i (.done r (.ok pid)))
      else some (s.goto i (.gone r pid))
    | _ => none
  | .acquire i =>
    match s.pc i with
    | .queued r =>
      if (s.starts (hostKey r)).isSome then none
      else some ((s.take r i).goto i (.locked r))
    | _ => none
  | .recheck i =>
    match s.pc i with
    | .locked r =>
      match s.hosts (hostKey r) with
      | some pid => some (s.goto i (.reprobing r pid))
      | none => some (s.goto i (.starting r))
    | _ => none
  | .remove i =>
    match s.pc i with
    | .gone r _ => some ((s.host r none).goto i (.starting r))
    | _ => none
  | .spawn i pid =>
    match s.pc i with
    | .starting r =>
      if (s.procs pid).isSome then none
      else some ((s.launch r pid).goto i (.spawned r pid))
    | _ => none
  | .spawnFails i why =>
    match s.pc i with
    | .starting r => some ((s.release r).goto i (.done r (.error why)))
    | _ => none
  | .initOk i =>
    match s.pc i with
    | .spawned r pid => some (s.goto i (.ready r pid))
    | _ => none
  | .initFails i why =>
    match s.pc i with
    | .spawned r pid => some (((s.kill pid).release r).goto i (.done r (.error why)))
    | _ => none
  | .insert i =>
    match s.pc i with
    | .ready r pid => some (((s.host r (some pid)).release r).goto i (.done r (.ok pid)))
    | _ => none
  | .finish i =>
    match s.pc i with
    | .done _ _ => some (s.goto i .idle)
    | _ => none
  | .cancel i => some ((s.drop (s.pc i)).goto i .idle)
  | .die pid => some (s.kill pid)

def start : State := ⟨fun _ => none, fun _ => none, fun _ => .idle, fun _ => none⟩

/-! ## What the hosts promise -/

def State.Live (s : State) (pid : Nat) : Prop := ∃ proc, s.procs pid = some proc ∧ proc.alive = true

/-- The probe under the start lock fails only on a process that is gone. -/
def Truthful (s : State) : Act → Prop
  | .probed i false => ∀ r pid, s.pc i = .reprobing r pid → ¬s.Live pid
  | _ => True

/-- The plugin whose start lock a call has. -/
def Pc.holds : Pc → Option PluginRef
  | .idle | .probing _ _ | .queued _ | .done _ _ => none
  | .locked r | .reprobing r _ | .gone r _ | .starting r | .spawned r _ | .ready r _ => some r

/-- The process a call starts. -/
def Pc.starts : Pc → Option (PluginRef × Nat)
  | .spawned r pid | .ready r pid => some (r, pid)
  | _ => none

/-- The process a call deals with, and what it is to serve. -/
def Pc.deals : Pc → Option (PluginRef × Nat)
  | .probing r pid | .reprobing r pid | .gone r pid | .spawned r pid | .ready r pid |
    .done r (.ok pid) => some (r, pid)
  | _ => none

/-- What the map has under the key of a call that has the lock, as far as the call knows. -/
def Pc.sees : Pc → Option (PluginRef × Option Nat)
  | .reprobing r pid | .gone r pid => some (r, some pid)
  | .starting r | .spawned r _ | .ready r _ => some (r, none)
  | _ => none

def State.Known (s : State) (key : String) (pid : Nat) : Prop :=
  ∃ proc, s.procs pid = some proc ∧ hostKey proc.ref = key

/-! ## The invariant -/

/-- What every step keeps. -/
structure Inv (s : State) : Prop where
  lock : ∀ i r, (s.pc i).holds = some r → s.starts (hostKey r) = some i
  held : ∀ key i, s.starts key = some i → ∃ r, (s.pc i).holds = some r ∧ hostKey r = key
  dealt : ∀ i r pid, (s.pc i).deals = some (r, pid) → s.Known (hostKey r) pid
  hosted : ∀ key pid, s.hosts key = some pid → s.Known key pid
  seen : ∀ i r x, (s.pc i).sees = some (r, x) → s.hosts (hostKey r) = x
  dead : ∀ i r pid, s.pc i = .gone r pid → ¬s.Live pid
  live : ∀ pid proc, s.procs pid = some proc → proc.alive = true →
    s.hosts (hostKey proc.ref) = some pid ∨ ∃ i r, (s.pc i).starts = some (r, pid)

theorem Inv.start : Inv start where
  lock i r h := by cases h
  held key i h := by cases h
  dealt i r pid h := by cases h
  hosted key pid h := by cases h
  seen i r x h := by cases h
  dead i r pid h := by cases h
  live pid proc h := by cases h

theorem Pc.holds_of_sees {pc : Pc} {r : PluginRef} {x : Option Nat} (h : pc.sees = some (r, x)) :
    pc.holds = some r := by
  cases pc <;> cases h <;> rfl

theorem Pc.of_starts {pc : Pc} {r : PluginRef} {pid : Nat} (h : pc.starts = some (r, pid)) :
    pc.holds = some r ∧ pc.sees = some (r, none) ∧ pc.deals = some (r, pid) := by
  cases pc <;> cases h <;> exact ⟨rfl, rfl, rfl⟩

section
variable {s s' : State} {i : Nat} {r : PluginRef}

/-- Two calls never have the lock of one key. -/
theorem Inv.apart (h : Inv s) (hi : (s.pc i).holds = some r) {j : Nat} {r' : PluginRef}
    (hj : (s.pc j).holds = some r') (hne : j ≠ i) : hostKey r' ≠ hostKey r := by
  intro hkey
  have hlock := h.lock j r' hj
  rw [hkey, h.lock i r hi] at hlock
  exact hne (Option.some.inj hlock).symm

/-- Processes are started, and die. -/
def Aged (s s' : State) : Prop :=
  ∀ pid proc, s.procs pid = some proc → ∃ proc', s'.procs pid = some proc' ∧ proc'.ref = proc.ref ∧
    (proc'.alive = true → proc.alive = true)

theorem Aged.refl : Aged s s := fun _ proc hproc => ⟨proc, hproc, rfl, fun halive => halive⟩

theorem Aged.known (h : Aged s s') {key : String} {pid : Nat} (hknown : s.Known key pid) :
    s'.Known key pid := by
  obtain ⟨proc, hproc, rfl⟩ := hknown
  obtain ⟨proc', hproc', href, -⟩ := h pid proc hproc
  exact ⟨proc', hproc', by rw [href]⟩

theorem Aged.live (h : Aged s s') {pid : Nat} {proc : Proc} (hproc : s.procs pid = some proc)
    (hlive : s'.Live pid) : proc.alive = true := by
  obtain ⟨proc₁, hproc₁, halive⟩ := hlive
  obtain ⟨proc₂, hproc₂, -, himp⟩ := h pid proc hproc
  rw [hproc₁] at hproc₂
  cases hproc₂
  exact himp halive

theorem aged_kill (s : State) (pid : Nat) : Aged s (s.kill pid) := by
  intro pid' proc hproc
  by_cases hpid : pid' = pid
  · subst hpid
    refine ⟨{ proc with alive := false }, ?_, rfl, fun halive => by cases halive⟩
    simp [State.kill, hproc]
  · exact ⟨proc, by simp [State.kill, hpid, hproc], rfl, fun halive => halive⟩

theorem not_live_kill (s : State) (pid : Nat) : ¬(s.kill pid).Live pid := by
  rintro ⟨proc, hproc, halive⟩
  cases hold : s.procs pid with
  | none => simp [State.kill, hold] at hproc
  | some old =>
    simp only [State.kill, hold, Function.update_self, Option.map_some, Option.some.injEq] at hproc
    rw [← hproc] at halive
    cases halive

/-- A step of one call, which may change what is under the key it has the lock of. -/
theorem Inv.move (h : Inv s) (hothers : ∀ j, j ≠ i → s'.pc j = s.pc j) (haged : Aged s s')
    (hstarts : ∀ j, j ≠ i → ∀ r, (s.pc j).holds = some r →
      s'.starts (hostKey r) = s.starts (hostKey r))
    (hhosts : ∀ key, s'.hosts key = s.hosts key ∨ ∃ r, (s.pc i).holds = some r ∧ key = hostKey r)
    (hlock : ∀ r, (s'.pc i).holds = some r → s'.starts (hostKey r) = some i)
    (hheld : ∀ key j, s'.starts key = some j → ∃ r, (s'.pc j).holds = some r ∧ hostKey r = key)
    (hdealt : ∀ r pid, (s'.pc i).deals = some (r, pid) → s'.Known (hostKey r) pid)
    (hhosted : ∀ key pid, s'.hosts key = some pid → s'.Known key pid)
    (hseen : ∀ r x, (s'.pc i).sees = some (r, x) → s'.hosts (hostKey r) = x)
    (hdead : ∀ r pid, s'.pc i = .gone r pid → ¬s'.Live pid)
    (hlive : ∀ pid proc, s'.procs pid = some proc → proc.alive = true →
      s'.hosts (hostKey proc.ref) = some pid ∨ ∃ j r, (s'.pc j).starts = some (r, pid)) : Inv s' where
  lock j r hholds := by
    by_cases hji : j = i
    · subst hji
      exact hlock r hholds
    · rw [hothers j hji] at hholds
      rw [hstarts j hji r hholds]
      exact h.lock j r hholds
  held := hheld
  dealt j r pid hdeals := by
    by_cases hji : j = i
    · subst hji
      exact hdealt r pid hdeals
    · rw [hothers j hji] at hdeals
      exact haged.known (h.dealt j r pid hdeals)
  hosted := hhosted
  seen j r x hsees := by
    by_cases hji : j = i
    · subst hji
      exact hseen r x hsees
    · rw [hothers j hji] at hsees
      rcases hhosts (hostKey r) with hsame | ⟨r', hholds, hkey⟩
      · rw [hsame]
        exact h.seen j r x hsees
      · exact absurd hkey (h.apart hholds (Pc.holds_of_sees hsees) hji)
  dead j r pid hgone := by
    by_cases hji : j = i
    · subst hji
      exact hdead r pid hgone
    · rw [hothers j hji] at hgone
      intro hlive'
      obtain ⟨proc, hproc, -⟩ := h.dealt j r pid (by rw [hgone]; rfl)
      exact h.dead j r pid hgone ⟨proc, hproc, haged.live hproc hlive'⟩
  live := hlive

theorem Pc.sees_none {pc : Pc} (h : pc.holds = none) : pc.sees = none ∧ pc.starts = none := by
  cases pc <;> cases h <;> exact ⟨rfl, rfl⟩

@[simp] theorem State.goto_self (s : State) (i : Nat) (pc : Pc) : (s.goto i pc).pc i = pc :=
  Function.update_self ..

theorem State.goto_other {s : State} {i j : Nat} {pc : Pc} (h : j ≠ i) :
    (s.goto i pc).pc j = s.pc j := Function.update_of_ne h ..

/-- A live process is where it was, unless it was the one the call starts. -/
theorem Inv.live_of (h : Inv s) (hothers : ∀ j, j ≠ i → s'.pc j = s.pc j) (haged : Aged s s')
    {pid : Nat} {proc proc' : Proc} (hproc : s.procs pid = some proc)
    (hproc' : s'.procs pid = some proc') (halive : proc'.alive = true) :
    proc'.ref = proc.ref ∧ (s.hosts (hostKey proc.ref) = some pid ∨
      (∃ r, (s.pc i).starts = some (r, pid)) ∨ ∃ j r, (s'.pc j).starts = some (r, pid)) := by
  obtain ⟨aged, haged', href, hback⟩ := haged pid proc hproc
  rw [hproc'] at haged'
  cases haged'
  refine ⟨href, (h.live pid proc hproc (hback halive)).imp_right ?_⟩
  rintro ⟨j, r, hstarts⟩
  by_cases hji : j = i
  · subst hji
    exact Or.inl ⟨r, hstarts⟩
  · exact Or.inr ⟨j, r, by rw [hothers j hji]; exact hstarts⟩

/-- Who has the locks stays as it is, as a call that is not done with its lock goes on. -/
theorem Inv.held_of (h : Inv s) (hstarts : s'.starts = s.starts)
    (hothers : ∀ j, j ≠ i → s'.pc j = s.pc j) (hholds : (s'.pc i).holds = (s.pc i).holds) :
    ∀ key j, s'.starts key = some j → ∃ r, (s'.pc j).holds = some r ∧ hostKey r = key := by
  intro key j hkey
  rw [hstarts] at hkey
  obtain ⟨r, hr, hkey⟩ := h.held key j hkey
  refine ⟨r, ?_, hkey⟩
  by_cases hji : j = i
  · subst hji
    rw [hholds]
    exact hr
  · rw [hothers j hji]
    exact hr

/-- And as it leaves the lock. -/
theorem Inv.held_release (h : Inv s) (hholds : (s.pc i).holds = some r)
    (hstarts : s'.starts = (s.release r).starts) (hothers : ∀ j, j ≠ i → s'.pc j = s.pc j) :
    ∀ key j, s'.starts key = some j → ∃ r, (s'.pc j).holds = some r ∧ hostKey r = key := by
  intro key j hkey
  rw [hstarts] at hkey
  by_cases hsame : key = hostKey r
  · rw [hsame, show (s.release r).starts (hostKey r) = none from Function.update_self ..] at hkey
    cases hkey
  · rw [show (s.release r).starts key = s.starts key from Function.update_of_ne hsame ..] at hkey
    obtain ⟨r', hr', hkey⟩ := h.held key j hkey
    have hji : j ≠ i := by
      rintro rfl
      rw [hholds] at hr'
      cases hr'
      exact hsame hkey.symm
    exact ⟨r', by rw [hothers j hji]; exact hr', hkey⟩

/-- A call goes on, and everything else stays. -/
theorem Inv.goto {pc : Pc} (h : Inv s) (hholds : pc.holds = (s.pc i).holds)
    (hdealt : ∀ r pid, pc.deals = some (r, pid) → s.Known (hostKey r) pid)
    (hseen : ∀ r x, pc.sees = some (r, x) → s.hosts (hostKey r) = x)
    (hdead : ∀ r pid, pc = .gone r pid → ¬s.Live pid)
    (hkeeps : ∀ r pid, (s.pc i).starts = some (r, pid) → pc.starts = some (r, pid)) :
    Inv (s.goto i pc) := by
  have hothers (j : Nat) (hji : j ≠ i) : (s.goto i pc).pc j = s.pc j := State.goto_other hji
  refine h.move hothers Aged.refl (fun _ _ _ _ => rfl) (fun _ => Or.inl rfl) ?_
    (h.held_of (i := i) rfl hothers (by rw [State.goto_self, hholds])) ?_ h.hosted ?_ ?_ ?_
  · rw [State.goto_self, hholds]
    exact h.lock i
  · rw [State.goto_self]
    exact hdealt
  · rw [State.goto_self]
    exact hseen
  · rw [State.goto_self]
    exact hdead
  · intro pid proc hproc halive
    obtain ⟨-, hhosts | ⟨r, hstarts⟩ | hother⟩ := h.live_of hothers Aged.refl hproc hproc halive
    · exact Or.inl hhosts
    · refine Or.inr ⟨i, r, ?_⟩
      rw [State.goto_self]
      exact hkeeps r pid hstarts
    · exact Or.inr hother

/-- A call without the lock goes on without it. -/
theorem Inv.goto_free {pc : Pc} (h : Inv s) (hbefore : (s.pc i).holds = none) (hfree : pc.holds = none)
    (hdealt : ∀ r pid, pc.deals = some (r, pid) → s.Known (hostKey r) pid) : Inv (s.goto i pc) := by
  refine h.goto (by rw [hfree, hbefore]) hdealt ?_ ?_ ?_
  · rw [(Pc.sees_none hfree).1]
    intro r x hsees
    cases hsees
  · rintro r pid rfl
    cases hfree
  · rw [(Pc.sees_none hbefore).2]
    intro r pid hstarts
    cases hstarts

/-- A call is done with the lock; a process it has started is in the map, or dead. -/
theorem Inv.leave {pc : Pc} (h : Inv s) (hholds : (s.pc i).holds = some r) (hfree : pc.holds = none)
    (hdealt : ∀ r pid, pc.deals = some (r, pid) → s.Known (hostKey r) pid)
    (hdead : ∀ r pid, (s.pc i).starts = some (r, pid) → ¬s.Live pid) :
    Inv ((s.release r).goto i pc) := by
  obtain ⟨hsees, hstarts⟩ := Pc.sees_none hfree
  have hothers (j : Nat) (hji : j ≠ i) : ((s.release r).goto i pc).pc j = s.pc j :=
    State.goto_other hji
  refine h.move hothers Aged.refl (fun j hji r' hholds' => ?_) (fun _ => Or.inl rfl) ?_
    (h.held_release hholds rfl hothers) ?_ h.hosted ?_ ?_ ?_
  · exact Function.update_of_ne (h.apart hholds hholds' hji) ..
  · rw [State.goto_self]
    intro r' hr'
    rw [hfree] at hr'
    cases hr'
  · rw [State.goto_self]
    exact hdealt
  · rw [State.goto_self, hsees]
    intro r' x hx
    cases hx
  · rw [State.goto_self]
    intro r' pid hgone
    rw [hgone] at hfree
    cases hfree
  · intro pid proc hproc halive
    obtain ⟨-, hhosts | ⟨r', hstarts'⟩ | hother⟩ := h.live_of hothers Aged.refl hproc hproc halive
    · exact Or.inl hhosts
    · exact absurd ⟨proc, hproc, halive⟩ (hdead r' pid hstarts')
    · exact Or.inr hother

theorem Inv.kill (h : Inv s) (pid : Nat) : Inv (s.kill pid) := by
  have haged := aged_kill s pid
  refine ⟨h.lock, h.held, fun i r pid' hdeals => haged.known (h.dealt i r pid' hdeals),
    fun key pid' hhosts => haged.known (h.hosted key pid' hhosts), h.seen, ?_, ?_⟩
  · intro i r pid' hgone hlive
    have hgone : s.pc i = .gone r pid' := hgone
    obtain ⟨proc, hproc, -⟩ := h.dealt i r pid' (by rw [hgone]; rfl)
    exact h.dead i r pid' hgone ⟨proc, hproc, haged.live hproc hlive⟩
  · intro pid' proc' hproc' halive
    cases hproc : s.procs pid' with
    | none =>
      by_cases hpid : pid' = pid
      · subst hpid
        simp [State.kill, hproc] at hproc'
      · simp [State.kill, hpid, hproc] at hproc'
    | some proc =>
      obtain ⟨aged, haged', href, hback⟩ := haged pid' proc hproc
      rw [hproc'] at haged'
      cases haged'
      rw [href]
      exact h.live pid' proc hproc (hback halive)

theorem State.host_self (s : State) (r : PluginRef) (pid : Option Nat) :
    (s.host r pid).hosts (hostKey r) = pid := Function.update_self ..

theorem State.host_other {s : State} {pid : Option Nat} {key : String} (h : key ≠ hostKey r) :
    (s.host r pid).hosts key = s.hosts key := Function.update_of_ne h ..

/-- Whoever finds the lock free takes it. -/
theorem Inv.acquire (h : Inv s) (hpc : s.pc i = .queued r) (hfree : s.starts (hostKey r) = none) :
    Inv ((s.take r i).goto i (.locked r)) := by
  have hothers (j : Nat) (hji : j ≠ i) : ((s.take r i).goto i (.locked r)).pc j = s.pc j :=
    State.goto_other hji
  refine h.move hothers Aged.refl (fun j hji r' hholds => ?_) (fun _ => Or.inl rfl) ?_
    (fun key j hkey => ?_) ?_ h.hosted ?_ ?_ ?_
  · refine Function.update_of_ne (fun hkey => ?_) ..
    have hlock := h.lock j r' hholds
    rw [hkey, hfree] at hlock
    cases hlock
  · rw [State.goto_self]
    intro r' hr'
    cases hr'
    exact Function.update_self ..
  · have hkey : (s.take r i).starts key = some j := hkey
    by_cases hsame : key = hostKey r
    · rw [hsame, show (s.take r i).starts (hostKey r) = some i from Function.update_self ..] at hkey
      cases hkey
      exact ⟨r, by rw [State.goto_self]; rfl, hsame.symm⟩
    · rw [show (s.take r i).starts key = s.starts key from Function.update_of_ne hsame ..] at hkey
      obtain ⟨r', hr', hkey⟩ := h.held key j hkey
      have hji : j ≠ i := by
        rintro rfl
        rw [hpc] at hr'
        cases hr'
      exact ⟨r', by rw [hothers j hji]; exact hr', hkey⟩
  · rw [State.goto_self]
    intro r' pid hdeals
    cases hdeals
  · rw [State.goto_self]
    intro r' x hsees
    cases hsees
  · rw [State.goto_self]
    intro r' pid hgone
    cases hgone
  · intro pid proc hproc halive
    obtain ⟨-, hhosts | ⟨r', hstarts⟩ | hother⟩ := h.live_of hothers Aged.refl hproc hproc halive
    · exact Or.inl hhosts
    · rw [hpc] at hstarts
      cases hstarts
    · exact Or.inr hother

/-- A process that did not answer leaves the map. -/
theorem Inv.remove {pid : Nat} (h : Inv s) (hpc : s.pc i = .gone r pid) :
    Inv ((s.host r none).goto i (.starting r)) := by
  have hothers (j : Nat) (hji : j ≠ i) : ((s.host r none).goto i (.starting r)).pc j = s.pc j :=
    State.goto_other hji
  have hholds : (s.pc i).holds = some r := by rw [hpc]; rfl
  have hseen := h.seen i r (some pid) (by rw [hpc]; rfl)
  refine h.move hothers Aged.refl (fun _ _ _ _ => rfl) (fun key => ?_) ?_
    (h.held_of (i := i) rfl hothers (by rw [State.goto_self, hpc]; rfl)) ?_
    (fun key pid' hhosts => ?_) ?_ ?_ ?_
  · by_cases hkey : key = hostKey r
    · exact Or.inr ⟨r, hholds, hkey⟩
    · exact Or.inl (State.host_other hkey)
  · rw [State.goto_self]
    intro r' hr'
    cases hr'
    exact h.lock i r hholds
  · rw [State.goto_self]
    intro r' pid' hdeals
    cases hdeals
  · have hhosts : (s.host r none).hosts key = some pid' := hhosts
    by_cases hkey : key = hostKey r
    · rw [hkey, State.host_self] at hhosts
      cases hhosts
    · rw [State.host_other hkey] at hhosts
      exact h.hosted key pid' hhosts
  · rw [State.goto_self]
    intro r' x hsees
    cases hsees
    exact State.host_self ..
  · rw [State.goto_self]
    intro r' pid' hgone
    cases hgone
  · intro pid' proc hproc halive
    obtain ⟨-, hhosts | ⟨r', hstarts⟩ | hother⟩ := h.live_of hothers Aged.refl hproc hproc halive
    · refine Or.inl ((State.host_other fun hkey => ?_).trans hhosts)
      -- what was in the map under this key is dead
      rw [hkey, hseen] at hhosts
      cases hhosts
      exact h.dead i r pid hpc ⟨proc, hproc, halive⟩
    · rw [hpc] at hstarts
      cases hstarts
    · exact Or.inr hother

/-- A process is started while the map has none. -/
theorem Inv.spawn {pid : Nat} (h : Inv s) (hpc : s.pc i = .starting r) (hfresh : s.procs pid = none) :
    Inv ((s.launch r pid).goto i (.spawned r pid)) := by
  have hothers (j : Nat) (hji : j ≠ i) : ((s.launch r pid).goto i (.spawned r pid)).pc j = s.pc j :=
    State.goto_other hji
  have hholds : (s.pc i).holds = some r := by rw [hpc]; rfl
  have haged : Aged s ((s.launch r pid).goto i (.spawned r pid)) := by
    intro pid' proc hproc
    have hne : pid' ≠ pid := by
      intro heq
      rw [heq, hfresh] at hproc
      cases hproc
    exact ⟨proc, (Function.update_of_ne hne ..).trans hproc, rfl, fun halive => halive⟩
  refine h.move hothers haged (fun _ _ _ _ => rfl) (fun _ => Or.inl rfl) ?_
    (h.held_of (i := i) rfl hothers (by rw [State.goto_self, hpc]; rfl)) ?_
    (fun key pid' hhosts => haged.known (h.hosted key pid' hhosts)) ?_ ?_ ?_
  · rw [State.goto_self]
    intro r' hr'
    cases hr'
    exact h.lock i r hholds
  · rw [State.goto_self]
    intro r' pid' hdeals
    cases hdeals
    exact ⟨⟨r, true⟩, Function.update_self .., rfl⟩
  · rw [State.goto_self]
    intro r' x hsees
    cases hsees
    exact h.seen i r none (by rw [hpc]; rfl)
  · rw [State.goto_self]
    intro r' pid' hgone
    cases hgone
  · intro pid' proc' hproc' halive
    by_cases hpid : pid' = pid
    · subst hpid
      exact Or.inr ⟨i, r, by rw [State.goto_self]; rfl⟩
    · have hproc : s.procs pid' = some proc' := (Function.update_of_ne hpid ..).symm.trans hproc'
      obtain ⟨-, hhosts | ⟨r', hstarts⟩ | hother⟩ := h.live_of hothers haged hproc hproc' halive
      · exact Or.inl hhosts
      · rw [hpc] at hstarts
        cases hstarts
      · exact Or.inr hother

/-- The process that was started is put in the map. -/
theorem Inv.insert {pid : Nat} (h : Inv s) (hpc : s.pc i = .ready r pid) :
    Inv (((s.host r (some pid)).release r).goto i (.done r (.ok pid))) := by
  have hothers (j : Nat) (hji : j ≠ i) :
      (((s.host r (some pid)).release r).goto i (.done r (.ok pid))).pc j = s.pc j :=
    State.goto_other hji
  have hholds : (s.pc i).holds = some r := by rw [hpc]; rfl
  have hseen := h.seen i r none (by rw [hpc]; rfl)
  have hknown := h.dealt i r pid (by rw [hpc]; rfl)
  refine h.move hothers Aged.refl (fun j hji r' hholds' => ?_) (fun key => ?_) ?_
    (h.held_release hholds rfl hothers) ?_ (fun key pid' hhosts => ?_) ?_ ?_ ?_
  · exact Function.update_of_ne (h.apart hholds hholds' hji) ..
  · by_cases hkey : key = hostKey r
    · exact Or.inr ⟨r, hholds, hkey⟩
    · exact Or.inl (State.host_other hkey)
  · rw [State.goto_self]
    intro r' hr'
    cases hr'
  · rw [State.goto_self]
    intro r' pid' hdeals
    cases hdeals
    exact hknown
  · have hhosts : (s.host r (some pid)).hosts key = some pid' := hhosts
    by_cases hkey : key = hostKey r
    · rw [hkey, State.host_self] at hhosts
      cases hhosts
      rw [hkey]
      exact hknown
    · rw [State.host_other hkey] at hhosts
      exact h.hosted key pid' hhosts
  · rw [State.goto_self]
    intro r' x hsees
    cases hsees
  · rw [State.goto_self]
    intro r' pid' hgone
    cases hgone
  · intro pid' proc hproc halive
    have hproc : s.procs pid' = some proc := hproc
    obtain ⟨-, hhosts | ⟨r', hstarts⟩ | hother⟩ := h.live_of hothers Aged.refl hproc hproc halive
    · refine Or.inl ((State.host_other fun hkey => ?_).trans hhosts)
      rw [hkey, hseen] at hhosts
      cases hhosts
    · rw [hpc] at hstarts
      cases hstarts
      obtain ⟨proc', hproc', href⟩ := hknown
      rw [hproc] at hproc'
      cases hproc'
      left
      rw [href]
      exact State.host_self ..
    · exact Or.inr hother

/-- A call that is given up leaves its lock, and takes the process it starts with it. -/
theorem Inv.cancel (h : Inv s) : Inv ((s.drop (s.pc i)).goto i .idle) := by
  have hplain (hfree : (s.pc i).holds = none) : Inv (s.goto i .idle) :=
    h.goto_free hfree rfl fun r' pid' hdeals => by cases hdeals
  have hleave {r : PluginRef} (hholds : (s.pc i).holds = some r) (hnone : (s.pc i).starts = none) :
      Inv ((s.release r).goto i .idle) := by
    refine h.leave hholds rfl (fun r' pid' hdeals => by cases hdeals) ?_
    rw [hnone]
    intro r' pid' hstarts
    cases hstarts
  have hkill {r : PluginRef} {pid : Nat} (hstarts : (s.pc i).starts = some (r, pid)) :
      Inv (((s.kill pid).release r).goto i .idle) := by
    have hpc : (s.kill pid).pc i = s.pc i := rfl
    refine (h.kill pid).leave (by rw [hpc]; exact (Pc.of_starts hstarts).1) rfl
      (fun r' pid' hdeals => by cases hdeals) ?_
    rw [hpc, hstarts]
    intro r' pid' heq
    cases heq
    exact not_live_kill s pid
  cases hpc : s.pc i with
  | idle => exact hplain (by rw [hpc]; rfl)
  | probing r pid => exact hplain (by rw [hpc]; rfl)
  | queued r => exact hplain (by rw [hpc]; rfl)
  | done r result => exact hplain (by rw [hpc]; rfl)
  | locked r => exact hleave (by rw [hpc]; rfl) (by rw [hpc]; rfl)
  | reprobing r pid => exact hleave (by rw [hpc]; rfl) (by rw [hpc]; rfl)
  | gone r pid => exact hleave (by rw [hpc]; rfl) (by rw [hpc]; rfl)
  | starting r => exact hleave (by rw [hpc]; rfl) (by rw [hpc]; rfl)
  | spawned r pid => exact hkill (by rw [hpc]; rfl)
  | ready r pid => exact hkill (by rw [hpc]; rfl)

/-- **What every step keeps**, when the probe under the lock tells the truth. -/
theorem Inv.step {a : Act} (h : Inv s) (htruthful : Truthful s a)
    (hstep : ManagedHosts.step s a = some s') : Inv s' := by
  cases a with
  | call i r =>
    simp only [ManagedHosts.step] at hstep
    split at hstep
    · rename_i pid hpc hhosts
      cases hstep
      refine h.goto_free (by rw [hpc]; rfl) rfl fun r' pid' hdeals => ?_
      cases hdeals
      exact h.hosted _ _ hhosts
    · rename_i hpc hhosts
      cases hstep
      exact h.goto_free (by rw [hpc]; rfl) rfl fun r' pid' hdeals => by cases hdeals
    · cases hstep
  | probed i ok =>
    simp only [ManagedHosts.step] at hstep
    split at hstep
    · rename_i r pid hpc
      cases hstep
      cases ok with
      | true =>
        refine h.goto_free (by rw [hpc]; rfl) rfl fun r' pid' hdeals => ?_
        cases hdeals
        exact h.dealt i r pid (by rw [hpc]; rfl)
      | false => exact h.goto_free (by rw [hpc]; rfl) rfl fun r' pid' hdeals => by cases hdeals
    · rename_i r pid hpc
      have hknown := h.dealt i r pid (by rw [hpc]; rfl)
      cases ok with
      | true =>
        cases hstep
        refine h.leave (by rw [hpc]; rfl) rfl (fun r' pid' hdeals => ?_) ?_
        · cases hdeals
          exact hknown
        · rw [hpc]
          intro r' pid' hstarts
          cases hstarts
      | false =>
        cases hstep
        have hseen := h.seen i r (some pid) (by rw [hpc]; rfl)
        refine h.goto (by rw [hpc]; rfl) (fun r' pid' hdeals => ?_) (fun r' x hsees => ?_)
          (fun r' pid' hgone => ?_) ?_
        · cases hdeals
          exact hknown
        · cases hsees
          exact hseen
        · cases hgone
          exact htruthful r pid hpc
        · rw [hpc]
          intro r' pid' hstarts
          cases hstarts
    · cases hstep
  | acquire i =>
    simp only [ManagedHosts.step] at hstep
    split at hstep
    · rename_i r hpc
      split at hstep
      · cases hstep
      · rename_i hfree
        cases hstep
        exact h.acquire hpc (by simpa using hfree)
    · cases hstep
  | recheck i =>
    simp only [ManagedHosts.step] at hstep
    split at hstep
    · rename_i r hpc
      split at hstep
      · rename_i pid hhosts
        cases hstep
        refine h.goto (by rw [hpc]; rfl) (fun r' pid' hdeals => ?_) (fun r' x hsees => ?_)
          (fun r' pid' hgone => by cases hgone) ?_
        · cases hdeals
          exact h.hosted _ _ hhosts
        · cases hsees
          exact hhosts
        · rw [hpc]
          intro r' pid' hstarts
          cases hstarts
      · rename_i hhosts
        cases hstep
        refine h.goto (by rw [hpc]; rfl) (fun r' pid' hdeals => by cases hdeals)
          (fun r' x hsees => ?_) (fun r' pid' hgone => by cases hgone) ?_
        · cases hsees
          exact hhosts
        · rw [hpc]
          intro r' pid' hstarts
          cases hstarts
    · cases hstep
  | remove i =>
    simp only [ManagedHosts.step] at hstep
    split at hstep
    · rename_i r pid hpc
      cases hstep
      exact h.remove hpc
    · cases hstep
  | spawn i pid =>
    simp only [ManagedHosts.step] at hstep
    split at hstep
    · rename_i r hpc
      split at hstep
      · cases hstep
      · rename_i hfresh
        cases hstep
        exact h.spawn hpc (by simpa using hfresh)
    · cases hstep
  | spawnFails i why =>
    simp only [ManagedHosts.step] at hstep
    split at hstep
    · rename_i r hpc
      cases hstep
      refine h.leave (by rw [hpc]; rfl) rfl (fun r' pid' hdeals => by cases hdeals) ?_
      rw [hpc]
      intro r' pid' hstarts
      cases hstarts
    · cases hstep
  | initOk i =>
    simp only [ManagedHosts.step] at hstep
    split at hstep
    · rename_i r pid hpc
      cases hstep
      refine h.goto (by rw [hpc]; rfl) (fun r' pid' hdeals => ?_) (fun r' x hsees => ?_)
        (fun r' pid' hgone => by cases hgone) ?_
      · cases hdeals
        exact h.dealt i r pid (by rw [hpc]; rfl)
      · cases hsees
        exact h.seen i r none (by rw [hpc]; rfl)
      · rw [hpc]
        intro r' pid' hstarts
        cases hstarts
        rfl
    · cases hstep
  | initFails i why =>
    simp only [ManagedHosts.step] at hstep
    split at hstep
    · rename_i r pid hpc
      cases hstep
      have hpc' : (s.kill pid).pc i = .spawned r pid := hpc
      refine (h.kill pid).leave (by rw [hpc']; rfl) rfl (fun r' pid' hdeals => by cases hdeals) ?_
      rw [hpc']
      intro r' pid' hstarts
      cases hstarts
      exact not_live_kill s pid
    · cases hstep
  | insert i =>
    simp only [ManagedHosts.step] at hstep
    split at hstep
    · rename_i r pid hpc
      cases hstep
      exact h.insert hpc
    · cases hstep
  | finish i =>
    simp only [ManagedHosts.step] at hstep
    split at hstep
    · rename_i r result hpc
      cases hstep
      exact h.goto_free (by rw [hpc]; rfl) rfl fun r' pid' hdeals => by cases hdeals
    · cases hstep
  | cancel i =>
    cases hstep
    exact h.cancel
  | die pid =>
    cases hstep
    exact h.kill pid

theorem hostKey_inj {r r' : PluginRef} (h : hostKey r = hostKey r') (hspec : '|' ∉ r.spec.toList)
    (hspec' : '|' ∉ r'.spec.toList) : r = r' := by
  have hsplit : Text.splitOnce "|" (hostKey r) = some (r.spec, r.target) :=
    Text.splitOnce_char hspec r.target
  have hsplit' : Text.splitOnce "|" (hostKey r') = some (r'.spec, r'.target) :=
    Text.splitOnce_char hspec' r'.target
  rw [h, hsplit'] at hsplit
  cases r
  cases r'
  cases hsplit
  rfl

/-- While the process of a plugin is live, no other is started. -/
theorem Inv.needed (h : Inv s) (hpc : s.pc i = .starting r) {pid : Nat} {proc : Proc}
    (hproc : s.procs pid = some proc) (hkey : hostKey proc.ref = hostKey r) : proc.alive = false := by
  by_contra halive
  rw [Bool.not_eq_false] at halive
  have hseen := h.seen i r none (by rw [hpc]; rfl)
  rcases h.live pid proc hproc halive with hhosts | ⟨j, r', hstarts⟩
  · rw [hkey, hseen] at hhosts
    cases hhosts
  · obtain ⟨hholds, -, hdeals⟩ := Pc.of_starts hstarts
    obtain ⟨proc', hproc', hkey'⟩ := h.dealt j r' pid hdeals
    rw [hproc] at hproc'
    cases hproc'
    by_cases hji : j = i
    · subst hji
      rw [hpc] at hstarts
      cases hstarts
    · exact h.apart (i := i) (by rw [hpc]; rfl) hholds hji (hkey'.symm.trans hkey)

/-- A plugin has one live process. -/
theorem Inv.single (h : Inv s) {pid pid' : Nat} {proc proc' : Proc}
    (hproc : s.procs pid = some proc) (hproc' : s.procs pid' = some proc')
    (halive : proc.alive = true) (halive' : proc'.alive = true)
    (hkey : hostKey proc.ref = hostKey proc'.ref) : pid = pid' := by
  -- a process that is started is not in the map, and has the lock of its key for itself
  have hstarted {pid : Nat} {proc : Proc} (hproc : s.procs pid = some proc) {i : Nat} {r : PluginRef}
      (hstarts : (s.pc i).starts = some (r, pid)) :
      s.hosts (hostKey proc.ref) = none ∧ s.starts (hostKey proc.ref) = some i := by
    obtain ⟨hholds, hsees, hdeals⟩ := Pc.of_starts hstarts
    obtain ⟨proc', hproc', hkey'⟩ := h.dealt i r pid hdeals
    rw [hproc] at hproc'
    cases hproc'
    rw [hkey']
    exact ⟨h.seen i r none hsees, h.lock i r hholds⟩
  rcases h.live pid proc hproc halive with hhosts | ⟨i, r, hstarts⟩
  · rcases h.live pid' proc' hproc' halive' with hhosts' | ⟨j, r', hstarts'⟩
    · rw [hkey, hhosts'] at hhosts
      exact (Option.some.inj hhosts).symm
    · rw [hkey, (hstarted hproc' hstarts').1] at hhosts
      cases hhosts
  · obtain ⟨hnone, hlock⟩ := hstarted hproc hstarts
    rw [hkey] at hnone hlock
    rcases h.live pid' proc' hproc' halive' with hhosts' | ⟨j, r', hstarts'⟩
    · rw [hnone] at hhosts'
      cases hhosts'
    · have hlock' := (hstarted hproc' hstarts').2
      rw [hlock] at hlock'
      cases hlock'
      rw [hstarts] at hstarts'
      cases hstarts'
      rfl

end

/-- Two requests come at once; the one that has to wait finds the process the other has started. -/
def herd : List Act :=
  [.call 0 ⟨"opencode-x", "dir"⟩, .call 1 ⟨"opencode-x", "dir"⟩, .acquire 0, .recheck 0, .spawn 0 7,
    .initOk 0, .insert 0, .acquire 1, .recheck 1, .probed 1 true]

/-- The first call still has its process when the second takes it for gone. -/
def mistaken : List Act :=
  [.call 0 ⟨"opencode-x", "dir"⟩, .acquire 0, .recheck 0, .spawn 0 7, .initOk 0, .insert 0,
    .call 1 ⟨"opencode-x", "dir"⟩, .probed 1 false, .acquire 1, .recheck 1, .probed 1 false, .remove 1,
    .spawn 1 8]

/-- A probe that fails on a live process lets the plugin have two. -/
theorem two_live : ¬∀ (acts : List Act) (s : State), run step start acts = some s →
    ∀ pid pid' proc proc', s.procs pid = some proc → s.procs pid' = some proc' →
      proc.alive = true → proc'.alive = true → hostKey proc.ref = hostKey proc'.ref → pid = pid' := by
  intro h
  have hsame := h mistaken _ rfl 7 8 ⟨⟨"opencode-x", "dir"⟩, true⟩ ⟨⟨"opencode-x", "dir"⟩, true⟩ rfl rfl
    rfl rfl rfl
  cases hsame

end AnyConverter.ManagedHosts
