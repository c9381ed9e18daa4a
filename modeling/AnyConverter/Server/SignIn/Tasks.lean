import Mathlib.Logic.Function.Basic
import AnyConverter.Lib.Runs

/-!
# Sign-in tasks

A sign-in is a task in a registry: a flow may wait for the browser in the background, and callers
read the task, submit what the user pasted, or cancel it.  Each step of the model is the code between
two points where another thread may come in: an await, or the release of the registry's lock.

A background flow that was aborted stops only where it waits.  Once it has its answer it goes on to
its end, and whoever aborted it waits for that.
-/

set_option autoImplicit false

namespace AnyConverter.SignInTasks

/-! ## Tasks -/

inductive TaskState where
  | waiting
  | done
  | failed
  deriving DecidableEq, Repr

/-- What a caller reads. -/
structure SignInTask where
  state : TaskState
  url : String
  code : String
  user : String
  plan : String
  error : String
  deriving DecidableEq, Repr

/-- The flows a task is started with. -/
inductive Flow where
  /-- Gemini and Antigravity -/
  | google
  | codex
  /-- Codex where the loopback port is taken -/
  | codexPaste
  | copilot
  | siwc
  | claude
  /-- a plugin's flow that a pasted code ends -/
  | pluginCode
  /-- a plugin's flow that waits in its own callback -/
  | pluginAuto
  deriving DecidableEq, Repr

/-- What a pasted input goes to. -/
inductive TaskDriver where
  | gemini
  | codex
  | siwc
  | plugin
  | claude
  | copilot
  deriving DecidableEq, Repr

namespace Flow

def driver : Flow → TaskDriver
  | google => .gemini
  | codex => .codex
  | codexPaste => .codex
  | copilot => .copilot
  | siwc => .siwc
  | claude => .claude
  | pluginCode => .plugin
  | pluginAuto => .copilot

/-- Whether a background flow is spawned. -/
def spawns : Flow → Bool
  | codexPaste => false
  | siwc => false
  | pluginCode => false
  | _ => true

/-- Whether the background flow marks its task finished. -/
def marks (flow : Flow) : Bool := flow ≠ copilot

/-- Whether a settled sign-in tells the plan of its account, and the user by name rather than by
account id. -/
def tellsPlan : Flow → Bool
  | codex => true
  | codexPaste => true
  | siwc => true
  | claude => true
  | _ => false

end Flow

/-- What an update sets. -/
structure Report where
  state : TaskState
  user : Option String
  plan : Option String
  error : Option String
  deriving DecidableEq, Repr

def SignInTask.apply (task : SignInTask) (report : Report) : SignInTask :=
  { task with
    state := report.state
    user := report.user.getD task.user
    plan := report.plan.getD task.plan
    error := report.error.getD task.error }

/-! ## Settling a sign-in -/

/-- The account a flow ends with: its id in the store, and what is told of it. -/
structure Account where
  id : String
  user : String
  plan : String
  deriving DecidableEq, Repr

/-- What comes of storing a sign-in: nothing is stored, or the credential is but its revoked marker
may stay. -/
inductive Kept where
  | failed (why : String)
  | kept
  | marked (why : String)
  deriving DecidableEq, Repr

def Kept.stores : Kept → Bool
  | failed _ => false
  | _ => true

def failedReport (flow : Flow) (why : String) : Report :=
  ⟨.failed, some "", if flow.tellsPlan then some "" else none, some why⟩

def storeError (flow : Flow) (why : String) : String :=
  if flow = .siwc then why else "storing the account failed: " ++ why

/-- What a flow reports once its account was to be stored. -/
def settle (flow : Flow) (account : Account) : Kept → Report
  | .kept => ⟨.done, some (if flow.tellsPlan then account.user else account.id),
      if flow.tellsPlan then some account.plan else none, some ""⟩
  | .failed why => failedReport flow (storeError flow why)
  | .marked why => failedReport flow (storeError flow why)

/-- A pasted sign-in reports a plan, if only an empty one. -/
def Report.withPlan (report : Report) : Report := { report with plan := some (report.plan.getD "") }

/-- What a plugin's callback reports. -/
def pluginReport : Except String String → Report
  | .ok user => ⟨.done, some user, none, some ""⟩
  | .error why => ⟨.failed, some "", none, some why⟩

/-! ## The registry -/

/-- A registered task. -/
structure TaskHandle where
  task : SignInTask
  /-- whether it holds its background flow, to abort it -/
  background : Bool
  finishedAt : Option Nat
  deriving DecidableEq, Repr

/-- How long a settled task stays readable, in seconds. -/
def finishedTtl : Nat := 300

/-- Where the background flow is. -/
inductive Background where
  | none
  | waiting
  | settling (account : Account)
  | reporting (report : Report)
  | marking
  /-- at its end, by itself or aborted -/
  | ended (itself : Bool)
  deriving DecidableEq, Repr

/-- Where a submit is. -/
inductive Submit where
  | idle
  /-- waits for the background flow it aborted -/
  | closing
  | exchanging
  | settling (account : Account)
  | intoCli
  | intoPlugin
  | reporting (report : Report)
  | marking
  | reading
  | returned
  deriving DecidableEq, Repr

/-- Where a cancel is. -/
inductive Cancel where
  | idle
  | closing
  | returned (existed : Bool)
  deriving DecidableEq, Repr

inductive Event where
  /-- a credential went into the account store -/
  | stored
  /-- a credential went into the plugin's own store -/
  | pluginStored
  /-- a cancel returned that the task existed -/
  | canceled
  deriving DecidableEq, Repr

structure State where
  inserted : Bool
  entry : Option TaskHandle
  background : Background
  aborted : Bool
  submits : Nat → Submit
  cancels : Nat → Cancel
  now : Nat
  log : List Event

/-- The snapshot a task is started with. -/
def newTask (url code : String) : SignInTask := ⟨.waiting, url, code, "", "", ""⟩

/-- A flow that was just spawned, before its task is in the registry. -/
def start (flow : Flow) : State where
  inserted := false
  entry := none
  background := if flow.spawns then .waiting else .none
  aborted := false
  submits := fun _ => .idle
  cancels := fun _ => .idle
  now := 0
  log := []

namespace State

/-- Does nothing once the task is gone. -/
def updateTask (s : State) (f : SignInTask → SignInTask) : State :=
  { s with entry := s.entry.map fun handle => { handle with task := f handle.task } }

def markFinished (s : State) : State :=
  { s with entry := s.entry.map fun handle => { handle with finishedAt := some s.now } }

/-- Drop the task when it finished a while ago. -/
def prune (s : State) : State :=
  { s with entry := s.entry.filter fun handle =>
      handle.finishedAt.all fun at_ => decide (s.now - at_ < finishedTtl) }

def setSubmit (s : State) (i : Nat) (pc : Submit) : State :=
  { s with submits := Function.update s.submits i pc }

def setCancel (s : State) (j : Nat) (pc : Cancel) : State :=
  { s with cancels := Function.update s.cancels j pc }

def record (s : State) (event : Event) : State := { s with log := s.log ++ [event] }

theorem setSubmit_self (s : State) (i : Nat) (pc : Submit) : (s.setSubmit i pc).submits i = pc :=
  Function.update_self ..

theorem setSubmit_of_ne (s : State) {i k : Nat} (pc : Submit) (h : k ≠ i) :
    (s.setSubmit i pc).submits k = s.submits k :=
  Function.update_of_ne h ..

theorem setCancel_self (s : State) (j : Nat) (pc : Cancel) : (s.setCancel j pc).cancels j = pc :=
  Function.update_self ..

theorem setCancel_of_ne (s : State) {j k : Nat} (pc : Cancel) (h : k ≠ j) :
    (s.setCancel j pc).cancels k = s.cancels k :=
  Function.update_of_ne h ..

end State

/-! ## Steps -/

/-- What a plugin's callback answers a background flow: an account, or why not, and whether the flow
then gives up. -/
inductive Asked where
  | ok (user : String)
  | again
  | failed (why : String)
  deriving DecidableEq, Repr

inductive Act where
  /-- the task goes into the registry -/
  | insert (url code : String)
  /-- the vendor sends the device code -/
  | codeArrives (url code : String)
  /-- the background flow has its answer -/
  | waited (result : Except String Account)
  /-- the device flow could not be started -/
  | notStarted (why : String)
  /-- a plugin answers the background flow, which may have stored a credential -/
  | asked (stores : Bool) (answer : Asked)
  | store (outcome : Kept)
  | update
  | mark
  /-- an aborted flow stops where it waits -/
  | drop
  | submit (i : Nat)
  /-- the aborted flow is at its end -/
  | closed (i : Nat)
  | exchanged (i : Nat) (result : Except String Account)
  | submitStore (i : Nat) (outcome : Kept)
  | cliAnswers (i : Nat) (answer : Except String Unit)
  | pluginAnswers (i : Nat) (stores : Bool) (answer : Except String String)
  | submitUpdate (i : Nat)
  | submitMark (i : Nat)
  | submitReturn (i : Nat)
  | cancel (j : Nat)
  | cancelReturn (j : Nat)
  /-- a read of this task, or the start of another one -/
  | status
  /-- a plugin stores a credential outside of an answer -/
  | pluginStores
  | tick

/-- The first look of a submit at the registry. -/
def look (flow : Flow) (s : State) (i : Nat) : State :=
  match s.entry with
  | none => s.setSubmit i .returned
  | some handle =>
    if handle.task.state ≠ .waiting then s.setSubmit i .returned
    else
      match flow.driver with
      | .copilot => s.setSubmit i .returned
      | .claude => s.setSubmit i .intoCli
      | .plugin => s.setSubmit i .intoPlugin
      | _ =>
        -- the background flow is taken out, aborted and waited for
        let s := { s with entry := some { handle with background := false } }
        if handle.background then { s with aborted := true }.setSubmit i .closing
        else s.setSubmit i .exchanging

def remove (s : State) (j : Nat) : State :=
  match s.entry with
  | none => s.setCancel j (.returned false)
  | some handle =>
    let s := { s with entry := none }
    if handle.background then { s with aborted := true }.setCancel j .closing
    else (s.setCancel j (.returned true)).record .canceled

def Background.isEnded : Background → Bool
  | ended _ => true
  | _ => false

def step (flow : Flow) (s : State) : Act → Option State
  | .insert url code =>
    if s.inserted then none
    else some { s.prune with
      inserted := true, entry := some ⟨newTask url code, flow.spawns, none⟩ }
  | .codeArrives url code =>
    if s.background = .waiting ∧ flow = .copilot then
      some (s.updateTask fun task => { task with url := url, code := code })
    else none
  | .waited result =>
    if s.background = .waiting ∧ flow ≠ .pluginAuto then
      some { s with background := match result with
        | .ok account => .settling account
        | .error why => .reporting (failedReport flow why) }
    else none
  | .notStarted why =>
    if s.background = .waiting ∧ flow = .copilot then
      some { s with background := .reporting ⟨.failed, none, none, some why⟩ }
    else none
  | .asked stores answer =>
    if s.background = .waiting ∧ flow = .pluginAuto then
      let s := if stores then s.record .pluginStored else s
      match answer with
      | .ok user => some { s with background := .reporting ⟨.done, some user, none, none⟩ }
      | .failed why => some { s with background := .reporting ⟨.failed, none, none, some why⟩ }
      | .again => some s
    else none
  | .store outcome =>
    match s.background with
    | .settling account =>
      let s := if outcome.stores then s.record .stored else s
      some { s with background := .reporting (settle flow account outcome) }
    | _ => none
  | .update =>
    match s.background with
    | .reporting report =>
      some { s.updateTask (·.apply report) with
        background := if flow.marks then .marking else .ended true }
    | _ => none
  | .mark =>
    if s.background = .marking then some { s.markFinished with background := .ended true } else none
  | .drop =>
    if s.background = .waiting ∧ s.aborted = true then some { s with background := .ended false }
    else none
  | .submit i => if s.submits i = .idle then some (look flow s i) else none
  | .closed i =>
    if s.submits i = .closing ∧ s.background.isEnded = true then some (s.setSubmit i .exchanging)
    else none
  | .exchanged i result =>
    if s.submits i = .exchanging then
      some (s.setSubmit i (match result with
        | .ok account => .settling account
        | .error why => .reporting (failedReport flow why).withPlan))
    else none
  | .submitStore i outcome =>
    match s.submits i with
    | .settling account =>
      let s := if outcome.stores then s.record .stored else s
      some (s.setSubmit i (.reporting (settle flow account outcome).withPlan))
    | _ => none
  | .cliAnswers i answer =>
    if s.submits i = .intoCli then
      some (s.setSubmit i (match answer with
        | .ok _ => .reading
        | .error why => .reporting ⟨.failed, none, none, some why⟩))
    else none
  | .pluginAnswers i stores answer =>
    if s.submits i = .intoPlugin then
      let s := if stores then s.record .pluginStored else s
      some (s.setSubmit i (.reporting (pluginReport answer)))
    else none
  | .submitUpdate i =>
    match s.submits i with
    | .reporting report =>
      some ((s.updateTask (·.apply report)).setSubmit i
        (if flow.driver = .plugin then .marking else .reading))
    | _ => none
  | .submitMark i =>
    if s.submits i = .marking then some (s.markFinished.setSubmit i .reading) else none
  | .submitReturn i =>
    if s.submits i = .reading then some (s.prune.setSubmit i .returned) else none
  | .cancel j => if s.cancels j = .idle then some (remove s j) else none
  | .cancelReturn j =>
    if s.cancels j = .closing ∧ s.background.isEnded = true then
      some ((s.setCancel j (.returned true)).record .canceled)
    else none
  | .status => some s.prune
  | .pluginStores =>
    if flow = .pluginCode ∨ flow = .pluginAuto then some (s.record .pluginStored) else none
  | .tick => some { s with now := s.now + 1 }

variable {flow : Flow} {s s' : State}

theorem inserted_of_step {act : Act} (hinserted : s.inserted = true)
    (h : step flow s act = some s') : s'.inserted = true := by
  cases act <;> simp only [step, look, remove] at h
  all_goals (repeat' split at h)
  all_goals cases h
  all_goals exact hinserted

/-- A task that is gone stays gone. -/
theorem entry_none_of_step {act : Act} (hinserted : s.inserted = true) (hnone : s.entry = none)
    (h : step flow s act = some s') : s'.inserted = true ∧ s'.entry = none := by
  refine ⟨inserted_of_step hinserted h, ?_⟩
  cases act <;> simp only [step, look, remove, hnone, hinserted, if_true] at h
  all_goals (repeat' split at h)
  all_goals cases h
  all_goals simp [State.updateTask, State.markFinished, State.prune, State.setSubmit,
    State.setCancel, State.record, hnone]

end AnyConverter.SignInTasks
