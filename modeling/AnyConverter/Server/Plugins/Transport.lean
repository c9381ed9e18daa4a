import AnyConverter.Lib.Json
import AnyConverter.Lib.Text
import AnyConverter.Server.SignIn.PluginFlow

/-!
# The plugin transport

Calls to a plugin share its standard input and output.  A call registers a waiter under its id and
writes its request; a reader thread hands each line of the plugin to the waiter it is for, and
clears the table of waiters when there are no more.  Each step of the model is the code between two
points where another thread may come in.

* `Promised`: what callers are promised;
* `Timely`: the steps of a run that keeps it;
* `shutdownStep`: what a step of a shutdown does.
-/

set_option autoImplicit false

namespace AnyConverter.PluginTransport

open PluginFlow (PluginError)

def goneMsg : String := "plugin process is gone"

/-! ## Responses -/

/-- A JSON-RPC request. -/
def request (id : Nat) (method : String) (params : Value) : Value :=
  .object [("id", .nat id), ("method", .string method), ("params", params)]

def responseId (value : Value) : Option Nat := (value.get "id").bind Value.asU64

variable (json : JsonCodec)

/-- What a response tells the caller it is for. -/
def reply (value : Value) : Except String Value :=
  match value.get "error" with
  | some error => .error (((error.get "message").bind Value.asStr).getD (json.toText error))
  | none => .ok ((value.get "result").getD .null)

/-- What a line of the plugin's output says, if it says anything. -/
def parseLine (line : String) : Option Value :=
  let trimmed := Text.trim line
  if trimmed = "" then none else json.fromStr trimmed

/-- What a caller gets for what came through its channel. -/
def outcome : Except String Value → Except PluginError Value
  | .ok value => .ok value
  | .error message => .error (.rpc message)

/-! ## The parties -/

/-- Where a call is. -/
inductive Call where
  | idle
  /-- the plugin was not gone -/
  | checked (method : String) (params : Value)
  | numbered (id : Nat) (line : String)
  /-- the waiter is in the table -/
  | registered (id : Nat) (line : String)
  /-- the request was not written -/
  | failing (id : Nat) (why : String)
  | waiting (id : Nat)
  /-- the caller has dropped the call where it waits -/
  | abandoned (id : Nat)
  | returned (id : Option Nat) (result : Except PluginError Value)

/-- Where the reader is. -/
inductive Reader where
  | running
  /-- a waiter was taken out of the table, to be sent a response -/
  | holding (value : Value) (call : Nat)
  | leaving
  | clearing
  | ended

/-- Where a shutdown is. -/
inductive Shutdown where
  | idle
  /-- looks whether the child has exited, so many times more -/
  | polling (left : Nat)
  | reaping (exited : Bool)
  | taking
  | joining
  | storing
  | clearing
  | returned (ok : Bool)
  deriving DecidableEq, Repr

/-- The handle of the reader thread; a shutdown keeps its lock as it joins. -/
inductive ReaderHandle where
  | held
  | joining
  | joined
  deriving DecidableEq, Repr

/-- An id is a number of 64 bits. -/
structure State where
  gone : Bool
  stdin : Bool
  child : Bool
  handle : ReaderHandle
  nextId : Nat
  /-- whose waiter is registered under an id -/
  pending : Nat → Option Nat
  calls : Nat → Call
  /-- what was sent through the channel of a call -/
  sent : Nat → Option (Except String Value)
  reader : Reader
  shutdowns : Nat → Shutdown
  /-- the lines the plugin was given -/
  input : List String
  /-- the responses that reached a call, in their order -/
  answers : List (Nat × Value)

def start : State where
  gone := false
  stdin := true
  child := true
  handle := .held
  nextId := 0
  pending := fun _ => none
  calls := fun _ => .idle
  sent := fun _ => none
  reader := .running
  shutdowns := fun _ => .idle
  input := []
  answers := []

namespace Call

def id : Call → Option Nat
  | numbered id _ => some id
  | registered id _ => some id
  | failing id _ => some id
  | waiting id => some id
  | abandoned id => some id
  | returned id _ => id
  | _ => none

/-- Whether its waiter has gone into the table. -/
def hasRegistered : Call → Bool
  | registered _ _ => true
  | failing _ _ => true
  | waiting _ => true
  | abandoned _ => true
  | returned id _ => id.isSome
  | _ => false

/-- Whether it stands between its look at the flag and the table. -/
def registers : Call → Bool
  | checked _ _ => true
  | numbered _ _ => true
  | _ => false

/-- Whether the receiving end of its channel is there. -/
def listens : Call → Bool
  | registered _ _ => true
  | failing _ _ => true
  | waiting _ => true
  | _ => false

end Call

namespace State

def setCall (s : State) (c : Nat) (call : Call) : State :=
  { s with calls := Function.update s.calls c call }

def setPending (s : State) (id : Nat) (waiter : Option Nat) : State :=
  { s with pending := Function.update s.pending id waiter }

def setShutdown (s : State) (j : Nat) (pc : Shutdown) : State :=
  { s with shutdowns := Function.update s.shutdowns j pc }

theorem setCall_self (s : State) (c : Nat) (call : Call) : (s.setCall c call).calls c = call :=
  Function.update_self ..

theorem setCall_of_ne (s : State) {c c' : Nat} (call : Call) (h : c' ≠ c) :
    (s.setCall c call).calls c' = s.calls c' :=
  Function.update_of_ne h ..

theorem setPending_self (s : State) (id : Nat) (waiter : Option Nat) :
    (s.setPending id waiter).pending id = waiter :=
  Function.update_self ..

theorem setPending_of_ne (s : State) {id id' : Nat} (waiter : Option Nat) (h : id' ≠ id) :
    (s.setPending id waiter).pending id' = s.pending id' :=
  Function.update_of_ne h ..

theorem setShutdown_self (s : State) (j : Nat) (pc : Shutdown) :
    (s.setShutdown j pc).shutdowns j = pc :=
  Function.update_self ..

theorem setShutdown_of_ne (s : State) {j j' : Nat} (pc : Shutdown) (h : j' ≠ j) :
    (s.setShutdown j pc).shutdowns j' = s.shutdowns j' :=
  Function.update_of_ne h ..

/-- A call whose sender nobody has any more. -/
def dropped (s : State) (c id : Nat) : Bool :=
  s.pending id ≠ some c && match s.reader with
    | .holding _ call => call ≠ c
    | _ => true

end State

/-! ## Steps -/

/-- What `try_wait` tells of the child. -/
inductive Poll where
  | exited
  | alive
  | failed
  deriving DecidableEq, Repr

inductive Act where
  | call (c : Nat) (method : String) (params : Value)
  | number (c : Nat)
  | register (c : Nat)
  | write (c : Nat) (result : Except String Unit)
  | unregister (c : Nat)
  | receive (c : Nat)
  | abandon (c : Nat)
  /-- the plugin writes a line -/
  | line (text : String)
  | send
  /-- the end of the output, or a line that is not text -/
  | leave
  | setGone
  | clear
  | shutdown (j : Nat)
  | poll (j : Nat) (answer : Poll)
  | reap (j : Nat) (killed : Bool)
  | take (j : Nat)
  | join (j : Nat)
  | storeGone (j : Nat)
  | clearAll (j : Nat)

/-- Route one line to its waiter, if any. -/
def dispatch (s : State) (line : String) : State :=
  match parseLine json line with
  | none => s
  | some value =>
    match responseId value with
    | none => s
    | some id =>
      match s.pending id with
      | none => s
      | some c => { s.setPending id none with reader := .holding value c }

/-- Send a response to a call, unless that has gone. -/
def sendTo (s : State) (value : Value) (c : Nat) : State :=
  let s := { s with reader := .running }
  if (s.calls c).listens then
    { s with
      sent := Function.update s.sent c (some (reply json value))
      answers := s.answers ++ [(c, value)] }
  else s

def step (s : State) : Act → Option State
  | .call c method params =>
    match s.calls c with
    | .idle => some (s.setCall c
        (if s.gone then .returned none (.error (.protocol goneMsg)) else .checked method params))
    | _ => none
  | .number c =>
    match s.calls c with
    | .checked method params =>
      let id := (s.nextId + 1) % 2 ^ 64
      let line := json.toText (request id method params)
      some ({ s with nextId := id }.setCall c (.numbered id line))
    | _ => none
  | .register c =>
    match s.calls c with
    | .numbered id line => some ((s.setPending id (some c)).setCall c (.registered id line))
    | _ => none
  | .write c result =>
    match s.calls c with
    | .registered id line =>
      if s.stdin then
        match result with
        | .ok _ => some ({ s with input := s.input ++ [line] }.setCall c (.waiting id))
        | .error e =>
          some (s.setCall c (.failing id (goneMsg ++ " (stdin write failed: " ++ e ++ ")")))
      else some (s.setCall c (.failing id goneMsg))
    | _ => none
  | .unregister c =>
    match s.calls c with
    | .failing id why =>
      some ((s.setPending id none).setCall c (.returned (some id) (.error (.protocol why))))
    | _ => none
  | .receive c =>
    match s.calls c with
    | .waiting id =>
      match s.sent c with
      | some result => some (s.setCall c (.returned (some id) (outcome result)))
      | none =>
        if s.dropped c id then
          some (s.setCall c (.returned (some id) (.error (.protocol goneMsg))))
        else none
    | _ => none
  | .abandon c =>
    match s.calls c with
    | .waiting id => some (s.setCall c (.abandoned id))
    | _ => none
  | .line text =>
    match s.reader with
    | .running => some (dispatch json s text)
    | _ => none
  | .send =>
    match s.reader with
    | .holding value c => some (sendTo json s value c)
    | _ => none
  | .leave =>
    match s.reader with
    | .running => some { s with reader := .leaving }
    | _ => none
  | .setGone =>
    match s.reader with
    | .leaving => some { s with reader := .clearing, gone := true }
    | _ => none
  | .clear =>
    match s.reader with
    | .clearing => some { s with reader := .ended, pending := fun _ => none }
    | _ => none
  | .shutdown j =>
    if s.shutdowns j = .idle then some ({ s with stdin := false }.setShutdown j (.polling 50))
    else none
  | .poll j answer =>
    match s.shutdowns j with
    | .polling 0 => some (s.setShutdown j (.reaping false))
    | .polling (left + 1) =>
      if s.child = false ∨ answer = .exited then some (s.setShutdown j (.reaping true))
      else if answer = .alive then some (s.setShutdown j (.polling left))
      else some (s.setShutdown j (.returned false))
    | _ => none
  | .reap j killed =>
    match s.shutdowns j with
    | .reaping exited =>
      if s.child = true ∧ exited = false ∧ killed = false then
        some (s.setShutdown j (.returned false))
      else some ({ s with child := false }.setShutdown j .taking)
    | _ => none
  | .take j =>
    match s.shutdowns j, s.handle with
    | .taking, .held => some ({ s with handle := .joining }.setShutdown j .joining)
    | .taking, .joined => some (s.setShutdown j .storing)
    | _, _ => none
  | .join j =>
    match s.shutdowns j, s.reader with
    | .joining, .ended => some ({ s with handle := .joined }.setShutdown j .storing)
    | _, _ => none
  | .storeGone j =>
    if s.shutdowns j = .storing then some ({ s with gone := true }.setShutdown j .clearing)
    else none
  | .clearAll j =>
    if s.shutdowns j = .clearing then
      some ({ s with pending := fun _ => none }.setShutdown j (.returned true))
    else none

/-! ## What is promised -/

/-- The reader has finished, or a shutdown has returned. -/
def Over (s : State) : Prop := s.reader = .ended ∨ ∃ j ok, s.shutdowns j = .returned ok

/-- A call is answered once, by a response with its own id, and that is what it returns; once it is
over nobody is registered, and a call that still waits can return or is about to be sent its
answer. -/
structure Promised (s : State) : Prop where
  single : (s.answers.map Prod.fst).Nodup
  own : ∀ c value, (c, value) ∈ s.answers →
    ∃ id, (s.calls c).id = some id ∧ responseId value = some id
  answered : ∀ c id result, s.calls c = .returned id result →
    (∃ why, result = .error (.protocol why)) ∨
      ∃ value, (c, value) ∈ s.answers ∧ result = outcome (reply json value)
  released : Over s → ∀ id, s.pending id = none
  free : Over s → ∀ c id, s.calls c = .waiting id →
    (∃ s', step json s (.receive c) = some s') ∨ ∃ value, s.reader = .holding value c

/-- Nobody waits in the table, and nobody is about to. -/
structure Closed (s : State) : Prop where
  gone : s.gone = true
  pending : ∀ id, s.pending id = none
  calls : ∀ c, (s.calls c).registers = false

/-- As the reader clears the table, no call stands between its look at the flag and its
registration; and a shutdown returns with an error only where nobody waits or is about to. -/
def Timely (s : State) : Act → Prop
  | .clear => ∀ c, (s.calls c).registers = false
  | .poll j answer => ∀ left, s.shutdowns j = .polling (left + 1) → s.child = true →
    answer = .failed → Closed s
  | .reap j killed => s.shutdowns j = .reaping false → s.child = true → killed = false → Closed s
  | _ => True

variable {json} {s s' : State}

/-! ## Shutdowns -/

/-- A shutdown that has waited for the reader. -/
def Shutdown.hasJoined : Shutdown → Bool
  | storing => true
  | clearing => true
  | returned ok => ok
  | _ => false

/-- The steps of a shutdown. -/
def Act.shutsDown : Act → Bool
  | shutdown _ => true
  | poll _ _ => true
  | reap _ _ => true
  | take _ => true
  | join _ => true
  | storeGone _ => true
  | clearAll _ => true
  | _ => false

/-- What a step of a shutdown does.  It waits for the reader before it touches the flag or the table,
and where it returns with an error a timely run has been closed. -/
structure ShutdownStep (s : State) (act : Act) (s' : State) : Prop where
  calls : s'.calls = s.calls
  sent : s'.sent = s.sent
  answers : s'.answers = s.answers
  reader : s'.reader = s.reader
  gone : s'.gone = s.gone ∨ s'.gone = true
  pending : s'.pending = s.pending ∨ s'.pending = fun _ => none
  handle : s'.handle = s.handle ∨ (s.handle = .held ∧ s'.handle = .joining) ∨
    (s.reader = .ended ∧ s'.handle = .joined)
  joined : ∀ j, (s'.shutdowns j).hasJoined = true →
    (s.shutdowns j).hasJoined = true ∨ s'.handle = .joined
  returned : ∀ j ok, s'.shutdowns j = .returned ok →
    s.shutdowns j = .returned ok ∨ (s.shutdowns j).hasJoined = true ∨ (Timely s act → Closed s)

/-- One shutdown moves on. -/
theorem shutdownStep_setShutdown {s s₁ : State} {act : Act} {j : Nat} {pc : Shutdown}
    (hcalls : s₁.calls = s.calls) (hsent : s₁.sent = s.sent) (hanswers : s₁.answers = s.answers)
    (hreader : s₁.reader = s.reader) (hshutdowns : s₁.shutdowns = s.shutdowns)
    (hgone : s₁.gone = s.gone ∨ s₁.gone = true)
    (hpending : s₁.pending = s.pending ∨ s₁.pending = fun _ => none)
    (hhandle : s₁.handle = s.handle ∨ (s.handle = .held ∧ s₁.handle = .joining) ∨
      (s.reader = .ended ∧ s₁.handle = .joined))
    (hjoined : pc.hasJoined = true → (s.shutdowns j).hasJoined = true ∨ s₁.handle = .joined)
    (hreturned : ∀ ok, pc = .returned ok →
      (s.shutdowns j).hasJoined = true ∨ (Timely s act → Closed s)) :
    ShutdownStep s act (s₁.setShutdown j pc) where
  calls := hcalls
  sent := hsent
  answers := hanswers
  reader := hreader
  gone := hgone
  pending := hpending
  handle := hhandle
  joined := fun j' h => by
    by_cases hj : j' = j
    · subst hj
      rw [State.setShutdown_self] at h
      exact hjoined h
    · rw [State.setShutdown_of_ne _ _ hj, hshutdowns] at h
      exact .inl h
  returned := fun j' ok h => by
    by_cases hj : j' = j
    · subst hj
      rw [State.setShutdown_self] at h
      exact .inr (hreturned ok h)
    · rw [State.setShutdown_of_ne _ _ hj, hshutdowns] at h
      exact .inl h

theorem shutdownStep {act : Act} (hact : act.shutsDown = true) (h : step json s act = some s') :
    ShutdownStep s act s' := by
  cases act with
  | shutdown j =>
    obtain ⟨-, hs'⟩ := Option.ite_none_right_eq_some.mp h
    cases hs'
    exact shutdownStep_setShutdown rfl rfl rfl rfl rfl (.inl rfl) (.inl rfl) (.inl rfl) nofun nofun
  | poll j answer =>
    simp only [step] at h
    split at h
    · cases h
      exact shutdownStep_setShutdown rfl rfl rfl rfl rfl (.inl rfl) (.inl rfl) (.inl rfl) nofun nofun
    · rename_i left hpolling
      split at h
      · cases h
        exact shutdownStep_setShutdown rfl rfl rfl rfl rfl (.inl rfl) (.inl rfl) (.inl rfl) nofun
          nofun
      · rename_i hrunning
        split at h
        · cases h
          exact shutdownStep_setShutdown rfl rfl rfl rfl rfl (.inl rfl) (.inl rfl) (.inl rfl) nofun
            nofun
        · rename_i halive
          cases h
          have hchild : s.child = true := by
            cases hchild : s.child with
            | true => rfl
            | false => exact absurd (.inl hchild) hrunning
          have hfailed : answer = .failed := by
            cases answer with
            | failed => rfl
            | exited => exact absurd (.inr rfl) hrunning
            | alive => exact absurd rfl halive
          exact shutdownStep_setShutdown rfl rfl rfl rfl rfl (.inl rfl) (.inl rfl) (.inl rfl) nofun
            fun _ _ => .inr fun htimely => htimely left hpolling hchild hfailed
    · cases h
  | reap j killed =>
    simp only [step] at h
    split at h
    · rename_i exited hreaping
      split at h
      · rename_i hfails
        cases h
        obtain ⟨hchild, rfl, hkilled⟩ := hfails
        exact shutdownStep_setShutdown rfl rfl rfl rfl rfl (.inl rfl) (.inl rfl) (.inl rfl) nofun
          fun _ _ => .inr fun htimely => htimely hreaping hchild hkilled
      · cases h
        exact shutdownStep_setShutdown rfl rfl rfl rfl rfl (.inl rfl) (.inl rfl) (.inl rfl) nofun
          nofun
    · cases h
  | take j =>
    simp only [step] at h
    split at h
    · rename_i htaking hheld
      cases h
      exact shutdownStep_setShutdown rfl rfl rfl rfl rfl (.inl rfl) (.inl rfl)
        (.inr (.inl ⟨hheld, rfl⟩)) nofun nofun
    · rename_i htaking hjoined
      cases h
      exact shutdownStep_setShutdown rfl rfl rfl rfl rfl (.inl rfl) (.inl rfl) (.inl rfl)
        (fun _ => .inr hjoined) nofun
    · cases h
  | join j =>
    simp only [step] at h
    split at h
    · rename_i hjoining hended
      cases h
      exact shutdownStep_setShutdown rfl rfl rfl rfl rfl (.inl rfl) (.inl rfl)
        (.inr (.inr ⟨hended, rfl⟩)) (fun _ => .inr rfl) nofun
    · cases h
  | storeGone j =>
    obtain ⟨hstoring, hs'⟩ := Option.ite_none_right_eq_some.mp h
    cases hs'
    have hbefore : (s.shutdowns j).hasJoined = true := by
      rw [hstoring]
      rfl
    exact shutdownStep_setShutdown rfl rfl rfl rfl rfl (.inr rfl) (.inl rfl) (.inl rfl)
      (fun _ => .inl hbefore) nofun
  | clearAll j =>
    obtain ⟨hclearing, hs'⟩ := Option.ite_none_right_eq_some.mp h
    cases hs'
    have hbefore : (s.shutdowns j).hasJoined = true := by
      rw [hclearing]
      rfl
    exact shutdownStep_setShutdown rfl rfl rfl rfl rfl (.inl rfl) (.inr rfl) (.inl rfl)
      (fun _ => .inl hbefore) (fun _ _ => .inl hbefore)
  | call | number | register | write | unregister | receive | abandon | line | send | leave
  | setGone | clear => cases hact

theorem ShutdownStep.pending_none {act : Act} (h : ShutdownStep s act s') {id : Nat}
    (hnone : s.pending id = none) : s'.pending id = none := by
  rcases h.pending with heq | heq
  · rw [heq, hnone]
  · rw [heq]

theorem ShutdownStep.pending_some {act : Act} (h : ShutdownStep s act s') {id c : Nat}
    (hsome : s'.pending id = some c) : s.pending id = some c := by
  rcases h.pending with heq | heq
  · rw [← heq, hsome]
  · rw [heq] at hsome
    cases hsome

end AnyConverter.PluginTransport
