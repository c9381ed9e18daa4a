import Mathlib.Data.List.Nodup
import Mathlib.Logic.Function.Basic
import AnyConverter.Lib.Runs
import AnyConverter.Server.SignIn.Query

/-!
# The session of a browser sign-in

A start makes a verifier and a state, and whoever exchanges a code takes the session with them.  The
code comes to a listener that a wait has taken over, or in a pasted address, and it is checked
against the state before the session is looked at again.

* `Traced.step`: what every step keeps of the codes and the sessions;
* `Unspent.step`: a verifier that was sent is in no session;
* `codes_paired_iff`: when every code is exchanged under the session whose state it came with;
* `one_session`: so it is for a sign-in that is started once, and one code is exchanged at most.
-/

set_option autoImplicit false

namespace AnyConverter.SignIn.Pkce

open Runs

/-! ## Sessions -/

/-- Everything `wait` and `finish_pasted` need that was generated in `start`. -/
structure PkceSession where
  verifier : String
  state : String
  /-- the port of the loopback listener, until a wait takes it -/
  listener : Option Nat
  redirectUri : String

/-- What stays of a session when its listener is taken. -/
def PkceSession.flow (session : PkceSession) : PkceSession := { session with listener := none }

inductive CallbackOutcome where
  /-- `state` matched and a `code` was present -/
  | success (code : String)
  /-- `state` missing or wrong, or no code: the wait goes on -/
  | mismatch
  /-- the provider redirected with `error` -/
  | fatal (error : SignInError)

def classifyCallback (params : String → Option String) (expectedState : String) : CallbackOutcome :=
  match params "error" with
  | some err =>
    .fatal (.vendor ("authorization failed: " ++ err ++ " (" ++
      (params "error_description").getD "" ++ ")"))
  | none =>
    if params "state" = some expectedState then
      match params "code" with
      | some code => if code = "" then .mismatch else .success code
      | none => .mismatch
    else .mismatch

/-- One `wait`. -/
inductive Wait where
  | idle
  /-- its server runs, and these outcomes are in the channel -/
  | serving (expectedState : String) (channel : List (Except SignInError String))
  | received (expectedState code : String)
  | over

/-- A wait has this code, which came with the state that it expects. -/
def Wait.Holds (expectedState code : String) : Wait → Prop
  | .serving expected channel => expected = expectedState ∧ .ok code ∈ channel
  | .received expected sent => expected = expectedState ∧ sent = code
  | _ => False

/-- The state a wait compares with. -/
def Wait.expects : Wait → Option String
  | .serving expected _ | .received expected _ => some expected
  | _ => none

/-- One `finish_pasted`. -/
inductive Paste where
  | idle
  | checked (expectedState code : String)
  | over

def Paste.Holds (expectedState code : String) : Paste → Prop
  | .checked expected pasted => expected = expectedState ∧ pasted = code
  | _ => False

def Paste.expects : Paste → Option String
  | .checked expected _ => some expected
  | _ => none

/-- A code that was exchanged: the state it came with, and the session that was taken for it. -/
structure Exchange where
  code : String
  came : String
  flow : PkceSession

structure State where
  session : Option PkceSession
  waits : Nat → Wait
  pastes : Nat → Paste
  /-- the sessions there were -/
  started : List PkceSession
  /-- the codes that came, and the state each came with -/
  answers : List (String × String)
  exchanges : List Exchange

inductive Act where
  | start (verifier state redirectUri : String) (port : Nat)
  | wait (i : Nat)
  /-- a browser comes to the listener of a wait -/
  | callback (i : Nat) (params : String → Option String)
  | receive (i : Nat)
  /-- the timeout of a wait, or the end of its task -/
  | giveUp (i : Nat)
  | exchange (i : Nat)
  | paste (j : Nat) (url expectedState : String)
  | exchangePasted (j : Nat)

namespace State

def setWait (s : State) (i : Nat) (wait : Wait) : State :=
  { s with waits := Function.update s.waits i wait }

def setPaste (s : State) (j : Nat) (paste : Paste) : State :=
  { s with pastes := Function.update s.pastes j paste }

def note (s : State) (code state : Option String) : State :=
  match code, state with
  | some code, some state => { s with answers := s.answers ++ [(code, state)] }
  | _, _ => s

/-- The session is taken for a code, if there is one. -/
def take (s : State) (came code : String) : State :=
  match s.session with
  | some session =>
    { s with session := none, exchanges := s.exchanges ++ [⟨code, came, session.flow⟩] }
  | none => s

end State

def step (s : State) : Act → Option State
  | .start verifier state redirectUri port =>
    let session := ⟨verifier, state, some port, redirectUri⟩
    some { s with session := some session, started := s.started ++ [session.flow] }
  | .wait i =>
    match s.waits i with
    | .idle =>
      match s.session with
      | some session =>
        match session.listener with
        | some _ =>
          some ({ s with session := some session.flow }.setWait i (.serving session.state []))
        | none => some (s.setWait i .over)
      | none => some (s.setWait i .over)
    | _ => none
  | .callback i params =>
    match s.waits i with
    | .serving expected channel =>
      let noted := s.note (params "code") (params "state")
      match classifyCallback params expected with
      | .success code => some (noted.setWait i (.serving expected (channel ++ [.ok code])))
      | .mismatch => some noted
      | .fatal error => some (noted.setWait i (.serving expected (channel ++ [.error error])))
    | _ => none
  | .receive i =>
    match s.waits i with
    | .serving expected (.ok code :: _) => some (s.setWait i (.received expected code))
    | .serving _ (.error _ :: _) => some (s.setWait i .over)
    | _ => none
  | .giveUp i => some (s.setWait i .over)
  | .exchange i =>
    match s.waits i with
    | .received expected code => some ((s.take expected code).setWait i .over)
    | _ => none
  | .paste j url expected =>
    match s.pastes j with
    | .idle =>
      let pairs := queryPairs url
      let noted := s.note (get pairs "code") (get pairs "state")
      match answerOf pairs expected with
      | .ok code => some (noted.setPaste j (.checked expected code))
      | .error _ => some (noted.setPaste j .over)
    | _ => none
  | .exchangePasted j =>
    match s.pastes j with
    | .checked expected code => some ((s.take expected code).setPaste j .over)
    | _ => none

def start : State := ⟨none, fun _ => .idle, fun _ => .idle, [], [], []⟩

/-! ## What is promised -/

/-- The verifier of a start was never drawn before. -/
def Fresh (s : State) : Act → Prop
  | .start verifier _ _ _ => verifier ∉ s.started.map PkceSession.verifier
  | _ => True

/-- Every code was exchanged under the session whose state it came with. -/
def Paired (s : State) : Prop := ∀ exchange ∈ s.exchanges, exchange.came = exchange.flow.state

/-- The session that is taken for a code is the one whose state it came with, if there is one. -/
def Own (s : State) : Act → Prop
  | .exchange i => ∀ expected code, s.waits i = .received expected code →
    ∀ session, s.session = some session → expected = session.state
  | .exchangePasted j => ∀ expected code, s.pastes j = .checked expected code →
    ∀ session, s.session = some session → expected = session.state
  | _ => True

/-- A step of a sign-in that was started with a state: no other start, and every pasted address is
checked against this state. -/
def Act.OfTask (state : String) : Act → Prop
  | .start _ _ _ _ => False
  | .paste _ _ expected => expected = state
  | _ => True

/-- A sign-in as a task runs it: one start, whose state goes into all that comes after. -/
def StartedOnce (acts : List Act) : Prop :=
  ∃ verifier state redirectUri port rest, acts = .start verifier state redirectUri port :: rest ∧
    ∀ a ∈ rest, a.OfTask state

/-- Every code that is still to be exchanged came with the state it was checked against. -/
structure Traced (s : State) : Prop where
  waits : ∀ i expected code, (s.waits i).Holds expected code → (code, expected) ∈ s.answers
  pastes : ∀ j expected code, (s.pastes j).Holds expected code → (code, expected) ∈ s.answers
  exchanged : ∀ exchange ∈ s.exchanges, (exchange.code, exchange.came) ∈ s.answers ∧
    exchange.flow ∈ s.started
  session : ∀ session, s.session = some session → session.flow ∈ s.started

/-- A verifier that was sent is in no session, and was sent once. -/
structure Unspent (s : State) : Prop where
  session : ∀ session, s.session = some session →
    session.verifier ∉ s.exchanges.map fun exchange => exchange.flow.verifier
  once : (s.exchanges.map fun exchange => exchange.flow.verifier).Nodup

/-! ## Answers -/

theorem classifyCallback_success {params : String → Option String} {expected code : String}
    (h : classifyCallback params expected = .success code) :
    params "code" = some code ∧ params "state" = some expected := by
  unfold classifyCallback at h
  split at h
  · cases h
  · split at h
    · rename_i hstate
      split at h
      · rename_i hcode
        split at h
        · cases h
        · cases h
          exact ⟨hcode, hstate⟩
      · cases h
    · cases h

theorem answerOf_ok {pairs : List (String × String)} {expected code : String}
    (h : answerOf pairs expected = .ok code) :
    get pairs "code" = some code ∧ get pairs "state" = some expected := by
  unfold answerOf at h
  split at h
  · cases h
  · split at h
    · rename_i hstate
      split at h
      · rename_i hcode
        cases h
        exact ⟨hcode, hstate⟩
      · cases h
    · cases h

theorem mem_note {s : State} {code state : Option String} {answer : String × String}
    (h : answer ∈ s.answers) : answer ∈ (s.note code state).answers := by
  unfold State.note
  split
  · exact List.mem_append_left _ h
  · exact h

theorem mem_note_self {s : State} {given givenState : Option String} {code state : String}
    (hcode : given = some code) (hstate : givenState = some state) :
    (code, state) ∈ (s.note given givenState).answers := by
  rw [hcode, hstate]
  exact List.mem_append_right _ (List.mem_singleton_self _)

/-- Noting an answer changes nothing else. -/
theorem note_eq (s : State) (code state : Option String) :
    ∃ answers, s.note code state = { s with answers := answers } := by
  unfold State.note
  split
  · exact ⟨_, rfl⟩
  · exact ⟨_, rfl⟩

/-! ## What the steps keep -/

theorem Traced.note {s : State} (h : Traced s) (code state : Option String) :
    Traced (s.note code state) := by
  have hmem : ∀ {answer}, answer ∈ s.answers → answer ∈ (s.note code state).answers := mem_note
  obtain ⟨answers, heq⟩ := note_eq s code state
  rw [heq] at hmem ⊢
  exact
    { waits := fun i expected code hholds => hmem (h.waits i expected code hholds)
      pastes := fun j expected code hholds => hmem (h.pastes j expected code hholds)
      exchanged := fun exchange hexchange =>
        ⟨hmem (h.exchanged exchange hexchange).1, (h.exchanged exchange hexchange).2⟩
      session := h.session }

theorem Traced.setWait {s : State} (h : Traced s) {i : Nat} {wait : Wait}
    (hwait : ∀ expected code, wait.Holds expected code → (code, expected) ∈ s.answers) :
    Traced (s.setWait i wait) where
  waits k expected code hholds := by
    unfold State.setWait at hholds
    by_cases hk : k = i
    · subst hk
      simp only [Function.update_self] at hholds
      exact hwait expected code hholds
    · simp only [Function.update_of_ne hk] at hholds
      exact h.waits k expected code hholds
  pastes := h.pastes
  exchanged := h.exchanged
  session := h.session

theorem Traced.setPaste {s : State} (h : Traced s) {j : Nat} {paste : Paste}
    (hpaste : ∀ expected code, paste.Holds expected code → (code, expected) ∈ s.answers) :
    Traced (s.setPaste j paste) where
  waits := h.waits
  pastes k expected code hholds := by
    unfold State.setPaste at hholds
    by_cases hk : k = j
    · subst hk
      simp only [Function.update_self] at hholds
      exact hpaste expected code hholds
    · simp only [Function.update_of_ne hk] at hholds
      exact h.pastes k expected code hholds
  exchanged := h.exchanged
  session := h.session

theorem Traced.take {s : State} (h : Traced s) {expected code : String}
    (hanswer : (code, expected) ∈ s.answers) : Traced (s.take expected code) := by
  unfold State.take
  split
  · rename_i session hsession
    refine ⟨h.waits, h.pastes, ?_, by simp⟩
    intro exchange hexchange
    rcases List.mem_append.mp hexchange with hbefore | hnew
    · exact h.exchanged exchange hbefore
    · rw [List.mem_singleton.mp hnew]
      exact ⟨hanswer, h.session session hsession⟩
  · exact h

theorem not_holds_idle {expected code : String} {P : Prop} (h : Wait.Holds expected code .idle) :
    P := False.elim h

theorem not_holds_unpasted {expected code : String} {P : Prop}
    (h : Paste.Holds expected code .idle) : P := False.elim h

theorem not_holds_over {expected code : String} {P : Prop} (h : Wait.Holds expected code .over) :
    P := False.elim h

theorem not_holds_pasted {expected code : String} {P : Prop} (h : Paste.Holds expected code .over) :
    P := False.elim h

/-- **Every step keeps it traced where the codes and the sessions come from.** -/
theorem Traced.step {s s' : State} {a : Act} (h : Traced s) (hstep : Pkce.step s a = some s') :
    Traced s' := by
  cases a with
  | start verifier state redirectUri port =>
    cases hstep
    refine ⟨h.waits, h.pastes, ?_, ?_⟩
    · intro exchange hexchange
      obtain ⟨hanswer, hflow⟩ := h.exchanged exchange hexchange
      exact ⟨hanswer, List.mem_append_left _ hflow⟩
    · intro session hsession
      cases hsession
      exact List.mem_append_right _ (List.mem_singleton_self _)
  | wait i =>
    simp only [Pkce.step] at hstep
    split at hstep
    · split at hstep
      · rename_i session hsession
        split at hstep
        · cases hstep
          have htaken : Traced { s with session := some session.flow } := by
            refine ⟨h.waits, h.pastes, h.exchanged, ?_⟩
            intro session' hsession'
            cases hsession'
            exact h.session session hsession
          refine htaken.setWait ?_
          rintro expected code ⟨-, hmem⟩
          cases hmem
        · cases hstep
          exact h.setWait fun _ _ => not_holds_over
      · cases hstep
        exact h.setWait fun _ _ => not_holds_over
    · cases hstep
  | callback i params =>
    simp only [Pkce.step] at hstep
    split at hstep
    · rename_i expected channel hwait
      have hnoted := h.note (params "code") (params "state")
      have hchannel : ∀ code, .ok code ∈ channel →
          (code, expected) ∈ (s.note (params "code") (params "state")).answers := by
        intro code hmem
        exact mem_note (h.waits i expected code (by rw [hwait]; exact ⟨rfl, hmem⟩))
      split at hstep
      · rename_i code hclass
        cases hstep
        refine hnoted.setWait ?_
        rintro _ code' ⟨rfl, hmem⟩
        rcases List.mem_append.mp hmem with hbefore | hnew
        · exact hchannel code' hbefore
        · cases List.mem_singleton.mp hnew
          obtain ⟨hcode, hstate⟩ := classifyCallback_success hclass
          exact mem_note_self hcode hstate
      · cases hstep
        exact hnoted
      · cases hstep
        refine hnoted.setWait ?_
        rintro _ code' ⟨rfl, hmem⟩
        rcases List.mem_append.mp hmem with hbefore | hnew
        · exact hchannel code' hbefore
        · cases List.mem_singleton.mp hnew
    · cases hstep
  | receive i =>
    simp only [Pkce.step] at hstep
    split at hstep
    · rename_i expected code rest hwait
      cases hstep
      refine h.setWait ?_
      rintro _ _ ⟨rfl, rfl⟩
      exact h.waits i expected code (by rw [hwait]; exact ⟨rfl, List.mem_cons_self⟩)
    · cases hstep
      exact h.setWait fun _ _ => not_holds_over
    · cases hstep
  | giveUp i =>
    cases hstep
    exact h.setWait fun _ _ => not_holds_over
  | exchange i =>
    simp only [Pkce.step] at hstep
    split at hstep
    · rename_i expected code hwait
      cases hstep
      have hanswer := h.waits i expected code (by rw [hwait]; exact ⟨rfl, rfl⟩)
      exact (h.take hanswer).setWait fun _ _ => not_holds_over
    · cases hstep
  | paste j url expected =>
    simp only [Pkce.step] at hstep
    generalize queryPairs url = pairs at hstep
    split at hstep
    · split at hstep
      · rename_i code hanswer
        cases hstep
        refine (h.note _ _).setPaste ?_
        rintro _ _ ⟨rfl, rfl⟩
        obtain ⟨hcode, hstate⟩ := answerOf_ok hanswer
        exact mem_note_self hcode hstate
      · cases hstep
        exact (h.note _ _).setPaste fun _ _ => not_holds_pasted
    · cases hstep
  | exchangePasted j =>
    simp only [Pkce.step] at hstep
    split at hstep
    · rename_i expected code hpaste
      cases hstep
      have hanswer := h.pastes j expected code (by rw [hpaste]; exact ⟨rfl, rfl⟩)
      exact (h.take hanswer).setPaste fun _ _ => not_holds_pasted
    · cases hstep

/-- What a step takes a session for. -/
def Act.takes (s : State) : Act → Option (String × String)
  | .exchange i =>
    match s.waits i with
    | .received expected code => some (expected, code)
    | _ => none
  | .exchangePasted j =>
    match s.pastes j with
    | .checked expected code => some (expected, code)
    | _ => none
  | _ => none

/-- What a step makes of the session and of the exchanges. -/
inductive Effect (s : State) (a : Act) (s' : State) : Prop where
  | started (verifier state redirectUri : String) (port : Nat)
      (act : a = .start verifier state redirectUri port)
      (session : s'.session = some ⟨verifier, state, some port, redirectUri⟩)
      (exchanges : s'.exchanges = s.exchanges)
  | took (expected code : String) (taken : PkceSession) (takes : a.takes s = some (expected, code))
      (before : s.session = some taken) (session : s'.session = none)
      (exchanges : s'.exchanges = s.exchanges ++ [⟨code, expected, taken.flow⟩])
  | kept (spare : a.takes s = none ∨ s.session = none)
      (session : s'.session.map PkceSession.flow = s.session.map PkceSession.flow)
      (exchanges : s'.exchanges = s.exchanges)

theorem Effect.of_take {s s' : State} {a : Act} {expected code : String}
    (htakes : a.takes s = some (expected, code))
    (hsession : s'.session = (s.take expected code).session)
    (hexchanges : s'.exchanges = (s.take expected code).exchanges) : Effect s a s' := by
  unfold State.take at hsession hexchanges
  cases hbefore : s.session with
  | none =>
    rw [hbefore] at hsession hexchanges
    exact .kept (Or.inr hbefore) (by rw [hsession]) hexchanges
  | some taken =>
    rw [hbefore] at hsession hexchanges
    exact .took expected code taken htakes hbefore hsession hexchanges

theorem Effect.of_note {s s' : State} {a : Act} {code state : Option String}
    (hspare : a.takes s = none) (hsession : s'.session = (s.note code state).session)
    (hexchanges : s'.exchanges = (s.note code state).exchanges) : Effect s a s' := by
  obtain ⟨answers, heq⟩ := note_eq s code state
  rw [heq] at hsession hexchanges
  exact .kept (Or.inl hspare) (congrArg _ hsession) hexchanges

theorem step_effect {s s' : State} {a : Act} (hstep : step s a = some s') : Effect s a s' := by
  cases a with
  | start verifier state redirectUri port =>
    cases hstep
    exact .started verifier state redirectUri port rfl rfl rfl
  | wait i =>
    simp only [step] at hstep
    split at hstep
    · split at hstep
      · rename_i session hsession
        split at hstep
        · cases hstep
          exact .kept (Or.inl rfl) (by rw [hsession]; rfl) rfl
        · cases hstep
          exact .kept (Or.inl rfl) rfl rfl
      · cases hstep
        exact .kept (Or.inl rfl) rfl rfl
    · cases hstep
  | callback i params =>
    simp only [step] at hstep
    split at hstep
    · split at hstep
      all_goals
        cases hstep
        exact .of_note rfl rfl rfl
    · cases hstep
  | receive i =>
    simp only [step] at hstep
    split at hstep
    · cases hstep
      exact .kept (Or.inl rfl) rfl rfl
    · cases hstep
      exact .kept (Or.inl rfl) rfl rfl
    · cases hstep
  | giveUp i =>
    cases hstep
    exact .kept (Or.inl rfl) rfl rfl
  | exchange i =>
    simp only [step] at hstep
    split at hstep
    · rename_i expected code hwait
      cases hstep
      have htakes : Act.takes s (.exchange i) = some (expected, code) := by
        simp only [Act.takes, hwait]
      exact .of_take htakes rfl rfl
    · cases hstep
  | paste j url expected =>
    simp only [step] at hstep
    generalize queryPairs url = pairs at hstep
    split at hstep
    · split at hstep
      all_goals
        cases hstep
        exact .of_note rfl rfl rfl
    · cases hstep
  | exchangePasted j =>
    simp only [step] at hstep
    split at hstep
    · rename_i expected code hpaste
      cases hstep
      have htakes : Act.takes s (.exchangePasted j) = some (expected, code) := by
        simp only [Act.takes, hpaste]
      exact .of_take htakes rfl rfl
    · cases hstep

/-- **A verifier that was sent stays out of the session**, and is sent no second time. -/
theorem Unspent.step {s s' : State} {a : Act} (h : Unspent s) (htraced : Traced s)
    (hfresh : Fresh s a) (hstep : Pkce.step s a = some s') : Unspent s' := by
  rcases step_effect hstep with ⟨verifier, state, redirectUri, port, rfl, hsession, hexchanges⟩ |
    ⟨expected, code, taken, -, hbefore, hsession, hexchanges⟩ | ⟨-, hsession, hexchanges⟩
  · refine ⟨?_, by rw [hexchanges]; exact h.once⟩
    intro session hnew hmem
    rw [hsession] at hnew
    cases hnew
    rw [hexchanges] at hmem
    obtain ⟨exchange, hexchange, hverifier⟩ := List.mem_map.mp hmem
    exact hfresh (List.mem_map.mpr ⟨_, (htraced.exchanged exchange hexchange).2, hverifier⟩)
  · refine ⟨by simp [hsession], ?_⟩
    rw [hexchanges, List.map_append]
    refine List.Nodup.append h.once (List.nodup_singleton _) ?_
    have hnew : taken.flow.verifier ∉ s.exchanges.map fun exchange => exchange.flow.verifier :=
      h.session taken hbefore
    rw [List.disjoint_comm]
    simpa using hnew
  · refine ⟨?_, by rw [hexchanges]; exact h.once⟩
    intro session hnew
    rw [hexchanges]
    rw [hnew] at hsession
    obtain ⟨before, hbefore, hflow⟩ := Option.map_eq_some_iff.mp hsession.symm
    have hverifier : before.flow.verifier = session.flow.verifier := by rw [hflow]
    have hverifier : before.verifier = session.verifier := hverifier
    rw [← hverifier]
    exact h.session before hbefore

/-- What a step is allowed to take a session for, told from what it takes. -/
theorem own_iff {s : State} {a : Act} : Own s a ↔ ∀ expected code, a.takes s = some (expected, code) →
    ∀ session, s.session = some session → expected = session.state := by
  cases a with
  | exchange i =>
    cases hwait : s.waits i <;> simp [Own, Act.takes, hwait]
  | exchangePasted j =>
    cases hpaste : s.pastes j <;> simp [Own, Act.takes, hpaste]
  | _ => simp [Own, Act.takes]

/-- A step keeps the codes paired exactly when it takes the session whose state the code came with. -/
theorem paired_step {s s' : State} {a : Act} (h : Paired s) (hstep : step s a = some s') :
    Paired s' ↔ Own s a := by
  rw [own_iff]
  rcases step_effect hstep with ⟨verifier, state, redirectUri, port, rfl, -, hexchanges⟩ |
    ⟨expected, code, taken, htakes, hbefore, -, hexchanges⟩ | ⟨hspare, -, hexchanges⟩
  · refine iff_of_true ?_ (by simp [Act.takes])
    rw [Paired, hexchanges]
    exact h
  · rw [Paired, hexchanges]
    constructor
    · intro hpaired expected' code' htakes' session hsession
      rw [htakes] at htakes'
      cases htakes'
      rw [hbefore] at hsession
      cases hsession
      exact hpaired ⟨code, expected, taken.flow⟩ (by simp)
    · intro hown exchange hmem
      rcases List.mem_append.mp hmem with hold | hnew
      · exact h exchange hold
      · rw [List.mem_singleton.mp hnew]
        exact hown expected code htakes taken hbefore
  · rw [Paired, hexchanges]
    refine iff_of_true h ?_
    intro expected code htakes session hsession
    rcases hspare with hnone | hnone
    · rw [hnone] at htakes
      cases htakes
    · rw [hnone] at hsession
      cases hsession

/-! ## A sign-in that is started once -/

/-- Everything compares with the state of the one session, and it is there or was taken once. -/
structure Expects (state : String) (s : State) : Prop where
  waits : ∀ i expected, (s.waits i).expects = some expected → expected = state
  pastes : ∀ j expected, (s.pastes j).expects = some expected → expected = state
  session : ∀ session, s.session = some session → session.state = state
  whole : ∀ session, s.session = some session → s.exchanges = []
  single : s.exchanges.length ≤ 1

theorem Expects.own {state : String} {s : State} (h : Expects state s) (a : Act) : Own s a := by
  cases a with
  | exchange i =>
    intro expected code hwait session hsession
    rw [h.session session hsession]
    exact h.waits i expected (by rw [hwait]; rfl)
  | exchangePasted j =>
    intro expected code hpaste session hsession
    rw [h.session session hsession]
    exact h.pastes j expected (by rw [hpaste]; rfl)
  | _ => trivial

/-- The waits after one of them was set. -/
theorem expects_setWait {s : State} {i k : Nat} {wait : Wait} {expected : String}
    (h : ((s.setWait i wait).waits k).expects = some expected) :
    wait.expects = some expected ∨ (s.waits k).expects = some expected := by
  unfold State.setWait at h
  by_cases hk : k = i
  · subst hk
    simp only [Function.update_self] at h
    exact Or.inl h
  · simp only [Function.update_of_ne hk] at h
    exact Or.inr h

theorem expects_setPaste {s : State} {j k : Nat} {paste : Paste} {expected : String}
    (h : ((s.setPaste j paste).pastes k).expects = some expected) :
    paste.expects = some expected ∨ (s.pastes k).expects = some expected := by
  unfold State.setPaste at h
  by_cases hk : k = j
  · subst hk
    simp only [Function.update_self] at h
    exact Or.inl h
  · simp only [Function.update_of_ne hk] at h
    exact Or.inr h

theorem take_waits (s : State) (expected code : String) :
    (s.take expected code).waits = s.waits ∧ (s.take expected code).pastes = s.pastes := by
  unfold State.take
  split <;> exact ⟨rfl, rfl⟩

/-- **What a wait compares with** is what it was told before, or the state of the session. -/
theorem waits_step {s s' : State} {a : Act} (hstep : step s a = some s') {k : Nat}
    {expected : String} (h : (s'.waits k).expects = some expected) :
    (∃ i, (s.waits i).expects = some expected) ∨
      ∃ session, s.session = some session ∧ session.state = expected := by
  cases a with
  | start verifier state redirectUri port =>
    cases hstep
    exact Or.inl ⟨k, h⟩
  | wait i =>
    simp only [step] at hstep
    split at hstep
    · split at hstep
      · rename_i session hsession
        split at hstep
        · cases hstep
          rcases expects_setWait h with hnew | hold
          · exact Or.inr ⟨session, hsession, Option.some.inj hnew⟩
          · exact Or.inl ⟨k, hold⟩
        · cases hstep
          exact Or.inl ⟨k, (expects_setWait h).resolve_left (by simp [Wait.expects])⟩
      · cases hstep
        exact Or.inl ⟨k, (expects_setWait h).resolve_left (by simp [Wait.expects])⟩
    · cases hstep
  | callback i params =>
    simp only [step] at hstep
    split at hstep
    · rename_i hwait
      obtain ⟨answers, hnote⟩ := note_eq s (params "code") (params "state")
      rw [hnote] at hstep
      split at hstep
      · cases hstep
        rcases expects_setWait h with hnew | hold
        · exact Or.inl ⟨i, by rw [hwait]; exact hnew⟩
        · exact Or.inl ⟨k, hold⟩
      · cases hstep
        exact Or.inl ⟨k, h⟩
      · cases hstep
        rcases expects_setWait h with hnew | hold
        · exact Or.inl ⟨i, by rw [hwait]; exact hnew⟩
        · exact Or.inl ⟨k, hold⟩
    · cases hstep
  | receive i =>
    simp only [step] at hstep
    split at hstep
    · rename_i hwait
      cases hstep
      rcases expects_setWait h with hnew | hold
      · exact Or.inl ⟨i, by rw [hwait]; exact hnew⟩
      · exact Or.inl ⟨k, hold⟩
    · cases hstep
      exact Or.inl ⟨k, (expects_setWait h).resolve_left (by simp [Wait.expects])⟩
    · cases hstep
  | giveUp i =>
    cases hstep
    exact Or.inl ⟨k, (expects_setWait h).resolve_left (by simp [Wait.expects])⟩
  | exchange i =>
    simp only [step] at hstep
    split at hstep
    · cases hstep
      have hold := (expects_setWait h).resolve_left (by simp [Wait.expects])
      rw [(take_waits ..).1] at hold
      exact Or.inl ⟨k, hold⟩
    · cases hstep
  | paste j url expected =>
    simp only [step] at hstep
    generalize queryPairs url = pairs at hstep
    obtain ⟨answers, hnote⟩ := note_eq s (get pairs "code") (get pairs "state")
    rw [hnote] at hstep
    split at hstep
    · split at hstep
      all_goals
        cases hstep
        exact Or.inl ⟨k, h⟩
    · cases hstep
  | exchangePasted j =>
    simp only [step] at hstep
    split at hstep
    · cases hstep
      have hold : ((s.take _ _).waits k).expects = some expected := h
      rw [(take_waits ..).1] at hold
      exact Or.inl ⟨k, hold⟩
    · cases hstep

/-- **What a pasted address is compared with** is what the caller gave. -/
theorem pastes_step {s s' : State} {a : Act} (hstep : step s a = some s') {k : Nat}
    {expected : String} (h : (s'.pastes k).expects = some expected) :
    (s.pastes k).expects = some expected ∨ ∃ j url, a = .paste j url expected := by
  cases a with
  | start verifier state redirectUri port =>
    cases hstep
    exact Or.inl h
  | wait i =>
    simp only [step] at hstep
    repeat' split at hstep
    all_goals
      cases hstep
      try exact Or.inl h
  | callback i params =>
    simp only [step] at hstep
    obtain ⟨answers, hnote⟩ := note_eq s (params "code") (params "state")
    rw [hnote] at hstep
    repeat' split at hstep
    all_goals
      cases hstep
      try exact Or.inl h
  | receive i =>
    simp only [step] at hstep
    split at hstep
    all_goals
      cases hstep
      try exact Or.inl h
  | giveUp i =>
    cases hstep
    exact Or.inl h
  | exchange i =>
    simp only [step] at hstep
    split at hstep
    · cases hstep
      have hold : ((s.take _ _).pastes k).expects = some expected := h
      rw [(take_waits ..).2] at hold
      exact Or.inl hold
    · cases hstep
  | paste j url given =>
    simp only [step] at hstep
    generalize hpairs : queryPairs url = pairs at hstep
    obtain ⟨answers, hnote⟩ := note_eq s (get pairs "code") (get pairs "state")
    rw [hnote] at hstep
    split at hstep
    · split at hstep
      · cases hstep
        rcases expects_setPaste h with hnew | hold
        · cases hnew
          exact Or.inr ⟨j, url, rfl⟩
        · exact Or.inl hold
      · cases hstep
        exact Or.inl ((expects_setPaste h).resolve_left (by simp [Paste.expects]))
    · cases hstep
  | exchangePasted j =>
    simp only [step] at hstep
    split at hstep
    · cases hstep
      have hold := (expects_setPaste h).resolve_left (by simp [Paste.expects])
      rw [(take_waits ..).2] at hold
      exact Or.inl hold
    · cases hstep

theorem Expects.step {state : String} {s s' : State} {a : Act} (h : Expects state s)
    (htask : a.OfTask state) (hstep : Pkce.step s a = some s') : Expects state s' := by
  have hwaits : ∀ i expected, (s'.waits i).expects = some expected → expected = state := by
    intro i expected hexpects
    rcases waits_step hstep hexpects with ⟨i', hold⟩ | ⟨session, hsession, rfl⟩
    · exact h.waits i' expected hold
    · exact h.session session hsession
  have hpastes : ∀ j expected, (s'.pastes j).expects = some expected → expected = state := by
    intro j expected hexpects
    rcases pastes_step hstep hexpects with hold | ⟨j', url, rfl⟩
    · exact h.pastes j expected hold
    · exact htask
  rcases step_effect hstep with ⟨_, _, _, _, rfl, -, -⟩ |
    ⟨expected, code, taken, -, hbefore, hsession, hexchanges⟩ | ⟨-, hsession, hexchanges⟩
  · exact htask.elim
  · refine ⟨hwaits, hpastes, by simp [hsession], by simp [hsession], ?_⟩
    rw [hexchanges, h.whole taken hbefore]
    exact Nat.le_refl 1
  · have hback : ∀ session, s'.session = some session →
        ∃ before, s.session = some before ∧ before.flow = session.flow := by
      intro session hnew
      rw [hnew] at hsession
      exact Option.map_eq_some_iff.mp hsession.symm
    refine ⟨hwaits, hpastes, ?_, ?_, by rw [hexchanges]; exact h.single⟩
    · intro session hnew
      obtain ⟨before, hbefore, hflow⟩ := hback session hnew
      have hstate : before.flow.state = session.flow.state := by rw [hflow]
      rw [← h.session before hbefore]
      exact hstate.symm
    · intro session hnew
      obtain ⟨before, hbefore, -⟩ := hback session hnew
      rw [hexchanges]
      exact h.whole before hbefore

/-! ## Whole runs -/

theorem traced_start : Traced start where
  waits _ _ _ := not_holds_idle
  pastes _ _ _ := not_holds_unpasted
  exchanged _ h := by cases h
  session _ h := by cases h

/-- A sign-in that is started once takes the session for one code, and this came with its state. -/
theorem own_of_startedOnce {acts : List Act} {s : State} (h : StartedOnce acts)
    (hrun : run step start acts = some s) : Meets step Own start acts ∧ s.exchanges.length ≤ 1 := by
  obtain ⟨verifier, state, redirectUri, port, rest, rfl, htask⟩ := h
  obtain ⟨s₁, hfirst, hrest⟩ := run_cons hrun
  have hfirst' := hfirst
  cases hfirst'
  have hmeets : ∀ {s}, Meets step (fun _ a => a.OfTask state) s rest :=
    Meets.of_forall fun a ha _ => htask a ha
  have hexpects : Expects state
      { start with
        session := some ⟨verifier, state, some port, redirectUri⟩
        started := start.started ++ [PkceSession.flow ⟨verifier, state, some port, redirectUri⟩] } := by
    refine ⟨?_, ?_, ?_, fun _ _ => rfl, Nat.zero_le _⟩
    · intro i expected h
      cases h
    · intro j expected h
      cases h
    · intro session hsession
      cases hsession
      rfl
  have hstep : ∀ s a s', Expects state s → a.OfTask state → step s a = some s' →
      Expects state s' := fun _ _ _ hex htask hstep => hex.step htask hstep
  refine ⟨.cons trivial hfirst ?_, (invariant hstep hexpects hmeets hrest).single⟩
  exact Meets.of_invariant hstep (fun _ a hex _ => hex.own a) hexpects hmeets

/-- **The codes that are exchanged.**  Each came with the state it was checked against, and was
exchanged with the verifier and the redirect address of one start; no verifier is sent twice.  They
belong together, code and session, exactly when every session that is taken is the one whose state
the code came with; a sign-in that is started once exchanges one code at most, and this belongs to
its session. -/
theorem codes_paired_iff {acts : List Act} {s : State} (hrun : run step start acts = some s) :
    (∀ exchange ∈ s.exchanges, (exchange.code, exchange.came) ∈ s.answers ∧
      exchange.flow ∈ s.started) ∧
    (Meets step Fresh start acts → (s.exchanges.map fun exchange => exchange.flow.verifier).Nodup) ∧
    (Paired s ↔ Meets step Own start acts) ∧
    (StartedOnce acts → Paired s ∧ s.exchanges.length ≤ 1) := by
  have hall : Meets step (fun _ _ => True) start acts := .of_forall fun _ _ _ => trivial
  have htraced : Traced s :=
    invariant (fun _ _ _ htr _ hstep => Traced.step htr hstep) traced_start hall hrun
  have hpaired : Paired s ↔ Meets step Own start acts := by
    refine good_iff_meets (I := fun _ => True) (fun _ _ _ _ _ => trivial) ?_
      (fun _ _ _ _ hgood hstep => paired_step hgood hstep) trivial ?_ hrun
    · intro s a s' hstep hgood exchange hmem
      refine hgood exchange ?_
      rcases step_effect hstep with ⟨_, _, _, _, _, _, hexchanges⟩ | ⟨_, _, _, _, _, _, hexchanges⟩ |
        ⟨_, _, hexchanges⟩
      · rw [hexchanges]
        exact hmem
      · rw [hexchanges]
        exact List.mem_append_left _ hmem
      · rw [hexchanges]
        exact hmem
    · intro exchange hmem
      cases hmem
  refine ⟨htraced.exchanged, fun hfresh => ?_, hpaired, fun honce => ?_⟩
  · have hboth : Traced s ∧ Unspent s := by
      refine invariant (I := fun s => Traced s ∧ Unspent s) ?_ ⟨traced_start, ?_⟩ hfresh hrun
      · intro s a s' hinv hcond hstep
        exact ⟨hinv.1.step hstep, hinv.2.step hinv.1 hcond hstep⟩
      · exact ⟨fun _ h => (by cases h), List.nodup_nil⟩
    exact hboth.2.once
  · obtain ⟨hown, hsingle⟩ := own_of_startedOnce honce hrun
    exact ⟨hpaired.mpr hown, hsingle⟩

/-- The parameters of a browser that comes back with a code. -/
def cameBack (code state : String) (key : String) : Option String :=
  get [("state", state), ("code", code)] key

/-- A second start while a wait has its code and not yet the session. -/
def startedAgain : List Act :=
  [.start "v0" "s0" "http://127.0.0.1:5000/cb" 5000, .wait 0, .callback 0 (cameBack "c0" "s0"),
    .receive 0, .start "v1" "s1" "http://127.0.0.1:5001/cb" 5001, .exchange 0]

/-- The code of the first session goes out with the verifier of the second. -/
theorem startedAgain_mixes :
    ∃ s, run step start startedAgain = some s ∧ ¬Paired s ∧
      ¬Meets step Own start startedAgain := by
  have hmixed : ∀ s, run step start startedAgain = some s → ¬Paired s := by
    intro s hrun hpaired
    cases hrun
    have hcame := hpaired ⟨"c0", "s0", ⟨"v1", "s1", none, "http://127.0.0.1:5001/cb"⟩⟩
      (List.mem_singleton_self _)
    exact absurd hcame (by decide)
  refine ⟨_, rfl, hmixed _ rfl, ?_⟩
  exact fun hown => hmixed _ rfl ((codes_paired_iff rfl).2.2.1.mpr hown)

end AnyConverter.SignIn.Pkce
