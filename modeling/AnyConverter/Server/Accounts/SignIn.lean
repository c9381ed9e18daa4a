import AnyConverter.Server.Accounts.Rotation

/-!
# Signing in and out

Neither a sign-in nor a sign-out takes the locks of a refresh: one that is under way stores what it
was given after it, whatever has been stored or deleted meanwhile.

* `step_cases`: what a step of a task leaves in the store and in the caches;
* `signs_kept`: a sign-out or a sign-in stands, in every run in which no refresh that was sent before
  it stores its outcome;
* `signOut_undone`: without that condition, it does not.
-/

set_option autoImplicit false

namespace AnyConverter.Accounts

open Runs

/-! ## What stands after a sign-in or a sign-out -/

def Act.SignsIn : Act → Prop
  | .storeSignIn _ _ _ => True
  | _ => False

def Act.SignsOut : Act → Prop
  | .deleteStored _ _ => True
  | _ => False

section
variable (accountId : String) (adopted : Bool) (proc : Nat → Nat)

/-- A refresh that was sent before the last sign-in or sign-out stores its outcome. -/
def Outdated (s : State) : Act → Prop
  | .reply t reply writes => ∃ refresh updated siwc, s.pc t = .requesting refresh ∧ writes = true ∧
      afterReply accountId s refresh reply = .persist updated siwc ∧ refresh.epoch ≠ s.epoch
  | _ => False

/-- A refresh that began after the last sign-in or sign-out stores its outcome. -/
def Newer (s : State) : Act → Prop
  | .reply t reply writes => ∃ refresh updated siwc, s.pc t = .requesting refresh ∧ writes = true ∧
      afterReply accountId s refresh reply = .persist updated siwc ∧ refresh.epoch = s.epoch
  | .takeFile t writes => ∃ entry seen updated siwc, s.pc t = .waitingFile entry seen ∧
      s.fileLock = none ∧ writes = true ∧ underFile accountId s entry seen = .persist updated siwc
  | _ => False

/-- After a sign-out, and no sign-in after it, nothing is stored, nothing is cached, and the account
does not resolve. -/
def SignOutKept (first : State) (acts : List Act) : Prop :=
  ∀ before p after s, acts = before ++ .deleteStored p true :: after → (∀ a ∈ after, ¬a.SignsIn) →
    run (step accountId adopted proc) first acts = some s →
    s.store = none ∧ s.cache p = none ∧ ∀ t, s.pc t = .idle → proc t = p →
      ∃ s' e, step accountId adopted proc s (.resolve t) = some s' ∧ s'.pc t = .done (.error e)

/-- After a sign-in, and neither a sign-in, a sign-out nor a newer refresh after it, its tokens are
stored and cached. -/
def SignInKept (first : State) (acts : List Act) : Prop :=
  ∀ before p stored siwc after signedIn s,
    acts = (before ++ [.storeSignIn p (.oauth stored siwc) true]) ++ after →
    (∀ a ∈ after, ¬a.SignsIn ∧ ¬a.SignsOut) →
    run (step accountId adopted proc) first (before ++ [.storeSignIn p (.oauth stored siwc) true]) =
      some signedIn →
    Meets (step accountId adopted proc) (fun s a => ¬Newer accountId s a) signedIn after →
    run (step accountId adopted proc) signedIn after = some s →
    s.store = some (.oauth stored siwc) ∧
      s.cache p = some (stored.accessToken, stored.expiresAtUnix)

end

/-! ## What a step of a task leaves -/

/-- The store is left alone, and what is newly cached is what it holds. -/
def Reads (s s' : State) : Prop :=
  s'.store = s.store ∧ (s'.cache = s.cache ∨ ∃ q latest, s.store = some (.oauth latest none) ∧
    s'.cache = Function.update s.cache q (some (latest.accessToken, latest.expiresAtUnix)))

/-- A request is an earlier one, or was just sent with what is stored. -/
def Requested (s s' : State) : Prop :=
  ∀ q refresh, s'.pc q = .requesting refresh → s.pc q = .requesting refresh ∨
    refresh.epoch = s.epoch ∧ ∃ latest, s.store = some (.oauth latest none)

section
variable {accountId : String} {adopted : Bool} {proc : Nat → Nat} {s : State} {t : Nat}

theorem requested_of_update {s' : State} (pc : Pc) (hpcs : s'.pc = Function.update s.pc t pc)
    (hpc : ∀ refresh, pc ≠ .requesting refresh) : Requested s s' := by
  intro q refresh hq
  rw [hpcs] at hq
  by_cases hqt : q = t
  · subst hqt
    rw [Function.update_self] at hq
    exact absurd hq (hpc refresh)
  · rw [Function.update_of_ne hqt] at hq
    exact Or.inl hq

theorem requested_of_done {s' : State} {result : Except AccountError String}
    (hpcs : s'.pc = Function.update s.pc t (.done result)) : Requested s s' :=
  requested_of_update (.done result) hpcs (by simp)

theorem perform_quiet {next : Next} {writes : Bool} (h : next.Quiet s) :
    (s.perform accountId adopted proc t writes next).epoch = s.epoch ∧
      Requested s (s.perform accountId adopted proc t writes next) ∧
      Reads s (s.perform accountId adopted proc t writes next) := by
  cases next with
  | await pc =>
    refine ⟨rfl, requested_of_update pc rfl ?_, rfl, Or.inl rfl⟩
    rintro refresh rfl
    exact h
  | answer result =>
    exact ⟨rfl, requested_of_done rfl, rfl, Or.inl rfl⟩
  | reuse latest =>
    refine ⟨rfl, requested_of_done rfl, rfl, Or.inr ?_⟩
    exact ⟨proc t, latest, h, rfl⟩
  | _ => exact h.elim

variable (accountId adopted proc s t) in
theorem perform_persist (updated : StoredOAuth) (siwc : Option SiwcMeta) (writes : Bool) :
    (s.perform accountId adopted proc t writes (.persist updated siwc)).epoch = s.epoch ∧
      Requested s (s.perform accountId adopted proc t writes (.persist updated siwc)) := by
  cases writes with
  | false => exact ⟨rfl, requested_of_done rfl⟩
  | true =>
    by_cases hadopted : adopted = true ∧ siwc = none
    · simp only [State.perform, if_true, if_pos hadopted]
      exact ⟨rfl, requested_of_update (.writingBack _) rfl fun _ => nofun⟩
    · simp only [State.perform, if_true, if_neg hadopted]
      exact ⟨rfl, requested_of_done rfl⟩

variable (accountId s) in
theorem afterReply_cases (refresh : Refresh) (reply : Reply) :
    (∃ result, afterReply accountId s refresh reply = .answer result) ∨
      (∃ why, afterReply accountId s refresh reply = .markRevoked why) ∨
      ∃ updated siwc, afterReply accountId s refresh reply = .persist updated siwc := by
  by_cases htokens : ∃ tokens, reply = .tokens tokens
  · obtain ⟨tokens, rfl⟩ := htokens
    rcases afterReply_tokens accountId s refresh tokens with
      ⟨updated, siwc, hnext, -⟩ | ⟨-, -, hanswer⟩
    · exact Or.inr (Or.inr ⟨updated, siwc, hnext⟩)
    · exact Or.inl hanswer
  · rcases afterReply_refused accountId s refresh
      (fun tokens heq => htokens ⟨tokens, heq⟩) with hanswer | hmark
    · exact Or.inl hanswer
    · exact Or.inr (Or.inl hmark)

/-- **What a step of a task leaves**: what is stored is left alone, unless a refresh stores its
outcome. -/
theorem step_cases {s' : State} {a : Act} (hin : ¬a.SignsIn) (hout : ¬a.SignsOut)
    (hstep : step accountId adopted proc s a = some s') :
    s'.epoch = s.epoch ∧ Requested s s' ∧
      (Reads s s' ∨ Outdated accountId s a ∨ Newer accountId s a) := by
  cases a with
  | wait secs =>
    cases hstep
    exact ⟨rfl, fun q refresh hq => Or.inl hq, Or.inl ⟨rfl, Or.inl rfl⟩⟩
  | resolve t =>
    simp only [Accounts.step] at hstep
    split at hstep
    · cases hstep
      obtain ⟨hepoch, hrequested, hreads⟩ := perform_quiet (resolve_quiet (proc t))
      exact ⟨hepoch, hrequested, Or.inl hreads⟩
    · cases hstep
  | forceRefresh t =>
    simp only [Accounts.step] at hstep
    split at hstep
    · cases hstep
      obtain ⟨hepoch, hrequested, hreads⟩ := perform_quiet forceRefresh_quiet
      exact ⟨hepoch, hrequested, Or.inl hreads⟩
    · cases hstep
  | takeFlight t =>
    simp only [Accounts.step] at hstep
    split at hstep
    · rename_i entry seen hpc hfree
      cases hstep
      obtain ⟨hepoch, hrequested, hreads⟩ := perform_quiet (underFlight_quiet entry seen)
      exact ⟨hepoch, hrequested, Or.inl hreads⟩
    · cases hstep
  | takeFile t writes =>
    simp only [Accounts.step] at hstep
    split at hstep
    · rename_i entry seen hpc hfree
      cases hstep
      rcases underFile_cases accountId { s with fileLock := some t } entry seen
        with hquiet | hrefreshes
      · obtain ⟨hepoch, hrequested, hreads⟩ := perform_quiet hquiet
        exact ⟨hepoch, hrequested, Or.inl hreads⟩
      · cases hnext : underFile accountId { s with fileLock := some t } entry seen with
        | request refresh =>
          rw [hnext] at hrefreshes
          obtain ⟨hstore, -, hepoch⟩ := hrefreshes
          refine ⟨rfl, fun q refresh' hq => ?_, Or.inl ⟨rfl, Or.inl rfl⟩⟩
          replace hq : Function.update s.pc t (.requesting refresh) q = .requesting refresh' := hq
          by_cases hqt : q = t
          · subst hqt
            rw [Function.update_self] at hq
            cases hq
            exact Or.inr ⟨hepoch, _, hstore⟩
          · rw [Function.update_of_ne hqt] at hq
            exact Or.inl hq
        | persist updated siwc =>
          obtain ⟨hepoch, hrequested⟩ := perform_persist accountId adopted proc
            { s with fileLock := some t } t updated siwc writes
          refine ⟨hepoch, hrequested, ?_⟩
          cases writes with
          | false => exact Or.inl ⟨rfl, Or.inl rfl⟩
          | true => exact Or.inr (Or.inr ⟨entry, seen, updated, siwc, hpc, hfree, rfl, hnext⟩)
        | _ =>
          rw [hnext] at hrefreshes
          exact hrefreshes.elim
    · cases hstep
  | lockTimeout t =>
    simp only [Accounts.step] at hstep
    split at hstep
    · cases hstep
      exact ⟨rfl, requested_of_done rfl, Or.inl ⟨rfl, Or.inl rfl⟩⟩
    · cases hstep
  | reply t reply writes =>
    simp only [Accounts.step] at hstep
    split at hstep
    · rename_i refresh hpc
      cases hstep
      let ended : State := { s with log := s.log ++ [reply.event refresh.refreshToken] }
      rcases afterReply_cases accountId ended refresh reply with
        ⟨result, hnext⟩ | ⟨why, hnext⟩ | ⟨updated, siwc, hnext⟩
      · rw [hnext]
        exact ⟨rfl, requested_of_done rfl, Or.inl ⟨rfl, Or.inl rfl⟩⟩
      · rw [hnext]
        exact ⟨rfl, requested_of_done rfl, Or.inl ⟨rfl, Or.inl rfl⟩⟩
      · obtain ⟨hepoch, hrequested⟩ := perform_persist accountId adopted proc ended t updated siwc
          writes
        rw [hnext]
        refine ⟨hepoch, hrequested, ?_⟩
        cases writes with
        | false => exact Or.inl ⟨rfl, Or.inl rfl⟩
        | true =>
          by_cases hsame : refresh.epoch = s.epoch
          · exact Or.inr (Or.inr ⟨refresh, updated, siwc, hpc, rfl, hnext, hsame⟩)
          · exact Or.inr (Or.inl ⟨refresh, updated, siwc, hpc, rfl, hnext, hsame⟩)
    · cases hstep
  | writeBack t =>
    simp only [Accounts.step] at hstep
    split at hstep
    · cases hstep
      exact ⟨rfl, requested_of_done rfl, Or.inl ⟨rfl, Or.inl rfl⟩⟩
    · cases hstep
  | stop t =>
    simp only [Accounts.step] at hstep
    split at hstep
    case h_5 => cases hstep
    all_goals
      cases hstep
      exact ⟨rfl, requested_of_update .stopped rfl (by simp), Or.inl ⟨rfl, Or.inl rfl⟩⟩
  | storeSignIn p credential writes => exact absurd trivial hin
  | deleteStored p writes => exact absurd trivial hout
  | markRevoked why =>
    cases hstep
    exact ⟨rfl, fun q refresh hq => Or.inl hq, Or.inl ⟨rfl, Or.inl rfl⟩⟩

/-- A newer refresh stores its outcome only while there is something stored, or as the answer to a
request sent since. -/
theorem Newer.read {a : Act} (h : Newer accountId s a) :
    (∃ t refresh, s.pc t = .requesting refresh ∧ refresh.epoch = s.epoch) ∨
      ∃ latest, s.store = some (.oauth latest none) := by
  cases a with
  | reply t reply writes =>
    obtain ⟨refresh, -, -, hpc, -, -, hepoch⟩ := h
    exact Or.inl ⟨t, refresh, hpc, hepoch⟩
  | takeFile t writes =>
    obtain ⟨entry, seen, updated, siwc, -, -, -, hnext⟩ := h
    right
    rcases underFile_cases accountId s entry seen with hquiet | hrefreshes
    · rw [hnext] at hquiet
      exact hquiet.elim
    · rw [hnext] at hrefreshes
      obtain ⟨latest, -, hstore, -⟩ := hrefreshes
      exact ⟨latest, hstore⟩
  | _ => exact h.elim

/-! ## The invariants -/

/-- Nobody has read a credential of the future. -/
def Past (s : State) : Prop := ∀ t refresh, s.pc t = .requesting refresh → refresh.epoch ≤ s.epoch

theorem Past.step {s' : State} {a : Act} (h : Past s)
    (hstep : step accountId adopted proc s a = some s') : Past s' := by
  intro t refresh hpc
  by_cases hin : a.SignsIn
  · cases a with
    | storeSignIn p credential writes =>
      cases hstep
      have hframe : (s.storeSignIn p credential writes).pc = s.pc ∧
          (s.storeSignIn p credential writes).epoch = s.epoch + 1 := by
        cases credential <;> cases writes <;> exact ⟨rfl, rfl⟩
      rw [hframe.1] at hpc
      rw [hframe.2]
      exact Nat.le_succ_of_le (h t refresh hpc)
    | _ => exact hin.elim
  · by_cases hout : a.SignsOut
    · cases a with
      | deleteStored p writes =>
        cases hstep
        exact Nat.le_succ_of_le (h t refresh hpc)
      | _ => exact hout.elim
    · obtain ⟨hepoch, hrequested, -⟩ := step_cases hin hout hstep
      rw [hepoch]
      rcases hrequested t refresh hpc with hbefore | ⟨hsame, -⟩
      · exact h t refresh hbefore
      · exact Nat.le_of_eq hsame

/-- What stands after a sign-out of a process. -/
structure SignedOut (p : Nat) (s : State) : Prop where
  store : s.store = none
  cache : s.cache p = none
  requests : ∀ t refresh, s.pc t = .requesting refresh → refresh.epoch < s.epoch

theorem Past.signOut {p : Nat} (h : Past s) : SignedOut p (s.deleteStored p true) where
  store := rfl
  cache := Function.update_self ..
  requests t refresh hpc := Nat.lt_succ_of_le (h t refresh hpc)

theorem SignedOut.step {p : Nat} {s' : State} {a : Act} (h : SignedOut p s) (hin : ¬a.SignsIn)
    (houtdated : ¬Outdated accountId s a) (hstep : step accountId adopted proc s a = some s') :
    SignedOut p s' := by
  by_cases hout : a.SignsOut
  · cases a with
    | deleteStored q writes =>
      cases hstep
      refine ⟨?_, ?_, fun t refresh hpc => Nat.lt_succ_of_lt (h.requests t refresh hpc)⟩
      · show (if writes = true then none else s.store) = none
        rw [h.store, ite_self]
      · show Function.update s.cache q none p = none
        rw [Function.update_apply, h.cache, ite_self]
    | _ => exact hout.elim
  · obtain ⟨hepoch, hrequested, hcases⟩ := step_cases hin hout hstep
    rcases hcases with ⟨hstore, hcache⟩ | houtdated' | hnewer
    · refine ⟨hstore.trans h.store, ?_, fun t refresh hpc => ?_⟩
      · rcases hcache with hcache | ⟨q, latest, hstored, -⟩
        · rw [hcache]
          exact h.cache
        · rw [h.store] at hstored
          cases hstored
      · rw [hepoch]
        rcases hrequested t refresh hpc with hbefore | ⟨-, latest, hstored⟩
        · exact h.requests t refresh hbefore
        · rw [h.store] at hstored
          cases hstored
    · exact absurd houtdated' houtdated
    · -- a newer refresh would have had to find a credential
      rcases hnewer.read with ⟨t, refresh, hpc, hsame⟩ | ⟨latest, hstored⟩
      · exact absurd hsame (Nat.ne_of_lt (h.requests t refresh hpc))
      · rw [h.store] at hstored
        cases hstored

/-- A process that is signed out resolves nothing. -/
theorem SignedOut.resolve_fails {p : Nat} (h : SignedOut p s) {t : Nat} (hpc : s.pc t = .idle)
    (hproc : proc t = p) :
    ∃ s' e, Accounts.step accountId adopted proc s (.resolve t) = some s' ∧
      s'.pc t = .done (.error e) := by
  have hnext : ∃ e, resolve accountId s (proc t) = .answer (.error e) := by
    unfold resolve
    split
    · exact ⟨_, rfl⟩
    · rw [hproc, h.cache]
      dsimp only
      unfold resolveStored
      rw [h.store]
      exact ⟨_, rfl⟩
  obtain ⟨e, hnext⟩ := hnext
  refine ⟨s.leave proc t (.done (.error e)), e, ?_, Function.update_self ..⟩
  simp only [Accounts.step, hpc, hnext]
  rfl

/-- What stands after a sign-in of a process. -/
structure SignedIn (p : Nat) (stored : StoredOAuth) (siwc : Option SiwcMeta) (s : State) : Prop where
  store : s.store = some (.oauth stored siwc)
  cache : s.cache p = some (stored.accessToken, stored.expiresAtUnix)

theorem SignedIn.step {p : Nat} {stored : StoredOAuth} {siwc : Option SiwcMeta} {s' : State} {a : Act}
    (h : SignedIn p stored siwc s) (hsigns : ¬a.SignsIn ∧ ¬a.SignsOut)
    (houtdated : ¬Outdated accountId s a) (hnewer : ¬Newer accountId s a)
    (hstep : step accountId adopted proc s a = some s') : SignedIn p stored siwc s' := by
  obtain ⟨-, -, hcases⟩ := step_cases hsigns.1 hsigns.2 hstep
  rcases hcases with ⟨hstore, hcache⟩ | houtdated' | hnewer'
  · refine ⟨hstore.trans h.store, ?_⟩
    rcases hcache with hcache | ⟨q, latest, hlatest, hcache⟩
    · rw [hcache]
      exact h.cache
    · rw [h.store] at hlatest
      cases hlatest
      rw [hcache, Function.update_apply, h.cache, ite_self]
  · exact absurd houtdated' houtdated
  · exact absurd hnewer' hnewer

end

/-! ## Runs -/

/-- **A sign-out stands, and so does a sign-in**, in every run in which no refresh that was sent
before it stores its outcome after it. -/
theorem signs_kept (accountId : String) (adopted : Bool) (proc : Nat → Nat) (now : Int)
    (store : Option Credential) (siwcMeta : Option SiwcMeta) (revoked : Option String)
    (cache : Nat → Option (String × Option Int)) (acts : List Act)
    (hundisturbed : Meets (step accountId adopted proc) (fun s a => ¬Outdated accountId s a)
      (start now store siwcMeta revoked cache) acts) :
    SignOutKept accountId adopted proc (start now store siwcMeta revoked cache) acts ∧
      SignInKept accountId adopted proc (start now store siwcMeta revoked cache) acts := by
  constructor
  · intro before p after s hacts hin hrun
    subst hacts
    obtain ⟨signing, hbefore, hrest⟩ := run_split hrun
    obtain ⟨signedOut, hout, hafter⟩ := run_cons hrest
    cases hout
    obtain ⟨hmeets, hmeets'⟩ := hundisturbed.append
    have hpast : Past signing :=
      invariant (fun s a s' h _ hs => h.step hs) (fun t refresh hpc => by cases hpc) hmeets hbefore
    have hundisturbed' := (hmeets' signing hbefore).2 _ rfl
    have hkept : SignedOut p s :=
      invariant (fun s a s' h hcond hs => h.step hcond.1 hcond.2 hs) hpast.signOut
        ((Meets.of_forall fun a ha _ => hin a ha).and hundisturbed') hafter
    exact ⟨hkept.store, hkept.cache, fun t hpc hproc => hkept.resolve_fails hpc hproc⟩
  · intro before p stored siwc after signedIn s hacts hsigns hbefore hnewer hrun
    subst hacts
    obtain ⟨signing, -, hrest⟩ := run_split hbefore
    obtain ⟨signedIn', hin, hdone⟩ := run_cons hrest
    cases hin
    cases hdone
    have hundisturbed' := hundisturbed.append.2 _ hbefore
    have hsignedIn : SignedIn p stored siwc
        (signing.storeSignIn p (.oauth stored siwc) true) := ⟨rfl, Function.update_self ..⟩
    have hkept : SignedIn p stored siwc s :=
      invariant (fun s a s' h hcond hs => h.step hcond.1 hcond.2.1 hcond.2.2 hs) hsignedIn
        ((Meets.of_forall fun a ha _ => hsigns a ha).and (hundisturbed'.and hnewer)) hrun
    exact ⟨hkept.store, hkept.cache⟩

/-- The account is signed out while a refresh of it is under way. -/
def signedOutMeanwhile : List Act :=
  [.resolve 0, .takeFlight 0, .takeFile 0 true, .deleteStored 0 true,
    .reply 0 (.tokens ⟨"a1", some "r1", some 3600, none, "", none⟩) true]

/-- The refresh brings the account back. -/
theorem signOut_undone : ¬∀ (accountId : String) (adopted : Bool) (proc : Nat → Nat) (now : Int)
    (store : Option Credential) (siwcMeta : Option SiwcMeta) (revoked : Option String)
    (cache : Nat → Option (String × Option Int)) (acts : List Act),
    SignOutKept accountId adopted proc (start now store siwcMeta revoked cache) acts ∧
      SignInKept accountId adopted proc (start now store siwcMeta revoked cache) acts := by
  intro h
  have hback : ∃ s, run (step "codex:me" false fun _ => 0)
      (start 1000 (some expiredAccount) none none fun _ => none) signedOutMeanwhile = some s ∧
      s.store ≠ none := ⟨_, rfl, nofun⟩
  obtain ⟨s, hrun, hstore⟩ := hback
  have hkept := (h "codex:me" false (fun _ => 0) 1000 (some expiredAccount) none none (fun _ => none)
    signedOutMeanwhile).1 [.resolve 0, .takeFlight 0, .takeFile 0 true] 0
    [.reply 0 (.tokens ⟨"a1", some "r1", some 3600, none, "", none⟩) true] s rfl
    (fun a ha => by rw [List.mem_singleton.mp ha]; exact id) hrun
  exact hstore hkept.1

/-- The account is refreshed, then signed out. -/
theorem signs_kept_in_turn :
    SignOutKept "codex:me" false (fun _ => 0)
      (start 1000 (some expiredAccount) none none fun _ => none)
      [.resolve 0, .takeFlight 0, .takeFile 0 true,
        .reply 0 (.tokens ⟨"a1", some "r1", some 3600, none, "", none⟩) true, .deleteStored 0 true] ∧
    SignInKept "codex:me" false (fun _ => 0)
      (start 1000 (some expiredAccount) none none fun _ => none)
      [.resolve 0, .takeFlight 0, .takeFile 0 true,
        .reply 0 (.tokens ⟨"a1", some "r1", some 3600, none, "", none⟩) true, .deleteStored 0 true] := by
  apply signs_kept
  iterate 3 refine .cons id rfl ?_
  refine .cons ?_ rfl (.cons id rfl trivial)
  rintro ⟨refresh, updated, siwc, hpc, -, -, hepoch⟩
  cases hpc
  exact hepoch rfl

end AnyConverter.Accounts
