import AnyConverter.Server.Accounts.Rotation

/-!
# What sign-ins store, and what resolves

A finished sign-in and every refresh store a credential, which a resolver with an empty cache, in a
process that has just been started, reads back.

* `Stored.cases`: the shape of whatever is stored;
* `resolves_iff`: an account resolves from what is stored exactly when it is not marked revoked, it is
  not one of Sign in with ChatGPT, and there is a refresh token where one is needed;
* `siwc_unread`: the entry of a Sign in with ChatGPT is never read.
-/

set_option autoImplicit false

namespace AnyConverter.Accounts

open Runs

/-! ## Finished sign-ins -/

structure OAuthTokens where
  accessToken : String
  refreshToken : Option String
  expiresAt : Option Int

structure GeminiAccount where
  email : String
  tokens : OAuthTokens

structure CodexAccount where
  email : String
  accessToken : String
  refreshToken : String
  expiresAtUnix : Option Int

structure CopilotAccount where
  user : String
  userCodeHint : String
  accessToken : String

structure SiwcAccount where
  user : String
  access : String
  refresh : String
  idToken : String
  clientId : String
  hostId : String
  scopes : List String
  expiresAtUnix : Int

/-- The account id of a Copilot sign-in, without its provider. -/
def CopilotAccount.name (account : CopilotAccount) : String :=
  if account.user = "" then account.userCodeHint else account.user

def settleGoogle (now : Int) (account : GeminiAccount) : Credential :=
  .oauth
    { provider := "gemini"
      account := account.email
      accessToken := account.tokens.accessToken
      refreshToken := account.tokens.refreshToken
      expiresAtUnix := account.tokens.expiresAt.map fun at_ => now + max 0 (at_ - now) } none

def settleCodex (account : CodexAccount) : Credential :=
  .oauth ⟨"codex", account.email, account.accessToken, some account.refreshToken,
    account.expiresAtUnix⟩ none

def settleCopilot (account : CopilotAccount) : Credential :=
  .oauth ⟨"copilot", account.name, account.accessToken, none, none⟩ none

def settleSiwc (account : SiwcAccount) : Credential :=
  .oauth ⟨"chatgpt-api", account.user, account.access, some account.refresh,
    some account.expiresAtUnix⟩
    (some ⟨account.clientId, account.hostId, account.idToken, account.scopes⟩)

/-- What a finished sign-in or a refresh stores under an account id. -/
inductive Stored : String → Credential → Prop where
  | gemini (now : Int) (account : GeminiAccount) :
    Stored ("gemini:" ++ account.email) (settleGoogle now account)
  | codex (account : CodexAccount) : Stored ("codex:" ++ account.email) (settleCodex account)
  | copilot (account : CopilotAccount) :
    Stored ("copilot:" ++ account.name) (settleCopilot account)
  | siwc (account : SiwcAccount) : Stored ("chatgpt-api:" ++ account.user) (settleSiwc account)
  /-- whatever the endpoint answers to whatever was sent -/
  | refreshed {accountId : String} {s s' : State} {latest updated : StoredOAuth} {refresh : Refresh}
    {reply : Reply} {siwc : Option SiwcMeta} :
    refreshStored accountId s latest = .request refresh →
    afterReply accountId s' refresh reply = .persist updated siwc →
    Stored accountId (.oauth updated siwc)
  | kept {accountId : String} {s : State} {latest updated : StoredOAuth} {siwc : Option SiwcMeta} :
    refreshStored accountId s latest = .persist updated siwc → Stored accountId (.oauth updated siwc)

/-! ## The shape of what is stored -/

theorem splitChar_head {sep : Char} {cs : List Char} (h : sep ∉ cs) (rest : List Char) :
    (Text.splitChar sep (cs ++ sep :: rest)).headD [] = cs := by
  induction cs with
  | nil => simp [Text.splitChar]
  | cons c cs ih =>
    obtain ⟨hne, hnot⟩ := List.ne_and_not_mem_of_not_mem_cons h
    have hrest := ih hnot
    show (if c = sep then _ else _ : List (List Char)).headD [] = c :: cs
    rw [if_neg (Ne.symm hne)]
    cases hsplit : Text.splitChar sep (cs ++ sep :: rest) with
    | nil =>
      rw [hsplit] at hrest
      simp only [List.headD_nil] at hrest
      rw [← hrest]
      rfl
    | cons l ls =>
      rw [hsplit] at hrest
      simp only [List.headD_cons] at hrest
      rw [← hrest]
      rfl

theorem providerOf_append {provider : String} (h : ':' ∉ provider.toList) (account : String) :
    providerOf (provider ++ ":" ++ account) = provider := by
  have hlist : (provider ++ ":" ++ account).toList = provider.toList ++ ':' :: account.toList := by
    simp
  unfold providerOf
  rw [hlist, splitChar_head h, String.ofList_toList]

/-- A refresh of a Sign in with ChatGPT account keeps its extra fields; another one has none. -/
theorem refreshStored_siwc (accountId : String) (s : State) (latest : StoredOAuth) :
    match refreshStored accountId s latest with
    | .request refresh =>
      (providerOf accountId = "chatgpt-api" ∧ refresh.siwc ≠ none) ∨
        ((providerOf accountId = "gemini" ∨ providerOf accountId = "codex") ∧ refresh.siwc = none)
    | .persist _ siwc => providerOf accountId = "chatgpt-api" ∧ siwc ≠ none
    | _ => True := by
  unfold refreshStored
  split
  · rename_i next refresh hnext
    split at hnext
    · rename_i hprovider
      unfold refreshSiwc at hnext
      split at hnext
      · cases hnext
      · split at hnext
        · cases hnext
        · dsimp only at hnext
          split at hnext
          · cases hnext
          · cases hnext
            exact Or.inl ⟨hprovider, nofun⟩
    · split at hnext
      · rename_i hprovider
        split at hnext
        · cases hnext
        · cases hnext
          exact Or.inr ⟨hprovider, rfl⟩
      · cases hnext
  · rename_i next updated siwc hnext
    split at hnext
    · rename_i hprovider
      unfold refreshSiwc at hnext
      split at hnext
      · cases hnext
      · split at hnext
        · cases hnext
        · dsimp only at hnext
          split at hnext
          · cases hnext
            exact ⟨hprovider, nofun⟩
          · cases hnext
    · split at hnext
      · split at hnext <;> cases hnext
      · cases hnext
  · trivial

theorem afterReply_siwc {accountId : String} {s : State} {refresh : Refresh} {reply : Reply}
    {updated : StoredOAuth} {siwc : Option SiwcMeta}
    (h : afterReply accountId s refresh reply = .persist updated siwc) :
    siwc = none ↔ refresh.siwc = none := by
  unfold afterReply at h
  split at h
  · rename_i hnone
    split at h
    case h_4 =>
      cases h
      exact iff_of_true rfl hnone
    all_goals cases h
  · rename_i kept hsome
    rw [hsome]
    split at h
    · split at h <;> cases h
    · split at h
      · cases h
      · split at h <;> cases h
    · cases h
    · split at h
      · cases h
      · cases h
        exact iff_of_false nofun nofun

/-- **The shape of what is stored**: the extra fields are those of Sign in with ChatGPT; otherwise the
token endpoint is known, or there is no expiry. -/
theorem Stored.cases {accountId : String} {stored : StoredOAuth} {siwc : Option SiwcMeta}
    (h : Stored accountId (.oauth stored siwc)) :
    (providerOf accountId = "chatgpt-api" ∧ siwc ≠ none) ∨
      (siwc = none ∧ ((providerOf accountId = "gemini" ∨ providerOf accountId = "codex") ∨
        providerOf accountId = "copilot" ∧ stored.expiresAtUnix = none)) := by
  generalize hcredential : Credential.oauth stored siwc = credential at h
  cases h with
  | gemini now account =>
    cases hcredential
    exact Or.inr ⟨rfl, Or.inl (Or.inl (@providerOf_append "gemini" (by decide) _))⟩
  | codex account =>
    cases hcredential
    exact Or.inr ⟨rfl, Or.inl (Or.inr (@providerOf_append "codex" (by decide) _))⟩
  | copilot account =>
    cases hcredential
    exact Or.inr ⟨rfl, Or.inr ⟨@providerOf_append "copilot" (by decide) _, rfl⟩⟩
  | siwc account =>
    cases hcredential
    exact Or.inl ⟨@providerOf_append "chatgpt-api" (by decide) _, nofun⟩
  | @refreshed accountId s s' latest updated refresh reply siwc hrequest hpersist =>
    cases hcredential
    have hshape := refreshStored_siwc accountId s latest
    rw [hrequest] at hshape
    have hiff := afterReply_siwc hpersist
    rcases hshape with ⟨hprovider, hsome⟩ | ⟨hprovider, hnone⟩
    · exact Or.inl ⟨hprovider, fun hsiwc => hsome (hiff.mp hsiwc)⟩
    · exact Or.inr ⟨hiff.mpr hnone, Or.inl hprovider⟩
  | @kept accountId s latest updated siwc hpersist =>
    cases hcredential
    have hshape := refreshStored_siwc accountId s latest
    rw [hpersist] at hshape
    exact Or.inl hshape

/-! ## Resolving from what is stored -/

/-- A resolver that has just been started finds a credential stored, and nobody else is at it. -/
structure AtRest (proc : Nat → Nat) (s : State) (t : Nat) (credential : Credential) : Prop where
  store : s.store = some credential
  cache : s.cache (proc t) = none
  flight : s.flight (proc t) = none
  fileLock : s.fileLock = none
  pc : s.pc t = .idle

/-- The stored token is answered while it is good; once it has expired, the stored refresh token is
sent.  The account never is no OAuth account. -/
def Resolves (accountId : String) (adopted : Bool) (proc : Nat → Nat) (s : State) (t : Nat)
    (stored : StoredOAuth) : Prop :=
  (expired s.now stored.expiresAtUnix = false →
    ∃ s', run (step accountId adopted proc) s [.resolve t] = some s' ∧
      s'.pc t = .done (.ok stored.accessToken)) ∧
  (expired s.now stored.expiresAtUnix = true → ∃ s' refresh,
    run (step accountId adopted proc) s [.resolve t, .takeFlight t, .takeFile t true] = some s' ∧
      s'.pc t = .requesting refresh ∧ stored.refreshToken = some refresh.refreshToken ∧
      s'.log = s.log ++ [.sent refresh.refreshToken]) ∧
  ∀ s', run (step accountId adopted proc) s [.resolve t] = some s' →
    s'.pc t ≠ .done (.error (.notOAuth accountId))

section
variable {accountId : String} {adopted : Bool} {proc : Nat → Nat} {s : State} {t : Nat}
  {stored : StoredOAuth} {siwc : Option SiwcMeta}

variable (adopted) in
/-- Where a resolve is over at once. -/
theorem step_resolve_answer (hpc : s.pc t = .idle) {result : Except AccountError String}
    (hnext : resolve accountId s (proc t) = .answer result) :
    step accountId adopted proc s (.resolve t) = some (s.leave proc t (.done result)) := by
  simp only [step, hpc, hnext]
  rfl

/-- An account that fails at once does not resolve. -/
theorem not_resolves_of_error (hpc : s.pc t = .idle) {e : AccountError}
    (hnext : resolve accountId s (proc t) = .answer (.error e)) :
    ¬Resolves accountId adopted proc s t stored := by
  rintro ⟨hgood, hexpired, -⟩
  have hstep := step_resolve_answer adopted hpc hnext
  have hdone : (s.leave proc t (.done (.error e))).pc t = .done (.error e) := Function.update_self ..
  cases hnow : expired s.now stored.expiresAtUnix with
  | false =>
    obtain ⟨s', hrun, hok⟩ := hgood hnow
    obtain ⟨s₁, hfirst, hrest⟩ := run_cons hrun
    rw [hstep] at hfirst
    cases hfirst
    cases hrest
    rw [hdone] at hok
    cases hok
  | true =>
    obtain ⟨s', refresh, hrun, -⟩ := hexpired hnow
    obtain ⟨s₁, hfirst, hrest⟩ := run_cons hrun
    rw [hstep] at hfirst
    cases hfirst
    obtain ⟨s₂, hflight, -⟩ := run_cons hrest
    simp only [step, hdone] at hflight
    cases hflight

variable (accountId adopted) in
/-- What is good is answered. -/
theorem resolves_good (hrest : AtRest proc s t (.oauth stored none)) (hrevoked : s.revoked = none)
    (hnow : expired s.now stored.expiresAtUnix = false) :
    ∃ s', step accountId adopted proc s (.resolve t) = some s' ∧
      s'.pc t = .done (.ok stored.accessToken) := by
  have hnext : resolve accountId s (proc t) = .reuse stored := by
    simp only [resolve, hrevoked, hrest.cache, resolveStored, hrest.store, readOauth, hnow]
    rfl
  refine ⟨s.perform accountId adopted proc t true (.reuse stored), ?_, Function.update_self ..⟩
  simp only [step, hrest.pc, hnext]

variable (accountId) in
theorem underFlight_expired (hstore : s.store = some (.oauth stored none))
    (hnow : expired s.now stored.expiresAtUnix = true) :
    underFlight accountId s .resolve stored.refreshToken =
      .await (.waitingFile .resolve stored.refreshToken) := by
  simp only [underFlight, readOauth_eq_ok.mpr hstore, hnow]
  exact if_neg fun h => h.elim (fun hne => hne rfl) nofun

theorem underFile_expired (hstore : s.store = some (.oauth stored none))
    (hnow : expired s.now stored.expiresAtUnix = true)
    (hprovider : providerOf accountId = "gemini" ∨ providerOf accountId = "codex")
    {refreshToken : String} (hrefresh : stored.refreshToken = some refreshToken) :
    underFile accountId s .resolve stored.refreshToken =
      .request ⟨stored, refreshToken, none, s.now, s.epoch⟩ := by
  have hsiwc : providerOf accountId ≠ "chatgpt-api" := by
    rcases hprovider with h | h <;> rw [h] <;> decide
  simp only [underFile, readOauth_eq_ok.mpr hstore, hnow]
  refine (if_neg fun h => h.elim (fun hne => hne rfl) nofun).trans ?_
  simp only [refreshStored, if_neg hsiwc, if_pos hprovider, hrefresh]

variable (adopted) in
/-- What has expired is refreshed. -/
theorem resolves_expired (hrest : AtRest proc s t (.oauth stored none)) (hrevoked : s.revoked = none)
    (hprovider : providerOf accountId = "gemini" ∨ providerOf accountId = "codex")
    (hnow : expired s.now stored.expiresAtUnix = true) {refreshToken : String}
    (hrefresh : stored.refreshToken = some refreshToken) :
    ∃ s₁, step accountId adopted proc s (.resolve t) = some s₁ ∧
      s₁.pc t = .waitingFlight .resolve stored.refreshToken ∧ ∃ s' refresh,
      run (step accountId adopted proc) s₁ [.takeFlight t, .takeFile t true] = some s' ∧
      s'.pc t = .requesting refresh ∧ stored.refreshToken = some refresh.refreshToken ∧
      s'.log = s.log ++ [.sent refresh.refreshToken] := by
  let waiting := s.goto t (.waitingFlight .resolve stored.refreshToken)
  let inFlight := { waiting with flight := Function.update waiting.flight (proc t) (some t) }.goto t
    (.waitingFile .resolve stored.refreshToken)
  let request : Refresh := ⟨stored, refreshToken, none, s.now, s.epoch⟩
  have hfirst : step accountId adopted proc s (.resolve t) = some waiting := by
    have hnext : resolve accountId s (proc t) =
        .await (.waitingFlight .resolve stored.refreshToken) := by
      simp only [resolve, hrevoked, hrest.cache, resolveStored, readOauth_eq_ok.mpr hrest.store, hnow,
        if_true]
    simp only [step, hrest.pc, hnext]
    rfl
  have hsecond : step accountId adopted proc waiting (.takeFlight t) = some inFlight := by
    have hpc : waiting.pc t = .waitingFlight .resolve stored.refreshToken := Function.update_self ..
    have hfree : waiting.flight (proc t) = none := hrest.flight
    have hnext := underFlight_expired accountId
      (s := { waiting with flight := Function.update waiting.flight (proc t) (some t) })
      hrest.store hnow
    simp only [step, hpc, hfree, hnext]
    rfl
  let requesting := State.perform accountId adopted proc { inFlight with fileLock := some t } t true
    (.request request)
  have hthird : step accountId adopted proc inFlight (.takeFile t true) = some requesting := by
    have hpc : inFlight.pc t = .waitingFile .resolve stored.refreshToken := Function.update_self ..
    have hfree : inFlight.fileLock = none := hrest.fileLock
    have hnext := underFile_expired (s := { inFlight with fileLock := some t }) hrest.store hnow
      hprovider hrefresh
    simp only [step, hpc, hfree, hnext]
    rfl
  refine ⟨waiting, hfirst, Function.update_self .., requesting, request, ?_,
    Function.update_self .., hrefresh, rfl⟩
  rw [run_step hsecond, run_step hthird]
  rfl

end

/-- **What resolves from what is stored**: an account that is not marked revoked, is not one of Sign in
with ChatGPT, and has a refresh token if its token has expired. -/
theorem resolves_iff (accountId : String) (adopted : Bool) (proc : Nat → Nat) (s : State) (t : Nat)
    (stored : StoredOAuth) (siwc : Option SiwcMeta) (hstored : Stored accountId (.oauth stored siwc))
    (hrest : AtRest proc s t (.oauth stored siwc)) :
    Resolves accountId adopted proc s t stored ↔
      s.revoked = none ∧ providerOf accountId ≠ "chatgpt-api" ∧
        (expired s.now stored.expiresAtUnix = true → stored.refreshToken ≠ none) := by
  cases hrevoked : s.revoked with
  | some why =>
    refine iff_of_false (not_resolves_of_error (e := .revoked accountId why) hrest.pc ?_) nofun
    simp only [resolve, hrevoked]
  | none =>
    rcases hstored.cases with ⟨hprovider, hsiwc⟩ | ⟨rfl, hprovider⟩
    · -- the extra fields are refused
      refine iff_of_false (not_resolves_of_error (e := .notOAuth accountId) hrest.pc ?_)
        fun h => h.2.1 hprovider
      obtain ⟨kept, rfl⟩ := Option.ne_none_iff_exists'.mp hsiwc
      simp only [resolve, hrevoked, hrest.cache, resolveStored, hrest.store, readOauth]
    · have hother : providerOf accountId ≠ "chatgpt-api" := by
        rcases hprovider with (h | h) | ⟨h, -⟩ <;> rw [h] <;> decide
      constructor
      · rintro ⟨-, hexpired, -⟩
        refine ⟨rfl, hother, fun hnow hnone => ?_⟩
        obtain ⟨s', refresh, -, -, hrefresh, -⟩ := hexpired hnow
        rw [hnone] at hrefresh
        cases hrefresh
      · rintro ⟨-, -, hrefresh⟩
        cases hnow : expired s.now stored.expiresAtUnix with
        | false =>
          obtain ⟨s', hstep, hdone⟩ :=
            resolves_good accountId adopted hrest hrevoked hnow
          refine ⟨fun _ => ⟨s', run_step hstep [], hdone⟩, fun htrue => ?_, fun s'' hrun hpc => ?_⟩
          · rw [hnow] at htrue
            cases htrue
          · rw [run_step hstep] at hrun
            cases hrun
            rw [hdone] at hpc
            cases hpc
        | true =>
          rcases hprovider with hprovider | ⟨-, hnever⟩
          · obtain ⟨refreshToken, hsome⟩ := Option.ne_none_iff_exists'.mp (hrefresh hnow)
            obtain ⟨s₁, hstep, hwaits, s', refresh, hrun, hrequests⟩ :=
              resolves_expired adopted hrest hrevoked hprovider hnow hsome
            refine ⟨fun hfalse => ?_, fun _ => ⟨s', refresh, ?_, hrequests⟩, fun s'' hrun' hpc => ?_⟩
            · rw [hnow] at hfalse
              cases hfalse
            · rw [run_step hstep]
              exact hrun
            · rw [run_step hstep] at hrun'
              cases hrun'
              rw [hwaits] at hpc
              cases hpc
          · rw [hnever] at hnow
            cases hnow

/-- A Sign in with ChatGPT account, just signed in. -/
def siwcAccount : SiwcAccount :=
  ⟨"me@example.com", "a0", "r0", "id", "client", "host", ["chatgpt.tokens.use.direct"], 5000⟩

/-- The account as a process finds it that has just been started. -/
def restarted (credential : Credential) : State :=
  start 1000 (some credential) none none fun _ => none

theorem restarted_atRest (credential : Credential) : AtRest id (restarted credential) 0 credential :=
  ⟨rfl, rfl, rfl, rfl, rfl⟩

/-- Its entry is taken for one that is no OAuth credential. -/
theorem siwc_unread : ¬∀ (accountId : String) (adopted : Bool) (proc : Nat → Nat) (s : State) (t : Nat)
    (stored : StoredOAuth) (siwc : Option SiwcMeta), Stored accountId (.oauth stored siwc) →
    AtRest proc s t (.oauth stored siwc) → Resolves accountId adopted proc s t stored := by
  intro h
  have hresolves := h ("chatgpt-api:" ++ siwcAccount.user) false id
    (restarted (settleSiwc siwcAccount)) 0 _ _ (.siwc siwcAccount) (restarted_atRest _)
  exact hresolves.2.2 _ rfl rfl

/-- A Codex account whose stored token is still good. -/
theorem resolves_iff_codex :
    Resolves "codex:me@example.com" false id
        (restarted (settleCodex ⟨"me@example.com", "a0", "r0", some 5000⟩)) 0
        ⟨"codex", "me@example.com", "a0", some "r0", some 5000⟩ ↔
      (restarted (settleCodex ⟨"me@example.com", "a0", "r0", some 5000⟩)).revoked = none ∧
        providerOf "codex:me@example.com" ≠ "chatgpt-api" ∧
        (expired 1000 (some 5000) = true → some "r0" ≠ none) :=
  resolves_iff "codex:me@example.com" false id _ 0 _ none (.codex ⟨"me@example.com", "a0", "r0", some 5000⟩)
    (restarted_atRest _)

end AnyConverter.Accounts
