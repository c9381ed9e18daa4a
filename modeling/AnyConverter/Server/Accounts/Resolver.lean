import Mathlib.Logic.Function.Basic
import AnyConverter.Lib.Text
import AnyConverter.Lib.Runs

/-!
# The account resolver

An account's requests are signed with its access token, which is refreshed when it is about to
expire.  Tasks of several processes do so at once, under a lock of the process and a lock file that
all of them share; each step of the model is the code between two awaits.

* `step`: the steps of the tasks, and of those who sign in and out;
* `resolve_quiet`, `underFlight_quiet`, `underFile_cases`, `afterReply_tokens`, `afterReply_refused`:
  what the code between two awaits may come to.
-/

set_option autoImplicit false

namespace AnyConverter.Accounts

/-! ## Credentials -/

/-- What only a Sign in with ChatGPT account needs. -/
structure SiwcMeta where
  clientId : String
  hostId : String
  idToken : String
  scopes : List String
  deriving DecidableEq, Repr

structure StoredOAuth where
  provider : String
  account : String
  accessToken : String
  refreshToken : Option String
  expiresAtUnix : Option Int
  deriving DecidableEq, Repr

inductive Credential where
  | apiKey (key : String)
  | oauth (stored : StoredOAuth) (siwc : Option SiwcMeta)
  deriving DecidableEq, Repr

inductive AccountError where
  | notSignedIn (accountId : String)
  | notOAuth (accountId : String)
  | unsupportedProvider (accountId : String)
  | refreshFailed (why : String)
  | revoked (accountId why : String)
  | lock
  | store
  deriving DecidableEq, Repr

/-- How early before its expiry a token counts as expired. -/
def refreshMarginSecs : Int := 300

/-- A token without an expiry counts as valid. -/
def expired (now : Int) : Option Int → Bool
  | none => false
  | some at_ => at_ ≤ now + refreshMarginSecs

def providerOf (accountId : String) : String :=
  String.ofList ((Text.splitChar ':' accountId.toList).headD [])

/-- The stored credential of an account, when it is an OAuth one. -/
def readOauth (accountId : String) : Option Credential → Except AccountError StoredOAuth
  | none => .error (.notSignedIn accountId)
  | some (.oauth stored none) => .ok stored
  | some _ => .error (.notOAuth accountId)

theorem readOauth_eq_ok {accountId : String} {store : Option Credential} {stored : StoredOAuth} :
    readOauth accountId store = .ok stored ↔ store = some (.oauth stored none) := by
  constructor
  · intro h
    match store, h with
    | some (.oauth _ none), h =>
      cases h
      rfl
  · rintro rfl
    rfl

/-! ## Answers of the token endpoint -/

/-- A successful answer, as it was parsed. -/
structure TokenReply where
  accessToken : String
  refreshToken : Option String
  expiresIn : Option Int
  idToken : Option String
  scope : String
  /-- the `exp` claim of the access token -/
  accessTokenExp : Option Int
  deriving DecidableEq, Repr

/-- A refusal, with its OAuth code. -/
structure SiwcTokenError where
  code : String
  message : String
  deriving DecidableEq, Repr

inductive Reply where
  | unreachable (why : String)
  | refused (status text : String) (refusal : SiwcTokenError)
  | malformed (why : String)
  | tokens (reply : TokenReply)
  deriving DecidableEq, Repr

/-- What a refresh stores: an answer without a refresh token keeps the stored one. -/
def refreshed (now : Int) (provider : String) (latest : StoredOAuth) (reply : TokenReply) :
    StoredOAuth :=
  { latest with
    accessToken := reply.accessToken
    refreshToken := reply.refreshToken.or latest.refreshToken
    expiresAtUnix :=
      match reply.expiresIn with
      | some secs => some (now + secs)
      | none => if provider = "codex" then reply.accessTokenExp else none }

/-! ### Sign in with ChatGPT -/

structure SiwcTokens where
  access : String
  refresh : String
  idToken : String
  expiresIn : Int
  scope : String
  deriving DecidableEq, Repr

def siwcMarginSecs : Int := 180

/-- The refusals of a refresh token that will never work again. -/
def siwcDead : List String :=
  ["invalid_grant", "invalid_refresh_token", "token_expired", "refresh_token_expired",
    "refresh_token_invalidated", "refresh_token_reused"]

def siwcDirectScope : String := "chatgpt.tokens.use.direct"

def splitAsciiWhitespace (s : String) : List String :=
  ((s.toList.splitOnP fun c => c = ' ' || c = '\t' || c = '\n' || c = '\x0c' || c = '\r').filter
    (· ≠ [])).map String.ofList

def parseTokens (reply : TokenReply) : Except String SiwcTokens :=
  if reply.accessToken = "" ∨ reply.refreshToken.getD "" = "" then
    .error "vendor error: OpenAI sent no token"
  else if reply.expiresIn.getD 0 ≤ 0 then
    .error "vendor error: OpenAI's token has no lifetime"
  else if siwcDirectScope ∉ splitAsciiWhitespace reply.scope then
    .error ("vendor error: OpenAI didn't grant the use of the subscription through its API (" ++
      siwcDirectScope ++ "): this ChatGPT account may not be eligible")
  else
    .ok { access := reply.accessToken
          refresh := reply.refreshToken.getD ""
          idToken := reply.idToken.getD ""
          expiresIn := reply.expiresIn.getD 0
          scope := reply.scope }

def siwcRefreshed (now : Int) (latest : StoredOAuth) (tokens : SiwcTokens) : StoredOAuth :=
  { latest with
    accessToken := tokens.access
    refreshToken := some tokens.refresh
    expiresAtUnix := some (now + tokens.expiresIn) }

def siwcMetaRefreshed (kept : SiwcMeta) (tokens : SiwcTokens) : SiwcMeta :=
  { kept with
    idToken := if tokens.idToken = "" then kept.idToken else tokens.idToken
    scopes := splitAsciiWhitespace tokens.scope }

/-! ## Tasks -/

/-- A refresh whose request is under way. -/
structure Refresh where
  latest : StoredOAuth
  refreshToken : String
  /-- the extra fields of a Sign in with ChatGPT account -/
  siwc : Option SiwcMeta
  sentAt : Int
  /-- how many sign-ins and sign-outs there had been when the credential was read -/
  epoch : Nat
  deriving DecidableEq, Repr

inductive Entry where
  | resolve
  | forceRefresh
  deriving DecidableEq, Repr

/-- Where a task stands. -/
inductive Pc where
  | idle
  /-- waits for the lock of its process; a resolving task has seen a refresh token -/
  | waitingFlight (entry : Entry) (seen : Option String)
  /-- waits for the lock file, with the lock of its process -/
  | waitingFile (entry : Entry) (seen : Option String)
  | requesting (refresh : Refresh)
  /-- writes the tokens of an adopted account back to where Codex reads them -/
  | writingBack (accessToken : String)
  | done (result : Except AccountError String)
  /-- the task was dropped, or could not read the store -/
  | stopped
  deriving Repr

/-- What became of a refresh token at the endpoint; a request ends when it is not accepted. -/
inductive Event where
  | sent (refreshToken : String)
  | accepted (refreshToken : String)
  | ended (refreshToken : String)
  deriving DecidableEq, Repr

/-- One account, as all processes see it. -/
structure State where
  now : Int
  store : Option Credential
  /-- the side file that older versions kept the extra fields in -/
  siwcMeta : Option SiwcMeta
  /-- why the account is marked revoked -/
  revoked : Option String
  /-- the cached token of each process -/
  cache : Nat → Option (String × Option Int)
  /-- who holds the lock of each process -/
  flight : Nat → Option Nat
  /-- who holds the lock file -/
  fileLock : Option Nat
  pc : Nat → Pc
  epoch : Nat
  log : List Event

/-- How the code between two awaits ends. -/
inductive Next where
  | await (pc : Pc)
  | answer (result : Except AccountError String)
  /-- what is stored is cached and answered -/
  | reuse (latest : StoredOAuth)
  | request (refresh : Refresh)
  | persist (updated : StoredOAuth) (siwc : Option SiwcMeta)
  | markRevoked (why : String)

section
variable (accountId : String) (adopted : Bool) (proc : Nat → Nat)

def siwcMetaOf (s : State) : Option SiwcMeta :=
  match s.store with
  | some (.oauth _ (some kept)) => some kept
  | _ => s.siwcMeta

def noRefreshToken : AccountError :=
  .refreshFailed "token expired and no refresh token is stored"

/-- `AccountResolver::refresh_siwc` up to its request; a token that is good for a while yet is kept. -/
def refreshSiwc (s : State) (latest : StoredOAuth) : Next :=
  match siwcMetaOf s with
  | none =>
    .answer (.error (.refreshFailed
      ("no ChatGPT API client id is kept for " ++ accountId ++ "; sign in again")))
  | some kept =>
    match latest.refreshToken with
    | none => .answer (.error noRefreshToken)
    | some refreshToken =>
      let expiresAtUnix := latest.expiresAtUnix.getD 0
      if siwcMarginSecs < expiresAtUnix - s.now then
        let tokens : SiwcTokens :=
          { access := latest.accessToken
            refresh := refreshToken
            idToken := kept.idToken
            expiresIn := expiresAtUnix - s.now
            scope := " ".intercalate kept.scopes }
        .persist (siwcRefreshed s.now latest tokens) (some (siwcMetaRefreshed kept tokens))
      else .request ⟨latest, refreshToken, some kept, s.now, s.epoch⟩

/-- `AccountResolver::refresh_stored` up to its request. -/
def refreshStored (s : State) (latest : StoredOAuth) : Next :=
  if providerOf accountId = "chatgpt-api" then refreshSiwc accountId s latest
  else if providerOf accountId = "gemini" ∨ providerOf accountId = "codex" then
    match latest.refreshToken with
    | none => .answer (.error noRefreshToken)
    | some refreshToken => .request ⟨latest, refreshToken, none, s.now, s.epoch⟩
  else .answer (.error (.unsupportedProvider accountId))

/-- The rest of `refresh_stored` and of `refresh_siwc`, once the endpoint has answered. -/
def afterReply (s : State) (refresh : Refresh) (reply : Reply) : Next :=
  match refresh.siwc with
  | none =>
    match reply with
    | .unreachable why =>
      .answer (.error (.refreshFailed ("token endpoint request failed: " ++ why)))
    | .refused status text _ =>
      .answer (.error (.refreshFailed ("token endpoint returned " ++ status ++ ": " ++ text)))
    | .malformed why =>
      .answer (.error (.refreshFailed ("token endpoint returned malformed payload: " ++ why)))
    | .tokens reply => .persist (refreshed s.now (providerOf accountId) refresh.latest reply) none
  | some kept =>
    match reply with
    | .unreachable why =>
      -- a hiccup: the token in hand still does
      if refresh.sentAt < refresh.latest.expiresAtUnix.getD 0 then
        .answer (.ok refresh.latest.accessToken)
      else .answer (.error (.refreshFailed ("ChatGPT token refresh: " ++ why)))
    | .refused _ _ refusal =>
      if refusal.code ∈ siwcDead then
        .markRevoked (accountId ++ "'s ChatGPT sign-in has expired — sign in again")
      else if refusal.code = "invalid_client" then
        .answer (.error (.refreshFailed
          "OpenAI no longer knows the client registered for this account — sign in again"))
      else
        .answer (.error (.refreshFailed ("ChatGPT token refresh: " ++ refusal.code ++
          if refusal.message = "" then "" else ": " ++ refusal.message)))
    | .malformed why =>
      .answer (.error (.refreshFailed ("vendor error: unreadable token answer: " ++ why)))
    | .tokens reply =>
      match parseTokens reply with
      | .error why => .answer (.error (.refreshFailed why))
      | .ok tokens =>
        .persist (siwcRefreshed s.now refresh.latest tokens) (some (siwcMetaRefreshed kept tokens))

/-- `AccountResolver::resolve` where the cache does not answer. -/
def resolveStored (s : State) : Next :=
  match readOauth accountId s.store with
  | .error e => .answer (.error e)
  | .ok stored =>
    if expired s.now stored.expiresAtUnix then .await (.waitingFlight .resolve stored.refreshToken)
    else .reuse stored

/-- `AccountResolver::resolve` up to its first await. -/
def resolve (s : State) (p : Nat) : Next :=
  match s.revoked with
  | some why => .answer (.error (.revoked accountId why))
  | none =>
    match s.cache p with
    | some (token, expiresAtUnix) =>
      if expired s.now expiresAtUnix then resolveStored accountId s else .answer (.ok token)
    | none => resolveStored accountId s

/-- `AccountResolver::force_refresh` up to its first await. -/
def forceRefresh (s : State) : Next :=
  match s.revoked with
  | some why => .answer (.error (.revoked accountId why))
  | none => .await (.waitingFlight .forceRefresh none)

/-- Under the lock of the process: a resolving task checks again, a forced refresh takes its
baseline. -/
def underFlight (s : State) (entry : Entry) (seen : Option String) : Next :=
  match readOauth accountId s.store with
  | .error e => .answer (.error e)
  | .ok latest =>
    match entry with
    | .resolve =>
      if latest.refreshToken ≠ seen ∨ expired s.now latest.expiresAtUnix = false then .reuse latest
      else .await (.waitingFile .resolve seen)
    | .forceRefresh => .await (.waitingFile .forceRefresh latest.refreshToken)

/-- Under the lock file: somebody else may have refreshed meanwhile. -/
def underFile (s : State) (entry : Entry) (seen : Option String) : Next :=
  match readOauth accountId s.store with
  | .error e => .answer (.error e)
  | .ok latest =>
    if latest.refreshToken ≠ seen ∨ entry = .resolve ∧ expired s.now latest.expiresAtUnix = false then
      .reuse latest
    else refreshStored accountId s latest

/-! ## Steps -/

def State.cachePut (s : State) (p : Nat) (accessToken : String) (expiresAtUnix : Option Int) : State :=
  { s with cache := Function.update s.cache p (some (accessToken, expiresAtUnix)) }

/-- A task goes on, with the locks it has. -/
def State.goto (s : State) (t : Nat) (pc : Pc) : State := { s with pc := Function.update s.pc t pc }

/-- A task ends, and its locks are released. -/
def State.leave (s : State) (t : Nat) (pc : Pc) : State :=
  { s.goto t pc with
    flight := if s.flight (proc t) = some t then Function.update s.flight (proc t) none else s.flight
    fileLock := if s.fileLock = some t then none else s.fileLock }

/-- What comes of the code between two awaits; `writes` says whether its write to a file succeeds. -/
def State.perform (s : State) (t : Nat) (writes : Bool) : Next → State
  | .await pc => s.goto t pc
  | .answer result => s.leave proc t (.done result)
  | .reuse latest =>
    (s.cachePut (proc t) latest.accessToken latest.expiresAtUnix).leave proc t
      (.done (.ok latest.accessToken))
  | .request refresh =>
    { s with log := s.log ++ [Event.sent refresh.refreshToken] }.goto t (.requesting refresh)
  | .persist updated siwc =>
    if writes then
      let stored := { s with store := some (.oauth updated siwc) }.cachePut (proc t)
        updated.accessToken updated.expiresAtUnix
      if adopted ∧ siwc = none then stored.goto t (.writingBack updated.accessToken)
      else stored.leave proc t (.done (.ok updated.accessToken))
    else s.leave proc t (.done (.error .store))
  | .markRevoked why =>
    { s with revoked := if writes then some why else s.revoked }.leave proc t
      (.done (.error (.revoked accountId why)))

/-- A step of one task; of somebody who signs in or out; or time passes. -/
inductive Act where
  | wait (secs : Nat)
  | resolve (t : Nat)
  | forceRefresh (t : Nat)
  | takeFlight (t : Nat)
  | takeFile (t : Nat) (writes : Bool)
  | lockTimeout (t : Nat)
  | reply (t : Nat) (reply : Reply) (writes : Bool)
  | writeBack (t : Nat)
  | stop (t : Nat)
  | storeSignIn (p : Nat) (credential : Credential) (writes : Bool)
  | deleteStored (p : Nat) (writes : Bool)
  | markRevoked (why : String)
  deriving DecidableEq, Repr

def Reply.event (refreshToken : String) : Reply → Event
  | .tokens _ => .accepted refreshToken
  | _ => .ended refreshToken

/-- `AccountResolver::store_sign_in`, which caches the token before it stores it. -/
def State.storeSignIn (s : State) (p : Nat) (credential : Credential) (writes : Bool) : State :=
  let cached :=
    match credential with
    | .oauth stored _ => s.cachePut p stored.accessToken stored.expiresAtUnix
    | .apiKey _ => s
  if writes then { cached with store := some credential, revoked := none, epoch := s.epoch + 1 }
  else { cached with epoch := s.epoch + 1 }

/-- `AccountResolver::delete_stored`. -/
def State.deleteStored (s : State) (p : Nat) (writes : Bool) : State :=
  { s with cache := Function.update s.cache p none
           store := if writes then none else s.store
           epoch := s.epoch + 1 }

def step (s : State) : Act → Option State
  | .wait secs => some { s with now := s.now + secs }
  | .resolve t =>
    match s.pc t with
    | .idle => some (s.perform accountId adopted proc t true (Accounts.resolve accountId s (proc t)))
    | _ => none
  | .forceRefresh t =>
    match s.pc t with
    | .idle => some (s.perform accountId adopted proc t true (Accounts.forceRefresh accountId s))
    | _ => none
  | .takeFlight t =>
    match s.pc t, s.flight (proc t) with
    | .waitingFlight entry seen, none =>
      let s := { s with flight := Function.update s.flight (proc t) (some t) }
      some (s.perform accountId adopted proc t true (underFlight accountId s entry seen))
    | _, _ => none
  | .takeFile t writes =>
    match s.pc t, s.fileLock with
    | .waitingFile entry seen, none =>
      let s := { s with fileLock := some t }
      some (s.perform accountId adopted proc t writes (underFile accountId s entry seen))
    | _, _ => none
  | .lockTimeout t =>
    match s.pc t with
    | .waitingFile _ _ => some (s.leave proc t (.done (.error .lock)))
    | _ => none
  | .reply t reply writes =>
    match s.pc t with
    | .requesting refresh =>
      let s := { s with log := s.log ++ [reply.event refresh.refreshToken] }
      some (s.perform accountId adopted proc t writes (afterReply accountId s refresh reply))
    | _ => none
  | .writeBack t =>
    match s.pc t with
    | .writingBack accessToken => some (s.leave proc t (.done (.ok accessToken)))
    | _ => none
  | .stop t =>
    match s.pc t with
    | .requesting refresh =>
      some ({ s with log := s.log ++ [Event.ended refresh.refreshToken] }.leave proc t .stopped)
    | .waitingFlight _ _ | .waitingFile _ _ | .writingBack _ => some (s.leave proc t .stopped)
    | _ => none
  | .storeSignIn p credential writes => some (s.storeSignIn p credential writes)
  | .deleteStored p writes => some (s.deleteStored p writes)
  | .markRevoked why => some { s with revoked := some why }

end

/-! ## What the code between two awaits may come to -/

def Pc.Waits : Pc → Prop
  | .waitingFlight _ _ | .waitingFile _ _ => True
  | _ => False

/-- Neither the endpoint nor the store is touched. -/
def Next.Quiet (s : State) : Next → Prop
  | .await pc => pc.Waits
  | .answer _ => True
  | .reuse latest => s.store = some (.oauth latest none)
  | _ => False

section
variable {accountId : String} {s : State}

theorem resolveStored_quiet : (resolveStored accountId s).Quiet s := by
  unfold resolveStored
  split
  · trivial
  · rename_i stored hread
    split
    · trivial
    · exact readOauth_eq_ok.mp hread

theorem resolve_quiet (p : Nat) : (resolve accountId s p).Quiet s := by
  unfold resolve
  split
  · trivial
  · split
    · split
      · exact resolveStored_quiet
      · trivial
    · exact resolveStored_quiet

theorem forceRefresh_quiet : (forceRefresh accountId s).Quiet s := by
  unfold forceRefresh
  split <;> trivial

theorem underFlight_quiet (entry : Entry) (seen : Option String) :
    (underFlight accountId s entry seen).Quiet s := by
  unfold underFlight
  split
  · trivial
  · rename_i latest hread
    split
    · split
      · exact readOauth_eq_ok.mp hread
      · trivial
    · trivial

/-- Under the lock file the stored refresh token is sent, or what is stored is kept. -/
def Next.Refreshes (s : State) : Next → Prop
  | .request refresh => s.store = some (.oauth refresh.latest none) ∧
      refresh.latest.refreshToken = some refresh.refreshToken ∧ refresh.epoch = s.epoch
  | .persist updated _ => ∃ latest refreshToken, s.store = some (.oauth latest none) ∧
      latest.refreshToken = some refreshToken ∧ updated.refreshToken = some refreshToken
  | _ => False

theorem refreshSiwc_cases {latest : StoredOAuth} (hstore : s.store = some (.oauth latest none)) :
    (refreshSiwc accountId s latest).Quiet s ∨ (refreshSiwc accountId s latest).Refreshes s := by
  unfold refreshSiwc
  split
  · exact Or.inl trivial
  · split
    · exact Or.inl trivial
    · rename_i refreshToken hrefresh
      dsimp only
      split
      · exact Or.inr ⟨latest, refreshToken, hstore, hrefresh, rfl⟩
      · exact Or.inr ⟨hstore, hrefresh, rfl⟩

theorem refreshStored_cases {latest : StoredOAuth} (hstore : s.store = some (.oauth latest none)) :
    (refreshStored accountId s latest).Quiet s ∨ (refreshStored accountId s latest).Refreshes s := by
  unfold refreshStored
  split
  · exact refreshSiwc_cases hstore
  · split
    · split
      · exact Or.inl trivial
      · rename_i refreshToken hrefresh
        exact Or.inr ⟨hstore, hrefresh, rfl⟩
    · exact Or.inl trivial

variable (accountId s) in
theorem underFile_cases (entry : Entry) (seen : Option String) :
    (underFile accountId s entry seen).Quiet s ∨ (underFile accountId s entry seen).Refreshes s := by
  unfold underFile
  split
  · exact Or.inl trivial
  · rename_i latest hread
    have hstore := readOauth_eq_ok.mp hread
    split
    · exact Or.inl hstore
    · exact refreshStored_cases hstore

variable (accountId s) in
/-- Only tokens are stored. -/
theorem afterReply_refused (refresh : Refresh) {reply : Reply} (h : ∀ tokens, reply ≠ .tokens tokens) :
    (∃ result, afterReply accountId s refresh reply = .answer result) ∨
      ∃ why, afterReply accountId s refresh reply = .markRevoked why := by
  unfold afterReply
  split
  · split
    · exact Or.inl ⟨_, rfl⟩
    · exact Or.inl ⟨_, rfl⟩
    · exact Or.inl ⟨_, rfl⟩
    · exact absurd rfl (h _)
  · split
    · split
      · exact Or.inl ⟨_, rfl⟩
      · exact Or.inl ⟨_, rfl⟩
    · split
      · exact Or.inr ⟨_, rfl⟩
      · split
        · exact Or.inl ⟨_, rfl⟩
        · exact Or.inl ⟨_, rfl⟩
    · exact Or.inl ⟨_, rfl⟩
    · exact absurd rfl (h _)

theorem parseTokens_refresh {reply : TokenReply} {tokens : SiwcTokens}
    (h : parseTokens reply = .ok tokens) : tokens.refresh = reply.refreshToken.getD "" := by
  unfold parseTokens at h
  split at h
  · cases h
  · split at h
    · cases h
    · split at h
      · cases h
      · cases h
        rfl

variable (accountId s) in
/-- Tokens are stored, unless Sign in with ChatGPT does not take them. -/
theorem afterReply_tokens (refresh : Refresh) (tokens : TokenReply) :
    (∃ updated siwc, afterReply accountId s refresh (.tokens tokens) = .persist updated siwc ∧
        ∀ new, tokens.refreshToken = some new → updated.refreshToken = some new) ∨
      (refresh.siwc ≠ none ∧ (∃ why, parseTokens tokens = .error why) ∧
        ∃ result, afterReply accountId s refresh (.tokens tokens) = .answer result) := by
  unfold afterReply
  split
  · refine Or.inl ⟨_, _, rfl, fun new hnew => ?_⟩
    simp only [refreshed, hnew, Option.some_or]
  · rename_i kept hsiwc
    rw [hsiwc]
    dsimp only
    cases hparse : parseTokens tokens with
    | error why => exact Or.inr ⟨nofun, ⟨why, rfl⟩, _, rfl⟩
    | ok parsed =>
      refine Or.inl ⟨_, _, rfl, fun new hnew => ?_⟩
      simp only [siwcRefreshed, parseTokens_refresh hparse, hnew, Option.getD_some]

end

end AnyConverter.Accounts
