import Mathlib.Algebra.Ring.Nat
import AnyConverter.Server.SignIn.Query

/-!
# The device flow

The user enters a code at the vendor's page, and the token endpoint is asked again and again until
they have.  The endpoint may ask for a slower pace; a sleep ends at the deadline at the latest.

* `waitFrom_paced`: two polls are never closer than the pace the endpoint has asked for by then;
* `waitFrom_ends`: a wait ends, however the endpoint answers;
* `device_flow`: after a number of polls that the timeout bounds, with what the last was answered.
-/

set_option autoImplicit false

namespace AnyConverter.SignIn.Device

/-! ## The requests -/

structure DeviceCodeResponse where
  deviceCode : String
  userCode : String
  verificationUri : Option String
  /-- in seconds -/
  interval : Option Nat
  deriving DecidableEq, Repr

structure TokenPollResponse where
  accessToken : Option String
  error : Option String
  deriving DecidableEq, Repr

structure DeviceCodeStarted where
  userCode : String
  verificationUri : String
  deviceCode : String
  /-- in nanoseconds, as all times here -/
  interval : Nat
  deriving DecidableEq, Repr

structure CopilotAccount where
  user : String
  plan : String
  userCodeHint : String
  accessToken : String
  deriving DecidableEq, Repr

def second : Nat := 1000000000

def defaultPollInterval : Nat := 5 * second

structure CopilotSignIn where
  verificationUri : String
  pollFloor : Nat := second
  slowDownIncrement : Nat := 5 * second

def CopilotSignIn.start (flow : CopilotSignIn) (reply : Except SignInError DeviceCodeResponse) :
    Except SignInError DeviceCodeStarted :=
  reply.map fun response =>
    { userCode := response.userCode
      verificationUri := response.verificationUri.getD flow.verificationUri
      deviceCode := response.deviceCode
      interval := (response.interval.map (· * second)).getD defaultPollInterval }

/-- The first four characters of the code; `toLowercase` is a parameter. -/
def userCodeHint (toLowercase : String → String) (userCode : String) : String :=
  let lower := toLowercase userCode
  if 4 < lower.toList.length then String.ofList (lower.toList.take 4) ++ "****" else lower

def adjustInterval (current : Nat) (error : String) (increment : Nat) : Nat :=
  if error = "slow_down" then current + increment else current

/-! ## The polls -/

/-- What happens around one poll. -/
structure Round where
  /-- from the look at the clock to the request -/
  lag : Nat
  /-- from the request to the look at the clock behind the reply -/
  took : Nat
  reply : Except SignInError TokenPollResponse
  /-- whose token it is, should one come -/
  user : Option (String × String)
  /-- how much longer than it was told to the sleep takes -/
  late : Nat

section
variable (toLowercase : String → String) (flow : CopilotSignIn) (started : DeviceCodeStarted)

/-- What a reply comes to: the end of the flow, or the pace of the next poll. -/
def settle (round : Round) (interval : Nat) : Except SignInError CopilotAccount ⊕ Nat :=
  match round.reply with
  | .error e => .inl (.error e)
  | .ok response =>
    match response.accessToken with
    | some accessToken =>
      let (user, plan) := round.user.getD ("", "")
      .inl (.ok ⟨user, plan, userCodeHint toLowercase started.userCode, accessToken⟩)
    | none =>
      match response.error with
      | some "authorization_pending" => .inr interval
      | some "slow_down" => .inr (adjustInterval interval "slow_down" flow.slowDownIncrement)
      | some "expired_token" => .inl (.error (.vendor "the code expired; start again"))
      | some "access_denied" => .inl (.error (.vendor "the sign-in was declined"))
      | some other => .inl (.error (.vendor ("device flow error: " ++ other)))
      | none =>
        .inl (.error (.vendor "token endpoint returned neither a token nor an error"))

/-- How and when a wait ended, and when the polls of it were sent. -/
structure Waited where
  result : Except SignInError CopilotAccount
  ended : Nat
  polls : List Nat

/-- The loop of `wait`, from its `k`-th poll on. -/
def waitFrom (deadline : Nat) (rounds : Nat → Round) : (fuel k now interval : Nat) → Option Waited
  | 0, _, _, _ => none
  | fuel + 1, k, now, interval =>
    if deadline ≤ now then some ⟨.error .timeout, now, []⟩
    else
      let sent := now + (rounds k).lag
      let replied := sent + (rounds k).took
      match settle toLowercase flow started (rounds k) interval with
      | .inl result => some ⟨result, replied, [sent]⟩
      | .inr interval =>
        let sleepFor := max interval flow.pollFloor
        let remaining := deadline - replied
        if remaining = 0 then some ⟨.error .timeout, replied, [sent]⟩
        else
          (waitFrom deadline rounds fuel (k + 1) (replied + min sleepFor remaining + (rounds k).late)
            interval).map fun waited => { waited with polls := sent :: waited.polls }

def wait (timeout : Nat) (rounds : Nat → Round) (fuel now : Nat) : Option Waited :=
  waitFrom toLowercase flow started (now + timeout) rounds fuel 0 now started.interval

end

/-! ## The pace -/

def KeepsWaiting (round : Round) : Prop :=
  round.reply = .ok ⟨none, some "authorization_pending"⟩ ∨ round.reply = .ok ⟨none, some "slow_down"⟩

def slowsDown (round : Round) : Bool :=
  match round.reply with
  | .ok ⟨none, some "slow_down"⟩ => true
  | _ => false

section
variable (toLowercase : String → String) (flow : CopilotSignIn) (started : DeviceCodeStarted)
  (rounds : Nat → Round)

/-- What the endpoint has asked for before its `k`-th reply. -/
def intervalAt (k : Nat) : Nat :=
  started.interval + (List.range k).countP (fun j => slowsDown (rounds j)) * flow.slowDownIncrement

/-- How long the flow is to sleep before its `k`-th poll. -/
def pace (k : Nat) : Nat := max (intervalAt flow started rounds k) flow.pollFloor

end

section
variable {toLowercase : String → String} {flow : CopilotSignIn} {started : DeviceCodeStarted}
  {rounds : Nat → Round}

theorem intervalAt_succ (k : Nat) : intervalAt flow started rounds (k + 1) =
    intervalAt flow started rounds k +
      if slowsDown (rounds k) then flow.slowDownIncrement else 0 := by
  unfold intervalAt
  rw [List.range_succ, List.countP_append, List.countP_singleton]
  split
  · rw [Nat.add_mul, Nat.one_mul, Nat.add_assoc]
  · rw [Nat.add_zero, Nat.add_zero]

theorem pace_zero_le (k : Nat) : pace flow started rounds 0 ≤ pace flow started rounds k := by
  have hzero : intervalAt flow started rounds 0 = started.interval := by simp [intervalAt]
  have hle : started.interval ≤ intervalAt flow started rounds k := Nat.le_add_right _ _
  unfold pace
  omega

/-- The flow goes on exactly when the endpoint tells it to, at the pace it asks for. -/
theorem settle_inr {k next : Nat}
    (h : settle toLowercase flow started (rounds k) (intervalAt flow started rounds k) = .inr next) :
    KeepsWaiting (rounds k) ∧ next = intervalAt flow started rounds (k + 1) := by
  rw [intervalAt_succ]
  unfold settle at h
  split at h
  · cases h
  · rename_i response hreply
    obtain ⟨accessToken, error⟩ := response
    split at h
    · cases h
    · rename_i hnone
      dsimp only at hnone
      subst hnone
      split at h
      · rename_i herror
        dsimp only at herror
        subst herror
        cases h
        refine ⟨Or.inl hreply, ?_⟩
        simp [slowsDown, hreply]
      · rename_i herror
        dsimp only at herror
        subst herror
        cases h
        refine ⟨Or.inr hreply, ?_⟩
        simp [slowsDown, hreply, adjustInterval]
      · cases h
      · cases h
      · cases h
      · cases h

/-! ## Whole waits -/

/-- What a wait is like from its `k`-th poll on, when the clock stands at `now` before it. -/
structure Paced (toLowercase : String → String) (flow : CopilotSignIn) (started : DeviceCodeStarted)
    (rounds : Nat → Round) (deadline k now : Nat) (waited : Waited) : Prop where
  after : ∀ sent ∈ waited.polls, now ≤ sent
  spaced : ∀ i (h : i + 1 < waited.polls.length),
    waited.polls[i] + pace flow started rounds (k + i + 1) ≤ waited.polls[i + 1]
  few : waited.polls ≠ [] →
    now + (waited.polls.length - 1) * pace flow started rounds 0 < deadline
  waits : ∀ i, i + 1 < waited.polls.length → KeepsWaiting (rounds (k + i))
  ends : (waited.result = .error .timeout ∧ deadline ≤ waited.ended ∧
      ∀ i < waited.polls.length, KeepsWaiting (rounds (k + i))) ∨
    ∃ last, waited.polls.length = last + 1 ∧ settle toLowercase flow started (rounds (k + last))
      (intervalAt flow started rounds (k + last)) = .inl waited.result

/-- A poll that is followed by others, each as late as it has to be. -/
theorem Paced.cons {deadline k now next sent : Nat} {waited : Waited}
    (h : Paced toLowercase flow started rounds deadline (k + 1) next waited)
    (hkeeps : KeepsWaiting (rounds k)) (hsent : now ≤ sent) (hnow : now < deadline)
    (hnext : sent + pace flow started rounds (k + 1) ≤ next ∨ deadline ≤ next) :
    Paced toLowercase flow started rounds deadline k now
      { waited with polls := sent :: waited.polls } := by
  have hshift (i : Nat) : k + (i + 1) = k + 1 + i := by omega
  -- a next poll is sent before the deadline, so the sleep before it was not cut
  have hslept (hne : waited.polls ≠ []) : sent + pace flow started rounds (k + 1) ≤ next := by
    have hfew := h.few hne
    rcases hnext with hnext | hnext
    · exact hnext
    · omega
  refine ⟨fun sent' hmem => ?_, fun i hi => ?_, fun _ => ?_, fun i hi => ?_, ?_⟩
  · rcases List.mem_cons.mp hmem with rfl | hmem
    · exact hsent
    · have hlater := h.after sent' hmem
      have hslept := hslept (List.ne_nil_of_mem hmem)
      omega
  · cases i with
    | zero =>
      have hlength : 0 < waited.polls.length := by simpa using hi
      have hlater := h.after _ (List.getElem_mem hlength)
      have hslept := hslept (List.ne_nil_of_length_pos hlength)
      simp only [List.getElem_cons_zero, List.getElem_cons_succ, Nat.add_zero]
      omega
    | succ i =>
      have hi' : i + 1 < waited.polls.length := by simpa using hi
      have hspaced := h.spaced i hi'
      rw [← hshift i] at hspaced
      simpa using hspaced
  · by_cases hne : waited.polls = []
    · simpa [hne] using hnow
    · have hslept := hslept hne
      have hfew := h.few hne
      have hpace : pace flow started rounds 0 ≤ pace flow started rounds (k + 1) := pace_zero_le _
      obtain ⟨n, hn⟩ := Nat.exists_eq_add_one_of_ne_zero (mt List.length_eq_zero_iff.mp hne)
      simp only [List.length_cons, hn, Nat.add_sub_cancel] at hfew ⊢
      rw [Nat.add_mul, Nat.one_mul]
      omega
  · cases i with
    | zero => exact hkeeps
    | succ i =>
      rw [hshift i]
      exact h.waits i (by simpa using hi)
  · rcases h.ends with ⟨hresult, hended, hall⟩ | ⟨last, hlength, hsettled⟩
    · refine Or.inl ⟨hresult, hended, fun i hi => ?_⟩
      cases i with
      | zero => exact hkeeps
      | succ i =>
        rw [hshift i]
        exact hall i (by simpa using hi)
    · refine Or.inr ⟨last + 1, by simp [hlength], ?_⟩
      rw [hshift last]
      exact hsettled

theorem waitFrom_paced {deadline fuel k now : Nat} {waited : Waited}
    (h : waitFrom toLowercase flow started deadline rounds fuel k now
      (intervalAt flow started rounds k) = some waited) :
    Paced toLowercase flow started rounds deadline k now waited := by
  induction fuel generalizing k now waited with
  | zero => cases h
  | succ fuel ih =>
    unfold waitFrom at h
    split at h
    · rename_i hlate
      cases h
      exact ⟨by simp, by simp, by simp, by simp, Or.inl ⟨rfl, hlate, by simp⟩⟩
    · rename_i hnow
      have hnow : now < deadline := Nat.lt_of_not_le hnow
      dsimp only at h
      split at h
      · rename_i result hsettle
        cases h
        exact ⟨by simp, by simp, fun _ => by simpa using hnow, by simp, Or.inr ⟨0, rfl, hsettle⟩⟩
      · rename_i next hsettle
        obtain ⟨hkeeps, rfl⟩ := settle_inr hsettle
        split at h
        · rename_i hremaining
          cases h
          refine ⟨by simp, by simp, fun _ => by simpa using hnow, by simp, Or.inl ⟨rfl, ?_, ?_⟩⟩
          · dsimp only
            omega
          · intro i hi
            obtain rfl : i = 0 := by simpa using hi
            exact hkeeps
        · rename_i hremaining
          obtain ⟨rest, hrest, rfl⟩ := Option.map_eq_some_iff.mp h
          refine (ih hrest).cons hkeeps (Nat.le_add_right _ _) hnow ?_
          unfold pace
          omega

/-- With a pace of its own a wait ends. -/
theorem waitFrom_ends (k : Nat) {deadline fuel now : Nat}
    (hfuel : deadline ≤ now + fuel * pace flow started rounds 0) :
    ∃ waited, waitFrom toLowercase flow started deadline rounds (fuel + 1) k now
      (intervalAt flow started rounds k) = some waited := by
  induction fuel generalizing k now with
  | zero =>
    unfold waitFrom
    rw [if_pos (by omega)]
    exact ⟨_, rfl⟩
  | succ fuel ih =>
    unfold waitFrom
    split
    · exact ⟨_, rfl⟩
    · dsimp only
      split
      · exact ⟨_, rfl⟩
      · rename_i next hsettle
        obtain ⟨-, rfl⟩ := settle_inr hsettle
        split
        · exact ⟨_, rfl⟩
        · have hle : pace flow started rounds 0 ≤ pace flow started rounds (k + 1) := pace_zero_le _
          have hreach : deadline ≤ now + (rounds k).lag + (rounds k).took +
              min (max (intervalAt flow started rounds (k + 1)) flow.pollFloor)
                (deadline - (now + (rounds k).lag + (rounds k).took)) + (rounds k).late +
              fuel * pace flow started rounds 0 := by
            rw [Nat.add_mul, Nat.one_mul] at hfuel
            unfold pace at hle hfuel ⊢
            omega
          obtain ⟨waited, hwaited⟩ := ih (k + 1) hreach
          rw [hwaited]
          exact ⟨_, rfl⟩

/-- A token that was answered, and nothing else, makes an account of it. -/
theorem settle_ok {round : Round} {interval : Nat} {token : String} :
    (∃ account, settle toLowercase flow started round interval = .inl (.ok account) ∧
      account.accessToken = token) ↔
    ∃ error, round.reply = .ok ⟨some token, error⟩ := by
  constructor
  · rintro ⟨account, h, rfl⟩
    unfold settle at h
    split at h
    · cases h
    · rename_i response hreply
      obtain ⟨accessToken, error⟩ := response
      split at h
      · rename_i accessToken htoken
        dsimp only at htoken
        subst htoken
        cases h
        exact ⟨error, hreply⟩
      · split at h <;> cases h
  · rintro ⟨error, hreply⟩
    unfold settle
    rw [hreply]
    exact ⟨_, rfl, rfl⟩

theorem KeepsWaiting.no_token {round : Round} {token : String} {error : Option String}
    (h : KeepsWaiting round) : round.reply ≠ .ok ⟨some token, error⟩ := by
  intro htoken
  rcases h with h | h
  · rw [htoken] at h
    cases h
  · rw [htoken] at h
    cases h

/-- The token of an account is what the last poll was answered, and a token that was answered is
never dropped. -/
theorem Paced.token_iff {deadline now : Nat} {waited : Waited}
    (h : Paced toLowercase flow started rounds deadline 0 now waited) (token : String) :
    (∃ account, waited.result = .ok account ∧ account.accessToken = token) ↔
      ∃ i < waited.polls.length, ∃ error, (rounds i).reply = .ok ⟨some token, error⟩ := by
  rcases h.ends with ⟨htimeout, -, hall⟩ | ⟨last, hlength, hsettled⟩
  · rw [htimeout]
    constructor
    · rintro ⟨account, hresult, -⟩
      cases hresult
    · rintro ⟨i, hi, error, hreply⟩
      have hkeeps := hall i hi
      rw [Nat.zero_add] at hkeeps
      exact absurd hreply hkeeps.no_token
  · rw [Nat.zero_add] at hsettled
    constructor
    · rintro ⟨account, hresult, htoken⟩
      rw [hresult] at hsettled
      obtain ⟨error, hreply⟩ := settle_ok.mp ⟨account, hsettled, htoken⟩
      exact ⟨last, by omega, error, hreply⟩
    · rintro ⟨i, hi, error, hreply⟩
      have hlast : i = last := by
        by_contra hne
        have hkeeps := h.waits i (by omega)
        rw [Nat.zero_add] at hkeeps
        exact absurd hreply hkeeps.no_token
      subst hlast
      obtain ⟨account, haccount, htoken⟩ := settle_ok.mpr ⟨error, hreply⟩
      rw [hsettled] at haccount
      exact ⟨account, Sum.inl.inj haccount, htoken⟩

end

/-- **A device flow ends, and never polls faster than it was told to.**  Whatever the endpoint answers
and however long everything takes: with fuel for the timeout the wait ends; every poll is as much
later than the one before it as the endpoint has asked for by then; there are no more polls than the
timeout has room for; the wait goes on exactly while it is told to, and ends with a timeout only
behind the deadline; and it comes to an account exactly when a token was answered, with that token. -/
theorem device_flow (toLowercase : String → String) (flow : CopilotSignIn)
    (started : DeviceCodeStarted) (timeout now fuel : Nat) (rounds : Nat → Round)
    (hpace : 0 < pace flow started rounds 0)
    (hfuel : timeout / pace flow started rounds 0 + 2 ≤ fuel) :
    ∃ waited, wait toLowercase flow started timeout rounds fuel now = some waited ∧
      Paced toLowercase flow started rounds (now + timeout) 0 now waited ∧
      waited.polls.length ≤ timeout / pace flow started rounds 0 + 1 ∧
      ∀ token, (∃ account, waited.result = .ok account ∧ account.accessToken = token) ↔
        ∃ i < waited.polls.length, ∃ error, (rounds i).reply = .ok ⟨some token, error⟩ := by
  have hinterval : started.interval = intervalAt flow started rounds 0 := by simp [intervalAt]
  obtain ⟨spare, rfl⟩ := Nat.exists_eq_add_of_le hfuel
  have hroom : now + timeout ≤
      now + (timeout / pace flow started rounds 0 + 1 + spare) * pace flow started rounds 0 := by
    have hlt := Nat.lt_mul_div_succ timeout hpace
    have hle := Nat.mul_le_mul_right (pace flow started rounds 0)
      (Nat.le_add_right (timeout / pace flow started rounds 0 + 1) spare)
    rw [Nat.mul_comm] at hlt
    omega
  obtain ⟨waited, hwaited⟩ : ∃ waited, waitFrom toLowercase flow started (now + timeout) rounds
      (timeout / pace flow started rounds 0 + 1 + spare + 1) 0 now
      (intervalAt flow started rounds 0) = some waited := waitFrom_ends 0 hroom
  have hpaced := waitFrom_paced hwaited
  refine ⟨waited, ?_, hpaced, ?_, hpaced.token_iff⟩
  · unfold wait
    rw [hinterval, ← hwaited]
    congr 1
    omega
  · by_cases hne : waited.polls = []
    · simp [hne]
    · have hfew := hpaced.few hne
      have hle : waited.polls.length - 1 ≤ timeout / pace flow started rounds 0 :=
        (Nat.le_div_iff_mul_le hpace).mpr (by omega)
      omega

/-- The endpoint asks for more time once, then the token comes. -/
def onceSlower (k : Nat) : Round :=
  ⟨0, 10, .ok (if k = 0 then ⟨none, some "slow_down"⟩ else ⟨some "gho_token", none⟩),
    some ("octocat", "individual"), 1⟩

def waitOnceSlower : Option Waited :=
  wait id ⟨"https://github.com/login/device", second, 5 * second⟩
    ⟨"WDJB-MJHT", "https://github.com/login/device", "device", 5 * second⟩ (900 * second) onceSlower
    182 0

/-- The second poll comes ten seconds behind the reply to the first. -/
theorem device_flow_onceSlower : ∃ waited, waitOnceSlower = some waited ∧
    waited.polls.length ≤ 181 ∧ waited.polls = [0, 10 * second + 11] ∧
    ∃ account, waited.result = .ok account ∧ account.accessToken = "gho_token" := by
  obtain ⟨waited, hwaited, -, hfew, htoken⟩ :=
    device_flow id ⟨"https://github.com/login/device", second, 5 * second⟩
      ⟨"WDJB-MJHT", "https://github.com/login/device", "device", 5 * second⟩ (900 * second) 0 182
      onceSlower (by decide) (by decide)
  have hpolls : waitOnceSlower.map Waited.polls = some [0, 10 * second + 11] := by rfl
  have hwaited : waitOnceSlower = some waited := hwaited
  rw [hwaited] at hpolls
  have hpolls : waited.polls = [0, 10 * second + 11] := Option.some.inj hpolls
  refine ⟨waited, hwaited, hfew, hpolls, (htoken "gho_token").mpr ⟨1, ?_, none, rfl⟩⟩
  rw [hpolls]
  decide

end AnyConverter.SignIn.Device
