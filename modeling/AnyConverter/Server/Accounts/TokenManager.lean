import Mathlib.Algebra.Ring.Int.Defs
import Mathlib.Algebra.Ring.Nat
import AnyConverter.Lib.Runs

/-!
# The token manager

Whoever needs tokens passes in the last ones it was given, and gets these back while they are fresh.
Stale ones are refreshed under a lock, one call at a time; what a refresh brought is kept under the
refresh token it spent, for the calls that wait behind with the same stale tokens.

* `Inv.step`: what every step keeps;
* `good_iff`: when every answer is fresh, and every refresh token of a rotating vendor is spent once.
-/

set_option autoImplicit false

namespace AnyConverter.TokenManager

open Runs

/-! ## Tokens and what is kept of them -/

/-- Tokens, with the instant they expire at; instants are in nanoseconds. -/
structure OAuthTokens where
  accessToken : String
  refreshToken : Option String
  expiresAt : Option Int
  deriving DecidableEq, Repr

/-- Tokens without an expiry are taken to be valid. -/
def isExpired (refreshMargin : Nat) (now : Int) (tokens : OAuthTokens) : Bool :=
  match tokens.expiresAt with
  | none => false
  | some expiresAt => decide (expiresAt ≤ now + refreshMargin)

/-- What a refresh brought, under the refresh token it spent. -/
structure Entry where
  refreshToken : String
  tokens : OAuthTokens
  refreshedAt : Int
  deriving DecidableEq, Repr

structure RefreshCache where
  entries : List Entry
  deriving DecidableEq, Repr

/-- One hour. -/
def retention : Int := 3600 * 10 ^ 9

namespace RefreshCache

def new : RefreshCache := ⟨[]⟩

def get (cache : RefreshCache) (refreshToken : String) : Option OAuthTokens :=
  (cache.entries.find? (·.refreshToken = refreshToken)).map (·.tokens)

/-- Only entries of the last hour are kept beside the new one. -/
def put (cache : RefreshCache) (refreshToken : String) (tokens : OAuthTokens) (now : Int) :
    RefreshCache :=
  let recent := cache.entries.filter fun entry => now - retention < entry.refreshedAt
  ⟨⟨refreshToken, tokens, now⟩ :: recent.filter (·.refreshToken ≠ refreshToken)⟩

end RefreshCache

/-! ## Calls -/

structure State where
  now : Int
  cache : RefreshCache
  /-- the last tokens each caller was given -/
  held : Nat → OAuthTokens
  /-- the calls that wait for the lock, with the refresh token they came with -/
  waiting : List (Nat × String)
  /-- the call that has the lock, and refreshes -/
  refreshing : Option (Nat × String)
  /-- every answer, and when it was given -/
  returned : List (OAuthTokens × Int)
  /-- the refresh tokens that were spent, and when -/
  spent : List (String × Int)

def start (now : Int) (held : Nat → OAuthTokens) : State :=
  ⟨now, .new, held, [], none, [], []⟩

inductive Act where
  | tick (elapsed : Nat)
  | current (caller : Nat)
  /-- the lock goes to one of the calls that wait -/
  | locked (place : Nat)
  | refreshed (tokens : OAuthTokens)
  | refused
  deriving DecidableEq, Repr

namespace State

def give (s : State) (caller : Nat) (tokens : OAuthTokens) : State :=
  { s with
    held := fun c => if c = caller then tokens else s.held c
    returned := (tokens, s.now) :: s.returned }

/-- Whether the vendor rotates a refresh token: it gives another one, that was not spent before. -/
def Rotates (s : State) (refreshToken : String) (tokens : OAuthTokens) : Prop :=
  ∃ new ∈ tokens.refreshToken, new ≠ refreshToken ∧ ∀ p ∈ s.spent, p.1 ≠ new

instance (s : State) (refreshToken : String) (tokens : OAuthTokens) :
    Decidable (s.Rotates refreshToken tokens) := by
  unfold Rotates
  infer_instance

end State

/-- One step of the calls under way.  A refresh brings tokens that are fresh, and new ones of a vendor
that rotates. -/
def step (rotating : Bool) (refreshMargin : Nat) (s : State) : Act → Option State
  | .tick elapsed => some { s with now := s.now + elapsed }
  | .current caller =>
    if isExpired refreshMargin s.now (s.held caller) = false then
      some (s.give caller (s.held caller))
    else
      match (s.held caller).refreshToken with
      | none => some s -- token expired and not refreshable
      | some refreshToken => some { s with waiting := s.waiting ++ [(caller, refreshToken)] }
  | .locked place =>
    match s.refreshing, s.waiting[place]? with
    | none, some (caller, refreshToken) =>
      let s := { s with waiting := s.waiting.eraseIdx place }
      match s.cache.get refreshToken with
      | some fresh => some (s.give caller fresh)
      | none => some { s with refreshing := some (caller, refreshToken) }
    | _, _ => none
  | .refreshed tokens =>
    match s.refreshing with
    | none => none
    | some (caller, refreshToken) =>
      if isExpired refreshMargin s.now tokens = false ∧
          (rotating = true → s.Rotates refreshToken tokens) then
        some (State.give
          { s with
            cache := s.cache.put refreshToken tokens s.now
            refreshing := none
            spent := (refreshToken, s.now) :: s.spent } caller tokens)
      else none
  | .refused =>
    match s.refreshing with
    | none => none
    | some _ => some { s with refreshing := none }

/-! ## What callers may rely on -/

/-- Every answer was fresh when it was given, and a vendor that rotates gets each token once. -/
structure Good (rotating : Bool) (refreshMargin : Nat) (s : State) : Prop where
  fresh : ∀ p ∈ s.returned, isExpired refreshMargin p.2 p.1 = false
  once : rotating = true → (s.spent.map Prod.fst).Nodup

/-- What is kept for a call that gets the lock is still fresh, and no token of a vendor that rotates
is refreshed with an hour or more after it was spent. -/
def InTime (rotating : Bool) (refreshMargin : Nat) (s : State) : Act → Prop
  | .locked place => ∀ caller refreshToken tokens, s.waiting[place]? = some (caller, refreshToken) →
      s.cache.get refreshToken = some tokens → isExpired refreshMargin s.now tokens = false
  | .refreshed _ => rotating = true → ∀ caller refreshToken,
      s.refreshing = some (caller, refreshToken) →
        ∀ p ∈ s.spent, p.1 = refreshToken → s.now - retention < p.2
  | _ => True

/-! ## What a step does -/

/-- What a step leaves of the answers, the spent tokens and the cache, and whether it was in time. -/
inductive Effect (rotating : Bool) (refreshMargin : Nat) (s : State) (act : Act) (s' : State) : Prop
  | quiet (hreturned : s'.returned = s.returned) (hspent : s'.spent = s.spent)
      (hcache : s'.cache = s.cache) (hnow : s.now ≤ s'.now)
      (hrefreshing : ∀ caller refreshToken, s'.refreshing = some (caller, refreshToken) →
        s.refreshing = some (caller, refreshToken) ∨ s.cache.get refreshToken = none)
      (htime : InTime rotating refreshMargin s act)
  | answered (tokens : OAuthTokens) (hreturned : s'.returned = (tokens, s.now) :: s.returned)
      (hspent : s'.spent = s.spent) (hcache : s'.cache = s.cache) (hnow : s'.now = s.now)
      (hrefreshing : s'.refreshing = s.refreshing)
      (htime : InTime rotating refreshMargin s act ↔ isExpired refreshMargin s.now tokens = false)
  | refreshed (caller : Nat) (refreshToken : String) (tokens : OAuthTokens)
      (hheld : s.refreshing = some (caller, refreshToken))
      (hreturned : s'.returned = (tokens, s.now) :: s.returned)
      (hspent : s'.spent = (refreshToken, s.now) :: s.spent)
      (hcache : s'.cache = s.cache.put refreshToken tokens s.now) (hnow : s'.now = s.now)
      (hrefreshing : s'.refreshing = none)
      (hfresh : isExpired refreshMargin s.now tokens = false)
      (htime : InTime rotating refreshMargin s act ↔
        (rotating = true → ∀ p ∈ s.spent, p.1 = refreshToken → s.now - retention < p.2))

section
variable {rotating : Bool} {refreshMargin : Nat} {s s' : State} {act : Act}

theorem step_effect (h : step rotating refreshMargin s act = some s') :
    Effect rotating refreshMargin s act s' := by
  cases act with
  | tick elapsed =>
    cases h
    refine .quiet rfl rfl rfl ?_ (fun _ _ h => .inl h) trivial
    dsimp only
    omega
  | current caller =>
    simp only [step] at h
    split at h
    · rename_i hfresh
      cases h
      exact .answered (s.held caller) rfl rfl rfl rfl rfl ⟨fun _ => hfresh, fun _ => trivial⟩
    · split at h
      · cases h
        exact .quiet rfl rfl rfl (Int.le_refl _) (fun _ _ h => .inl h) trivial
      · cases h
        exact .quiet rfl rfl rfl (Int.le_refl _) (fun _ _ h => .inl h) trivial
  | locked place =>
    simp only [step] at h
    split at h
    · rename_i caller refreshToken hnone hplace
      split at h
      · rename_i fresh hget
        cases h
        refine .answered fresh rfl rfl rfl rfl rfl ⟨fun htime => ?_, fun hfresh => ?_⟩
        · exact htime caller refreshToken fresh hplace hget
        · intro caller' refreshToken' tokens hplace' hget'
          rw [hplace] at hplace'
          cases hplace'
          rw [hget] at hget'
          cases hget'
          exact hfresh
      · rename_i hget
        cases h
        refine .quiet rfl rfl rfl (Int.le_refl _) (fun _ _ h => .inr ?_) ?_
        · cases h
          exact hget
        · intro caller' refreshToken' tokens hplace' hget'
          rw [hplace] at hplace'
          cases hplace'
          rw [hget] at hget'
          cases hget'
    · cases h
  | refreshed tokens =>
    simp only [step] at h
    split at h
    · cases h
    · rename_i caller refreshToken hheld
      split at h
      · rename_i hvendor
        cases h
        refine .refreshed caller refreshToken tokens hheld rfl rfl rfl rfl rfl hvendor.1
          ⟨fun htime hrotating => htime hrotating caller refreshToken hheld, fun htime => ?_⟩
        intro hrotating caller' refreshToken' hheld'
        rw [hheld] at hheld'
        cases hheld'
        exact htime hrotating
      · cases h
  | refused =>
    simp only [step] at h
    split at h
    · cases h
    · cases h
      exact .quiet rfl rfl rfl (Int.le_refl _) (fun _ _ h => by cases h) trivial

/-! ## What every step keeps -/

/-- A spent token is kept, or was spent an hour ago; the one that is refreshed with is not kept. -/
structure Inv (s : State) : Prop where
  kept : ∀ p ∈ s.spent,
    (∃ entry ∈ s.cache.entries, entry.refreshToken = p.1 ∧ p.2 ≤ entry.refreshedAt) ∨
      p.2 + retention ≤ s.now
  notKept : ∀ caller refreshToken, s.refreshing = some (caller, refreshToken) →
    ∀ entry ∈ s.cache.entries, entry.refreshToken ≠ refreshToken

theorem Inv.start (now : Int) (held : Nat → OAuthTokens) : Inv (start now held) where
  kept p hp := by cases hp
  notKept caller refreshToken h := by cases h

theorem RefreshCache.get_eq_none {cache : RefreshCache} {refreshToken : String}
    (h : cache.get refreshToken = none) : ∀ entry ∈ cache.entries, entry.refreshToken ≠ refreshToken := by
  intro entry hentry
  have hfind := List.find?_eq_none.mp (Option.map_eq_none_iff.mp h) entry hentry
  simpa using hfind

/-- An entry of the last hour outlives another refresh. -/
theorem RefreshCache.mem_put {cache : RefreshCache} {refreshToken : String} {tokens : OAuthTokens}
    {now : Int} {entry : Entry} (hentry : entry ∈ cache.entries)
    (hrecent : now - retention < entry.refreshedAt) (hother : entry.refreshToken ≠ refreshToken) :
    entry ∈ (cache.put refreshToken tokens now).entries := by
  apply List.mem_cons_of_mem
  simp [hentry, hrecent, hother]

theorem Inv.step (h : Inv s) (hstep : step rotating refreshMargin s act = some s') : Inv s' := by
  rcases step_effect hstep with
    ⟨-, hspent, hcache, hnow, hrefreshing, -⟩ | ⟨_, -, hspent, hcache, hnow, hrefreshing, -⟩ |
    ⟨caller, refreshToken, tokens, hheld, -, hspent, hcache, hnow, hrefreshing, -, -⟩
  · refine ⟨fun p hp => ?_, fun caller refreshToken hheld => ?_⟩
    · rw [hspent] at hp
      rw [hcache]
      refine (h.kept p hp).imp id fun hpast => ?_
      omega
    · rw [hcache]
      rcases hrefreshing caller refreshToken hheld with hheld | hget
      · exact h.notKept caller refreshToken hheld
      · exact RefreshCache.get_eq_none hget
  · refine ⟨?_, ?_⟩
    · rw [hspent, hcache, hnow]
      exact h.kept
    · rw [hrefreshing, hcache]
      exact h.notKept
  · refine ⟨fun p hp => ?_, fun caller' refreshToken' hheld' => ?_⟩
    · rw [hcache, hnow]
      rw [hspent] at hp
      rcases List.mem_cons.mp hp with rfl | hp
      · exact .inl ⟨_, List.mem_cons_self, rfl, Int.le_refl _⟩
      · rcases h.kept p hp with ⟨entry, hentry, htoken, hle⟩ | hpast
        · -- an older entry goes, and the token was spent before it was written
          by_cases hrecent : s.now - retention < entry.refreshedAt
          · have hother := h.notKept caller refreshToken hheld entry hentry
            exact .inl ⟨entry, RefreshCache.mem_put hentry hrecent hother, htoken, hle⟩
          · right
            omega
        · exact .inr hpast
    · rw [hrefreshing] at hheld'
      cases hheld'

/-- What was answered and spent stays on record. -/
theorem Good.of_step (hstep : TokenManager.step rotating refreshMargin s act = some s')
    (h : Good rotating refreshMargin s') : Good rotating refreshMargin s := by
  rcases step_effect hstep with
    ⟨hreturned, hspent, -, -, -, -⟩ | ⟨_, hreturned, hspent, -, -, -, -⟩ |
    ⟨_, _, _, -, hreturned, hspent, -, -, -, -, -⟩
  · exact ⟨hreturned ▸ h.fresh, hspent ▸ h.once⟩
  · refine ⟨fun p hp => h.fresh p ?_, hspent ▸ h.once⟩
    rw [hreturned]
    exact List.mem_cons_of_mem _ hp
  · refine ⟨fun p hp => h.fresh p ?_, fun hrotating => ?_⟩
    · rw [hreturned]
      exact List.mem_cons_of_mem _ hp
    · have honce := h.once hrotating
      rw [hspent, List.map_cons] at honce
      exact (List.nodup_cons.mp honce).2

/-- A step keeps the promise exactly when it is in time. -/
theorem good_step_iff (hinv : Inv s) (hgood : Good rotating refreshMargin s)
    (hstep : TokenManager.step rotating refreshMargin s act = some s') :
    Good rotating refreshMargin s' ↔ InTime rotating refreshMargin s act := by
  rcases step_effect hstep with
    ⟨hreturned, hspent, -, -, -, htime⟩ | ⟨tokens, hreturned, hspent, -, -, -, htime⟩ |
    ⟨caller, refreshToken, tokens, hheld, hreturned, hspent, -, -, -, hfresh, htime⟩
  · refine iff_of_true ⟨?_, ?_⟩ htime
    · exact hreturned ▸ hgood.fresh
    · exact hspent ▸ hgood.once
  · rw [htime]
    constructor
    · intro hgood'
      exact hgood'.fresh (tokens, s.now) (by rw [hreturned]; exact List.mem_cons_self)
    · intro hfresh
      refine ⟨fun p hp => ?_, hspent ▸ hgood.once⟩
      rw [hreturned] at hp
      rcases List.mem_cons.mp hp with rfl | hp
      · exact hfresh
      · exact hgood.fresh p hp
  · rw [htime]
    constructor
    · -- a token that was spent an hour ago is spent for the second time
      intro hgood' hrotating p hp htoken
      have honce := hgood'.once hrotating
      rw [hspent, List.map_cons] at honce
      exact absurd (List.mem_map.mpr ⟨p, hp, htoken⟩) (List.nodup_cons.mp honce).1
    · intro hlate
      refine ⟨fun p hp => ?_, fun hrotating => ?_⟩
      · rw [hreturned] at hp
        rcases List.mem_cons.mp hp with rfl | hp
        · exact hfresh
        · exact hgood.fresh p hp
      · rw [hspent, List.map_cons]
        refine List.nodup_cons.mpr ⟨fun hmem => ?_, hgood.once hrotating⟩
        obtain ⟨p, hp, htoken⟩ := List.mem_map.mp hmem
        rcases hinv.kept p hp with ⟨entry, hentry, hsame, -⟩ | hpast
        · exact hinv.notKept caller refreshToken hheld entry hentry (hsame.trans htoken)
        · have hrecent := hlate hrotating p hp htoken
          omega

end

/-! ## Runs -/

/-- **Every answer is fresh and every token is spent once** exactly when every step of the run is in
time. -/
theorem good_iff (rotating : Bool) (refreshMargin : Nat) (now : Int) (held : Nat → OAuthTokens)
    (acts : List Act) (s : State)
    (hrun : run (step rotating refreshMargin) (start now held) acts = some s) :
    Good rotating refreshMargin s ↔
      Meets (step rotating refreshMargin) (InTime rotating refreshMargin) (start now held) acts := by
  have hstart : Good rotating refreshMargin (start now held) :=
    ⟨fun p hp => absurd hp List.not_mem_nil, fun _ => List.nodup_nil⟩
  exact good_iff_meets (fun _ _ _ hinv hstep => Inv.step hinv hstep)
    (fun _ _ _ hstep hgood => hgood.of_step hstep)
    (fun _ _ _ hinv hgood hstep => good_step_iff hinv hgood hstep) (Inv.start now held) hstart hrun

/-! ### A vendor that does not rotate, and one that does -/

/-- Tokens that expire at the given second. -/
def tokensUntil (accessToken refreshToken : String) (seconds : Nat) : OAuthTokens :=
  ⟨accessToken, some refreshToken, some (seconds * 10 ^ 9)⟩

/-- Every caller holds the same tokens, which are stale. -/
def heldByAll (_ : Nat) : OAuthTokens := tokensUntil "first" "r1" 0

/-- A call refreshes; when the tokens it brought are stale, another call is made. -/
def twoCycles (refreshToken : String) (caller : Nat) : List Act :=
  [.current 0, .locked 0, .refreshed (tokensUntil "second" refreshToken 5000),
    .tick (5000 * 10 ^ 9), .current caller, .locked 0]

/-- What is promised of every run. -/
def Promised (rotating : Bool) : Prop :=
  ∀ (refreshMargin : Nat) (now : Int) (held : Nat → OAuthTokens) (acts : List Act) (s : State),
    run (step rotating refreshMargin) (start now held) acts = some s → Good rotating refreshMargin s

theorem twoCycles_stale {rotating : Bool} {refreshToken : String} {caller : Nat}
    (h : ((run (step rotating 0) (start 0 heldByAll) (twoCycles refreshToken caller)).map
      (·.returned)) = some [(tokensUntil "second" refreshToken 5000, 5000 * 10 ^ 9),
        (tokensUntil "second" refreshToken 5000, 0)]) : ¬Promised rotating := by
  intro hpromised
  obtain ⟨s, hrun, hreturned⟩ := Option.map_eq_some_iff.mp h
  have hfresh := (hpromised 0 0 heldByAll _ s hrun).fresh
    (tokensUntil "second" refreshToken 5000, 5000 * 10 ^ 9) (by rw [hreturned]; exact List.mem_cons_self)
  revert hfresh
  simp [isExpired, tokensUntil]

/-- A vendor that gives the refresh token back unchanged, and one caller; a vendor that rotates it,
and a second caller that comes with the tokens it was given first. -/
theorem second_cycle_stale : ¬Promised false ∧ ¬Promised true := by
  constructor
  · exact @twoCycles_stale false "r1" 0 (by decide +kernel)
  · exact @twoCycles_stale true "r2" 1 (by decide +kernel)

/-- The caller that refreshed comes again, to a vendor that rotates: nothing is kept under the token it
was given, and it refreshes with that one. -/
theorem good_iff_twoCycles : ∃ s, run (step true 0) (start 0 heldByAll) (twoCycles "r2" 0) = some s ∧
    (Good true 0 s ↔ Meets (step true 0) (InTime true 0) (start 0 heldByAll) (twoCycles "r2" 0)) := by
  have hsome : (run (step true 0) (start 0 heldByAll) (twoCycles "r2" 0)).isSome = true := by
    decide +kernel
  obtain ⟨s, hrun⟩ := Option.isSome_iff_exists.mp hsome
  exact ⟨s, hrun, good_iff true 0 0 heldByAll (twoCycles "r2" 0) s hrun⟩

end AnyConverter.TokenManager
