import Mathlib.Algebra.Order.Ring.Rat
import Mathlib.Data.List.Nodup
import AnyConverter.Server.Failover
import AnyConverter.Server.Proxy
import AnyConverter.Server.Accounts.Resolver

/-!
# Model requests: the attempts of one request

The providers of a route, each with its accounts, are laid out in one list before anything is sent:
an account goes where the user's saved order puts it, behind the others when its quota is used up,
and nowhere when it was revoked.

* `buildPlan_eq`: the plan is the seats of the routed providers, one provider after the other;
* `applyOrder_eq`, `before_of_seats`: the accounts of one provider stand in the user's order;
* `saveOrder_nodup`: a saved order names no account twice, unless it was edited by hand;
* `tried_once_iff`: when every seat is in the plan exactly once.
-/

set_option autoImplicit false

namespace AnyConverter

/-! ## The API of an upstream -/

def UpstreamApi.fromFormat : Format → UpstreamApi
  | .openAIChat => .chat
  | .claude => .claude
  | .openAIResponses => .responses
  | .gemini => .gemini

/-- The wire a plugin's model is spoken to with, by its package. -/
def UpstreamApi.fromNpm (npm : String) : UpstreamApi :=
  if npm = "@ai-sdk/anthropic" ∨ npm = "@ai-sdk/google-vertex/anthropic" then .claude
  else if npm = "@ai-sdk/openai" ∨ npm = "@ai-sdk/azure" then .responses
  else if npm = "@ai-sdk/google" then .codeAssist
  else .chat

/-- A run of digits as a `u32`. -/
def parseU32 (digits : List Char) : Option Nat :=
  if digits.isEmpty then none
  else if Nat.ofDigitChars 10 digits 0 < 2 ^ 32 then some (Nat.ofDigitChars 10 digits 0)
  else none

/-- The wire a Copilot model is served on: `gpt-5` and up, but for `gpt-5-mini`, answer
`/responses`. -/
def copilotApi (model : String) : UpstreamApi :=
  match Text.stripPrefix "gpt-" model with
  | none => .chat
  | some rest =>
    match parseU32 (rest.toList.takeWhile Char.isDigit) with
    | none => .chat
    | some version =>
      if 5 ≤ version ∧ Text.startsWith model "gpt-5-mini" = false then .responses else .chat

end AnyConverter

namespace AnyConverter.Handlers

open AnyConverter.Accounts (providerOf)

/-! ## Allowances -/

/-- One window of an account's allowance: how much of it is used, in percent. -/
structure Limit where
  used : Rat
  /-- when the window is empty again -/
  resets : Option Nat
  /-- the word a model's name holds when the window counts it -/
  model : Option String

def Limit.counts (limit : Limit) (model : String) : Bool :=
  match limit.model with
  | some word => (Text.splitList word.toList model.toList).isSome
  | none => true

def Limit.usedNow (limit : Limit) (now : Nat) : Rat :=
  match limit.resets with
  | some resets => if resets ≤ now then 0 else limit.used
  | none => limit.used

abbrev Allowance := List Limit

def Allowance.forModel (allowance : Allowance) (model : String) : List Limit :=
  allowance.filter (·.counts model)

/-- One spent window is enough: the account answers 429 until it renews. -/
def Allowance.exhausted (allowance : Allowance) (model : String) (share : Rat) (now : Nat) : Bool :=
  let windows := allowance.forModel model
  !windows.isEmpty && windows.any fun limit => decide (share ≤ limit.usedNow now)

def quotaShare : Rat := 95

/-! ## Providers -/

inductive WireCompat where
  | geminiApi
  | codeAssist
  deriving DecidableEq, Repr

def WireCompat.toApi : WireCompat → UpstreamApi
  | .geminiApi => .gemini
  | .codeAssist => .codeAssist

structure PluginRef where
  spec : String
  target : String
  deriving DecidableEq, Repr

structure PluginModel where
  id : String
  npm : String
  apiId : String
  deriving DecidableEq, Repr

structure ProviderConfig where
  name : String
  format : Format
  account : Option String
  accounts : List String
  api : Option UpstreamApi
  wire : Option WireCompat
  plugin : Option PluginRef
  deriving DecidableEq, Repr

namespace ProviderConfig

/-- `accounts`, else the one `account`, without empty ids and repeats. -/
def accountIds (provider : ProviderConfig) : List String :=
  let source := if provider.accounts.isEmpty then provider.account.toList else provider.accounts
  source.foldl (fun ids id => if id ≠ "" ∧ id ∉ ids then ids ++ [id] else ids) []

/-- What stands before the colon of the first account id. -/
def accountPrefix (provider : ProviderConfig) : Option String :=
  provider.accountIds.head?.map providerOf

end ProviderConfig

namespace ProviderConfig

def effectiveApi (provider : ProviderConfig) : UpstreamApi :=
  match provider.api, provider.wire with
  | some api, _ => api
  | none, some wire => wire.toApi
  | none, none =>
    match provider.accountPrefix with
    | some "gemini" => .codeAssist
    | some "antigravity" => .codeAssist
    | some "chatgpt-api" => .responses
    | _ => .fromFormat provider.format

def apiFor (provider : ProviderConfig) (model : String) : UpstreamApi :=
  if provider.accountPrefix = some "copilot" then copilotApi model else provider.effectiveApi

end ProviderConfig

/-! ## The plan -/

/-- What building a plan reads: the configuration, the saved account orders by vendor, the revoked
accounts, the allowances as last read, and the model lists of the plugins. -/
structure AppState where
  providers : List ProviderConfig
  savedOrder : String → Option (List String)
  isRevoked : String → Bool
  cachedAccountAllowance : ProviderConfig → String → Option Allowance
  modelsFor : PluginRef → String → Except String (List PluginModel)
  now : Nat

namespace AppState

def findProvider (state : AppState) (name : String) : Option ProviderConfig :=
  state.providers.find? fun p => p.name = name

/-- The saved order of the vendor a provider's accounts belong to. -/
def savedOrderOf (state : AppState) (provider : ProviderConfig) : Option (List String) :=
  state.savedOrder (provider.accountPrefix.getD "")

end AppState

/-- The ids a saved order names first, in its order, then the others as they came. -/
def applyOrder (ids : List String) : Option (List String) → List String
  | none => ids
  | some saved =>
    ids.foldl (fun out id => if id ∈ out then out else out ++ [id]) (saved.filter (· ∈ ids))

/-- What a saved order is checked for: every id belongs to the vendor, and none is listed twice. -/
def checkOrder (vendor : String) (seen : List String) : List String → Except String Unit
  | [] => .ok ()
  | id :: ids =>
    match Text.splitOnce ":" id with
    | some (head, _) =>
      if head ≠ vendor then .error (id ++ " is not an account of " ++ vendor)
      else if id ∈ seen then .error (id ++ " is listed twice")
      else checkOrder vendor (id :: seen) ids
    | none => .error (id ++ " is not an account of " ++ vendor)

/-- Save the account order of a vendor beside those of the others. -/
def saveOrder (orders : String → Option (List String)) (vendor : String) (ids : List String) :
    Except String (String → Option (List String)) :=
  (checkOrder vendor [] ids).map fun _ => Function.update orders vendor (some ids)

/-- The exhausted ones behind the others, each half in its order. -/
def orderAccounts (ids : List String) (allowances : String → Option Allowance) (model : String)
    (share : Rat) (now : Nat) : List String :=
  let exhausted := fun id => (allowances id).any fun allowance => allowance.exhausted model share now
  ids.filter (fun id => !exhausted id) ++ ids.filter exhausted

/-- The slots of one provider: its accounts in order, or the one of its key.  With a single account
there is nothing to order, so its allowance is not read. -/
def candidates (state : AppState) (model : String) (provider : ProviderConfig) :
    List (Option String) :=
  let ids := applyOrder provider.accountIds (state.savedOrderOf provider)
  let allowances :=
    if 1 < ids.length then state.cachedAccountAllowance provider else fun _ => none
  if ids.isEmpty then [none]
  else (orderAccounts ids allowances model quotaShare state.now).map some

def pluginError (why : String) : ApiError := ⟨502, "plugin_error", "plugin models: " ++ why⟩

/-- The API of a request.  A model its plugin does not list falls back to Chat. -/
def resolveUpstreamApi (state : AppState) (provider : ProviderConfig) (model : String) :
    Except ApiError UpstreamApi :=
  match provider.plugin with
  | none => .ok (provider.apiFor model)
  | some plugin =>
    match state.modelsFor plugin (provider.account.getD "") with
    | .error why => .error (pluginError why)
    | .ok models =>
      match models.find? fun m => m.id = model ∨ (m.apiId ≠ "" ∧ m.apiId = model) with
      | some m => .ok (.fromNpm m.npm)
      | none => .ok .chat

abbrev Attempt := ProviderConfig × UpstreamApi

/-- A slot of a provider may be tried unless its account was revoked. -/
def AppState.serves (state : AppState) (account : Option String) : Bool :=
  !account.any state.isRevoked

/-- The slots of a provider that are tried. -/
def slots (state : AppState) (model : String) (provider : ProviderConfig) : List (Option String) :=
  (candidates state model provider).filter state.serves

def attemptOf (state : AppState) (model : String) (provider : ProviderConfig)
    (account : Option String) : Except ApiError Attempt :=
  let effective := { provider with account := account }
  (resolveUpstreamApi state effective model).map fun api => (effective, api)

/-- The attempts of one routed provider behind those of the ones before it. -/
def planStep (state : AppState) (model : String) (acc : List Attempt × Option String)
    (name : String) : Except ApiError (List Attempt × Option String) :=
  match state.findProvider name with
  | none => .ok (acc.1, some ("provider not found: " ++ name))
  | some provider => do
    let part ← (slots state model provider).mapM (attemptOf state model provider)
    return (acc.1 ++ part, acc.2)

/-- The attempts of a request, in order, and what went wrong with the route. -/
def buildPlan (state : AppState) (model : String) (providerNames : List String) :
    Except ApiError (List Attempt × Option String) :=
  providerNames.foldlM (planStep state model) ([], none)

/-! ## What a plan is for -/

/-- What a request is tried with: an account, or the key of a provider. -/
inductive Seat where
  | account (id : String)
  | key (provider : String)
  deriving DecidableEq, Repr

def seatOf (provider : String) : Option String → Seat
  | some id => .account id
  | none => .key provider

/-- The seat of an attempt. -/
def Attempt.seat (attempt : Attempt) : Seat := seatOf attempt.1.name attempt.1.account

/-- The seats a provider was configured with. -/
def ProviderConfig.seats (provider : ProviderConfig) : List Seat :=
  if provider.accountIds.isEmpty then [.key provider.name]
  else provider.accountIds.map .account

namespace AppState

variable (state : AppState)

/-- The providers of a route that exist. -/
def routed (names : List String) : List ProviderConfig := names.filterMap state.findProvider

def Live : Seat → Prop
  | .account id => state.isRevoked id = false
  | .key _ => True

/-- What a request should be tried with: every seat of its providers that was not revoked. -/
def Wanted (names : List String) (seat : Seat) : Prop :=
  ∃ provider ∈ state.routed names, seat ∈ provider.seats ∧ state.Live seat

/-- Where the user wants an account: where the saved order names it, behind all of those otherwise. -/
def place (provider : ProviderConfig) (id : String) : Nat :=
  ((state.savedOrderOf provider).getD [] ++ provider.accountIds).idxOf id

def exhausted (model : String) (provider : ProviderConfig) (id : String) : Bool :=
  (state.cachedAccountAllowance provider id).any
    fun allowance => allowance.exhausted model quotaShare state.now

/-- Whether one account of a provider goes before another: what is used up goes last. -/
def Before (model : String) (provider : ProviderConfig) (i j : String) : Prop :=
  (state.exhausted model provider i = false ∧ state.exhausted model provider j = true) ∨
    (state.exhausted model provider i = state.exhausted model provider j ∧
      state.place provider i < state.place provider j)

/-- A plan with each seat of the request exactly once, the providers as the route has them and the
accounts of a provider as the user has them. -/
structure TriedOnce (model : String) (names : List String) (plan : List Attempt) : Prop where
  once : (plan.map Attempt.seat).Nodup
  seats : ∀ seat, seat ∈ plan.map Attempt.seat ↔ state.Wanted names seat
  /-- an attempt is made by a provider of the route, with a seat of its own -/
  own : ∀ attempt ∈ plan, ∃ provider ∈ state.routed names,
    attempt.1 = { provider with account := attempt.1.account } ∧ attempt.seat ∈ provider.seats
  routed : plan.Pairwise fun a b => a.1.name = b.1.name ∨ [a.1.name, b.1.name].Sublist names
  ordered : plan.Pairwise fun a b => ∀ provider, state.findProvider a.1.name = some provider →
    b.1.name = a.1.name → ∀ i j, a.1.account = some i → b.1.account = some j →
    state.Before model provider i j

/-- No saved order names an account of its provider twice, and no two providers of the route have
a seat in common; accounts that were revoked do not count. -/
structure Apart (names : List String) : Prop where
  saved : ∀ provider ∈ state.routed names, ∀ saved, state.savedOrderOf provider = some saved →
    (saved.filter fun id => id ∈ provider.accountIds ∧ state.isRevoked id = false).Nodup
  shared : (state.routed names).Pairwise fun p q =>
    ∀ seat ∈ p.seats, state.Live seat → seat ∉ q.seats

end AppState

/-! ## The accounts of a provider -/

namespace ProviderConfig

theorem accountIds_go (source ids : List String) (hids : ids.Nodup ∧ "" ∉ ids) :
    (source.foldl (fun ids id => if id ≠ "" ∧ id ∉ ids then ids ++ [id] else ids) ids).Nodup ∧
      "" ∉ source.foldl (fun ids id => if id ≠ "" ∧ id ∉ ids then ids ++ [id] else ids) ids := by
  induction source generalizing ids with
  | nil => exact hids
  | cons id source ih =>
    rw [List.foldl_cons]
    refine ih _ ?_
    split
    · rename_i hnew
      refine ⟨List.nodup_append.mpr ⟨hids.1, List.nodup_singleton id, ?_⟩, ?_⟩
      · intro a ha b hb hab
        rw [List.mem_singleton.mp hb] at hab
        exact hnew.2 (hab ▸ ha)
      · simp only [List.mem_append, List.mem_singleton, not_or]
        exact ⟨hids.2, fun h => hnew.1 h.symm⟩
    · exact hids

theorem nodup_accountIds (provider : ProviderConfig) : provider.accountIds.Nodup :=
  (accountIds_go _ [] ⟨List.nodup_nil, List.not_mem_nil⟩).1

end ProviderConfig

theorem applyOrder_go {ids : List String} (hids : ids.Nodup) (out : List String) :
    ids.foldl (fun out id => if id ∈ out then out else out ++ [id]) out =
      out ++ ids.filter (· ∉ out) := by
  induction ids generalizing out with
  | nil => simp
  | cons id ids ih =>
    obtain ⟨hnotMem, hids⟩ := List.nodup_cons.mp hids
    rw [List.foldl_cons, ih hids]
    by_cases hmem : id ∈ out
    · simp [hmem]
    · have hrest : ids.filter (fun x => x ∉ out ++ [id]) = ids.filter (fun x => x ∉ out) := by
        refine List.filter_congr fun x hx => ?_
        have hne : x ≠ id := fun h => hnotMem (h ▸ hx)
        simp [hne]
      simp only [if_neg hmem, hrest, List.append_assoc, List.singleton_append]
      simp [hmem]

/-- The ids a saved order names, as often as it does, and the others behind them. -/
theorem applyOrder_eq {ids : List String} (hids : ids.Nodup) (saved : Option (List String)) :
    applyOrder ids saved =
      (saved.getD []).filter (· ∈ ids) ++ ids.filter (· ∉ saved.getD []) := by
  cases saved with
  | none => simp [applyOrder]
  | some saved =>
    rw [applyOrder, applyOrder_go hids]
    refine congrArg _ (List.filter_congr fun x hx => ?_)
    simp [hx]

theorem mem_applyOrder {ids : List String} (hids : ids.Nodup) (saved : Option (List String))
    (id : String) : id ∈ applyOrder ids saved ↔ id ∈ ids := by
  rw [applyOrder_eq hids]
  by_cases hsaved : id ∈ saved.getD [] <;> simp [hsaved]

/-- What is kept of a list once stands in it in the order of its first occurrences. -/
theorem pairwise_idxOf {xs : List String} {q : String → Bool} (h : (xs.filter q).Nodup) :
    (xs.filter q).Pairwise fun i j => xs.idxOf i < xs.idxOf j := by
  induction xs with
  | nil => exact List.Pairwise.nil
  | cons x xs ih =>
    have hshift : ∀ {l : List String}, x ∉ l → l.Pairwise (fun i j => xs.idxOf i < xs.idxOf j) →
        l.Pairwise fun i j => (x :: xs).idxOf i < (x :: xs).idxOf j := by
      intro l hx hl
      refine hl.imp_of_mem fun {i j} hi hj hlt => ?_
      have hxi : x ≠ i := fun h => hx (h ▸ hi)
      have hxj : x ≠ j := fun h => hx (h ▸ hj)
      rw [List.idxOf_cons_ne xs hxi, List.idxOf_cons_ne xs hxj]
      omega
    by_cases hq : q x = true
    · rw [List.filter_cons_of_pos hq] at h ⊢
      obtain ⟨hx, h⟩ := List.nodup_cons.mp h
      refine List.pairwise_cons.mpr ⟨fun j hj => ?_, hshift hx (ih h)⟩
      have hxj : x ≠ j := fun h => hx (h ▸ hj)
      rw [List.idxOf_cons_self, List.idxOf_cons_ne xs hxj]
      omega
    · rw [List.filter_cons_of_neg hq] at h ⊢
      exact hshift (fun hx => hq (List.mem_filter.mp hx).2) (ih h)

/-! ## Saved orders -/

theorem checkOrder_nodup {vendor : String} {seen ids : List String}
    (h : checkOrder vendor seen ids = .ok ()) : ids.Nodup ∧ ∀ id ∈ ids, id ∉ seen := by
  induction ids generalizing seen with
  | nil => exact ⟨List.nodup_nil, fun id hid => absurd hid List.not_mem_nil⟩
  | cons id ids ih =>
    unfold checkOrder at h
    split at h
    · split at h
      · cases h
      · split at h
        · cases h
        · rename_i hnew
          obtain ⟨hnodup, hunseen⟩ := ih h
          refine ⟨List.nodup_cons.mpr ⟨fun hid => hunseen id hid List.mem_cons_self, hnodup⟩, ?_⟩
          intro x hx
          rcases List.mem_cons.mp hx with rfl | hx
          · exact hnew
          · exact fun hseen => hunseen x hx (List.mem_cons_of_mem id hseen)
    · cases h

/-- The orders that were saved, and not written by hand, name no account twice. -/
theorem saveOrder_nodup {orders orders' : String → Option (List String)} {vendor : String}
    {ids : List String} (h : saveOrder orders vendor ids = .ok orders')
    (horders : ∀ v saved, orders v = some saved → saved.Nodup) :
    ∀ v saved, orders' v = some saved → saved.Nodup := by
  unfold saveOrder at h
  cases hcheck : checkOrder vendor [] ids with
  | error err => rw [hcheck] at h; cases h
  | ok _ =>
    rw [hcheck] at h
    cases h
    intro v saved hsaved
    change Function.update orders vendor (some ids) v = some saved at hsaved
    by_cases hv : v = vendor
    · subst hv
      rw [Function.update_self] at hsaved
      cases hsaved
      exact (checkOrder_nodup hcheck).1
    · rw [Function.update_of_ne hv] at hsaved
      exact horders v saved hsaved

/-- With saved orders of that kind, a request tries a seat twice only where two providers share it. -/
theorem apart_of_nodup {state : AppState} {names : List String}
    (horders : ∀ v saved, state.savedOrder v = some saved → saved.Nodup)
    (hshared : (state.routed names).Pairwise fun p q =>
      ∀ seat ∈ p.seats, state.Live seat → seat ∉ q.seats) : state.Apart names :=
  ⟨fun _ _ saved hsaved => (horders _ saved hsaved).filter _, hshared⟩

/-! ## The seats of one provider -/

section Seats

variable (state : AppState) (model : String) (provider : ProviderConfig)

/-- The accounts that may be tried stand where the user wants them, when none is there twice. -/
theorem applyOrder_place
    (h : ((applyOrder provider.accountIds (state.savedOrderOf provider)).filter
      fun id => state.isRevoked id = false).Nodup) :
    ((applyOrder provider.accountIds (state.savedOrderOf provider)).filter
      fun id => state.isRevoked id = false).Pairwise
        fun i j => state.place provider i < state.place provider j := by
  rw [applyOrder_eq provider.nodup_accountIds, List.filter_append, List.filter_filter,
    List.filter_filter] at h ⊢
  obtain ⟨hnamed, hothers, -⟩ := List.nodup_append.mp h
  refine List.pairwise_append.mpr ⟨?_, ?_, ?_⟩
  · refine (pairwise_idxOf hnamed).imp_of_mem fun {i j} hi hj hlt => ?_
    rw [AppState.place, AppState.place, List.idxOf_append_of_mem (List.mem_filter.mp hi).1,
      List.idxOf_append_of_mem (List.mem_filter.mp hj).1]
    exact hlt
  · refine (pairwise_idxOf hothers).imp_of_mem fun {i j} hi hj hlt => ?_
    have hi := (List.mem_filter.mp hi).2
    have hj := (List.mem_filter.mp hj).2
    simp only [Bool.and_eq_true, decide_eq_true_eq] at hi hj
    rw [AppState.place, AppState.place, List.idxOf_append_of_notMem hi.2,
      List.idxOf_append_of_notMem hj.2]
    omega
  · intro i hi j hj
    have hi := (List.mem_filter.mp hi).1
    have hj := (List.mem_filter.mp hj).2
    simp only [Bool.and_eq_true, decide_eq_true_eq] at hj
    have hlt := List.idxOf_lt_length_of_mem hi
    rw [AppState.place, AppState.place, List.idxOf_append_of_mem hi,
      List.idxOf_append_of_notMem hj.2]
    omega

/-- The accounts of a provider in the order they are tried, revoked ones among them. -/
def accountOrder : List String :=
  let ids := applyOrder provider.accountIds (state.savedOrderOf provider)
  orderAccounts ids (if 1 < ids.length then state.cachedAccountAllowance provider else fun _ => none)
    model quotaShare state.now

theorem orderAccounts_perm (ids : List String) (allowances : String → Option Allowance)
    (share : Rat) (now : Nat) : (orderAccounts ids allowances model share now).Perm ids :=
  List.perm_append_comm.trans (List.filter_append_perm _ ids)

theorem accountOrder_perm :
    (accountOrder state model provider).Perm
      (applyOrder provider.accountIds (state.savedOrderOf provider)) :=
  orderAccounts_perm model _ _ quotaShare state.now

theorem candidates_eq :
    candidates state model provider =
      if provider.accountIds = [] then [none] else (accountOrder state model provider).map some := by
  have hiff : (applyOrder provider.accountIds (state.savedOrderOf provider)).isEmpty = true ↔
      provider.accountIds = [] := by
    simp only [List.isEmpty_iff, List.eq_nil_iff_forall_not_mem,
      mem_applyOrder provider.nodup_accountIds]
  unfold candidates accountOrder
  by_cases hempty : provider.accountIds = []
  · simp only [hiff.mpr hempty, if_true, if_pos hempty]
  · have hfalse := mt hiff.mp hempty
    simp only [Bool.not_eq_true] at hfalse
    simp only [hfalse, Bool.false_eq_true, if_false, if_neg hempty]

/-- The accounts of a provider that are tried. -/
def liveAccounts : List String :=
  (accountOrder state model provider).filter fun id => state.isRevoked id = false

theorem slots_eq :
    slots state model provider =
      if provider.accountIds = [] then [none] else (liveAccounts state model provider).map some := by
  rw [slots, candidates_eq]
  split
  · rfl
  · rw [List.filter_map, liveAccounts]
    refine congrArg _ (List.filter_congr fun id _ => ?_)
    cases hrevoked : state.isRevoked id <;> simp [AppState.serves, hrevoked]

theorem mem_liveAccounts (id : String) :
    id ∈ liveAccounts state model provider ↔
      id ∈ provider.accountIds ∧ state.isRevoked id = false := by
  rw [liveAccounts, List.mem_filter, (accountOrder_perm state model provider).mem_iff,
    mem_applyOrder provider.nodup_accountIds]
  simp

theorem mem_slots (seat : Seat) :
    seat ∈ (slots state model provider).map (seatOf provider.name) ↔
      seat ∈ provider.seats ∧ state.Live seat := by
  rw [slots_eq]
  by_cases hempty : provider.accountIds = []
  · simp only [List.map_cons, List.map_nil, List.mem_singleton, seatOf,
      ProviderConfig.seats, hempty, List.isEmpty_nil, if_true]
    constructor
    · rintro rfl
      exact ⟨rfl, trivial⟩
    · exact And.left
  · have hne : provider.accountIds.isEmpty = false := by simpa using hempty
    simp only [if_neg hempty, List.map_map, List.mem_map, ProviderConfig.seats, hne,
      Bool.false_eq_true, if_false, mem_liveAccounts, Function.comp, seatOf]
    constructor
    · rintro ⟨id, ⟨hmem, hlive⟩, rfl⟩
      exact ⟨⟨id, hmem, rfl⟩, hlive⟩
    · rintro ⟨⟨id, hmem, rfl⟩, hlive⟩
      exact ⟨id, ⟨hmem, hlive⟩, rfl⟩

/-- The accounts of a provider are tried once each unless the saved order repeats one. -/
theorem nodup_liveAccounts :
    (liveAccounts state model provider).Nodup ↔
      (((state.savedOrderOf provider).getD []).filter
        fun id => id ∈ provider.accountIds ∧ state.isRevoked id = false).Nodup := by
  have hids := provider.nodup_accountIds
  rw [liveAccounts, ((accountOrder_perm state model provider).filter _).nodup_iff,
    applyOrder_eq hids, List.filter_append, List.filter_filter, List.filter_filter,
    List.nodup_append]
  constructor
  · rintro ⟨hsaved, -, -⟩
    refine (congrArg List.Nodup (List.filter_congr fun id _ => ?_)).mp hsaved
    simp [Bool.and_comm]
  · intro hsaved
    refine ⟨(congrArg List.Nodup (List.filter_congr fun id _ => ?_)).mp hsaved, hids.filter _, ?_⟩
    · simp [Bool.and_comm]
    · intro a ha b hb hab
      simp only [List.mem_filter] at ha hb
      simp only [Bool.and_eq_true, decide_eq_true_eq] at hb
      exact hb.2.2 (hab ▸ ha.1)

/-- The accounts of a provider that are tried stand in the user's order. -/
theorem before_of_accounts (h : (liveAccounts state model provider).Nodup) :
    (liveAccounts state model provider).Pairwise (state.Before model provider) := by
  have hids := provider.nodup_accountIds
  have hlive : ((applyOrder provider.accountIds (state.savedOrderOf provider)).filter
      fun id => state.isRevoked id = false).Nodup :=
    ((accountOrder_perm state model provider).filter _).nodup_iff.mp h
  have hplace := applyOrder_place state provider hlive
  by_cases hone : 1 < (applyOrder provider.accountIds (state.savedOrderOf provider)).length
  · have horder : liveAccounts state model provider =
        ((applyOrder provider.accountIds (state.savedOrderOf provider)).filter
          fun id => state.isRevoked id = false).filter (fun id => !state.exhausted model provider id)
        ++ ((applyOrder provider.accountIds (state.savedOrderOf provider)).filter
          fun id => state.isRevoked id = false).filter (state.exhausted model provider) := by
      simp only [liveAccounts, accountOrder, orderAccounts, if_pos hone, List.filter_append,
        List.filter_filter, AppState.exhausted, Bool.and_comm]
    rw [horder]
    refine List.pairwise_append.mpr ⟨?_, ?_, ?_⟩
    · refine (hplace.filter _).imp_of_mem fun {i j} hi hj hlt => .inr ⟨?_, hlt⟩
      have hi := (List.mem_filter.mp hi).2
      have hj := (List.mem_filter.mp hj).2
      rw [Bool.not_eq_true'] at hi hj
      rw [hi, hj]
    · refine (hplace.filter _).imp_of_mem fun {i j} hi hj hlt => .inr ⟨?_, hlt⟩
      rw [(List.mem_filter.mp hi).2, (List.mem_filter.mp hj).2]
    · intro i hi j hj
      have hi := (List.mem_filter.mp hi).2
      rw [Bool.not_eq_true'] at hi
      exact .inl ⟨hi, (List.mem_filter.mp hj).2⟩
  · -- a single account: its allowance is not read, and there is no pair to order
    have hlength : (liveAccounts state model provider).length ≤ 1 := by
      have hle := List.length_filter_le (fun id => decide (state.isRevoked id = false))
        (accountOrder state model provider)
      rw [(accountOrder_perm state model provider).length_eq] at hle
      rw [liveAccounts]
      omega
    match hlist : liveAccounts state model provider, hlength with
    | [], _ => exact List.Pairwise.nil
    | [id], _ => exact List.pairwise_singleton _ id

end Seats

/-! ## The whole plan -/

section Plan

variable {state : AppState} {model : String}

theorem findProvider_name {name : String} {provider : ProviderConfig}
    (h : state.findProvider name = some provider) : provider.name = name := by
  simpa using List.find?_some h

theorem attemptOf_ok {provider : ProviderConfig} {account : Option String} {attempt : Attempt}
    (h : attemptOf state model provider account = .ok attempt) :
    attempt.1 = { provider with account := account } := by
  simp only [attemptOf] at h
  cases hapi : resolveUpstreamApi state { provider with account := account } model with
  | error err => rw [hapi] at h; cases h
  | ok api =>
    rw [hapi] at h
    cases h
    rfl

theorem mapM_attemptOf {provider : ProviderConfig} {accounts : List (Option String)}
    {part : List Attempt} (h : accounts.mapM (attemptOf state model provider) = .ok part) :
    part.map Prod.fst = accounts.map fun account => { provider with account := account } := by
  induction accounts generalizing part with
  | nil => cases h; rfl
  | cons account accounts ih =>
    rw [List.mapM_cons] at h
    cases hfirst : attemptOf state model provider account with
    | error err => rw [hfirst] at h; cases h
    | ok attempt =>
      cases hrest : accounts.mapM (attemptOf state model provider) with
      | error err => rw [hfirst, hrest] at h; cases h
      | ok rest =>
        rw [hfirst, hrest] at h
        cases h
        rw [List.map_cons, List.map_cons, ih hrest, attemptOf_ok hfirst]

/-- What the attempts of a routed provider are made with. -/
def effectives (state : AppState) (model name : String) : List ProviderConfig :=
  match state.findProvider name with
  | none => []
  | some provider => (slots state model provider).map fun account =>
      { provider with account := account }

theorem planStep_ok {acc acc' : List Attempt × Option String} {name : String}
    (h : planStep state model acc name = .ok acc') :
    acc'.1.map Prod.fst = acc.1.map Prod.fst ++ effectives state model name := by
  unfold planStep at h
  unfold effectives
  cases hfind : state.findProvider name with
  | none =>
    rw [hfind] at h
    cases h
    rw [List.append_nil]
  | some provider =>
    rw [hfind] at h
    cases hpart : (slots state model provider).mapM (attemptOf state model provider) with
    | error err => simp only [hpart] at h; cases h
    | ok part =>
      simp only [hpart] at h
      cases h
      rw [List.map_append, mapM_attemptOf hpart]

theorem foldlM_planStep {names : List String} {acc acc' : List Attempt × Option String}
    (h : names.foldlM (planStep state model) acc = .ok acc') :
    acc'.1.map Prod.fst = acc.1.map Prod.fst ++ names.flatMap (effectives state model) := by
  induction names generalizing acc with
  | nil => cases h; rw [List.flatMap_nil, List.append_nil]
  | cons name names ih =>
    rw [List.foldlM_cons] at h
    cases hfirst : planStep state model acc name with
    | error err => rw [hfirst] at h; cases h
    | ok acc₁ =>
      rw [hfirst] at h
      rw [ih h, planStep_ok hfirst, List.flatMap_cons, List.append_assoc]

variable {names : List String} {plan : List Attempt} {planError : Option String}

/-- **The plan is the seats of the routed providers, one provider after the other.** -/
theorem buildPlan_eq (h : buildPlan state model names = .ok (plan, planError)) :
    plan.map Prod.fst = names.flatMap (effectives state model) := by
  simpa using foldlM_planStep h

theorem mem_effectives {name : String} {effective : ProviderConfig} :
    effective ∈ effectives state model name ↔
      ∃ provider, state.findProvider name = some provider ∧
        ∃ account ∈ slots state model provider, { provider with account := account } = effective := by
  unfold effectives
  cases hfind : state.findProvider name with
  | none => simp
  | some provider => simp

theorem effectives_name {name : String} {effective : ProviderConfig}
    (h : effective ∈ effectives state model name) : effective.name = name := by
  obtain ⟨provider, hfind, account, -, rfl⟩ := mem_effectives.mp h
  show provider.name = name
  exact findProvider_name hfind

/-- The seats of the plan, provider by provider. -/
theorem seats_eq (h : buildPlan state model names = .ok (plan, planError)) :
    plan.map Attempt.seat = (state.routed names).flatMap fun provider =>
      (slots state model provider).map (seatOf provider.name) := by
  have hseat : plan.map Attempt.seat =
      (plan.map Prod.fst).map fun effective => seatOf effective.name effective.account := by
    rw [List.map_map]
    rfl
  rw [hseat, buildPlan_eq h, AppState.routed]
  clear h hseat
  induction names with
  | nil => rfl
  | cons name names ih =>
    rw [List.flatMap_cons, List.map_append, ih]
    cases hfind : state.findProvider name with
    | none => rw [List.filterMap_cons_none hfind, effectives, hfind, List.map_nil, List.nil_append]
    | some provider =>
      rw [List.filterMap_cons_some hfind, List.flatMap_cons, effectives, hfind, List.map_map]
      rfl

theorem nodup_slots (provider : ProviderConfig) :
    ((slots state model provider).map (seatOf provider.name)).Nodup ↔
      (((state.savedOrderOf provider).getD []).filter
        fun id => id ∈ provider.accountIds ∧ state.isRevoked id = false).Nodup := by
  rw [← nodup_liveAccounts state model provider, slots_eq]
  by_cases hempty : provider.accountIds = []
  · have hnone : liveAccounts state model provider = [] :=
      List.eq_nil_iff_forall_not_mem.mpr fun id hid => by
        rw [mem_liveAccounts, hempty] at hid
        exact List.not_mem_nil hid.1
    rw [if_pos hempty, hnone]
    simp
  · have hinj : Function.Injective (seatOf provider.name ∘ some) := fun i j hij => by
      cases hij
      rfl
    rw [if_neg hempty, List.map_map, List.nodup_map_iff hinj]

/-- Every seat is in the plan at most once when no seat is shared and no saved order repeats one. -/
theorem nodup_seats_iff (h : buildPlan state model names = .ok (plan, planError)) :
    (plan.map Attempt.seat).Nodup ↔ state.Apart names := by
  rw [seats_eq h, List.nodup_flatMap]
  constructor
  · rintro ⟨heach, hpair⟩
    refine ⟨fun provider hmem saved hsaved => ?_, hpair.imp fun {p q} hdisjoint seat hp hlive hq => ?_⟩
    · simpa only [hsaved, Option.getD_some] using (nodup_slots provider).mp (heach provider hmem)
    · exact hdisjoint ((mem_slots state model p seat).mpr ⟨hp, hlive⟩)
        ((mem_slots state model q seat).mpr ⟨hq, hlive⟩)
  · rintro ⟨hsaved, hshared⟩
    refine ⟨fun provider hmem => (nodup_slots provider).mpr ?_, hshared.imp fun {p q} hpq seat hp hq => ?_⟩
    · cases horder : state.savedOrderOf provider with
      | none => exact List.nodup_nil
      | some saved => exact hsaved provider hmem saved horder
    · obtain ⟨hp, hlive⟩ := (mem_slots state model p seat).mp hp
      exact hpq seat hp hlive ((mem_slots state model q seat).mp hq).1

theorem plan_seats (h : buildPlan state model names = .ok (plan, planError)) (seat : Seat) :
    seat ∈ plan.map Attempt.seat ↔ state.Wanted names seat := by
  simp only [seats_eq h, List.mem_flatMap, mem_slots, AppState.Wanted]

theorem plan_own (h : buildPlan state model names = .ok (plan, planError)) {attempt : Attempt}
    (hmem : attempt ∈ plan) : ∃ provider ∈ state.routed names,
      attempt.1 = { provider with account := attempt.1.account } ∧
        attempt.seat ∈ provider.seats := by
  have hfst : attempt.1 ∈ plan.map Prod.fst := List.mem_map_of_mem hmem
  rw [buildPlan_eq h] at hfst
  obtain ⟨name, hname, heffective⟩ := List.mem_flatMap.mp hfst
  obtain ⟨provider, hfind, account, hslot, heq⟩ := mem_effectives.mp heffective
  refine ⟨provider, List.mem_filterMap.mpr ⟨name, hname, hfind⟩, by rw [← heq], ?_⟩
  have hseat : attempt.seat = seatOf provider.name account := by rw [Attempt.seat, ← heq]
  rw [hseat]
  exact ((mem_slots state model provider _).mp (List.mem_map_of_mem hslot)).1

/-- The providers of the plan stand as the route has them. -/
theorem plan_routed (h : buildPlan state model names = .ok (plan, planError)) :
    plan.Pairwise fun a b => a.1.name = b.1.name ∨ [a.1.name, b.1.name].Sublist names := by
  have hfst : (plan.map Prod.fst).Pairwise
      fun a b => a.name = b.name ∨ [a.name, b.name].Sublist names := by
    rw [buildPlan_eq h, List.pairwise_flatMap]
    refine ⟨fun name _ => ?_, List.pairwise_iff_forall_sublist.mpr fun {n m} hsub a ha b hb => ?_⟩
    · refine List.pairwise_of_forall_mem_list fun a ha b hb => .inl ?_
      rw [effectives_name ha, effectives_name hb]
    · rw [effectives_name ha, effectives_name hb]
      exact .inr hsub
  exact List.pairwise_map.mp hfst

theorem effectives_ordered (hapart : state.Apart names) {name : String} (hname : name ∈ names) :
    (effectives state model name).Pairwise fun a b => ∀ provider,
      state.findProvider a.name = some provider → b.name = a.name →
        ∀ i j, a.account = some i → b.account = some j → state.Before model provider i j := by
  unfold effectives
  cases hfind : state.findProvider name with
  | none => exact List.Pairwise.nil
  | some provider =>
    have hnodup : (liveAccounts state model provider).Nodup := by
      rw [nodup_liveAccounts]
      cases horder : state.savedOrderOf provider with
      | none => exact List.nodup_nil
      | some saved =>
        exact hapart.saved provider (List.mem_filterMap.mpr ⟨name, hname, hfind⟩) saved horder
    simp only [List.pairwise_map]
    rw [slots_eq]
    split
    · exact List.pairwise_singleton _ none
    · refine List.pairwise_map.mpr ((before_of_accounts state model provider hnodup).imp ?_)
      intro i j hbefore provider' hfind' _ i' j' hi hj
      cases hi
      cases hj
      rw [findProvider_name hfind, hfind] at hfind'
      cases hfind'
      exact hbefore

theorem effectives_routed_twice (hapart : state.Apart names) {name : String}
    (hsub : [name, name].Sublist names) (effective : ProviderConfig) :
    effective ∉ effectives state model name := by
  intro hmem
  obtain ⟨provider, hfind, account, hslot, -⟩ := mem_effectives.mp hmem
  have hrouted : [provider, provider].Sublist (state.routed names) := by
    have h := hsub.filterMap state.findProvider
    rwa [List.filterMap_cons_some hfind, List.filterMap_cons_some hfind, List.filterMap_nil] at h
  have hshared := List.pairwise_iff_forall_sublist.mp hapart.shared hrouted
  obtain ⟨hseat, hlive⟩ := (mem_slots state model provider _).mp
    (List.mem_map_of_mem (f := seatOf provider.name) hslot)
  exact hshared _ hseat hlive hseat

/-- The accounts of one provider stand in the user's order, when no seat is tried twice. -/
theorem plan_ordered (h : buildPlan state model names = .ok (plan, planError))
    (hapart : state.Apart names) :
    plan.Pairwise fun a b => ∀ provider, state.findProvider a.1.name = some provider →
      b.1.name = a.1.name → ∀ i j, a.1.account = some i → b.1.account = some j →
      state.Before model provider i j := by
  have hfst : (plan.map Prod.fst).Pairwise fun a b => ∀ provider,
      state.findProvider a.name = some provider → b.name = a.name →
        ∀ i j, a.account = some i → b.account = some j → state.Before model provider i j := by
    rw [buildPlan_eq h, List.pairwise_flatMap]
    refine ⟨fun name hname => effectives_ordered hapart hname,
      List.pairwise_iff_forall_sublist.mpr fun {n m} hsub a ha b hb provider hfind hname => ?_⟩
    -- a provider that is routed twice has no seat to share with itself
    rw [effectives_name ha, effectives_name hb] at hname
    subst hname
    exact absurd hb (effectives_routed_twice hapart hsub b)
  exact List.pairwise_map.mp hfst

/-- **When every seat of a request is tried exactly once**, in the order of the route and of the
user: no saved order names an account twice, and no two routed providers share a seat. -/
theorem tried_once_iff (state : AppState) (model : String) (names : List String)
    (plan : List Attempt) (planError : Option String)
    (h : buildPlan state model names = .ok (plan, planError)) :
    state.TriedOnce model names plan ↔ state.Apart names := by
  constructor
  · intro hplan
    exact (nodup_seats_iff h).mp hplan.once
  · intro hapart
    exact ⟨(nodup_seats_iff h).mpr hapart, plan_seats h, fun attempt => plan_own h, plan_routed h,
      plan_ordered h hapart⟩

end Plan

/-- Providers signed in with accounts of Gemini, the saved order of which may be edited by hand. -/
def pools (providers : List (String × List String)) (saved : List String) : AppState where
  providers := providers.map fun p => ⟨p.1, .gemini, none, p.2, none, none, none⟩
  savedOrder := fun vendor => if vendor = "gemini" then some saved else none
  isRevoked := fun id => id = "gemini:old"
  cachedAccountAllowance := fun _ id => if id = "gemini:a" then some [⟨96, none, none⟩] else none
  modelsFor := fun _ _ => .error "no plugin"
  now := 0

/-- A saved order that names an account twice has it tried twice, and so have two providers of a
route that name the same account. -/
theorem account_tried_twice : ¬∀ (state : AppState) (model : String) (names : List String)
    (plan : List Attempt) (planError : Option String),
    buildPlan state model names = .ok (plan, planError) → state.TriedOnce model names plan := by
  intro h
  have hplan : buildPlan (pools [("pool", ["gemini:b"])] ["gemini:b", "gemini:b"]) "gemini-pro"
      ["pool"] = .ok ([(⟨"pool", .gemini, some "gemini:b", ["gemini:b"], none, none, none⟩, .codeAssist),
        (⟨"pool", .gemini, some "gemini:b", ["gemini:b"], none, none, none⟩, .codeAssist)], none) := rfl
  have honce := (h _ _ _ _ _ hplan).once
  revert honce
  decide

theorem tried_once_iff_pools :
    (pools [("fast", ["gemini:a", "gemini:old", "gemini:b"]), ("slow", [])] ["gemini:a"]).TriedOnce
      "gemini-pro" ["slow", "fast"]
      [(⟨"slow", .gemini, none, [], none, none, none⟩, .gemini),
        (⟨"fast", .gemini, some "gemini:b", ["gemini:a", "gemini:old", "gemini:b"], none, none, none⟩,
          .codeAssist),
        (⟨"fast", .gemini, some "gemini:a", ["gemini:a", "gemini:old", "gemini:b"], none, none, none⟩,
          .codeAssist)] := by
  refine (tried_once_iff _ "gemini-pro" ["slow", "fast"] _ none rfl).mpr ⟨?_, ?_⟩
  · intro provider hmem saved hsaved
    obtain rfl | rfl := List.mem_pair.mp hmem
    · cases (hsaved : none = some saved)
    · cases (hsaved : some ["gemini:a"] = some saved)
      decide
  · refine List.pairwise_pair.mpr fun seat hseat _ hshared => ?_
    cases List.mem_singleton.mp hseat
    revert hshared
    decide

end AnyConverter.Handlers
