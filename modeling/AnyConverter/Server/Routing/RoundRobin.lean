import AnyConverter.Lib.Turns

/-!
# Model requests: whose turn it is

A route may have its providers take turns.  One counter of the process serves all such routes: each
request of one of them reads it and moves it on.

* `counterAfter_eq`: the counter is the number of those requests, of whichever routes;
* `order_rotated`: what a request gets is a rotation of its route's providers;
* `inTurn_of_alone`: the providers of a route take turns when no other route moves the counter;
* `turns_iff`: when the providers of every route take turns.
-/

set_option autoImplicit false

namespace AnyConverter.Handlers

inductive RouteStrategy where
  | priority
  | roundRobin
  deriving DecidableEq, Repr

structure Route where
  providerNames : List String
  strategy : RouteStrategy
  deriving DecidableEq, Repr

/-- The counter is a `u64` that wraps, and so is the index it is cut to. -/
def counterEnd : Nat := 2 ^ 64

/-- The providers in the order they are tried, and the counter behind the request. -/
def orderProviderNames (counter : Nat) (providerNames : List String) (strategy : RouteStrategy) :
    List String × Nat :=
  if providerNames.length ≤ 1 ∨ strategy = .priority then (providerNames, counter)
  else
    let start := counter % providerNames.length
    (providerNames.drop start ++ providerNames.take start, (counter + 1) % counterEnd)

section Run

variable (routes : Nat → Route)

/-- A run of requests, each by its route, with the order each gets. -/
def served : Nat → List Nat → List (Nat × List String)
  | _, [] => []
  | counter, i :: requests =>
    let out := orderProviderNames counter (routes i).providerNames (routes i).strategy
    (i, out.1) :: served out.2 requests

/-- The orders the requests of one route get. -/
def ordersOf (requests : List Nat) (i : Nat) : List (List String) :=
  (served routes 0 requests).filterMap fun r => if r.1 = i then some r.2 else none

/-- The providers of every round-robin route take turns: each request of the route starts one
further than the one before, so that over any round each provider comes first once. -/
structure TakeTurns (requests : List Nat) : Prop where
  rotated : ∀ r ∈ served routes 0 requests, (routes r.1).providerNames.IsRotated r.2
  turns : ∀ i, (routes i).strategy = .roundRobin → Turns.Taken (ordersOf routes requests i)
  round : ∀ i, (routes i).strategy = .roundRobin → ∀ orders : List (List String),
    orders <:+: ordersOf routes requests i →
    orders.length = (routes i).providerNames.length →
    (orders.filterMap List.head?).Perm (routes i).providerNames

/-- Whether a request moves the counter on. -/
def Advances (i : Nat) : Bool :=
  decide (1 < (routes i).providerNames.length) && decide ((routes i).strategy = .roundRobin)

/-- From each request of a round-robin route to its next one, the counter moves by one, up to the
period of the list: its length, unless it names a provider twice. -/
def InTurn (requests : List Nat) : Prop :=
  ∀ i, (routes i).strategy = .roundRobin → ∀ before between after,
    requests = before ++ i :: between ++ i :: after → i ∉ between →
    (before ++ i :: between).countP (Advances routes) % counterEnd ≡
      before.countP (Advances routes) % counterEnd + 1 [MOD Turns.period (routes i).providerNames]

/-! ## The counter -/

/-- The counter behind some requests. -/
def counterAfter (counter : Nat) (requests : List Nat) : Nat :=
  requests.foldl (fun c i => (orderProviderNames c (routes i).providerNames (routes i).strategy).2)
    counter

variable {routes}

theorem orderProviderNames_snd {counter : Nat} (h : counter < counterEnd) (i : Nat) :
    (orderProviderNames counter (routes i).providerNames (routes i).strategy).2 =
      (counter + if Advances routes i then 1 else 0) % counterEnd := by
  unfold orderProviderNames
  by_cases hadv : Advances routes i = true
  · have hnot : ¬((routes i).providerNames.length ≤ 1 ∨ (routes i).strategy = .priority) := by
      simp only [Advances, Bool.and_eq_true, decide_eq_true_eq] at hadv
      rw [hadv.2]
      simp
      omega
    rw [if_neg hnot, if_pos hadv]
  · have hstays : (routes i).providerNames.length ≤ 1 ∨ (routes i).strategy = .priority := by
      simp only [Advances, Bool.and_eq_true, decide_eq_true_eq, not_and] at hadv
      cases hstrategy : (routes i).strategy with
      | priority => exact .inr rfl
      | roundRobin => exact .inl (Nat.not_lt.mp fun hlt => hadv hlt hstrategy)
    rw [if_pos hstays, if_neg hadv, Nat.add_zero, Nat.mod_eq_of_lt h]

/-- The counter is the number of requests that move it. -/
theorem counterAfter_eq {counter : Nat} (h : counter < counterEnd) (requests : List Nat) :
    counterAfter routes counter requests =
      (counter + requests.countP (Advances routes)) % counterEnd := by
  induction requests generalizing counter with
  | nil => rw [counterAfter, List.foldl_nil, List.countP_nil, Nat.add_zero, Nat.mod_eq_of_lt h]
  | cons i requests ih =>
    have hnext := @orderProviderNames_snd routes _ h i
    have hlt : (counter + if Advances routes i then 1 else 0) % counterEnd < counterEnd :=
      Nat.mod_lt _ (by decide)
    have hcons : counterAfter routes counter (i :: requests) =
        counterAfter routes ((counter + if Advances routes i then 1 else 0) % counterEnd) requests := by
      rw [← hnext]
      rfl
    rw [hcons, ih hlt, List.countP_cons, Nat.mod_add_mod]
    congr 1
    omega

/-- What a request gets is a rotation of its route's providers: by the counter when they take
turns. -/
theorem order_rotated (counter i : Nat) :
    (orderProviderNames counter (routes i).providerNames (routes i).strategy).1 =
      (routes i).providerNames.rotate
        (if (routes i).strategy = .roundRobin then counter else 0) := by
  unfold orderProviderNames
  split
  · rename_i hstays
    split
    · rename_i hround
      have hlength : (routes i).providerNames.length ≤ 1 := by
        rcases hstays with hlength | hpriority
        · exact hlength
        · rw [hround] at hpriority
          cases hpriority
      have hself := Turns.rotate_eq_self_iff (routes i).providerNames counter
      rw [Turns.period_of_length_le_one hlength] at hself
      exact (hself.mpr (Nat.one_dvd _)).symm
    · rw [List.rotate_zero]
  · rename_i hmoves
    have hround : (routes i).strategy = .roundRobin := by
      cases hstrategy : (routes i).strategy with
      | priority => exact absurd (.inr hstrategy) hmoves
      | roundRobin => rfl
    rw [if_pos hround, List.rotate_eq_drop_append_take_mod]

/-! ## Runs of requests -/

theorem served_map_fst (counter : Nat) (requests : List Nat) :
    (served routes counter requests).map Prod.fst = requests := by
  induction requests generalizing counter with
  | nil => rfl
  | cons i requests ih => rw [served, List.map_cons, ih]

theorem served_append (counter : Nat) (xs ys : List Nat) :
    served routes counter (xs ++ ys) =
      served routes counter xs ++ served routes (counterAfter routes counter xs) ys := by
  induction xs generalizing counter with
  | nil => rfl
  | cons i xs ih =>
    rw [List.cons_append, served, served, ih, List.cons_append]
    rfl

/-- The request behind some others, with what it gets. -/
def servedAfter (routes : Nat → Route) (before : List Nat) (i : Nat) : List String :=
  (orderProviderNames (counterAfter routes 0 before) (routes i).providerNames (routes i).strategy).1

theorem served_cons (before after : List Nat) (i : Nat) :
    served routes 0 (before ++ i :: after) = served routes 0 before ++
      (i, servedAfter routes before i) ::
        served routes (counterAfter routes 0 (before ++ [i])) after := by
  rw [← List.singleton_append, ← List.append_assoc, served_append, served_append,
    List.append_assoc]
  rfl

/-- A request of the run, by its place in what is served. -/
theorem served_split {requests : List Nat} {l₁ l₂ : List (Nat × List String)}
    {r : Nat × List String} (h : served routes 0 requests = l₁ ++ r :: l₂) :
    requests = l₁.map Prod.fst ++ r.1 :: l₂.map Prod.fst ∧
      r.2 = servedAfter routes (l₁.map Prod.fst) r.1 := by
  have hrequests : requests = l₁.map Prod.fst ++ r.1 :: l₂.map Prod.fst := by
    rw [← @served_map_fst routes 0 requests, h, List.map_append, List.map_cons]
  refine ⟨hrequests, ?_⟩
  have hserved := h
  rw [hrequests, served_cons] at hserved
  have hlength : (served routes 0 (l₁.map Prod.fst)).length = l₁.length := by
    rw [← List.length_map (f := Prod.fst), served_map_fst, List.length_map]
  obtain ⟨-, htail⟩ := List.append_inj hserved hlength
  rw [← (List.cons.inj htail).1]

theorem servedAfter_eq (before : List Nat) {i : Nat} (h : (routes i).strategy = .roundRobin) :
    servedAfter routes before i =
      (routes i).providerNames.rotate (before.countP (Advances routes) % counterEnd) := by
  rw [servedAfter, order_rotated, if_pos h, counterAfter_eq (by decide), Nat.zero_add]

/-- Two requests of a route, one turn apart. -/
theorem servedAfter_next (before between : List Nat) {i : Nat}
    (h : (routes i).strategy = .roundRobin) :
    servedAfter routes (before ++ i :: between) i = (servedAfter routes before i).rotate 1 ↔
      (before ++ i :: between).countP (Advances routes) % counterEnd ≡
        before.countP (Advances routes) % counterEnd + 1
          [MOD Turns.period (routes i).providerNames] := by
  rw [servedAfter_eq _ h, servedAfter_eq _ h, List.rotate_rotate, Turns.rotate_eq_rotate_iff]

/-- The part of a run that one route sees. -/
def ownOrders (i : Nat) (rs : List (Nat × List String)) : List (List String) :=
  rs.filterMap fun r => if r.1 = i then some r.2 else none

theorem ownOrders_eq_nil {i : Nat} {rs : List (Nat × List String)} (h : i ∉ rs.map Prod.fst) :
    ownOrders i rs = [] := by
  refine List.filterMap_eq_nil_iff.mpr fun r hr => if_neg fun hi => h ?_
  exact hi ▸ List.mem_map_of_mem hr

theorem ownOrders_cons (i : Nat) (order : List String) (rs : List (Nat × List String)) :
    ownOrders i ((i, order) :: rs) = order :: ownOrders i rs :=
  List.filterMap_cons_some (if_pos rfl)

theorem ownOrders_append (i : Nat) (rs rs' : List (Nat × List String)) :
    ownOrders i (rs ++ rs') = ownOrders i rs ++ ownOrders i rs' :=
  List.filterMap_append

/-- The next order a route sees is that of its next request. -/
theorem ownOrders_eq_cons {i : Nat} {rs : List (Nat × List String)} {order : List String}
    {orders : List (List String)} (h : ownOrders i rs = order :: orders) :
    ∃ skipped rest, rs = skipped ++ (i, order) :: rest ∧ i ∉ skipped.map Prod.fst ∧
      ownOrders i rest = orders := by
  obtain ⟨skipped, r, rest, rfl, hskipped, hr, hrest⟩ := List.filterMap_eq_cons_iff.mp h
  have hi : r.1 = i := by
    by_contra hne
    rw [if_neg hne] at hr
    cases hr
  rw [if_pos hi] at hr
  cases hr
  refine ⟨skipped, rest, by rw [← hi], fun hmem => ?_, hrest⟩
  obtain ⟨r', hr', hi'⟩ := List.mem_map.mp hmem
  have hnone := hskipped r' hr'
  rw [if_pos hi'] at hnone
  cases hnone

theorem taken_iff (requests : List Nat) (i : Nat) :
    Turns.Taken (ordersOf routes requests i) ↔ ∀ before between after,
      requests = before ++ i :: between ++ i :: after → i ∉ between →
        servedAfter routes (before ++ i :: between) i = (servedAfter routes before i).rotate 1 := by
  rw [Turns.Taken, List.isChain_iff_forall_rel_of_append_cons_cons]
  constructor
  · intro hchain before between after hrequests hbetween
    have horders : ordersOf routes requests i = ownOrders i (served routes 0 before) ++
        servedAfter routes before i :: servedAfter routes (before ++ i :: between) i ::
          ownOrders i (served routes
            (counterAfter routes 0 (before ++ i :: between ++ [i])) after) := by
      have hskipped : ownOrders i (served routes (counterAfter routes 0 (before ++ [i])) between) =
          [] := ownOrders_eq_nil (by rwa [served_map_fst])
      show ownOrders i (served routes 0 requests) = _
      rw [hrequests, served_cons, served_cons, ownOrders_append, ownOrders_append, ownOrders_cons,
        ownOrders_cons, hskipped, List.append_assoc, List.singleton_append]
    exact hchain horders
  · intro hnext a b l₁ l₂ horders
    obtain ⟨rs, rs', hserved, -, hfirst⟩ := List.filterMap_eq_append_iff.mp horders
    obtain ⟨skipped, rest, rfl, -, hsecond⟩ := ownOrders_eq_cons hfirst
    obtain ⟨between, after, rfl, hbetween, -⟩ := ownOrders_eq_cons hsecond
    rw [← List.append_assoc] at hserved
    obtain ⟨-, ha⟩ := served_split hserved
    have hserved' : served routes 0 requests =
        (rs ++ skipped ++ (i, a) :: between) ++ (i, b) :: after := by
      rw [hserved, List.append_assoc (rs ++ skipped), List.cons_append]
    obtain ⟨hrequests, hb⟩ := served_split hserved'
    simp only [@List.map_append _ _ Prod.fst (rs ++ skipped), List.map_cons] at hrequests hb
    simp only at ha
    rw [hb, ha]
    exact hnext _ _ _ hrequests hbetween

theorem rotated_of_served (requests : List Nat) :
    ∀ r ∈ served routes 0 requests, (routes r.1).providerNames.IsRotated r.2 := by
  intro r hr
  obtain ⟨l₁, l₂, hserved⟩ := List.append_of_mem hr
  obtain ⟨-, horder⟩ := served_split hserved
  rw [horder, servedAfter, order_rotated]
  exact ⟨_, rfl⟩

/-- Over as many requests of a route as it has providers, each of them comes first once. -/
theorem round_of_taken {requests : List Nat} {i : Nat} {orders : List (List String)}
    (h : Turns.Taken (ordersOf routes requests i)) (hwithin : orders <:+: ordersOf routes requests i)
    (hlength : orders.length = (routes i).providerNames.length) :
    (orders.filterMap List.head?).Perm (routes i).providerNames := by
  cases orders with
  | nil =>
    rw [List.eq_nil_of_length_eq_zero hlength.symm]
    exact List.Perm.nil
  | cons first orders =>
    have hmem : first ∈ ordersOf routes requests i := hwithin.subset List.mem_cons_self
    obtain ⟨r, hr, hown⟩ := List.mem_filterMap.mp hmem
    have hrotated := rotated_of_served requests r hr
    by_cases hi : r.1 = i
    · rw [if_pos hi] at hown
      cases hown
      rw [hi] at hrotated
      refine (Turns.heads_perm ( h.infix hwithin) ?_).trans hrotated.perm.symm
      rw [hlength, hrotated.perm.length_eq]
    · rw [if_neg hi] at hown
      cases hown

/-- A route that takes turns alone has each provider come first in its turn, as long as the counter
does not wrap. -/
theorem inTurn_of_alone {requests : List Nat} {i : Nat}
    (halone : ∀ j ∈ requests, Advances routes j = true → j = i)
    (hcount : requests.length < counterEnd) : InTurn routes requests := by
  intro j hround before between after hrequests hbetween
  by_cases hshort : (routes j).providerNames.length ≤ 1
  · rw [Turns.period_of_length_le_one hshort]
    exact Nat.modEq_one
  · have hmem : j ∈ requests := by simp [hrequests]
    have hadv : Advances routes j = true := by
      simp only [Advances, Bool.and_eq_true, decide_eq_true_eq]
      exact ⟨by omega, hround⟩
    have hji := halone j hmem hadv
    have hskipped : between.countP (Advances routes) = 0 := by
      refine List.countP_eq_zero.mpr fun k hk hadvk => hbetween ?_
      have hki := halone k (by simp [hrequests, hk]) hadvk
      rw [hji, ← hki]
      exact hk
    have hle := List.countP_le_length (p := Advances routes) (l := before ++ j :: between)
    have hlength := congrArg List.length hrequests
    simp only [List.length_append, List.length_cons] at hlength hle
    rw [List.countP_append, List.countP_cons_of_pos hadv, hskipped] at hle ⊢
    rw [Nat.mod_eq_of_lt (by omega), Nat.mod_eq_of_lt (by omega)]

/-- **When the providers of every round-robin route take turns**: the counter moves by one from
each request of the route to its next one, whatever other routes it serves in between. -/
theorem turns_iff (routes : Nat → Route) (requests : List Nat) :
    TakeTurns routes requests ↔ InTurn routes requests := by
  constructor
  · intro hturns i hround before between after hrequests hbetween
    exact (servedAfter_next before between hround).mp
      ((taken_iff requests i).mp (hturns.turns i hround) before between after hrequests hbetween)
  · intro hturn
    have htaken : ∀ i, (routes i).strategy = .roundRobin →
        Turns.Taken (ordersOf routes requests i) := fun i hround =>
      (taken_iff requests i).mpr fun before between after hrequests hbetween =>
        (servedAfter_next before between hround).mpr
          (hturn i hround before between after hrequests hbetween)
    exact ⟨rotated_of_served requests, htaken, fun i hround orders hwithin hlength =>
      round_of_taken (htaken i hround) hwithin hlength⟩

/-- Two routes with two providers each. -/
def twoRoutes : Nat → Route
  | 0 => ⟨["primary", "backup"], .roundRobin⟩
  | _ => ⟨["east", "west"], .roundRobin⟩

/-- Requests that alternate between two routes of two providers have each route start with the same
one every time. -/
theorem backup_never_first : ¬∀ (routes : Nat → Route) (requests : List Nat),
    TakeTurns routes requests := by
  intro h
  have hturns := (h twoRoutes [0, 1, 0]).turns 0 rfl
  revert hturns
  have horders : ordersOf twoRoutes [0, 1, 0] 0 = [["primary", "backup"], ["primary", "backup"]] := rfl
  rw [horders]
  intro hturns
  have hnext := List.isChain_pair.mp hturns
  revert hnext
  decide

end Run

end AnyConverter.Handlers
