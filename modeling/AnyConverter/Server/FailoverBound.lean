import AnyConverter.Server.Failover

/-!
# How many requests the failover loop sends

The loop turns again at the same target after a refresh, and remembers only the last target that had
one.  Here every turn meets upstreams of its own, so an answer may depend on all that happened before.

* `walk_eq_loop`: the loop, where the upstreams answer by target and round alone;
* `Rounds`: one turn for each target in the order of the plan, and a second one after a refresh;
* `walk_bounded`: the loop ends, and what it sends on the way.
-/

set_option autoImplicit false

namespace AnyConverter.Handlers

/-! ## The loop, turn by turn -/

/-- One turn of the loop as it went. -/
structure Visit where
  attempt : Nat
  /-- the request went out to the target -/
  sent : Bool
  events : List Event

def sends (up : Upstream) (fo : Failover) : Bool :=
  match up.build fo.attempt fo.retried with
  | .ready => true
  | _ => false

def visit (up : Upstream) (provider : Target) (fo : Failover) : Visit :=
  ⟨fo.attempt, sends up fo, (turn up provider fo).1⟩

/-- The loop, whose `n`-th turn meets `ups n`; nothing comes back when the fuel is used up. -/
def walk (ups : Nat → Upstream) (plan : List Target) :
    Nat → Nat → Failover → List Visit × Option Response
  | 0, _, _ => ([], none)
  | fuel + 1, n, fo =>
    match plan[fo.attempt]? with
    | none => ([], some (.api (upstreamErrorResponse (fo.lastError.getD "all providers failed"))))
    | some provider =>
      match (turn (ups n) provider fo).2 with
      | .done response => ([visit (ups n) provider fo], some response)
      | .again fo' =>
        let rest := walk ups plan fuel (n + 1) fo'
        (visit (ups n) provider fo :: rest.1, rest.2)

/-- Where the upstreams do not change from turn to turn, it is the loop. -/
theorem walk_eq_loop (up : Upstream) (plan : List Target) (fuel n : Nat) (fo : Failover) :
    ((walk (fun _ => up) plan fuel n fo).1.flatMap Visit.events,
      (walk (fun _ => up) plan fuel n fo).2) = loop up plan fuel fo := by
  induction fuel generalizing n fo with
  | zero => rfl
  | succ fuel ih =>
    unfold walk loop
    cases hplan : plan[fo.attempt]? with
    | none => rfl
    | some provider =>
      dsimp only
      rcases hturn : turn up provider fo with ⟨events, next⟩
      cases next with
      | done response => simp [visit, hturn]
      | again fo' =>
        have hrest := ih (n + 1) fo'
        simp only [← hrest, List.flatMap_cons, visit, hturn]

/-! ## Rounds -/

/-- A turn that refreshed the account of its target. -/
def Renewed (plan : List Target) (v : Visit) : Prop :=
  ∃ target account, plan[v.attempt]? = some target ∧ target.account = some account ∧
    .refreshed account true ∈ v.events

/-- From a target on, every target has one turn, or two with a refresh between them. -/
inductive Rounds (plan : List Target) : Nat → List Visit → Prop
  | stop {i : Nat} : Rounds plan i []
  | once {i : Nat} {v : Visit} {rest : List Visit} : v.attempt = i → i < plan.length →
      Rounds plan (i + 1) rest → Rounds plan i (v :: rest)
  | twice {i : Nat} {v v' : Visit} {rest : List Visit} : v.attempt = i → v'.attempt = i →
      i < plan.length → Renewed plan v → Rounds plan (i + 1) rest → Rounds plan i (v :: v' :: rest)

theorem lt_of_getElem? {plan : List Target} {i : Nat} {target : Target}
    (h : plan[i]? = some target) : i < plan.length := (List.getElem?_eq_some_iff.mp h).1

/-- **The loop goes in rounds**, with fuel enough for two turns of every target that is left. -/
theorem walk_rounds (ups : Nat → Upstream) (plan : List Target) {fuel n : Nat} {fo : Failover}
    (hfresh : Fresh plan fo) (hfuel : 2 * (plan.length - fo.attempt) + 1 ≤ fuel) :
    Rounds plan fo.attempt (walk ups plan fuel n fo).1 ∧ (walk ups plan fuel n fo).2.isSome := by
  induction hleft : plan.length - fo.attempt using Nat.strong_induction_on generalizing fuel n fo with
  | _ left ih =>
    obtain ⟨fuel, rfl⟩ : ∃ k, fuel = k + 1 := ⟨fuel - 1, by omega⟩
    unfold walk
    cases hplan : plan[fo.attempt]? with
    | none => exact ⟨.stop, rfl⟩
    | some target =>
      have hlt := lt_of_getElem? hplan
      dsimp only
      by_cases hrefreshes : Refreshes (ups n) target fo.attempt
      · -- the account is refreshed, and the same target has its second turn
        obtain ⟨account, haccount, hturn⟩ := turn_refreshes hfresh.retried hrefreshes
        have hrenewed : Renewed plan (visit (ups n) target fo) := by
          refine ⟨target, account, hplan, haccount, ?_⟩
          rw [visit, hturn]
          simp
        rw [hturn]
        dsimp only
        obtain ⟨fuel, rfl⟩ : ∃ k, fuel = k + 1 := ⟨fuel - 1, by omega⟩
        generalize hagain : ({ fo with expiredRetried := some fo.attempt } : Failover) = again
        have hattempt : again.attempt = fo.attempt := by rw [← hagain]
        have hretried : again.retried = true := by
          rw [← hagain]
          simp [Failover.retried]
        unfold walk
        rw [hattempt, hplan]
        dsimp only
        have hnot : ¬(again.retried = false ∧ Refreshes (ups (n + 1)) target again.attempt) := by
          simp [hretried]
        rcases turn_cases hnot with ⟨-, fo', hnext, hmoved⟩ | ⟨-, response, hdone, -⟩
        · have hmoved' : Moved again fo' := hmoved
          have hfresh' : Fresh plan fo' := by
            refine ⟨?_, ?_⟩
            · rw [hmoved.planLen, ← hagain]
              exact hfresh.planLen
            · intro i hi
              rw [hmoved.expiredRetried, ← hagain] at hi
              rw [hmoved.attempt, hattempt, ← Option.some.inj hi]
              exact Nat.lt_succ_self _
          have hat : fo'.attempt = fo.attempt + 1 := by rw [hmoved.attempt, hattempt]
          obtain ⟨hrounds, hsome⟩ := @ih (plan.length - fo'.attempt) (by omega) fuel (n + 1 + 1) fo'
            hfresh' (by omega) rfl
          rw [hnext]
          rw [hat] at hrounds
          exact ⟨.twice rfl hattempt hlt hrenewed hrounds, hsome⟩
        · rw [hdone]
          exact ⟨.twice rfl hattempt hlt hrenewed .stop, rfl⟩
      · have hnot : ¬(fo.retried = false ∧ Refreshes (ups n) target fo.attempt) :=
          fun h => hrefreshes h.2
        rcases turn_cases hnot with ⟨-, fo', hnext, hmoved⟩ | ⟨-, response, hdone, -⟩
        · have hat := hmoved.attempt
          obtain ⟨hrounds, hsome⟩ := @ih (plan.length - fo'.attempt) (by omega) fuel (n + 1) fo'
            (hfresh.moved hmoved) (by omega) rfl
          rw [hnext]
          rw [hat] at hrounds
          exact ⟨.once rfl hlt hrounds, hsome⟩
        · rw [hdone]
          exact ⟨.once rfl hlt .stop, rfl⟩

/-! ## What the rounds bound -/

namespace Rounds

variable {plan : List Target} {i : Nat} {visits : List Visit}

theorem le_attempt (h : Rounds plan i visits) : ∀ v ∈ visits, i ≤ v.attempt := by
  induction h with
  | stop =>
    intro v hv
    cases hv
  | once hat _ _ ih =>
    intro v hv
    rcases List.mem_cons.mp hv with rfl | hv
    · omega
    · have := ih v hv
      omega
  | twice hat hat' _ _ _ ih =>
    intro v hv
    simp only [List.mem_cons] at hv
    rcases hv with rfl | rfl | hv
    · omega
    · omega
    · have := ih v hv
      omega

theorem inOrder (h : Rounds plan i visits) :
    visits.Pairwise fun u v => u.attempt ≤ v.attempt := by
  induction h with
  | stop => exact .nil
  | once hat _ hrest ih =>
    refine .cons (fun v hv => ?_) ih
    have := hrest.le_attempt v hv
    omega
  | twice hat hat' _ _ hrest ih =>
    refine .cons (fun v hv => ?_) (.cons (fun v hv => ?_) ih)
    · rcases List.mem_cons.mp hv with rfl | hv
      · omega
      · have := hrest.le_attempt v hv
        omega
    · have := hrest.le_attempt v hv
      omega

theorem lt_length (h : Rounds plan i visits) : ∀ v ∈ visits, v.attempt < plan.length := by
  induction h with
  | stop =>
    intro v hv
    cases hv
  | once hat hlt _ ih =>
    intro v hv
    rcases List.mem_cons.mp hv with rfl | hv
    · omega
    · exact ih v hv
  | twice hat hat' hlt _ _ ih =>
    intro v hv
    simp only [List.mem_cons] at hv
    rcases hv with rfl | rfl | hv
    · omega
    · omega
    · exact ih v hv

/-- No target is passed over: one that comes before a turn had a turn. -/
theorem noneSkipped (h : Rounds plan i visits) :
    ∀ v ∈ visits, ∀ j, i ≤ j → j < v.attempt → ∃ u ∈ visits, u.attempt = j := by
  induction h with
  | stop =>
    intro v hv
    cases hv
  | @once i first rest hat _ _ ih =>
    intro v hv j hle hj
    by_cases heq : j = i
    · exact ⟨first, List.mem_cons_self, by omega⟩
    · rcases List.mem_cons.mp hv with rfl | hv
      · omega
      · obtain ⟨u, hu, hattempt⟩ := ih v hv j (by omega) hj
        exact ⟨u, List.mem_cons_of_mem _ hu, hattempt⟩
  | @twice i first second rest hat hat' _ _ _ ih =>
    intro v hv j hle hj
    by_cases heq : j = i
    · exact ⟨first, List.mem_cons_self, by omega⟩
    · simp only [List.mem_cons] at hv
      rcases hv with rfl | rfl | hv
      · omega
      · omega
      · obtain ⟨u, hu, hattempt⟩ := ih v hv j (by omega) hj
        exact ⟨u, List.mem_cons_of_mem _ (List.mem_cons_of_mem _ hu), hattempt⟩

/-- What comes later is at later targets. -/
theorem countP_eq_zero (h : Rounds plan i visits) {j : Nat} (hj : j < i) :
    visits.countP (fun v => v.attempt = j && v.sent) = 0 := by
  refine List.countP_eq_zero.mpr fun v hv => ?_
  have hle := h.le_attempt v hv
  have hne : v.attempt ≠ j := by omega
  simp [hne]

theorem sent_twice (h : Rounds plan i visits) (j : Nat) :
    visits.countP (fun v => v.attempt = j && v.sent) ≤ 2 := by
  induction h with
  | stop => simp
  | @once i first rest hat _ hrest ih =>
    rw [List.countP_cons]
    by_cases hj : j < i + 1
    · have hnone := hrest.countP_eq_zero hj
      split <;> omega
    · have hne : first.attempt ≠ j := by omega
      simpa [hne] using ih
  | @twice i first second rest hat hat' _ _ hrest ih =>
    rw [List.countP_cons, List.countP_cons]
    by_cases hj : j < i + 1
    · have hnone := hrest.countP_eq_zero hj
      split <;> split <;> omega
    · have hne : first.attempt ≠ j := by omega
      have hne' : second.attempt ≠ j := by omega
      simpa [hne, hne'] using ih

theorem sent_total (h : Rounds plan i visits) (hle : i ≤ plan.length) :
    visits.countP Visit.sent + 2 * i ≤ 2 * plan.length := by
  induction h with
  | stop =>
    simp only [List.countP_nil]
    omega
  | once _ hlt _ ih =>
    have := ih hlt
    rw [List.countP_cons]
    split <;> omega
  | twice _ _ hlt _ _ ih =>
    have := ih hlt
    rw [List.countP_cons, List.countP_cons]
    split <;> split <;> omega

/-- A turn at a target that had one before comes right after the one that refreshed its account. -/
theorem refreshed (h : Rounds plan i visits) :
    ∀ xs v ys, visits = xs ++ v :: ys → (∃ u ∈ xs, u.attempt = v.attempt) →
      ∃ u, xs.filter (·.attempt = v.attempt) = [u] ∧ Renewed plan u := by
  induction h with
  | stop =>
    intro xs v ys heq
    simp at heq
  | @once i first rest hat _ hrest ih =>
    rintro xs v ys heq ⟨u, hu, hsame⟩
    cases xs with
    | nil => cases hu
    | cons x xs =>
      obtain ⟨rfl, hrest'⟩ := List.cons.inj heq
      have hlater := hrest.le_attempt v (by rw [hrest']; simp)
      have hne : first.attempt ≠ v.attempt := by omega
      rcases List.mem_cons.mp hu with rfl | hu
      · exact absurd hsame hne
      · rw [List.filter_cons_of_neg (by simpa using hne)]
        exact ih xs v ys hrest' ⟨u, hu, hsame⟩
  | @twice i first second rest hat hat' _ hrenewed hrest ih =>
    rintro xs v ys heq ⟨u, hu, hsame⟩
    match xs with
    | [] => cases hu
    | [x] =>
      obtain ⟨rfl, hsecond⟩ := List.cons.inj heq
      obtain ⟨rfl, -⟩ := List.cons.inj hsecond
      refine ⟨first, ?_, hrenewed⟩
      rw [List.filter_cons_of_pos (by simpa using hat.trans hat'.symm), List.filter_nil]
    | x :: x' :: xs =>
      obtain ⟨rfl, hsecond⟩ := List.cons.inj heq
      obtain ⟨rfl, hrest'⟩ := List.cons.inj hsecond
      have hlater := hrest.le_attempt v (by rw [hrest']; simp)
      have hne : first.attempt ≠ v.attempt := by omega
      have hne' : second.attempt ≠ v.attempt := by omega
      simp only [List.mem_cons] at hu
      rcases hu with rfl | rfl | hu
      · exact absurd hsame hne
      · exact absurd hsame hne'
      · rw [List.filter_cons_of_neg (by simpa using hne),
          List.filter_cons_of_neg (by simpa using hne')]
        exact ih xs v ys hrest' ⟨u, hu, hsame⟩

end Rounds

/-- What a request may cost its targets, over the turns of the loop. -/
structure Bounded (plan : List Target) (visits : List Visit) : Prop where
  /-- the targets come in the order of the plan -/
  inOrder : visits.Pairwise fun u v => u.attempt ≤ v.attempt
  noneSkipped : ∀ v ∈ visits, v.attempt < plan.length ∧
    ∀ j, j < v.attempt → ∃ u ∈ visits, u.attempt = j
  twice : ∀ i, visits.countP (fun v => v.attempt = i && v.sent) ≤ 2
  /-- a second turn at a target comes after one turn there, which refreshed its account -/
  refreshed : ∀ xs v ys, visits = xs ++ v :: ys → (∃ u ∈ xs, u.attempt = v.attempt) →
    ∃ u, xs.filter (·.attempt = v.attempt) = [u] ∧ Renewed plan u
  total : visits.countP Visit.sent ≤ 2 * plan.length

theorem Rounds.bounded {plan : List Target} {visits : List Visit} (h : Rounds plan 0 visits) :
    Bounded plan visits where
  inOrder := h.inOrder
  noneSkipped v hv := ⟨h.lt_length v hv, fun j hj => h.noneSkipped v hv j (Nat.zero_le j) hj⟩
  twice := h.sent_twice
  refreshed := h.refreshed
  total := by
    have := h.sent_total (Nat.zero_le _)
    omega

/-- **The failover loop is bounded**: whatever every turn meets, it ends with a response, it goes
through the plan in order, and it sends no target more than the two requests a refresh allows. -/
theorem walk_bounded (ups : Nat → Upstream) (plan : List Target) (planError : Option String) :
    (walk ups plan (2 * plan.length + 1) 0
        { Failover.new plan.length with lastError := planError }).2.isSome ∧
      Bounded plan (walk ups plan (2 * plan.length + 1) 0
        { Failover.new plan.length with lastError := planError }).1 := by
  obtain ⟨hrounds, hsome⟩ := @walk_rounds ups plan (2 * plan.length + 1) 0 _
    (fresh_new plan planError) (Nat.le_refl _)
  exact ⟨hsome, hrounds.bounded⟩

end AnyConverter.Handlers
