import AnyConverter.Server.Storage.Query
import AnyConverter.Server.Storage.Rollup

/-!
# The usage view and the ledger

The usage view counts the hours of a range, the ledger the calls in it; both count what they count
alike, but for the speed, which the ledger leaves out.
-/

set_option autoImplicit false

namespace AnyConverter.Storage

open Sqlite Sqlite.Numeric RequestLogRecord

/-! ## The totals of records -/

/-- What one call adds to the totals. -/
def RequestLogRecord.totals (r : RequestLogRecord) : Totals :=
  (Totals.ofCounts r.amount r.latencyMs (r.costUsd.getD 0) 1).withSpeed r.amount

def totalsOf (records : List RequestLogRecord) : Totals := (records.map totals).sum

/-- The largest latency. -/
def latencyOf (records : List RequestLogRecord) : Nat :=
  (records.map (·.latencyMs)).foldr (· ⊔ ·) 0

variable {records : List RequestLogRecord}

theorem totalsOf_flatten (groups : List (List RequestLogRecord)) :
    totalsOf groups.flatten = (groups.map totalsOf).sum := by
  unfold totalsOf
  rw [List.map_flatten, List.sum_flatten, List.map_map]
  rfl

theorem totalOf_flatten (groups : List (List RequestLogRecord)) (c : Counter) :
    totalOf groups.flatten c = (groups.map fun group => totalOf group c).sum := by
  unfold totalOf
  rw [List.map_flatten, List.sum_flatten, List.map_map]
  rfl

theorem costOf_flatten (groups : List (List RequestLogRecord)) :
    costOf groups.flatten = (groups.map costOf).sum := by
  unfold costOf
  rw [List.map_flatten, List.sum_flatten, List.map_map]
  rfl

theorem latencyOf_append (xs ys : List RequestLogRecord) :
    latencyOf (xs ++ ys) = latencyOf xs ⊔ latencyOf ys := by
  induction xs with
  | nil => exact (Nat.zero_max _).symm
  | cons x xs ih =>
    show x.latencyMs ⊔ latencyOf (xs ++ ys) = (x.latencyMs ⊔ latencyOf xs) ⊔ latencyOf ys
    rw [ih, sup_assoc]

theorem latencyOf_flatten (groups : List (List RequestLogRecord)) :
    latencyOf groups.flatten = (groups.map latencyOf).foldr (· ⊔ ·) 0 := by
  induction groups with
  | nil => rfl
  | cons group groups ih =>
    rw [List.flatten_cons, latencyOf_append, ih, List.map_cons, List.foldr_cons]

theorem totalOf_pricedCalls_le (records : List RequestLogRecord) :
    totalOf records .pricedCalls ≤ totalOf records .calls := by
  refine List.sum_le_sum fun r _ => ?_
  show (if r.costUsd.isSome then 1 else 0) ≤ 1
  split <;> decide

theorem totalOf_calls (records : List RequestLogRecord) : totalOf records .calls = records.length := by
  simp [totalOf, amount]

theorem totalOf_pricedCalls (records : List RequestLogRecord) :
    totalOf records .pricedCalls = records.countP (·.costUsd.isSome) := by
  induction records with
  | nil => rfl
  | cons r records ih =>
    rw [List.countP_cons, ← ih, Nat.add_comm]
    rfl

/-- The totals, column by column. -/
theorem totalsOf_eq (records : List RequestLogRecord) : totalsOf records =
    (Totals.ofCounts (totalOf records) (latencyOf records) (costOf records)
      (totalOf records .calls)).withSpeed (totalOf records) := by
  induction records with
  | nil => rfl
  | cons r records ih =>
    have hcons : totalsOf (r :: records) = r.totals + totalsOf records := rfl
    rw [hcons, ih]
    apply Totals.ext
    case unpriced =>
      have hle := totalOf_pricedCalls_le records
      have hone : r.amount .pricedCalls ≤ 1 := by
        show (if r.costUsd.isSome then 1 else 0) ≤ 1
        split <;> decide
      show (1 - r.amount .pricedCalls) + (totalOf records .calls - totalOf records .pricedCalls) =
        (1 + totalOf records .calls) - (r.amount .pricedCalls + totalOf records .pricedCalls)
      omega
    all_goals rfl

/-! ## Reading the tables -/

theorem sumColumns_eq {columns : List Counter} {cells : Counter → List Numeric} {counts : Counter → Nat}
    (h : ∀ c, sum (cells c) = some (int (counts c))) : sumColumns columns cells = some counts := by
  unfold sumColumns
  simp [h, u64Column]

theorem foldl_sup (a : Nat) (bs : List Nat) :
    (bs.map fun n : Nat => (n : Int)).foldl (· ⊔ ·) (a : Int) =
      ((a ⊔ bs.foldr (· ⊔ ·) 0 : Nat) : Int) := by
  induction bs generalizing a with
  | nil => simp
  | cons b bs ih =>
    rw [List.map_cons, List.foldl_cons, List.foldr_cons, ← sup_assoc, ← ih, Nat.cast_max]

theorem readMaximum_ints (ns : List Nat) :
    readMaximum (ns.map fun n : Nat => int n) = some (ns.foldr (· ⊔ ·) 0) := by
  cases ns with
  | nil => rfl
  | cons n ns =>
    have hmap : (ns.map fun n : Nat => int n) = (ns.map fun n : Nat => (n : Int)).map int := by
      rw [List.map_map]
      rfl
    show u64Column (((ns.map fun n : Nat => int n)).foldl max (int n)) = _
    rw [hmap, foldl_max_ints, foldl_sup]
    rfl

theorem latencyMs_lt (hfit : ∀ c, totalOf records c < 2 ^ 63) {r : RequestLogRecord}
    (hr : r ∈ records) : r.latencyMs < 2 ^ 63 :=
  amount_lt_of_totalOf (hfit .latencySumMs) hr

/-- The counts of some rows of the log. -/
theorem logCounts_logRow (hfit : ∀ c, totalOf records c < 2 ^ 63) (more : List Counter) :
    logCounts more (records.map logRow) = some (totalOf records) := by
  have hsum : ∀ c, sum ((records.map logRow).map (·.cell c)) = some (int (totalOf records c)) := by
    intro c
    have hcells : (records.map logRow).map (·.cell c) = (records.map (·.amount c)).map total := by
      rw [List.map_map, List.map_map]
      refine List.map_congr_left fun r hr => cell_logRow (fun c' _ => ?_) c
      exact amount_lt_of_totalOf (hfit c') hr
    rw [hcells, sum_totals_of_lt (hfit c)]
    exact congrArg some (total_of_lt (hfit c))
  have hpriced : (records.map logRow).countP (·.costUsd.isSome) = totalOf records .pricedCalls := by
    rw [totalOf_pricedCalls, List.countP_map]
    rfl
  unfold logCounts
  rw [sumColumns_eq hsum, hpriced, Option.map_some, Function.update_eq_self]

/-- The ledger totals its rows. -/
theorem readLedger_logRow (hfit : ∀ c, totalOf records c < 2 ^ 63) :
    readLedger (records.map logRow) = some (totalsOf records).withoutSpeed := by
  obtain ⟨cost, hcost, hvalue⟩ := exists_sum_cost records
  have hlatency : readMaximum ((records.map logRow).map fun row => int row.latencyMs) =
      some (latencyOf records) := by
    unfold latencyOf
    rw [← readMaximum_ints, List.map_map, List.map_map]
    refine congrArg readMaximum (List.map_congr_left fun r hr => ?_)
    exact congrArg int (toI64_of_lt (latencyMs_lt hfit hr))
  unfold readLedger
  rw [logCounts_logRow hfit, hlatency, hcost, totalsOf_eq, totalOf_calls, List.length_map]
  show some (Totals.ofCounts (totalOf records) (latencyOf records) cost.value records.length) = _
  rw [hvalue]
  rfl

/-- A row of the rollup holds what some records count. -/
structure Counts (row : RollupRow) (group : List RequestLogRecord) : Prop where
  counters : ∀ c, totalOf group c < 2 ^ 63 → row.counters c = int (totalOf group c)
  latencyMaxMs : (∀ r ∈ group, r.latencyMs < 2 ^ 63) → row.latencyMaxMs = int (latencyOf group)
  costUsd : row.costUsd = real (costOf group)

theorem foldedRow_counts (first : RequestLogRecord) (rest : List RequestLogRecord) :
    Counts (foldedRow first rest) (first :: rest) where
  counters c h := by rw [foldedRow_counters, sum_added_eq h, total_of_lt h]
  latencyMaxMs h := by
    have hrest : (rest.map fun r => toI64 r.latencyMs) =
        (rest.map (·.latencyMs)).map fun n : Nat => (n : Int) := by
      rw [List.map_map]
      exact List.map_congr_left fun r hr => toI64_of_lt (h r (List.mem_cons_of_mem first hr))
    rw [foldedRow_latencyMaxMs, hrest, toI64_of_lt (h first List.mem_cons_self), foldl_sup]
    rfl
  costUsd := foldedRow_costUsd

/-- The usage view totals the records of its rows. -/
theorem readRollup_counts {rows : List (RollupKey × RollupRow)}
    (h : ∀ row ∈ rows, Counts row.2 (ofKey records row.1))
    (hfit : ∀ c, totalOf (rows.map fun row => ofKey records row.1).flatten c < 2 ^ 63) :
    readRollup (rows.map Prod.snd) =
      some (totalsOf (rows.map fun row => ofKey records row.1).flatten) := by
  set groups := rows.map fun row => ofKey records row.1 with hgroups
  have hlt : ∀ row ∈ rows, ∀ c, totalOf (ofKey records row.1) c < 2 ^ 63 := by
    intro row hrow c
    refine Nat.lt_of_le_of_lt ?_ (hfit c)
    rw [totalOf_flatten]
    exact List.le_sum_of_mem (List.mem_map_of_mem (List.mem_map_of_mem hrow))
  have hsum : ∀ c, sum ((rows.map Prod.snd).map (·.counters c)) =
      some (int (totalOf groups.flatten c)) := by
    intro c
    have hcells : (rows.map Prod.snd).map (·.counters c) =
        (groups.map fun group => totalOf group c).map fun n : Nat => int n := by
      rw [hgroups, List.map_map, List.map_map, List.map_map]
      exact List.map_congr_left fun row hrow => (h row hrow).counters c (hlt row hrow c)
    rw [hcells, sum_ints, ← totalOf_flatten, if_pos (hfit c)]
  have hlatency : readMaximum ((rows.map Prod.snd).map (·.latencyMaxMs)) =
      some (latencyOf groups.flatten) := by
    rw [latencyOf_flatten, ← readMaximum_ints, hgroups, List.map_map, List.map_map, List.map_map]
    refine congrArg readMaximum (List.map_congr_left fun row hrow => ?_)
    exact (h row hrow).latencyMaxMs fun r hr => latencyMs_lt (hlt row hrow) hr
  obtain ⟨cost, hcost, hvalue⟩ : ∃ v, sum ((rows.map Prod.snd).map (·.costUsd)) = some v ∧
      v.value = costOf groups.flatten := by
    have hcosts : (rows.map Prod.snd).map (·.costUsd) = (groups.map costOf).map real := by
      rw [hgroups, List.map_map, List.map_map, List.map_map]
      exact List.map_congr_left fun row hrow => (h row hrow).costUsd
    have hvalues : ((groups.map costOf).map real).map value = groups.map costOf := by
      rw [List.map_map]
      exact List.map_id _
    rw [hcosts, costOf_flatten]
    obtain ⟨v, hv, hsum⟩ := @exists_sum ((groups.map costOf).map real) fun v hv => by
      obtain ⟨q, -, rfl⟩ := List.mem_map.mp hv
      exact Or.inr ⟨q, rfl⟩
    exact ⟨v, hv, by rw [hsum, hvalues]⟩
  unfold readRollup
  rw [sumColumns_eq hsum, hlatency, hcost, totalsOf_eq]
  show some ((Totals.ofCounts _ _ cost.value _).withSpeed _) = _
  rw [hvalue]

/-! ## Summing the groups -/

theorem foldlM_foldSummaryRow {α : Type} (read : List α → Option Totals)
    (value : List α → Totals) {groups : List (SummaryKey × List α)}
    (h : ∀ group ∈ groups, group.1.bucket.isSome ∧ read group.2 = some (value group.2))
    (totals : Totals) : groups.foldlM (foldSummaryRow read) totals =
      some (totals + (groups.map fun group => value group.2).sum) := by
  induction groups generalizing totals with
  | nil => exact congrArg some (add_zero totals).symm
  | cons group groups ih =>
    obtain ⟨hbucket, hread⟩ := h group List.mem_cons_self
    obtain ⟨bucket, hbucket⟩ := Option.isSome_iff_exists.mp hbucket
    have hstep : foldSummaryRow read totals group = some (totals + value group.2) := by
      unfold foldSummaryRow
      rw [hbucket, hread]
      rfl
    rw [List.foldlM_cons, hstep, List.map_cons, List.sum_cons, ← add_assoc]
    exact ih (fun group' hmem => h group' (List.mem_cons_of_mem group hmem)) _

variable {s : SqliteStorage} {q : UsageQuery}

/-- Each row of the rollup holds what the records of its key count. -/
theorem Holds.counts (h : Holds s records) {row : RollupKey × RollupRow}
    (hrow : row ∈ s.rollupHourly.rows) : Counts row.2 (ofKey records row.1) := by
  obtain ⟨key, row⟩ := row
  have hfind := Table.find_eq_some_iff.mpr hrow
  rw [h.rollup] at hfind
  show Counts row (ofKey records key)
  generalize ofKey records key = group at hfind
  cases group with
  | nil => cases hfind
  | cons first rest =>
    rw [mergeAll_rollupRow] at hfind
    obtain rfl := Option.some.inj hfind
    exact foldedRow_counts first rest

/-- Each record has its key in the rollup. -/
theorem Holds.mem_keys (h : Holds s records) {r : RequestLogRecord} (hr : r ∈ records) :
    r.rollupKey ∈ s.rollupHourly.rows.map Prod.fst := by
  by_contra hnot
  have hmem : r ∈ ofKey records r.rollupKey := List.mem_filter.mpr ⟨hr, by simp⟩
  rw [← Table.find_eq_none_iff, h.rollup] at hnot
  generalize ofKey records r.rollupKey = group at hmem hnot
  cases group with
  | nil => cases hmem
  | cons first rest =>
    rw [mergeAll_rollupRow] at hnot
    cases hnot

/-- A row of the rollup is there for some record. -/
theorem Holds.exists_record (h : Holds s records) {row : RollupKey × RollupRow}
    (hrow : row ∈ s.rollupHourly.rows) : ∃ r ∈ records, r.rollupKey = row.1 := by
  obtain ⟨key, row⟩ := row
  have hfind := Table.find_eq_some_iff.mpr hrow
  rw [h.rollup] at hfind
  cases hgroup : ofKey records key with
  | nil =>
    rw [hgroup] at hfind
    cases hfind
  | cons first rest =>
    have hmem : first ∈ ofKey records key := hgroup ▸ List.mem_cons_self
    have hfirst := List.mem_filter.mp hmem
    exact ⟨first, hfirst.1, of_decide_eq_true hfirst.2⟩

/-- Over the hours a query keeps, every record is counted once. -/
theorem Holds.sum_hours {M : Type} [AddCommMonoid M] (h : Holds s records) (q : UsageQuery)
    (f : RequestLogRecord → M) :
    ((s.rollupHourly.rows.filter fun row => q.keepsHour row.1).map fun row =>
      ((ofKey records row.1).map f).sum).sum =
      ((records.filter fun r => q.keepsHour r.rollupKey).map f).sum := by
  set rows := s.rollupHourly.rows.filter fun row => q.keepsHour row.1 with hrows
  have hnodup : (rows.map Prod.fst).Nodup :=
    s.rollupHourly.keys_nodup.sublist (List.filter_sublist.map Prod.fst)
  have hkept : records.filter (fun r => r.rollupKey ∈ rows.map Prod.fst) =
      records.filter fun r => q.keepsHour r.rollupKey := by
    refine List.filter_congr fun r hr => ?_
    obtain ⟨⟨key, row⟩, hrow, hkey⟩ := List.mem_map.mp (h.mem_keys hr)
    cases hkey
    rw [Bool.eq_iff_iff, decide_eq_true_iff, List.mem_map]
    constructor
    · rintro ⟨row', hmem, heq⟩
      rw [← heq]
      exact (List.mem_filter.mp hmem).2
    · intro hkeeps
      exact ⟨(r.rollupKey, row), List.mem_filter.mpr ⟨hrow, hkeeps⟩, rfl⟩
  rw [← hkept, ← Table.sum_by_key rollupKey f hnodup records, List.map_map]
  rfl

variable {dateWeek : String → Option String}

/-- The usage view totals the records of the hours it keeps. -/
theorem Holds.usageTotals_eq (h : Holds s records) (haccount : q.account = none)
    (hweek : q.granularity = .week → ∀ r ∈ records, (dateWeek r.bucket).isSome)
    (hfit : ∀ c, totalOf (records.filter fun r => q.keepsHour r.rollupKey) c < 2 ^ 63) :
    usageTotals dateWeek s q =
      some (totalsOf (records.filter fun r => q.keepsHour r.rollupKey)) := by
  unfold usageTotals
  rw [haccount]
  set rows := s.rollupHourly.rows.filter fun row => q.keepsHour row.1 with hrows
  have hmem : ∀ row ∈ rows, row ∈ s.rollupHourly.rows := fun row hrow => List.mem_of_mem_filter hrow
  have hgroup : ∀ group ∈ (Table.groups (fun row => hourGroup dateWeek q.granularity row.1) rows).rows,
      group.1.bucket.isSome ∧ readRollup (group.2.map Prod.snd) =
        some (totalsOf (group.2.map fun row => ofKey records row.1).flatten) := by
    intro group hin
    obtain ⟨hitems, hne⟩ := Table.mem_groups hin
    have hsub : group.2.Sublist rows := hitems ▸ List.filter_sublist
    constructor
    · obtain ⟨row, hrow⟩ := List.exists_mem_of_ne_nil _ hne
      have hkey := hrow
      rw [hitems] at hkey
      have hbucket := of_decide_eq_true (List.mem_filter.mp hkey).2
      rw [← hbucket]
      obtain ⟨r, hr, hrk⟩ := h.exists_record (hmem row (hsub.subset hrow))
      show (q.granularity.bucketExpr dateWeek row.1.bucket).isSome
      rw [← hrk]
      cases hgranularity : q.granularity with
      | week => exact hweek hgranularity r hr
      | hour | day | month => rfl
    · refine readRollup_counts (fun row hrow => h.counts (hmem row (hsub.subset hrow))) fun c => ?_
      refine Nat.lt_of_le_of_lt ?_ (hfit c)
      rw [totalOf_flatten, List.map_map]
      exact ((hsub.map _).sum_le_sum fun _ _ => Nat.zero_le _).trans_eq (h.sum_hours q fun r => r.amount c)
  have hfold := foldlM_foldSummaryRow
    (fun group : List (RollupKey × RollupRow) => readRollup (group.map Prod.snd))
    (fun group => totalsOf (group.map fun row : RollupKey × RollupRow =>
      ofKey records row.1).flatten) hgroup 0
  refine hfold.trans (congrArg some ?_)
  rw [zero_add]
  simp only [totalsOf_flatten, List.map_map, Function.comp_def]
  rw [Table.sum_groups]
  exact h.sum_hours q totals

/-- The ledger totals the records it keeps. -/
theorem Holds.ledgerTotals_eq (h : Holds s records) (search : String → LogRow → Bool)
    (f : LedgerFilter)
    (hfit : ∀ c, totalOf (records.filter fun r => f.keeps search r.logRow) c < 2 ^ 63) :
    ledgerTotals search s f =
      some (totalsOf (records.filter fun r => f.keeps search r.logRow)).withoutSpeed := by
  unfold ledgerTotals
  rw [h.logs, List.map_map]
  show readLedger ((records.map logRow).filter (f.keeps search)) = _
  rw [List.filter_map]
  exact readLedger_logRow hfit

/-! ## The two views -/

/-- What a query asks of a record besides its time. -/
def UsageQuery.selects (q : UsageQuery) (r : RequestLogRecord) : Bool :=
  equals q.provider r.provider && equals q.model r.clientModel && equals q.agent (r.clientId.getD "")

theorem keepsHour_eq (q : UsageQuery) (r : RequestLogRecord) : q.keepsHour r.rollupKey =
    (within (hourFloor q.fromBound) q.toBound r.bucket && q.selects r) := by
  unfold UsageQuery.keepsHour UsageQuery.selects
  rw [Bool.and_assoc, Bool.and_assoc, Bool.and_assoc]
  rfl

theorem named_eq_equals {wanted value : Option String} (h : wanted ≠ some "") :
    named wanted value = equals wanted (value.getD "") := by
  cases wanted with
  | none => rfl
  | some w =>
    have hw : w ≠ "" := fun heq => h (congrArg some heq)
    cases value with
    | none => simp [named, equals, hw]
    | some v => simp [named, equals]

theorem keeps_eq {search : String → LogRow → Bool} (haccount : q.account = none)
    (hagent : q.agent ≠ some "") (r : RequestLogRecord) : q.ledgerFilter.keeps search r.logRow =
      (within q.fromBound q.toBound r.timestamp && q.selects r) := by
  have hnamed : named q.agent r.clientId = equals q.agent (r.clientId.getD "") :=
    named_eq_equals hagent
  show (within q.fromBound q.toBound r.timestamp && true && equals q.provider r.provider &&
    equals q.model r.clientModel && named q.agent r.clientId && named q.account r.providerAccount &&
    true && true && true) = _
  rw [haccount, hnamed]
  unfold UsageQuery.selects
  simp only [Bool.and_true, Bool.and_assoc, named, Option.all_none]

/-- A range of whole hours counts the hour of a call exactly when it counts the call, unless this is in
the first second of its hour: what it writes after the hour may then stand before `:00:00Z`. -/
theorem within_hours {q : UsageQuery} {r : RequestLogRecord} (hr : r.Plain) (first last : List Char)
    (hfrom : q.fromBound = String.ofList first ++ ":00:00Z")
    (hto : q.toBound = String.ofList last ++ ":00:00Z")
    (hfirst : first.length = 13 ∧ ∀ c ∈ first, c.val ≤ 0x7f) (hlast : last.length = 13)
    (hlate : ¬ r.timestamp.toList.drop 13 < ":00:00Z".toList) :
    within (hourFloor q.fromBound) q.toBound r.bucket = within q.fromBound q.toBound r.timestamp := by
  have hstart : ∀ {text : List Char}, 13 ≤ text.length → (∀ c ∈ text.take 13, c.val ≤ 0x7f) →
      Text.getTo 13 text = some (text.take 13) := fun hlength hascii =>
    Text.getTo_of_ascii hlength fun c hc => Char.utf8Size_eq_one_iff.mpr (hascii c hc)
  have hbucket : r.bucket = String.ofList (r.timestamp.toList.take 13) ++ ":00:00Z" := by
    unfold bucket
    rw [hstart hr.length hr.ascii]
  have htake : (first ++ ":00:00Z".toList).take 13 = first :=
    List.take_left' hfirst.1
  have hfloor : hourFloor q.fromBound = q.fromBound := by
    have htext : q.fromBound.toList = first ++ ":00:00Z".toList := by rw [hfrom]; simp
    unfold hourFloor
    rw [htext, hstart (by simp [hfirst.1]) (by rw [htake]; exact hfirst.2), htake]
    exact hfrom.symm
  have htime : r.timestamp.toList = r.timestamp.toList.take 13 ++ r.timestamp.toList.drop 13 :=
    (List.take_append_drop 13 _).symm
  have hlength : (r.timestamp.toList.take 13).length = 13 := by
    rw [List.length_take, Nat.min_eq_left hr.length]
  -- neither the hour nor the time of a call is below a whole hour unless its hour is
  have hhour : ∀ {hour : List Char}, hour.length = 13 →
      (r.bucket < String.ofList hour ++ ":00:00Z" ↔ r.timestamp.toList.take 13 < hour) := by
    intro hour hlen
    rw [hbucket]
    show (String.ofList (r.timestamp.toList.take 13) ++ ":00:00Z").toList <
      (String.ofList hour ++ ":00:00Z").toList ↔ _
    simp only [String.toList_append, String.toList_ofList]
    rw [Text.append_lt_append_iff (hlength.trans hlen.symm)]
    exact or_iff_left fun h => List.lt_irrefl _ h.2
  have hcall : ∀ {hour : List Char}, hour.length = 13 →
      (r.timestamp < String.ofList hour ++ ":00:00Z" ↔ r.timestamp.toList.take 13 < hour) := by
    intro hour hlen
    show r.timestamp.toList < (String.ofList hour ++ ":00:00Z").toList ↔ _
    rw [htime]
    simp only [String.toList_append, String.toList_ofList]
    rw [Text.append_lt_append_iff (hlength.trans hlen.symm), List.take_left' hlength]
    exact or_iff_left fun h => hlate h.2
  unfold within
  rw [hfloor, hfrom, hto]
  simp only [hhour hfirst.1, hhour hlast, hcall hfirst.1, hcall hlast]

/-- Where a range counts the hour of a call exactly when it counts the call, both views have the same
totals, but for the speed. -/
theorem views_agree (dateWeek : String → Option String) (search : String → LogRow → Bool)
    (batches : List (List RequestLogRecord)) (hids : (batches.flatten.map (·.requestId)).Nodup)
    (q : UsageQuery) (haccount : q.account = none) (hagent : q.agent ≠ some "")
    (hweek : q.granularity = .week → ∀ r ∈ batches.flatten, (dateWeek r.bucket).isSome)
    (hrange : ∀ r ∈ batches.flatten, q.selects r →
      within (hourFloor q.fromBound) q.toBound r.bucket = within q.fromBound q.toBound r.timestamp)
    (hfit : ∀ c, totalOf (batches.flatten.filter fun r => q.keepsHour r.rollupKey) c < 2 ^ 63) :
    ∃ totals, usageTotals dateWeek (batches.foldl insertRequestLogs .empty) q = some totals ∧
      ledgerTotals search (batches.foldl insertRequestLogs .empty) q.ledgerFilter =
        some totals.withoutSpeed := by
  have hflat : batches.foldl insertRequestLogs .empty = insertRequestLogs .empty batches.flatten := by
    unfold insertRequestLogs
    rw [List.foldl_flatten]
  have hholds : Holds (insertRequestLogs .empty batches.flatten) batches.flatten :=
    holds_empty.insertAll (by rwa [List.nil_append])
  have hsame : batches.flatten.filter (fun r => q.ledgerFilter.keeps search r.logRow) =
      batches.flatten.filter fun r => q.keepsHour r.rollupKey := by
    refine List.filter_congr fun r hr => ?_
    rw [keeps_eq haccount hagent, keepsHour_eq]
    cases hselects : q.selects r with
    | false => rw [Bool.and_false, Bool.and_false]
    | true => rw [hrange r hr hselects]
  rw [hflat]
  refine ⟨_, hholds.usageTotals_eq haccount hweek hfit, ?_⟩
  have hledger := hholds.ledgerTotals_eq search q.ledgerFilter (hsame ▸ hfit)
  rw [hledger, hsame]

/-- A call at a quarter to two. -/
def late : RequestLogRecord where
  requestId := "c"
  timestamp := "2026-07-16T13:45:12.500+00:00"
  costUsd := some (1 / 4)
  decodeMs := 800
  decodeOut := 40
  provider := "p"
  clientModel := "m"
  responseStatus := 200
  latencyMs := 900
  usage := { inputTokens := 10, outputTokens := 40 }

theorem late_plain : late.Plain := by
  refine ⟨by decide +kernel, by simp [late], fun c _ => ?_⟩
  cases c with
  | _ => decide +kernel

/-- The calls from one o'clock on to two. -/
def wholeHour : UsageQuery where
  fromBound := "2026-07-16T13:00:00Z"
  toBound := "2026-07-16T14:00:00Z"

theorem views_agree_whole_hour :
    ∃ totals, usageTotals (fun _ => none) ([[late]].foldl insertRequestLogs .empty) wholeHour =
        some totals ∧
      ledgerTotals (fun _ _ => true) ([[late]].foldl insertRequestLogs .empty) wholeHour.ledgerFilter =
        some totals.withoutSpeed := by
  refine views_agree _ _ [[late]] (by decide) wholeHour rfl (by decide) (fun h => ?_)
    (fun r hr _ => ?_) fun c => ?_
  · cases h
  · obtain rfl : r = late := by simpa using hr
    exact within_hours late_plain "2026-07-16T13".toList "2026-07-16T14".toList (by decide +kernel)
      (by decide +kernel) (by simp) (by decide +kernel) (by decide +kernel)
  · cases c with
    | _ => decide +kernel

/-- A range that begins or ends within an hour has the whole hour in one view and the calls of the
range in the other; over the whole hour the ledger has no speed. -/
theorem late_views_differ :
    ((usageTotals (fun _ => none) ([[late]].foldl insertRequestLogs .empty)
        { fromBound := "2026-07-16T13:50:00Z", toBound := "2026-07-16T14:00:00Z" }).map (·.calls) =
      some 1 ∧
    (ledgerTotals (fun _ _ => true) ([[late]].foldl insertRequestLogs .empty)
        { fromBound := "2026-07-16T13:50:00Z", toBound := "2026-07-16T14:00:00Z" }).map (·.calls) =
      some 0) ∧
    ((usageTotals (fun _ => none) ([[late]].foldl insertRequestLogs .empty)
        { fromBound := "2026-07-16T13:00:00Z", toBound := "2026-07-16T13:30:00Z" }).map (·.calls) =
      some 1 ∧
    (ledgerTotals (fun _ _ => true) ([[late]].foldl insertRequestLogs .empty)
        { fromBound := "2026-07-16T13:00:00Z", toBound := "2026-07-16T13:30:00Z" }).map (·.calls) =
      some 0) ∧
    ((usageTotals (fun _ => none) ([[late]].foldl insertRequestLogs .empty)
        { fromBound := "2026-07-16T13:00:00Z", toBound := "2026-07-16T14:00:00Z" }).map (·.decodeN) =
      some 1 ∧
    (ledgerTotals (fun _ _ => true) ([[late]].foldl insertRequestLogs .empty)
        { fromBound := "2026-07-16T13:00:00Z", toBound := "2026-07-16T14:00:00Z" }).map (·.decodeN) =
      some 0) := by
  decide +kernel

end AnyConverter.Storage
