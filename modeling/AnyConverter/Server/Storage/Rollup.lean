import AnyConverter.Server.Storage.Maintenance

/-!
# The rollup beside the log

The rollup is added up record by record, and can be computed from the log at once.  Both do so column
by column; they part where a total leaves 64 bits, and where a prompt of 2^63 tokens is added as it
is but summed in parts.

* `selectRow_eq_foldedRow_iff`: one hour, both ways;
* `Holds.insert`: what the tables hold after one more record;
* `rebuilt_iff`: when the log rebuilds to the rollup.
-/

set_option autoImplicit false

namespace AnyConverter.Storage

open Sqlite Sqlite.Numeric

/-! ## What a record counts -/

namespace RequestLogRecord

/-- What a record counts for a column. -/
def amount (r : RequestLogRecord) : Counter → Nat
  | .calls => 1
  | .errors => if 400 ≤ r.responseStatus then 1 else 0
  | .inputTokens => r.usage.inputTokens
  | .outputTokens => r.usage.outputTokens
  | .cacheReadTokens => r.usage.cacheReadTokens.getD 0
  | .cacheWriteTokens => r.usage.cacheWriteTokens.getD 0
  | .cacheWrite1h => r.usage.cacheWrite1h.getD 0
  | .cacheUnknownTokens =>
    if r.cacheUnknown then
      r.usage.inputTokens + r.usage.cacheReadTokens.getD 0 + r.usage.cacheWriteTokens.getD 0
    else 0
  | .reasoningTokens => r.usage.reasoningTokens.getD 0
  | .latencySumMs => r.latencyMs
  | .ttftSumMs => r.ttftMs
  | .ttftCalls => if 0 < r.ttftMs then 1 else 0
  | .pricedCalls => if r.costUsd.isSome then 1 else 0
  | .retriedCalls => if 0 < r.attempt ∧ r.responseStatus < 400 then 1 else 0
  | .loops => if r.errType = some "loop" then 1 else 0
  | .decodeMs => r.decodeMs
  | .decodeOut => r.decodeOut
  | .decodeN => if 0 < r.decodeOut ∧ 0 < r.decodeMs then 1 else 0

/-- A record whose timestamp begins with 13 characters of ASCII and whose own counters are below
2^63. -/
structure Plain (r : RequestLogRecord) : Prop where
  length : 13 ≤ r.timestamp.toList.length
  ascii : ∀ c ∈ r.timestamp.toList.take 13, c.val ≤ 0x7f
  counters : ∀ c, c ≠ .cacheUnknownTokens → r.amount c < 2 ^ 63

variable {r : RequestLogRecord}

/-- Both name the same hour. -/
theorem Plain.groupKey_logRow (h : r.Plain) : r.logRow.groupKey = r.rollupKey := by
  have hstart := Text.getTo_of_ascii h.length fun c hc => Char.utf8Size_eq_one_iff.mpr (h.ascii c hc)
  have hbucket : r.logRow.bucket = r.bucket := by
    unfold bucket
    rw [hstart]
    rfl
  unfold LogRow.groupKey rollupKey
  rw [hbucket]
  rfl

theorem flag_cast (p : Prop) [Decidable p] :
    (if p then 1 else 0 : Int) = ((if p then 1 else 0 : Nat) : Int) := by
  split <;> rfl

theorem toI64_of_lt {n : Nat} (h : n < 2 ^ 63) : toI64 n = n := if_pos h

theorem toI64_bounds (n : Nat) : 0 ≤ toI64 n ∧ toI64 n < 2 ^ 63 := by
  unfold toI64
  split <;> omega

theorem counter_bounds (r : RequestLogRecord) (c : Counter) :
    0 ≤ r.counter c ∧ r.counter c < 2 ^ 63 := by
  have hflag : ∀ p : Prop, ∀ [Decidable p], 0 ≤ (if p then 1 else 0 : Int) ∧
      (if p then 1 else 0 : Int) < 2 ^ 63 := by
    intro p _
    split <;> decide
  cases c with
  | calls => exact (by decide : (0 : Int) ≤ 1 ∧ (1 : Int) < 2 ^ 63)
  | errors | ttftCalls | pricedCalls | retriedCalls | loops | decodeN => exact hflag _
  | inputTokens | outputTokens | cacheReadTokens | cacheWriteTokens | cacheWrite1h
  | cacheUnknownTokens | reasoningTokens | latencySumMs | ttftSumMs | decodeMs | decodeOut =>
    exact toI64_bounds _

/-- What a record adds to a column, as a count. -/
def added (r : RequestLogRecord) (c : Counter) : Nat := (r.counter c).toNat

theorem counter_eq (r : RequestLogRecord) (c : Counter) : r.counter c = r.added c :=
  (Int.toNat_of_nonneg (r.counter_bounds c).1).symm

theorem added_lt (r : RequestLogRecord) (c : Counter) : r.added c < 2 ^ 63 := by
  have hbounds := r.counter_bounds c
  unfold added
  omega

theorem cacheUnknownTokens_eq (r : RequestLogRecord) :
    r.cacheUnknownTokens = r.amount .cacheUnknownTokens % 2 ^ 64 := by
  unfold cacheUnknownTokens amount
  cases r.cacheUnknown <;> rfl

/-- A record adds what it counts, as far as that is below 2^63. -/
theorem added_eq {c : Counter} (hc : r.amount c < 2 ^ 63) :
    r.added c = r.amount c := by
  have hcast : r.counter c = r.amount c := by
    cases c with
    | calls => rfl
    | errors | ttftCalls | pricedCalls | retriedCalls | loops | decodeN => exact flag_cast _
    | inputTokens | outputTokens | cacheReadTokens | cacheWriteTokens | cacheWrite1h
    | reasoningTokens | latencySumMs | ttftSumMs | decodeMs | decodeOut => exact toI64_of_lt hc
    | cacheUnknownTokens =>
      show toI64 r.cacheUnknownTokens = _
      rw [cacheUnknownTokens_eq, Nat.mod_eq_of_lt (by omega), toI64_of_lt hc]
  rw [counter_eq] at hcast
  exact_mod_cast hcast

/-- A column of the log holds what its record counts. -/
theorem cell_logRow (hcounters : ∀ c, c ≠ .cacheUnknownTokens → r.amount c < 2 ^ 63) (c : Counter) :
    r.logRow.cell c = total (r.amount c) := by
  have hint : ∀ {n : Nat}, n < 2 ^ 63 → int (toI64 n) = total n := by
    intro n hn
    rw [toI64_of_lt hn, total_of_lt hn]
  have hoption : ∀ o : Option Nat, (o.map toI64).getD 0 = toI64 (o.getD 0) := by
    intro o
    cases o <;> rfl
  have hflag : ∀ {p q : Prop} [Decidable p] [Decidable q], (p ↔ q) →
      int (if p then 1 else 0) = total (if q then 1 else 0) := by
    intro p q _ _ hpq
    rw [if_congr hpq rfl rfl]
    split <;> rfl
  have hpos : ∀ {n : Nat}, 0 < toI64 n ↔ 0 < n := by
    intro n
    unfold toI64
    split <;> omega
  by_cases hc : c = .cacheUnknownTokens
  · subst hc
    have hinput : r.usage.inputTokens < 2 ^ 63 := hcounters .inputTokens (by decide)
    have hread : r.usage.cacheReadTokens.getD 0 < 2 ^ 63 := hcounters .cacheReadTokens (by decide)
    have hwrite : r.usage.cacheWriteTokens.getD 0 < 2 ^ 63 :=
      hcounters .cacheWriteTokens (by decide)
    show (if (if r.cacheUnknown then 1 else 0 : Int) = 1 then
        add (add (int (toI64 r.usage.inputTokens)) (int ((r.usage.cacheReadTokens.map toI64).getD 0)))
          (int ((r.usage.cacheWriteTokens.map toI64).getD 0))
      else int 0) = total (r.amount .cacheUnknownTokens)
    rw [hoption, hoption, hint hinput, toI64_of_lt hread, toI64_of_lt hwrite, add_total, add_total]
    unfold amount
    cases r.cacheUnknown <;> rfl
  · have hlt := hcounters c hc
    cases c with
    | calls => rfl
    | inputTokens | outputTokens | cacheWrite1h | latencySumMs | ttftSumMs | decodeMs | decodeOut =>
      exact hint hlt
    | cacheReadTokens | cacheWriteTokens | reasoningTokens =>
      exact (congrArg int (hoption _)).trans (hint hlt)
    | errors =>
      refine hflag ?_
      show (400 : Int) ≤ r.responseStatus ↔ 400 ≤ r.responseStatus
      omega
    | ttftCalls => exact hflag hpos
    | pricedCalls | loops => exact hflag Iff.rfl
    | retriedCalls =>
      refine hflag ?_
      show 0 < (r.attempt : Int) ∧ (r.responseStatus : Int) < 400 ↔ _
      omega
    | decodeN => exact hflag (and_congr hpos hpos)
    | cacheUnknownTokens => exact absurd rfl hc

end RequestLogRecord

open RequestLogRecord

/-! ## An hour -/

variable {records : List RequestLogRecord} {row : RollupRow}

/-- The total of a column over some records. -/
def totalOf (records : List RequestLogRecord) (c : Counter) : Nat := (records.map (·.amount c)).sum

theorem amount_lt_of_totalOf {c : Counter} (h : totalOf records c < 2 ^ 63) {r : RequestLogRecord}
    (hr : r ∈ records) : r.amount c < 2 ^ 63 :=
  (List.le_sum_of_mem (List.mem_map_of_mem hr)).trans_lt h

theorem sum_added_eq {c : Counter} (h : totalOf records c < 2 ^ 63) :
    (records.map (·.added c)).sum = totalOf records c :=
  congrArg List.sum (List.map_congr_left fun _ hr => added_eq (amount_lt_of_totalOf h hr))

/-- A record that counts 2^63 or more adds less. -/
theorem sum_added_lt {c : Counter} {r : RequestLogRecord} (hr : r ∈ records)
    (h : 2 ^ 63 ≤ r.amount c) : (records.map (·.added c)).sum < totalOf records c := by
  refine List.sum_lt_sum _ _ (fun r' _ => ?_) ⟨r, hr, (added_lt r c).trans_le h⟩
  rcases Nat.lt_or_ge (r'.amount c) (2 ^ 63) with hlt | hge
  · exact (added_eq hlt).le
  · exact ((added_lt r' c).trans_le hge).le

theorem counters_foldl_merge (c : Counter) {n : Nat} (h : row.counters c = total n) :
    ((records.map rollupRow).foldl RollupRow.merge row).counters c =
      total (n + (records.map (·.added c)).sum) := by
  induction records generalizing row n with
  | nil => exact h
  | cons r records ih =>
    have hmerge : (row.merge r.rollupRow).counters c = total (n + r.added c) := by
      show toInteger (add (row.counters c) (int (r.counter c))) = _
      rw [h, counter_eq, add_total, toInteger_total]
    rw [List.map_cons, List.foldl_cons, ih hmerge, List.map_cons, List.sum_cons, Nat.add_assoc]

theorem latencyMaxMs_foldl_merge {z : Int} (h : row.latencyMaxMs = int z) :
    ((records.map rollupRow).foldl RollupRow.merge row).latencyMaxMs =
      int ((records.map fun r => toI64 r.latencyMs).foldl (· ⊔ ·) z) := by
  induction records generalizing row z with
  | nil => exact h
  | cons r records ih =>
    have hmerge : (row.merge r.rollupRow).latencyMaxMs = int (z ⊔ toI64 r.latencyMs) := by
      show toInteger (max row.latencyMaxMs (int (toI64 r.latencyMs))) = _
      rw [h, max_ints]
      rfl
    exact ih hmerge

theorem costUsd_foldl_merge {q : ℚ} (h : row.costUsd = real q) :
    ((records.map rollupRow).foldl RollupRow.merge row).costUsd =
      real (q + (records.map fun r => r.costUsd.getD 0).sum) := by
  induction records generalizing row q with
  | nil =>
    show row.costUsd = real (q + 0)
    rw [add_zero]
    exact h
  | cons r records ih =>
    have hmerge : (row.merge r.rollupRow).costUsd = real (q + r.costUsd.getD 0) := by
      show toReal (add row.costUsd (real (r.costUsd.getD 0))) = _
      rw [h]
      rfl
    rw [List.map_cons, List.foldl_cons, ih hmerge, List.map_cons, List.sum_cons, add_assoc]

/-- The row some records make when they come in one by one. -/
def foldedRow (first : RequestLogRecord) (rest : List RequestLogRecord) : RollupRow :=
  (rest.map rollupRow).foldl RollupRow.merge first.rollupRow

variable {first : RequestLogRecord} {rest : List RequestLogRecord}

theorem mergeAll_rollupRow :
    Table.mergeAll RollupRow.merge none ((first :: rest).map rollupRow) = some (foldedRow first rest) :=
  Table.mergeAll_some _ _ _

theorem foldedRow_counters (c : Counter) : (foldedRow first rest).counters c =
    total (((first :: rest).map (·.added c)).sum) := by
  have hfirst : first.rollupRow.counters c = total (first.added c) := by
    rw [total_of_lt (added_lt first c), ← counter_eq]
    rfl
  exact counters_foldl_merge c hfirst

theorem foldedRow_latencyMaxMs : (foldedRow first rest).latencyMaxMs =
    int ((rest.map fun r => toI64 r.latencyMs).foldl (· ⊔ ·) (toI64 first.latencyMs)) :=
  latencyMaxMs_foldl_merge rfl

theorem foldedRow_costUsd : (foldedRow first rest).costUsd =
    real ((first :: rest).map fun r => r.costUsd.getD 0).sum :=
  costUsd_foldl_merge rfl

/-- A column of a group is the one that was added up exactly when its total is below 2^63. -/
theorem aggregate_eq_iff (hplain : ∀ r ∈ records, r.Plain) (c : Counter) :
    aggregate (records.map logRow) c = some (total (records.map (·.added c)).sum) ↔
      totalOf records c < 2 ^ 63 := by
  by_cases hcalls : c = .calls
  · subst hcalls
    have hlength : totalOf records .calls = records.length := by simp [totalOf, amount]
    have hadded : (records.map (·.added .calls)).sum = records.length := by
      simp [added, counter]
    have hcount : aggregate (records.map logRow) .calls = some (int records.length) := by
      simp [aggregate]
    rw [hcount, hadded, hlength]
    constructor
    · intro h
      by_contra hge
      rw [total_of_le (Nat.not_lt.mp hge)] at h
      cases h
    · intro h
      rw [total_of_lt h]
  · have hcells : aggregate (records.map logRow) c =
        (sum ((records.map (·.amount c)).map total)).map toInteger := by
      have hmap : ((records.map logRow).map fun row => row.cell c) =
          (records.map (·.amount c)).map total := by
        rw [List.map_map, List.map_map]
        exact List.map_congr_left fun r hr => cell_logRow (hplain r hr).counters c
      rw [← hmap]
      cases c with
      | calls => exact absurd rfl hcalls
      | _ => rfl
    rw [hcells]
    constructor
    · intro h
      obtain ⟨v, hv, htotal⟩ := Option.map_eq_some_iff.mp h
      obtain ⟨rfl, hlt | ⟨n, hn, hle⟩⟩ := sum_totals hv
      · exact hlt
      · obtain ⟨r, hr, rfl⟩ := List.mem_map.mp hn
        rw [toInteger_total] at htotal
        exact absurd (total_injective htotal) (sum_added_lt hr hle).ne'
    · intro h
      rw [sum_totals_of_lt h, Option.map_some, toInteger_total, sum_added_eq h]
      rfl

/-- The largest latency is the same either way. -/
theorem maximum_latency : maximum (((first :: rest).map logRow).map fun row => int row.latencyMs) =
    some (foldedRow first rest).latencyMaxMs := by
  rw [foldedRow_latencyMaxMs, ← foldl_max_ints, List.map_map, List.map_map]
  rfl

def costOf (records : List RequestLogRecord) : ℚ := (records.map fun r => r.costUsd.getD 0).sum

/-- The costs of some rows have a sum. -/
theorem exists_sum_cost (records : List RequestLogRecord) :
    ∃ v, sum ((records.map logRow).map LogRow.cost) = some v ∧ v.value = costOf records := by
  have hkind : ∀ v ∈ (records.map logRow).map LogRow.cost, v = int 0 ∨ ∃ q, v = real q := by
    intro v hv
    obtain ⟨row, -, rfl⟩ := List.mem_map.mp hv
    unfold LogRow.cost
    cases row.costUsd with
    | none => exact Or.inl rfl
    | some q => exact Or.inr ⟨q, rfl⟩
  obtain ⟨v, hv, hsum⟩ := exists_sum hkind
  have hvalue : ∀ r : RequestLogRecord, r.logRow.cost.value = r.costUsd.getD 0 := by
    intro r
    show (r.costUsd.elim (int 0) real).value = r.costUsd.getD 0
    cases r.costUsd with
    | none => exact Int.cast_zero
    | some q => rfl
  have hvalues : ((records.map logRow).map LogRow.cost).map value =
      records.map fun r => r.costUsd.getD 0 := by
    rw [List.map_map, List.map_map]
    exact List.map_congr_left fun r _ => hvalue r
  rw [hvalues] at hsum
  exact ⟨v, hv, hsum⟩

/-- The costs are the same either way. -/
theorem sum_cost : ∃ v, sum (((first :: rest).map logRow).map LogRow.cost) = some v ∧
    (foldedRow first rest).costUsd = toReal v := by
  obtain ⟨v, hv, hsum⟩ := exists_sum_cost (first :: rest)
  refine ⟨v, hv, ?_⟩
  rw [foldedRow_costUsd, toReal, hsum]
  rfl

/-- A group is selected as it was added up exactly when its totals are below 2^63. -/
theorem selectRow_eq_foldedRow_iff (hplain : ∀ r ∈ first :: rest, r.Plain) :
    selectRow ((first :: rest).map logRow) = some (foldedRow first rest) ↔
      ∀ c, totalOf (first :: rest) c < 2 ^ 63 := by
  rw [selectRow_eq_some_iff]
  constructor
  · rintro ⟨hcounters, -⟩ c
    have hc := hcounters c
    rw [foldedRow_counters] at hc
    exact (aggregate_eq_iff hplain c).mp hc
  · intro h
    refine ⟨fun c => ?_, ⟨_, maximum_latency, ?_⟩, sum_cost⟩
    · rw [foldedRow_counters]
      exact (aggregate_eq_iff hplain c).mpr (h c)
    · rw [foldedRow_latencyMaxMs]
      rfl

/-! ## The storage -/

/-- The records of an hour, provider, model and agent. -/
def ofKey (records : List RequestLogRecord) (key : RollupKey) : List RequestLogRecord :=
  records.filter fun r => r.rollupKey = key

/-- The log holds the rows of some records, and the rollup what they add up to. -/
structure Holds (s : SqliteStorage) (records : List RequestLogRecord) : Prop where
  logs : s.requestLogs.rows = records.map fun r => (r.requestId, r.logRow)
  rollup : ∀ key, s.rollupHourly.find key =
    Table.mergeAll RollupRow.merge none ((ofKey records key).map rollupRow)

theorem holds_empty : Holds .empty [] := ⟨rfl, fun _ => rfl⟩

variable {s : SqliteStorage} {r : RequestLogRecord}

theorem Holds.find_eq_none_iff (h : Holds s records) :
    s.requestLogs.find r.requestId = none ↔ r.requestId ∉ records.map (·.requestId) := by
  rw [Table.find_eq_none_iff, h.logs, List.map_map]
  rfl

theorem Holds.insert (h : Holds s records) (hnew : s.requestLogs.find r.requestId = none) :
    Holds (insertRequestLogRow s r) (records ++ [r]) := by
  obtain ⟨hlogs, hrollup⟩ := insertRequestLogRow_fresh hnew
  refine ⟨?_, fun key => ?_⟩
  · rw [hlogs, h.logs, List.map_append]
    rfl
  · rw [hrollup, Table.find_upsert, h.rollup, h.rollup, ofKey, ofKey, ofKey, List.filter_append,
      List.map_append]
    by_cases hkey : key = r.rollupKey
    · subst hkey
      simp [Table.mergeAll]
    · simp [hkey, Ne.symm hkey]

theorem Holds.insertAll {new : List RequestLogRecord} (h : Holds s records)
    (hids : ((records ++ new).map (·.requestId)).Nodup) :
    Holds (insertRequestLogs s new) (records ++ new) := by
  induction new generalizing s records with
  | nil =>
    rw [List.append_nil]
    exact h
  | cons r new ih =>
    have hsplit : records ++ r :: new = records ++ [r] ++ new := by simp
    rw [hsplit] at hids ⊢
    have hnew : r.requestId ∉ records.map (·.requestId) := by
      rw [List.map_append, List.map_append] at hids
      have hfirst := (List.nodup_append.mp hids).1
      intro hmem
      exact (List.nodup_append.mp hfirst).2.2 _ hmem _ (List.mem_singleton_self _) rfl
    exact ih (h.insert (h.find_eq_none_iff.mpr hnew)) hids

/-- The columns of an hour hold all that is counted in it. -/
def Roomy (records : List RequestLogRecord) : Prop :=
  ∀ key c, totalOf (ofKey records key) c < 2 ^ 63

/-- The rows of a key are those of its records. -/
theorem rows_ofKey (hlogs : s.requestLogs.rows = records.map fun r => (r.requestId, r.logRow))
    (hplain : ∀ r ∈ records, r.Plain) (key : RollupKey) :
    (s.requestLogs.rows.map Prod.snd).filter (fun row => row.groupKey = key) =
      (ofKey records key).map logRow := by
  rw [hlogs, List.map_map, ofKey]
  show ((records.map logRow).filter fun row => row.groupKey = key) = _
  rw [List.filter_map]
  congr 1
  refine List.filter_congr fun r hr => ?_
  simp only [Function.comp_apply, (hplain r hr).groupKey_logRow]

/-- What a key has in the log and what it has in the rollup agree exactly when its totals fit. -/
theorem Holds.key_iff (h : Holds s records) (hplain : ∀ r ∈ records, r.Plain) (key : RollupKey) :
    ((Table.groups LogRow.groupKey (s.requestLogs.rows.map Prod.snd)).find key).map selectRow =
      (s.rollupHourly.find key).map some ↔ ∀ c, totalOf (ofKey records key) c < 2 ^ 63 := by
  have hof : ∀ r ∈ ofKey records key, r.Plain := fun r hr => hplain r (List.mem_of_mem_filter hr)
  rw [Table.find_groups, rows_ofKey h.logs hplain, h.rollup]
  generalize ofKey records key = group at hof ⊢
  cases group with
  | nil =>
    refine iff_of_true rfl fun c => ?_
    show 0 < 2 ^ 63
    decide
  | cons first rest =>
    rw [if_neg (by simp)]
    rw [← selectRow_eq_foldedRow_iff hof]
    rw [mergeAll_rollupRow]
    exact Option.some_inj

/-- The log rebuilds to the rollup exactly when all totals fit. -/
theorem Holds.rebuilds_iff (h : Holds s records) (hplain : ∀ r ∈ records, r.Plain) :
    (∃ s' n, rebuildRollup s = some (s', n) ∧ s'.rollupHourly.Same s.rollupHourly) ↔
      Roomy records := by
  rw [exists_rebuildRollup_iff]
  exact forall_congr' (h.key_iff hplain)

/-- After any batches of records with different ids, the rollup is the one the log rebuilds to exactly
when the totals of every hour fit in 64 bits. -/
theorem rebuilt_iff (batches : List (List RequestLogRecord))
    (hids : (batches.flatten.map (·.requestId)).Nodup) (hplain : ∀ r ∈ batches.flatten, r.Plain) :
    (∃ s' n, rebuildRollup (batches.foldl insertRequestLogs .empty) = some (s', n) ∧
      s'.rollupHourly.Same (batches.foldl insertRequestLogs .empty).rollupHourly) ↔
      ∀ key c, totalOf (ofKey batches.flatten key) c < 2 ^ 63 := by
  have hflat : batches.foldl insertRequestLogs .empty = insertRequestLogs .empty batches.flatten := by
    unfold insertRequestLogs
    rw [List.foldl_flatten]
  rw [hflat]
  exact (holds_empty.insertAll (by rwa [List.nil_append])).rebuilds_iff hplain

/-- A call that reports its prompt as 2^62 tokens, and as many again read from the cache. -/
def huge : RequestLogRecord where
  requestId := "a"
  timestamp := "2026-07-16T13:45:12.500+00:00"
  cacheUnknown := true
  provider := "p"
  clientModel := "m"
  responseStatus := 200
  latencyMs := 1
  usage := { inputTokens := 2 ^ 62, cacheReadTokens := some (2 ^ 62) }

/-- A call of no tokens, in the next hour. -/
def idle : RequestLogRecord where
  requestId := "b"
  timestamp := "2026-07-16T14:00:00+00:00"
  provider := "p"
  clientModel := "m"
  responseStatus := 200
  latencyMs := 1

theorem huge_plain : huge.Plain := by
  refine ⟨by decide +kernel, by simp [huge], fun c hc => ?_⟩
  cases c with
  | cacheUnknownTokens => exact absurd rfl hc
  | _ => decide +kernel

theorem idle_plain : idle.Plain := by
  refine ⟨by decide +kernel, by simp [idle], fun c hc => ?_⟩
  cases c with
  | cacheUnknownTokens => exact absurd rfl hc
  | _ => decide +kernel

/-- Its prompt is 2^63 - 1 in the rollup, and 2^63 in the rebuilt one. -/
theorem huge_rebuilt_differs : ([[huge]].flatten.map (·.requestId)).Nodup ∧
    (∀ r ∈ [[huge]].flatten, r.Plain) ∧
    ¬ ∃ s' n, rebuildRollup ([[huge]].foldl insertRequestLogs .empty) = some (s', n) ∧
      s'.rollupHourly.Same ([[huge]].foldl insertRequestLogs .empty).rollupHourly := by
  refine ⟨by decide, fun r hr => ?_, ?_⟩
  · obtain rfl : r = huge := by simpa using hr
    exact huge_plain
  · rintro ⟨s', n, h, hsame⟩
    have hrebuilt : (rebuildRollup ([[huge]].foldl insertRequestLogs .empty)).map (fun p =>
        (p.1.rollupHourly.find huge.rollupKey).map (·.counters .cacheUnknownTokens)) =
        some (some (real (2 ^ 63))) := by decide +kernel
    have hadded : (([[huge]].foldl insertRequestLogs .empty).rollupHourly.find huge.rollupKey).map
        (·.counters .cacheUnknownTokens) = some (int (2 ^ 63 - 1)) := by decide +kernel
    rw [h, Option.map_some, Table.same_iff.mp hsame, hadded] at hrebuilt
    cases hrebuilt

theorem rebuilt_iff_two :
    (∃ s' n, rebuildRollup ([[idle], [huge]].foldl insertRequestLogs .empty) = some (s', n) ∧
      s'.rollupHourly.Same ([[idle], [huge]].foldl insertRequestLogs .empty).rollupHourly) ↔
      ∀ key c, totalOf (ofKey [idle, huge] key) c < 2 ^ 63 := by
  refine rebuilt_iff [[idle], [huge]] (by decide) fun r hr => ?_
  obtain rfl | rfl : r = idle ∨ r = huge := by simpa using hr
  · exact idle_plain
  · exact huge_plain

end AnyConverter.Storage
