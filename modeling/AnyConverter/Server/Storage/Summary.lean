import AnyConverter.Server.Storage.Query
import Mathlib.Data.List.Sort

/-!
# The usage summary

One grouped query fills the totals, the points of the series and the groups by provider, model and
agent.  A second one splits the points by a dimension, and two more, over the log, rank the accounts and
the sessions.
-/

set_option autoImplicit false

namespace AnyConverter.Storage

open Sqlite Sqlite.Numeric

/-! ## Queries -/

inductive SplitDim where
  | provider | agent | model | account
  deriving DecidableEq

namespace SplitDim

def rollupColumn : SplitDim → Option (RollupKey → String)
  | provider => some RollupKey.provider
  | agent => some RollupKey.agent
  | model => some RollupKey.clientModel
  | account => none

/-- The column of that name in the log, which has none that is called `agent`. -/
def logColumn : SplitDim → Option (LogRow → String)
  | provider => some LogRow.provider
  | model => some LogRow.clientModel
  | agent | account => none

end SplitDim

structure SummaryQuery extends UsageQuery where
  splitBy : Option SplitDim := none

/-- The rows that pass all filters but that of the account. -/
def UsageQuery.keepsCall (q : UsageQuery) (row : LogRow) : Bool :=
  within q.fromBound q.toBound row.timestamp && equals q.provider row.provider &&
    equals q.model row.clientModel && equals q.agent (row.clientId.getD "")

/-! ## Summaries -/

structure Bucket where
  label : String
  timestamp : String
  totals : Totals
  byValue : Option (List (String × Totals))

structure Group where
  id : String
  provider : Option String
  model : Option String
  totals : Totals

structure UsageSummary where
  fromBound : String
  toBound : String
  granularity : Granularity
  totals : Totals
  series : List Bucket
  byProvider : List Group
  byModel : List Group
  byAgent : List Group
  byAccount : List Group
  bySession : List Group

/-- A map's entries in the order of its keys. -/
def sortedEntries {α : Type} (entries : List (String × α)) : List (String × α) :=
  entries.insertionSort fun a b => a.1 ≤ b.1

/-! ## The grouped query -/

/-- A count of calls is read as a `u64`, which no negative number is. -/
def readCalls (rows : List RollupRow) : Option Nat := do
  match ← sum (rows.map (·.counters .calls)) with
  | int z => if 0 ≤ z then some z.toNat else none
  | real _ => none

def readSummaryRow (rows : List RollupRow) : Option Totals :=
  (readCalls rows).bind fun _ => readRollup rows

structure GroupTotals where
  provider : Option String
  model : Option String
  totals : Totals

namespace GroupTotals

def addTotals (group : GroupTotals) (row : Totals) : GroupTotals :=
  { group with totals := group.totals.add row }

/-- A model served by several providers has no provider to name. -/
def addModel (group : GroupTotals) (provider : String) (row : Totals) : GroupTotals :=
  { group with
    provider := if group.provider = some provider then group.provider else none
    totals := group.totals.add row }

end GroupTotals

structure SummaryState where
  totals : Totals := {}
  series : Table String Totals := .empty
  byProvider : Table String GroupTotals := .empty
  byModel : Table String GroupTotals := .empty
  byAgent : Table String GroupTotals := .empty

namespace SummaryState

/-- What `fold_summary_row` adds for a row that is read. -/
def addRow (st : SummaryState) (bucket : String) (key : SummaryKey) (row : Totals) : SummaryState where
  totals := st.totals.add row
  series := st.series.upsert bucket (Totals.add {} row) (·.add row)
  byProvider := st.byProvider.upsert key.provider ⟨some key.provider, none, Totals.add {} row⟩
    (·.addTotals row)
  byModel := st.byModel.upsert key.clientModel
    ⟨some key.provider, some key.clientModel, Totals.add {} row⟩ (·.addModel key.provider row)
  byAgent := st.byAgent.upsert key.agent ⟨none, none, Totals.add {} row⟩ (·.addTotals row)

/-- `fold_summary_row` -/
def foldRow {α : Type} (read : List α → Option Totals) (st : SummaryState)
    (group : SummaryKey × List α) : Option SummaryState := do
  let bucket ← group.1.bucket
  let row ← read group.2
  return st.addRow bucket group.1 row

end SummaryState

def groupOf (entry : String × GroupTotals) : Group :=
  ⟨entry.1, entry.2.provider, entry.2.model, entry.2.totals⟩

/-- Busiest groups first. -/
def sortedGroups (groups : Table String GroupTotals) : List Group :=
  (groups.rows.map groupOf).insertionSort fun a b =>
    b.totals.calls < a.totals.calls ∨ a.totals.calls = b.totals.calls ∧ a.id ≤ b.id

variable (dateWeek : String → Option String)

/-- The rows of the rollup a query keeps. -/
def keptHours (s : SqliteStorage) (q : UsageQuery) : List (RollupKey × RollupRow) :=
  s.rollupHourly.rows.filter fun row => q.keepsHour row.1

/-- The rows of the log a query keeps. -/
def keptRows (s : SqliteStorage) (q : UsageQuery) : List LogRow :=
  (s.requestLogs.rows.map Prod.snd).filter q.keepsRow

def summaryState (s : SqliteStorage) (q : UsageQuery) : Option SummaryState :=
  if q.account.isSome then
    (Table.groups (rowGroup dateWeek q.granularity) (keptRows s q)).rows.foldlM
      (SummaryState.foldRow readLog) {}
  else
    (Table.groups (fun row => hourGroup dateWeek q.granularity row.1) (keptHours s q)).rows.foldlM
      (SummaryState.foldRow fun group => readSummaryRow (group.map Prod.snd)) {}

/-! ## The split -/

/-- How many values a point keeps. -/
def seriesKeep : Nat := 24

/-- The columns `ROLLUP_AGGREGATES` sums. -/
def rollupColumns : List Counter :=
  [.errors, .inputTokens, .outputTokens, .cacheReadTokens, .cacheWriteTokens, .cacheWrite1h,
    .cacheUnknownTokens, .reasoningTokens, .latencySumMs, .ttftSumMs, .ttftCalls, .pricedCalls,
    .retriedCalls, .loops]

/-- A row of the split, from the rows of the rollup in its group. -/
def readSplitRow (rows : List RollupRow) : Option Totals := do
  let calls ← readCalls rows
  let counts ← sumColumns rollupColumns fun c => rows.map (·.counters c)
  let latencyMax ← readMaximum (rows.map (·.latencyMaxMs))
  let cost ← sum (rows.map (·.costUsd))
  return Totals.ofCounts counts latencyMax cost.value calls

structure SplitState where
  split : Table String (Table String Totals) := .empty
  weight : Table String Nat := .empty

namespace SplitState

def addRow (st : SplitState) (value bucket : String) (row : Totals) : SplitState where
  split := st.split.upsert bucket (Table.empty.upsert value (Totals.add {} row) (·.add row))
    (·.upsert value (Totals.add {} row) (·.add row))
  weight := st.weight.upsert value (0 + (row.inputTokens + row.outputTokens))
    (· + (row.inputTokens + row.outputTokens))

/-- A value with no name stays in the totals of its point. -/
def foldRow {α : Type} (read : List α → Option Totals) (st : SplitState)
    (group : (String × Option String) × List α) : Option SplitState :=
  if group.1.1 = "" then some st
  else do
    let bucket ← group.1.2
    let row ← read group.2
    return st.addRow group.1.1 bucket row

/-- The values with the most tokens. -/
def kept (st : SplitState) : List String :=
  ((st.weight.rows.insertionSort fun a b => b.2 < a.2 ∨ a.2 = b.2 ∧ a.1 ≤ b.1).take
    seriesKeep).map Prod.fst

/-- The values that are kept, at the points that have any. -/
def retain (st : SplitState) : Option (Table String (Table String Totals)) :=
  if st.kept = [] then none
  else some (st.split.filterMapRows fun _ values =>
    let values := values.deleteWhere fun value _ => !st.kept.contains value
    if values.rows = [] then none else some values)

end SplitState

/-- `series_split`; nothing where there is an error, and no split where the rollup has no such column. -/
def seriesSplit (s : SqliteStorage) (q : UsageQuery) (dim : SplitDim) :
    Option (Option (Table String (Table String Totals))) :=
  match dim.rollupColumn with
  | none => some none
  | some column =>
    if q.account.isSome then
      match dim.logColumn with
      | none => none
      | some column =>
        ((Table.groups (fun row => (column row, q.granularity.bucketExpr dateWeek row.timestamp))
          (keptRows s q)).rows.foldlM (SplitState.foldRow readLedger) {}).map SplitState.retain
    else
      ((Table.groups (fun row => (column row.1, q.granularity.bucketExpr dateWeek row.1.bucket))
        (keptHours s q)).rows.foldlM
          (SplitState.foldRow fun group => readSplitRow (group.map Prod.snd)) {}).map SplitState.retain

/-! ## Accounts and sessions -/

/-- How many groups of a dimension are listed. -/
def maxDimensionRows : Nat := 50

/-- The sums of a group, none of which is an error. -/
def summed (rows : List LogRow) : Bool :=
  (totalsColumns.all fun c => (sum (rows.map (·.cell c))).isSome) && (sum (rows.map LogRow.cost)).isSome

/-- `sum(input_tokens + output_tokens)` -/
def tokensOf (rows : List LogRow) : Option Numeric :=
  sum (rows.map fun row => add (int row.inputTokens) (int row.outputTokens))

/-- A group with its rank, where none of its sums is an error. -/
def rankGroup (group : (String × String) × List LogRow) :
    Option (((String × String) × List LogRow) × Numeric) :=
  if summed group.2 then (tokensOf group.2).map (group, ·) else none

/-- `order by … desc, 1 asc, 2 asc` -/
def RankedBefore (a b : ((String × String) × List LogRow) × Numeric) : Prop :=
  b.2.value < a.2.value ∨ a.2.value = b.2.value ∧
    (a.1.1.1 < b.1.1.1 ∨ a.1.1.1 = b.1.1.1 ∧ a.1.1.2 ≤ b.1.1.2)

instance : DecidableRel RankedBefore := fun a b => by
  unfold RankedBefore
  infer_instance

/-- The groups with the most tokens. -/
def dimensionGroups (key : LogRow → String × String) (rows : List LogRow) :
    Option (List ((String × String) × Totals)) := do
  let ranked ← (Table.groups key rows).rows.mapM rankGroup
  ((ranked.insertionSort RankedBefore).take maxDimensionRows).mapM fun group =>
    (readLedger group.1.2).map (group.1.1, ·)

def accountGroups (s : SqliteStorage) (q : UsageQuery) : Option (List Group) :=
  (dimensionGroups (fun row => (row.providerAccount.getD "", row.provider))
    ((s.requestLogs.rows.map Prod.snd).filter fun row => q.keepsCall row &&
      row.providerAccount.any (· ≠ "") && named q.account row.providerAccount)).map fun groups =>
        groups.map fun ((account, provider), totals) => ⟨account, some provider, none, totals⟩

def sessionGroups (s : SqliteStorage) (q : UsageQuery) : Option (List Group) :=
  (dimensionGroups (fun row => (row.sessionId.getD "", row.clientId.getD ""))
    ((s.requestLogs.rows.map Prod.snd).filter fun row => q.keepsCall row &&
      row.sessionId.any (· ≠ ""))).map fun groups =>
        groups.map fun ((session, agent), totals) => ⟨session, none, some agent, totals⟩

/-! ## The whole -/

/-- A point of the series; one without a kept value has an empty split. -/
def bucketOf (split : Option (Table String (Table String Totals))) (point : String × Totals) : Bucket where
  label := point.1
  timestamp := point.1
  totals := point.2
  byValue := split.map fun split => (split.find point.1).elim [] fun values => sortedEntries values.rows

/-- Only a query that asks for a split pays for it. -/
def querySplit (s : SqliteStorage) (q : SummaryQuery) :
    Option (Option (Table String (Table String Totals))) :=
  match q.splitBy with
  | some dim => seriesSplit dateWeek s q.toUsageQuery dim
  | none => some none

def usageSummary (s : SqliteStorage) (q : SummaryQuery) : Option UsageSummary := do
  let st ← summaryState dateWeek s q.toUsageQuery
  let split ← querySplit dateWeek s q
  let byAccount ← accountGroups s q.toUsageQuery
  let bySession ← sessionGroups s q.toUsageQuery
  return {
    fromBound := q.fromBound
    toBound := q.toBound
    granularity := q.granularity
    totals := st.totals
    series := (sortedEntries st.series.rows).map (bucketOf split)
    byProvider := sortedGroups st.byProvider
    byModel := sortedGroups st.byModel
    byAgent := sortedGroups st.byAgent
    byAccount := byAccount
    bySession := bySession }

end AnyConverter.Storage
