import AnyConverter.Server.Storage.Maintenance

/-!
# Totals

The usage view totals the rollup, hour by hour, or the log where an account is asked for; the ledger
totals the rows of the log that its filter keeps.
-/

set_option autoImplicit false

namespace AnyConverter.Storage

open Sqlite Sqlite.Numeric

/-! ## Queries -/

inductive Granularity where
  | hour | day | week | month
  deriving DecidableEq

/-- The bucket of a time: `date(column,'weekday 1','-7 days')` is a parameter, none where it is null. -/
def Granularity.bucketExpr (dateWeek : String → Option String) (time : String) :
    Granularity → Option String
  | .hour => some (String.ofList (time.toList.take 13) ++ ":00:00Z")
  | .day => some (String.ofList (time.toList.take 10))
  | .week => dateWeek time
  | .month => some (String.ofList (time.toList.take 7))

/-- The hour of a time; one that cannot be cut after 13 bytes stays. -/
def hourFloor (ts : String) : String :=
  match Text.getTo 13 ts.toList with
  | some start => String.ofList start ++ ":00:00Z"
  | none => ts

structure UsageQuery where
  fromBound : String
  toBound : String
  granularity : Granularity := .hour
  provider : Option String := none
  model : Option String := none
  agent : Option String := none
  account : Option String := none

structure LedgerFilter where
  fromBound : String
  toBound : String
  day : Option String := none
  provider : Option String := none
  model : Option String := none
  agent : Option String := none
  account : Option String := none
  failed : Bool := false
  retried : Bool := false
  query : Option String := none

/-! ## Totals -/

@[ext] structure Totals where
  calls : Nat := 0
  errors : Nat := 0
  inputTokens : Nat := 0
  outputTokens : Nat := 0
  cacheReadTokens : Nat := 0
  cacheWriteTokens : Nat := 0
  cacheWrite1h : Nat := 0
  cacheUnknownTokens : Nat := 0
  reasoningTokens : Nat := 0
  latencySumMs : Nat := 0
  latencyMaxMs : Nat := 0
  ttftSumMs : Nat := 0
  ttftCalls : Nat := 0
  costUsd : ℚ := 0
  unpriced : Nat := 0
  retried : Nat := 0
  loops : Nat := 0
  decodeMs : Nat := 0
  decodeOut : Nat := 0
  decodeN : Nat := 0
  deriving DecidableEq

namespace Totals

/-- `add_totals` -/
def add (a b : Totals) : Totals where
  calls := a.calls + b.calls
  errors := a.errors + b.errors
  inputTokens := a.inputTokens + b.inputTokens
  outputTokens := a.outputTokens + b.outputTokens
  cacheReadTokens := a.cacheReadTokens + b.cacheReadTokens
  cacheWriteTokens := a.cacheWriteTokens + b.cacheWriteTokens
  cacheWrite1h := a.cacheWrite1h + b.cacheWrite1h
  cacheUnknownTokens := a.cacheUnknownTokens + b.cacheUnknownTokens
  reasoningTokens := a.reasoningTokens + b.reasoningTokens
  latencySumMs := a.latencySumMs + b.latencySumMs
  latencyMaxMs := a.latencyMaxMs ⊔ b.latencyMaxMs
  ttftSumMs := a.ttftSumMs + b.ttftSumMs
  ttftCalls := a.ttftCalls + b.ttftCalls
  costUsd := a.costUsd + b.costUsd
  unpriced := a.unpriced + b.unpriced
  retried := a.retried + b.retried
  loops := a.loops + b.loops
  decodeMs := a.decodeMs + b.decodeMs
  decodeOut := a.decodeOut + b.decodeOut
  decodeN := a.decodeN + b.decodeN

instance : Zero Totals := ⟨{}⟩

instance : Add Totals := ⟨add⟩

instance : AddCommMonoid Totals where
  add_assoc a b c := by
    apply Totals.ext
    case latencyMaxMs => exact sup_assoc _ _ _
    all_goals exact add_assoc _ _ _
  zero_add a := by
    apply Totals.ext
    case latencyMaxMs => exact Nat.zero_max _
    all_goals exact zero_add _
  add_zero a := by
    apply Totals.ext
    case latencyMaxMs => exact Nat.max_zero _
    all_goals exact add_zero _
  add_comm a b := by
    apply Totals.ext
    case latencyMaxMs => exact sup_comm _ _
    all_goals exact add_comm _ _
  nsmul := nsmulRec

/-- `totals_at`: totals without a speed. -/
def ofCounts (counts : Counter → Nat) (latencyMax : Nat) (cost : ℚ) (calls : Nat) : Totals where
  calls := calls
  errors := counts .errors
  inputTokens := counts .inputTokens
  outputTokens := counts .outputTokens
  cacheReadTokens := counts .cacheReadTokens
  cacheWriteTokens := counts .cacheWriteTokens
  cacheWrite1h := counts .cacheWrite1h
  cacheUnknownTokens := counts .cacheUnknownTokens
  reasoningTokens := counts .reasoningTokens
  latencySumMs := counts .latencySumMs
  latencyMaxMs := latencyMax
  ttftSumMs := counts .ttftSumMs
  ttftCalls := counts .ttftCalls
  costUsd := cost
  unpriced := calls - counts .pricedCalls
  retried := counts .retriedCalls
  loops := counts .loops

/-- The totals with the speed the usage view adds. -/
def withSpeed (t : Totals) (counts : Counter → Nat) : Totals :=
  { t with decodeMs := counts .decodeMs, decodeOut := counts .decodeOut, decodeN := counts .decodeN }

def withoutSpeed (t : Totals) : Totals := { t with decodeMs := 0, decodeOut := 0, decodeN := 0 }

end Totals

/-! ## Reading totals -/

/-- `u64_column`: a count; a real is no integer to read. -/
def u64Column : Numeric → Option Nat
  | int z => some z.toNat
  | real _ => none

/-- The counts of some columns, each summed; `sum` and `max` over no rows are read as 0. -/
def sumColumns (columns : List Counter) (cells : Counter → List Numeric) : Option (Counter → Nat) :=
  if ∀ c ∈ columns, ((sum (cells c)).bind u64Column).isSome then
    some fun c => ((sum (cells c)).bind u64Column).getD 0
  else none

def readMaximum (vs : List Numeric) : Option Nat := (maximum vs).elim (some 0) u64Column

/-- A row of the usage view, from the rows of the rollup in its group. -/
def readRollup (rows : List RollupRow) : Option Totals := do
  let counts ← sumColumns Counter.all fun c => rows.map (·.counters c)
  let latencyMax ← readMaximum (rows.map (·.latencyMaxMs))
  let cost ← sum (rows.map (·.costUsd))
  return (Totals.ofCounts counts latencyMax cost.value (counts .calls)).withSpeed counts

/-- The columns `TOTALS_AGGREGATES` sums. -/
def totalsColumns : List Counter :=
  [.errors, .inputTokens, .outputTokens, .cacheReadTokens, .cacheWriteTokens, .cacheWrite1h,
    .cacheUnknownTokens, .reasoningTokens, .latencySumMs, .ttftSumMs, .ttftCalls, .retriedCalls,
    .loops]

/-- The counts of `TOTALS_AGGREGATES` and more columns, with `count(cost_usd)`. -/
def logCounts (more : List Counter) (rows : List LogRow) : Option (Counter → Nat) :=
  (sumColumns (totalsColumns ++ more) fun c => rows.map (·.cell c)).map fun counts =>
    Function.update counts .pricedCalls (rows.countP (·.costUsd.isSome))

/-- A row of the usage view, from the rows of the log in its group. -/
def readLog (rows : List LogRow) : Option Totals := do
  let counts ← logCounts [.decodeMs, .decodeOut, .decodeN] rows
  let latencyMax ← readMaximum (rows.map fun row => int row.latencyMs)
  let cost ← sum (rows.map LogRow.cost)
  return (Totals.ofCounts counts latencyMax cost.value rows.length).withSpeed counts

/-- The totals of the ledger. -/
def readLedger (rows : List LogRow) : Option Totals := do
  let counts ← logCounts [] rows
  let latencyMax ← readMaximum (rows.map fun row => int row.latencyMs)
  let cost ← sum (rows.map LogRow.cost)
  return Totals.ofCounts counts latencyMax cost.value rows.length

/-! ## The two views -/

/-- `?1 is null or column = ?1` -/
def equals (wanted : Option String) (value : String) : Bool := wanted.all fun w => value = w

/-- `column = ?`, where the filter names a value; a null is equal to none. -/
def named (wanted value : Option String) : Bool := wanted.all fun w => value = some w

/-- `time >= low and time < high` -/
def within (low high time : String) : Bool := !(time < low) && time < high

def UsageQuery.keepsHour (q : UsageQuery) (key : RollupKey) : Bool :=
  within (hourFloor q.fromBound) q.toBound key.bucket && equals q.provider key.provider &&
    equals q.model key.clientModel && equals q.agent key.agent

def UsageQuery.keepsRow (q : UsageQuery) (row : LogRow) : Bool :=
  within q.fromBound q.toBound row.timestamp && equals q.provider row.provider &&
    equals q.model row.clientModel && equals q.agent (row.clientId.getD "") &&
    named q.account row.providerAccount

/-- A group of the usage view, with its bucket. -/
structure SummaryKey where
  bucket : Option String
  provider : String
  clientModel : String
  agent : String
  deriving DecidableEq

/-- `fold_summary_row`, what it does to the totals: a bucket that is null cannot be read. -/
def foldSummaryRow {α : Type} (read : List α → Option Totals) (totals : Totals)
    (group : SummaryKey × List α) : Option Totals := do
  let _ ← group.1.bucket
  let row ← read group.2
  return totals.add row

variable (dateWeek : String → Option String)

/-- The group of an hour. -/
def hourGroup (g : Granularity) (key : RollupKey) : SummaryKey :=
  ⟨g.bucketExpr dateWeek key.bucket, key.provider, key.clientModel, key.agent⟩

/-- The group of a row of the log. -/
def rowGroup (g : Granularity) (row : LogRow) : SummaryKey :=
  ⟨g.bucketExpr dateWeek row.timestamp, row.provider, row.clientModel, row.clientId.getD ""⟩

/-- The totals of `usage_summary`. -/
def usageTotals (s : SqliteStorage) (q : UsageQuery) : Option Totals :=
  if q.account.isSome then
    let rows := (s.requestLogs.rows.map Prod.snd).filter q.keepsRow
    (Table.groups (rowGroup dateWeek q.granularity) rows).rows.foldlM (foldSummaryRow readLog) {}
  else
    let rows := s.rollupHourly.rows.filter fun row => q.keepsHour row.1
    (Table.groups (fun row => hourGroup dateWeek q.granularity row.1) rows).rows.foldlM
      (foldSummaryRow fun group => readRollup (group.map Prod.snd)) {}

variable (search : String → LogRow → Bool)

/-- `where_clause`; the four `like`s of a text are a parameter. -/
def LedgerFilter.keeps (f : LedgerFilter) (row : LogRow) : Bool :=
  within f.fromBound f.toBound row.timestamp &&
    (f.day.all fun day => String.ofList (row.timestamp.toList.take 10) = day) &&
    equals f.provider row.provider && equals f.model row.clientModel && named f.agent row.clientId &&
    named f.account row.providerAccount && (!f.failed || 400 ≤ row.responseStatus) &&
    (!f.retried || 0 < row.attempt) && f.query.all (search · row)

/-- The totals of `ledger_page`. -/
def ledgerTotals (s : SqliteStorage) (f : LedgerFilter) : Option Totals :=
  readLedger ((s.requestLogs.rows.map Prod.snd).filter (f.keeps search))

/-- The ledger's filter of a range, a provider, a model and an agent. -/
def UsageQuery.ledgerFilter (q : UsageQuery) : LedgerFilter where
  fromBound := q.fromBound
  toBound := q.toBound
  provider := q.provider
  model := q.model
  agent := q.agent
  account := q.account

end AnyConverter.Storage
