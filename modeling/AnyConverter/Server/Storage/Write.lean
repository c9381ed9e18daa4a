import AnyConverter.Ir
import AnyConverter.Lib.Sqlite
import AnyConverter.Lib.Table
import AnyConverter.Lib.Text

/-!
# Writing the request log

A record goes into three tables: a narrow row in `request_logs`, its body in `request_bodies`, and
what it adds to its hour in `rollup_hourly`.  A record whose `request_id` is there already refreshes
its row and its body, and adds nothing to the hour.

* `insertRequestLogRow_fresh`, `insertRequestLogRow_replay`: what one record changes.
-/

set_option autoImplicit false

namespace AnyConverter.Storage

open Sqlite Sqlite.Numeric

/-! ## Records -/

structure RequestLogRecord where
  requestId : String
  timestamp : String
  clientId : Option String := none
  sessionId : Option String := none
  providerAccount : Option String := none
  servedModel : Option String := none
  ttftMs : Nat := 0
  cacheUnknown : Bool := false
  costUsd : Option ℚ := none
  decodeMs : Nat := 0
  decodeOut : Nat := 0
  attempt : Nat := 0
  errType : Option String := none
  provider : String
  clientModel : String
  upstreamModel : String := ""
  streaming : Bool := false
  responseStatus : Nat
  latencyMs : Nat
  usage : Usage := {}

/-! ## Tables -/

/-- A row of `request_logs`, by its `request_id`. -/
structure LogRow where
  timestamp : String
  provider : String
  clientModel : String
  upstreamModel : String
  streaming : Bool
  responseStatus : Int
  latencyMs : Int
  inputTokens : Int
  outputTokens : Int
  cacheReadTokens : Option Int
  cacheWriteTokens : Option Int
  reasoningTokens : Option Int
  clientId : Option String
  sessionId : Option String
  providerAccount : Option String
  servedModel : Option String
  ttftMs : Int
  cacheUnknown : Int
  cacheWrite1h : Int
  decodeMs : Int
  decodeOut : Int
  costUsd : Option ℚ
  attempt : Int
  errType : Option String
  deriving DecidableEq

/-- A row of `request_bodies`: the age of a body. -/
structure BodyRow where
  timestamp : Option String

structure RollupKey where
  bucket : String
  provider : String
  clientModel : String
  agent : String
  deriving DecidableEq

/-- The columns of `rollup_hourly` that count up. -/
inductive Counter where
  | calls | errors
  | inputTokens | outputTokens
  | cacheReadTokens | cacheWriteTokens | cacheWrite1h
  | cacheUnknownTokens | reasoningTokens
  | latencySumMs | ttftSumMs | ttftCalls
  | pricedCalls | retriedCalls | loops
  | decodeMs | decodeOut | decodeN
  deriving DecidableEq

def Counter.all : List Counter :=
  [calls, errors, inputTokens, outputTokens, cacheReadTokens, cacheWriteTokens, cacheWrite1h,
    cacheUnknownTokens, reasoningTokens, latencySumMs, ttftSumMs, ttftCalls, pricedCalls,
    retriedCalls, loops, decodeMs, decodeOut, decodeN]

theorem Counter.mem_all (c : Counter) : c ∈ all := by
  cases c <;> decide

/-- A row of `rollup_hourly`. -/
@[ext] structure RollupRow where
  counters : Counter → Numeric
  latencyMaxMs : Numeric
  costUsd : Numeric

structure SqliteStorage where
  requestLogs : Table String LogRow
  requestBodies : Table String BodyRow
  rollupHourly : Table RollupKey RollupRow

def SqliteStorage.empty : SqliteStorage := ⟨.empty, .empty, .empty⟩

/-! ## One record -/

/-- A `u64` as an `i64`, at most its largest. -/
def toI64 (value : Nat) : Int := if value < 2 ^ 63 then value else 2 ^ 63 - 1

namespace RequestLogRecord

/-- The row of a record. -/
def logRow (r : RequestLogRecord) : LogRow where
  timestamp := r.timestamp
  provider := r.provider
  clientModel := r.clientModel
  upstreamModel := r.upstreamModel
  streaming := r.streaming
  responseStatus := r.responseStatus
  latencyMs := toI64 r.latencyMs
  inputTokens := toI64 r.usage.inputTokens
  outputTokens := toI64 r.usage.outputTokens
  cacheReadTokens := r.usage.cacheReadTokens.map toI64
  cacheWriteTokens := r.usage.cacheWriteTokens.map toI64
  reasoningTokens := r.usage.reasoningTokens.map toI64
  clientId := r.clientId
  sessionId := r.sessionId
  providerAccount := r.providerAccount
  servedModel := r.servedModel
  ttftMs := toI64 r.ttftMs
  cacheUnknown := if r.cacheUnknown then 1 else 0
  cacheWrite1h := toI64 (r.usage.cacheWrite1h.getD 0)
  decodeMs := toI64 r.decodeMs
  decodeOut := toI64 r.decodeOut
  costUsd := r.costUsd
  attempt := r.attempt
  errType := r.errType

/-- The hour of a record; a timestamp that cannot be cut after 13 bytes is an hour of its own. -/
def bucket (r : RequestLogRecord) : String :=
  match Text.getTo 13 r.timestamp.toList with
  | some start => String.ofList start ++ ":00:00Z"
  | none => r.timestamp

def rollupKey (r : RequestLogRecord) : RollupKey :=
  ⟨r.bucket, r.provider, r.clientModel, r.clientId.getD ""⟩

/-- The tokens of a prompt that reports no caching, added as `u64`s. -/
def cacheUnknownTokens (r : RequestLogRecord) : Nat :=
  if r.cacheUnknown then
    (r.usage.inputTokens + r.usage.cacheReadTokens.getD 0 + r.usage.cacheWriteTokens.getD 0) % 2 ^ 64
  else 0

/-- What a record adds to a column. -/
def counter (r : RequestLogRecord) : Counter → Int
  | .calls => 1
  | .errors => if 400 ≤ r.responseStatus then 1 else 0
  | .inputTokens => toI64 r.usage.inputTokens
  | .outputTokens => toI64 r.usage.outputTokens
  | .cacheReadTokens => toI64 (r.usage.cacheReadTokens.getD 0)
  | .cacheWriteTokens => toI64 (r.usage.cacheWriteTokens.getD 0)
  | .cacheWrite1h => toI64 (r.usage.cacheWrite1h.getD 0)
  | .cacheUnknownTokens => toI64 r.cacheUnknownTokens
  | .reasoningTokens => toI64 (r.usage.reasoningTokens.getD 0)
  | .latencySumMs => toI64 r.latencyMs
  | .ttftSumMs => toI64 r.ttftMs
  | .ttftCalls => if 0 < r.ttftMs then 1 else 0
  | .pricedCalls => if r.costUsd.isSome then 1 else 0
  | .retriedCalls => if 0 < r.attempt ∧ r.responseStatus < 400 then 1 else 0
  | .loops => if r.errType = some "loop" then 1 else 0
  | .decodeMs => toI64 r.decodeMs
  | .decodeOut => toI64 r.decodeOut
  | .decodeN => if 0 < r.decodeOut ∧ 0 < r.decodeMs then 1 else 0

/-- The row of a record alone in its hour. -/
def rollupRow (r : RequestLogRecord) : RollupRow where
  counters c := int (r.counter c)
  latencyMaxMs := int (toI64 r.latencyMs)
  costUsd := real (r.costUsd.getD 0)

end RequestLogRecord

/-- `do update set`: every column adds, and the largest latency stays. -/
def RollupRow.merge (row excluded : RollupRow) : RollupRow where
  counters c := toInteger (add (row.counters c) (excluded.counters c))
  latencyMaxMs := toInteger (max row.latencyMaxMs excluded.latencyMaxMs)
  costUsd := toReal (add row.costUsd excluded.costUsd)

def upsertRollup (s : SqliteStorage) (record : RequestLogRecord) : SqliteStorage :=
  { s with
    rollupHourly := s.rollupHourly.upsert record.rollupKey record.rollupRow
      fun row => row.merge record.rollupRow }

def insertRequestLogRow (s : SqliteStorage) (record : RequestLogRecord) : SqliteStorage :=
  let existed := (s.requestLogs.find record.requestId).isSome
  let body : BodyRow := ⟨some record.timestamp⟩
  let s := { s with
    requestLogs := s.requestLogs.upsert record.requestId record.logRow fun _ => record.logRow
    requestBodies := s.requestBodies.upsert record.requestId body fun _ => body }
  if existed then s else upsertRollup s record

/-- The records of a batch, in one transaction; none of their statements fails. -/
def insertRequestLogs (s : SqliteStorage) (records : List RequestLogRecord) : SqliteStorage :=
  records.foldl insertRequestLogRow s

variable {s : SqliteStorage} {r : RequestLogRecord}

theorem insertRequestLogRow_fresh (h : s.requestLogs.find r.requestId = none) :
    (insertRequestLogRow s r).requestLogs.rows = s.requestLogs.rows ++ [(r.requestId, r.logRow)] ∧
    (insertRequestLogRow s r).rollupHourly =
      s.rollupHourly.upsert r.rollupKey r.rollupRow fun row => row.merge r.rollupRow := by
  have happend := @Table.upsertRows_of_not_mem _ _ _ r.requestId r.logRow (fun _ => r.logRow) _
    (Table.find_eq_none_iff.mp h)
  unfold insertRequestLogRow
  rw [h]
  exact ⟨happend, rfl⟩

theorem insertRequestLogRow_replay {row : LogRow} (h : s.requestLogs.find r.requestId = some row) :
    (insertRequestLogRow s r).requestLogs =
      s.requestLogs.upsert r.requestId r.logRow (fun _ => r.logRow) ∧
    (insertRequestLogRow s r).rollupHourly = s.rollupHourly := by
  unfold insertRequestLogRow
  rw [h]
  exact ⟨rfl, rfl⟩

end AnyConverter.Storage
