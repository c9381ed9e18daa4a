import AnyConverter.Server.Period.Bounds
import AnyConverter.Server.Storage.Write

/-!
# Maintaining the request log

`rebuildRollup` computes `rollup_hourly` anew from `request_logs`; `applyRetention` deletes what is
older than its layer is kept.

* `exists_rebuildRollup_iff`: a rebuilt rollup, hour by hour;
* `applyRetention_spec`: what a retention keeps.
-/

set_option autoImplicit false

namespace AnyConverter.Storage

open Sqlite Sqlite.Numeric Rfc3339

/-! ## Rebuilding the rollup -/

namespace LogRow

/-- `substr(timestamp,1,13) || ':00:00Z'` -/
def bucket (row : LogRow) : String := String.ofList (row.timestamp.toList.take 13) ++ ":00:00Z"

/-- What the rows of a group have in common. -/
def groupKey (row : LogRow) : RollupKey :=
  ⟨row.bucket, row.provider, row.clientModel, row.clientId.getD ""⟩

/-- What a column sums; calls are counted. -/
def cell (row : LogRow) : Counter → Numeric
  | .calls => int 1
  | .errors => int (if 400 ≤ row.responseStatus then 1 else 0)
  | .inputTokens => int row.inputTokens
  | .outputTokens => int row.outputTokens
  | .cacheReadTokens => int (row.cacheReadTokens.getD 0)
  | .cacheWriteTokens => int (row.cacheWriteTokens.getD 0)
  | .cacheWrite1h => int row.cacheWrite1h
  | .cacheUnknownTokens =>
    if row.cacheUnknown = 1 then
      add (add (int row.inputTokens) (int (row.cacheReadTokens.getD 0)))
        (int (row.cacheWriteTokens.getD 0))
    else int 0
  | .reasoningTokens => int (row.reasoningTokens.getD 0)
  | .latencySumMs => int row.latencyMs
  | .ttftSumMs => int row.ttftMs
  | .ttftCalls => int (if 0 < row.ttftMs then 1 else 0)
  | .pricedCalls => int (if row.costUsd.isSome then 1 else 0)
  | .retriedCalls => int (if 0 < row.attempt ∧ row.responseStatus < 400 then 1 else 0)
  | .loops => int (if row.errType = some "loop" then 1 else 0)
  | .decodeMs => int row.decodeMs
  | .decodeOut => int row.decodeOut
  | .decodeN => int (if 0 < row.decodeOut ∧ 0 < row.decodeMs then 1 else 0)

/-- `coalesce(cost_usd,0)` -/
def cost (row : LogRow) : Numeric := row.costUsd.elim (int 0) real

end LogRow

/-- A column over the rows of a group; an integer overflow is an error. -/
def aggregate (rows : List LogRow) : Counter → Option Numeric
  | .calls => some (int rows.length)
  | c => (sum (rows.map fun row => row.cell c)).map toInteger

/-- The row of a group. -/
def selectRow (rows : List LogRow) : Option RollupRow :=
  if ∀ c ∈ Counter.all, (aggregate rows c).isSome then do
    let latencyMax ← maximum (rows.map fun row => int row.latencyMs)
    let cost ← sum (rows.map LogRow.cost)
    return ⟨fun c => (aggregate rows c).getD (int 0), toInteger latencyMax, toReal cost⟩
  else none

theorem selectRow_eq_some_iff {rows : List LogRow} {row : RollupRow} :
    selectRow rows = some row ↔ (∀ c, aggregate rows c = some (row.counters c)) ∧
      (∃ v, maximum (rows.map fun row => int row.latencyMs) = some v ∧
        row.latencyMaxMs = toInteger v) ∧
      ∃ v, sum (rows.map LogRow.cost) = some v ∧ row.costUsd = toReal v := by
  unfold selectRow
  constructor
  · intro h
    split at h
    · rename_i hall
      obtain ⟨latencyMax, hmax, h⟩ := Option.bind_eq_some_iff.mp h
      obtain ⟨cost, hcost, h⟩ := Option.bind_eq_some_iff.mp h
      cases h
      refine ⟨fun c => ?_, ⟨_, hmax, rfl⟩, _, hcost, rfl⟩
      obtain ⟨v, hv⟩ := Option.isSome_iff_exists.mp (hall c (Counter.mem_all c))
      show aggregate rows c = some ((aggregate rows c).getD (int 0))
      rw [hv]
      rfl
    · cases h
  · rintro ⟨hcounters, ⟨latencyMax, hmax, hlatency⟩, cost, hcost, hsum⟩
    have hall : ∀ c ∈ Counter.all, (aggregate rows c).isSome := fun c _ => by simp [hcounters c]
    have hrow : row = ⟨fun c => (aggregate rows c).getD (int 0), toInteger latencyMax,
        toReal cost⟩ := by
      refine RollupRow.ext (funext fun c => ?_) hlatency hsum
      show row.counters c = (aggregate rows c).getD (int 0)
      rw [hcounters c]
      rfl
    rw [if_pos hall, hmax, hcost, hrow]
    rfl

/-- Empties the rollup and fills it from the log, in one transaction: nothing changes on an error. -/
def rebuildRollup (s : SqliteStorage) : Option (SqliteStorage × Nat) :=
  ((Table.groups LogRow.groupKey (s.requestLogs.rows.map Prod.snd)).mapRows selectRow).map
    fun rollup => ({ s with rollupHourly := rollup }, rollup.rows.length)

/-! ## Retention -/

/-- How long each layer is kept, forever with 0. -/
structure RetentionPolicy where
  rollupDays : Nat := 0
  logDays : Nat := 30
  bodyDays : Nat := 7
  deriving DecidableEq

structure RetentionStats where
  bodiesDeleted : Nat
  logsDeleted : Nat
  rollupDeleted : Nat
  deriving DecidableEq

/-- The date library, with its writer of hours. -/
structure Clock extends Period.Chrono where
  /-- `DateTime::format` with `%Y-%m-%dT%H:00:00Z` -/
  formatHour : Instant → String

/-- The text of the start of an hour. -/
def hourText (t : Instant) : List Char :=
  yearText t.year ++ '-' :: (Decimal.pad 2 t.date.month ++ '-' :: (Decimal.pad 2 t.date.day ++
    'T' :: (Decimal.pad 2 t.hour ++ ":00:00Z".toList)))

/-- How the library is documented to write instants and hours. -/
structure Clock.Writes (c : Clock) : Prop where
  chrono : c.toChrono.Writes
  hour : ∀ t, c.formatHour t = .ofList (hourText t)

/-- A library that writes as documented. -/
def Clock.plain : Clock where
  toChrono := .plain
  formatHour t := .ofList (hourText t)

theorem Clock.plain_writes : Clock.plain.Writes := ⟨Period.Chrono.plain_writes, fun _ => rfl⟩

def hourFloorCutoff (c : Clock) (now : Instant) (days : Nat) : Option String :=
  (Period.daysBefore c.toChrono now days).map c.formatHour

/-- A layer's cutoff: none when it is kept forever, nothing at all where the date library gives up. -/
def limit (days : Nat) (cutoff : Option String) : Option (Option String) :=
  if days = 0 then some none else cutoff.map some

/-- `text < cutoff`, if there is a cutoff -/
def expired (cutoff : Option String) (text : String) : Bool := cutoff.any fun c => text < c

def logLimit (c : Clock) (policy : RetentionPolicy) (now : Instant) : Option (Option String) :=
  limit policy.logDays (Period.ageCutoff c.toChrono now policy.logDays)

def rollupLimit (c : Clock) (policy : RetentionPolicy) (now : Instant) : Option (Option String) :=
  limit policy.rollupDays (hourFloorCutoff c now policy.rollupDays)

def applyRetention (c : Clock) (s : SqliteStorage) (policy : RetentionPolicy) (now : Instant) :
    Option (SqliteStorage × RetentionStats) := do
  let bodyCutoff ← limit policy.bodyDays (Period.ageCutoff c.toChrono now policy.bodyDays)
  let logCutoff ← logLimit c policy now
  let rollupCutoff ← rollupLimit c policy now
  let bodies := s.requestBodies.deleteWhere fun _ body => body.timestamp.any (expired bodyCutoff)
  let logs := s.requestLogs.deleteWhere fun _ row => expired logCutoff row.timestamp
  let rollup := s.rollupHourly.deleteWhere fun key _ => expired rollupCutoff key.bucket
  -- the bodies of deleted rows go with them
  let orphaned (id : String) : Bool :=
    (s.requestLogs.find id).any fun row => expired logCutoff row.timestamp
  return (⟨logs, bodies.deleteWhere fun id _ => orphaned id, rollup⟩,
    { bodiesDeleted := s.requestBodies.rows.length - bodies.rows.length
      logsDeleted := s.requestLogs.rows.length - logs.rows.length
      rollupDeleted := s.rollupHourly.rows.length - rollup.rows.length })

variable {c : Clock} {s s' : SqliteStorage} {policy : RetentionPolicy} {now : Instant}
  {stats : RetentionStats}

theorem applyRetention_spec (h : applyRetention c s policy now = some (s', stats)) :
    ∃ logCutoff rollupCutoff, logLimit c policy now = some logCutoff ∧
      rollupLimit c policy now = some rollupCutoff ∧
      s'.requestLogs = s.requestLogs.deleteWhere (fun _ row => expired logCutoff row.timestamp) ∧
      s'.rollupHourly = s.rollupHourly.deleteWhere fun key _ => expired rollupCutoff key.bucket := by
  obtain ⟨bodyCutoff, -, h⟩ := Option.bind_eq_some_iff.mp h
  obtain ⟨logCutoff, hlog, h⟩ := Option.bind_eq_some_iff.mp h
  obtain ⟨rollupCutoff, hrollup, h⟩ := Option.bind_eq_some_iff.mp h
  cases h
  exact ⟨logCutoff, rollupCutoff, hlog, hrollup, rfl, rfl⟩

theorem exists_rebuildRollup_iff {rollup : Table RollupKey RollupRow} :
    (∃ s' n, rebuildRollup s = some (s', n) ∧ s'.rollupHourly.Same rollup) ↔
      ∀ key, ((Table.groups LogRow.groupKey (s.requestLogs.rows.map Prod.snd)).find key).map selectRow =
        (rollup.find key).map some := by
  rw [← Table.mapRows_same_iff]
  unfold rebuildRollup
  constructor
  · rintro ⟨s', n, h, hsame⟩
    obtain ⟨u, hu, heq⟩ := Option.map_eq_some_iff.mp h
    cases heq
    exact ⟨u, hu, hsame⟩
  · rintro ⟨u, hu, hsame⟩
    exact ⟨_, _, by rw [hu]; rfl, hsame⟩

end AnyConverter.Storage
