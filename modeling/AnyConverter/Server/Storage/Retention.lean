import AnyConverter.Lib.Runs
import AnyConverter.Server.Storage.Rollup

/-!
# The rollup after retention

A rebuild knows no hour but from the rows of the log, and retention takes rows whose hour it keeps.

* `Counted.insert`, `Counted.retain`: what keeps the log and the rollup in step;
* `retained_iff`: which retentions lose an hour;
* `preserved_of_careful`: what a rebuild keeps in a history without such a retention.
-/

set_option autoImplicit false

namespace AnyConverter.Storage

open Sqlite Sqlite.Numeric RequestLogRecord Runs Rfc3339

/-! ## Histories -/

inductive Call where
  | insert (records : List RequestLogRecord)
  | retain (policy : RetentionPolicy) (now : Instant)

def step (c : Clock) (s : SqliteStorage) : Call → Option SqliteStorage
  | .insert records => some (insertRequestLogs s records)
  | .retain policy now => (applyRetention c s policy now).map Prod.fst

/-- A rebuild leaves every row of the rollup as it is. -/
def Preserved (s : SqliteStorage) : Prop :=
  ∃ s' n, rebuildRollup s = some (s', n) ∧
    ∀ key row, s.rollupHourly.find key = some row → s'.rollupHourly.find key = some row

/-! ## Conditions -/

/-- Rows that count the same for the same hour. -/
structure LogRow.SameFigures (a b : LogRow) : Prop where
  groupKey : a.groupKey = b.groupKey
  cells : ∀ c, a.cell c = b.cell c
  latencyMs : a.latencyMs = b.latencyMs
  costUsd : a.costUsd = b.costUsd

/-- What an hour has in a column so far. -/
def soFar (s : SqliteStorage) (key : RollupKey) (c : Counter) : ℚ :=
  (s.rollupHourly.find key).elim 0 fun row => (row.counters c).value

/-- A record that is new, with room for what it counts, or counts what it did before. -/
def Accounted (s : SqliteStorage) (r : RequestLogRecord) : Prop :=
  r.Plain ∧
    match s.requestLogs.find r.requestId with
    | none => ∀ c, soFar s r.rollupKey c + r.amount c < 2 ^ 63
    | some row => row.SameFigures r.logRow

/-- No row of the log goes before its hour. -/
def RowsWithHours (c : Clock) (s : SqliteStorage) (policy : RetentionPolicy) (now : Instant) : Prop :=
  ∀ logCutoff rollupCutoff, logLimit c policy now = some logCutoff →
    rollupLimit c policy now = some rollupCutoff → ∀ id row, s.requestLogs.find id = some row →
      expired logCutoff row.timestamp → expired rollupCutoff row.bucket

/-- No hour goes before its rows. -/
def HoursWithRows (c : Clock) (s : SqliteStorage) (policy : RetentionPolicy) (now : Instant) : Prop :=
  ∀ logCutoff rollupCutoff, logLimit c policy now = some logCutoff →
    rollupLimit c policy now = some rollupCutoff → ∀ id row, s.requestLogs.find id = some row →
      expired rollupCutoff row.bucket → expired logCutoff row.timestamp

/-- A call that keeps the log and the rollup in step. -/
def Careful (c : Clock) (s : SqliteStorage) : Call → Prop
  | .insert records => Meets (fun s r => some (insertRequestLogRow s r)) Accounted s records
  | .retain policy now => RowsWithHours c s policy now ∧ HoursWithRows c s policy now

/-! ## What careful calls keep -/

/-- The log and the rollup tell the same records. -/
structure Counted (s : SqliteStorage) (records : List RequestLogRecord) : Prop where
  holds : Holds s records
  plain : ∀ r ∈ records, r.Plain
  roomy : Roomy records

variable {s s' : SqliteStorage} {records : List RequestLogRecord} {r : RequestLogRecord}

theorem counted_empty : Counted .empty [] := by
  refine ⟨holds_empty, fun _ hr => absurd hr List.not_mem_nil, fun _ _ => ?_⟩
  show 0 < 2 ^ 63
  decide

theorem ofKey_append (records new : List RequestLogRecord) (key : RollupKey) :
    ofKey (records ++ new) key = ofKey records key ++ ofKey new key :=
  List.filter_append ..

theorem totalOf_append (records new : List RequestLogRecord) (c : Counter) :
    totalOf (records ++ new) c = totalOf records c + totalOf new c := by
  unfold totalOf
  rw [List.map_append, List.sum_append]

/-- The rollup has the totals of the records. -/
theorem Counted.soFar_eq (h : Counted s records) (key : RollupKey) (c : Counter) :
    soFar s key c = totalOf (ofKey records key) c := by
  have hroomy := h.roomy key c
  unfold soFar
  rw [h.holds.rollup]
  generalize ofKey records key = group at hroomy ⊢
  cases group with
  | nil => exact Nat.cast_zero.symm
  | cons first rest =>
    have hmerged : Table.mergeAll RollupRow.merge none ((first :: rest).map rollupRow) =
        some (foldedRow first rest) := Table.mergeAll_some _ _ _
    rw [hmerged, Option.elim_some, foldedRow_counters, value_total, sum_added_eq hroomy]

theorem Counted.insert_fresh (h : Counted s records) (hplain : r.Plain)
    (hnew : s.requestLogs.find r.requestId = none)
    (hroom : ∀ c, soFar s r.rollupKey c + r.amount c < 2 ^ 63) :
    Counted (insertRequestLogRow s r) (records ++ [r]) := by
  refine ⟨h.holds.insert hnew, fun r' hr' => ?_, fun key c => ?_⟩
  · rcases List.mem_append.mp hr' with hold | hr'
    · exact h.plain r' hold
    · rw [List.mem_singleton.mp hr']
      exact hplain
  · rw [ofKey_append, totalOf_append]
    by_cases hkey : r.rollupKey = key
    · subst hkey
      have hc := hroom c
      rw [h.soFar_eq] at hc
      have hone : totalOf (ofKey [r] r.rollupKey) c = r.amount c := by simp [ofKey, totalOf]
      rw [hone]
      exact_mod_cast hc
    · have hnone : totalOf (ofKey [r] key) c = 0 := by simp [ofKey, totalOf, hkey]
      rw [hnone]
      exact h.roomy key c

/-- A record with the figures of another adds the same. -/
theorem rollupRow_eq_of_figures {a b : RequestLogRecord} (ha : a.Plain) (hb : b.Plain)
    (h : a.logRow.SameFigures b.logRow) :
    a.rollupKey = b.rollupKey ∧ a.rollupRow = b.rollupRow ∧ a.amount = b.amount := by
  have hkey := h.groupKey
  rw [ha.groupKey_logRow, hb.groupKey_logRow] at hkey
  have hamount : ∀ c, a.amount c = b.amount c := by
    intro c
    have hcell := h.cells c
    rw [cell_logRow ha.counters, cell_logRow hb.counters] at hcell
    exact total_injective hcell
  have hcounter : ∀ c, a.counter c = b.counter c := by
    intro c
    by_cases hc : c = .cacheUnknownTokens
    · subst hc
      show toI64 a.cacheUnknownTokens = toI64 b.cacheUnknownTokens
      rw [cacheUnknownTokens_eq, cacheUnknownTokens_eq, hamount]
    · rw [counter_eq, counter_eq, added_eq (ha.counters c hc), added_eq (hb.counters c hc), hamount c]
  refine ⟨hkey, RollupRow.ext (funext fun c => ?_) ?_ ?_, funext hamount⟩
  · show int (a.counter c) = int (b.counter c)
    rw [hcounter c]
  · show int a.logRow.latencyMs = int b.logRow.latencyMs
    rw [h.latencyMs]
  · show real (a.logRow.costUsd.getD 0) = real (b.logRow.costUsd.getD 0)
    rw [h.costUsd]

/-- What some records count is kept by a change of each that keeps its figures. -/
theorem ofKey_map {β : Type} {f : RequestLogRecord → RequestLogRecord} (g : RequestLogRecord → β)
    (h : ∀ r ∈ records, (f r).rollupKey = r.rollupKey ∧ g (f r) = g r) (key : RollupKey) :
    (ofKey (records.map f) key).map g = (ofKey records key).map g := by
  unfold ofKey
  induction records with
  | nil => rfl
  | cons r records ih =>
    obtain ⟨hkey, hg⟩ := h r List.mem_cons_self
    have hrest := ih fun r' hr' => h r' (List.mem_cons_of_mem r hr')
    rw [List.map_cons, List.filter_cons, List.filter_cons, hkey]
    split
    · rw [List.map_cons, List.map_cons, hg, hrest]
    · exact hrest

theorem Counted.insert_replay (h : Counted s records) (hplain : r.Plain) {row : LogRow}
    (hrow : s.requestLogs.find r.requestId = some row) (hsame : row.SameFigures r.logRow) :
    Counted (insertRequestLogRow s r)
      (records.map fun old => if old.requestId = r.requestId then r else old) := by
  obtain ⟨hlogs, hrollup⟩ := insertRequestLogRow_replay hrow
  have hnodup := s.requestLogs.keys_nodup
  have hkeys : r.requestId ∈ s.requestLogs.rows.map Prod.fst :=
    List.mem_map.mpr ⟨_, Table.find_eq_some_iff.mp hrow, rfl⟩
  have hold : ∀ old ∈ records, old.requestId = r.requestId → old.logRow = row := by
    intro old hmem hid
    have hfind : s.requestLogs.find r.requestId = some old.logRow := by
      rw [Table.find_eq_some_iff, h.holds.logs, ← hid]
      exact List.mem_map_of_mem hmem
    rw [hrow] at hfind
    exact (Option.some.inj hfind).symm
  have hfigures : ∀ old ∈ records,
      (if old.requestId = r.requestId then r else old).rollupKey = old.rollupKey ∧
        (if old.requestId = r.requestId then r else old).rollupRow = old.rollupRow ∧
          (if old.requestId = r.requestId then r else old).amount = old.amount := by
    intro old hmem
    split
    · rename_i hid
      obtain ⟨hkey, hrow, hamount⟩ := rollupRow_eq_of_figures (h.plain old hmem) hplain
        (hold old hmem hid ▸ hsame)
      exact ⟨hkey.symm, hrow.symm, hamount.symm⟩
    · exact ⟨rfl, rfl, rfl⟩
  refine ⟨⟨?_, fun key => ?_⟩, fun r' hr' => ?_, fun key c => ?_⟩
  · rw [hlogs]
    show Table.upsertRows _ _ _ s.requestLogs.rows = _
    rw [Table.upsertRows_of_mem hnodup hkeys, h.holds.logs, List.map_map, List.map_map]
    refine List.map_congr_left fun old _ => ?_
    show (if old.requestId = r.requestId then (old.requestId, r.logRow) else _) = _
    split
    · rename_i hid
      simp [hid]
    · rename_i hid
      simp [hid]
  · rw [hrollup, h.holds.rollup, ofKey_map rollupRow fun old hmem =>
      ⟨(hfigures old hmem).1, (hfigures old hmem).2.1⟩]
  · obtain ⟨old, hmem, rfl⟩ := List.mem_map.mp hr'
    split
    · exact hplain
    · exact h.plain old hmem
  · unfold totalOf
    rw [ofKey_map (·.amount c) fun old hmem =>
      ⟨(hfigures old hmem).1, congrFun (hfigures old hmem).2.2 c⟩]
    exact h.roomy key c

theorem Counted.insert (h : ∃ records, Counted s records) (hr : Accounted s r) :
    ∃ records, Counted (insertRequestLogRow s r) records := by
  obtain ⟨records, h⟩ := h
  obtain ⟨hplain, hcase⟩ := hr
  cases hfind : s.requestLogs.find r.requestId with
  | none =>
    rw [hfind] at hcase
    exact ⟨_, h.insert_fresh hplain hfind hcase⟩
  | some row =>
    rw [hfind] at hcase
    exact ⟨_, h.insert_replay hplain hfind hcase⟩

/-! ## Retention -/

variable {c : Clock} {policy : RetentionPolicy} {now : Instant} {stats : RetentionStats}

/-- The records a retention leaves. -/
def unexpired (cutoff : Option String) (records : List RequestLogRecord) : List RequestLogRecord :=
  records.filter fun r => !expired cutoff r.timestamp

theorem logs_retained (h : s.requestLogs.rows = records.map fun r => (r.requestId, r.logRow))
    (cutoff : Option String) :
    (s.requestLogs.deleteWhere fun _ row => expired cutoff row.timestamp).rows =
      (unexpired cutoff records).map fun r => (r.requestId, r.logRow) := by
  show s.requestLogs.rows.filter _ = _
  rw [h, List.filter_map]
  rfl

theorem Counted.find_logRow (h : Counted s records) (hr : r ∈ records) :
    s.requestLogs.find r.requestId = some r.logRow := by
  rw [Table.find_eq_some_iff, h.holds.logs]
  exact List.mem_map_of_mem hr

theorem Counted.bucket_logRow (h : Counted s records) (hr : r ∈ records) :
    r.logRow.bucket = r.rollupKey.bucket :=
  congrArg RollupKey.bucket (h.plain r hr).groupKey_logRow

theorem ofKey_unexpired_comm (logCutoff : Option String) (key : RollupKey) :
    ofKey (unexpired logCutoff records) key = unexpired logCutoff (ofKey records key) := by
  unfold ofKey unexpired
  rw [List.filter_filter, List.filter_filter]
  simp only [Bool.and_comm]

/-- The rows of an hour all go or all stay. -/
theorem ofKey_unexpired {logCutoff : Option String} {key : RollupKey} {gone : Bool}
    (h : ∀ r ∈ ofKey records key, expired logCutoff r.timestamp = gone) :
    ofKey (unexpired logCutoff records) key = if gone then [] else ofKey records key := by
  rw [ofKey_unexpired_comm]
  unfold unexpired
  cases gone with
  | false => exact List.filter_eq_self.mpr fun r hr => by simp [h r hr]
  | true => exact List.filter_eq_nil_iff.mpr fun r hr => by simp [h r hr]

theorem Counted.retain (h : Counted s records)
    (hretained : applyRetention c s policy now = some (s', stats))
    (hrows : RowsWithHours c s policy now) (hhours : HoursWithRows c s policy now) :
    ∃ records', Counted s' records' := by
  obtain ⟨logCutoff, rollupCutoff, hlog, hrollup, hlogs', hrollup'⟩ := applyRetention_spec hretained
  have hgone : ∀ key, ∀ r ∈ ofKey records key,
      expired logCutoff r.timestamp = expired rollupCutoff key.bucket := by
    intro key r hr
    obtain ⟨hmem, hkey⟩ := List.mem_filter.mp hr
    obtain rfl : r.rollupKey = key := of_decide_eq_true hkey
    have hfind := h.find_logRow hmem
    rw [Bool.eq_iff_iff, ← h.bucket_logRow hmem]
    exact ⟨hrows _ _ hlog hrollup _ _ hfind, hhours _ _ hlog hrollup _ _ hfind⟩
  refine ⟨unexpired logCutoff records, ⟨?_, fun key => ?_⟩, fun r hr => ?_, fun key c => ?_⟩
  · rw [hlogs']
    exact logs_retained h.holds.logs logCutoff
  · rw [hrollup', Table.find_deleteWhere, h.holds.rollup, ofKey_unexpired (hgone key)]
    cases expired rollupCutoff key.bucket with
    | false =>
      show Option.filter (fun _ => true) _ = Table.mergeAll _ none ((ofKey records key).map rollupRow)
      cases Table.mergeAll RollupRow.merge none ((ofKey records key).map rollupRow) <;> rfl
    | true =>
      show Option.filter (fun _ => false) _ = none
      cases Table.mergeAll RollupRow.merge none ((ofKey records key).map rollupRow) <;> rfl
  · exact h.plain r (List.mem_of_mem_filter hr)
  · rw [ofKey_unexpired (hgone key)]
    split
    · show 0 < 2 ^ 63
      decide
    · exact h.roomy key c

/-- A log of records whose totals fit rebuilds to what these add up to, whatever the rollup holds. -/
theorem exists_rebuilt (hlogs : s.requestLogs.rows = records.map fun r => (r.requestId, r.logRow))
    (hplain : ∀ r ∈ records, r.Plain) (hroomy : Roomy records) :
    ∃ s' n, rebuildRollup s = some (s', n) ∧ ∀ key, s'.rollupHourly.find key =
      Table.mergeAll RollupRow.merge none ((ofKey records key).map rollupRow) := by
  have hholds : Holds ⟨s.requestLogs, s.requestBodies,
      Table.accumulate rollupKey rollupRow RollupRow.merge .empty records⟩ records :=
    ⟨hlogs, fun key => Table.find_accumulate rollupKey rollupRow RollupRow.merge .empty records key⟩
  obtain ⟨s', n, hs', hsame⟩ := (hholds.rebuilds_iff hplain).mpr hroomy
  exact ⟨s', n, hs', fun key => (Table.same_iff.mp hsame key).trans (hholds.rollup key)⟩

theorem Counted.preserved (h : Counted s records) : Preserved s := by
  obtain ⟨s', n, hs', hfind⟩ := exists_rebuilt h.holds.logs h.plain h.roomy
  refine ⟨s', n, hs', fun key row hrow => ?_⟩
  rw [hfind, ← h.holds.rollup, hrow]

/-- The calls of a rebuilt hour are its rows. -/
theorem calls_rebuilt {n : Nat} (h : rebuildRollup s = some (s', n)) {key : RollupKey} {row : RollupRow}
    (hrow : s'.rollupHourly.find key = some row) : row.counters .calls =
      int ((s.requestLogs.rows.map Prod.snd).filter fun r => r.groupKey = key).length := by
  have hgroups := exists_rebuildRollup_iff.mp ⟨s', n, h, List.Perm.refl _⟩ key
  rw [hrow, Table.find_groups] at hgroups
  split at hgroups
  · cases hgroups
  · have hselect := (selectRow_eq_some_iff.mp (Option.some.inj hgroups)).1 .calls
    exact (Option.some.inj hselect).symm

/-- An hour has a row, which counts its records. -/
theorem Counted.calls (h : Counted s records) (hr : r ∈ records) :
    ∃ row, s.rollupHourly.find r.rollupKey = some row ∧
      row.counters .calls = total (ofKey records r.rollupKey).length := by
  have hmem : r ∈ ofKey records r.rollupKey := List.mem_filter.mpr ⟨hr, decide_eq_true rfl⟩
  rw [h.holds.rollup]
  generalize ofKey records r.rollupKey = group at hmem ⊢
  cases group with
  | nil => cases hmem
  | cons first rest =>
    refine ⟨foldedRow first rest, Table.mergeAll_some _ _ _, ?_⟩
    rw [foldedRow_counters]
    simp [added, counter, Nat.add_comm]

theorem totalOf_filter_le (p : RequestLogRecord → Bool) (c : Counter) :
    totalOf (records.filter p) c ≤ totalOf records c :=
  (List.filter_sublist.map _).sum_le_sum fun _ _ => Nat.zero_le _

/-- A retention leaves the hours it keeps to a rebuild exactly when it takes no row before its
hour. -/
theorem Counted.retained_iff (h : Counted s records)
    (hretained : applyRetention c s policy now = some (s', stats)) :
    Preserved s' ↔ RowsWithHours c s policy now := by
  obtain ⟨logCutoff, rollupCutoff, hlog, hrollup, hlogs', hrollup'⟩ := applyRetention_spec hretained
  have hlogs : s'.requestLogs.rows = (unexpired logCutoff records).map fun r =>
      (r.requestId, r.logRow) := by
    rw [hlogs']
    exact logs_retained h.holds.logs logCutoff
  have hplain : ∀ r ∈ unexpired logCutoff records, r.Plain := fun r hr =>
    h.plain r (List.mem_of_mem_filter hr)
  constructor
  · rintro ⟨s'', n, hrebuilt, hkept⟩ logCutoff' rollupCutoff' hlog' hrollup'' id row hrow hgone
    obtain rfl := Option.some.inj (hlog.symm.trans hlog')
    obtain rfl := Option.some.inj (hrollup.symm.trans hrollup'')
    by_contra hstays
    have hmem := Table.find_eq_some_iff.mp hrow
    rw [h.holds.logs] at hmem
    obtain ⟨r, hr, heq⟩ := List.mem_map.mp hmem
    obtain ⟨rfl, rfl⟩ := Prod.mk.inj heq
    obtain ⟨row, hfind, hcalls⟩ := h.calls hr
    have hfind' : s'.rollupHourly.find r.rollupKey = some row := by
      rw [hrollup', Table.find_deleteWhere, hfind, ← h.bucket_logRow hr]
      simp [hstays]
    have hcount := calls_rebuilt hrebuilt (hkept _ _ hfind')
    rw [rows_ofKey hlogs hplain, hcalls, List.length_map] at hcount
    have hlength : (ofKey records r.rollupKey).length =
        (ofKey (unexpired logCutoff records) r.rollupKey).length := by
      have hvalue := congrArg value hcount
      rw [value_total, value_int] at hvalue
      exact_mod_cast hvalue
    have hless : (unexpired logCutoff (ofKey records r.rollupKey)).length <
        (ofKey records r.rollupKey).length := by
      refine List.length_filter_lt_length_iff_exists.mpr ⟨r, ?_, ?_⟩
      · exact List.mem_filter.mpr ⟨hr, decide_eq_true rfl⟩
      · show ¬ (!expired logCutoff r.logRow.timestamp) = true
        rw [hgone]
        decide
    rw [← ofKey_unexpired_comm] at hless
    omega
  · intro hrows
    have hroomy : Roomy (unexpired logCutoff records) := by
      intro key c
      rw [ofKey_unexpired_comm]
      exact (totalOf_filter_le _ c).trans_lt (h.roomy key c)
    obtain ⟨s'', n, hs'', hfind⟩ := exists_rebuilt hlogs hplain hroomy
    refine ⟨s'', n, hs'', fun key row hrow => ?_⟩
    rw [hrollup', Table.find_deleteWhere, Option.filter_eq_some_iff] at hrow
    obtain ⟨hrow, hstays⟩ := hrow
    have hgone : ∀ r ∈ ofKey records key, expired logCutoff r.timestamp = false := by
      intro r hr
      obtain ⟨hmem, hkey⟩ := List.mem_filter.mp hr
      obtain rfl : r.rollupKey = key := of_decide_eq_true hkey
      by_contra hexpired
      have hhour := hrows _ _ hlog hrollup _ _ (h.find_logRow hmem) (eq_true_of_ne_false hexpired)
      rw [h.bucket_logRow hmem] at hhour
      rw [hhour] at hstays
      cases hstays
    rw [hfind, ofKey_unexpired hgone, if_neg (by decide), ← h.holds.rollup, hrow]

/-! ## Policies that keep rollups longer -/

/-- Rollups are kept longer than logs. -/
def RetentionPolicy.RollupsLonger (policy : RetentionPolicy) : Prop :=
  policy.rollupDays = 0 ∨ 0 < policy.logDays ∧ policy.logDays < policy.rollupDays

/-- Days that are counted as they are, and cutoffs in years of four digits. -/
structure PlainCutoffs (c : Clock) (policy : RetentionPolicy) (now : Instant) : Prop where
  days : policy.rollupDays < 2 ^ 63
  log : ∀ x, Period.daysBefore c.toChrono now policy.logDays = some x → 0 ≤ x.year ∧ x.year < 10000
  rollup : ∀ x, Period.daysBefore c.toChrono now policy.rollupDays = some x →
    0 ≤ x.year ∧ x.year < 10000

theorem secs_daysBefore {chrono : Period.Chrono} {days : Nat} {x : Instant} (hdays : days < 2 ^ 63)
    (h : Period.daysBefore chrono now days = some x) : x.secs = now.secs - days * 86400 := by
  obtain ⟨secs, hsecs, h⟩ := Option.bind_eq_some_iff.mp h
  unfold Period.Chrono.duration at hsecs
  split at hsecs
  · cases hsecs
    unfold Period.Chrono.checkedAdd at h
    simp only at h
    split at h
    · cases h
      have hasI64 : Period.asI64 days = days := if_pos hdays
      show now.secs + -(Period.asI64 days * 86400) = _
      rw [hasI64]
      omega
    · cases h
  · cases hsecs

/-- The text of an instant up to its hour. -/
def hourStart (t : Instant) : List Char :=
  yearText t.year ++ '-' :: (Decimal.pad 2 t.date.month ++ '-' :: (Decimal.pad 2 t.date.day ++
    'T' :: Decimal.pad 2 t.hour))

theorem length_hourStart {t : Instant} (h : 0 ≤ t.year ∧ t.year < 10000) :
    (hourStart t).length = 13 := by
  unfold hourStart yearText
  rw [if_pos h]
  simp

theorem hourText_eq (t : Instant) : hourText t = hourStart t ++ ":00:00Z".toList := by
  unfold hourText hourStart
  simp only [List.append_assoc, List.cons_append]

theorem text_eq_hourStart (t : Instant) (tail : List Char) : ∃ rest, text t tail = hourStart t ++ rest := by
  refine ⟨':' :: (Decimal.pad 2 t.minute ++ ':' :: (Decimal.pad 2 t.second ++ tail)), ?_⟩
  unfold text restText hourStart
  simp only [List.append_assoc, List.cons_append]

/-- What is before the start of an hour, cut to its own hour, is before every instant after it. -/
theorem lt_text_of_bucket_lt {start rest : List Char} {x y : Instant} (hlength : start.length = 13)
    (hx : 0 ≤ x.year ∧ x.year < 10000) (hy : 0 ≤ y.year ∧ y.year < 10000) (hxy : x.secs < y.secs)
    (h : start ++ ":00:00Z".toList < hourText x) : start ++ rest < text y ['Z'] := by
  have hlengths : start.length = (hourStart x).length := hlength.trans (length_hourStart hx).symm
  rw [hourText_eq, Text.append_lt_append_iff hlengths] at h
  have hstart : start < hourStart x := by
    rcases h with hlt | ⟨-, hirrefl⟩
    · exact hlt
    · exact absurd hirrefl (List.lt_irrefl _)
  obtain ⟨tail, htail⟩ := text_eq_hourStart x ['Z']
  have hbefore : start ++ rest < text x ['Z'] := by
    rw [htail, Text.append_lt_append_iff hlengths]
    exact Or.inl hstart
  refine List.lt_trans hbefore ?_
  by_cases hyear : x.year = y.year
  · exact (text_lt_iff_of_year_eq hyear _ _).mpr (Or.inl hxy)
  · have hle := year_le_of_secs_lt hxy
    exact (text_lt_iff_of_year_ne hyear _ _).mpr ((yearsInOrder hx hy).mpr (by omega))

/-- A policy that keeps rollups longer takes no hour before its rows. -/
theorem Counted.hoursWithRows (h : Counted s records) (hwrites : c.Writes)
    (hlonger : policy.RollupsLonger) (hcutoffs : PlainCutoffs c policy now) :
    HoursWithRows c s policy now := by
  intro logCutoff rollupCutoff hlog hrollup id row hrow hexpired
  unfold logLimit limit at hlog
  unfold rollupLimit limit at hrollup
  rcases hlonger with hforever | ⟨hpos, hdays⟩
  · rw [if_pos hforever] at hrollup
    cases hrollup
    cases hexpired
  · rw [if_neg (by omega)] at hlog hrollup
    obtain ⟨cutoff, hcutoff, rfl⟩ := Option.map_eq_some_iff.mp hlog
    obtain ⟨y, hy, rfl⟩ := Option.map_eq_some_iff.mp hcutoff
    obtain ⟨cutoff, hcutoff, rfl⟩ := Option.map_eq_some_iff.mp hrollup
    obtain ⟨x, hx, rfl⟩ := Option.map_eq_some_iff.mp hcutoff
    have hxy : x.secs < y.secs := by
      rw [secs_daysBefore hcutoffs.days hx, secs_daysBefore (hdays.trans hcutoffs.days) hy]
      omega
    have hmem := Table.find_eq_some_iff.mp hrow
    rw [h.holds.logs] at hmem
    obtain ⟨r, hr, heq⟩ := List.mem_map.mp hmem
    obtain ⟨rfl, rfl⟩ := Prod.mk.inj heq
    have hlength : (r.timestamp.toList.take 13).length = 13 :=
      List.length_take_of_le (h.plain r hr).length
    have hbucket : String.ofList (r.timestamp.toList.take 13) ++ ":00:00Z" < c.formatHour x :=
      of_decide_eq_true hexpired
    rw [hwrites.hour, String.lt_iff, String.toList_append, String.toList_ofList,
      String.toList_ofList, String.toList_ofList] at hbucket
    have hlt := @lt_text_of_bucket_lt _ (r.timestamp.toList.drop 13) _ _ hlength (hcutoffs.rollup x hx)
      (hcutoffs.log y hy) hxy hbucket
    refine decide_eq_true ?_
    show r.timestamp < c.toRfc3339Secs y
    rw [hwrites.chrono.rfc3339Secs, String.lt_iff, String.toList_ofList]
    rwa [List.take_append_drop] at hlt

/-! ## Rebuilding after a history -/

theorem counted_of_careful {calls : List Call} (hcareful : Meets (step c) (Careful c) .empty calls)
    (hrun : run (step c) .empty calls = some s) : ∃ records, Counted s records := by
  refine invariant (I := fun s => ∃ records, Counted s records) (fun s call s' h hcall hstep => ?_)
    ⟨[], counted_empty⟩ hcareful hrun
  cases call with
  | insert records =>
    cases hstep
    have hrecords := run_total insertRequestLogRow s records
    exact invariant (I := fun s => ∃ records, Counted s records)
      (fun s r s' h hr hinsert => by
        cases hinsert
        exact Counted.insert h hr) h hcall hrecords
  | retain policy now =>
    obtain ⟨⟨s'', stats⟩, hretained, rfl⟩ := Option.map_eq_some_iff.mp hstep
    obtain ⟨records, h⟩ := h
    exact h.retain hretained hcall.1 hcall.2

/-- In a history whose calls are careful, a rebuild keeps every hour; a retention at its end leaves
the hours it keeps to a rebuild exactly when it takes no row before its hour; and a policy that keeps
rollups longer than logs takes no hour before its rows. -/
theorem preserved_of_careful (c : Clock) (hwrites : c.Writes) (calls : List Call) (s : SqliteStorage)
    (hcareful : Meets (step c) (Careful c) .empty calls) (hrun : run (step c) .empty calls = some s) :
    Preserved s ∧
    (∀ policy now s' stats, applyRetention c s policy now = some (s', stats) →
      (Preserved s' ↔ RowsWithHours c s policy now)) ∧
    ∀ policy now, policy.RollupsLonger → PlainCutoffs c policy now →
      HoursWithRows c s policy now := by
  obtain ⟨records, h⟩ := counted_of_careful hcareful hrun
  exact ⟨h.preserved, fun _ _ _ _ hretained => h.retained_iff hretained,
    fun _ _ hlonger hcutoffs => h.hoursWithRows hwrites hlonger hcutoffs⟩

/-- A call of January. -/
def january : RequestLogRecord where
  requestId := "c"
  timestamp := "2026-01-10T08:30:00+00:00"
  provider := "p"
  clientModel := "m"
  responseStatus := 200
  latencyMs := 1

/-- The default policy keeps the hour of a call of January, and a rebuild in July loses it. -/
theorem january_lost : RetentionPolicy.RollupsLonger {} ∧
    ∃ s, run (step .plain) .empty [.insert [january], .retain {} Period.july] = some s ∧
      (s.rollupHourly.find january.rollupKey).isSome ∧ ¬ Preserved s := by
  refine ⟨Or.inl rfl, ?_⟩
  have hreached : (run (step .plain) .empty [.insert [january], .retain {} Period.july]).map
      (fun s => (s.rollupHourly.find january.rollupKey).isSome) = some true := by decide +kernel
  have hrebuilt : ((run (step .plain) .empty [.insert [january], .retain {} Period.july]).bind
      rebuildRollup).map (fun p => (p.1.rollupHourly.find january.rollupKey).isSome) =
        some false := by decide +kernel
  obtain ⟨s, hrun, hkept⟩ := Option.map_eq_some_iff.mp hreached
  refine ⟨s, hrun, hkept, ?_⟩
  rintro ⟨s', n, hs', hpreserved⟩
  obtain ⟨row, hrow⟩ := Option.isSome_iff_exists.mp hkept
  rw [hrun, Option.bind_some, hs', Option.map_some, hpreserved _ _ hrow] at hrebuilt
  cases hrebuilt

theorem january_plain : january.Plain := by
  refine ⟨by decide +kernel, by simp [january], fun c hc => ?_⟩
  cases c with
  | cacheUnknownTokens => exact absurd rfl hc
  | _ => decide +kernel

theorem preserved_of_careful_january :
    Preserved (insertRequestLogs .empty [january]) ∧
    (∀ policy now s' stats,
      applyRetention .plain (insertRequestLogs .empty [january]) policy now = some (s', stats) →
        (Preserved s' ↔ RowsWithHours .plain (insertRequestLogs .empty [january]) policy now)) ∧
    ∀ policy now, policy.RollupsLonger → PlainCutoffs .plain policy now →
      HoursWithRows .plain (insertRequestLogs .empty [january]) policy now := by
  refine preserved_of_careful .plain Clock.plain_writes [.insert [january]] _ ?_ rfl
  have hroom : Accounted .empty january := by
    refine ⟨january_plain, fun c => ?_⟩
    show (0 : ℚ) + january.amount c < 2 ^ 63
    cases c <;> decide +kernel
  exact ⟨⟨hroom, fun _ _ => trivial⟩, fun _ _ => trivial⟩

end AnyConverter.Storage
