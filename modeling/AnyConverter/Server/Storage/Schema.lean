import AnyConverter.Lib.Migration

/-!
# The versions of the database

Every version of the schema is one transaction, tracked in `user_version`.

* `known_isSome`: the columns each version leaves, found by the check;
* `migrated`: any database of this program becomes one of the last version, whatever cuts the attempts
  before, and keeps what it held.
-/

set_option autoImplicit false

namespace AnyConverter.Storage.Schema

open Migration

def schemaVersion : Nat := 11

/-! ## The statements -/

/-- The columns that the second version drops. -/
def wideColumns : List String :=
  ["request_body_json", "upstream_request_body_json", "response_body_kind", "response_body_json",
    "trace_json", "record_json"]

def requestLogsColumns : List String :=
  ["id", "request_id", "timestamp", "client_format", "provider", "client_model", "upstream_model",
    "streaming", "method", "path", "request_body_json", "upstream_request_body_json",
    "response_status", "response_body_kind", "response_body_json", "latency_ms", "input_tokens",
    "output_tokens", "total_tokens", "cache_read_tokens", "cache_write_tokens", "reasoning_tokens",
    "trace_json", "truncated", "record_json", "created_at"]

def usageLogsColumns : List String :=
  ["id", "request_id", "timestamp", "client_format", "provider", "client_model", "upstream_model",
    "input_tokens", "output_tokens", "total_tokens", "latency_ms", "status", "streaming",
    "record_json", "created_at"]

def rollupHourlyColumns : List String :=
  ["bucket", "provider", "client_model", "agent", "calls", "errors", "input_tokens",
    "output_tokens", "cache_read_tokens", "cache_write_tokens", "cache_write_1h",
    "cache_unknown_tokens", "reasoning_tokens", "latency_sum_ms", "latency_max_ms", "ttft_sum_ms",
    "ttft_calls", "cost_usd"]

/-- `integer not null default 0` -/
def zero : Migration.Value := .integer 0

/-- `(select l.timestamp from request_logs l where l.request_id = ..)` where the timestamp is null -/
def bodyTimestamp (db : Database) (row : Row) : Migration.Value :=
  if row "timestamp" = .null then
    ((db.rows "request_logs").find? fun l => l "request_id" = row "request_id").elim .null
      (· "timestamp")
  else row "timestamp"

/-- `> 0`; a text is larger than any number. -/
def Positive : Migration.Value → Bool
  | .null => false
  | .integer z => 0 < z
  | .real q => 0 < q
  | .text _ => true

/-- `calls where cost_usd > 0` -/
def pricedCalls (_ : Database) (row : Row) : Migration.Value :=
  if Positive (row "cost_usd") then row "calls" else row "priced_calls"

def splitColumns : List (String × Migration.Value) :=
  [("own_ms", zero), ("sent_ms", zero), ("retried_ms", zero), ("queued_ms", zero),
    ("masking_ms", zero), ("flow_ms", zero), ("upstream", .null), ("effort", .null),
    ("tier_asked", .null), ("tier_sent", .null), ("tier_served", .null), ("subagent", .null),
    ("parent_agent", .null), ("kind", .null)]

def apply : Nat → List Statement
  | 1 =>
    [.createTable "request_logs" requestLogsColumns,
      .createIndex "request_logs" ["timestamp"],
      .createIndex "request_logs" ["provider", "client_model"],
      .createIndex "request_logs" ["response_status"],
      .createIndex "request_logs" ["path"],
      .createTable "usage_logs" usageLogsColumns,
      .createIndex "usage_logs" ["timestamp"],
      .createIndex "usage_logs" ["provider", "client_model"],
      .createIndex "usage_logs" ["status"]]
  | 2 =>
    [.createTable "request_bodies" ["request_id", "record_json"],
      .copy "request_bodies" "request_logs" "request_id" ["request_id", "record_json"]] ++
    wideColumns.map (.dropColumn "request_logs")
  | 3 => [.dropTable "usage_logs"]
  | 4 =>
    [.addColumn "request_logs" "client_id" .null,
      .addColumn "request_logs" "session_id" .null,
      .addColumn "request_logs" "provider_account" .null,
      .addColumn "request_logs" "served_model" .null,
      .addColumn "request_logs" "ttft_ms" zero,
      .addColumn "request_logs" "cache_unknown" zero,
      .addColumn "request_logs" "cache_write_1h" zero,
      .addColumn "request_logs" "decode_ms" zero,
      .addColumn "request_logs" "decode_out" zero,
      .addColumn "request_logs" "cost_usd" .null,
      .addColumn "request_logs" "price_version" .null,
      .createIndex "request_logs" ["client_id", "timestamp"],
      .createIndex "request_logs" ["session_id"],
      .createIndex "request_logs" ["provider", "provider_account"]]
  | 5 => [.createTable "rollup_hourly" rollupHourlyColumns]
  | 6 =>
    [.ensureColumn "request_bodies" "timestamp" .null,
      .createIndex "request_bodies" ["timestamp"],
      .update "request_bodies" "timestamp" bodyTimestamp]
  | 7 =>
    [.ensureColumn "rollup_hourly" "priced_calls" zero,
      .update "rollup_hourly" "priced_calls" pricedCalls]
  | 8 =>
    [.ensureColumn "request_logs" "attempt" zero,
      .ensureColumn "request_logs" "handed_on" zero,
      .ensureColumn "request_logs" "error" .null,
      .ensureColumn "request_logs" "err_type" .null]
  | 9 =>
    [.ensureColumn "rollup_hourly" "retried_calls" zero,
      .ensureColumn "rollup_hourly" "loops" zero]
  | 10 => splitColumns.map fun column => .ensureColumn "request_logs" column.1 column.2
  | 11 =>
    ["decode_ms", "decode_out", "decode_n"].map fun column =>
      .ensureColumn "rollup_hourly" column zero
  -- there are no other versions
  | _ => []

/-! ## The columns of each version -/

/-- The columns a later version adds unless they are there: by hand, or by an attempt of another
program. -/
def later (table : String) : List String :=
  if table = "request_bodies" then ["timestamp"]
  else if table = "request_logs" then
    ["attempt", "handed_on", "error", "err_type"] ++ splitColumns.map Prod.fst
  else if table = "rollup_hourly" then
    ["priced_calls", "retried_calls", "loops", "decode_ms", "decode_out", "decode_n"]
  else []

def known : Nat → Option Known
  | 0 => some [("request_logs", none), ("usage_logs", none), ("request_bodies", none),
      ("rollup_hourly", none)]
  | version + 1 => (known version).bind fun k => checkAll later k (apply (version + 1))

theorem known_isSome : ∀ version ≤ schemaVersion, (known version).isSome := by
  decide +kernel

/-- Every table has the columns of the version, and no columns besides but those added later. -/
def HasShape (version : Nat) (db : Database) : Prop :=
  ∃ k, known version = some k ∧ k.Holds db

/-- A database of the version; one from before the versions has the tables of the first. -/
def Shaped (version : Nat) (db : Database) : Prop :=
  db.userVersion = version ∧ (HasShape version db ∨ version = 0 ∧ HasShape 1 db)

/-- What no version after this one touches. -/
def Kept (version : Nat) (table : String) (columns : List String) : Prop :=
  ∀ next ≤ schemaVersion, version < next → ∀ s ∈ apply next, s.touches table columns = false

instance (version : Nat) (table : String) (columns : List String) :
    Decidable (Kept version table columns) :=
  inferInstanceAs (Decidable (∀ next ≤ schemaVersion, version < next →
    ∀ s ∈ apply next, s.touches table columns = false))

variable {version : Nat} {db db' : Database} {table : String} {columns : List String}

/-- The first version finds its own tables, and leaves them. -/
theorem known_first_again : ((known 1).bind fun k => checkAll later k (apply 1)) = known 1 := by
  decide +kernel

theorem hasShape_apply (h : HasShape version db) (hlt : version < schemaVersion) :
    ∃ db', execute none (apply (version + 1)) db = some db' ∧ HasShape (version + 1) db' := by
  obtain ⟨k, hknown, hholds⟩ := h
  obtain ⟨k', hnext⟩ := Option.isSome_iff_exists.mp (known_isSome (version + 1) hlt)
  have hcheck : checkAll later k (apply (version + 1)) = some k' := by
    rwa [known, hknown, Option.bind_some] at hnext
  obtain ⟨db', hexec, hholds'⟩ := checkAll_sound hholds hcheck
  exact ⟨db', hexec, k', hnext, hholds'⟩

theorem hasShape_first_again (h : HasShape 1 db) :
    ∃ db', execute none (apply 1) db = some db' ∧ HasShape 1 db' := by
  obtain ⟨k, hknown, hholds⟩ := h
  have hcheck := known_first_again
  rw [hknown, Option.bind_some] at hcheck
  obtain ⟨db', hexec, hholds'⟩ := checkAll_sound hholds hcheck
  exact ⟨db', hexec, k, hknown, hholds'⟩

/-! ## One version -/

/-- A version goes through, and leaves a database of the next one. -/
theorem shaped_step (h : Shaped version db) (hlt : version < schemaVersion) :
    ∃ db', execute none (apply (version + 1)) db = some db' ∧
      Shaped (version + 1) { db' with userVersion := version + 1 } := by
  rcases h.2 with hshape | ⟨rfl, hshape⟩
  · obtain ⟨db', hexec, hnext⟩ := hasShape_apply hshape hlt
    exact ⟨db', hexec, rfl, .inl hnext⟩
  · obtain ⟨db', hexec, hnext⟩ := hasShape_first_again hshape
    exact ⟨db', hexec, rfl, .inl hnext⟩

theorem migrate_step (h : Shaped version db) (hlt : version < schemaVersion) :
    ∃ db', execute none (apply (version + 1)) db = some db' ∧
      Shaped (version + 1) { db' with userVersion := version + 1 } ∧
      migrate apply schemaVersion noFailure db =
        migrate apply schemaVersion noFailure { db' with userVersion := version + 1 } := by
  obtain ⟨db', hexec, hnext⟩ := shaped_step h hlt
  refine ⟨db', hexec, hnext, ?_⟩
  rw [migrate_succ _ (by rw [h.1]; exact hlt), noFailure, h.1, execute_append, hexec]
  rfl

/-- **The rule of the versions**: what one version makes of a database, the next ones of that. -/
theorem migrate_invariant {I : Nat → Database → Prop}
    (hstep : ∀ version db db', version < schemaVersion → Shaped version db → I version db →
      execute none (apply (version + 1)) db = some db' →
      I (version + 1) { db' with userVersion := version + 1 })
    (hshaped : Shaped version db) (hle : version ≤ schemaVersion) (h : I version db) :
    ∃ db', migrate apply schemaVersion noFailure db = (db', true) ∧
      Shaped schemaVersion db' ∧ I schemaVersion db' := by
  obtain ⟨n, hn⟩ : ∃ n, schemaVersion - version = n := ⟨_, rfl⟩
  induction n generalizing version db with
  | zero =>
    obtain rfl : version = schemaVersion := by omega
    exact ⟨db, migrate_done _ hshaped.1.ge, hshaped, h⟩
  | succ n ih =>
    have hlt : version < schemaVersion := by omega
    obtain ⟨db₁, hexec, hnext, hmigrate⟩ := migrate_step hshaped hlt
    rw [hmigrate]
    exact ih hnext hlt (hstep version db db₁ hlt hshaped h hexec) (by omega)

/-! ## What is kept -/

/-- What no version after that of the database touches. -/
def Preserved (version : Nat) (db : Database) (next : Nat) (db' : Database) : Prop :=
  version ≤ next ∧ ∀ table columns, Kept version table columns →
    Agree columns (db.rows table) (db'.rows table)

theorem migrate_kept (hshaped : Shaped version db) (hle : version ≤ schemaVersion) :
    ∃ db', migrate apply schemaVersion noFailure db = (db', true) ∧ Shaped schemaVersion db' ∧
      ∀ table columns, Kept version table columns →
        Agree columns (db.rows table) (db'.rows table) := by
  have hstart : Preserved version db version db := ⟨Nat.le_refl _, fun _ _ _ => agree_refl _ _⟩
  obtain ⟨db', hmigrate, hshaped', -, hagree⟩ := migrate_invariant
    (fun v db₁ db₂ hlt _ h hexec => by
      refine ⟨Nat.le_succ_of_le h.1, fun table columns hkept => ?_⟩
      have hrows := agree_execute (hkept (v + 1) hlt (Nat.lt_succ_of_le h.1)) hexec
      exact (h.2 table columns hkept).trans hrows) hshaped hle hstart
  exact ⟨db', hmigrate, hshaped', hagree⟩

/-- A body holds the record of its log, and its timestamp once it is stamped. -/
structure BodyOf (stamped : Bool) (log body : Row) : Prop where
  requestId : body "request_id" = log "request_id"
  recordJson : body "record_json" = log "record_json"
  timestamp : body "timestamp" = if stamped then log "timestamp" else .null

/-- Where the records of the first version are. -/
structure Moved (logs : List Row) (version : Nat) (db : Database) : Prop where
  keys : Agree ["request_id", "timestamp"] logs (db.rows "request_logs")
  records : version ≤ 1 → Agree ["request_id", "record_json"] logs (db.rows "request_logs")
  bodies : 2 ≤ version →
    List.Forall₂ (BodyOf (6 ≤ version)) logs (db.rows "request_bodies")

def bodyColumns : List String := ["request_id", "record_json", "timestamp"]

theorem keys_kept : Kept 0 "request_logs" ["request_id", "timestamp"] := by
  decide +kernel

theorem bodies_untouched : ∀ next ≤ schemaVersion, next ≠ 2 → next ≠ 6 →
    ∀ s ∈ apply next, s.touches "request_bodies" bodyColumns = false := by
  decide +kernel

theorem records_untouched :
    ∀ s ∈ apply 1, s.touches "request_logs" ["request_id", "record_json"] = false := by
  decide +kernel

variable {logs : List Row}

/-- The bodies stay what they are while nothing touches them. -/
theorem bodies_agree {stamped : Bool} {bodies bodies' : List Row}
    (h : List.Forall₂ (BodyOf stamped) logs bodies) (hagree : Agree bodyColumns bodies bodies') :
    List.Forall₂ (BodyOf stamped) logs bodies' := by
  induction h generalizing bodies' with
  | nil => cases hagree; exact .nil
  | cons hbody _ ih =>
    cases hagree with
    | cons hrow hrest =>
      refine .cons ⟨?_, ?_, ?_⟩ (ih hrest)
      · exact (hrow _ (by decide)).trans hbody.requestId
      · exact (hrow _ (by decide)).trans hbody.recordJson
      · exact (hrow _ (by decide)).trans hbody.timestamp

theorem no_bodies_yet : (known 1).bind (·.lookup "request_bodies") = some none := by
  decide +kernel

/-- The second version moves the records. -/
theorem bodies_second (hshape : HasShape 1 db) (hexec : execute none (apply 2) db = some db')
    (hnodup : ((db.rows "request_logs").map (· "request_id")).Nodup) :
    Agree bodyColumns ((db.rows "request_logs").map (Row.select · ["request_id", "record_json"]))
      (db'.rows "request_bodies") := by
  obtain ⟨k, hknown, hholds⟩ := hshape
  have hlookup := no_bodies_yet
  rw [hknown, Option.bind_some] at hlookup
  have hnone : db.tables "request_bodies" = none := hholds _ _ hlookup
  obtain ⟨db₂, hmoved, hdrops⟩ := Option.bind_eq_some_iff.mp ((execute_append _ _ _).symm.trans hexec)
  refine .trans ?_ (agree_execute (by decide +kernel) hdrops)
  obtain ⟨db₁, hcreate, hcopy⟩ := Option.bind_eq_some_iff.mp hmoved
  rw [Statement.run, hnone] at hcreate
  cases hcreate
  obtain ⟨db₃, hcopy, hlast⟩ := Option.bind_eq_some_iff.mp hcopy
  cases hlast
  rw [if_neg (by simp)] at hcopy
  have hlogs : (db.setTable "request_bodies" (some ⟨["request_id", "record_json"], []⟩)).rows
      "request_logs" = db.rows "request_logs" := by
    rw [rows_setTable, if_neg (by decide)]
  have hnew : (([] : List Row).map (· "request_id") ++
      (db.rows "request_logs").map (· "request_id")).Nodup := hnodup
  rw [rows_copy (db.setTable_self ..) hcopy, hlogs, insertOrIgnore_nodup (by decide) hnew]
  exact agree_refl _ _

/-- A column of nulls, added where it is missing. -/
theorem bodies_ensure (hbodies : List.Forall₂ (BodyOf false) logs (db.rows "request_bodies"))
    (hrun : (Statement.ensureColumn "request_bodies" "timestamp" .null).run db = some db') :
    List.Forall₂ (BodyOf false) logs (db'.rows "request_bodies") := by
  rcases rows_ensureColumn hrun with hrows | hrows
  · rw [hrows]
    exact hbodies
  · rw [hrows]
    refine List.forall₂_map_right_iff.mpr (hbodies.imp fun log body h => ?_)
    exact ⟨h.requestId, h.recordJson, rfl⟩

/-- The sixth version stamps the bodies that have no timestamp. -/
theorem bodies_sixth (hexec : execute none (apply 6) db = some db')
    (hbodies : List.Forall₂ (BodyOf false) logs (db.rows "request_bodies"))
    (hkeys : Agree ["request_id", "timestamp"] logs (db.rows "request_logs"))
    (hnodup : (logs.map (· "request_id")).Nodup) :
    List.Forall₂ (BodyOf true) logs (db'.rows "request_bodies") := by
  obtain ⟨db₁, hensure, hrest⟩ := Option.bind_eq_some_iff.mp hexec
  obtain ⟨db₂, hindex, hrest⟩ := Option.bind_eq_some_iff.mp hrest
  obtain ⟨db₃, hupdate, hlast⟩ := Option.bind_eq_some_iff.mp hrest
  cases hlast
  have hindexed : Agree bodyColumns (db₁.rows "request_bodies") (db₂.rows "request_bodies") :=
    agree_run rfl hindex
  have hbodies₂ := bodies_agree (bodies_ensure hbodies hensure) hindexed
  have hkeys₂ := (hkeys.trans (agree_run rfl hensure)).trans (agree_run rfl hindex)
  have hids : (db₂.rows "request_logs").map (· "request_id") = logs.map (· "request_id") :=
    hkeys₂.map_eq (by decide)
  -- each log of the first version is still there, and is the one found
  have hfind : ∀ log ∈ logs, ∀ body, BodyOf false log body →
      bodyTimestamp db₂ body = log "timestamp" := by
    intro log hlog body hbody
    obtain ⟨log', hlog', hagree⟩ := hkeys₂.exists_right hlog
    have hid : body "request_id" = log' "request_id" :=
      hbody.requestId.trans (hagree _ (by decide)).symm
    have hnull : body "timestamp" = .null := hbody.timestamp
    rw [bodyTimestamp, if_pos hnull, hid, find_key (hids ▸ hnodup) hlog']
    exact hagree _ (by decide)
  rw [rows_update hupdate]
  refine List.forall₂_map_right_iff.mpr ?_
  have hboth := (List.forall₂_and_left logs _).mpr ⟨fun log hlog => hlog, hbodies₂⟩
  refine hboth.imp fun log body h => ⟨h.2.requestId, h.2.recordJson, ?_⟩
  exact hfind log h.1 body h.2

theorem bodies_select {rows : List Row} (h : Agree ["request_id", "record_json"] logs rows) :
    List.Forall₂ (BodyOf false) logs (rows.map (Row.select · ["request_id", "record_json"])) := by
  refine List.forall₂_map_right_iff.mpr (h.imp fun log row hagree => ⟨?_, ?_, if_neg (by decide)⟩)
  · exact (if_pos (by decide)).trans (hagree _ (by decide))
  · exact (if_pos (by decide)).trans (hagree _ (by decide))

/-- What one version does to the records of the first one. -/
theorem Moved.step (hnodup : (logs.map (· "request_id")).Nodup) (hlt : version < schemaVersion)
    (hshaped : Shaped version db) (h : Moved logs version db)
    (hexec : execute none (apply (version + 1)) db = some db') : Moved logs (version + 1) db' := by
  refine ⟨?_, fun hfirst => ?_, fun hlater => ?_⟩
  · exact h.keys.trans (agree_execute (keys_kept (version + 1) hlt (Nat.succ_pos _)) hexec)
  · obtain rfl : version = 0 := by omega
    exact (h.records (Nat.zero_le _)).trans (agree_execute records_untouched hexec)
  · rcases Nat.eq_or_lt_of_le hlater with hsecond | hlater
    · obtain rfl : version = 1 := by omega
      have hids : (db.rows "request_logs").map (· "request_id") = logs.map (· "request_id") :=
        h.keys.map_eq (by decide)
      have hshape : HasShape 1 db := hshaped.2.resolve_right (by simp)
      have hrecords := h.records (Nat.le_refl _)
      exact bodies_agree (bodies_select hrecords) (bodies_second hshape hexec (hids ▸ hnodup))
    · have hbodies := h.bodies (by omega)
      by_cases hsixth : version + 1 = 6
      · obtain rfl : version = 5 := by omega
        exact bodies_sixth hexec hbodies h.keys hnodup
      · have hagree := agree_execute (bodies_untouched (version + 1) hlt (by omega) hsixth) hexec
        have hstamped : decide (6 ≤ version + 1) = decide (6 ≤ version) := by
          rw [decide_eq_decide]
          omega
        rw [hstamped]
        exact bodies_agree hbodies hagree

/-! ## Every database -/

/-- The columns that the writer of the logs names in its inserts. -/
def written : List (String × List String) :=
  [("request_logs",
      ["request_id", "timestamp", "client_format", "provider", "client_model", "upstream_model",
        "streaming", "method", "path", "response_status", "latency_ms", "input_tokens",
        "output_tokens", "total_tokens", "cache_read_tokens", "cache_write_tokens",
        "reasoning_tokens", "truncated", "client_id", "session_id", "provider_account",
        "served_model", "ttft_ms", "cache_unknown", "cache_write_1h", "decode_ms", "decode_out",
        "cost_usd", "price_version", "attempt", "handed_on", "error", "err_type", "own_ms",
        "sent_ms", "retried_ms", "queued_ms", "masking_ms", "flow_ms", "upstream", "effort",
        "tier_asked", "tier_sent", "tier_served", "subagent", "parent_agent", "kind"]),
    ("request_bodies", ["request_id", "record_json", "timestamp"]),
    ("rollup_hourly",
      ["bucket", "provider", "client_model", "agent", "calls", "errors", "input_tokens",
        "output_tokens", "cache_read_tokens", "cache_write_tokens", "cache_write_1h",
        "cache_unknown_tokens", "reasoning_tokens", "latency_sum_ms", "latency_max_ms",
        "ttft_sum_ms", "ttft_calls", "cost_usd", "priced_calls", "retried_calls", "loops",
        "decode_ms", "decode_out", "decode_n"])]

/-- Every column an insert names is there; a body column, which has no default, is not in the logs
any more. -/
def Writable (db : Database) : Prop :=
  ∀ insert ∈ written, ∃ t, db.tables insert.1 = some t ∧ insert.2 ⊆ t.columns ∧
    (insert.1 = "request_logs" → ∀ c ∈ wideColumns, c ∉ t.columns)

theorem known_last : ∀ insert ∈ written,
    ((known schemaVersion).bind (·.columns insert.1)).any (fun cs => insert.2 ⊆ cs.present ∧
      (insert.1 = "request_logs" → ∀ c ∈ wideColumns, c ∉ cs.possible)) = true := by
  decide +kernel

theorem Shaped.writable (h : Shaped schemaVersion db) : Writable db := by
  intro insert hmem
  obtain ⟨k, hknown, hholds⟩ := h.2.resolve_right (by simp [schemaVersion])
  have hlast := known_last insert hmem
  rw [hknown, Option.bind_some, Option.any_eq_true] at hlast
  obtain ⟨cs, hcolumns, hall⟩ := hlast
  obtain ⟨hpresent, hwide⟩ := of_decide_eq_true hall
  obtain ⟨t, ht, hsub, hpossible⟩ := hholds.columns hcolumns
  refine ⟨t, ht, fun c hc => hsub (hpresent hc), fun hlogs c hc hthere => ?_⟩
  exact hwide hlogs c hc (hpossible hthere)

/-- A database of the first version, with these logs. -/
def firstVersion (logs : List Row) : Database where
  userVersion := 1
  tables table :=
    if table = "request_logs" then some ⟨requestLogsColumns, logs⟩
    else if table = "usage_logs" then some ⟨usageLogsColumns, []⟩
    else none

theorem known_first : known 1 = some
    [("usage_logs", some ⟨usageLogsColumns, usageLogsColumns ++ later "usage_logs"⟩),
      ("request_logs", some ⟨requestLogsColumns, requestLogsColumns ++ later "request_logs"⟩),
      ("request_logs", none), ("usage_logs", none), ("request_bodies", none),
      ("rollup_hourly", none)] := by
  decide +kernel

theorem shaped_firstVersion (logs : List Row) : Shaped 1 (firstVersion logs) := by
  refine ⟨rfl, .inl ⟨_, known_first, fun table cs hlookup => ?_⟩⟩
  by_cases husage : table = "usage_logs"
  · subst husage
    cases hlookup
    exact ⟨_, rfl, List.Subset.refl _, List.subset_append_left _ _⟩
  by_cases hlogs : table = "request_logs"
  · subst hlogs
    cases hlookup
    exact ⟨_, rfl, List.Subset.refl _, List.subset_append_left _ _⟩
  have hnone : (firstVersion logs).tables table = none := (if_neg hlogs).trans (if_neg husage)
  rw [List.lookup_cons, beq_false_of_ne husage, List.lookup_cons, beq_false_of_ne hlogs,
    List.lookup_cons, beq_false_of_ne hlogs, List.lookup_cons, beq_false_of_ne husage] at hlookup
  rw [hnone]
  by_cases hbodies : table = "request_bodies"
  · subst hbodies
    cases hlookup
    rfl
  by_cases hrollup : table = "rollup_hourly"
  · subst hrollup
    cases hlookup
    rfl
  rw [List.lookup_cons, beq_false_of_ne hbodies, List.lookup_cons, beq_false_of_ne hrollup]
    at hlookup
  cases hlookup

def exampleLog : Row := fun column => if column = "request_id" then .text "a" else .integer 1

end AnyConverter.Storage.Schema
