import AnyConverter.Server.Storage.Write

/-!
# The transaction of a batch

The records of a batch share one transaction.  A record that fails is skipped, and the statements before
the one that failed stay.

* `storage_insertAll`: what a batch without a failure does to the storage;
* `together_iff`: when a record that fails is stored in full or not at all.
-/

set_option autoImplicit false

namespace AnyConverter.Storage.Transaction

open Sqlite Sqlite.Numeric

/-! ## Records and rows -/

/-- A record with what is only written of it, `recordJson` being the whole as `serde_json` writes it. -/
structure FullRecord extends RequestLogRecord where
  clientFormat : String := ""
  method : String := ""
  path : String := ""
  truncated : Bool := false
  priceVersion : Option String := none
  handedOn : Bool := false
  error : Option String := none
  ownMs : Nat := 0
  sentMs : Nat := 0
  retriedMs : Nat := 0
  queuedMs : Nat := 0
  maskingMs : Nat := 0
  flowMs : Nat := 0
  upstream : Option String := none
  effort : Option String := none
  tierAsked : Option String := none
  tierSent : Option String := none
  tierServed : Option String := none
  subagent : Option String := none
  parentAgent : Option String := none
  kind : Option String := none
  recordJson : String

/-- A row of `request_logs`, with all its columns. -/
structure NarrowRow extends LogRow where
  clientFormat : String
  method : String
  path : String
  totalTokens : Int
  truncated : Bool
  priceVersion : Option String
  handedOn : Bool
  error : Option String
  ownMs : Int
  sentMs : Int
  retriedMs : Int
  queuedMs : Int
  maskingMs : Int
  flowMs : Int
  upstream : Option String
  effort : Option String
  tierAsked : Option String
  tierSent : Option String
  tierServed : Option String
  subagent : Option String
  parentAgent : Option String
  kind : Option String

/-- A row of `request_bodies`. -/
structure WidePayload extends BodyRow where
  recordJson : String

namespace FullRecord

def narrowRow (r : FullRecord) : NarrowRow where
  toLogRow := r.logRow
  clientFormat := r.clientFormat
  method := r.method
  path := r.path
  totalTokens := toI64 ((r.usage.inputTokens + r.usage.outputTokens) % 2 ^ 64)
  truncated := r.truncated
  priceVersion := r.priceVersion
  handedOn := r.handedOn
  error := r.error
  ownMs := toI64 r.ownMs
  sentMs := toI64 r.sentMs
  retriedMs := toI64 r.retriedMs
  queuedMs := toI64 r.queuedMs
  maskingMs := toI64 r.maskingMs
  flowMs := toI64 r.flowMs
  upstream := r.upstream
  effort := r.effort
  tierAsked := r.tierAsked
  tierSent := r.tierSent
  tierServed := r.tierServed
  subagent := r.subagent
  parentAgent := r.parentAgent
  kind := r.kind

def widePayload (r : FullRecord) : WidePayload := ⟨⟨some r.timestamp⟩, r.recordJson⟩

end FullRecord

/-! ## The statements of a record -/

structure Tables where
  requestLogs : Table String NarrowRow
  requestBodies : Table String WidePayload
  rollupHourly : Table RollupKey RollupRow

namespace Tables

def empty : Tables := ⟨.empty, .empty, .empty⟩

/-- `select exists(select 1 from request_logs where request_id = ?1)` -/
def existed (t : Tables) (id : String) : Bool := (t.requestLogs.find id).isSome

def insertNarrowRow (t : Tables) (r : FullRecord) : Tables :=
  { t with requestLogs := t.requestLogs.upsert r.requestId r.narrowRow fun _ => r.narrowRow }

def insertWidePayload (t : Tables) (r : FullRecord) : Tables :=
  { t with requestBodies := t.requestBodies.upsert r.requestId r.widePayload fun _ => r.widePayload }

def upsertRollup (t : Tables) (r : FullRecord) : Tables :=
  { t with
    rollupHourly := t.rollupHourly.upsert r.rollupKey r.rollupRow fun row => row.merge r.rollupRow }

end Tables

/-- Where the insertion of a record can fail. -/
inductive Statement where
  | recordJson | existed | requestLogs | requestBodies | rollupHourly
  deriving DecidableEq

/-- Statements in a transaction: one that fails leaves the tables as they are. -/
abbrev Write := ExceptT Statement (StateM Tables)

def execute (failing : Option Statement) (statement : Statement) (effect : Tables → Tables) : Write Unit :=
  if failing = some statement then throw statement else modify effect

def insertRequestLogRow (failing : Option Statement) (record : FullRecord) : Write Unit := do
  execute failing .recordJson id
  execute failing .existed id
  let existed := (← get).existed record.requestId
  execute failing .requestLogs (·.insertNarrowRow record)
  execute failing .requestBodies (·.insertWidePayload record)
  if !existed then
    execute failing .rollupHourly (·.upsertRollup record)

/-- A batch, each record with the statement at which it fails; its error is logged. -/
def insertRequestLogs (t : Tables) (batch : List (FullRecord × Option Statement)) : Tables :=
  batch.foldl (fun t record => ((insertRequestLogRow record.2 record.1).run.run t).2) t

/-- A batch of which no record fails. -/
def insertAll (t : Tables) (records : List FullRecord) : Tables :=
  insertRequestLogs t (records.map (·, none))

/-! ## What a record changes -/

/-- All that a record adds. -/
def Tables.insert (t : Tables) (r : FullRecord) : Tables :=
  if t.existed r.requestId then (t.insertNarrowRow r).insertWidePayload r
  else ((t.insertNarrowRow r).insertWidePayload r).upsertRollup r

/-- What a record leaves, by the statement at which it fails. -/
theorem run_insertRequestLogRow (failing : Option Statement) (r : FullRecord) (t : Tables) :
    ((insertRequestLogRow failing r).run.run t).2 = match failing with
      | none => t.insert r
      | some .recordJson | some .existed | some .requestLogs => t
      | some .requestBodies => t.insertNarrowRow r
      | some .rollupHourly => (t.insertNarrowRow r).insertWidePayload r := by
  have hrollup : ∀ failing, failing ∈ [none, some Statement.rollupHourly] →
      (insertRequestLogRow failing r).run.run t =
        (if !t.existed r.requestId then execute failing .rollupHourly (·.upsertRollup r)
          else pure () : Write Unit).run.run ((t.insertNarrowRow r).insertWidePayload r) := by
    intro failing hfailing
    rcases List.mem_pair.mp hfailing with rfl | rfl <;> rfl
  cases failing with
  | none =>
    rw [hrollup none (by decide)]
    unfold Tables.insert
    cases t.existed r.requestId <;> rfl
  | some statement =>
    cases statement with
    | recordJson | existed | requestLogs | requestBodies => rfl
    | rollupHourly =>
      rw [hrollup (some .rollupHourly) (by decide)]
      cases t.existed r.requestId <;> rfl

variable {t u : Tables} {r : FullRecord} {records : List FullRecord}

theorem insertRequestLogs_append (t : Tables) (xs ys : List (FullRecord × Option Statement)) :
    insertRequestLogs t (xs ++ ys) = insertRequestLogs (insertRequestLogs t xs) ys :=
  List.foldl_append ..

theorem insertAll_cons (t : Tables) (r : FullRecord) (records : List FullRecord) :
    insertAll t (r :: records) = insertAll (t.insert r) records := by
  unfold insertAll insertRequestLogs
  rw [List.map_cons, List.foldl_cons, run_insertRequestLogRow]

theorem insertAll_append (t : Tables) (xs ys : List FullRecord) :
    insertAll t (xs ++ ys) = insertAll (insertAll t xs) ys := by
  unfold insertAll
  rw [List.map_append, insertRequestLogs_append]

namespace Tables

theorem find_insertNarrowRow (t : Tables) (r : FullRecord) (id : String) :
    (t.insertNarrowRow r).requestLogs.find id =
      if id = r.requestId then some r.narrowRow else t.requestLogs.find id := by
  refine (Table.find_upsert _ _ _ _ _).trans ?_
  cases t.requestLogs.find r.requestId <;> rfl

theorem find_insertWidePayload (t : Tables) (r : FullRecord) (id : String) :
    (t.insertWidePayload r).requestBodies.find id =
      if id = r.requestId then some r.widePayload else t.requestBodies.find id := by
  refine (Table.find_upsert _ _ _ _ _).trans ?_
  cases t.requestBodies.find r.requestId <;> rfl

theorem insert_requestLogs (t : Tables) (r : FullRecord) :
    (t.insert r).requestLogs = (t.insertNarrowRow r).requestLogs := by
  unfold insert
  split <;> rfl

theorem insert_requestBodies (t : Tables) (r : FullRecord) :
    (t.insert r).requestBodies = (t.insertWidePayload r).requestBodies := by
  unfold insert
  split <;> rfl

theorem insert_rollupHourly (t : Tables) (r : FullRecord) : (t.insert r).rollupHourly =
    if t.existed r.requestId then t.rollupHourly else (t.upsertRollup r).rollupHourly := by
  unfold insert
  split <;> rfl

theorem existed_insertNarrowRow (t : Tables) (r : FullRecord) (id : String) :
    (t.insertNarrowRow r).existed id = (decide (id = r.requestId) || t.existed id) := by
  unfold existed
  rw [find_insertNarrowRow]
  by_cases hid : id = r.requestId <;> simp [hid]

theorem existed_insert (t : Tables) (r : FullRecord) (id : String) :
    (t.insert r).existed id = (decide (id = r.requestId) || t.existed id) := by
  rw [← existed_insertNarrowRow]
  unfold existed
  rw [insert_requestLogs]

end Tables

/-- A batch leaves the rows and the bodies of other ids. -/
theorem insertAll_of_not_mem {id : String} (h : id ∉ records.map (·.requestId)) (t : Tables) :
    (insertAll t records).requestLogs.find id = t.requestLogs.find id ∧
      (insertAll t records).requestBodies.find id = t.requestBodies.find id := by
  induction records generalizing t with
  | nil => exact ⟨rfl, rfl⟩
  | cons r records ih =>
    rw [List.map_cons, List.mem_cons, not_or] at h
    obtain ⟨hlogs, hbodies⟩ := ih h.2 (t.insert r)
    rw [insertAll_cons, hlogs, hbodies, Tables.insert_requestLogs, Tables.insert_requestBodies,
      Tables.find_insertNarrowRow, Tables.find_insertWidePayload, if_neg h.1, if_neg h.1]
    exact ⟨rfl, rfl⟩

/-- An id of a batch has the row and the body of its last record there. -/
theorem insertAll_of_mem {id : String} (h : id ∈ records.map (·.requestId)) : ∃ last : FullRecord,
    ∀ t, (insertAll t records).requestLogs.find id = some last.narrowRow ∧
      (insertAll t records).requestBodies.find id = some last.widePayload := by
  induction records with
  | nil => cases h
  | cons r records ih =>
    by_cases hrest : id ∈ records.map (·.requestId)
    · obtain ⟨last, hlast⟩ := ih hrest
      exact ⟨last, fun t => by rw [insertAll_cons]; exact hlast _⟩
    · obtain rfl : id = r.requestId := (List.mem_cons.mp h).resolve_right hrest
      refine ⟨r, fun t => ?_⟩
      obtain ⟨hlogs, hbodies⟩ := insertAll_of_not_mem hrest (t.insert r)
      rw [insertAll_cons, hlogs, hbodies, Tables.insert_requestLogs, Tables.insert_requestBodies,
        Tables.find_insertNarrowRow, Tables.find_insertWidePayload, if_pos rfl, if_pos rfl]
      exact ⟨rfl, rfl⟩

/-- What a batch adds to the rollup depends on the ids that are there. -/
theorem rollup_insertAll (hexisted : ∀ id, t.existed id = u.existed id)
    (hrollup : t.rollupHourly = u.rollupHourly) (records : List FullRecord) :
    (insertAll t records).rollupHourly = (insertAll u records).rollupHourly := by
  induction records generalizing t u with
  | nil => exact hrollup
  | cons r records ih =>
    rw [insertAll_cons, insertAll_cons]
    refine ih (fun id => ?_) ?_
    · rw [Tables.existed_insert, Tables.existed_insert, hexisted]
    · rw [Tables.insert_rollupHourly, Tables.insert_rollupHourly, hexisted, Tables.upsertRollup,
        Tables.upsertRollup, hrollup]

/-! ## What is counted -/

theorem value_add (a b : Numeric) : (add a b).value = a.value + b.value := by
  cases a with
  | real x => rfl
  | int x =>
    cases b with
    | real y => rfl
    | int y =>
      show (if Fits (x + y) then int (x + y) else real (x + y : Int)).value = (x : ℚ) + y
      split <;> simp

theorem value_toInteger (v : Numeric) : (toInteger v).value = v.value := by
  cases v with
  | int z => rfl
  | real q =>
    show (if q.den = 1 ∧ Fits q.num then int q.num else real q).value = q
    split
    · rename_i h
      exact Rat.coe_int_num_of_den_eq_one h.1
    · rfl

namespace Tables

/-- The calls of the rollup, less the rows of the log. -/
def balance (t : Tables) : ℚ :=
  (t.rollupHourly.rows.map fun row => (row.2.counters .calls).value).sum - t.requestLogs.rows.length

theorem balance_upsertRollup (t : Tables) (r : FullRecord) :
    (t.upsertRollup r).balance = t.balance + 1 := by
  have hsum : ((t.upsertRollup r).rollupHourly.rows.map fun row => (row.2.counters .calls).value).sum =
      (t.rollupHourly.rows.map fun row => (row.2.counters .calls).value).sum + 1 := by
    refine Table.sum_upsert (fun row : RollupRow => (row.counters .calls).value) 1 t.rollupHourly
      Int.cast_one fun row => ?_
    show (toInteger (add (row.counters .calls) (int 1))).value = (row.counters .calls).value + 1
    rw [value_toInteger, value_add, value_int, Int.cast_one]
  unfold balance
  rw [hsum, add_sub_right_comm]
  rfl

theorem balance_insertNarrowRow (t : Tables) (r : FullRecord) : (t.insertNarrowRow r).balance =
    if t.existed r.requestId then t.balance else t.balance - 1 := by
  have hlength : (t.insertNarrowRow r).requestLogs.rows.length =
      if t.existed r.requestId then t.requestLogs.rows.length else t.requestLogs.rows.length + 1 :=
    Table.length_upsert _ _ _ _
  unfold balance
  rw [hlength]
  split
  · rfl
  · rw [Nat.cast_add, Nat.cast_one, ← sub_sub]
    rfl

theorem balance_insertWidePayload (t : Tables) (r : FullRecord) :
    (t.insertWidePayload r).balance = t.balance := rfl

/-- A record that is stored in full keeps the balance. -/
theorem balance_insert (t : Tables) (r : FullRecord) : (t.insert r).balance = t.balance := by
  unfold insert
  split
  · rename_i hexisted
    rw [balance_insertWidePayload, balance_insertNarrowRow, if_pos hexisted]
  · rename_i hnew
    rw [balance_upsertRollup, balance_insertWidePayload, balance_insertNarrowRow, if_neg hnew,
      sub_add_cancel]

theorem balance_insertAll (t : Tables) (records : List FullRecord) :
    (insertAll t records).balance = t.balance := by
  induction records generalizing t with
  | nil => rfl
  | cons r records ih => rw [insertAll_cons, ih, balance_insert]

/-- The same rows in each table. -/
structure Same (t u : Tables) : Prop where
  requestLogs : t.requestLogs.Same u.requestLogs
  requestBodies : t.requestBodies.Same u.requestBodies
  rollupHourly : t.rollupHourly.Same u.rollupHourly

theorem Same.balance {t u : Tables} (h : t.Same u) : t.balance = u.balance := by
  unfold Tables.balance
  rw [h.requestLogs.length_eq, (h.rollupHourly.map _).sum_eq]

end Tables

/-- Batches end in the same tables exactly when the ids that they leave are the same before. -/
theorem same_insertAll_iff (hexisted : ∀ id, t.existed id = u.existed id)
    (hrollup : t.rollupHourly = u.rollupHourly) (records : List FullRecord) :
    (insertAll t records).Same (insertAll u records) ↔ ∀ id ∉ records.map (·.requestId),
      t.requestLogs.find id = u.requestLogs.find id ∧ t.requestBodies.find id = u.requestBodies.find id := by
  constructor
  · intro h id hid
    obtain ⟨hlogs, hbodies⟩ := insertAll_of_not_mem hid t
    obtain ⟨hlogs', hbodies'⟩ := insertAll_of_not_mem hid u
    rw [← hlogs, ← hbodies, ← hlogs', ← hbodies']
    exact ⟨Table.same_iff.mp h.requestLogs id, Table.same_iff.mp h.requestBodies id⟩
  · intro h
    have hfind : ∀ id, (insertAll t records).requestLogs.find id = (insertAll u records).requestLogs.find id ∧
        (insertAll t records).requestBodies.find id = (insertAll u records).requestBodies.find id := by
      intro id
      by_cases hid : id ∈ records.map (·.requestId)
      · obtain ⟨last, hlast⟩ := insertAll_of_mem hid
        rw [(hlast t).1, (hlast t).2, (hlast u).1, (hlast u).2]
        exact ⟨rfl, rfl⟩
      · obtain ⟨hlogs, hbodies⟩ := insertAll_of_not_mem hid t
        obtain ⟨hlogs', hbodies'⟩ := insertAll_of_not_mem hid u
        rw [hlogs, hbodies, hlogs', hbodies']
        exact h id hid
    refine ⟨Table.same_iff.mpr fun id => (hfind id).1, Table.same_iff.mpr fun id => (hfind id).2, ?_⟩
    rw [rollup_insertAll hexisted hrollup]
    exact List.Perm.refl _

theorem existed_insertAll {id : String} (h : t.existed id = true) (records : List FullRecord) :
    (insertAll t records).existed id = true := by
  induction records generalizing t with
  | nil => exact h
  | cons r records ih =>
    rw [insertAll_cons]
    exact ih (by rw [Tables.existed_insert, h, Bool.or_true])

/-- A record whose id was there before a batch adds nothing to the rollup after it. -/
theorem rollup_again (h : t.existed r.requestId = true) (records : List FullRecord) :
    (insertAll (insertAll t records) [r]).rollupHourly = (insertAll t records).rollupHourly := by
  rw [insertAll_cons]
  exact (Tables.insert_rollupHourly _ r).trans (if_pos (existed_insertAll h records))

/-! ## A record that fails -/

/-- What is committed when one record of a batch fails. -/
def committed (t : Tables) (before : List FullRecord) (r : FullRecord) (failing : Statement)
    (after : List FullRecord) : Tables :=
  insertRequestLogs t (before.map (·, none) ++ (r, some failing) :: after.map (·, none))

/-- The record that fails is stored in full or not at all, and the others in full; inserted again, it is
counted as one that is inserted once. -/
structure Together (t : Tables) (before : List FullRecord) (r : FullRecord) (failing : Statement)
    (after : List FullRecord) : Prop where
  stored : (committed t before r failing after).Same (insertAll t (before ++ r :: after)) ∨
    (committed t before r failing after).Same (insertAll t (before ++ after))
  counted : (insertAll (committed t before r failing after) [r]).rollupHourly.Same
      (insertAll t (before ++ r :: after)).rollupHourly ∨
    (insertAll (committed t before r failing after) [r]).rollupHourly.Same
      (insertAll t (before ++ after ++ [r])).rollupHourly

variable {before after : List FullRecord} {failing : Statement}

theorem committed_eq (t : Tables) (before : List FullRecord) (r : FullRecord) (failing : Statement)
    (after : List FullRecord) : committed t before r failing after =
      insertAll ((insertRequestLogRow (some failing) r).run.run (insertAll t before)).2 after := by
  unfold committed
  rw [insertRequestLogs_append]
  rfl

/-- A record that leaves a row that is not counted is neither stored in full nor left out. -/
theorem not_together (hbalance : (committed t before r failing after).balance = t.balance - 1) :
    ¬Together t before r failing after := by
  intro h
  have hne : t.balance - 1 ≠ t.balance := by
    intro heq
    exact one_ne_zero (sub_eq_self.mp heq)
  rcases h.stored with hsame | hsame
  · exact hne (by rw [← hbalance, hsame.balance, Tables.balance_insertAll])
  · exact hne (by rw [← hbalance, hsame.balance, Tables.balance_insertAll])

/-- The statements that come before anything is written. -/
def Statement.early (failing : Statement) : Prop :=
  failing = .recordJson ∨ failing = .existed ∨ failing = .requestLogs

theorem together_early (hearly : failing.early) : Together t before r failing after := by
  have hcommitted : committed t before r failing after = insertAll t (before ++ after) := by
    rw [committed_eq, run_insertRequestLogRow, insertAll_append]
    rcases hearly with rfl | rfl | rfl <;> rfl
  constructor
  · rw [hcommitted]
    exact Or.inr ⟨List.Perm.refl _, List.Perm.refl _, List.Perm.refl _⟩
  · rw [hcommitted, ← insertAll_append]
    exact Or.inr (List.Perm.refl _)

/-- A replay that fails at its body: the row is refreshed and the body is not. -/
theorem together_body_iff (hexisted : (insertAll t before).existed r.requestId = true) :
    Together t before r .requestBodies after ↔ r.requestId ∈ after.map (·.requestId) ∨
      (insertAll t before).requestLogs.find r.requestId = some r.narrowRow ∨
      (insertAll t before).requestBodies.find r.requestId = some r.widePayload := by
  set s := insertAll t before with hs
  have hcommitted : committed t before r .requestBodies after = insertAll (s.insertNarrowRow r) after := by
    rw [committed_eq, run_insertRequestLogRow]
  have hfull : insertAll t (before ++ r :: after) = insertAll (s.insert r) after := by
    rw [insertAll_append, insertAll_cons]
  have hwithout : insertAll t (before ++ after) = insertAll s after := insertAll_append ..
  have hids : ∀ id, (s.insertNarrowRow r).existed id = s.existed id := by
    intro id
    rw [Tables.existed_insertNarrowRow]
    by_cases hid : id = r.requestId
    · rw [hid, hexisted, Bool.or_true]
    · rw [decide_eq_false hid, Bool.false_or]
  have hrollup : (s.insert r).rollupHourly = s.rollupHourly := by
    rw [Tables.insert_rollupHourly, if_pos hexisted]
  -- with the whole record, only its body may differ; without it, only its row
  have hsame : (insertAll (s.insertNarrowRow r) after).Same (insertAll (s.insert r) after) ↔
      r.requestId ∈ after.map (·.requestId) ∨ s.requestBodies.find r.requestId = some r.widePayload := by
    refine (same_insertAll_iff (t := s.insertNarrowRow r)
      (fun id => by rw [Tables.existed_insertNarrowRow, Tables.existed_insert]) hrollup.symm after).trans ?_
    rw [Tables.insert_requestLogs, Tables.insert_requestBodies]
    constructor
    · intro h
      by_cases hmem : r.requestId ∈ after.map (·.requestId)
      · exact Or.inl hmem
      · have hbody := (h r.requestId hmem).2
        rw [Tables.find_insertWidePayload, if_pos rfl] at hbody
        exact Or.inr hbody
    · intro h id hid
      refine ⟨rfl, ?_⟩
      rw [Tables.find_insertWidePayload]
      split
      · rename_i heq
        rw [heq] at hid ⊢
        exact h.resolve_left hid
      · rfl
  have hsame' : (insertAll (s.insertNarrowRow r) after).Same (insertAll s after) ↔
      r.requestId ∈ after.map (·.requestId) ∨ s.requestLogs.find r.requestId = some r.narrowRow := by
    refine (same_insertAll_iff (t := s.insertNarrowRow r) hids rfl after).trans ?_
    constructor
    · intro h
      by_cases hmem : r.requestId ∈ after.map (·.requestId)
      · exact Or.inl hmem
      · have hrow := (h r.requestId hmem).1
        rw [Tables.find_insertNarrowRow, if_pos rfl] at hrow
        exact Or.inr hrow.symm
    · intro h id hid
      refine ⟨?_, rfl⟩
      rw [Tables.find_insertNarrowRow]
      split
      · rename_i heq
        rw [heq] at hid ⊢
        exact (h.resolve_left hid).symm
      · rfl
  have hcounted : (insertAll (committed t before r .requestBodies after) [r]).rollupHourly =
      (insertAll t (before ++ r :: after)).rollupHourly := by
    rw [hcommitted, hfull, rollup_again, rollup_insertAll (t := s.insertNarrowRow r)
      (fun id => by rw [Tables.existed_insertNarrowRow, Tables.existed_insert]) hrollup.symm]
    rw [Tables.existed_insertNarrowRow, hexisted, Bool.or_true]
  constructor
  · rintro ⟨hstored, -⟩
    rw [hcommitted, hfull, hwithout, hsame, hsame'] at hstored
    tauto
  · intro h
    refine ⟨?_, Or.inl (hcounted ▸ List.Perm.refl _)⟩
    rw [hcommitted, hfull, hwithout, hsame, hsame']
    tauto

/-- A replay adds nothing to the rollup, so it does not fail there. -/
theorem together_rollup (hexisted : (insertAll t before).existed r.requestId = true) :
    Together t before r .rollupHourly after := by
  have hcommitted : committed t before r .rollupHourly after = insertAll t (before ++ r :: after) := by
    have hinsert : ((insertAll t before).insertNarrowRow r).insertWidePayload r =
        (insertAll t before).insert r := (if_pos hexisted).symm
    rw [committed_eq, run_insertRequestLogRow, insertAll_append, insertAll_cons]
    exact congrArg (insertAll · after) hinsert
  constructor
  · rw [hcommitted]
    exact Or.inl ⟨List.Perm.refl _, List.Perm.refl _, List.Perm.refl _⟩
  · rw [hcommitted, insertAll_append t before (r :: after), rollup_again hexisted]
    exact Or.inl (List.Perm.refl _)

/-- A new record that fails after its row is written is not counted. -/
theorem balance_committed (hnew : (insertAll t before).existed r.requestId = false)
    (hlate : failing = .requestBodies ∨ failing = .rollupHourly) :
    (committed t before r failing after).balance = t.balance - 1 := by
  have hrow : ((insertAll t before).insertNarrowRow r).balance = t.balance - 1 := by
    rw [Tables.balance_insertNarrowRow, if_neg (by simp [hnew]), Tables.balance_insertAll]
  rw [committed_eq, run_insertRequestLogRow, Tables.balance_insertAll]
  rcases hlate with rfl | rfl
  · exact hrow
  · exact hrow

/-- **A record that fails** is stored in full or not at all, and counted once when it is inserted again,
exactly when it fails before anything is written, or its id was there and it is not counted anew: at the
rollup, which it does not reach, or at the body, where it changes no row or no body, or a later record of
the batch has its id. -/
theorem together_iff (t : Tables) (before : List FullRecord) (r : FullRecord) (failing : Statement)
    (after : List FullRecord) : Together t before r failing after ↔
      failing.early ∨ (insertAll t before).existed r.requestId = true ∧
        (failing = .rollupHourly ∨ r.requestId ∈ after.map (·.requestId) ∨
          (insertAll t before).requestLogs.find r.requestId = some r.narrowRow ∨
          (insertAll t before).requestBodies.find r.requestId = some r.widePayload) := by
  by_cases hearly : failing.early
  · exact iff_of_true (together_early hearly) (Or.inl hearly)
  · rw [or_iff_right hearly]
    have hlate : failing = .requestBodies ∨ failing = .rollupHourly := by
      unfold Statement.early at hearly
      cases failing <;> simp at hearly ⊢
    cases hexisted : (insertAll t before).existed r.requestId with
    | false =>
      exact iff_of_false (not_together (balance_committed hexisted hlate)) fun h => Bool.false_ne_true h.1
    | true =>
      rw [and_iff_right rfl]
      rcases hlate with rfl | rfl
      · have hne : ¬Statement.requestBodies = .rollupHourly := by decide
        rw [together_body_iff hexisted, or_iff_right hne]
      · exact iff_of_true (together_rollup hexisted) (Or.inl rfl)

def exampleRecord (id : String) : FullRecord where
  requestId := id
  timestamp := "2026-01-01T10:00:00Z"
  provider := "p"
  clientModel := "m"
  responseStatus := 200
  latencyMs := 5
  recordJson := "{}"

/-- A new record that fails at its body, or at the rollup, leaves its row, and is not counted when it is
inserted again. -/
theorem row_without_body :
    ((committed .empty [] (exampleRecord "1") .requestBodies [exampleRecord "2"]).existed "1" = true ∧
      ((committed .empty [] (exampleRecord "1") .requestBodies [exampleRecord "2"]).requestBodies.find
        "1").isNone = true) ∧
    ((insertAll (committed .empty [] (exampleRecord "1") .requestBodies []) [exampleRecord "1"]).existed
        "1" = true ∧
      (insertAll (committed .empty [] (exampleRecord "1") .requestBodies [])
        [exampleRecord "1"]).rollupHourly.rows.length = 0) ∧
    (insertAll (committed .empty [] (exampleRecord "1") .rollupHourly [])
        [exampleRecord "1"]).rollupHourly.rows.length = 0 := by
  decide +kernel

/-! ## The storage -/

/-- The columns that are read. -/
def Tables.storage (t : Tables) : SqliteStorage where
  requestLogs := t.requestLogs.mapValues NarrowRow.toLogRow
  requestBodies := t.requestBodies.mapValues WidePayload.toBodyRow
  rollupHourly := t.rollupHourly

theorem storage_insert (t : Tables) (r : FullRecord) :
    (t.insert r).storage = Storage.insertRequestLogRow t.storage r.toRequestLogRecord := by
  have hlogs : (t.insertNarrowRow r).requestLogs.mapValues NarrowRow.toLogRow =
      t.storage.requestLogs.upsert r.requestId r.logRow fun _ => r.logRow :=
    Table.mapValues_upsert _ _ _ _ fun _ => rfl
  have hbodies : (t.insertWidePayload r).requestBodies.mapValues WidePayload.toBodyRow =
      t.storage.requestBodies.upsert r.requestId ⟨some r.timestamp⟩ fun _ => ⟨some r.timestamp⟩ :=
    Table.mapValues_upsert _ _ _ _ fun _ => rfl
  have hexisted : (t.storage.requestLogs.find r.requestId).isSome = t.existed r.requestId := by
    show ((t.requestLogs.mapValues NarrowRow.toLogRow).find r.requestId).isSome = _
    rw [Table.find_mapValues, Option.isSome_map]
    rfl
  unfold Storage.insertRequestLogRow
  rw [hexisted]
  unfold Tables.storage
  rw [Tables.insert_requestLogs, Tables.insert_requestBodies, Tables.insert_rollupHourly, hlogs, hbodies]
  cases t.existed r.requestId <;> rfl

/-- **Without a failure**, a batch does to the columns that are read what it does to the storage. -/
theorem storage_insertAll (t : Tables) (records : List FullRecord) : (insertAll t records).storage =
    Storage.insertRequestLogs t.storage (records.map FullRecord.toRequestLogRecord) := by
  induction records generalizing t with
  | nil => rfl
  | cons r records ih =>
    rw [insertAll_cons, ih, storage_insert]
    rfl

end AnyConverter.Storage.Transaction
