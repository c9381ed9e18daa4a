import AnyConverter.Lib.Runs
import AnyConverter.Server.Storage.Transaction

/-!
# The writer of the request log

Any number of handles put records into a bounded channel; one task takes them out, writes each as a
line, and stores them in batches.

* `Accounted.step`: where every record is that the channel has taken;
* `records_accounted`: what the lines and the tables hold after any run.
-/

set_option autoImplicit false

namespace AnyConverter.LogWriter

open Runs Storage.Transaction

/-- Flush the sqlite mirror once this many records are buffered. -/
def batchMax : Nat := 256

def channelCapacity : Nat := 256

theorem batchMax_pos : 0 < batchMax := by decide

/-! ## Steps -/

/-- How a transaction goes: not at all, or with the statement at which each record fails. -/
abbrev Outcome := Option (Nat → Option Statement)

def stored : Outcome := some fun _ => none

structure State where
  channel : List FullRecord
  /-- every handle is gone -/
  closed : Bool
  batch : List FullRecord
  running : Bool
  /-- the lines, whichever files they are in -/
  lines : List FullRecord
  sqlite : Option Tables
  /-- all that the channel has taken -/
  accepted : List FullRecord

def start (sqlite : Option Tables) : State where
  channel := []
  closed := false
  batch := []
  running := true
  lines := []
  sqlite := sqlite
  accepted := []

inductive Act where
  /-- a handle logs a record -/
  | log (record : FullRecord)
  /-- the last handle is dropped -/
  | close
  /-- the task takes a record: whether its line is written, and how the batch goes when it is full -/
  | recv (written : Bool) (outcome : Outcome)
  | timeout (outcome : Outcome)
  /-- the task finds the channel closed -/
  | closes (outcome : Outcome)

/-- `insert_request_logs`: an error of its own is logged, and the batch dropped. -/
def insertBatch (outcome : Outcome) (t : Tables) (batch : List FullRecord) : Tables :=
  match outcome with
  | none => t
  | some failing => insertRequestLogs t (batch.mapIdx fun i record => (record, failing i))

/-- Commit the buffered batch in one transaction, then drop it. -/
def flushSqlite (outcome : Outcome) (s : State) : State :=
  if s.batch = [] then s
  else { s with sqlite := s.sqlite.map (insertBatch outcome · s.batch), batch := [] }

def step (s : State) : Act → Option State
  | .log record =>
    if s.closed then none
    else if s.channel.length < channelCapacity then
      some { s with channel := s.channel ++ [record], accepted := s.accepted ++ [record] }
    else some s
  | .close => if s.closed then none else some { s with closed := true }
  | .recv written outcome =>
    if s.running then
      match s.channel with
      | [] => none
      | record :: channel =>
        let s := { s with
          channel := channel
          lines := if written then s.lines ++ [record] else s.lines
          batch := s.batch ++ [record] }
        some (if batchMax ≤ s.batch.length then flushSqlite outcome s else s)
    else none
  | .timeout outcome => if s.running then some (flushSqlite outcome s) else none
  | .closes outcome =>
    if s.running ∧ s.closed ∧ s.channel = [] then
      some { flushSqlite outcome s with running := false }
    else none

/-! ## Where the records are -/

/-- A batch that was flushed, and how its transaction went. -/
structure Flushed where
  records : List FullRecord
  outcome : Outcome

def records (flushed : List Flushed) : List FullRecord := flushed.flatMap Flushed.records

def insertFlushed (t : Tables) (flushed : List Flushed) : Tables :=
  flushed.foldl (fun t batch => insertBatch batch.outcome t batch.records) t

/-- Every record the channel has taken was flushed, is in the batch or waits, in the order in which
it was logged. -/
structure Held (sqlite : Option Tables) (flushed : List Flushed) (s : State) : Prop where
  accepted : s.accepted = records flushed ++ s.batch ++ s.channel
  batches : ∀ batch ∈ flushed, batch.records ≠ [] ∧ batch.records.length ≤ batchMax
  batch : s.batch.length ≤ batchMax
  channel : s.channel.length ≤ channelCapacity
  lines : s.lines.Sublist (records flushed ++ s.batch)
  tables : s.sqlite = sqlite.map (insertFlushed · flushed)
  ended : s.running = false → s.closed = true ∧ s.batch = [] ∧ s.channel = []

/-- Between two steps the batch is not full. -/
structure Accounted (sqlite : Option Tables) (flushed : List Flushed) (s : State) : Prop extends
    Held sqlite flushed s where
  room : s.batch.length < batchMax

/-- The records of the log calls, in their order. -/
def logged : List Act → List FullRecord
  | [] => []
  | .log record :: acts => record :: logged acts
  | _ :: acts => logged acts

/-- Nothing goes wrong with the files or the database. -/
def Act.Clean : Act → Prop
  | .recv written outcome => written = true ∧ outcome = stored
  | .timeout outcome => outcome = stored
  | .closes outcome => outcome = stored
  | _ => True

variable {s s' : State} {sqlite : Option Tables} {flushed : List Flushed} {outcome : Outcome}

theorem records_append (flushed flushed' : List Flushed) :
    records (flushed ++ flushed') = records flushed ++ records flushed' :=
  List.flatMap_append ..

theorem records_singleton (batch : Flushed) : records [batch] = batch.records :=
  List.flatMap_singleton ..

theorem insertFlushed_concat (t : Tables) (flushed : List Flushed) (batch : Flushed) :
    insertFlushed t (flushed ++ [batch]) =
      insertBatch batch.outcome (insertFlushed t flushed) batch.records := by
  rw [insertFlushed, List.foldl_append]
  rfl

/-- A batch of which nothing fails is its records, one after the other. -/
theorem insertBatch_stored (t : Tables) (batch : List FullRecord) :
    insertBatch stored t batch = insertAll t batch := by
  have hpairs : batch.mapIdx (fun _ record => (record, (none : Option Statement))) =
      batch.map (·, none) := by
    rw [List.mapIdx_eq_zipIdx_map]
    conv_rhs => rw [← List.zipIdx_map_fst 0 batch, List.map_map]
    rfl
  exact congrArg (insertRequestLogs t) hpairs

/-- Batches of which nothing fails: how the records were cut makes no difference. -/
theorem insertFlushed_stored (h : ∀ batch ∈ flushed, batch.outcome = stored) (t : Tables) :
    insertFlushed t flushed = insertAll t (records flushed) := by
  induction flushed generalizing t with
  | nil => rfl
  | cons batch flushed ih =>
    rw [List.forall_mem_cons] at h
    have hrecords : records (batch :: flushed) = batch.records ++ records flushed := rfl
    rw [hrecords, insertAll_append, ← ih h.2, ← insertBatch_stored, ← h.1]
    rfl

theorem flushSqlite_nil (h : s.batch = []) : flushSqlite outcome s = s := if_pos h

theorem flushSqlite_cons (h : s.batch ≠ []) : flushSqlite outcome s =
    { s with sqlite := s.sqlite.map (insertBatch outcome · s.batch), batch := [] } := if_neg h

/-- A flush touches the batch and the tables alone. -/
@[simp] theorem flushSqlite_channel : (flushSqlite outcome s).channel = s.channel := by
  unfold flushSqlite
  split <;> rfl

@[simp] theorem flushSqlite_closed : (flushSqlite outcome s).closed = s.closed := by
  unfold flushSqlite
  split <;> rfl

@[simp] theorem flushSqlite_accepted : (flushSqlite outcome s).accepted = s.accepted := by
  unfold flushSqlite
  split <;> rfl

@[simp] theorem flushSqlite_lines : (flushSqlite outcome s).lines = s.lines := by
  unfold flushSqlite
  split <;> rfl

theorem accounted_start (sqlite : Option Tables) : Accounted sqlite [] (start sqlite) where
  accepted := rfl
  batches := by simp
  batch := Nat.zero_le _
  channel := Nat.zero_le _
  lines := .slnil
  tables := by
    cases sqlite <;> rfl
  ended := by simp [start]
  room := batchMax_pos

/-! ## What a step keeps -/

/-- A flush puts the batch behind those before, if there is anything in it. -/
theorem Held.flush (h : Held sqlite flushed s) (outcome : Outcome) :
    ∃ more, (∀ batch ∈ more, batch.outcome = outcome) ∧
      Accounted sqlite (flushed ++ more) (flushSqlite outcome s) ∧
      (flushSqlite outcome s).batch = [] := by
  by_cases hbatch : s.batch = []
  · refine ⟨[], by simp, ?_, ?_⟩
    · rw [List.append_nil, flushSqlite_nil hbatch]
      exact { h with room := by simp [hbatch, batchMax_pos] }
    · rw [flushSqlite_nil hbatch, hbatch]
  · refine ⟨[⟨s.batch, outcome⟩], by simp, ?_, ?_⟩
    · rw [flushSqlite_cons hbatch]
      have hrecords : records (flushed ++ [⟨s.batch, outcome⟩]) = records flushed ++ s.batch := by
        rw [records_append, records_singleton]
      refine ⟨⟨?_, ?_, Nat.zero_le _, h.channel, ?_, ?_, ?_⟩, batchMax_pos⟩
      · rw [hrecords, List.append_nil, h.accepted]
      · intro batch hmem
        rcases List.mem_append.mp hmem with hmem | hmem
        · exact h.batches batch hmem
        · rw [List.mem_singleton.mp hmem]
          exact ⟨hbatch, h.batch⟩
      · rw [hrecords, List.append_nil]
        exact h.lines
      · have hconcat : (insertFlushed · (flushed ++ [⟨s.batch, outcome⟩])) =
            (insertBatch outcome · s.batch) ∘ (insertFlushed · flushed) :=
          funext fun t => insertFlushed_concat t flushed ⟨s.batch, outcome⟩
        rw [hconcat, ← Option.map_map, ← h.tables]
      · intro hrunning
        exact ⟨(h.ended hrunning).1, rfl, (h.ended hrunning).2.2⟩
    · rw [flushSqlite_cons hbatch]

/-- The task has taken a record, and not looked yet whether the batch is full. -/
theorem Accounted.take (h : Accounted sqlite flushed s) {record : FullRecord}
    {channel : List FullRecord} (hchannel : s.channel = record :: channel)
    (hrunning : s.running = true) (written : Bool) :
    Held sqlite flushed { s with
      channel := channel
      lines := if written then s.lines ++ [record] else s.lines
      batch := s.batch ++ [record] } where
  accepted := by simp [h.accepted, hchannel]
  batches := h.batches
  batch := by
    have hroom := h.room
    simp only [List.length_append, List.length_singleton]
    omega
  channel := by
    have hfull := h.channel
    rw [hchannel, List.length_cons] at hfull
    exact Nat.le_of_succ_le hfull
  lines := by
    rw [← List.append_assoc]
    cases written with
    | true => exact h.lines.append (.refl _)
    | false => exact h.lines.trans (List.sublist_append_left _ _)
  tables := h.tables
  ended := by simp [hrunning]

/-- What a step flushes; nothing of it is lost when nothing goes wrong. -/
theorem Accounted.step {act : Act} (h : Accounted sqlite flushed s)
    (hstep : step s act = some s') :
    ∃ more, Accounted sqlite (flushed ++ more) s' ∧
      (act.Clean → ∀ batch ∈ more, batch.outcome = stored) := by
  cases act with
  | log record =>
    simp only [LogWriter.step] at hstep
    split at hstep
    · cases hstep
    · rename_i hopen
      refine ⟨[], ?_, by simp⟩
      rw [List.append_nil]
      split at hstep
      · rename_i hroom
        cases hstep
        refine { h with accepted := ?_, channel := ?_, ended := ?_ }
        · simp [h.accepted]
        · simpa [Nat.succ_le_iff] using hroom
        · intro hrunning
          exact absurd (h.ended hrunning).1 hopen
      · cases hstep
        exact h
  | close =>
    simp only [LogWriter.step] at hstep
    split at hstep
    · cases hstep
    · cases hstep
      refine ⟨[], ?_, by simp⟩
      rw [List.append_nil]
      exact { h with ended := fun hrunning => ⟨rfl, (h.ended hrunning).2⟩ }
  | recv written outcome =>
    simp only [LogWriter.step] at hstep
    split at hstep
    · rename_i hrunning
      split at hstep
      · cases hstep
      · rename_i record channel hchannel
        have htaken := h.take hchannel hrunning written
        cases hstep
        split
        · obtain ⟨more, houtcome, haccounted, -⟩ := htaken.flush outcome
          exact ⟨more, haccounted, fun hclean batch hmem => (houtcome batch hmem).trans hclean.2⟩
        · rename_i hroom
          refine ⟨[], ?_, by simp⟩
          rw [List.append_nil]
          exact { htaken with room := Nat.lt_of_not_le hroom }
    · cases hstep
  | timeout outcome =>
    simp only [LogWriter.step] at hstep
    split at hstep
    · cases hstep
      obtain ⟨more, houtcome, haccounted, -⟩ := h.flush outcome
      exact ⟨more, haccounted, fun hclean batch hmem => (houtcome batch hmem).trans hclean⟩
    · cases hstep
  | closes outcome =>
    simp only [LogWriter.step] at hstep
    split at hstep
    · rename_i hends
      cases hstep
      obtain ⟨more, houtcome, haccounted, hempty⟩ := h.flush outcome
      refine ⟨more, ?_, fun hclean batch hmem => (houtcome batch hmem).trans hclean⟩
      refine { haccounted with ended := fun _ => ⟨?_, hempty, ?_⟩ }
      · exact flushSqlite_closed.trans hends.2.1
      · exact flushSqlite_channel.trans hends.2.2
    · cases hstep

/-- Every record taken out of the channel has its line. -/
def Written (s : State) : Prop := s.lines ++ s.channel = s.accepted

theorem written_step {act : Act} (h : Written s) (hclean : act.Clean)
    (hstep : step s act = some s') : Written s' := by
  unfold Written at h ⊢
  cases act with
  | log record =>
    simp only [step] at hstep
    split at hstep
    · cases hstep
    · split at hstep <;> cases hstep
      · simp [← h]
      · exact h
  | close =>
    simp only [step] at hstep
    split at hstep <;> cases hstep
    exact h
  | recv written outcome =>
    obtain ⟨rfl, -⟩ := hclean
    simp only [step] at hstep
    split at hstep
    · split at hstep
      · cases hstep
      · rename_i record channel hchannel
        cases hstep
        split <;> simp [← h, hchannel]
    · cases hstep
  | timeout outcome =>
    simp only [step] at hstep
    split at hstep <;> cases hstep
    simpa using h
  | closes outcome =>
    simp only [step] at hstep
    split at hstep <;> cases hstep
    simpa using h

/-! ## What is dropped -/

/-- A log call finds room in the channel. -/
def HasRoom (s : State) : Act → Prop
  | .log _ => s.channel.length < channelCapacity
  | _ => True

/-- Only a log call puts anything into the channel, and only when it has room. -/
theorem accepted_step {act : Act} (hstep : step s act = some s') :
    s'.accepted = s.accepted ++ logged [act] ∧ HasRoom s act ∨
      s'.accepted = s.accepted ∧ ¬HasRoom s act := by
  cases act with
  | log record =>
    simp only [step] at hstep
    split at hstep
    · cases hstep
    · split at hstep
      · rename_i hroom
        cases hstep
        exact .inl ⟨rfl, hroom⟩
      · rename_i hfull
        cases hstep
        exact .inr ⟨rfl, hfull⟩
  | close =>
    simp only [step] at hstep
    split at hstep <;> cases hstep
    exact .inl ⟨(List.append_nil _).symm, trivial⟩
  | recv written outcome =>
    simp only [step] at hstep
    split at hstep
    · split at hstep
      · cases hstep
      · cases hstep
        refine .inl ⟨?_, trivial⟩
        split <;> simp [logged]
    · cases hstep
  | timeout outcome =>
    simp only [step] at hstep
    split at hstep <;> cases hstep
    exact .inl ⟨by simp [logged], trivial⟩
  | closes outcome =>
    simp only [step] at hstep
    split at hstep <;> cases hstep
    exact .inl ⟨by simp [logged], trivial⟩

theorem logged_cons (act : Act) (acts : List Act) :
    logged (act :: acts) = logged [act] ++ logged acts := by
  cases act <;> rfl

theorem logged_length {act : Act} (h : ¬HasRoom s act) : (logged [act]).length = 1 := by
  cases act with
  | log record => rfl
  | close | recv | timeout | closes => exact absurd trivial h

/-- What is dropped is what found no room, and the rest keeps its order. -/
theorem accepted_run {acts : List Act} (hrun : run step s acts = some s') :
    ∃ taken, s'.accepted = s.accepted ++ taken ∧ taken.Sublist (logged acts) ∧
      (taken = logged acts ↔ Meets step HasRoom s acts) := by
  induction acts generalizing s with
  | nil =>
    cases hrun
    exact ⟨[], (List.append_nil _).symm, .slnil, iff_of_true rfl trivial⟩
  | cons act acts ih =>
    obtain ⟨s₁, hstep, hrest⟩ := run_cons hrun
    obtain ⟨taken, haccepted, hsublist, hiff⟩ := ih hrest
    have hmeets : Meets step HasRoom s (act :: acts) ↔
        HasRoom s act ∧ Meets step HasRoom s₁ acts :=
      ⟨fun h => ⟨h.1, h.2 s₁ hstep⟩, fun h => .cons h.1 hstep h.2⟩
    rw [logged_cons, hmeets]
    rcases accepted_step hstep with ⟨hfirst, hroom⟩ | ⟨hfirst, hfull⟩
    · refine ⟨logged [act] ++ taken, ?_, (List.Sublist.refl _).append hsublist, ?_⟩
      · rw [haccepted, hfirst, List.append_assoc]
      · rw [List.append_cancel_left_eq, hiff]
        exact (and_iff_right hroom).symm
    · refine ⟨taken, by rw [haccepted, hfirst], hsublist.trans (List.sublist_append_right _ _), ?_⟩
      refine iff_of_false (fun heq => ?_) fun h => hfull h.1
      -- the record of this call is missing
      have hshort := hsublist.length_le
      rw [heq, List.length_append, logged_length hfull] at hshort
      omega

/-! ## Every run -/

theorem accounted_run {acts : List Act} (h : Accounted sqlite flushed s)
    (hrun : run step s acts = some s') : ∃ more, Accounted sqlite (flushed ++ more) s' ∧
      ((∀ act ∈ acts, act.Clean) → ∀ batch ∈ more, batch.outcome = stored) := by
  induction acts generalizing s flushed with
  | nil =>
    cases hrun
    exact ⟨[], by rwa [List.append_nil], by simp⟩
  | cons act acts ih =>
    obtain ⟨s₁, hstep, hrest⟩ := run_cons hrun
    obtain ⟨first, hfirst, hclean⟩ := h.step hstep
    obtain ⟨more, hmore, hrestclean⟩ := ih hfirst hrest
    refine ⟨first ++ more, by rwa [← List.append_assoc], fun hall batch hmem => ?_⟩
    rw [List.forall_mem_cons] at hall
    rcases List.mem_append.mp hmem with hmem | hmem
    · exact hclean hall.1 batch hmem
    · exact hrestclean hall.2 batch hmem

/-- **Whatever the handles and the clock do**: a record the channel takes is in one flushed batch, in
the one that is filled or still waits, in the order of the log calls; at most 255 and 256 of them
are not flushed, and none once the writer has ended.  When no write fails, the lines are the records
taken out, and the tables are those of one insertion of all that was flushed. -/
theorem records_accounted (sqlite : Option Tables) (acts : List Act) (s : State)
    (hrun : run step (start sqlite) acts = some s) :
    ∃ flushed, Accounted sqlite flushed s ∧ s.accepted.Sublist (logged acts) ∧
      (s.accepted = logged acts ↔ Meets step HasRoom (start sqlite) acts) ∧
      ((∀ act ∈ acts, act.Clean) → s.lines ++ s.channel = s.accepted ∧
        s.sqlite = sqlite.map (insertAll · (records flushed))) := by
  obtain ⟨flushed, haccounted, hstored⟩ := accounted_run (accounted_start sqlite) hrun
  obtain ⟨taken, haccepted, hsublist, hiff⟩ := accepted_run hrun
  obtain rfl : s.accepted = taken := haccepted
  refine ⟨flushed, haccounted, hsublist, hiff, fun hclean => ⟨?_, ?_⟩⟩
  · have hwritten : ∀ s act s', Written s → act.Clean → step s act = some s' → Written s' :=
      fun s act s' h hact hstep => written_step h hact hstep
    have hstart : Written (start sqlite) := rfl
    exact invariant hwritten hstart (.of_forall fun act hmem _ => hclean act hmem) hrun
  · rw [haccounted.tables]
    exact congrArg (sqlite.map ·) (funext (insertFlushed_stored (hstored hclean)))

/-- One record, taken, written and stored when the writer ends. -/
def oneRecord : List Act :=
  [.log (exampleRecord "a"), .recv true stored, .close, .closes stored]

theorem one_record_stored : ∃ s, run step (start (some .empty)) oneRecord = some s ∧
    s.lines = [exampleRecord "a"] ∧ s.accepted = logged oneRecord ∧
    ∃ flushed, Accounted (some .empty) flushed s ∧
      s.sqlite = some (insertAll .empty (records flushed)) := by
  obtain ⟨flushed, haccounted, -, -, hclean⟩ :=
    records_accounted (some .empty) oneRecord _ rfl
  refine ⟨_, rfl, rfl, rfl, flushed, haccounted, (hclean ?_).2⟩
  simp [oneRecord, Act.Clean]

end AnyConverter.LogWriter
