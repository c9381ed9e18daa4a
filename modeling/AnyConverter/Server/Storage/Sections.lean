import AnyConverter.Lib.Grouping
import AnyConverter.Server.Storage.Summary

/-!
# The sections of the usage summary

The totals of a summary are those of its points, and those of its groups by provider, by model and by
agent.  The values a point is split by count no more than the point.

* `Balanced`, `balanced_foldRow`: each section counts what the totals count;
* `entry_series`, `cell_split`: what a point counts, and each of its values;
* `kept_le_point`: the values of a point, by any measure of the hours they are made of;
* `summary_sections`: the sections of a summary.
-/

set_option autoImplicit false

namespace AnyConverter.Storage

open Sqlite Sqlite.Numeric Grouping

variable {α : Type}

/-! ## The sections of the grouped query -/

/-- `add_totals` into a group that is new. -/
theorem add_default (row : Totals) : Totals.add {} row = row := zero_add row

/-- Each section counts what the totals count. -/
structure SummaryState.Balanced (st : SummaryState) : Prop where
  series : (st.series.rows.map fun row => row.2).sum = st.totals
  byProvider : (st.byProvider.rows.map fun row => row.2.totals).sum = st.totals
  byModel : (st.byModel.rows.map fun row => row.2.totals).sum = st.totals
  byAgent : (st.byAgent.rows.map fun row => row.2.totals).sum = st.totals

theorem balanced_empty : SummaryState.Balanced {} := ⟨rfl, rfl, rfl, rfl⟩

theorem balanced_addRow {st : SummaryState} (h : st.Balanced) (bucket : String) (key : SummaryKey)
    (row : Totals) : (st.addRow bucket key row).Balanced where
  series := (Table.sum_upsert id row st.series (add_default row) fun _ => rfl).trans
    (congrArg (· + row) h.series)
  byProvider := (Table.sum_upsert GroupTotals.totals row st.byProvider (add_default row)
    fun _ => rfl).trans (congrArg (· + row) h.byProvider)
  byModel := (Table.sum_upsert GroupTotals.totals row st.byModel (add_default row)
    fun _ => rfl).trans (congrArg (· + row) h.byModel)
  byAgent := (Table.sum_upsert GroupTotals.totals row st.byAgent (add_default row)
    fun _ => rfl).trans (congrArg (· + row) h.byAgent)

/-! ## Folds that read every group -/

/-- The name of a bucket, where it has one. -/
def bucketName (bucket : Option String) : String := bucket.getD ""

/-- What is read of a group, where it can be read. -/
def readValue (read : List α → Option Totals) (rows : List α) : Totals := (read rows).getD 0

/-- A group whose bucket and totals can be read. -/
def CanRead (read : List α → Option Totals) (bucket : Option String) (rows : List α) : Prop :=
  bucket = some (bucketName bucket) ∧ read rows = some (readValue read rows)

theorem canRead {read : List α → Option Totals} {bucket : Option String} {rows : List α} {name : String}
    {row : Totals} (hbucket : bucket = some name) (hrow : read rows = some row) :
    CanRead read bucket rows := by
  subst hbucket
  exact ⟨rfl, by rw [readValue, hrow]; rfl⟩

/-- What the grouped query makes of its groups. -/
def foldRows (read : List α → Option Totals) (groups : List (SummaryKey × List α)) (st : SummaryState) :
    SummaryState :=
  groups.foldl (fun st group => st.addRow (bucketName group.1.bucket) group.1
    (readValue read group.2)) st

theorem foldlM_foldRow {read : List α → Option Totals} {groups : List (SummaryKey × List α)}
    {st st' : SummaryState} (h : groups.foldlM (SummaryState.foldRow read) st = some st') :
    (∀ group ∈ groups, CanRead read group.1.bucket group.2) ∧ st' = foldRows read groups st := by
  induction groups generalizing st with
  | nil =>
    cases h
    exact ⟨fun group hgroup => absurd hgroup List.not_mem_nil, rfl⟩
  | cons group groups ih =>
    rw [List.foldlM_cons] at h
    obtain ⟨next, hstep, h⟩ := Option.bind_eq_some_iff.mp h
    obtain ⟨bucket, hbucket, hstep⟩ := Option.bind_eq_some_iff.mp hstep
    obtain ⟨row, hrow, hstep⟩ := Option.bind_eq_some_iff.mp hstep
    cases hstep
    have hread := canRead hbucket hrow
    obtain ⟨hrest, hfold⟩ := ih h
    refine ⟨fun g hg => ?_, ?_⟩
    · rcases List.mem_cons.mp hg with rfl | hg
      · exact hread
      · exact hrest g hg
    · rw [hfold, foldRows, foldRows, List.foldl_cons, readValue, hrow, bucketName, hbucket]
      rfl

theorem balanced_foldRows (read : List α → Option Totals) (groups : List (SummaryKey × List α))
    {st : SummaryState} (h : st.Balanced) : (foldRows read groups st).Balanced := by
  induction groups generalizing st with
  | nil => exact h
  | cons group groups ih => exact ih (balanced_addRow h _ _ _)

/-- What a point counts: the groups of its bucket. -/
theorem entry_series (read : List α → Option Totals) (groups : List (SummaryKey × List α))
    (bucket : String) : (foldRows read groups {}).series.entry id bucket =
      ((groups.filter fun group => bucketName group.1.bucket = bucket).map fun group =>
        readValue read group.2).sum := by
  have hseries : (foldRows read groups {}).series = groups.foldl (fun t group =>
      t.upsert (bucketName group.1.bucket) (Totals.add {} (readValue read group.2))
        (·.add (readValue read group.2))) .empty :=
    (List.foldl_hom SummaryState.series fun _ _ => rfl).symm
  have hstep : ∀ (t : Table String Totals) (group : SummaryKey × List α) (k : String),
      (t.upsert (bucketName group.1.bucket) (Totals.add {} (readValue read group.2))
        (·.add (readValue read group.2))).entry id k =
          t.entry id k + if k = bucketName group.1.bucket then readValue read group.2 else 0 :=
    fun t group k => Table.entry_upsert id _ t _ k (add_default _) fun _ => rfl
  rw [hseries, Table.entry_foldl hstep]
  exact zero_add _

/-! ## The split -/

/-- What a value counts at a point. -/
def SplitState.cell (st : SplitState) (bucket value : String) : Totals :=
  st.split.entry (fun values => values.entry id value) bucket

/-- What a group adds to a value. -/
def cellValue (read : List α → Option Totals) (value : String)
    (group : (String × Option String) × List α) : Totals :=
  if group.1.1 = "" then 0 else if value = group.1.1 then readValue read group.2 else 0

def foldSplit (read : List α → Option Totals) (groups : List ((String × Option String) × List α))
    (st : SplitState) : SplitState :=
  groups.foldl (fun st group => if group.1.1 = "" then st else
    st.addRow group.1.1 (bucketName group.1.2) (readValue read group.2)) st

theorem foldlM_foldSplit {read : List α → Option Totals}
    {groups : List ((String × Option String) × List α)} {st st' : SplitState}
    (h : groups.foldlM (SplitState.foldRow read) st = some st') :
    (∀ group ∈ groups, group.1.1 ≠ "" → CanRead read group.1.2 group.2) ∧
      st' = foldSplit read groups st := by
  induction groups generalizing st with
  | nil =>
    cases h
    exact ⟨fun group hgroup => absurd hgroup List.not_mem_nil, rfl⟩
  | cons group groups ih =>
    rw [List.foldlM_cons] at h
    obtain ⟨next, hstep, h⟩ := Option.bind_eq_some_iff.mp h
    obtain ⟨hrest, hfold⟩ := ih h
    unfold SplitState.foldRow at hstep
    by_cases hvalue : group.1.1 = ""
    · rw [if_pos hvalue] at hstep
      cases hstep
      refine ⟨fun g hg hne => ?_, ?_⟩
      · rcases List.mem_cons.mp hg with rfl | hg
        · exact absurd hvalue hne
        · exact hrest g hg hne
      · rw [hfold, foldSplit, foldSplit, List.foldl_cons, if_pos hvalue]
    · rw [if_neg hvalue] at hstep
      obtain ⟨bucket, hbucket, hstep⟩ := Option.bind_eq_some_iff.mp hstep
      obtain ⟨row, hrow, hstep⟩ := Option.bind_eq_some_iff.mp hstep
      cases hstep
      refine ⟨fun g hg hne => ?_, ?_⟩
      · rcases List.mem_cons.mp hg with rfl | hg
        · exact canRead hbucket hrow
        · exact hrest g hg hne
      · rw [hfold, foldSplit, foldSplit, List.foldl_cons, if_neg hvalue, readValue, hrow, bucketName,
          hbucket]
        rfl

theorem cell_addRow (st : SplitState) (value bucket : String) (row : Totals) (b v : String) :
    (st.addRow value bucket row).cell b v =
      st.cell b v + if b = bucket then (if v = value then row else 0) else 0 := by
  have hinner : ∀ values : Table String Totals,
      (values.upsert value (Totals.add {} row) (·.add row)).entry id v =
        values.entry id v + if v = value then row else 0 :=
    fun values => Table.entry_upsert id row values value v (add_default row) fun _ => rfl
  exact Table.entry_upsert _ _ st.split bucket b ((hinner .empty).trans (zero_add _)) hinner

/-- What a value counts at a point: the groups of both. -/
theorem cell_split (read : List α → Option Totals) (groups : List ((String × Option String) × List α))
    (bucket value : String) : (foldSplit read groups {}).cell bucket value =
      ((groups.filter fun group => bucketName group.1.2 = bucket).map (cellValue read value)).sum := by
  have hrun : ∀ st : SplitState, (foldSplit read groups st).cell bucket value = st.cell bucket value +
      ((groups.filter fun group => bucketName group.1.2 = bucket).map (cellValue read value)).sum := by
    induction groups with
    | nil => exact fun st => (add_zero _).symm
    | cons group groups ih =>
      intro st
      rw [foldSplit, List.foldl_cons]
      refine (ih _).trans ?_
      rw [List.filter_cons]
      by_cases hvalue : group.1.1 = ""
      · have hzero : cellValue read value group = 0 := if_pos hvalue
        rw [if_pos hvalue]
        by_cases hb : bucketName group.1.2 = bucket
        · rw [if_pos (decide_eq_true hb), List.map_cons, List.sum_cons, hzero, zero_add]
        · rw [if_neg (by simpa using hb)]
      · have hcell : cellValue read value group =
            if value = group.1.1 then readValue read group.2 else 0 := if_neg hvalue
        rw [if_neg hvalue, cell_addRow]
        by_cases hb : bucketName group.1.2 = bucket
        · rw [if_pos hb.symm, if_pos (decide_eq_true hb), List.map_cons, List.sum_cons, hcell, add_assoc]
        · rw [if_neg (Ne.symm hb), if_neg (by simpa using hb), add_zero]
  rw [hrun]
  exact zero_add _

/-- What a value with a name counts at a point: the group of both. -/
theorem cell_eq {read : List α → Option Totals} {groups : List ((String × Option String) × List α)}
    (hread : ∀ group ∈ groups, group.1.1 ≠ "" → CanRead read group.1.2 group.2) {value : String}
    (hvalue : value ≠ "") (bucket : String) : (foldSplit read groups {}).cell bucket value =
      ((groups.filter fun group => group.1 = (value, some bucket)).map fun group =>
        readValue read group.2).sum := by
  rw [cell_split]
  refine sum_filter_congr fun group hgroup => ?_
  obtain ⟨⟨name, b⟩, rows⟩ := group
  unfold cellValue
  by_cases hname : value = name
  · subst hname
    obtain ⟨b', rfl⟩ : ∃ b', b = some b' := ⟨_, (hread _ hgroup hvalue).1⟩
    rw [if_neg hvalue, if_pos rfl]
    by_cases hb : b' = bucket <;> simp [bucketName, hb]
  · have hne : ¬(name, b) = (value, some bucket) := fun h => hname (Prod.mk.inj h).1.symm
    simp [hname, hne]

/-! ## Measures of hours -/

/-- A column of the totals by its counter; the priced calls give the unpriced ones. -/
def Totals.column (t : Totals) : Counter → Nat
  | .calls => t.calls
  | .errors => t.errors
  | .inputTokens => t.inputTokens
  | .outputTokens => t.outputTokens
  | .cacheReadTokens => t.cacheReadTokens
  | .cacheWriteTokens => t.cacheWriteTokens
  | .cacheWrite1h => t.cacheWrite1h
  | .cacheUnknownTokens => t.cacheUnknownTokens
  | .reasoningTokens => t.reasoningTokens
  | .latencySumMs => t.latencySumMs
  | .ttftSumMs => t.ttftSumMs
  | .ttftCalls => t.ttftCalls
  | .pricedCalls => t.unpriced
  | .retriedCalls => t.retried
  | .loops => t.loops
  | .decodeMs => t.decodeMs
  | .decodeOut => t.decodeOut
  | .decodeN => t.decodeN

theorem column_add (a b : Totals) (c : Counter) : (a + b).column c = a.column c + b.column c := by
  cases c <;> rfl

theorem column_zero (c : Counter) : (0 : Totals).column c = 0 := by
  cases c <;> rfl

/-- The sum of a counter over some hours. -/
def hoursSum (c : Counter) (hours : Multiset (RollupKey × RollupRow)) : Int :=
  (hours.map fun hour => (hour.2.counters c).asInt).sum

def hoursUnpriced (hours : Multiset (RollupKey × RollupRow)) : Nat :=
  (hoursSum .calls hours).toNat - (hoursSum .pricedCalls hours).toNat

def hoursCost (hours : Multiset (RollupKey × RollupRow)) : ℚ :=
  (hours.map fun hour => hour.2.costUsd.value).sum

theorem sumColumns_spec {columns : List Counter} {cells : Counter → List Numeric}
    {counts : Counter → Nat} (h : sumColumns columns cells = some counts) {c : Counter}
    (hc : c ∈ columns) : (∀ v ∈ cells c, v = int v.asInt) ∧
      counts c = ((cells c).map asInt).sum.toNat := by
  unfold sumColumns at h
  split at h
  · rename_i hall
    obtain rfl := Option.some.inj h
    obtain ⟨n, hn⟩ := Option.isSome_iff_exists.mp (hall c hc)
    obtain ⟨v, hv, hread⟩ := Option.bind_eq_some_iff.mp hn
    cases v with
    | real q => cases hread
    | int z =>
      obtain ⟨hints, hz⟩ := sum_eq_int hv
      refine ⟨hints, ?_⟩
      show ((sum (cells c)).bind u64Column).getD 0 = _
      rw [hv, ← hz]
      rfl
  · cases h

theorem sum_cells (c : Counter) (hours : List (RollupKey × RollupRow)) :
    (((hours.map Prod.snd).map (·.counters c)).map asInt).sum = hoursSum c ↑hours := by
  rw [List.map_map, List.map_map, hoursSum, Multiset.map_coe, Multiset.sum_coe]
  rfl

theorem cost_cells {hours : List (RollupKey × RollupRow)} {cost : Numeric}
    (h : sum ((hours.map Prod.snd).map (·.costUsd)) = some cost) : cost.value = hoursCost ↑hours := by
  rw [sum_value h, List.map_map, List.map_map, hoursCost, Multiset.map_coe, Multiset.sum_coe]
  rfl

/-- What is read of a group, by its columns. -/
structure ReadsHours (t : Totals) (hours : Multiset (RollupKey × RollupRow)) : Prop where
  column : ∀ c, c ≠ .pricedCalls → t.column c ≤ (hoursSum c hours).toNat
  unpriced : t.unpriced = hoursUnpriced hours
  costUsd : t.costUsd = hoursCost hours

theorem readsHours_summaryRow {hours : List (RollupKey × RollupRow)} {t : Totals}
    (h : readSummaryRow (hours.map Prod.snd) = some t) :
    ReadsHours t ↑hours ∧ ∀ c, c ≠ .pricedCalls → t.column c = (hoursSum c ↑hours).toNat := by
  obtain ⟨_, -, h⟩ := Option.bind_eq_some_iff.mp h
  obtain ⟨counts, hcounts, h⟩ := Option.bind_eq_some_iff.mp h
  obtain ⟨latency, -, h⟩ := Option.bind_eq_some_iff.mp h
  obtain ⟨cost, hcost, h⟩ := Option.bind_eq_some_iff.mp h
  cases h
  have hcount : ∀ c, counts c = (hoursSum c ↑hours).toNat := by
    intro c
    rw [(sumColumns_spec hcounts (Counter.mem_all c)).2, sum_cells]
  have hcolumn : ∀ c, c ≠ .pricedCalls →
      ((Totals.ofCounts counts latency cost.value (counts .calls)).withSpeed counts).column c =
        (hoursSum c ↑hours).toNat := by
    intro c hc
    rw [← hcount]
    cases c with
    | pricedCalls => exact absurd rfl hc
    | _ => rfl
  refine ⟨⟨fun c hc => (hcolumn c hc).le, ?_, cost_cells hcost⟩, hcolumn⟩
  show counts .calls - counts .pricedCalls = _
  rw [hcount, hcount]
  rfl

theorem readsHours_splitRow {hours : List (RollupKey × RollupRow)} {t : Totals}
    (h : readSplitRow (hours.map Prod.snd) = some t) : ReadsHours t ↑hours := by
  obtain ⟨calls, hcalls, h⟩ := Option.bind_eq_some_iff.mp h
  obtain ⟨counts, hcounts, h⟩ := Option.bind_eq_some_iff.mp h
  obtain ⟨latency, -, h⟩ := Option.bind_eq_some_iff.mp h
  obtain ⟨cost, hcost, h⟩ := Option.bind_eq_some_iff.mp h
  cases h
  have hcount : ∀ c ∈ rollupColumns, counts c = (hoursSum c ↑hours).toNat := by
    intro c hc
    rw [(sumColumns_spec hcounts hc).2, sum_cells]
  have hread : calls = (hoursSum .calls ↑hours).toNat := by
    obtain ⟨v, hv, hcalls⟩ := Option.bind_eq_some_iff.mp hcalls
    cases v with
    | real q => cases hcalls
    | int z =>
      rw [← sum_cells, ← (sum_eq_int hv).2]
      revert hcalls
      dsimp only
      split
      · exact fun h => (Option.some.inj h).symm
      · exact fun h => nomatch h
  refine ⟨fun c hc => ?_, ?_, cost_cells hcost⟩
  · cases c with
    | pricedCalls => exact absurd rfl hc
    | calls => exact hread.le
    | decodeMs | decodeOut | decodeN => exact Nat.zero_le _
    | _ => exact (hcount _ (by decide)).le
  · show calls - counts .pricedCalls = _
    rw [hread, hcount .pricedCalls (by decide)]
    rfl

theorem subadditive_count (c : Counter) : Subadditive fun hours => (hoursSum c hours).toNat where
  zero := le_rfl
  add a b := by
    unfold hoursSum
    rw [Multiset.map_add, Multiset.sum_add]
    omega

/-- The calls that are not counted as priced, where no count of these is negative. -/
def hoursUnpricedCounts (hours : Multiset (RollupKey × RollupRow)) : Nat :=
  (hoursSum .calls hours).toNat - (hours.map fun hour => (hour.2.counters .pricedCalls).asInt.toNat).sum

theorem subadditive_unpriced : Subadditive hoursUnpricedCounts where
  zero := le_rfl
  add a b := by
    unfold hoursUnpricedCounts hoursSum
    rw [Multiset.map_add, Multiset.sum_add, Multiset.map_add, Multiset.sum_add]
    omega

theorem hoursUnpriced_eq {hours : List (RollupKey × RollupRow)}
    (h : ∀ hour ∈ hours, 0 ≤ (hour.2.counters .pricedCalls).asInt) :
    hoursUnpriced ↑hours = hoursUnpricedCounts ↑hours := by
  have hsum : (hoursSum .pricedCalls ↑hours).toNat =
      ((↑hours : Multiset (RollupKey × RollupRow)).map fun hour =>
        (hour.2.counters .pricedCalls).asInt.toNat).sum := by
    rw [hoursSum, Multiset.map_coe, Multiset.sum_coe, Multiset.map_coe, Multiset.sum_coe]
    have hcast : (hours.map fun hour => (hour.2.counters .pricedCalls).asInt).sum =
        ((hours.map fun hour => (hour.2.counters .pricedCalls).asInt.toNat).sum : Nat) := by
      rw [Nat.cast_list_sum, List.map_map]
      exact congrArg List.sum (List.map_congr_left fun hour hhour =>
        (Int.toNat_of_nonneg (h hour hhour)).symm)
    rw [hcast, Int.toNat_natCast]
  rw [hoursUnpriced, hoursUnpricedCounts, hsum]

theorem additive_cost : Subadditive hoursCost where
  zero := le_rfl
  add a b := by
    unfold hoursCost
    rw [Multiset.map_add, Multiset.sum_add]

/-! ## The values of a point -/

def columnHom (c : Counter) : Totals →+ Nat where
  toFun t := t.column c
  map_zero' := column_zero c
  map_add' a b := column_add a b c

def costHom : Totals →+ ℚ where
  toFun t := t.costUsd
  map_zero' := rfl
  map_add' _ _ := rfl

/-- The column of the rollup that a dimension splits by, from the key of a group. -/
def SplitDim.keyColumn (dim : SplitDim) (key : SummaryKey) : String :=
  match dim with
  | .provider => key.provider
  | .agent => key.agent
  | .model => key.clientModel
  | .account => ""

section Point

variable (dateWeek : String → Option String) (q : UsageQuery) (hours : List (RollupKey × RollupRow))

/-- The groups of the grouped query over the rollup. -/
def pointGroups : Table SummaryKey (List (RollupKey × RollupRow)) :=
  Table.groups (fun row => hourGroup dateWeek q.granularity row.1) hours

/-- The groups of the split. -/
def valueGroups (column : RollupKey → String) :
    Table (String × Option String) (List (RollupKey × RollupRow)) :=
  Table.groups (fun row => (column row.1, q.granularity.bucketExpr dateWeek row.1.bucket)) hours

variable {dateWeek q hours} {readMain readSplit : List (RollupKey × RollupRow) → Option Totals}
variable {M : Type} [AddCommMonoid M] [PartialOrder M] [IsOrderedAddMonoid M] {col : Totals →+ M}
variable {g : Multiset (RollupKey × RollupRow) → M} {column : RollupKey → String} {dim : SplitDim}

theorem splitKey_eq (hdim : dim.rollupColumn = some column) (key : RollupKey) :
    (column key, q.granularity.bucketExpr dateWeek key.bucket) =
      ((dim.keyColumn (hourGroup dateWeek q.granularity key)),
        (hourGroup dateWeek q.granularity key).bucket) := by
  cases dim with
  | account => cases hdim
  | provider | agent | model =>
    obtain rfl := Option.some.inj hdim
    rfl

omit [IsOrderedAddMonoid M] in
/-- What a value counts at a point, by a measure of its hours. -/
theorem cell_le (hdim : dim.rollupColumn = some column)
    (hread : ∀ group ∈ (valueGroups dateWeek q hours column).rows, group.1.1 ≠ "" →
      CanRead readSplit group.1.2 group.2 ∧ col (readValue readSplit group.2) ≤ g ↑group.2)
    (hnonneg : ∀ some : List (RollupKey × RollupRow), (∀ hour ∈ some, hour ∈ hours) → 0 ≤ g ↑some)
    (bucket value : String) :
    col ((foldSplit readSplit (valueGroups dateWeek q hours column).rows {}).cell bucket value) ≤
      g ↑(hours.filter fun row => ((dim.keyColumn (hourGroup dateWeek q.granularity row.1)),
        (hourGroup dateWeek q.granularity row.1).bucket) = (value, some bucket)) := by
  have hfilter : ∀ hour ∈ hours.filter (fun row =>
      ((dim.keyColumn (hourGroup dateWeek q.granularity row.1)),
        (hourGroup dateWeek q.granularity row.1).bucket) = (value, some bucket)), hour ∈ hours :=
    fun hour hhour => List.mem_of_mem_filter hhour
  by_cases hvalue : value = ""
  · -- a value without a name has no cell
    rw [cell_split]
    have hzero : ∀ group : (String × Option String) × List (RollupKey × RollupRow),
        cellValue readSplit value group = 0 := by
      intro group
      unfold cellValue
      by_cases hname : group.1.1 = ""
      · rw [if_pos hname]
      · rw [if_neg hname, if_neg (fun h => hname (h.symm.trans hvalue))]
    rw [List.sum_eq_zero fun t ht => by
      obtain ⟨group, -, rfl⟩ := List.mem_map.mp ht
      exact hzero group, map_zero]
    exact hnonneg _ hfilter
  · rw [cell_eq (fun group hgroup hne => (hread group hgroup hne).1) hvalue, Table.filter_key, valueGroups,
      Table.find_groups]
    simp only [splitKey_eq hdim]
    split
    · rename_i hnil
      simp only [Option.elim_none, List.map_nil, List.sum_nil, map_zero]
      exact hnonneg _ hfilter
    · rename_i hne
      simp only [Option.elim_some, List.map_cons, List.map_nil, List.sum_cons, List.sum_nil, add_zero]
      refine (hread ((value, some bucket), _) (Table.find_eq_some_iff.mp ?_) hvalue).2
      rw [valueGroups, Table.find_groups]
      simp only [splitKey_eq hdim]
      exact if_neg hne

/-- **The values of a point count no more than the point**, by any measure that is no larger for some
hours together than for each. -/
theorem kept_le_point (hdim : dim.rollupColumn = some column) (hsub : Subadditive g)
    (hmain : ∀ group ∈ (pointGroups dateWeek q hours).rows,
      CanRead readMain group.1.bucket group.2 ∧ col (readValue readMain group.2) = g ↑group.2)
    (hsplit : ∀ group ∈ (valueGroups dateWeek q hours column).rows, group.1.1 ≠ "" →
      CanRead readSplit group.1.2 group.2 ∧ col (readValue readSplit group.2) ≤ g ↑group.2)
    (hnonneg : ∀ some : List (RollupKey × RollupRow), (∀ hour ∈ some, hour ∈ hours) → 0 ≤ g ↑some)
    (bucket : String) {values : List String} (hnodup : values.Nodup) :
    (values.map fun value => col ((foldSplit readSplit (valueGroups dateWeek q hours column).rows
      {}).cell bucket value)).sum ≤
        col ((foldRows readMain (pointGroups dateWeek q hours).rows {}).series.entry id bucket) := by
  have hkeys : (values.map fun value => (value, some bucket)).Nodup :=
    hnodup.map fun a b h => (Prod.mk.inj h).1
  have hcoarse := coarse_sum_le hsub (fun row => hourGroup dateWeek q.granularity row.1)
    (fun key => (dim.keyColumn key, key.bucket)) hkeys (fun key => key.bucket = some bucket)
    (fun key hkey => by
      obtain ⟨value, -, heq⟩ := List.mem_map.mp hkey
      exact decide_eq_true (Prod.mk.inj heq).2.symm) hours
    (fun group hgroup => hnonneg _ fun hour hhour => by
      rw [(Table.mem_groups hgroup).1] at hhour
      exact List.mem_of_mem_filter hhour)
  have hpoint : col ((foldRows readMain (pointGroups dateWeek q hours).rows {}).series.entry id bucket) =
      (((pointGroups dateWeek q hours).rows.filter fun group => group.1.bucket = some bucket).map
        fun group => g ↑group.2).sum := by
    rw [entry_series, map_list_sum, List.map_map]
    refine sum_filter_congr fun group hgroup => ?_
    obtain ⟨hread, hmeasure⟩ := hmain group hgroup
    have hiff : bucketName group.1.bucket = bucket ↔ group.1.bucket = some bucket := by
      rw [hread.1]
      exact ⟨fun h => congrArg some h, Option.some.inj⟩
    simp only [decide_eq_true_eq, hiff, Function.comp_apply, hmeasure]
  rw [hpoint]
  refine le_trans ?_ hcoarse
  rw [List.map_map]
  exact List.sum_le_sum fun value _ => cell_le hdim hsplit hnonneg bucket value

end Point

/-! ## The sections of a summary -/

variable {dateWeek : String → Option String} {s : SqliteStorage} {q : SummaryQuery}
variable {summary : UsageSummary}

/-- What a summary is made of. -/
structure MadeOf (dateWeek : String → Option String) (s : SqliteStorage) (q : SummaryQuery)
    (summary : UsageSummary) (st : SummaryState)
    (split : Option (Table String (Table String Totals))) : Prop where
  state : summaryState dateWeek s q.toUsageQuery = some st
  values : querySplit dateWeek s q = some split
  totals : summary.totals = st.totals
  series : summary.series = (sortedEntries st.series.rows).map (bucketOf split)
  byProvider : summary.byProvider = sortedGroups st.byProvider
  byModel : summary.byModel = sortedGroups st.byModel
  byAgent : summary.byAgent = sortedGroups st.byAgent
  byAccount : accountGroups s q.toUsageQuery = some summary.byAccount
  bySession : sessionGroups s q.toUsageQuery = some summary.bySession

theorem usageSummary_madeOf (h : usageSummary dateWeek s q = some summary) :
    ∃ st split, MadeOf dateWeek s q summary st split := by
  obtain ⟨st, hst, h⟩ := Option.bind_eq_some_iff.mp h
  obtain ⟨split, hsplit, h⟩ := Option.bind_eq_some_iff.mp h
  obtain ⟨accounts, haccounts, h⟩ := Option.bind_eq_some_iff.mp h
  obtain ⟨sessions, hsessions, h⟩ := Option.bind_eq_some_iff.mp h
  cases h
  exact ⟨st, split, hst, hsplit, rfl, rfl, rfl, rfl, rfl, haccounts, hsessions⟩

theorem sum_sortedGroups (groups : Table String GroupTotals) :
    ((sortedGroups groups).map Group.totals).sum = (groups.rows.map fun row => row.2.totals).sum := by
  have hperm := (List.perm_insertionSort (fun a b : Group =>
    b.totals.calls < a.totals.calls ∨ a.totals.calls = b.totals.calls ∧ a.id ≤ b.id)
      (groups.rows.map groupOf)).map Group.totals
  rw [List.map_map] at hperm
  exact hperm.sum_eq

theorem sum_series (split : Option (Table String (Table String Totals))) (points : Table String Totals) :
    (((sortedEntries points.rows).map (bucketOf split)).map Bucket.totals).sum =
      (points.rows.map fun row => row.2).sum := by
  rw [List.map_map]
  exact ((List.perm_insertionSort (fun a b : String × Totals => a.1 ≤ b.1) points.rows).map
    Prod.snd).sum_eq

/-- The values of a point, each with what it counts there. -/
theorem values_of_point {M : Type} [AddCommMonoid M] (col : Totals →+ M) {st : SplitState}
    {retained : Table String (Table String Totals)} (hretain : st.retain = some retained)
    (bucket : String) : ∃ values : List String, values.Nodup ∧
      col ((((retained.find bucket).elim [] fun values => sortedEntries values.rows).map Prod.snd).sum) =
        (values.map fun value => col (st.cell bucket value)).sum := by
  unfold SplitState.retain at hretain
  split at hretain
  · cases hretain
  · obtain rfl := Option.some.inj hretain
    rw [Table.find_filterMapRows]
    cases hfind : st.split.find bucket with
    | none => exact ⟨[], List.nodup_nil, map_zero col⟩
    | some values =>
      rw [Option.bind_some]
      dsimp only
      split
      · exact ⟨[], List.nodup_nil, map_zero col⟩
      · set kept := values.deleteWhere fun value _ => !st.kept.contains value
        refine ⟨kept.rows.map Prod.fst, kept.keys_nodup, ?_⟩
        have hperm := (List.perm_insertionSort (fun a b : String × Totals => a.1 ≤ b.1) kept.rows).map
          Prod.snd
        have hcell : ∀ row ∈ kept.rows, row.2 = st.cell bucket row.1 := by
          intro row hrow
          have hmem : row ∈ values.rows := List.mem_of_mem_filter hrow
          rw [SplitState.cell, Table.entry, hfind]
          exact (Table.entry_of_mem id hmem).symm
        show col (((kept.rows.insertionSort fun a b => a.1 ≤ b.1).map Prod.snd).sum) = _
        rw [hperm.sum_eq, map_list_sum, List.map_map, List.map_map]
        exact congrArg List.sum (List.map_congr_left fun row hrow => congrArg col (hcell row hrow))

/-- The split of a summary of the rollup. -/
theorem seriesSplit_eq {q : UsageQuery} (haccount : q.account = none) {dim : SplitDim}
    {retained : Table String (Table String Totals)}
    (h : seriesSplit dateWeek s q dim = some (some retained)) :
    ∃ column, dim.rollupColumn = some column ∧
      (∀ group ∈ (valueGroups dateWeek q (keptHours s q) column).rows, group.1.1 ≠ "" →
        CanRead (fun group => readSplitRow (group.map Prod.snd)) group.1.2 group.2) ∧
      (foldSplit (fun group => readSplitRow (group.map Prod.snd))
        (valueGroups dateWeek q (keptHours s q) column).rows {}).retain = some retained := by
  unfold seriesSplit at h
  cases hcolumn : dim.rollupColumn with
  | none =>
    rw [hcolumn] at h
    cases h
  | some column =>
    rw [hcolumn, haccount] at h
    obtain ⟨st, hst, hretain⟩ := Option.map_eq_some_iff.mp h
    obtain ⟨hread, rfl⟩ := foldlM_foldSplit hst
    exact ⟨column, rfl, hread, hretain⟩

/-- No value counts more at a point than the point: every count, and the cost where none of the
hours has a negative one; a point's unpriced calls where no hour has a negative count of priced ones. -/
structure PointHolds (s : SqliteStorage) (point values : Totals) : Prop where
  column : ∀ c, c ≠ .pricedCalls → values.column c ≤ point.column c
  unpriced : (∀ hour ∈ s.rollupHourly.rows, 0 ≤ (hour.2.counters .pricedCalls).value) →
    values.unpriced ≤ point.unpriced
  costUsd : (∀ hour ∈ s.rollupHourly.rows, 0 ≤ hour.2.costUsd.value) →
    values.costUsd ≤ point.costUsd

theorem asInt_nonneg {v : Numeric} (h : 0 ≤ v.value) : 0 ≤ v.asInt := by
  cases v with
  | int z => exact Int.cast_nonneg_iff.mp h
  | real q => exact le_rfl

theorem hoursCost_nonneg {hours : List (RollupKey × RollupRow)}
    (h : ∀ hour ∈ hours, 0 ≤ hour.2.costUsd.value) : 0 ≤ hoursCost ↑hours := by
  rw [hoursCost, Multiset.map_coe, Multiset.sum_coe]
  refine List.sum_nonneg fun x hx => ?_
  obtain ⟨hour, hhour, rfl⟩ := List.mem_map.mp hx
  exact h hour hhour

theorem pointHolds {q : UsageQuery} {st : SummaryState} (haccount : q.account = none)
    (hst : summaryState dateWeek s q = some st) {dim : SplitDim}
    {retained : Table String (Table String Totals)}
    (hsplit : seriesSplit dateWeek s q dim = some (some retained)) (bucket : String) :
    PointHolds s (st.series.entry id bucket)
      ((((retained.find bucket).elim [] fun values => sortedEntries values.rows).map Prod.snd).sum) := by
  obtain ⟨column, hdim, hreadSplit, hretain⟩ := seriesSplit_eq haccount hsplit
  unfold summaryState at hst
  rw [haccount] at hst
  obtain ⟨hreadMain, rfl⟩ := foldlM_foldRow hst
  have hmain := fun group hgroup => (readsHours_summaryRow (hreadMain group hgroup).2)
  have hvalues := fun group hgroup hne => readsHours_splitRow (hreadSplit group hgroup hne).2
  have hhour : ∀ {xs : List (RollupKey × RollupRow)}, (∀ hour ∈ xs, hour ∈ keptHours s q) →
      ∀ hour ∈ xs, hour ∈ s.rollupHourly.rows := fun h hour hmem => List.mem_of_mem_filter (h hour hmem)
  have hinMain : ∀ group ∈ (pointGroups dateWeek q (keptHours s q)).rows, ∀ hour ∈ group.2,
      hour ∈ keptHours s q := fun group hgroup hour hmem => by
    rw [(Table.mem_groups hgroup).1] at hmem
    exact List.mem_of_mem_filter hmem
  have hinSplit : ∀ group ∈ (valueGroups dateWeek q (keptHours s q) column).rows, ∀ hour ∈ group.2,
      hour ∈ keptHours s q := fun group hgroup hour hmem => by
    rw [(Table.mem_groups hgroup).1] at hmem
    exact List.mem_of_mem_filter hmem
  constructor
  · intro c hc
    obtain ⟨values, hnodup, hsum⟩ := values_of_point (columnHom c) hretain bucket
    refine (le_of_eq hsum).trans (kept_le_point hdim (subadditive_count c)
      (fun group hgroup => ⟨hreadMain group hgroup, (hmain group hgroup).2 c hc⟩)
      (fun group hgroup hne => ⟨hreadSplit group hgroup hne, (hvalues group hgroup hne).column c hc⟩)
      (fun _ _ => Nat.zero_le _) bucket hnodup)
  · intro hpriced
    have hcounts : ∀ {xs : List (RollupKey × RollupRow)}, (∀ hour ∈ xs, hour ∈ keptHours s q) →
        hoursUnpriced ↑xs = hoursUnpricedCounts ↑xs := fun h =>
      hoursUnpriced_eq fun hour hmem => asInt_nonneg (hpriced hour (hhour h hour hmem))
    obtain ⟨values, hnodup, hsum⟩ := values_of_point (columnHom .pricedCalls) hretain bucket
    refine (le_of_eq hsum).trans (kept_le_point hdim subadditive_unpriced
      (fun group hgroup => ⟨hreadMain group hgroup,
        (hmain group hgroup).1.unpriced.trans (hcounts (hinMain group hgroup))⟩)
      (fun group hgroup hne => ⟨hreadSplit group hgroup hne,
        le_of_eq ((hvalues group hgroup hne).unpriced.trans (hcounts (hinSplit group hgroup)))⟩)
      (fun _ _ => Nat.zero_le _) bucket hnodup)
  · intro hcost
    obtain ⟨values, hnodup, hsum⟩ := values_of_point costHom hretain bucket
    refine (le_of_eq hsum).trans (kept_le_point hdim additive_cost
      (fun group hgroup => ⟨hreadMain group hgroup, (hmain group hgroup).1.costUsd⟩)
      (fun group hgroup hne => ⟨hreadSplit group hgroup hne, le_of_eq (hvalues group hgroup hne).costUsd⟩)
      (fun some hsome => hoursCost_nonneg fun hour hmem => hcost hour (hhour hsome hour hmem))
      bucket hnodup)

/-- An hour of one call, by its agent and its cost. -/
def hourOf (agent : String) (cost : ℚ) : RollupKey × RollupRow :=
  (⟨"2026-01-01T00:00:00Z", "p", "m", agent⟩, ⟨fun c => if c = .calls then int 1 else int 0, int 5, real cost⟩)

/-- A call without an agent has a negative price. -/
def discounted : SqliteStorage :=
  { SqliteStorage.empty with rollupHourly := ⟨[hourOf "x" 1, hourOf "" (-1)], by decide⟩ }

def byAgentQuery : SummaryQuery where
  fromBound := "2026-01-01T00:00:00Z"
  toBound := "2026-01-02T00:00:00Z"
  granularity := .day
  splitBy := some .agent

end AnyConverter.Storage
