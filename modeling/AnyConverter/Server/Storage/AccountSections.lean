import AnyConverter.Server.Storage.Sections
import AnyConverter.Server.Storage.Views

/-!
# The sections of a summary of the log

A summary that is asked for one account reads the rows of the log.

* `readLog_eq`, `readLedger_eq`: what is read of some rows is what they count;
* `groupedExact`: the sections of the grouped query;
* `splitExact`: the split of the points.
-/

set_option autoImplicit false

namespace AnyConverter.Storage

open Sqlite Sqlite.Numeric

/-! ## What rows count -/

/-- What a row adds to the totals. -/
def LogRow.totals (row : LogRow) : Totals :=
  (Totals.ofCounts (fun c => (row.cell c).asInt.toNat) row.latencyMs.toNat (row.costUsd.getD 0)
    1).withSpeed fun c => (row.cell c).asInt.toNat

def totalsOfRows (rows : List LogRow) : Totals := (rows.map LogRow.totals).sum

/-- A row whose counts are not negative. -/
structure LogRow.Counted (row : LogRow) : Prop where
  cell : ∀ c, 0 ≤ (row.cell c).asInt
  latencyMs : 0 ≤ row.latencyMs

theorem toI64_nonneg (n : Nat) : 0 ≤ toI64 n := by
  unfold toI64
  split <;> omega

theorem asInt_add_nonneg {a b : Numeric} (ha : 0 ≤ a.asInt) (hb : 0 ≤ b.asInt) : 0 ≤ (add a b).asInt := by
  cases a with
  | real q => exact le_rfl
  | int x =>
    cases b with
    | real q => exact le_rfl
    | int y =>
      show 0 ≤ (if Fits (x + y) then int (x + y) else real (x + y : Int)).asInt
      split
      · exact Int.add_nonneg ha hb
      · exact le_rfl

theorem getD_toI64_nonneg (n : Option Nat) : 0 ≤ (n.map toI64).getD 0 := by
  cases n with
  | none => exact le_rfl
  | some n => exact toI64_nonneg n

theorem counted_logRow (r : RequestLogRecord) : r.logRow.Counted where
  latencyMs := toI64_nonneg _
  cell c := by
    have hflag : ∀ (p : Prop) [Decidable p], 0 ≤ (int (if p then 1 else 0)).asInt := by
      intro p _
      split <;> decide
    cases c with
    | calls => exact Int.one_nonneg
    | errors => exact hflag _
    | inputTokens | outputTokens | latencySumMs | ttftSumMs | cacheWrite1h | decodeMs | decodeOut =>
      exact toI64_nonneg _
    | cacheReadTokens | cacheWriteTokens | reasoningTokens => exact getD_toI64_nonneg _
    | ttftCalls | pricedCalls | retriedCalls | loops | decodeN => exact hflag _
    | cacheUnknownTokens =>
      show 0 ≤ (if _ = _ then _ else _ : Numeric).asInt
      split
      · exact asInt_add_nonneg (asInt_add_nonneg (toI64_nonneg _) (getD_toI64_nonneg _))
          (getD_toI64_nonneg _)
      · exact le_rfl

/-- A counter over some rows. -/
def rowsCount (rows : List LogRow) (c : Counter) : Nat :=
  (rows.map fun row => (row.cell c).asInt.toNat).sum

def rowsLatency (rows : List LogRow) : Nat := (rows.map fun row => row.latencyMs.toNat).foldr (· ⊔ ·) 0

def rowsCost (rows : List LogRow) : ℚ := (rows.map fun row => row.costUsd.getD 0).sum

theorem rowsCount_pricedCalls (rows : List LogRow) :
    rowsCount rows .pricedCalls = rows.countP (·.costUsd.isSome) := by
  induction rows with
  | nil => rfl
  | cons row rows ih =>
    rw [List.countP_cons, ← ih, Nat.add_comm]
    show (int (if row.costUsd.isSome = true then 1 else 0)).asInt.toNat + rowsCount rows .pricedCalls = _
    split <;> rfl

/-- The totals of some rows, column by column. -/
theorem totalsOfRows_eq (rows : List LogRow) : totalsOfRows rows =
    (Totals.ofCounts (rowsCount rows) (rowsLatency rows) (rowsCost rows) rows.length).withSpeed
      (rowsCount rows) := by
  induction rows with
  | nil => rfl
  | cons row rows ih =>
    have hcons : totalsOfRows (row :: rows) = row.totals + totalsOfRows rows := rfl
    rw [hcons, ih]
    apply Totals.ext
    case calls => exact Nat.add_comm _ _
    case unpriced =>
      have hle : rowsCount rows .pricedCalls ≤ rows.length := by
        rw [rowsCount_pricedCalls]
        exact List.countP_le_length
      have hone : (row.cell .pricedCalls).asInt.toNat ≤ 1 := by
        show (int (if row.costUsd.isSome = true then 1 else 0)).asInt.toNat ≤ 1
        split <;> decide
      show (1 - (row.cell .pricedCalls).asInt.toNat) + (rows.length - rowsCount rows .pricedCalls) =
        (rows.length + 1) - ((row.cell .pricedCalls).asInt.toNat + rowsCount rows .pricedCalls)
      omega
    all_goals rfl

/-! ## What is read of rows -/

variable {rows : List LogRow}

theorem logCounts_spec {more : List Counter} {counts : Counter → Nat} (hrows : ∀ row ∈ rows, row.Counted)
    (h : logCounts more rows = some counts) :
    counts .pricedCalls = rowsCount rows .pricedCalls ∧
      ∀ c ∈ totalsColumns ++ more, c ≠ .pricedCalls → counts c = rowsCount rows c := by
  obtain ⟨summed, hsum, rfl⟩ := Option.map_eq_some_iff.mp h
  constructor
  · rw [Function.update_self, rowsCount_pricedCalls]
  · intro c hc hne
    rw [Function.update_of_ne hne, (sumColumns_spec hsum hc).2, List.map_map, rowsCount]
    have hcast : (rows.map (asInt ∘ (·.cell c))).sum =
        ((rows.map fun row => (row.cell c).asInt.toNat).sum : Nat) := by
      rw [Nat.cast_list_sum, List.map_map]
      exact congrArg List.sum (List.map_congr_left fun row hrow =>
        (Int.toNat_of_nonneg ((hrows row hrow).cell c)).symm)
    rw [hcast, Int.toNat_natCast]

theorem readMaximum_rows (hrows : ∀ row ∈ rows, row.Counted) :
    readMaximum (rows.map fun row => int row.latencyMs) = some (rowsLatency rows) := by
  rw [rowsLatency, ← readMaximum_ints, List.map_map]
  exact congrArg readMaximum (List.map_congr_left fun row hrow =>
    congrArg int (Int.toNat_of_nonneg (hrows row hrow).latencyMs).symm)

theorem cost_rows {cost : Numeric} (h : sum (rows.map LogRow.cost) = some cost) :
    cost.value = rowsCost rows := by
  rw [sum_value h, List.map_map, rowsCost]
  refine congrArg List.sum (List.map_congr_left fun row _ => ?_)
  show (row.costUsd.elim (int 0) real).value = row.costUsd.getD 0
  cases row.costUsd <;> simp

theorem ofCounts_congr {counts counts' : Counter → Nat} (hpriced : counts .pricedCalls = counts' .pricedCalls)
    (h : ∀ c ∈ totalsColumns, counts c = counts' c) (latencyMax : Nat) (cost : ℚ) (calls : Nat) :
    Totals.ofCounts counts latencyMax cost calls = Totals.ofCounts counts' latencyMax cost calls := by
  unfold Totals.ofCounts
  rw [hpriced, h .errors (by decide), h .inputTokens (by decide), h .outputTokens (by decide),
    h .cacheReadTokens (by decide), h .cacheWriteTokens (by decide), h .cacheWrite1h (by decide),
    h .cacheUnknownTokens (by decide), h .reasoningTokens (by decide), h .latencySumMs (by decide),
    h .ttftSumMs (by decide), h .ttftCalls (by decide), h .retriedCalls (by decide),
    h .loops (by decide)]

/-- What the usage view reads of some rows is what they count. -/
theorem readLog_eq {t : Totals} (hrows : ∀ row ∈ rows, row.Counted) (h : readLog rows = some t) :
    t = totalsOfRows rows := by
  obtain ⟨counts, hcounts, h⟩ := Option.bind_eq_some_iff.mp h
  obtain ⟨latency, hlatency, h⟩ := Option.bind_eq_some_iff.mp h
  obtain ⟨cost, hcost, h⟩ := Option.bind_eq_some_iff.mp h
  cases h
  rw [readMaximum_rows hrows] at hlatency
  obtain rfl := Option.some.inj hlatency
  obtain ⟨hpriced, hcolumns⟩ := logCounts_spec hrows hcounts
  have hspeed : ∀ (t : Totals), t.withSpeed counts = t.withSpeed (rowsCount rows) := by
    intro t
    unfold Totals.withSpeed
    rw [hcolumns .decodeMs (by decide) (by decide), hcolumns .decodeOut (by decide) (by decide),
      hcolumns .decodeN (by decide) (by decide)]
  rw [totalsOfRows_eq, hspeed, cost_rows hcost, ofCounts_congr hpriced fun c hc =>
    hcolumns c (List.mem_append_left _ hc) (by rintro rfl; revert hc; decide)]

/-- What the ledger reads of some rows is what they count, but for the speed. -/
theorem readLedger_eq {t : Totals} (hrows : ∀ row ∈ rows, row.Counted) (h : readLedger rows = some t) :
    t = (totalsOfRows rows).withoutSpeed := by
  obtain ⟨counts, hcounts, h⟩ := Option.bind_eq_some_iff.mp h
  obtain ⟨latency, hlatency, h⟩ := Option.bind_eq_some_iff.mp h
  obtain ⟨cost, hcost, h⟩ := Option.bind_eq_some_iff.mp h
  cases h
  rw [readMaximum_rows hrows] at hlatency
  obtain rfl := Option.some.inj hlatency
  obtain ⟨hpriced, hcolumns⟩ := logCounts_spec hrows hcounts
  rw [totalsOfRows_eq, cost_rows hcost, ofCounts_congr hpriced fun c hc =>
    hcolumns c (List.mem_append_left _ hc) (by rintro rfl; revert hc; decide)]
  rfl

/-! ## Sections -/

section Sections

variable {κ ι : Type} [DecidableEq κ] [DecidableEq ι]

/-- Entries that count the rows of each key. -/
structure CountsBy (count : List LogRow → Totals) (key : LogRow → κ) (rows : List LogRow)
    (entries : List (κ × Totals)) : Prop where
  nodup : (entries.map Prod.fst).Nodup
  mem : ∀ k t, (k, t) ∈ entries ↔
    (∃ row ∈ rows, key row = k) ∧ t = count (rows.filter fun row => key row = k)

/-- Entries that count the rows of some keys, of as many as a limit allows. -/
structure CountsSome (limit : Nat) (count : List LogRow → Totals) (key : LogRow → κ)
    (rows : List LogRow) (entries : List (κ × Totals)) : Prop where
  nodup : (entries.map Prod.fst).Nodup
  counts : ∀ k t, (k, t) ∈ entries →
    (∃ row ∈ rows, key row = k) ∧ t = count (rows.filter fun row => key row = k)
  length : entries.length = min limit (rows.map key).dedup.length

variable {count : List LogRow → Totals} {key : LogRow → κ} {entries entries' : List (κ × Totals)}

omit [DecidableEq ι] in
theorem CountsBy.perm (h : CountsBy count key rows entries) (hperm : entries'.Perm entries) :
    CountsBy count key rows entries' where
  nodup := (hperm.map Prod.fst).nodup_iff.mpr h.nodup
  mem k t := hperm.mem_iff.trans (h.mem k t)

/-- Entries by a key that tells the same rows apart. -/
theorem CountsBy.map {key' : LogRow → ι} {name : κ → ι} (h : CountsBy count key rows entries)
    (hname : Function.Injective name) (hkey : ∀ row ∈ rows, key' row = name (key row)) :
    CountsBy count key' rows (entries.map fun entry => (name entry.1, entry.2)) where
  nodup := by
    have hkeys : (entries.map fun entry => (name entry.1, entry.2)).map Prod.fst =
        (entries.map Prod.fst).map name := by
      rw [List.map_map, List.map_map]
      rfl
    rw [hkeys]
    exact h.nodup.map hname
  mem k t := by
    have hfilter : ∀ k, rows.filter (fun row => key' row = name k) = rows.filter fun row => key row = k := by
      intro k
      refine List.filter_congr fun row hrow => ?_
      rw [hkey row hrow]
      exact decide_eq_decide.mpr hname.eq_iff
    rw [List.mem_map]
    constructor
    · rintro ⟨⟨k, t⟩, hentry, heq⟩
      cases heq
      obtain ⟨⟨row, hrow, hk⟩, ht⟩ := (h.mem k t).mp hentry
      exact ⟨⟨row, hrow, (hkey row hrow).trans (congrArg name hk)⟩, by rw [hfilter]; exact ht⟩
    · rintro ⟨⟨row, hrow, rfl⟩, ht⟩
      refine ⟨(key row, t), (h.mem _ t).mpr ⟨⟨row, hrow, rfl⟩, ?_⟩, by rw [hkey row hrow]⟩
      rw [ht, hkey row hrow, hfilter]

end Sections

/-! ## The sections of the grouped query -/

section Grouped

variable {dateWeek : String → Option String} {g : Granularity}

/-- What the grouped query reads of a group of rows that can be read. -/
theorem readValue_readLog (hrows : ∀ row ∈ rows, row.Counted) {bucket : Option String}
    (h : CanRead readLog bucket rows) : readValue readLog rows = totalsOfRows rows :=
  readLog_eq hrows h.2

/-- A table that the groups of the rows are folded into by a part of their key. -/
theorem countsBy_fold {ρ : Type} (hrows : ∀ row ∈ rows, row.Counted)
    (hread : ∀ group ∈ (Table.groups (rowGroup dateWeek g) rows).rows,
      CanRead readLog group.1.bucket group.2)
    (step : Table String ρ → SummaryKey × List LogRow → Table String ρ) {part : SummaryKey → String}
    (f : ρ → Totals)
    (hkeys : ∀ t group k, k ∈ (step t group).rows.map Prod.fst ↔
      k = part group.1 ∨ k ∈ t.rows.map Prod.fst)
    (hstep : ∀ t group k, (step t group).entry f k =
      t.entry f k + if k = part group.1 then readValue readLog group.2 else 0) :
    CountsBy totalsOfRows (fun row => part (rowGroup dateWeek g row)) rows
      (((Table.groups (rowGroup dateWeek g) rows).rows.foldl step .empty).rows.map fun row =>
        (row.1, f row.2)) where
  nodup := by
    rw [List.map_map]
    exact Table.keys_nodup _
  mem k t := by
    rw [Table.mem_map_entry, Table.mem_keys_foldl hkeys, Table.entry_foldl hstep]
    have hgroups : ∀ key, key ∈ (Table.groups (rowGroup dateWeek g) rows).rows.map Prod.fst ↔
        ∃ row ∈ rows, rowGroup dateWeek g row = key := fun key => Table.mem_keys_groups
    have hexists : ((∃ group ∈ (Table.groups (rowGroup dateWeek g) rows).rows, part group.1 = k) ∨
        k ∈ (Table.empty : Table String ρ).rows.map Prod.fst) ↔
          ∃ row ∈ rows, part (rowGroup dateWeek g row) = k := by
      constructor
      · rintro (⟨group, hgroup, rfl⟩ | h)
        · obtain ⟨row, hrow, hk⟩ := (hgroups group.1).mp (List.mem_map_of_mem hgroup)
          exact ⟨row, hrow, congrArg part hk⟩
        · cases h
      · rintro ⟨row, hrow, rfl⟩
        obtain ⟨group, hgroup, hk⟩ := List.mem_map.mp ((hgroups _).mpr ⟨row, hrow, rfl⟩)
        exact Or.inl ⟨group, hgroup, congrArg part hk⟩
    have hsum : (Table.empty : Table String ρ).entry f k +
        (((Table.groups (rowGroup dateWeek g) rows).rows.filter fun group => part group.1 = k).map
          fun group => readValue readLog group.2).sum =
        totalsOfRows (rows.filter fun row => part (rowGroup dateWeek g row) = k) := by
      refine (zero_add _).trans ?_
      rw [totalsOfRows, ← Grouping.sum_fine LogRow.totals (rowGroup dateWeek g) fun key => part key = k]
      refine congrArg List.sum (List.map_congr_left fun group hgroup => ?_)
      have hmem := List.mem_of_mem_filter hgroup
      refine readValue_readLog (fun row hrow => hrows row ?_) (hread group hmem)
      rw [(Table.mem_groups hmem).1] at hrow
      exact List.mem_of_mem_filter hrow
    rw [hexists, hsum]

theorem totals_foldRows (groups : List (SummaryKey × List LogRow)) (st : SummaryState) :
    (foldRows readLog groups st).totals =
      st.totals + (groups.map fun group => readValue readLog group.2).sum := by
  induction groups generalizing st with
  | nil => exact (add_zero _).symm
  | cons group groups ih =>
    rw [foldRows, List.foldl_cons, List.map_cons, List.sum_cons, ← add_assoc]
    exact ih _

/-- The sections of the grouped query over some rows. -/
structure GroupedExact (dateWeek : String → Option String) (g : Granularity) (rows : List LogRow)
    (st : SummaryState) : Prop where
  totals : st.totals = totalsOfRows rows
  series : CountsBy totalsOfRows (fun row => bucketName (g.bucketExpr dateWeek row.timestamp)) rows
    (st.series.rows.map fun row => (row.1, row.2))
  byProvider : CountsBy totalsOfRows LogRow.provider rows
    (st.byProvider.rows.map fun row => (row.1, row.2.totals))
  byModel : CountsBy totalsOfRows LogRow.clientModel rows
    (st.byModel.rows.map fun row => (row.1, row.2.totals))
  byAgent : CountsBy totalsOfRows (fun row => row.clientId.getD "") rows
    (st.byAgent.rows.map fun row => (row.1, row.2.totals))

theorem groupedExact (hrows : ∀ row ∈ rows, row.Counted)
    (hread : ∀ group ∈ (Table.groups (rowGroup dateWeek g) rows).rows,
      CanRead readLog group.1.bucket group.2) :
    GroupedExact dateWeek g rows
      (foldRows readLog (Table.groups (rowGroup dateWeek g) rows).rows {}) := by
  set groups := (Table.groups (rowGroup dateWeek g) rows).rows with hgroups
  have hsection : ∀ {ρ : Type} (f : ρ → Totals) (part : SummaryKey → String)
      (new : SummaryKey → Totals → ρ) (merge : SummaryKey → Totals → ρ → ρ),
      (∀ key row, f (new key row) = row) → (∀ key row v, f (merge key row v) = f v + row) →
      ∀ table : SummaryState → Table String ρ, table {} = .empty →
      (∀ st key row, table (st.addRow (bucketName key.bucket) key row) =
        (table st).upsert (part key) (new key row) (merge key row)) →
      CountsBy totalsOfRows (fun row => part (rowGroup dateWeek g row)) rows
        ((table (foldRows readLog groups {})).rows.map fun row => (row.1, f row.2)) := by
    intro ρ f part new merge hnew hmerge table hempty hadd
    have hfold := countsBy_fold hrows hread (fun t group => t.upsert (part group.1)
      (new group.1 (readValue readLog group.2)) (merge group.1 (readValue readLog group.2))) f
      (fun t group k => Table.mem_keys_upsert)
      (fun t group k => Table.entry_upsert f _ t _ k (hnew _ _) (hmerge _ _))
    rw [← hempty, List.foldl_hom table fun st group => (hadd st group.1 _).symm] at hfold
    exact hfold
  constructor
  · rw [totals_foldRows]
    refine (zero_add _).trans ?_
    rw [totalsOfRows, ← Table.sum_groups (rowGroup dateWeek g) LogRow.totals rows]
    refine congrArg List.sum (List.map_congr_left fun group hgroup => ?_)
    refine readValue_readLog (fun row hrow => hrows row ?_) (hread group hgroup)
    rw [(Table.mem_groups hgroup).1] at hrow
    exact List.mem_of_mem_filter hrow
  · exact hsection id (fun key => bucketName key.bucket) (fun _ row => Totals.add {} row)
      (fun _ row => (·.add row)) (fun _ row => add_default row) (fun _ _ _ => rfl) SummaryState.series rfl
      fun _ _ _ => rfl
  · exact hsection GroupTotals.totals SummaryKey.provider
      (fun key row => ⟨some key.provider, none, Totals.add {} row⟩) (fun _ row => (·.addTotals row))
      (fun _ row => add_default row) (fun _ _ _ => rfl) SummaryState.byProvider rfl fun _ _ _ => rfl
  · exact hsection GroupTotals.totals SummaryKey.clientModel
      (fun key row => ⟨some key.provider, some key.clientModel, Totals.add {} row⟩)
      (fun key row => (·.addModel key.provider row)) (fun _ row => add_default row) (fun _ _ _ => rfl)
      SummaryState.byModel rfl fun _ _ _ => rfl
  · exact hsection GroupTotals.totals SummaryKey.agent
      (fun _ row => ⟨none, none, Totals.add {} row⟩) (fun _ row => (·.addTotals row))
      (fun _ row => add_default row) (fun _ _ _ => rfl) SummaryState.byAgent rfl fun _ _ _ => rfl

end Grouped

/-! ## The split -/

/-- The totals without the speed, which only the usage view reads. -/
def speedless : Totals →+ Totals where
  toFun := Totals.withoutSpeed
  map_zero' := rfl
  map_add' _ _ := rfl

def ledgerCount (rows : List LogRow) : Totals := speedless (totalsOfRows rows)

theorem ledgerCount_eq (rows : List LogRow) :
    ledgerCount rows = (rows.map fun row => speedless row.totals).sum := by
  rw [ledgerCount, totalsOfRows, map_list_sum, List.map_map]
  rfl

/-- A value has an entry at a bucket. -/
def SplitState.Has (st : SplitState) (bucket value : String) : Prop :=
  ∃ values, st.split.find bucket = some values ∧ value ∈ values.rows.map Prod.fst

theorem has_addRow (st : SplitState) (value bucket : String) (row : Totals) (b v : String) :
    (st.addRow value bucket row).Has b v ↔ (v = value ∧ b = bucket) ∨ st.Has b v := by
  have hfind : (st.addRow value bucket row).split.find b = if b = bucket then
      some ((st.split.find bucket).elim (Table.empty.upsert value (Totals.add {} row) (·.add row))
        (·.upsert value (Totals.add {} row) (·.add row))) else st.split.find b :=
    Table.find_upsert _ _ _ _ _
  unfold SplitState.Has
  rw [hfind]
  by_cases hb : b = bucket
  · subst hb
    rw [if_pos rfl]
    cases hold : st.split.find b with
    | none =>
      constructor
      · rintro ⟨values, hvalues, hv⟩
        obtain rfl := Option.some.inj hvalues
        rcases Table.mem_keys_upsert.mp hv with rfl | hv
        · exact Or.inl ⟨rfl, rfl⟩
        · cases hv
      · rintro (⟨rfl, -⟩ | ⟨values, hvalues, -⟩)
        · exact ⟨_, rfl, Table.mem_keys_upsert.mpr (Or.inl rfl)⟩
        · cases hvalues
    | some values =>
      constructor
      · rintro ⟨values', hvalues, hv⟩
        obtain rfl := Option.some.inj hvalues
        rcases Table.mem_keys_upsert.mp hv with rfl | hv
        · exact Or.inl ⟨rfl, rfl⟩
        · exact Or.inr ⟨values, rfl, hv⟩
      · rintro (⟨rfl, -⟩ | ⟨values', hvalues, hv⟩)
        · exact ⟨_, rfl, Table.mem_keys_upsert.mpr (Or.inl rfl)⟩
        · obtain rfl := Option.some.inj hvalues
          exact ⟨_, rfl, Table.mem_keys_upsert.mpr (Or.inr hv)⟩
  · rw [if_neg hb]
    exact (or_iff_right fun h => hb h.2).symm

/-- What holds after the groups of some values, when each of these brings it about. -/
theorem foldSplit_iff {α : Type} (read : List α → Option Totals) (P : SplitState → Prop)
    {hit : String × Option String → Prop}
    (hstep : ∀ (st : SplitState) key row, P (st.addRow key.1 (bucketName key.2) row) ↔ hit key ∨ P st)
    (groups : List ((String × Option String) × List α)) (st : SplitState) :
    P (foldSplit read groups st) ↔ (∃ group ∈ groups, group.1.1 ≠ "" ∧ hit group.1) ∨ P st := by
  induction groups generalizing st with
  | nil =>
    constructor
    · exact Or.inr
    · rintro (⟨group, hgroup, -⟩ | h)
      · cases hgroup
      · exact h
  | cons group groups ih =>
    rw [foldSplit, List.foldl_cons]
    refine (ih _).trans ?_
    by_cases hvalue : group.1.1 = ""
    · rw [if_pos hvalue, List.exists_mem_cons_iff]
      simp only [hvalue, ne_eq, not_true_eq_false, false_and, false_or]
    · rw [if_neg hvalue, hstep, List.exists_mem_cons_iff]
      simp only [hvalue, ne_eq, not_false_eq_true, true_and]
      rw [or_left_comm, or_assoc]

/-- The values that are kept: as many as there are, up to the limit. -/
theorem kept_spec (st : SplitState) : st.kept.Nodup ∧
    (∀ value ∈ st.kept, value ∈ st.weight.rows.map Prod.fst) ∧
    st.kept.length = min seriesKeep (st.weight.rows.map Prod.fst).length := by
  set sorted := st.weight.rows.insertionSort fun a b => b.2 < a.2 ∨ a.2 = b.2 ∧ a.1 ≤ b.1 with hsorted
  have hperm : sorted.Perm st.weight.rows := List.perm_insertionSort _ _
  have hkept : st.kept = (sorted.take seriesKeep).map Prod.fst := rfl
  rw [hkept]
  refine ⟨?_, fun value hvalue => ?_, ?_⟩
  · refine List.Nodup.sublist ((List.take_sublist _ _).map Prod.fst) ?_
    exact (hperm.map Prod.fst).nodup_iff.mpr st.weight.keys_nodup
  · obtain ⟨row, hrow, rfl⟩ := List.mem_map.mp hvalue
    exact List.mem_map_of_mem (hperm.mem_iff.mp (List.mem_of_mem_take hrow))
  · rw [List.length_map, List.length_take, hperm.length_eq, List.length_map]

/-- The values of a point: those of the kept ones that it has. -/
theorem retained_entries {st : SplitState} {retained : Table String (Table String Totals)}
    (hretain : st.retain = some retained) (bucket : String) :
    ((((retained.find bucket).elim [] fun values => sortedEntries values.rows)).map Prod.fst).Nodup ∧
      ∀ value t, (value, t) ∈ ((retained.find bucket).elim [] fun values => sortedEntries values.rows) ↔
        value ∈ st.kept ∧ st.Has bucket value ∧ t = st.cell bucket value := by
  unfold SplitState.retain at hretain
  split at hretain
  · cases hretain
  · obtain rfl := Option.some.inj hretain
    rw [Table.find_filterMapRows]
    unfold SplitState.Has SplitState.cell Table.entry
    cases hfind : st.split.find bucket with
    | none =>
      refine ⟨List.nodup_nil, fun value t => Iff.intro (fun h => ?_) ?_⟩
      · exact absurd h List.not_mem_nil
      · rintro ⟨-, ⟨values, hvalues, -⟩, -⟩
        cases hvalues
    | some values =>
      set kept := values.deleteWhere fun value _ => !st.kept.contains value with hkept
      have hmem : ∀ value t, (value, t) ∈ kept.rows ↔
          value ∈ st.kept ∧ (∃ values', some values = some values' ∧ value ∈ values'.rows.map Prod.fst) ∧
            t = values.entry id value := by
        intro value t
        rw [hkept, Table.deleteWhere, List.mem_filter, Bool.not_not, List.contains_iff_mem]
        constructor
        · rintro ⟨hrow, hv⟩
          exact ⟨hv, ⟨values, rfl, List.mem_map_of_mem hrow⟩, (Table.entry_of_mem id hrow).symm⟩
        · rintro ⟨hv, ⟨values', hvalues, hkey⟩, rfl⟩
          obtain rfl := Option.some.inj hvalues
          obtain ⟨row, hrow, rfl⟩ := List.mem_map.mp hkey
          refine ⟨?_, hv⟩
          rw [Table.entry_of_mem id hrow]
          exact hrow
      rw [Option.bind_some]
      dsimp only
      split
      · rename_i hnil
        rw [hnil] at hmem
        exact ⟨List.nodup_nil, hmem⟩
      · have hperm : (sortedEntries kept.rows).Perm kept.rows := List.perm_insertionSort _ _
        exact ⟨(hperm.map Prod.fst).nodup_iff.mpr kept.keys_nodup,
          fun value t => hperm.mem_iff.trans (hmem value t)⟩

section Split

variable (column : LogRow → String) (bucket : LogRow → Option String) (rows : List LogRow)

/-- The groups of a split of the log. -/
def rowGroups : Table (String × Option String) (List LogRow) :=
  Table.groups (fun row => (column row, bucket row)) rows

theorem exists_rowGroups (P : String × Option String → Prop) :
    (∃ group ∈ (rowGroups column bucket rows).rows, P group.1) ↔
      ∃ row ∈ rows, P (column row, bucket row) := by
  constructor
  · rintro ⟨group, hgroup, hP⟩
    obtain ⟨row, hrow, hk⟩ := Table.mem_keys_groups.mp (List.mem_map_of_mem (f := Prod.fst) hgroup)
    exact ⟨row, hrow, by rw [hk]; exact hP⟩
  · rintro ⟨row, hrow, hP⟩
    obtain ⟨group, hgroup, hk⟩ := List.mem_map.mp
      (Table.mem_keys_groups.mpr ⟨row, hrow, rfl⟩ :
        (column row, bucket row) ∈ (rowGroups column bucket rows).rows.map Prod.fst)
    exact ⟨group, hgroup, by rw [hk]; exact hP⟩

variable {column bucket rows}
variable (hrows : ∀ row ∈ rows, row.Counted)
  (hread : ∀ group ∈ (rowGroups column bucket rows).rows, group.1.1 ≠ "" →
    CanRead readLedger group.1.2 group.2)
include hrows hread

/-- What a value with a name counts at a point. -/
theorem cell_rowGroups {value : String} (hvalue : value ≠ "") (b : String) :
    (foldSplit readLedger (rowGroups column bucket rows).rows {}).cell b value =
      ledgerCount (rows.filter fun row => (column row, bucket row) = (value, some b)) := by
  rw [cell_eq hread hvalue, ledgerCount_eq, ← Grouping.sum_fine (fun row => speedless (LogRow.totals row))
    (fun row => (column row, bucket row)) fun key => key = (value, some b)]
  refine congrArg List.sum (List.map_congr_left fun group hgroup => ?_)
  obtain ⟨hmem, hkey⟩ := List.mem_filter.mp hgroup
  have hname : group.1.1 ≠ "" := by
    rw [of_decide_eq_true hkey]
    exact hvalue
  have hcounted : ∀ row ∈ group.2, row.Counted := by
    intro row hrow
    rw [(Table.mem_groups hmem).1] at hrow
    exact hrows row (List.mem_of_mem_filter hrow)
  rw [← ledgerCount_eq]
  exact readLedger_eq hcounted (hread group hmem hname).2

omit hrows hread in
/-- The names of the values of a split. -/
theorem mem_weight_rowGroups (value : String) :
    value ∈ (foldSplit readLedger (rowGroups column bucket rows).rows {}).weight.rows.map Prod.fst ↔
      value ∈ (rows.map column).filter (· ≠ "") := by
  have hfold := foldSplit_iff readLedger (fun st => value ∈ st.weight.rows.map Prod.fst)
    (fun st key row => Table.mem_keys_upsert) (rowGroups column bucket rows).rows {}
  have hgroups := exists_rowGroups column bucket rows fun key => key.1 ≠ "" ∧ value = key.1
  rw [hfold, hgroups, List.mem_filter, decide_eq_true_eq]
  constructor
  · rintro (⟨row, hrow, hne, rfl⟩ | h)
    · exact ⟨List.mem_map_of_mem hrow, hne⟩
    · cases h
  · rintro ⟨hvalue, hne⟩
    obtain ⟨row, hrow, rfl⟩ := List.mem_map.mp hvalue
    exact Or.inl ⟨row, hrow, hne, rfl⟩

omit hrows hread in
/-- The values a point has. -/
theorem has_rowGroups (b value : String) :
    (foldSplit readLedger (rowGroups column bucket rows).rows {}).Has b value ↔
      ∃ row ∈ rows, column row ≠ "" ∧ value = column row ∧ b = bucketName (bucket row) := by
  have hfold := foldSplit_iff readLedger (fun st => st.Has b value)
    (fun st key row => has_addRow st key.1 (bucketName key.2) row b value)
    (rowGroups column bucket rows).rows {}
  have hgroups := exists_rowGroups column bucket rows fun key =>
    key.1 ≠ "" ∧ value = key.1 ∧ b = bucketName key.2
  rw [hfold, hgroups]
  refine or_iff_left ?_
  rintro ⟨values, hvalues, -⟩
  cases hvalues

variable (column bucket rows) in
/-- The split of the points: some values are kept, as many as the limit allows of those with a name, and
each is counted at each point that has it. -/
def SplitExact (series : List Bucket) : Prop :=
  ∃ kept : List String, kept.Nodup ∧
    (∀ value ∈ kept, value ∈ (rows.map column).filter (· ≠ "")) ∧
    kept.length = min seriesKeep ((rows.map column).filter (· ≠ "")).dedup.length ∧
    ∀ point ∈ series, if kept = [] then point.byValue = none
      else ∃ values, point.byValue = some values ∧ CountsBy ledgerCount column
        (rows.filter fun row => bucket row = some point.timestamp ∧ column row ∈ kept) values

theorem splitExact (hbucket : ∀ row ∈ rows, bucket row = some (bucketName (bucket row)))
    (points : List (String × Totals)) : SplitExact column bucket rows (points.map
      (bucketOf (foldSplit readLedger (rowGroups column bucket rows).rows {}).retain)) := by
  set st := foldSplit readLedger (rowGroups column bucket rows).rows {} with hst
  obtain ⟨hnodup, hkeys, hlength⟩ := kept_spec st
  have hnames : ∀ value, value ∈ st.weight.rows.map Prod.fst ↔
      value ∈ (rows.map column).filter (· ≠ "") := mem_weight_rowGroups
  refine ⟨st.kept, hnodup, fun value hvalue => (hnames value).mp (hkeys value hvalue), ?_, ?_⟩
  · have hperm : (st.weight.rows.map Prod.fst).Perm ((rows.map column).filter (· ≠ "")).dedup :=
      (List.perm_ext_iff_of_nodup st.weight.keys_nodup (List.nodup_dedup _)).mpr fun value => by
        rw [List.mem_dedup]
        exact hnames value
    rw [hlength, hperm.length_eq]
  · intro point hpoint
    obtain ⟨entry, -, rfl⟩ := List.mem_map.mp hpoint
    by_cases hkept : st.kept = []
    · rw [if_pos hkept]
      have hretain : st.retain = none := if_pos hkept
      rw [hretain]
      rfl
    · rw [if_neg hkept]
      obtain ⟨retained, hretain⟩ : ∃ retained, st.retain = some retained := ⟨_, if_neg hkept⟩
      rw [hretain]
      obtain ⟨hentries, hmem⟩ := retained_entries hretain entry.1
      have htime : (bucketOf (some retained) entry).timestamp = entry.1 := rfl
      rw [htime]
      refine ⟨_, rfl, hentries, fun value t => (hmem value t).trans ?_⟩
      have hsame : value ∈ st.kept → (rows.filter fun row => bucket row = some entry.1 ∧
          column row ∈ st.kept).filter (fun row => column row = value) =
            rows.filter fun row => (column row, bucket row) = (value, some entry.1) := by
        intro hv
        rw [List.filter_filter]
        refine List.filter_congr fun row _ => ?_
        rw [Bool.eq_iff_iff, Bool.and_eq_true, decide_eq_true_iff, decide_eq_true_iff, decide_eq_true_iff,
          Prod.mk.injEq]
        constructor
        · rintro ⟨hvalue, hb, -⟩
          exact ⟨hvalue, hb⟩
        · rintro ⟨rfl, hb⟩
          exact ⟨rfl, hb, hv⟩
      have hname : value ∈ st.kept → value ≠ "" := fun hv =>
        of_decide_eq_true (List.mem_filter.mp ((hnames value).mp (hkeys value hv))).2
      constructor
      · rintro ⟨hv, hhas, rfl⟩
        obtain ⟨row, hrow, -, rfl, hb⟩ := (has_rowGroups entry.1 value).mp hhas
        refine ⟨⟨row, List.mem_filter.mpr ⟨hrow, decide_eq_true ⟨?_, hv⟩⟩, rfl⟩, ?_⟩
        · rw [hbucket row hrow, ← hb]
        · rw [hsame hv]
          exact cell_rowGroups hrows hread (hname hv) entry.1
      · rintro ⟨⟨row, hrow, rfl⟩, rfl⟩
        obtain ⟨hrow, hin⟩ := List.mem_filter.mp hrow
        obtain ⟨hb, hv⟩ := of_decide_eq_true hin
        refine ⟨hv, (has_rowGroups entry.1 _).mpr ⟨row, hrow, hname hv, rfl, ?_⟩, ?_⟩
        · rw [hb]
          rfl
        · refine (congrArg ledgerCount (hsame hv)).trans ?_
          exact (cell_rowGroups hrows hread (hname hv) entry.1).symm

end Split

end AnyConverter.Storage
