import AnyConverter.Lib.Ranking
import AnyConverter.Server.Storage.AccountSections

/-!
# The summary of an account

Every section of a summary that is asked for one account counts the rows of that account, but one: the
sessions are ranked and counted over the rows of every account.

* `dimensionGroups_spec`: the groups of a dimension, those with the most tokens;
* `account_summary_iff`: when the sessions too are counted for the account alone.
-/

set_option autoImplicit false

namespace AnyConverter.Storage

open Sqlite Sqlite.Numeric Ranking

/-! ## Ranks -/

/-- `input_tokens + output_tokens` over some rows. -/
def rowsTokens (rows : List LogRow) : Int := (rows.map fun row => row.inputTokens + row.outputTokens).sum

/-- A group that is listed before another: it has more tokens, or as many and a smaller name. -/
def Outranks (a b : (String × String) × List LogRow) : Prop :=
  rowsTokens b.2 < rowsTokens a.2 ∨ rowsTokens a.2 = rowsTokens b.2 ∧
    (a.1.1 < b.1.1 ∨ a.1.1 = b.1.1 ∧ a.1.2 < b.1.2)

instance : DecidableRel Outranks := fun a b => by
  unfold Outranks
  infer_instance

theorem tokensOf_value {rows : List LogRow} {v : Numeric} (h : tokensOf rows = some v) :
    v.value = rowsTokens rows := by
  rw [sum_value h, List.map_map, rowsTokens, Int.cast_list_sum, List.map_map]
  refine congrArg List.sum (List.map_congr_left fun row _ => ?_)
  show (if Fits (row.inputTokens + row.outputTokens) then int (row.inputTokens + row.outputTokens)
    else real (row.inputTokens + row.outputTokens : Int)).value = _
  split <;> rfl

/-- The order of two names. -/
def NamesLe (a b : String × String) : Prop := a.1 < b.1 ∨ a.1 = b.1 ∧ a.2 ≤ b.2

theorem string_trichotomy (a b : String) : a < b ∨ a = b ∨ b < a := by
  by_cases hab : a < b
  · exact Or.inl hab
  · by_cases hba : b < a
    · exact Or.inr (Or.inr hba)
    · exact Or.inr (Or.inl (String.le_antisymm (String.not_lt.mp hba) (String.not_lt.mp hab)))

theorem namesLe_total (a b : String × String) : NamesLe a b ∨ NamesLe b a := by
  rcases string_trichotomy a.1 b.1 with h | h | h
  · exact Or.inl (Or.inl h)
  · rcases String.le_total a.2 b.2 with hs | hs
    · exact Or.inl (Or.inr ⟨h, hs⟩)
    · exact Or.inr (Or.inr ⟨h.symm, hs⟩)
  · exact Or.inr (Or.inl h)

theorem NamesLe.trans {a b c : String × String} (hab : NamesLe a b) (hbc : NamesLe b c) :
    NamesLe a c := by
  rcases hab with hab | ⟨hab, hs⟩
  · rcases hbc with hbc | ⟨hbc, -⟩
    · exact Or.inl (String.lt_trans hab hbc)
    · exact Or.inl (hbc ▸ hab)
  · rcases hbc with hbc | ⟨hbc, hs'⟩
    · exact Or.inl (hab ▸ hbc)
    · exact Or.inr ⟨hab.trans hbc, String.le_trans hs hs'⟩

theorem NamesLe.antisymm {a b : String × String} (hab : NamesLe a b) (hba : NamesLe b a) : a = b := by
  rcases hab with hab | ⟨hab, hs⟩
  · rcases hba with hba | ⟨hba, -⟩
    · exact absurd hba (String.lt_asymm hab)
    · exact absurd (hba ▸ hab) (String.lt_irrefl _)
  · rcases hba with hba | ⟨-, hs'⟩
    · exact absurd (hab ▸ hba) (String.lt_irrefl _)
    · exact Prod.ext hab (String.le_antisymm hs hs')

theorem not_namesLe {a b : String × String} :
    ¬NamesLe a b ↔ b.1 < a.1 ∨ b.1 = a.1 ∧ b.2 < a.2 := by
  unfold NamesLe
  rcases string_trichotomy a.1 b.1 with h | h | h
  · constructor
    · exact fun hnot => absurd (Or.inl h) hnot
    · rintro (hlt | ⟨heq, -⟩)
      · exact absurd hlt (String.lt_asymm h)
      · exact absurd (heq ▸ h) (String.lt_irrefl _)
  · have hno : ¬a.1 < b.1 := h ▸ String.lt_irrefl _
    have hno' : ¬b.1 < a.1 := h ▸ String.lt_irrefl _
    rw [or_iff_right hno, or_iff_right hno', and_iff_right h, and_iff_right h.symm]
    exact String.not_le
  · constructor
    · exact fun _ => Or.inl h
    · rintro - (hlt | ⟨heq, -⟩)
      · exact absurd hlt (String.lt_asymm h)
      · exact absurd (heq ▸ h) (String.lt_irrefl _)

instance : Std.Total RankedBefore where
  total a b := by
    rcases lt_trichotomy a.2.value b.2.value with h | h | h
    · exact Or.inr (Or.inl h)
    · rcases namesLe_total a.1.1 b.1.1 with hn | hn
      · exact Or.inl (Or.inr ⟨h, hn⟩)
      · exact Or.inr (Or.inr ⟨h.symm, hn⟩)
    · exact Or.inl (Or.inl h)

instance : IsTrans _ RankedBefore where
  trans a b c hab hbc := by
    rcases hab with hab | ⟨hab, hn⟩
    · rcases hbc with hbc | ⟨hbc, -⟩
      · exact Or.inl (hbc.trans hab)
      · exact Or.inl (hbc ▸ hab)
    · rcases hbc with hbc | ⟨hbc, hn'⟩
      · exact Or.inl (hab ▸ hbc)
      · exact Or.inr ⟨hab.trans hbc, NamesLe.trans hn hn'⟩

theorem RankedBefore.antisymm {a b : ((String × String) × List LogRow) × Numeric}
    (hab : RankedBefore a b) (hba : RankedBefore b a) : a.1.1 = b.1.1 := by
  rcases hab with hab | ⟨hab, hn⟩
  · rcases hba with hba | ⟨hba, -⟩
    · exact absurd hba (not_lt.mpr hab.le)
    · exact absurd hab (hba ▸ lt_irrefl _)
  · rcases hba with hba | ⟨-, hn'⟩
    · exact absurd hba (hab ▸ lt_irrefl _)
    · exact NamesLe.antisymm hn hn'

/-- What is not ranked before a group outranks it. -/
theorem not_rankedBefore {a b : (String × String) × List LogRow} {x y : Numeric}
    (hx : x.value = rowsTokens a.2) (hy : y.value = rowsTokens b.2) :
    ¬RankedBefore (a, x) (b, y) ↔ Outranks b a := by
  have hbefore : RankedBefore (a, x) (b, y) ↔
      rowsTokens b.2 < rowsTokens a.2 ∨ rowsTokens a.2 = rowsTokens b.2 ∧ NamesLe a.1 b.1 := by
    show (y.value < x.value ∨ x.value = y.value ∧ NamesLe a.1 b.1) ↔ _
    rw [hx, hy, Int.cast_lt, Int.cast_inj]
  rw [hbefore, not_or, not_and]
  constructor
  · rintro ⟨hlt, hn⟩
    rcases lt_or_eq_of_le (not_lt.mp hlt) with h | h
    · exact Or.inl h
    · exact Or.inr ⟨h.symm, not_namesLe.mp (hn h)⟩
  · rintro (h | ⟨h, hn⟩)
    · exact ⟨not_lt.mpr h.le, fun heq => absurd h (heq ▸ lt_irrefl _)⟩
    · exact ⟨h ▸ lt_irrefl _, fun _ => not_namesLe.mpr hn⟩

/-! ## Dimensions -/

variable {key : LogRow → String × String} {rows : List LogRow}
variable {groups : List ((String × String) × Totals)}

theorem rankGroup_spec {group : (String × String) × List LogRow}
    {ranked : ((String × String) × List LogRow) × Numeric} (h : rankGroup group = some ranked) :
    ranked.1 = group ∧ ranked.2.value = rowsTokens group.2 := by
  unfold rankGroup at h
  split at h
  · obtain ⟨v, hv, rfl⟩ := Option.map_eq_some_iff.mp h
    exact ⟨rfl, tokensOf_value hv⟩
  · cases h

/-- A group among those with the most tokens. -/
def Listed (key : LogRow → String × String) (rows : List LogRow)
    (group : (String × String) × List LogRow) : Prop :=
  group ∈ (Table.groups key rows).rows ∧
    (Table.groups key rows).rows.countP (fun other => Outranks other group) < maxDimensionRows

/-- The groups of a dimension are those with the most tokens. -/
theorem dimensionGroups_spec (hrows : ∀ row ∈ rows, row.Counted)
    (h : dimensionGroups key rows = some groups) : ∃ listed : List ((String × String) × List LogRow),
      (listed.map Prod.fst).Nodup ∧ (∀ group, group ∈ listed ↔ Listed key rows group) ∧
      listed.length = min maxDimensionRows (Table.groups key rows).rows.length ∧
      groups = listed.map fun group => (group.1, ledgerCount group.2) := by
  obtain ⟨ranked, hranked, h⟩ := Option.bind_eq_some_iff.mp h
  have hpairs := forall₂_of_mapM hranked
  have hfst : ranked.map Prod.fst = (Table.groups key rows).rows :=
    (map_of_mapM hranked fun group _ r hr => (rankGroup_spec hr).1).trans (List.map_id _)
  have hvalue : ∀ r ∈ ranked, r.2.value = rowsTokens r.1.2 := by
    intro r hr
    obtain ⟨group, -, hrank⟩ := mem_of_forall₂ hpairs hr
    obtain ⟨rfl, hv⟩ := rankGroup_spec hrank
    exact hv
  have hkeys : (ranked.map fun r => r.1.1).Nodup := by
    have hnodup := (Table.groups key rows).keys_nodup
    rw [← hfst, List.map_map] at hnodup
    exact hnodup
  set first := (ranked.insertionSort RankedBefore).take maxDimensionRows with hfirst
  have hperm : (ranked.insertionSort RankedBefore).Perm ranked := List.perm_insertionSort _ _
  have hin : ∀ r ∈ first, r ∈ ranked := fun r hr => hperm.mem_iff.mp (List.mem_of_mem_take hr)
  have hmem : ∀ r, r ∈ first ↔ r ∈ ranked ∧ ranked.countP (fun y => ¬RankedBefore r y) < maxDimensionRows :=
    mem_take_sorted_iff (List.Nodup.of_map _ hkeys)
      (fun x hx y hy hxy hyx => List.inj_on_of_nodup_map hkeys hx hy (hxy.antisymm hyx)) maxDimensionRows
  have hcount : ∀ r ∈ ranked, ranked.countP (fun y => ¬RankedBefore r y) =
      (Table.groups key rows).rows.countP fun other => Outranks other r.1 := by
    intro r hr
    rw [← hfst, List.countP_map]
    exact List.countP_congr fun y hy => by
      simp only [decide_eq_true_eq, Function.comp_apply]
      exact not_rankedBefore (hvalue r hr) (hvalue y hy)
  refine ⟨first.map Prod.fst, ?_, fun group => ?_, ?_, ?_⟩
  · rw [List.map_map]
    refine List.Nodup.sublist ((List.take_sublist _ _).map _) ?_
    exact (hperm.map _).nodup_iff.mpr hkeys
  · rw [List.mem_map]
    unfold Listed
    constructor
    · rintro ⟨r, hr, rfl⟩
      obtain ⟨hr, hlt⟩ := (hmem r).mp hr
      exact ⟨hfst ▸ List.mem_map_of_mem hr, hcount r hr ▸ hlt⟩
    · rintro ⟨hgroup, hlt⟩
      rw [← hfst] at hgroup
      obtain ⟨r, hr, rfl⟩ := List.mem_map.mp hgroup
      exact ⟨r, (hmem r).mpr ⟨hr, (hcount r hr).trans_lt hlt⟩, rfl⟩
  · rw [List.length_map, hfirst, List.length_take, hperm.length_eq, ← hfst, List.length_map]
  · rw [List.map_map]
    refine (List.map_id groups).symm.trans (map_of_mapM h fun r hr group hgroup => ?_)
    obtain ⟨t, ht, rfl⟩ := Option.map_eq_some_iff.mp hgroup
    have hcounted : ∀ row ∈ r.1.2, row.Counted := by
      intro row hrow
      have hgroup : r.1 ∈ (Table.groups key rows).rows := hfst ▸ List.mem_map_of_mem (hin r hr)
      rw [(Table.mem_groups hgroup).1] at hrow
      exact hrows row (List.mem_of_mem_filter hrow)
    rw [readLedger_eq hcounted ht]
    rfl

theorem length_groups (key : LogRow → String × String) (rows : List LogRow) :
    (Table.groups key rows).rows.length = (rows.map key).dedup.length := by
  have hperm : ((Table.groups key rows).rows.map Prod.fst).Perm (rows.map key).dedup := by
    refine (List.perm_ext_iff_of_nodup (Table.groups key rows).keys_nodup (List.nodup_dedup _)).mpr
      fun k => ?_
    have hkeys : k ∈ (Table.groups key rows).rows.map Prod.fst ↔ ∃ row ∈ rows, key row = k :=
      Table.mem_keys_groups
    rw [hkeys, List.mem_dedup, List.mem_map]
  rw [← hperm.length_eq, List.length_map]

/-- The groups of a dimension count their rows. -/
theorem countsSome_of_dimensionGroups (hrows : ∀ row ∈ rows, row.Counted)
    (h : dimensionGroups key rows = some groups) :
    CountsSome maxDimensionRows ledgerCount key rows groups := by
  obtain ⟨listed, hnodup, hmem, hlength, rfl⟩ := dimensionGroups_spec hrows h
  constructor
  · rw [List.map_map]
    exact hnodup
  · intro k t hk
    obtain ⟨group, hgroup, heq⟩ := List.mem_map.mp hk
    cases heq
    have hin := ((hmem group).mp hgroup).1
    exact ⟨Table.mem_keys_groups.mp (List.mem_map_of_mem hin), by rw [← (Table.mem_groups hin).1]⟩
  · rw [List.length_map, hlength, length_groups]

/-- **Groups over all rows count some of these** exactly when no other row is in one of them. -/
theorem countsSome_filter_iff (hrows : ∀ row ∈ rows, row.Counted)
    (h : dimensionGroups key rows = some groups) (own : LogRow → Bool) :
    CountsSome maxDimensionRows ledgerCount key (rows.filter own) groups ↔
      ∀ group, Listed key rows group → ∀ row ∈ group.2, own row = true := by
  obtain ⟨listed, hnodup, hmem, hlength, rfl⟩ := dimensionGroups_spec hrows h
  have hown : ∀ group ∈ (Table.groups key rows).rows,
      (rows.filter own).filter (fun row => key row = group.1) = group.2.filter own := by
    intro group hgroup
    rw [(Table.mem_groups hgroup).1, List.filter_comm]
  constructor
  · intro hcounts group hlisted
    obtain ⟨-, ht⟩ := hcounts.counts group.1 (ledgerCount group.2)
      (List.mem_map.mpr ⟨group, (hmem group).mpr hlisted, rfl⟩)
    rw [hown group hlisted.1] at ht
    -- as many calls, so the same rows
    have hcalls : ∀ rows : List LogRow, (ledgerCount rows).calls = rows.length := by
      intro rows
      rw [ledgerCount, totalsOfRows_eq]
      rfl
    have hsame : group.2.length = (group.2.filter own).length := by
      rw [← hcalls, ht, hcalls]
    exact List.length_filter_eq_length_iff.mp hsame.symm
  · intro hall
    have hgroup : ∀ group ∈ listed, group.2.filter own = group.2 := fun group hgroup =>
      List.filter_eq_self.mpr (hall group ((hmem group).mp hgroup))
    have hkey : ∀ group ∈ listed, ∃ row ∈ rows.filter own, key row = group.1 := by
      intro group hin
      have hlisted := (hmem group).mp hin
      obtain ⟨hitems, hne⟩ := Table.mem_groups hlisted.1
      obtain ⟨row, hrow⟩ := List.exists_mem_of_ne_nil _ hne
      have hown := hall group hlisted row hrow
      rw [hitems] at hrow
      obtain ⟨hrow, hk⟩ := List.mem_filter.mp hrow
      exact ⟨row, List.mem_filter.mpr ⟨hrow, hown⟩, of_decide_eq_true hk⟩
    constructor
    · rw [List.map_map]
      exact hnodup
    · intro k t hk
      obtain ⟨group, hin, heq⟩ := List.mem_map.mp hk
      cases heq
      refine ⟨hkey group hin, ?_⟩
      rw [hown group ((hmem group).mp hin).1, hgroup group hin]
    · -- the groups that are listed are groups of these rows
      have hle : listed.length ≤ ((rows.filter own).map key).dedup.length := by
        rw [← List.length_map (f := Prod.fst)]
        refine (List.subperm_of_subset hnodup fun k hk => ?_).length_le
        obtain ⟨group, hin, rfl⟩ := List.mem_map.mp hk
        rw [List.mem_dedup, List.mem_map]
        exact hkey group hin
      have hfewer : ((rows.filter own).map key).dedup.length ≤ (rows.map key).dedup.length := by
        refine (List.subperm_of_subset (List.nodup_dedup _) fun k hk => ?_).length_le
        rw [List.mem_dedup, List.mem_map] at hk ⊢
        obtain ⟨row, hrow, rfl⟩ := hk
        exact ⟨row, List.mem_of_mem_filter hrow, rfl⟩
      rw [length_groups] at hlength
      rw [List.length_map]
      omega

/-! ## The summary of an account -/

variable {dateWeek : String → Option String} {s : SqliteStorage} {q : SummaryQuery} {account : String}
variable {summary : UsageSummary}

theorem counted_insertRequestLogs (records : List RequestLogRecord) {s : SqliteStorage}
    (h : ∀ row ∈ s.requestLogs.rows, row.2.Counted) :
    ∀ row ∈ (insertRequestLogs s records).requestLogs.rows, row.2.Counted := by
  induction records generalizing s with
  | nil => exact h
  | cons r records ih =>
    refine ih fun row hrow => ?_
    have hlogs : (insertRequestLogRow s r).requestLogs =
        s.requestLogs.upsert r.requestId r.logRow fun _ => r.logRow := by
      unfold insertRequestLogRow
      dsimp only
      split <;> rfl
    have hfind := Table.find_eq_some_iff.mpr hrow
    rw [hlogs, Table.find_upsert] at hfind
    split at hfind
    · obtain hrow := Option.some.inj hfind
      rw [← hrow]
      cases s.requestLogs.find r.requestId <;> exact counted_logRow r
    · exact h row (Table.find_eq_some_iff.mp hfind)

/-- The stored rows of an account in the range that satisfy the other filters. -/
def accountRows (s : SqliteStorage) (q : UsageQuery) (account : String) : List LogRow :=
  (s.requestLogs.rows.map Prod.snd).filter fun row => row.providerAccount = some account && q.keepsCall row

/-- The rows of every account in the range that satisfy the other filters and name a session. -/
def sessionRows (s : SqliteStorage) (q : UsageQuery) : List LogRow :=
  (s.requestLogs.rows.map Prod.snd).filter fun row => q.keepsCall row && row.sessionId.any (· ≠ "")

def accountKey (row : LogRow) : String × String := (row.providerAccount.getD "", row.provider)

def sessionKey (row : LogRow) : String × String := (row.sessionId.getD "", row.clientId.getD "")

/-- Every section counts some rows and no others; an account or a session without a name is not listed. -/
structure Exact (dateWeek : String → Option String) (q : SummaryQuery) (rows : List LogRow)
    (summary : UsageSummary) : Prop where
  totals : summary.totals = totalsOfRows rows
  series : CountsBy totalsOfRows (fun row => q.granularity.bucketExpr dateWeek row.timestamp) rows
    (summary.series.map fun point => (some point.timestamp, point.totals))
  values : match q.splitBy.bind SplitDim.logColumn with
    | some column => SplitExact column (fun row => q.granularity.bucketExpr dateWeek row.timestamp) rows
        summary.series
    | none => ∀ point ∈ summary.series, point.byValue = none
  byProvider : CountsBy totalsOfRows LogRow.provider rows
    (summary.byProvider.map fun group => (group.id, group.totals))
  byModel : CountsBy totalsOfRows LogRow.clientModel rows
    (summary.byModel.map fun group => (group.id, group.totals))
  byAgent : CountsBy totalsOfRows (fun row => row.clientId.getD "") rows
    (summary.byAgent.map fun group => (group.id, group.totals))
  byAccount : ∃ groups, summary.byAccount = groups.map (fun ((account, provider), totals) =>
      ⟨account, some provider, none, totals⟩) ∧
    CountsSome maxDimensionRows ledgerCount accountKey
      (rows.filter fun row => row.providerAccount.any (· ≠ "")) groups
  bySession : ∃ groups, summary.bySession = groups.map (fun ((session, agent), totals) =>
      ⟨session, none, some agent, totals⟩) ∧
    CountsSome maxDimensionRows ledgerCount sessionKey
      (rows.filter fun row => row.sessionId.any (· ≠ "")) groups

theorem keptRows_eq (haccount : q.account = some account) :
    keptRows s q.toUsageQuery = accountRows s q.toUsageQuery account := by
  refine List.filter_congr fun row _ => ?_
  unfold UsageQuery.keepsRow UsageQuery.keepsCall named
  rw [haccount, Bool.and_comm]
  rfl

theorem counted_accountRows (h : ∀ row ∈ s.requestLogs.rows, row.2.Counted) :
    ∀ row ∈ accountRows s q.toUsageQuery account, row.Counted := by
  intro row hrow
  obtain ⟨stored, hstored, rfl⟩ := List.mem_map.mp (List.mem_of_mem_filter hrow)
  exact h stored hstored

/-- The sections of the grouped query, and the buckets of the rows. -/
theorem grouped_of_account (h : ∀ row ∈ s.requestLogs.rows, row.2.Counted)
    (haccount : q.account = some account) {st : SummaryState}
    (hst : summaryState dateWeek s q.toUsageQuery = some st) :
    GroupedExact dateWeek q.granularity (accountRows s q.toUsageQuery account) st ∧
      ∀ row ∈ accountRows s q.toUsageQuery account, q.granularity.bucketExpr dateWeek row.timestamp =
        some (bucketName (q.granularity.bucketExpr dateWeek row.timestamp)) := by
  unfold summaryState at hst
  rw [haccount, keptRows_eq haccount] at hst
  obtain ⟨hread, rfl⟩ := foldlM_foldRow hst
  refine ⟨groupedExact (counted_accountRows h) hread, fun row hrow => ?_⟩
  have hkey : rowGroup dateWeek q.granularity row ∈ (Table.groups (rowGroup dateWeek q.granularity)
      (accountRows s q.toUsageQuery account)).rows.map Prod.fst :=
    Table.mem_keys_groups.mpr ⟨row, hrow, rfl⟩
  obtain ⟨group, hgroup, hkey⟩ := List.mem_map.mp hkey
  have hbucket := (hread group hgroup).1
  rw [hkey] at hbucket
  exact hbucket

/-- The split of the points. -/
theorem values_of_account (h : ∀ row ∈ s.requestLogs.rows, row.2.Counted)
    (haccount : q.account = some account)
    (hbucket : ∀ row ∈ accountRows s q.toUsageQuery account,
      q.granularity.bucketExpr dateWeek row.timestamp =
        some (bucketName (q.granularity.bucketExpr dateWeek row.timestamp)))
    {split : Option (Table String (Table String Totals))}
    (hsplit : querySplit dateWeek s q = some split) (points : List (String × Totals)) :
    match q.splitBy.bind SplitDim.logColumn with
    | some column => SplitExact column (fun row => q.granularity.bucketExpr dateWeek row.timestamp)
        (accountRows s q.toUsageQuery account) (points.map (bucketOf split))
    | none => ∀ point ∈ points.map (bucketOf split), point.byValue = none := by
  have hnone : split = none → ∀ point ∈ points.map (bucketOf split), point.byValue = none := by
    rintro rfl point hpoint
    obtain ⟨entry, -, rfl⟩ := List.mem_map.mp hpoint
    rfl
  unfold querySplit at hsplit
  cases hdim : q.splitBy with
  | none =>
    rw [hdim] at hsplit
    exact hnone (Option.some.inj hsplit).symm
  | some dim =>
    rw [hdim] at hsplit
    change seriesSplit dateWeek s q.toUsageQuery dim = some split at hsplit
    have hlog : ∀ {column}, dim.rollupColumn.isSome = true → dim.logColumn = some column →
        SplitExact column (fun row => q.granularity.bucketExpr dateWeek row.timestamp)
          (accountRows s q.toUsageQuery account) (points.map (bucketOf split)) := by
      intro column hrollup hcolumn
      obtain ⟨rollup, hrollup⟩ := Option.isSome_iff_exists.mp hrollup
      unfold seriesSplit at hsplit
      rw [hrollup, haccount, hcolumn, keptRows_eq haccount] at hsplit
      obtain ⟨st, hst, rfl⟩ := Option.map_eq_some_iff.mp hsplit
      obtain ⟨hread, rfl⟩ := foldlM_foldSplit hst
      exact splitExact (counted_accountRows h) hread hbucket points
    cases dim with
    | provider | model => exact hlog rfl rfl
    | account => exact hnone (Option.some.inj hsplit).symm
    | agent =>
      unfold seriesSplit at hsplit
      rw [haccount] at hsplit
      cases hsplit

/-- Every section but that of the sessions counts the rows of the account. -/
theorem exact_iff (h : ∀ row ∈ s.requestLogs.rows, row.2.Counted) (haccount : q.account = some account)
    (hsummary : usageSummary dateWeek s q = some summary) :
    Exact dateWeek q (accountRows s q.toUsageQuery account) summary ↔
      ∃ groups, summary.bySession = groups.map (fun ((session, agent), totals) =>
          ⟨session, none, some agent, totals⟩) ∧
        CountsSome maxDimensionRows ledgerCount sessionKey
          ((accountRows s q.toUsageQuery account).filter fun row => row.sessionId.any (· ≠ "")) groups := by
  obtain ⟨st, split, hmade⟩ := usageSummary_madeOf hsummary
  obtain ⟨hgrouped, hbucket⟩ := grouped_of_account h haccount hmade.state
  have hgroups : ∀ {part : LogRow → String} {table : Table String GroupTotals},
      CountsBy totalsOfRows part (accountRows s q.toUsageQuery account)
        (table.rows.map fun row => (row.1, row.2.totals)) →
      CountsBy totalsOfRows part (accountRows s q.toUsageQuery account)
        ((sortedGroups table).map fun group => (group.id, group.totals)) := by
    intro part table hcounts
    have hperm := ((List.perm_insertionSort (fun a b : Group => b.totals.calls < a.totals.calls ∨
      a.totals.calls = b.totals.calls ∧ a.id ≤ b.id) (table.rows.map groupOf)).map
        fun group => (group.id, group.totals))
    rw [List.map_map] at hperm
    exact hcounts.perm hperm
  have hseries : summary.series.map (fun point => (some point.timestamp, point.totals)) =
      (sortedEntries st.series.rows).map fun entry => (some entry.1, entry.2) := by
    rw [hmade.series, List.map_map]
    rfl
  constructor
  · exact fun hexact => hexact.bySession
  · intro hsessions
    constructor
    · exact hmade.totals.trans hgrouped.totals
    · rw [hseries]
      refine CountsBy.map (hgrouped.series.perm ?_) (Option.some_injective _) hbucket
      have hperm := List.perm_insertionSort (fun a b : String × Totals => a.1 ≤ b.1) st.series.rows
      exact hperm.trans (List.map_id _ ▸ List.Perm.refl _)
    · rw [hmade.series]
      exact values_of_account h haccount hbucket hmade.values (sortedEntries st.series.rows)
    · rw [hmade.byProvider]
      exact hgroups hgrouped.byProvider
    · rw [hmade.byModel]
      exact hgroups hgrouped.byModel
    · rw [hmade.byAgent]
      exact hgroups hgrouped.byAgent
    · obtain ⟨groups, hdims, hmap⟩ := Option.map_eq_some_iff.mp hmade.byAccount
      refine ⟨groups, hmap.symm, ?_⟩
      have hrows : (s.requestLogs.rows.map Prod.snd).filter (fun row => q.keepsCall row &&
          row.providerAccount.any (· ≠ "") && named q.account row.providerAccount) =
            (accountRows s q.toUsageQuery account).filter fun row =>
              row.providerAccount.any (· ≠ "") := by
        rw [accountRows, List.filter_filter]
        refine List.filter_congr fun row _ => ?_
        rw [haccount]
        show (q.keepsCall row && row.providerAccount.any (· ≠ "") &&
          decide (row.providerAccount = some account)) = _
        ac_rfl
      rw [hrows] at hdims
      exact countsSome_of_dimensionGroups
        (fun row hrow => counted_accountRows h row (List.mem_of_mem_filter hrow)) hdims
    · exact hsessions

/-- A call of an account in a session. -/
def sessionCall (id account : String) : RequestLogRecord where
  requestId := id
  timestamp := "2026-01-01T10:00:00Z"
  sessionId := some "t"
  providerAccount := some account
  provider := "p"
  clientModel := "m"
  responseStatus := 200
  latencyMs := 5

def accountQuery (splitBy : Option SplitDim) : SummaryQuery where
  fromBound := "2026-01-01T00:00:00Z"
  toBound := "2026-01-02T00:00:00Z"
  granularity := .day
  account := some "a"
  splitBy := splitBy

end AnyConverter.Storage
