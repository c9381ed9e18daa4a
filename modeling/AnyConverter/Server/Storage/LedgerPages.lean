import AnyConverter.Lib.Keyset
import AnyConverter.Lib.Ranking
import AnyConverter.Server.Storage.AccountSections
import AnyConverter.Server.Storage.LedgerCsv
import AnyConverter.Server.Storage.LedgerSearch

/-!
# The pages of the ledger

A page holds the newest rows of the log before a cursor; a client follows the cursors while records are
written.

* `ledger_pages`: which rows the client is given, in which order, and how often;
* `logs_insertAll`: the log with its ids is the log of the storage.
-/

set_option autoImplicit false

namespace AnyConverter.Storage

open Sqlite Sqlite.Numeric

/-! ## The log with its ids -/

/-- A row of `request_logs` with its `id`. -/
structure IdRow where
  id : Nat
  requestId : String
  row : LogRow

/-- `request_logs`: an `id` is larger than all there have been, and every row is that of a record. -/
structure RequestLogs where
  rows : List IdRow
  nextId : Nat
  sorted : rows.Pairwise fun x y => x.id < y.id
  id_lt : ∀ x ∈ rows, x.id < nextId
  requestIds : (rows.map IdRow.requestId).Nodup
  records : ∀ x ∈ rows, ∃ r : RequestLogRecord, x.requestId = r.requestId ∧ x.row = r.logRow

/-- A record that is written, and how many ids `autoincrement` skips for it. -/
structure LogWrite where
  record : RequestLogRecord
  skipped : Nat := 0

/-- `insert into request_logs … on conflict(request_id) do update`; a row keeps its id. -/
def upsertIds (id : Nat) (r : RequestLogRecord) : List IdRow → List IdRow
  | [] => [⟨id, r.requestId, r.logRow⟩]
  | x :: rows =>
    if x.requestId = r.requestId then { x with row := r.logRow } :: rows else x :: upsertIds id r rows

/-- A row after a write: one from before, the row that is refreshed, or a new one. -/
theorem mem_upsertIds {id : Nat} {r : RequestLogRecord} {rows : List IdRow} {x : IdRow}
    (h : x ∈ upsertIds id r rows) : x ∈ rows ∨ (x.requestId = r.requestId ∧ x.row = r.logRow ∧
      (x.id = id ∨ ∃ y ∈ rows, y.id = x.id)) := by
  induction rows with
  | nil =>
    obtain rfl := List.mem_singleton.mp h
    exact Or.inr ⟨rfl, rfl, Or.inl rfl⟩
  | cons y rows ih =>
    unfold upsertIds at h
    split at h
    · rename_i heq
      rcases List.mem_cons.mp h with rfl | h
      · exact Or.inr ⟨heq, rfl, Or.inr ⟨y, List.mem_cons_self, rfl⟩⟩
      · exact Or.inl (List.mem_cons_of_mem y h)
    · rcases List.mem_cons.mp h with rfl | h
      · exact Or.inl List.mem_cons_self
      · rcases ih h with h | ⟨hid, hrow, h⟩
        · exact Or.inl (List.mem_cons_of_mem y h)
        · refine Or.inr ⟨hid, hrow, h.imp_right ?_⟩
          rintro ⟨z, hz, heq⟩
          exact ⟨z, List.mem_cons_of_mem y hz, heq⟩

/-- A row from before is there after a write, as it was or refreshed. -/
theorem exists_upsertIds (id : Nat) (r : RequestLogRecord) {rows : List IdRow} {x : IdRow} (h : x ∈ rows) :
    ∃ y ∈ upsertIds id r rows, y.id = x.id ∧ y.requestId = x.requestId ∧
      (y.row = x.row ∨ r.requestId = x.requestId ∧ y.row = r.logRow) := by
  induction rows with
  | nil => cases h
  | cons z rows ih =>
    unfold upsertIds
    split
    · rename_i heq
      rcases List.mem_cons.mp h with rfl | h
      · exact ⟨_, List.mem_cons_self, rfl, rfl, Or.inr ⟨heq.symm, rfl⟩⟩
      · exact ⟨x, List.mem_cons_of_mem _ h, rfl, rfl, Or.inl rfl⟩
    · rcases List.mem_cons.mp h with rfl | h
      · exact ⟨x, List.mem_cons_self, rfl, rfl, Or.inl rfl⟩
      · obtain ⟨y, hy, hfields⟩ := ih h
        exact ⟨y, List.mem_cons_of_mem z hy, hfields⟩

/-- What the log is without its ids. -/
theorem map_upsertIds (id : Nat) (r : RequestLogRecord) (rows : List IdRow) :
    (upsertIds id r rows).map (fun x => (x.requestId, x.row)) =
      Table.upsertRows r.requestId r.logRow (fun _ => r.logRow)
        (rows.map fun x => (x.requestId, x.row)) := by
  induction rows with
  | nil => rfl
  | cons x rows ih =>
    rw [List.map_cons, upsertIds, Table.upsertRows]
    split
    · rfl
    · rw [List.map_cons, ih]

theorem sorted_upsertIds {id : Nat} {r : RequestLogRecord} {rows : List IdRow}
    (hsorted : rows.Pairwise fun x y => x.id < y.id) (hid : ∀ x ∈ rows, x.id < id) :
    (upsertIds id r rows).Pairwise fun x y => x.id < y.id := by
  induction rows with
  | nil => exact List.pairwise_singleton _ _
  | cons x rows ih =>
    rw [List.pairwise_cons] at hsorted
    unfold upsertIds
    split
    · exact List.pairwise_cons.mpr hsorted
    · refine List.pairwise_cons.mpr ⟨fun y hy => ?_, ih hsorted.2 fun y hy =>
        hid y (List.mem_cons_of_mem x hy)⟩
      rcases mem_upsertIds hy with hy | ⟨-, -, heq | ⟨z, hz, heq⟩⟩
      · exact hsorted.1 y hy
      · exact heq ▸ hid x List.mem_cons_self
      · exact heq ▸ hsorted.1 z hz

namespace RequestLogs

def empty : RequestLogs where
  rows := []
  nextId := 1
  sorted := .nil
  id_lt := fun _ hx => absurd hx List.not_mem_nil
  requestIds := List.nodup_nil
  records := fun _ hx => absurd hx List.not_mem_nil

def insert (t : RequestLogs) (w : LogWrite) : RequestLogs where
  rows := upsertIds (t.nextId + w.skipped) w.record t.rows
  nextId := t.nextId + w.skipped + 1
  sorted := sorted_upsertIds t.sorted fun x hx => (t.id_lt x hx).trans_le (Nat.le_add_right _ _)
  id_lt := by
    intro x hx
    rcases mem_upsertIds hx with hx | ⟨-, -, heq | ⟨y, hy, heq⟩⟩
    · have := t.id_lt x hx
      omega
    · omega
    · have := t.id_lt y hy
      omega
  requestIds := by
    have hkeys : ∀ rows : List IdRow, rows.map IdRow.requestId =
        (rows.map fun x => (x.requestId, x.row)).map Prod.fst := by
      intro rows
      rw [List.map_map]
      rfl
    rw [hkeys, map_upsertIds]
    exact Table.nodup_upsertRows (hkeys t.rows ▸ t.requestIds)
  records := by
    intro x hx
    rcases mem_upsertIds hx with hx | ⟨hid, hrow, -⟩
    · exact t.records x hx
    · exact ⟨w.record, hid, hrow⟩

def insertAll (t : RequestLogs) (writes : List LogWrite) : RequestLogs := writes.foldl insert t

/-- The log at each page, with what is written after the page before. -/
def after (t : RequestLogs) (writes : Nat → List LogWrite) : Nat → RequestLogs
  | 0 => t
  | i + 1 => (t.after writes i).insertAll (writes i)

/-- The log of the storage. -/
def logs (t : RequestLogs) : Table String LogRow where
  rows := t.rows.map fun x => (x.requestId, x.row)
  keys_nodup := by
    rw [List.map_map]
    exact t.requestIds

end RequestLogs

/-- **The log with its ids** is the log of the storage. -/
theorem logs_insertAll {t : RequestLogs} {s : SqliteStorage} (h : t.logs = s.requestLogs)
    (writes : List LogWrite) :
    (t.insertAll writes).logs = (insertRequestLogs s (writes.map LogWrite.record)).requestLogs := by
  induction writes generalizing t s with
  | nil => exact h
  | cons w writes ih =>
    refine ih ?_
    have hlogs : (insertRequestLogRow s w.record).requestLogs =
        s.requestLogs.upsert w.record.requestId w.record.logRow fun _ => w.record.logRow := by
      unfold insertRequestLogRow
      dsimp only
      split <;> rfl
    rw [hlogs, ← h]
    unfold RequestLogs.logs RequestLogs.insert Table.upsert
    congr 1
    exact map_upsertIds _ _ _

/-! ## One page -/

def defaultLimit : Nat := 100

def maxLimit : Nat := 500

def pageLimit (limit : Nat) : Nat := if limit = 0 then defaultLimit else min limit maxLimit

theorem pageLimit_pos (limit : Nat) : 0 < pageLimit limit := by
  unfold pageLimit defaultLimit maxLimit
  split <;> omega

structure LedgerPage where
  rows : List LedgerRow
  total : Nat
  nextCursor : Option Nat
  totals : Totals
  deriving DecidableEq

/-- A row of a page; a status is read as a `u16`, which may fail, and the tries are cut to a `u32`. -/
def readLedgerRow (x : IdRow) : Option LedgerRow :=
  if 0 ≤ x.row.responseStatus ∧ x.row.responseStatus < 2 ^ 16 then
    some {
      requestId := x.requestId
      timestamp := x.row.timestamp
      provider := x.row.provider
      clientModel := x.row.clientModel
      upstreamModel := x.row.upstreamModel
      servedModel := x.row.servedModel
      agent := x.row.clientId
      account := x.row.providerAccount
      sessionId := x.row.sessionId
      status := x.row.responseStatus.toNat
      attempt := x.row.attempt.toNat % 2 ^ 32
      streaming := x.row.streaming
      latencyMs := x.row.latencyMs.toNat
      ttftMs := x.row.ttftMs.toNat
      inputTokens := x.row.inputTokens.toNat
      outputTokens := x.row.outputTokens.toNat
      cacheReadTokens := (x.row.cacheReadTokens.getD 0).toNat
      cacheWriteTokens := (x.row.cacheWriteTokens.getD 0).toNat
      reasoningTokens := (x.row.reasoningTokens.getD 0).toNat
      costUsd := x.row.costUsd }
  else none

variable (L : Lowercase)

/-- The rows a filter keeps. -/
def keptIds (t : RequestLogs) (f : LedgerFilter) : List IdRow :=
  t.rows.filter fun x => f.keeps (search L) x.row

/-- `ledger_page`; nothing where one of its queries is an error. -/
def ledgerPage (t : RequestLogs) (f : LedgerFilter) (cursor : Option Nat) (limit : Nat) :
    Option LedgerPage := do
  let kept ← f.select L (t.rows.map IdRow.row)
  let page := Keyset.page IdRow.id (pageLimit limit) cursor (keptIds L t f)
  let rows ← page.mapM readLedgerRow
  let totals ← readLedger kept
  return {
    rows := rows
    total := kept.length
    nextCursor := Keyset.next IdRow.id (pageLimit limit) page
    totals := totals }

/-- A client that follows the cursors, from the `i`-th page on; nothing where a page is an error, or
where there are more pages than it would load. -/
def ledgerPages (t : Nat → RequestLogs) (f : LedgerFilter) (limit : Nat) :
    Nat → Nat → Option Nat → Option (List LedgerPage)
  | 0, _, _ => none
  | most + 1, i, cursor => do
    let page ← ledgerPage L (t i) f cursor limit
    match page.nextCursor with
    | none => some [page]
    | some c => (ledgerPages t f limit most (i + 1) (some c)).map (page :: ·)

variable {L} {t : RequestLogs} {f : LedgerFilter} {cursor : Option Nat} {limit : Nat} {page : LedgerPage}

theorem counted_keptIds : ∀ row ∈ (keptIds L t f).map IdRow.row, row.Counted := by
  intro row hrow
  obtain ⟨x, hx, rfl⟩ := List.mem_map.mp hrow
  obtain ⟨r, -, hlog⟩ := t.records x (List.mem_of_mem_filter hx)
  rw [hlog]
  exact counted_logRow r

/-- What a page is: some rows that are read, the next cursor, and the totals of all that are kept. -/
structure Loads (L : Lowercase) (t : RequestLogs) (f : LedgerFilter) (rows : List IdRow)
    (page : LedgerPage) : Prop where
  rows : rows.mapM readLedgerRow = some page.rows
  total : page.total = (keptIds L t f).length
  totals : page.totals = ledgerCount ((keptIds L t f).map IdRow.row)

theorem ledgerPage_spec (h : ledgerPage L t f cursor limit = some page) :
    Loads L t f (Keyset.page IdRow.id (pageLimit limit) cursor (keptIds L t f)) page ∧
      page.nextCursor = Keyset.next IdRow.id (pageLimit limit)
        (Keyset.page IdRow.id (pageLimit limit) cursor (keptIds L t f)) := by
  obtain ⟨kept, hkept, h⟩ := Option.bind_eq_some_iff.mp h
  obtain ⟨rows, hrows, h⟩ := Option.bind_eq_some_iff.mp h
  obtain ⟨totals, htotals, h⟩ := Option.bind_eq_some_iff.mp h
  cases h
  have hsame : kept = (keptIds L t f).map IdRow.row := by
    unfold LedgerFilter.select at hkept
    split at hkept
    · cases hkept
    · obtain rfl := Option.some.inj hkept
      rw [List.filter_map]
      rfl
  subst hsame
  exact ⟨⟨hrows, List.length_map _, readLedger_eq counted_keptIds htotals⟩, rfl⟩

/-! ## All pages -/

variable {states : Nat → RequestLogs} {most i : Nat} {pages : List LedgerPage}

/-- The client's pages are keyset pages of the rows that are kept. -/
theorem ledgerPages_follow (h : ledgerPages L states f limit most i cursor = some pages) :
    ∃ loads, Keyset.follow IdRow.id (pageLimit limit) (fun i => keptIds L (states i) f) most i cursor =
        some loads ∧
      loads.flatten.mapM readLedgerRow = some (pages.flatMap LedgerPage.rows) ∧
      loads.length = pages.length ∧
      ∀ page ∈ pages, ∃ j rows, Loads L (states j) f rows page := by
  induction most generalizing i cursor pages with
  | zero => cases h
  | succ most ih =>
    obtain ⟨page, hpage, h⟩ := Option.bind_eq_some_iff.mp h
    obtain ⟨hloads, hnext⟩ := ledgerPage_spec hpage
    rw [Keyset.follow]
    cases hcursor : page.nextCursor with
    | none =>
      rw [hcursor] at h hnext
      obtain rfl := Option.some.inj h
      rw [← hnext]
      refine ⟨_, rfl, ?_, rfl, fun page' hmem => ?_⟩
      · rw [List.flatMap_singleton, List.flatten_singleton]
        exact hloads.rows
      · obtain rfl := List.mem_singleton.mp hmem
        exact ⟨i, _, hloads⟩
    | some c =>
      rw [hcursor] at h hnext
      obtain ⟨rest, hrest, rfl⟩ := Option.map_eq_some_iff.mp h
      obtain ⟨loads, hfollow, hread, hlength, hall⟩ := ih hrest
      rw [← hnext]
      refine ⟨_, congrArg (Option.map _) hfollow, ?_, congrArg (· + 1) hlength, fun page' hmem => ?_⟩
      · rw [List.flatten_cons, List.flatMap_cons, List.mapM_append, hloads.rows, hread]
        rfl
      · rcases List.mem_cons.mp hmem with rfl | hmem
        · exact ⟨i, _, hloads⟩
        · exact hall page' hmem

/-! ## While records are written -/

variable {writes : Nat → List LogWrite} {x y : IdRow}

theorem exists_insertAll (hx : x ∈ t.rows) (ws : List LogWrite) :
    ∃ y ∈ (t.insertAll ws).rows, y.id = x.id ∧ y.requestId = x.requestId ∧
      (y.row = x.row ∨ ∃ w ∈ ws, w.record.requestId = x.requestId ∧ y.row = w.record.logRow) := by
  induction ws generalizing t x with
  | nil => exact ⟨x, hx, rfl, rfl, Or.inl rfl⟩
  | cons w ws ih =>
    obtain ⟨y, hy, hid, hrequest, hrow⟩ := exists_upsertIds (t.nextId + w.skipped) w.record hx
    obtain ⟨z, hz, hid', hrequest', hrow'⟩ := ih (t := t.insert w) hy
    refine ⟨z, hz, hid'.trans hid, hrequest'.trans hrequest, ?_⟩
    rcases hrow' with hrow' | ⟨w', hw', hname, hrow'⟩
    · rcases hrow with hrow | ⟨hname, hrow⟩
      · exact Or.inl (hrow'.trans hrow)
      · exact Or.inr ⟨w, List.mem_cons_self, hname, hrow'.trans hrow⟩
    · exact Or.inr ⟨w', List.mem_cons_of_mem w hw', hname.trans hrequest, hrow'⟩

/-- A row stays under its id, as it was or as a record has refreshed it. -/
theorem exists_after {i j : Nat} (hle : i ≤ j) (hx : x ∈ (t.after writes i).rows) :
    ∃ y ∈ (t.after writes j).rows, y.id = x.id ∧ y.requestId = x.requestId ∧ (y.row = x.row ∨
      ∃ k < j, ∃ w ∈ writes k, w.record.requestId = x.requestId ∧ y.row = w.record.logRow) := by
  induction j, hle using Nat.le_induction with
  | base => exact ⟨x, hx, rfl, rfl, Or.inl rfl⟩
  | succ j hle ih =>
    obtain ⟨y, hy, hid, hrequest, hrow⟩ := ih
    obtain ⟨z, hz, hid', hrequest', hrow'⟩ := exists_insertAll hy (writes j)
    refine ⟨z, hz, hid'.trans hid, hrequest'.trans hrequest, ?_⟩
    rcases hrow' with hrow' | ⟨w, hw, hname, hrow'⟩
    · rcases hrow with hrow | ⟨k, hk, w, hw, hname, hrow⟩
      · exact Or.inl (hrow'.trans hrow)
      · exact Or.inr ⟨k, by omega, w, hw, hname, hrow'.trans hrow⟩
    · exact Or.inr ⟨j, by omega, w, hw, hname.trans hrequest, hrow'⟩

/-- A request keeps its id. -/
theorem id_eq_of_after {i j : Nat} (hx : x ∈ (t.after writes i).rows) (hy : y ∈ (t.after writes j).rows)
    (h : x.requestId = y.requestId) : x.id = y.id := by
  obtain ⟨x', hx', hid, hrequest, -⟩ := exists_after (le_max_left i j) hx
  obtain ⟨y', hy', hid', hrequest', -⟩ := exists_after (le_max_right i j) hy
  have heq : x' = y' := List.inj_on_of_nodup_map (t.after writes (max i j)).requestIds hx' hy'
    (hrequest.trans (h.trans hrequest'.symm))
  rw [← hid, ← hid', heq]

theorem after_of_no_writes (hnone : ∀ i, writes i = []) (i : Nat) : t.after writes i = t := by
  induction i with
  | zero => rfl
  | succ i ih => rw [RequestLogs.after, ih, hnone]; rfl

theorem RequestLogs.ids (t : RequestLogs) : (t.rows.map IdRow.id).Nodup :=
  List.pairwise_map.mpr (t.sorted.imp fun hlt => hlt.ne)

theorem ids_nodup (t : RequestLogs) (f : LedgerFilter) : ((keptIds L t f).map IdRow.id).Nodup :=
  t.ids.sublist (List.filter_sublist.map _)

/-! ## What the client is given -/

/-- What a client that follows the cursors to the end is given, as it was stored when it was read. -/
structure Delivered (L : Lowercase) (t : RequestLogs) (f : LedgerFilter) (writes : Nat → List LogWrite)
    (pages : List LedgerPage) (returned : List IdRow) : Prop where
  read : returned.mapM readLedgerRow = some (pages.flatMap LedgerPage.rows)
  newestFirst : returned.Pairwise fun x y => y.id < x.id
  once : ((pages.flatMap LedgerPage.rows).map LedgerRow.requestId).Nodup
  /-- every row was kept by the filter when it was read -/
  kept : ∀ x ∈ returned, ∃ i < pages.length, x ∈ keptIds L (t.after writes i) f
  /-- every row that is kept at the start, unless a record of its request that is not kept is written -/
  complete : ∀ x ∈ keptIds L t f, (∀ i, i + 1 < pages.length → ∀ w ∈ writes i,
    w.record.requestId = x.requestId → f.keeps (search L) w.record.logRow = true) →
      ∃ y ∈ returned, y.id = x.id ∧ y.requestId = x.requestId
  /-- without writes, each page has the number and the totals of all rows -/
  totals : (∀ i, writes i = []) → ∀ page ∈ pages,
    page.total = (pages.flatMap LedgerPage.rows).length ∧
      page.totals = ledgerCount (returned.map IdRow.row)

theorem delivered (h : ledgerPages L (t.after writes) f limit most 0 none = some pages) :
    ∃ returned, Delivered L t f writes pages returned := by
  obtain ⟨loads, hfollow, hread, hlength, hall⟩ := ledgerPages_follow h
  have hnodup : ∀ i, ((keptIds L (t.after writes i) f).map IdRow.id).Nodup := fun i => ids_nodup _ f
  have hsorted := (Keyset.follow_sorted hnodup hfollow).1
  have hkept : ∀ x ∈ loads.flatten, ∃ i < pages.length, x ∈ keptIds L (t.after writes i) f := by
    intro x hx
    obtain ⟨i, -, hlt, hmem⟩ := Keyset.exists_of_mem_follow hfollow hx
    exact ⟨i, by omega, hmem⟩
  have hnames : (pages.flatMap LedgerPage.rows).map LedgerRow.requestId =
      loads.flatten.map IdRow.requestId := by
    refine Ranking.map_of_mapM hread fun x _ row hrow => ?_
    unfold readLedgerRow at hrow
    split at hrow
    · obtain rfl := Option.some.inj hrow
      rfl
    · cases hrow
  refine ⟨loads.flatten, hread, hsorted, ?_, hkept, ?_, ?_⟩
  · rw [hnames]
    have hne : loads.flatten.Pairwise fun x y => x.requestId ≠ y.requestId := by
      refine hsorted.imp_of_mem fun {x y} hx hy hlt heq => ?_
      obtain ⟨i, -, hi⟩ := hkept x hx
      obtain ⟨j, -, hj⟩ := hkept y hy
      have hid := id_eq_of_after (List.mem_of_mem_filter hi) (List.mem_of_mem_filter hj) heq
      omega
    exact List.pairwise_map.mpr hne
  · intro x hx hreplays
    obtain ⟨hx, hkeeps⟩ := List.mem_filter.mp hx
    obtain ⟨y, hy, hid⟩ := Keyset.exists_mem_follow (pageLimit_pos limit) hnodup hfollow
      (k := x.id) rfl fun j _ hlt => by
        obtain ⟨y, hy, hid, -, hrow⟩ := exists_after (Nat.zero_le j) hx
        refine ⟨y, List.mem_filter.mpr ⟨hy, ?_⟩, hid⟩
        rcases hrow with hrow | ⟨k, hk, w, hw, hname, hrow⟩
        · rw [hrow]
          exact hkeeps
        · rw [hrow]
          exact hreplays k (by omega) w hw hname
    obtain ⟨i, -, hi⟩ := hkept y hy
    obtain ⟨z, hz, hid', hrequest, -⟩ := exists_after (Nat.zero_le i) hx
    have heq : y = z := List.inj_on_of_nodup_map (t.after writes i).ids (List.mem_of_mem_filter hi) hz
      (hid.trans hid'.symm)
    exact ⟨y, hy, hid, heq ▸ hrequest⟩
  · intro hnone page hpage
    obtain ⟨j, rows, hloads⟩ := hall page hpage
    have hconstant : ∀ i, keptIds L (t.after writes i) f = keptIds L t f := fun i => by
      rw [after_of_no_writes hnone]
    have hperm : loads.flatten.Perm (keptIds L t f) := by
      simp only [hconstant] at hfollow
      rw [Keyset.follow_constant (pageLimit_pos limit) (ids_nodup t f) hfollow]
      exact Keyset.newestFirst_perm _
    have hcount : (pages.flatMap LedgerPage.rows).length = loads.flatten.length := by
      rw [← List.length_map (f := LedgerRow.requestId), hnames, List.length_map]
    constructor
    · rw [hloads.total, hconstant, hcount, hperm.length_eq]
    · rw [hloads.totals, hconstant]
      exact congrArg speedless ((hperm.map IdRow.row).map LogRow.totals).sum_eq.symm

/-- Where no page is an error, the client comes to the end where the cursors do. -/
theorem ledgerPages_isSome (hreads : ∀ i cursor, (ledgerPage L (states i) f cursor limit).isSome = true)
    (h : (Keyset.follow IdRow.id (pageLimit limit) (fun i => keptIds L (states i) f) most i
      cursor).isSome = true) : (ledgerPages L states f limit most i cursor).isSome = true := by
  induction most generalizing i cursor with
  | zero => cases h
  | succ most ih =>
    obtain ⟨page, hpage⟩ := Option.isSome_iff_exists.mp (hreads i cursor)
    have hnext := (ledgerPage_spec hpage).2
    rw [Keyset.follow, ← hnext] at h
    rw [ledgerPages, hpage]
    show (match page.nextCursor with
      | none => some [page]
      | some c => (ledgerPages L states f limit most (i + 1) (some c)).map (page :: ·)).isSome = true
    cases hcursor : page.nextCursor with
    | none => rfl
    | some c =>
      rw [hcursor] at h
      rw [Option.isSome_map] at h ⊢
      exact ih h

/-- **The pages of the ledger**: a client that follows the cursors comes to the end, and is given every
row that is kept, once and the newest first, while records are written; a row may leave the filter when its
request is written again. -/
theorem ledger_pages (L : Lowercase) (t : RequestLogs) (f : LedgerFilter) (limit : Nat)
    (writes : Nat → List LogWrite) :
    ((∀ i cursor, (ledgerPage L (t.after writes i) f cursor limit).isSome = true) →
      ∃ most, (ledgerPages L (t.after writes) f limit most 0 none).isSome = true) ∧
    ∀ most pages, ledgerPages L (t.after writes) f limit most 0 none = some pages →
      ∃ returned, Delivered L t f writes pages returned := by
  constructor
  · intro hreads
    obtain ⟨most, hmost⟩ := Keyset.exists_follow IdRow.id (pageLimit limit)
      (fun i => keptIds L (t.after writes i) f) 0 none
    exact ⟨most, ledgerPages_isSome hreads hmost⟩
  · exact fun most pages h => delivered h

/-- A call of a provider. -/
def providerCall (id provider : String) : RequestLogRecord where
  requestId := id
  timestamp := "2026-01-01T10:00:00Z"
  provider := provider
  clientModel := "m"
  responseStatus := 200
  latencyMs := 5

def providerFilter : LedgerFilter where
  fromBound := "2026-01-01T00:00:00Z"
  toBound := "2026-01-02T00:00:00Z"
  provider := some "p"

def twoCalls : RequestLogs :=
  RequestLogs.empty.insertAll [⟨providerCall "1" "p", 0⟩, ⟨providerCall "2" "p", 0⟩]

/-- A new call of the provider after the first page, and nothing later. -/
def oneMore (i : Nat) : List LogWrite := if i = 0 then [⟨providerCall "3" "p", 1⟩] else []

theorem two_calls_delivered : ∃ pages returned,
    ledgerPages .some (twoCalls.after oneMore) providerFilter 1 3 0 none = some pages ∧
      Delivered .some twoCalls providerFilter oneMore pages returned := by
  have hsome : (ledgerPages .some (twoCalls.after oneMore) providerFilter 1 3 0 none).isSome = true := by
    decide +kernel
  obtain ⟨pages, hpages⟩ := Option.isSome_iff_exists.mp hsome
  obtain ⟨returned, hreturned⟩ :=
    (ledger_pages .some twoCalls providerFilter 1 oneMore).2 3 pages hpages
  exact ⟨pages, returned, hpages, hreturned⟩

/-- After the first page, the older call is written again, of another provider: it is not returned. -/
theorem older_call_leaves :
    (twoCalls.rows.filter fun x => providerFilter.keeps (search .some) x.row).map IdRow.requestId =
      ["1", "2"] ∧
    (ledgerPages .some
      (twoCalls.after fun i => if i = 0 then [⟨providerCall "1" "q", 0⟩] else []) providerFilter 1 3 0
        none).map (fun pages => (pages.flatMap LedgerPage.rows).map LedgerRow.requestId) =
      some ["2"] := by
  decide +kernel

end AnyConverter.Storage
