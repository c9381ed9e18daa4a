import Mathlib.Algebra.BigOperators.Group.List.Basic
import Mathlib.Data.List.Nodup

/-!
# Tables with a primary key

A table is a list of rows, no two of which have the same key.  Rows come in with `upsert`, which
changes the row that has the key if there is one, and go with `deleteWhere`.

* `find_upsert`, `find_deleteWhere`: which row a key has then;
* `find_accumulate`: items that come in one by one, each merged into the row of its key;
* `find_groups`, `sum_groups`: the items of each key;
* `same_iff`: tables with the same rows.
-/

set_option autoImplicit false

variable {κ ρ σ α : Type}

structure Table (κ ρ : Type) where
  rows : List (κ × ρ)
  keys_nodup : (rows.map Prod.fst).Nodup

namespace Table

def empty : Table κ ρ := ⟨[], List.nodup_nil⟩

/-- The same rows, in any order. -/
def Same (t u : Table κ ρ) : Prop := t.rows.Perm u.rows

/-- `delete from t where p` -/
def deleteWhere (p : κ → ρ → Bool) (t : Table κ ρ) : Table κ ρ where
  rows := t.rows.filter fun row => !p row.1 row.2
  keys_nodup := t.keys_nodup.sublist (List.filter_sublist.map Prod.fst)

theorem keys_filterMap_sublist (f : κ → ρ → Option σ) (rows : List (κ × ρ)) :
    ((rows.filterMap fun row => (f row.1 row.2).map (row.1, ·)).map Prod.fst).Sublist
      (rows.map Prod.fst) := by
  induction rows with
  | nil => exact .slnil
  | cons row rows ih =>
    rw [List.filterMap_cons, List.map_cons]
    cases f row.1 row.2 with
    | none => exact ih.cons _
    | some v => exact ih.cons_cons _

/-- The rows a value is computed for. -/
def filterMapRows (f : κ → ρ → Option σ) (t : Table κ ρ) : Table κ σ where
  rows := t.rows.filterMap fun row => (f row.1 row.2).map (row.1, ·)
  keys_nodup := t.keys_nodup.sublist (keys_filterMap_sublist f t.rows)

variable [DecidableEq κ]

def find (t : Table κ ρ) (k : κ) : Option ρ := t.rows.lookup k

/-! ## Rows by their keys -/

theorem lookup_row (k k' : κ) (v : ρ) (rows : List (κ × ρ)) :
    ((k', v) :: rows).lookup k = if k = k' then some v else rows.lookup k := by
  rw [List.lookup_cons]
  by_cases hk : k = k'
  · rw [if_pos hk, beq_iff_eq.mpr hk]
  · rw [if_neg hk, beq_eq_false_iff_ne.mpr hk]

theorem lookup_eq_some_iff {rows : List (κ × ρ)} (hnodup : (rows.map Prod.fst).Nodup) {k : κ} {v : ρ} :
    rows.lookup k = some v ↔ (k, v) ∈ rows := by
  induction rows with
  | nil => simp
  | cons row rows ih =>
    obtain ⟨k', v'⟩ := row
    rw [List.map_cons, List.nodup_cons] at hnodup
    rw [lookup_row]
    by_cases hk : k = k'
    · subst hk
      have hnot : (k, v) ∉ rows := fun hmem => hnodup.1 (List.mem_map.mpr ⟨_, hmem, rfl⟩)
      simp [hnot, eq_comm]
    · simp [hk, ih hnodup.2]

theorem find_eq_some_iff {t : Table κ ρ} {k : κ} {v : ρ} : t.find k = some v ↔ (k, v) ∈ t.rows :=
  lookup_eq_some_iff t.keys_nodup

theorem find_eq_none_iff {t : Table κ ρ} {k : κ} : t.find k = none ↔ k ∉ t.rows.map Prod.fst := by
  rw [Option.eq_none_iff_forall_ne_some]
  simp only [ne_eq, find_eq_some_iff, List.mem_map, Prod.exists, exists_and_right, exists_eq_right,
    not_exists]

/-- Tables have the same rows exactly when each key has the same row in both. -/
theorem same_iff {t u : Table κ ρ} : t.Same u ↔ ∀ k, t.find k = u.find k := by
  unfold Same
  rw [List.perm_ext_iff_of_nodup t.keys_nodup.of_map u.keys_nodup.of_map]
  constructor
  · intro h k
    refine Option.ext fun v => ?_
    rw [find_eq_some_iff, find_eq_some_iff]
    exact h (k, v)
  · rintro h ⟨k, v⟩
    rw [← find_eq_some_iff, ← find_eq_some_iff, h k]

theorem find_deleteWhere (p : κ → ρ → Bool) (t : Table κ ρ) (k : κ) :
    (t.deleteWhere p).find k = (t.find k).filter fun v => !p k v := by
  refine Option.ext fun v => ?_
  rw [find_eq_some_iff, Option.filter_eq_some_iff, find_eq_some_iff]
  exact List.mem_filter

theorem find_filterMapRows (f : κ → ρ → Option σ) (t : Table κ ρ) (k : κ) :
    (t.filterMapRows f).find k = (t.find k).bind (f k) := by
  refine Option.ext fun w => ?_
  rw [find_eq_some_iff, Option.bind_eq_some_iff]
  simp only [filterMapRows, List.mem_filterMap, Option.map_eq_some_iff, find_eq_some_iff]
  constructor
  · rintro ⟨⟨k', v⟩, hrow, w', hw, heq⟩
    cases heq
    exact ⟨v, hrow, hw⟩
  · rintro ⟨v, hrow, hw⟩
    exact ⟨(k, v), hrow, w, hw, rfl⟩

/-! ## Upserts -/

/-- `insert into t values (k, new) on conflict do update set v = merge(v)` -/
def upsertRows (k : κ) (new : ρ) (merge : ρ → ρ) : List (κ × ρ) → List (κ × ρ)
  | [] => [(k, new)]
  | (k', v) :: rows => if k' = k then (k', merge v) :: rows else (k', v) :: upsertRows k new merge rows

theorem mem_keys_upsertRows {k k' : κ} {new : ρ} {merge : ρ → ρ} {rows : List (κ × ρ)} :
    k' ∈ (upsertRows k new merge rows).map Prod.fst ↔ k' = k ∨ k' ∈ rows.map Prod.fst := by
  induction rows with
  | nil => simp [upsertRows]
  | cons row rows ih =>
    obtain ⟨k₀, v⟩ := row
    unfold upsertRows
    split
    · rename_i heq
      subst heq
      simp
    · rw [List.map_cons, List.mem_cons, ih, List.map_cons, List.mem_cons]
      exact or_left_comm

theorem nodup_upsertRows {k : κ} {new : ρ} {merge : ρ → ρ} {rows : List (κ × ρ)}
    (h : (rows.map Prod.fst).Nodup) : ((upsertRows k new merge rows).map Prod.fst).Nodup := by
  induction rows with
  | nil => exact List.nodup_singleton k
  | cons row rows ih =>
    obtain ⟨k₀, v⟩ := row
    unfold upsertRows
    split
    · exact h
    · rename_i hne
      rw [List.map_cons, List.nodup_cons] at h ⊢
      refine ⟨fun hmem => ?_, ih h.2⟩
      rcases mem_keys_upsertRows.mp hmem with heq | hold
      · exact hne heq
      · exact h.1 hold

theorem lookup_upsertRows (k k' : κ) (new : ρ) (merge : ρ → ρ) (rows : List (κ × ρ)) :
    (upsertRows k new merge rows).lookup k' =
      if k' = k then some ((rows.lookup k).elim new merge) else rows.lookup k' := by
  induction rows with
  | nil =>
    rw [upsertRows, lookup_row]
    rfl
  | cons row rows ih =>
    obtain ⟨k₀, v⟩ := row
    unfold upsertRows
    by_cases h₀ : k₀ = k
    · subst h₀
      simp only [if_pos, lookup_row]
      by_cases hk : k' = k₀ <;> simp [hk]
    · simp only [if_neg h₀, lookup_row, ih]
      by_cases hk : k' = k₀
      · subst hk
        simp [h₀]
      · by_cases hk' : k' = k
        · subst hk'
          simp [hk]
        · simp [hk, hk']

def upsert (t : Table κ ρ) (k : κ) (new : ρ) (merge : ρ → ρ) : Table κ ρ :=
  ⟨upsertRows k new merge t.rows, nodup_upsertRows t.keys_nodup⟩

theorem find_upsert (t : Table κ ρ) (k k' : κ) (new : ρ) (merge : ρ → ρ) :
    (t.upsert k new merge).find k' =
      if k' = k then some ((t.find k).elim new merge) else t.find k' :=
  lookup_upsertRows k k' new merge t.rows

omit [DecidableEq κ] in
/-- Every row with a value computed from its own. -/
def mapValues (f : ρ → σ) (t : Table κ ρ) : Table κ σ where
  rows := t.rows.map fun row => (row.1, f row.2)
  keys_nodup := by
    rw [List.map_map]
    exact t.keys_nodup

theorem find_mapValues (f : ρ → σ) (t : Table κ ρ) (k : κ) :
    (t.mapValues f).find k = (t.find k).map f := by
  have hrows : ∀ rows : List (κ × ρ),
      (rows.map fun row => (row.1, f row.2)).lookup k = (rows.lookup k).map f := by
    intro rows
    induction rows with
    | nil => rfl
    | cons row rows ih =>
      obtain ⟨k', v⟩ := row
      rw [List.map_cons, lookup_row, lookup_row, ih]
      split <;> rfl
  exact hrows t.rows

theorem mapValues_upsert (f : ρ → σ) (t : Table κ ρ) (k : κ) (new : ρ) {merge : ρ → ρ} {merge' : σ → σ}
    (hmerge : ∀ v, f (merge v) = merge' (f v)) :
    (t.upsert k new merge).mapValues f = (t.mapValues f).upsert k (f new) merge' := by
  have hrows : ∀ rows : List (κ × ρ), (upsertRows k new merge rows).map (fun row => (row.1, f row.2)) =
      upsertRows k (f new) merge' (rows.map fun row => (row.1, f row.2)) := by
    intro rows
    induction rows with
    | nil => rfl
    | cons row rows ih =>
      obtain ⟨k', v⟩ := row
      rw [List.map_cons, upsertRows, upsertRows]
      split
      · rw [List.map_cons, hmerge]
      · rw [List.map_cons, ih]
  unfold upsert mapValues
  congr 1
  exact hrows t.rows

/-- What is added to one row is added to the sum over the rows. -/
theorem sum_upsert {M : Type} [AddCommMonoid M] (f : ρ → M) (x : M) (t : Table κ ρ) {k : κ} {new : ρ}
    {merge : ρ → ρ} (hnew : f new = x) (hmerge : ∀ v, f (merge v) = f v + x) :
    ((t.upsert k new merge).rows.map fun row => f row.2).sum = (t.rows.map fun row => f row.2).sum + x := by
  show ((upsertRows k new merge t.rows).map fun row => f row.2).sum = _
  induction t.rows with
  | nil => simp [upsertRows, hnew]
  | cons row rows ih =>
    obtain ⟨k', v⟩ := row
    unfold upsertRows
    split
    · rw [List.map_cons, List.map_cons, List.sum_cons, List.sum_cons, hmerge, add_right_comm]
    · rw [List.map_cons, List.map_cons, List.sum_cons, List.sum_cons, ih, add_assoc]

/-- What a key has in a table, nothing where it has no row. -/
def entry {M : Type} [Zero M] (f : ρ → M) (t : Table κ ρ) (k : κ) : M := (t.find k).elim 0 f

theorem entry_upsert {M : Type} [AddCommMonoid M] (f : ρ → M) (x : M) (t : Table κ ρ) (k k' : κ)
    {new : ρ} {merge : ρ → ρ} (hnew : f new = x) (hmerge : ∀ v, f (merge v) = f v + x) :
    (t.upsert k new merge).entry f k' = t.entry f k' + if k' = k then x else 0 := by
  unfold entry
  rw [find_upsert]
  by_cases hk : k' = k
  · subst hk
    rw [if_pos rfl, if_pos rfl]
    cases t.find k' with
    | none => exact hnew.trans (zero_add x).symm
    | some v => exact hmerge v
  · rw [if_neg hk, if_neg hk, add_zero]

/-- Rows that come in one by one, each counted under its key. -/
theorem entry_foldl {M β : Type} [AddCommMonoid M] {f : ρ → M} {step : Table κ ρ → β → Table κ ρ}
    {key : β → κ} {x : β → M}
    (hstep : ∀ t b k, (step t b).entry f k = t.entry f k + if k = key b then x b else 0) (bs : List β)
    (t : Table κ ρ) (k : κ) :
    (bs.foldl step t).entry f k = t.entry f k + ((bs.filter fun b => key b = k).map x).sum := by
  induction bs generalizing t with
  | nil => exact (add_zero _).symm
  | cons b bs ih =>
    rw [List.foldl_cons, ih, hstep, List.filter_cons]
    by_cases hk : key b = k
    · rw [if_pos hk.symm, if_pos (decide_eq_true hk), List.map_cons, List.sum_cons, add_assoc]
    · rw [if_neg (Ne.symm hk), if_neg (by simpa using hk), add_zero]

theorem entry_of_mem {M : Type} [Zero M] (f : ρ → M) {t : Table κ ρ} {row : κ × ρ} (h : row ∈ t.rows) :
    t.entry f row.1 = f row.2 := by
  rw [entry, find_eq_some_iff.mpr h]
  rfl

theorem mem_keys_upsert {t : Table κ ρ} {k k' : κ} {new : ρ} {merge : ρ → ρ} :
    k' ∈ (t.upsert k new merge).rows.map Prod.fst ↔ k' = k ∨ k' ∈ t.rows.map Prod.fst :=
  mem_keys_upsertRows

omit [DecidableEq κ] in
/-- The keys of rows that come in one by one. -/
theorem mem_keys_foldl {β : Type} {step : Table κ ρ → β → Table κ ρ} {key : β → κ}
    (hstep : ∀ t b k, k ∈ (step t b).rows.map Prod.fst ↔ k = key b ∨ k ∈ t.rows.map Prod.fst)
    (bs : List β) (t : Table κ ρ) (k : κ) : k ∈ (bs.foldl step t).rows.map Prod.fst ↔
      (∃ b ∈ bs, key b = k) ∨ k ∈ t.rows.map Prod.fst := by
  induction bs generalizing t with
  | nil =>
    constructor
    · exact Or.inr
    · rintro (⟨b, hb, -⟩ | h)
      · cases hb
      · exact h
  | cons b bs ih =>
    rw [List.foldl_cons, ih, hstep]
    constructor
    · rintro (⟨b', hb', hk⟩ | rfl | h)
      · exact Or.inl ⟨b', List.mem_cons_of_mem b hb', hk⟩
      · exact Or.inl ⟨b, List.mem_cons_self, rfl⟩
      · exact Or.inr h
    · rintro (⟨b', hb', hk⟩ | h)
      · rcases List.mem_cons.mp hb' with rfl | hb'
        · exact Or.inr (Or.inl hk.symm)
        · exact Or.inl ⟨b', hb', hk⟩
      · exact Or.inr (Or.inr h)

/-- The rows of a table with what each counts. -/
theorem mem_map_entry {M : Type} [Zero M] (f : ρ → M) {t : Table κ ρ} {k : κ} {m : M} :
    (k, m) ∈ t.rows.map (fun row => (row.1, f row.2)) ↔
      k ∈ t.rows.map Prod.fst ∧ m = t.entry f k := by
  rw [List.mem_map]
  constructor
  · rintro ⟨row, hrow, heq⟩
    cases heq
    exact ⟨List.mem_map_of_mem hrow, (entry_of_mem f hrow).symm⟩
  · rintro ⟨hk, rfl⟩
    obtain ⟨row, hrow, rfl⟩ := List.mem_map.mp hk
    exact ⟨row, hrow, by rw [entry_of_mem f hrow]⟩

/-- A row with a new key is the last one. -/
theorem upsertRows_of_not_mem {k : κ} {new : ρ} {merge : ρ → ρ} {rows : List (κ × ρ)}
    (h : k ∉ rows.map Prod.fst) : upsertRows k new merge rows = rows ++ [(k, new)] := by
  induction rows with
  | nil => rfl
  | cons row rows ih =>
    rw [List.map_cons, List.mem_cons, not_or] at h
    rw [upsertRows, if_neg (Ne.symm h.1), ih h.2]
    rfl

/-- A row whose key is there already is replaced where it stands. -/
theorem upsertRows_of_mem {k : κ} {new : ρ} {rows : List (κ × ρ)} (hnodup : (rows.map Prod.fst).Nodup)
    (h : k ∈ rows.map Prod.fst) : upsertRows k new (fun _ => new) rows =
      rows.map fun row => if row.1 = k then (row.1, new) else row := by
  induction rows with
  | nil => cases h
  | cons row rows ih =>
    obtain ⟨k₀, v⟩ := row
    rw [List.map_cons, List.nodup_cons] at hnodup
    unfold upsertRows
    split
    · rename_i heq
      have hrest : ∀ row ∈ rows, (if row.1 = k then (row.1, new) else row) = row := by
        intro row hrow
        have hne : row.1 ≠ k := fun hk =>
          hnodup.1 (List.mem_map.mpr ⟨row, hrow, hk.trans heq.symm⟩)
        rw [if_neg hne]
      rw [List.map_cons, if_pos heq, List.map_congr_left hrest, List.map_id']
    · rename_i hne
      have hmem : k ∈ rows.map Prod.fst := (List.mem_cons.mp h).resolve_left (Ne.symm hne)
      rw [List.map_cons, if_neg hne, ih hnodup.2 hmem]

/-- A key that is new makes the table one row longer. -/
theorem length_upsert (t : Table κ ρ) (k : κ) (new : ρ) (merge : ρ → ρ) :
    (t.upsert k new merge).rows.length =
      if (t.find k).isSome then t.rows.length else t.rows.length + 1 := by
  have hlength : ∀ rows : List (κ × ρ), (upsertRows k new merge rows).length =
      if (rows.lookup k).isSome then rows.length else rows.length + 1 := by
    intro rows
    induction rows with
    | nil => rfl
    | cons row rows ih =>
      obtain ⟨k', v⟩ := row
      rw [lookup_row]
      unfold upsertRows
      by_cases hk : k' = k
      · rw [if_pos hk, if_pos hk.symm]
        rfl
      · rw [if_neg hk, if_neg (Ne.symm hk), List.length_cons, ih, List.length_cons]
        split <;> rfl
  exact hlength t.rows

/-- At most one row has a key. -/
theorem filter_key (t : Table κ ρ) (k : κ) :
    t.rows.filter (fun row => row.1 = k) = (t.find k).elim [] fun v => [(k, v)] := by
  have hall : ∀ rows : List (κ × ρ), (rows.map Prod.fst).Nodup →
      rows.filter (fun row => row.1 = k) = (rows.lookup k).elim [] fun v => [(k, v)] := by
    intro rows hnodup
    induction rows with
    | nil => rfl
    | cons row rows ih =>
      obtain ⟨k', v⟩ := row
      rw [List.map_cons, List.nodup_cons] at hnodup
      rw [lookup_row, List.filter_cons]
      by_cases hk : k' = k
      · subst hk
        have hnone : rows.filter (fun row => row.1 = k') = [] := by
          refine List.filter_eq_nil_iff.mpr fun row hrow hkey => hnodup.1 ?_
          exact List.mem_map.mpr ⟨row, hrow, of_decide_eq_true hkey⟩
        rw [if_pos (decide_eq_true rfl), if_pos rfl, hnone]
        rfl
      · rw [if_neg (by simpa using hk), if_neg (Ne.symm hk), ih hnodup.2]
  exact hall t.rows t.keys_nodup

/-! ## Aggregates -/

/-- Items that come in one by one: an item makes the row of its key, or is merged into it. -/
def accumulate (key : α → κ) (item : α → ρ) (merge : ρ → ρ → ρ) (t : Table κ ρ) (xs : List α) :
    Table κ ρ :=
  xs.foldl (fun t x => t.upsert (key x) (item x) fun v => merge v (item x)) t

/-- What some items make of the row of their key. -/
def mergeAll (merge : ρ → ρ → ρ) : Option ρ → List ρ → Option ρ :=
  List.foldl fun row item => some (row.elim item fun v => merge v item)

theorem mergeAll_some (merge : ρ → ρ → ρ) (v : ρ) (items : List ρ) :
    mergeAll merge (some v) items = some (items.foldl merge v) := by
  induction items generalizing v with
  | nil => rfl
  | cons item items ih => exact ih (merge v item)

/-- A row is what the items of its key make of it. -/
theorem find_accumulate (key : α → κ) (item : α → ρ) (merge : ρ → ρ → ρ) (t : Table κ ρ)
    (xs : List α) (k : κ) : (t.accumulate key item merge xs).find k =
      mergeAll merge (t.find k) ((xs.filter fun x => key x = k).map item) := by
  induction xs generalizing t with
  | nil => rfl
  | cons x xs ih =>
    show ((t.upsert (key x) (item x) fun v => merge v (item x)).accumulate key item merge xs).find k = _
    rw [ih, find_upsert, List.filter_cons]
    by_cases hk : key x = k
    · subst hk
      simp [mergeAll]
    · simp [hk, Ne.symm hk]

/-- `group by`: the items of each key, in their order. -/
def groups (key : α → κ) (xs : List α) : Table κ (List α) :=
  empty.accumulate key (fun x => [x]) (· ++ ·) xs

theorem foldl_append_singletons (xs ys : List α) :
    (ys.map fun y => [y]).foldl (· ++ ·) xs = xs ++ ys := by
  induction ys generalizing xs with
  | nil => exact (List.append_nil xs).symm
  | cons y ys ih =>
    rw [List.map_cons, List.foldl_cons, ih, List.append_assoc]
    rfl

/-- The group of a key is all its items; a key without items has no group. -/
theorem find_groups (key : α → κ) (xs : List α) (k : κ) : (groups key xs).find k =
    if xs.filter (fun x => key x = k) = [] then none else some (xs.filter fun x => key x = k) := by
  unfold groups
  rw [find_accumulate]
  generalize xs.filter (fun x => key x = k) = items
  cases items with
  | nil => rfl
  | cons x items =>
    show mergeAll (· ++ ·) (some [x]) (items.map fun y => [y]) = some (x :: items)
    rw [mergeAll_some, foldl_append_singletons]
    rfl

theorem mem_groups {key : α → κ} {xs : List α} {group : κ × List α}
    (h : group ∈ (groups key xs).rows) :
    group.2 = xs.filter (fun x => key x = group.1) ∧ group.2 ≠ [] := by
  have hfind := find_eq_some_iff.mpr h
  rw [find_groups] at hfind
  split at hfind
  · cases hfind
  · rename_i hne
    obtain hitems := Option.some.inj hfind
    exact ⟨hitems.symm, hitems ▸ hne⟩

theorem mem_keys_groups {key : α → κ} {xs : List α} {k : κ} :
    k ∈ (groups key xs).rows.map Prod.fst ↔ ∃ x ∈ xs, key x = k := by
  constructor
  · intro hk
    obtain ⟨group, hgroup, rfl⟩ := List.mem_map.mp hk
    obtain ⟨hitems, hne⟩ := mem_groups hgroup
    obtain ⟨x, hx⟩ := List.exists_mem_of_ne_nil _ hne
    rw [hitems] at hx
    exact ⟨x, List.mem_of_mem_filter hx, of_decide_eq_true (List.mem_filter.mp hx).2⟩
  · rintro ⟨x, hx, rfl⟩
    by_contra hnot
    rw [← find_eq_none_iff, find_groups, if_neg] at hnot
    · cases hnot
    · exact List.ne_nil_of_mem (List.mem_filter.mpr ⟨hx, decide_eq_true rfl⟩)

/-! ## Sums over groups -/

section Sums

variable {M : Type} [AddCommMonoid M] (key : α → κ) (f : α → M)

/-- Every item is counted once, under its key. -/
theorem sum_by_key {keys : List κ} (hnodup : keys.Nodup) (xs : List α) :
    (keys.map fun k => ((xs.filter fun x => key x = k).map f).sum).sum =
      ((xs.filter fun x => key x ∈ keys).map f).sum := by
  have hone : ∀ x, (keys.map fun k => if key x = k then f x else 0).sum =
      if key x ∈ keys then f x else 0 := by
    intro x
    induction keys with
    | nil => rfl
    | cons k keys ih =>
      rw [List.nodup_cons] at hnodup
      rw [List.map_cons, List.sum_cons, ih hnodup.2]
      by_cases hk : key x = k
      · have hnot : key x ∉ keys := hk ▸ hnodup.1
        simp [hk, hk ▸ hnot]
      · simp [hk]
  induction xs with
  | nil => simp
  | cons x xs ih =>
    have hsplit : ∀ p : α → Prop, ∀ [DecidablePred p], (((x :: xs).filter p).map f).sum =
        (if p x then f x else 0) + ((xs.filter p).map f).sum := by
      intro p _
      rw [List.filter_cons]
      by_cases hp : p x <;> simp [hp]
    simp only [hsplit, List.sum_map_add, hone, ih]

/-- Summed group by group, every item is counted once. -/
theorem sum_groups (xs : List α) :
    ((groups key xs).rows.map fun group => (group.2.map f).sum).sum = (xs.map f).sum := by
  have hrow : ∀ group ∈ (groups key xs).rows, (group.2.map f).sum =
      ((xs.filter fun x => key x = group.1).map f).sum :=
    fun group hmem => by rw [(mem_groups hmem).1]
  have hall : xs.filter (fun x => key x ∈ (groups key xs).rows.map Prod.fst) = xs := by
    refine List.filter_eq_self.mpr fun x hx => decide_eq_true ?_
    by_contra hnot
    rw [← find_eq_none_iff, find_groups] at hnot
    split at hnot
    · rename_i hnil
      exact absurd (List.filter_eq_nil_iff.mp hnil x hx) (by simp)
    · cases hnot
  have hsum := sum_by_key key f (groups key xs).keys_nodup xs
  rw [hall, List.map_map] at hsum
  rw [List.map_congr_left hrow]
  exact hsum

end Sums

/-! ## Rows computed from rows -/

omit [DecidableEq κ] in
theorem keys_of_mapM {f : ρ → Option σ} {rows : List (κ × ρ)} {rows' : List (κ × σ)}
    (h : rows.mapM (fun row => (f row.2).map (row.1, ·)) = some rows') :
    rows'.map Prod.fst = rows.map Prod.fst := by
  induction rows generalizing rows' with
  | nil =>
    cases h
    rfl
  | cons row rows ih =>
    rw [List.mapM_cons] at h
    obtain ⟨row', hrow, h⟩ := Option.bind_eq_some_iff.mp h
    obtain ⟨rest, hrest, h⟩ := Option.bind_eq_some_iff.mp h
    obtain ⟨v, -, rfl⟩ := Option.map_eq_some_iff.mp hrow
    cases h
    rw [List.map_cons, List.map_cons, ih hrest]

omit [DecidableEq κ] in
/-- Every row with a value computed from its own; nothing when there is none for one of them. -/
def mapRows (f : ρ → Option σ) (t : Table κ ρ) : Option (Table κ σ) :=
  match h : t.rows.mapM fun row => (f row.2).map (row.1, ·) with
  | some rows => some ⟨rows, by rw [keys_of_mapM h]; exact t.keys_nodup⟩
  | none => none

omit [DecidableEq κ] in
theorem mapRows_eq_some {f : ρ → Option σ} {t : Table κ ρ} {u : Table κ σ} (h : t.mapRows f = some u) :
    t.rows.mapM (fun row => (f row.2).map (row.1, ·)) = some u.rows := by
  unfold mapRows at h
  split at h
  · rename_i rows hrows
    cases h
    exact hrows
  · cases h

omit [DecidableEq κ] in
theorem exists_mapRows {f : ρ → Option σ} {t : Table κ ρ}
    (h : ∀ row ∈ t.rows, ∃ w, f row.2 = some w) : ∃ u, t.mapRows f = some u := by
  have hmapM : ∀ rows : List (κ × ρ), (∀ row ∈ rows, ∃ w, f row.2 = some w) →
      ∃ rows', rows.mapM (fun row => (f row.2).map (row.1, ·)) = some rows' := by
    intro rows
    induction rows with
    | nil => exact fun _ => ⟨[], rfl⟩
    | cons row rows ih =>
      intro hall
      obtain ⟨w, hw⟩ := hall row List.mem_cons_self
      obtain ⟨rows', hrows⟩ := ih fun row' hmem => hall row' (List.mem_cons_of_mem row hmem)
      exact ⟨(row.1, w) :: rows', by simp [List.mapM_cons, hw, hrows]⟩
  obtain ⟨rows', hrows⟩ := hmapM t.rows h
  unfold mapRows
  split
  · exact ⟨_, rfl⟩
  · rename_i hnone
    rw [hrows] at hnone
    cases hnone

theorem lookup_of_mapM {f : ρ → Option σ} {rows : List (κ × ρ)} {rows' : List (κ × σ)}
    (h : rows.mapM (fun row => (f row.2).map (row.1, ·)) = some rows') (k : κ) :
    (rows.lookup k).map f = (rows'.lookup k).map some := by
  induction rows generalizing rows' with
  | nil =>
    cases h
    rfl
  | cons row rows ih =>
    obtain ⟨k₀, v⟩ := row
    rw [List.mapM_cons] at h
    obtain ⟨row', hrow, h⟩ := Option.bind_eq_some_iff.mp h
    obtain ⟨rest, hrest, h⟩ := Option.bind_eq_some_iff.mp h
    obtain ⟨w, hw, rfl⟩ := Option.map_eq_some_iff.mp hrow
    cases h
    rw [lookup_row, lookup_row]
    by_cases hk : k = k₀
    · rw [if_pos hk, if_pos hk]
      exact congrArg some hw
    · rw [if_neg hk, if_neg hk]
      exact ih hrest

/-- The rows are computed and are those of a table exactly when each key's is. -/
theorem mapRows_same_iff {f : ρ → Option σ} {t : Table κ ρ} {w : Table κ σ} :
    (∃ u, t.mapRows f = some u ∧ u.Same w) ↔ ∀ k, (t.find k).map f = (w.find k).map some := by
  constructor
  · rintro ⟨u, hu, hsame⟩ k
    rw [← same_iff.mp hsame k]
    exact lookup_of_mapM (mapRows_eq_some hu) k
  · intro h
    have hvalues : ∀ row ∈ t.rows, ∃ v, f row.2 = some v := by
      rintro ⟨k, v⟩ hrow
      have hk := h k
      rw [find_eq_some_iff.mpr hrow] at hk
      obtain ⟨v', -, hv'⟩ := Option.map_eq_some_iff.mp hk.symm
      exact ⟨v', hv'.symm⟩
    obtain ⟨u, hu⟩ := exists_mapRows hvalues
    refine ⟨u, hu, same_iff.mpr fun k => ?_⟩
    have hk := h k
    rw [show t.find k = t.rows.lookup k from rfl, lookup_of_mapM (mapRows_eq_some hu) k] at hk
    exact Option.map_injective (fun _ _ => Option.some.inj) hk

end Table
