import Mathlib.Data.List.Forall2
import Mathlib.Data.Rat.Defs

/-!
# Migrations of a database

A database has a version and named tables.  A migration is a list of statements for each version; each
version is one transaction, which a failing statement undoes.

* `resumed`: attempts that are cut anywhere, and one that is not, do what one attempt does;
* `check_sound`: statements that pass a check over the columns alone do not fail;
* `agree_run`: the values that no statement touches stay.
-/

set_option autoImplicit false

namespace Migration

inductive Value where
  | null
  | integer (z : Int)
  | real (q : Rat)
  | text (s : String)
  deriving DecidableEq, Repr

/-- The values by column; those of columns that are not there do not matter. -/
abbrev Row := String → Value

structure Table where
  columns : List String
  rows : List Row

structure Database where
  userVersion : Nat
  tables : String → Option Table

namespace Database

def setTable (db : Database) (table : String) (t : Option Table) : Database :=
  { db with tables := fun name => if name = table then t else db.tables name }

theorem setTable_self (db : Database) (table : String) (t : Option Table) :
    (db.setTable table t).tables table = t := if_pos rfl

theorem setTable_of_ne (db : Database) {table name : String} (t : Option Table) (h : name ≠ table) :
    (db.setTable table t).tables name = db.tables name := if_neg h

/-- Whether `table` already has `column`. -/
def hasColumn (db : Database) (table column : String) : Bool :=
  (db.tables table).elim false fun t => t.columns.contains column

end Database

/-! ## Statements -/

inductive Statement where
  /-- `create table if not exists` -/
  | createTable (table : String) (columns : List String)
  /-- `create index if not exists`; an index holds nothing of its own -/
  | createIndex (table : String) (columns : List String)
  /-- `drop table if exists` -/
  | dropTable (table : String)
  | addColumn (table column : String) (default : Value)
  /-- adds a column that is not there -/
  | ensureColumn (table column : String) (default : Value)
  | dropColumn (table column : String)
  /-- `insert or ignore into target (columns) select columns from source`, by the key of the target -/
  | copy (target source key : String) (columns : List String)
  /-- `update`: a row keeps its value where the condition does not hold -/
  | update (table column : String) (value : Database → Row → Value)
  | setVersion (version : Nat)

def Table.addColumn (t : Table) (column : String) (default : Value) : Table where
  columns := t.columns ++ [column]
  rows := t.rows.map fun row name => if name = column then default else row name

def Table.dropColumn (t : Table) (column : String) : Table :=
  { t with columns := t.columns.filter (· ≠ column) }

def Table.update (t : Table) (column : String) (value : Row → Value) : Table :=
  { t with rows := t.rows.map fun row name => if name = column then value row else row name }

/-- A row of some columns, null in the others. -/
def Row.select (row : Row) (columns : List String) : Row :=
  fun name => if name ∈ columns then row name else .null

/-- The rows of the source one after the other, except those whose key is already there. -/
def Table.insertOrIgnore (t : Table) (key : String) (columns : List String) (rows : List Row) : Table :=
  { t with
    rows := rows.foldl (fun rows row =>
      if rows.any (fun r => r key = row key) then rows else rows ++ [row.select columns]) t.rows }

def alter (db : Database) (table : String) (f : Table → Option Table) : Option Database :=
  (db.tables table).bind fun t => (f t).map fun t' => db.setTable table (some t')

def addColumn (column : String) (default : Value) (t : Table) : Option Table :=
  if column ∈ t.columns then none else some (t.addColumn column default)

/-- What a statement does, when it does not fail. -/
def Statement.run (db : Database) : Statement → Option Database
  | createTable table columns =>
    some (if (db.tables table).isSome then db else db.setTable table (some ⟨columns, []⟩))
  | createIndex table columns =>
    alter db table fun t => if columns.all (t.columns.contains ·) then some t else none
  | dropTable table => some (db.setTable table none)
  | addColumn table column default => alter db table (Migration.addColumn column default)
  | ensureColumn table column default =>
    if db.hasColumn table column then some db
    else alter db table (Migration.addColumn column default)
  | dropColumn table column =>
    alter db table fun t => if column ∈ t.columns then some (t.dropColumn column) else none
  | copy target source key columns =>
    (db.tables source).bind fun s => alter db target fun t =>
      if (key :: columns).all (t.columns.contains ·) ∧ columns.all (s.columns.contains ·) then
        some (t.insertOrIgnore key columns s.rows)
      else none
  | update table column value =>
    alter db table fun t => if column ∈ t.columns then some (t.update column (value db)) else none
  | setVersion version => some { db with userVersion := version }

/-- Statements one after the other, then the commit; one of these may fail whatever it does. -/
def execute : Option Nat → List Statement → Database → Option Database
  | some 0, _, _ => none
  | _, [], db => some db
  | some (n + 1), s :: ss, db => (s.run db).bind (execute (some n) ss)
  | none, s :: ss, db => (s.run db).bind (execute none ss)

/-! ## Attempts -/

section Attempts

variable (apply : Nat → List Statement) (last : Nat)

/-- The versions in turn, each of them one transaction; whether all went through. -/
def migrateAll (failing : Nat → Option Nat) : List Nat → Database → Database × Bool
  | [], db => (db, true)
  | version :: versions, db =>
    match execute (failing version) (apply version ++ [.setVersion version]) db with
    | some db' => migrateAll failing versions db'
    | none => (db, false)

/-- The versions after that of the database. -/
def migrate (failing : Nat → Option Nat) (db : Database) : Database × Bool :=
  migrateAll apply failing (List.range' (db.userVersion + 1) (last - db.userVersion)) db

/-- One attempt after the other, whatever fails in them. -/
def attempts (failures : List (Nat → Option Nat)) (db : Database) : Database :=
  failures.foldl (fun db failing => (migrate apply last failing db).1) db

end Attempts

/-- Nothing fails that the statements do not make fail. -/
def noFailure : Nat → Option Nat := fun _ => none

theorem execute_append (ss ss' : List Statement) (db : Database) :
    execute none (ss ++ ss') db = (execute none ss db).bind (execute none ss') := by
  induction ss generalizing db with
  | nil => rfl
  | cons s ss ih =>
    simp only [List.cons_append, execute, Option.bind_assoc]
    exact congrArg _ (funext ih)

/-- A transaction that goes through has met no failure. -/
theorem execute_none_of_some {failing : Option Nat} {ss : List Statement} {db db' : Database}
    (h : execute failing ss db = some db') : execute none ss db = some db' := by
  induction ss generalizing failing db with
  | nil =>
    cases failing with
    | none => exact h
    | some n =>
      cases n with
      | zero => cases h
      | succ n => exact h
  | cons s ss ih =>
    cases failing with
    | none => exact h
    | some n =>
      cases n with
      | zero => cases h
      | succ n =>
        obtain ⟨db₁, hrun, hrest⟩ := Option.bind_eq_some_iff.mp h
        exact Option.bind_eq_some_iff.mpr ⟨db₁, hrun, ih hrest⟩

theorem userVersion_execute {failing : Option Nat} {ss : List Statement} {version : Nat}
    {db db' : Database} (h : execute failing (ss ++ [.setVersion version]) db = some db') :
    db'.userVersion = version := by
  have hclean := execute_none_of_some h
  rw [execute_append] at hclean
  obtain ⟨db₁, -, hlast⟩ := Option.bind_eq_some_iff.mp hclean
  cases hlast
  rfl

section Attempts

variable {apply : Nat → List Statement} {last : Nat}

/-- The next version, when there is one. -/
theorem migrate_succ (failing : Nat → Option Nat) {db : Database} (h : db.userVersion < last) :
    migrate apply last failing db =
      match execute (failing (db.userVersion + 1))
          (apply (db.userVersion + 1) ++ [.setVersion (db.userVersion + 1)]) db with
      | some db' => migrate apply last failing db'
      | none => (db, false) := by
  obtain ⟨n, hn⟩ : ∃ n, last - db.userVersion = n + 1 := ⟨last - db.userVersion - 1, by omega⟩
  rw [migrate, hn, List.range'_succ, migrateAll]
  cases hexec : execute (failing (db.userVersion + 1)) _ db with
  | none => rfl
  | some db' =>
    have hversion := userVersion_execute hexec
    have hrest : last - (db.userVersion + 1) = n := by omega
    simp only [migrate, hversion, hrest]

theorem migrate_done (failing : Nat → Option Nat) {db : Database} (h : last ≤ db.userVersion) :
    migrate apply last failing db = (db, true) := by
  rw [migrate, Nat.sub_eq_zero_of_le h]
  rfl

/-- What an attempt leaves is on the way of the one without a failure. -/
theorem resumed_once (failing : Nat → Option Nat) (db : Database) :
    migrate apply last noFailure (migrate apply last failing db).1 =
      migrate apply last noFailure db := by
  obtain ⟨n, hn⟩ : ∃ n, last - db.userVersion = n := ⟨_, rfl⟩
  induction n generalizing db with
  | zero => rw [migrate_done failing (by omega)]
  | succ n ih =>
    have hlt : db.userVersion < last := by omega
    rw [migrate_succ failing hlt]
    cases hexec : execute (failing (db.userVersion + 1)) _ db with
    | none => rfl
    | some db' =>
      have hversion := userVersion_execute hexec
      rw [ih db' (by omega), migrate_succ _ hlt, noFailure, execute_none_of_some hexec]

/-- **Resumed**: after any attempts, each cut at any statement of any version, one that is not cut
does what it does without them. -/
theorem resumed (failures : List (Nat → Option Nat)) (db : Database) :
    migrate apply last noFailure (attempts apply last failures db) =
      migrate apply last noFailure db := by
  induction failures generalizing db with
  | nil => rfl
  | cons failing failures ih => exact (ih _).trans (resumed_once failing db)

end Attempts

/-! ## A check over the columns -/

/-- What is known of the columns of a table: some that are there, and no others than these. -/
structure Columns where
  present : List String
  possible : List String
  deriving DecidableEq, Repr

/-- What is known of each table: nothing, that it is not there, or some of its columns. -/
abbrev Known := List (String × Option Columns)

namespace Known

/-- The table is as known. -/
def Fits (t : Option Table) : Option Columns → Prop
  | none => t = none
  | some cs => ∃ t', t = some t' ∧ cs.present ⊆ t'.columns ∧ t'.columns ⊆ cs.possible

def Holds (known : Known) (db : Database) : Prop :=
  ∀ table cs, known.lookup table = some cs → Fits (db.tables table) cs

def set (known : Known) (table : String) (cs : Option Columns) : Known := (table, cs) :: known

/-- The columns of a table that is there. -/
def columns (known : Known) (table : String) : Option Columns := (known.lookup table).join

end Known

/-- What is known behind a statement, unless it may fail; `extra` are columns a new table is allowed
to have besides. -/
def check (extra : String → List String) (known : Known) : Statement → Option Known
  | .createTable table columns =>
    match known.lookup table with
    | some none => some (known.set table (some ⟨columns, columns ++ extra table⟩))
    | some (some _) => some known
    | none => none
  | .createIndex table columns => do
    let cs ← known.columns table
    if columns ⊆ cs.present then some known else none
  | .dropTable table => some (known.set table none)
  | .addColumn table column _ => do
    let cs ← known.columns table
    if column ∈ cs.possible then none
    else some (known.set table (some ⟨cs.present ++ [column], cs.possible ++ [column]⟩))
  | .ensureColumn table column _ => do
    let cs ← known.columns table
    some (known.set table (some ⟨cs.present ++ [column], cs.possible ++ [column]⟩))
  | .dropColumn table column => do
    let cs ← known.columns table
    if column ∈ cs.present then
      some (known.set table
        (some ⟨cs.present.filter (· ≠ column), cs.possible.filter (· ≠ column)⟩))
    else none
  | .copy target source key columns => do
    let ts ← known.columns target
    let ss ← known.columns source
    if key :: columns ⊆ ts.present ∧ columns ⊆ ss.present then some known else none
  | .update table column _ => do
    let cs ← known.columns table
    if column ∈ cs.present then some known else none
  | .setVersion _ => some known

namespace Known

variable {known : Known} {db : Database} {table : String}

theorem Holds.columns (h : known.Holds db) {cs : Columns} (hknown : known.columns table = some cs) :
    ∃ t, db.tables table = some t ∧ cs.present ⊆ t.columns ∧ t.columns ⊆ cs.possible :=
  h table (some cs) (Option.join_eq_some_iff.mp hknown)

theorem Holds.set (h : known.Holds db) {t : Option Table} {cs : Option Columns} (hfits : Fits t cs) :
    (known.set table cs).Holds (db.setTable table t) := by
  intro name cs' hknown
  by_cases hname : name = table
  · subst hname
    rw [Known.set, List.lookup_cons_self] at hknown
    cases hknown
    rwa [db.setTable_self]
  · rw [Known.set, List.lookup_cons, beq_false_of_ne hname] at hknown
    rw [db.setTable_of_ne t hname]
    exact h name cs' hknown

/-- New rows, or new values, in the columns that are there. -/
theorem Holds.refine_table (h : known.Holds db) {t : Option Table} {cs : Columns}
    (hknown : known.columns table = some cs) (hfits : Fits t (some cs)) :
    known.Holds (db.setTable table t) := by
  intro name cs' hname
  by_cases heq : name = table
  · subst heq
    rw [Option.join_eq_some_iff.mp hknown] at hname
    cases hname
    rwa [db.setTable_self]
  · rw [db.setTable_of_ne t heq]
    exact h name cs' hname

end Known

theorem alter_of_some {db : Database} {table : String} {t t' : Table} {f : Table → Option Table}
    (h : db.tables table = some t) (hf : f t = some t') :
    alter db table f = some (db.setTable table (some t')) := by
  rw [alter, h, Option.bind_some, hf]
  rfl

/-- A table that is written back as it was. -/
theorem setTable_same {db : Database} {table : String} {t : Table} (h : db.tables table = some t) :
    db.setTable table (some t) = db := by
  have htables : (db.setTable table (some t)).tables = db.tables := by
    funext name
    by_cases hname : name = table
    · rw [hname, db.setTable_self, h]
    · rw [db.setTable_of_ne _ hname]
  exact congrArg (Database.mk db.userVersion) htables

/-- **The check is sound**: a statement that passes it does not fail. -/
theorem check_sound {extra : String → List String} {known known' : Known} {s : Statement}
    {db : Database} (h : known.Holds db) (hcheck : check extra known s = some known') :
    ∃ db', s.run db = some db' ∧ known'.Holds db' := by
  cases s with
  | createTable table columns =>
    simp only [check] at hcheck
    split at hcheck
    · rename_i hknown
      cases hcheck
      have hnone : db.tables table = none := h table none hknown
      refine ⟨db.setTable table (some ⟨columns, []⟩), by simp [Statement.run, hnone], ?_⟩
      exact h.set ⟨_, rfl, List.Subset.refl _, List.subset_append_left _ _⟩
    · rename_i cs hknown
      cases hcheck
      obtain ⟨t, ht, -, -⟩ := h table (some cs) hknown
      exact ⟨db, by simp [Statement.run, ht], h⟩
    · cases hcheck
  | createIndex table columns =>
    obtain ⟨cs, hknown, hcheck⟩ := Option.bind_eq_some_iff.mp hcheck
    obtain ⟨t, ht, hpresent, -⟩ := h.columns hknown
    split at hcheck
    · rename_i hsub
      cases hcheck
      have hall : columns.all (t.columns.contains ·) = true := by
        simp only [List.all_eq_true, List.contains_iff_mem]
        exact fun column hmem => hpresent (hsub hmem)
      refine ⟨db, ?_, h⟩
      rw [Statement.run, alter_of_some ht (if_pos hall), setTable_same ht]
    · cases hcheck
  | dropTable table =>
    cases hcheck
    exact ⟨_, rfl, h.set rfl⟩
  | addColumn table column default =>
    obtain ⟨cs, hknown, hcheck⟩ := Option.bind_eq_some_iff.mp hcheck
    obtain ⟨t, ht, hpresent, hpossible⟩ := h.columns hknown
    split at hcheck
    · cases hcheck
    · rename_i hnew
      cases hcheck
      refine ⟨_, alter_of_some ht (if_neg fun hmem => hnew (hpossible hmem)), h.set ⟨_, rfl, ?_, ?_⟩⟩
      · exact List.append_subset.mpr ⟨fun c hc => List.mem_append_left _ (hpresent hc),
          List.subset_append_right _ _⟩
      · exact List.append_subset.mpr ⟨fun c hc => List.mem_append_left _ (hpossible hc),
          List.subset_append_right _ _⟩
  | ensureColumn table column default =>
    obtain ⟨cs, hknown, hcheck⟩ := Option.bind_eq_some_iff.mp hcheck
    obtain ⟨t, ht, hpresent, hpossible⟩ := h.columns hknown
    cases hcheck
    have hiff : db.hasColumn table column = true ↔ column ∈ t.columns := by
      simp [Database.hasColumn, ht]
    by_cases hmem : column ∈ t.columns
    · refine ⟨db, if_pos (hiff.mpr hmem), ?_⟩
      rw [← setTable_same ht]
      refine h.set ⟨t, rfl, ?_, fun c hc => List.mem_append_left _ (hpossible hc)⟩
      exact List.append_subset.mpr ⟨hpresent, by simpa using hmem⟩
    · refine ⟨db.setTable table (some (t.addColumn column default)), ?_, h.set ⟨_, rfl, ?_, ?_⟩⟩
      · rw [Statement.run, if_neg (hmem ∘ hiff.mp), alter_of_some ht (if_neg hmem)]
      · exact List.append_subset.mpr ⟨fun c hc => List.mem_append_left _ (hpresent hc),
          List.subset_append_right _ _⟩
      · exact List.append_subset.mpr ⟨fun c hc => List.mem_append_left _ (hpossible hc),
          List.subset_append_right _ _⟩
  | dropColumn table column =>
    obtain ⟨cs, hknown, hcheck⟩ := Option.bind_eq_some_iff.mp hcheck
    obtain ⟨t, ht, hpresent, hpossible⟩ := h.columns hknown
    split at hcheck
    · rename_i hmem
      cases hcheck
      refine ⟨_, alter_of_some ht (if_pos (hpresent hmem)), h.set ⟨_, rfl, ?_, ?_⟩⟩
      · exact List.filter_subset _ hpresent
      · exact List.filter_subset _ hpossible
    · cases hcheck
  | copy target source key columns =>
    obtain ⟨ts, htarget, hcheck⟩ := Option.bind_eq_some_iff.mp hcheck
    obtain ⟨ss, hsource, hcheck⟩ := Option.bind_eq_some_iff.mp hcheck
    obtain ⟨t, ht, htpresent, htpossible⟩ := h.columns htarget
    obtain ⟨s, hs, hspresent, -⟩ := h.columns hsource
    split at hcheck
    · rename_i hsub
      cases hcheck
      refine ⟨db.setTable target (some (t.insertOrIgnore key columns s.rows)), ?_, ?_⟩
      · rw [Statement.run, hs, Option.bind_some]
        refine alter_of_some ht (if_pos ?_)
        simp only [List.all_eq_true, List.contains_iff_mem]
        exact ⟨fun column hmem => htpresent (hsub.1 hmem), fun column hmem => hspresent (hsub.2 hmem)⟩
      · exact h.refine_table htarget ⟨_, rfl, htpresent, htpossible⟩
    · cases hcheck
  | update table column value =>
    obtain ⟨cs, hknown, hcheck⟩ := Option.bind_eq_some_iff.mp hcheck
    obtain ⟨t, ht, hpresent, hpossible⟩ := h.columns hknown
    split at hcheck
    · rename_i hmem
      cases hcheck
      refine ⟨db.setTable table (some (t.update column (value db))),
        alter_of_some ht (if_pos (hpresent hmem)), ?_⟩
      exact h.refine_table hknown ⟨_, rfl, hpresent, hpossible⟩
    · cases hcheck
  | setVersion version =>
    cases hcheck
    exact ⟨_, rfl, h⟩

/-- Statements that pass the check one after the other. -/
def checkAll (extra : String → List String) (known : Known) (ss : List Statement) : Option Known :=
  ss.foldlM (check extra) known

theorem checkAll_sound {extra : String → List String} {known known' : Known} {ss : List Statement}
    {db : Database} (h : known.Holds db) (hcheck : checkAll extra known ss = some known') :
    ∃ db', execute none ss db = some db' ∧ known'.Holds db' := by
  induction ss generalizing known db with
  | nil =>
    cases hcheck
    exact ⟨db, rfl, h⟩
  | cons s ss ih =>
    rw [checkAll, List.foldlM_cons] at hcheck
    obtain ⟨known₁, hfirst, hrest⟩ := Option.bind_eq_some_iff.mp hcheck
    obtain ⟨db₁, hrun, h₁⟩ := check_sound h hfirst
    obtain ⟨db', hexec, h'⟩ := ih h₁ hrest
    exact ⟨db', Option.bind_eq_some_iff.mpr ⟨db₁, hrun, hexec⟩, h'⟩

/-! ## What stays -/

def Database.rows (db : Database) (table : String) : List Row := (db.tables table).elim [] Table.rows

/-- The same rows, in the same order, with the same values in these columns. -/
def Agree (columns : List String) (rows rows' : List Row) : Prop :=
  List.Forall₂ (fun row row' : Row => ∀ c ∈ columns, row' c = row c) rows rows'

/-- Whether a statement may change the rows of the table or their values in these columns. -/
def Statement.touches (table : String) (columns : List String) : Statement → Bool
  | createTable .. => false
  | createIndex .. => false
  | dropTable name => name == table
  | addColumn name column _ => name == table && columns.contains column
  | ensureColumn name column _ => name == table && columns.contains column
  | dropColumn name column => name == table && columns.contains column
  | copy target .. => target == table
  | update name column _ => name == table && columns.contains column
  | setVersion _ => false

variable {columns : List String} {table : String} {db db' : Database}

theorem agree_refl (columns : List String) (rows : List Row) : Agree columns rows rows :=
  List.forall₂_same.mpr fun _ _ _ _ => rfl

theorem Agree.trans {rows rows' rows'' : List Row} (h : Agree columns rows rows')
    (h' : Agree columns rows' rows'') : Agree columns rows rows'' := by
  induction h generalizing rows'' with
  | nil => exact h'
  | cons hrow _ ih =>
    cases h' with
    | cons hrow' hrest => exact .cons (fun c hc => (hrow' c hc).trans (hrow c hc)) (ih hrest)

/-- A column that is not among these, written in every row. -/
theorem agree_write {column : String} (h : column ∉ columns) (value : Row → Value)
    (rows : List Row) : Agree columns rows
      (rows.map fun row name => if name = column then value row else row name) := by
  refine List.forall₂_map_right_iff.mpr (List.forall₂_same.mpr fun row _ c hc => ?_)
  exact if_neg fun heq : c = column => h (heq ▸ hc)

theorem rows_setTable (db : Database) (name : String) (t : Option Table) (table : String) :
    (db.setTable name t).rows table = if table = name then t.elim [] Table.rows else db.rows table := by
  rw [Database.rows]
  split
  · rename_i hname
    rw [hname, db.setTable_self]
  · rename_i hname
    rw [db.setTable_of_ne t hname]
    rfl

theorem rows_of_some {t : Table} (h : db.tables table = some t) : db.rows table = t.rows := by
  rw [Database.rows, h]
  rfl

theorem alter_eq_some {name : String} {f : Table → Option Table} (h : alter db name f = some db') :
    ∃ t t', db.tables name = some t ∧ f t = some t' ∧ db' = db.setTable name (some t') := by
  obtain ⟨t, ht, hf⟩ := Option.bind_eq_some_iff.mp h
  obtain ⟨t', ht', heq⟩ := Option.map_eq_some_iff.mp hf
  exact ⟨t, t', ht, ht', heq.symm⟩

/-- A table altered in a way that leaves its rows as they are in these columns. -/
theorem agree_alter {name : String} {f : Table → Option Table}
    (h : name = table → ∀ t t', f t = some t' → Agree columns t.rows t'.rows)
    (halter : alter db name f = some db') : Agree columns (db.rows table) (db'.rows table) := by
  obtain ⟨t, t', ht, ht', rfl⟩ := alter_eq_some halter
  rw [rows_setTable]
  split
  · rename_i hname
    rw [rows_of_some (hname ▸ ht)]
    exact h hname.symm t t' ht'
  · exact agree_refl _ _

theorem agree_addColumn {column : String} {default : Value} (h : column ∉ columns) {t t' : Table}
    (ht : addColumn column default t = some t') : Agree columns t.rows t'.rows := by
  unfold addColumn at ht
  split at ht <;> cases ht
  exact agree_write h (fun _ => default) t.rows

/-- **The frame of a statement**: what it does not touch stays. -/
theorem agree_run {s : Statement} (h : s.touches table columns = false)
    (hrun : s.run db = some db') : Agree columns (db.rows table) (db'.rows table) := by
  have hmem : ∀ {name column : String}, (name == table && columns.contains column) = false →
      name = table → column ∉ columns := by
    intro name column h hname
    simpa [hname] using h
  cases s with
  | createTable name cs =>
    cases hrun
    split
    · exact agree_refl _ _
    · rename_i hnone
      rw [rows_setTable]
      split
      · rename_i hname
        have hrows : db.rows table = [] := by
          rw [Database.rows, hname, Option.not_isSome_iff_eq_none.mp hnone]
          rfl
        rw [hrows]
        exact .nil
      · exact agree_refl _ _
  | createIndex name cs =>
    refine agree_alter (fun _ t t' ht => ?_) hrun
    split at ht <;> cases ht
    exact agree_refl _ _
  | dropTable name =>
    cases hrun
    rw [rows_setTable, if_neg fun heq : table = name => by simp [Statement.touches, heq] at h]
    exact agree_refl _ _
  | addColumn name column default =>
    exact agree_alter (fun hname t t' ht => agree_addColumn (hmem h hname) ht) hrun
  | ensureColumn name column default =>
    rw [Statement.run] at hrun
    split at hrun
    · cases hrun
      exact agree_refl _ _
    · exact agree_alter (fun hname t t' ht => agree_addColumn (hmem h hname) ht) hrun
  | dropColumn name column =>
    refine agree_alter (fun _ t t' ht => ?_) hrun
    split at ht <;> cases ht
    exact agree_refl _ _
  | copy target source key cs =>
    obtain ⟨s, -, hrun⟩ := Option.bind_eq_some_iff.mp hrun
    refine agree_alter (fun hname => ?_) hrun
    simp [Statement.touches, hname] at h
  | update name column value =>
    refine agree_alter (fun hname t t' ht => ?_) hrun
    split at ht <;> cases ht
    exact agree_write (hmem h hname) _ t.rows
  | setVersion version =>
    cases hrun
    exact agree_refl _ _

theorem agree_execute {ss : List Statement} (h : ∀ s ∈ ss, s.touches table columns = false)
    (hexec : execute none ss db = some db') : Agree columns (db.rows table) (db'.rows table) := by
  induction ss generalizing db with
  | nil =>
    cases hexec
    exact agree_refl _ _
  | cons s ss ih =>
    rw [List.forall_mem_cons] at h
    obtain ⟨db₁, hrun, hrest⟩ := Option.bind_eq_some_iff.mp hexec
    exact (agree_run h.1 hrun).trans (ih h.2 hrest)

/-! ## What is written -/

theorem rows_update {column : String} {value : Database → Row → Value}
    (hrun : (Statement.update table column value).run db = some db') :
    db'.rows table = (db.rows table).map fun row name =>
      if name = column then value db row else row name := by
  obtain ⟨t, t', ht, ht', rfl⟩ := alter_eq_some hrun
  rw [rows_of_some ht, rows_setTable, if_pos rfl]
  by_cases hmem : column ∈ t.columns
  · cases (if_pos hmem).symm.trans ht'
    rfl
  · cases (if_neg hmem).symm.trans ht'

theorem rows_ensureColumn {column : String} {default : Value}
    (hrun : (Statement.ensureColumn table column default).run db = some db') :
    db'.rows table = db.rows table ∨ db'.rows table = (db.rows table).map fun row name =>
      if name = column then default else row name := by
  rw [Statement.run] at hrun
  split at hrun
  · cases hrun
    exact .inl rfl
  · obtain ⟨t, t', ht, ht', rfl⟩ := alter_eq_some hrun
    rw [addColumn] at ht'
    split at ht' <;> cases ht'
    rw [rows_of_some ht, rows_setTable, if_pos rfl]
    exact .inr rfl

theorem rows_copy {source key : String} {cs : List String} {t : Table}
    (ht : db.tables table = some t) (hrun : (Statement.copy table source key cs).run db = some db') :
    db'.rows table = (t.insertOrIgnore key cs (db.rows source)).rows := by
  obtain ⟨s, hs, hrun⟩ := Option.bind_eq_some_iff.mp hrun
  obtain ⟨t₁, t', ht₁, ht', rfl⟩ := alter_eq_some hrun
  cases ht.symm.trans ht₁
  rw [rows_of_some hs, rows_setTable, if_pos rfl]
  split at ht' <;> cases ht'
  rfl

/-! ## Rows by key -/

theorem Agree.map_eq {rows rows' : List Row} (h : Agree columns rows rows') {c : String}
    (hc : c ∈ columns) : rows'.map (· c) = rows.map (· c) := by
  induction h with
  | nil => rfl
  | cons hrow _ ih => rw [List.map_cons, List.map_cons, hrow c hc, ih]

theorem Agree.exists_right {rows rows' : List Row} (h : Agree columns rows rows') {row : Row}
    (hmem : row ∈ rows) : ∃ row' ∈ rows', ∀ c ∈ columns, row' c = row c := by
  induction h with
  | nil => cases hmem
  | cons hrow _ ih =>
    rcases List.mem_cons.mp hmem with rfl | hmem
    · exact ⟨_, List.mem_cons_self, hrow⟩
    · obtain ⟨row', hmem', hagree⟩ := ih hmem
      exact ⟨row', List.mem_cons_of_mem _ hmem', hagree⟩

/-- A row is found by its key, when the keys are distinct. -/
theorem find_key {rows : List Row} {key : String} (hnodup : (rows.map (· key)).Nodup) {row : Row}
    (hmem : row ∈ rows) : rows.find? (fun r => r key = row key) = some row := by
  induction rows with
  | nil => cases hmem
  | cons first rows ih =>
    obtain ⟨hnew, hnodup⟩ := List.nodup_cons.mp hnodup
    rcases List.mem_cons.mp hmem with rfl | hmem
    · exact List.find?_cons_of_pos (by simp)
    · have hne : first key ≠ row key := by
        intro heq
        exact hnew (List.mem_map.mpr ⟨row, hmem, heq.symm⟩)
      rw [List.find?_cons_of_neg (by simpa using hne)]
      exact ih hnodup hmem

/-- Rows with distinct keys, none of which is there, all go in. -/
theorem insertOrIgnore_nodup {key : String} (hkey : key ∈ columns) {t : Table} {rows : List Row}
    (hnodup : (t.rows.map (· key) ++ rows.map (· key)).Nodup) :
    (t.insertOrIgnore key columns rows).rows = t.rows ++ rows.map (Row.select · columns) := by
  obtain ⟨cs, there⟩ := t
  show rows.foldl _ there = there ++ _
  induction rows generalizing there with
  | nil => exact (List.append_nil _).symm
  | cons row rows ih =>
    have hselect : row.select columns key = row key := if_pos hkey
    have hnew : there.any (fun r => r key = row key) = false := by
      rw [List.any_eq_false]
      intro r hr heq
      exact (List.nodup_append.mp hnodup).2.2 (r key) (List.mem_map.mpr ⟨r, hr, rfl⟩) (row key)
        List.mem_cons_self (of_decide_eq_true heq)
    have hrest : ((there ++ [row.select columns]).map (· key) ++ rows.map (· key)).Nodup := by
      simpa [hselect] using hnodup
    rw [List.foldl_cons, hnew]
    simpa using ih _ hrest

end Migration
