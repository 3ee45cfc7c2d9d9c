import Ct.Tushare.FetchData
import Mathlib.Data.List.Nodup

set_option autoImplicit false

namespace Ct.Tushare

open Ct.Lib

/-- A table as `check_table_and_creat` leaves it, at its end or where it was interrupted, with any
rows that the unique column allows. -/
structure Table.Made (table : Table) : Prop where
  columns : ∃ added missing, table.columns = subsql ++ added ∧ dbcols = added ++ missing
  unique : (table.rows.map Row.date).Nodup

/-- A history database. -/
def Mydb.History (db : Mydb) : Prop :=
  ∀ code table, db code = some table → table.Made

/-- The stored rows of a stock; none while it has no table. -/
def Mydb.rowsOf (db : Mydb) (code : Code) : List Row :=
  ((db code).map Table.rows).getD []

def Mydb.setRows (db : Mydb) (code : Code) (rows : List Row) : Mydb :=
  Function.update db code (some ⟨subsql ++ dbcols, rows⟩)

variable {db : Mydb} {code : Code} {table : Table}

theorem rowsOf_some (there : db code = some table) : db.rowsOf code = table.rows := by
  rw [Mydb.rowsOf, there]
  rfl

@[simp] theorem rowsOf_setRows (db : Mydb) (code : Code) (rows : List Row) :
    (db.setRows code rows).rowsOf code = rows := by
  rw [Mydb.rowsOf, Mydb.setRows, Function.update_self]
  rfl

theorem rowsOf_setRows_of_ne {other : Code} (apart : other ≠ code) (rows : List Row) :
    (db.setRows code rows).rowsOf other = db.rowsOf other := by
  rw [Mydb.rowsOf, Mydb.setRows, Function.update_of_ne apart, Mydb.rowsOf]

theorem Mydb.History.unique (history : db.History) (code : Code) :
    ((db.rowsOf code).map Row.date).Nodup := by
  cases there : db code with
  | none =>
    rw [Mydb.rowsOf, there]
    exact List.nodup_nil
  | some table =>
    rw [rowsOf_some there]
    exact (history code table there).unique

theorem Mydb.History.setRows (history : db.History) (code : Code) {rows : List Row}
    (unique : (rows.map Row.date).Nodup) : (db.setRows code rows).History := by
  intro other table there
  by_cases same : other = code
  · rw [same, Mydb.setRows, Function.update_self] at there
    cases there
    exact ⟨⟨dbcols, [], rfl, (List.append_nil _).symm⟩, unique⟩
  · rw [Mydb.setRows, Function.update_of_ne same] at there
    exact history other table there

section Columns

theorem allColumns_plain : ∀ column ∈ subsql ++ dbcols, column.Plain := by
  have plain : ∀ column ∈ subsql ++ dbcols,
      ' ' ∉ column.name ∧ ',' ∉ column.name ∧ ',' ∉ column.type := by decide
  exact fun column member => ⟨(plain column member).1, (plain column member).2.1,
    (plain column member).2.2⟩

theorem allColumns_distinct : ((subsql ++ dbcols).map Column.name).Nodup := by
  decide

/-- The text in front of the columns. -/
theorem head_comma (code : Code) :
    ',' ∉ tableHead code.val "id integer primary key autoincrement ".toList := by
  apply tableHead_comma
  · intro inside
    have digit := List.all_eq_true.mp code.property ',' inside
    revert digit
    decide
  · decide

theorem checkColumn_iff (there : db code = some table)
    (plain : ∀ column ∈ table.columns, column.Plain) {name : CString} (blank : ' ' ∉ name) :
    db.checkColumn code name = true ↔ name ∈ table.columns.map Column.name := by
  have counted := marksBefore_schemaText (head_comma code) plain blank
  rw [marksBefore] at counted
  rw [Mydb.checkColumn, there, ← List.isSome_idxOf?, ← counted, Option.isSome_map]
  rfl

/-- Columns that the table has are passed over. -/
theorem insertColumns_present (there : db code = some table)
    (plain : ∀ column ∈ table.columns, column.Plain) {present : List Column}
    (within : present ⊆ table.columns) (missing : List Column) :
    db.insertColumns code (present ++ missing) = db.insertColumns code missing := by
  induction present with
  | nil => rfl
  | cons column present ih =>
    have member := within List.mem_cons_self
    have found := (checkColumn_iff there plain (plain column member).blank).mpr
      (List.mem_map_of_mem member)
    rw [List.cons_append, Mydb.insertColumns, if_pos found]
    exact ih fun other inside => within (List.mem_cons_of_mem column inside)

/-- Columns that it lacks are appended. -/
theorem insertColumns_missing {columns missing : List Column} {rows : List Row}
    (there : db code = some ⟨columns, rows⟩)
    (plain : ∀ column ∈ columns ++ missing, column.Plain)
    (distinct : ((columns ++ missing).map Column.name).Nodup) :
    db.insertColumns code missing =
      Function.update db code (some ⟨columns ++ missing, rows⟩) := by
  induction missing generalizing db columns with
  | nil => rw [Mydb.insertColumns, List.append_nil, ← there, Function.update_eq_self]
  | cons column missing ih =>
    have absent : ¬ db.checkColumn code column.name = true := by
      rw [checkColumn_iff there (fun old member => plain old (List.mem_append_left _ member))
        (plain column (List.mem_append_right _ List.mem_cons_self)).blank]
      rw [List.map_append, List.map_cons] at distinct
      intro old
      exact (List.nodup_append.mp distinct).2.2 _ old _ List.mem_cons_self rfl
    have inserted : db.insertColumn code column =
        Function.update db code (some ⟨columns ++ [column], rows⟩) := by
      rw [Mydb.insertColumn, there]
      rfl
    rw [List.append_cons] at plain distinct ⊢
    rw [Mydb.insertColumns, if_neg absent, inserted, ih (Function.update_self ..) plain distinct,
      Function.update_idem]

/-- After `check_table_and_creat` the table has all its columns, and the rows it had. -/
theorem checkTableAndCreat_eq (history : db.History) (code : Code) :
    db.checkTableAndCreat code dbcols subsql = db.setRows code (db.rowsOf code) := by
  cases there : db code with
  | none =>
    have absent : ¬ db.checkTable code = true := by
      rw [Mydb.checkTable, there]
      decide
    rw [Mydb.checkTableAndCreat, if_neg absent,
      insertColumns_missing (Function.update_self ..) allColumns_plain allColumns_distinct,
      Function.update_idem, Mydb.setRows, Mydb.rowsOf, there]
    rfl
  | some table =>
    have present : db.checkTable code = true := by
      rw [Mydb.checkTable, there]
      rfl
    obtain ⟨added, missing, columns, all⟩ := (history code table there).columns
    have plain : ∀ column ∈ table.columns ++ missing, column.Plain := by
      rw [columns, List.append_assoc, ← all]
      exact allColumns_plain
    have distinct : ((table.columns ++ missing).map Column.name).Nodup := by
      rw [columns, List.append_assoc, ← all]
      exact allColumns_distinct
    have within : added ⊆ table.columns := by
      rw [columns]
      exact List.subset_append_right subsql added
    rw [Mydb.checkTableAndCreat, if_pos present, all,
      insertColumns_present there (fun column member => plain column (List.mem_append_left _ member))
        within, insertColumns_missing there plain distinct, Mydb.setRows, rowsOf_some there,
      columns, List.append_assoc, ← all]

/-- The column that the rows are ordered by is the first one behind `id`. -/
theorem columnIndex_date (there : db code = some table) (made : table.Made) :
    db.columnIndex code "date".toList = 1 := by
  obtain ⟨added, missing, columns, all⟩ := made.columns
  have here : marksBefore ',' (',' :: ' ' :: "date".toList) (table.sql code) = some 0 := by
    rw [Table.sql, schemaText, marksBefore_append (head_comma code), columns]
    exact marksBefore_here ⟨_, rfl⟩
  obtain ⟨found, searched, count⟩ := Option.map_eq_some_iff.mp here
  rw [Mydb.columnIndex, there]
  simp only [searched, count]
  rfl

end Columns

theorem firstDesc_eq_none_iff {α β : Type} [LinearOrder β] {order : α → β} {rows : List α} :
    firstDesc order rows = none ↔ rows = [] :=
  List.argmax_eq_none

theorem firstDesc_greatest {α β : Type} [LinearOrder β] {order : α → β} {rows : List α} {row : α}
    (first : firstDesc order rows = some row) :
    row ∈ rows ∧ ∀ other ∈ rows, order other ≤ order row :=
  ⟨List.argmax_mem (Option.mem_def.mpr first), fun _ member =>
    List.le_of_mem_argmax member (Option.mem_def.mpr first)⟩

/-- The last date among stored rows. -/
def lastDate (stored : List Row) : Option Date :=
  (firstDesc Row.date stored).map Row.date

theorem getLastUpdateDate_eq (history : db.History) (code : Code) :
    getLastUpdateDate db code = lastDate (db.rowsOf code) := by
  cases there : db code with
  | none => rw [getLastUpdateDate, Mydb.getLastRecord, Mydb.rowsOf, there]; rfl
  | some table =>
    have index := columnIndex_date there (history code table there)
    rw [getLastUpdateDate, Mydb.getLastRecord, index, rowsOf_some there, there, lastDate,
      Option.bind_some]
    cases firstDesc Row.date table.rows with
    | none => rfl
    | some row => rfl

theorem lastDate_eq_none_iff {stored : List Row} : lastDate stored = none ↔ stored = [] := by
  rw [lastDate, Option.map_eq_none_iff, firstDesc_eq_none_iff]

/-- The unique column takes these rows next to the stored ones. -/
def Accepts (stored df : List Row) : Prop :=
  (stored.map Row.date ++ df.map Row.date).Nodup

instance (stored df : List Row) : Decidable (Accepts stored df) :=
  inferInstanceAs (Decidable (List.Nodup _))

theorem insertRows_eq {columns : List Column} (all : columns.length = 15) (rows : List Row)
    {stored : List Row} (unique : (stored.map Row.date).Nodup) :
    insertRows ⟨columns, stored⟩ rows =
      if Accepts stored rows then some ⟨columns, stored ++ rows⟩ else none := by
  induction rows generalizing stored with
  | nil =>
    have accepted : Accepts stored [] := by
      rw [Accepts, List.map_nil, List.append_nil]
      exact unique
    rw [if_pos accepted, List.append_nil]
    rfl
  | cons row rows ih =>
    have grown : Accepts stored (row :: rows) ↔ Accepts (stored ++ [row]) rows := by
      simp only [Accepts, List.map_append, List.map_cons, List.map_nil, List.append_assoc,
        List.singleton_append]
    rw [insertRows, insertRow]
    by_cases fresh : ∀ old ∈ stored, old.date ≠ row.date
    · have next : ((stored ++ [row]).map Row.date).Nodup := by
        rw [List.map_append, List.map_singleton]
        refine List.nodup_append.mpr ⟨unique, List.nodup_singleton _, fun date among last only => ?_⟩
        obtain ⟨old, member, rfl⟩ := List.mem_map.mp among
        rw [List.mem_singleton.mp only]
        exact fresh old member
      rw [if_pos ⟨all, fresh⟩, Option.bind_some, ih next, List.append_assoc,
        List.singleton_append]
      exact if_congr grown.symm rfl rfl
    · have refused : ¬ Accepts stored (row :: rows) := by
        intro accepted
        exact fresh fun old member => (List.nodup_append.mp accepted).2.2 _
          (List.mem_map_of_mem member) _ List.mem_cons_self
      rw [if_neg fun both => fresh both.2, if_neg refused]
      rfl

theorem accepts_reverse (stored df : List Row) : Accepts stored df.reverse ↔ Accepts stored df := by
  rw [Accepts, Accepts, List.map_reverse]
  exact ((List.reverse_perm _).append_left _).nodup_iff

/-- The rows of a stock after a request from this date on, unless it raises an exception. -/
def fetched (getHistData : GetHistData) (code : Code) (stored : List Row) (start : Date) :
    Option (List Row) :=
  match getHistData code.val start with
  | .raises => none
  | .none => none
  | .frame df => if Accepts stored df then some (stored ++ df.reverse) else none

theorem fetched_unique {getHistData : GetHistData} {stored rows : List Row} {start : Date}
    (got : fetched getHistData code stored start = some rows) : (rows.map Row.date).Nodup := by
  unfold fetched at got
  split at got
  · cases got
  · cases got
  · rename_i df reply
    obtain ⟨accepted, same⟩ := Option.ite_none_right_eq_some.mp got
    cases same
    rw [List.map_append]
    exact (accepts_reverse stored df).mpr accepted

theorem pull_eq (getHistData : GetHistData) (db : Mydb) (code : Code) (start : Date)
    {stored : List Row} (unique : (stored.map Row.date).Nodup) :
    pull getHistData (db.setRows code stored) code start =
      (fetched getHistData code stored start).map fun rows => db.setRows code rows := by
  have there : db.setRows code stored code = some ⟨subsql ++ dbcols, stored⟩ :=
    Function.update_self ..
  unfold pull fetched
  cases getHistData code.val start with
  | raises => rfl
  | none => rfl
  | frame df =>
    dsimp only
    rw [there, Option.bind_some, insertRows_eq (by decide) df.reverse unique]
    by_cases accepted : Accepts stored df
    · rw [if_pos ((accepts_reverse stored df).mpr accepted), if_pos accepted, Option.map_some,
        Option.map_some, Mydb.setRows, Function.update_idem, Mydb.setRows]
    · rw [if_neg fun reversed => accepted ((accepts_reverse stored df).mp reversed),
        if_neg accepted]
      rfl

end Ct.Tushare
