import Ct.Sqlite.Glob
import Ct.Tushare.Mydb

set_option autoImplicit false

namespace Ct.Tushare

open Ct.Lib Ct.Sqlite

/-- The tables that `sqlite_master` lists, with their columns behind `id`. Names have no quotes in
them, which would end the literals of the statements. -/
abbrev Schema := CString → Option (List Column)

/-- `result[4]` -/
def tableSql (table : CString) (columns : List Column) : CString :=
  schemaText (tableHead table "id integer primary key autoincrement ".toList) columns

namespace Schema

variable (db : Schema) (table : CString)

/-- `select * from sqlite_master where name = '%s' and sql glob '*, %s *'` -/
def checkColumn (column : CString) : Bool :=
  match db table with
  | none => false
  | some columns => glob ('*' :: (columnAnchor column ++ ['*'])) (tableSql table columns)

def checkTable : Bool :=
  (db table).isSome

/-- `alter table '%s' add column %s %s`, unless it raises an exception. -/
def insertColumn (column : Column) : Option Schema :=
  match db table with
  | none => none
  | some columns =>
    if ("id".toList :: columns.map Column.name).contains column.name then none
    else some (Function.update db table (some (columns ++ [column])))

/-- `table_sql.count(',', 0, table_sql.find(', %s' % column)) + 1`; where `find` returns -1 the
count leaves out the last character. -/
def columnIndex (column : CString) : Int :=
  match db table with
  | none => -1
  | some columns =>
    match search (',' :: ' ' :: column) (tableSql table columns) with
    | some found => ((tableSql table columns).take found).count ',' + 1
    | none => (tableSql table columns).dropLast.count ',' + 1

/-- `for column in columns` -/
def insertColumns (db : Schema) (table : CString) : List Column → Option Schema
  | [] => some db
  | column :: columns =>
    if db.checkColumn table column.name then insertColumns db table columns
    else (db.insertColumn table column).bind fun db => insertColumns db table columns

/-- `create table '%s' (id integer primary key autoincrement %s)`, unless it raises an exception;
`subsql` is given as the columns it declares. -/
def create (subsql : List Column) : Option Schema :=
  if ("id".toList :: subsql.map Column.name).Nodup then
    some (Function.update db table (some subsql))
  else none

def checkTableAndCreat (columns subsql : List Column) : Option Schema :=
  if db.checkTable table then db.insertColumns table columns
  else (db.create table subsql).bind fun db => insertColumns db table columns

/-- The names of the columns in their order. -/
def columnNames : List CString :=
  ((db table).map fun columns => "id".toList :: columns.map Column.name).getD []

/-- `column_index` is the position of a column that `check_column` finds, and -1 for any other. -/
def Agrees (column : CString) : Prop :=
  (db.checkColumn table column = true →
    ∃ k : Nat, (db.columnNames table)[k]? = some column ∧ db.columnIndex table column = k) ∧
  (db.checkColumn table column = false → db.columnIndex table column = -1)

end Schema

section Stocks

variable (db : Mydb) (code : Code)

/-- The tables of the stocks. -/
def Mydb.schema : Schema := fun name =>
  if digits : name.all Char.isDigit = true then (db ⟨name, digits⟩).map Table.columns else none

theorem Mydb.schema_code : db.schema code.val = (db code).map Table.columns :=
  dif_pos code.property

theorem Mydb.columnIndex_schema (column : CString) :
    db.columnIndex code column = db.schema.columnIndex code.val column := by
  rw [Mydb.columnIndex, Schema.columnIndex, Mydb.schema_code]
  cases db code with
  | none => rfl
  | some there => rfl

end Stocks

/-- A name without the wildcards of GLOB. -/
structure Bare (name : CString) : Prop where
  star : '*' ∉ name
  one : '?' ∉ name
  bracket : '[' ∉ name

section Anchors

variable {name : CString} {c : Char}

theorem not_mem_anchor (apart : c ≠ ',' ∧ c ≠ ' ') (outside : c ∉ name) :
    c ∉ columnAnchor name := by
  simp only [columnAnchor, List.mem_cons, List.mem_append, List.not_mem_nil, or_false]
  rintro (comma | blank | inside | blank)
  · exact apart.1 comma
  · exact apart.2 blank
  · exact outside inside
  · exact apart.2 blank

theorem glob_anchor (bare : Bare name) (text : CString) :
    glob ('*' :: (columnAnchor name ++ ['*'])) text = (search (columnAnchor name) text).isSome := by
  rw [Bool.eq_iff_iff, search_isSome_iff]
  exact glob_iff_infix (not_mem_anchor (by decide) bare.star) (not_mem_anchor (by decide) bare.one)
    (not_mem_anchor (by decide) bare.bracket) text

theorem Mydb.checkColumn_schema (db : Mydb) (code : Code) (bare : Bare name) :
    db.checkColumn code name = db.schema.checkColumn code.val name := by
  rw [Mydb.checkColumn, Schema.checkColumn, Mydb.schema_code]
  cases db code with
  | none => rfl
  | some there => exact (glob_anchor bare _).symm

end Anchors

section Tables

variable {db : Schema} {table : CString} {columns : List Column} {name : CString}

theorem tableSql_head (comma : ',' ∉ table) :
    ',' ∉ tableHead table "id integer primary key autoincrement ".toList :=
  tableHead_comma comma (by decide)

/-- A column that is listed stands in the text of the table. -/
theorem anchor_infix (table : CString) (listed : name ∈ columns.map Column.name) :
    columnAnchor name <:+: tableSql table columns := by
  obtain ⟨column, member, rfl⟩ := List.mem_map.mp listed
  have within : columnAnchor column.name <+: column.text :=
    ⟨column.type, by simp [columnAnchor, Column.text]⟩
  have among : column.text <:+: columns.flatMap Column.text := by
    rw [List.flatMap_def]
    exact List.infix_of_mem_flatten (List.mem_map_of_mem member)
  have inside : columns.flatMap Column.text <:+: tableSql table columns :=
    ⟨_, [')'], List.append_assoc ..⟩
  exact (within.isInfix.trans among).trans inside

theorem checkColumn_listed (there : db table = some columns)
    (listed : name ∈ columns.map Column.name) (bracket : '[' ∉ name) :
    db.checkColumn table name = true := by
  obtain ⟨front, behind, same⟩ := anchor_infix table listed
  simp only [Schema.checkColumn, there]
  rw [← same, List.append_assoc]
  exact glob_infix (not_mem_anchor (by decide) bracket) front behind

theorem checkColumn_unlisted (there : db table = some columns) (comma : ',' ∉ table)
    (plain : ∀ column ∈ columns, column.Plain) (blank : ' ' ∉ name) (bare : Bare name)
    (unlisted : name ∉ columns.map Column.name) : db.checkColumn table name = false := by
  have counted := marksBefore_schemaText (tableSql_head comma) plain blank
  rw [List.idxOf?_eq_none_iff.mpr unlisted, marksBefore, Option.map_eq_none_iff] at counted
  simp only [Schema.checkColumn, there, glob_anchor bare]
  rw [tableSql, counted]
  rfl

theorem columnIndex_found (there : db table = some columns) {before : Nat}
    (marks : marksBefore ',' (',' :: ' ' :: name) (tableSql table columns) = some before) :
    db.columnIndex table name = before + 1 := by
  obtain ⟨found, searched, rfl⟩ := Option.map_eq_some_iff.mp marks
  simp only [Schema.columnIndex, there, searched]

/-- The index of a column that is not found is no negative one either. -/
theorem columnIndex_positive (there : db table = some columns) :
    0 < db.columnIndex table name := by
  simp only [Schema.columnIndex, there]
  split
  · omega
  · omega

/-- The position of a column among those behind `id`. -/
theorem columnNames_succ (there : db table = some columns) (k : Nat) :
    (db.columnNames table)[k + 1]? = (columns.map Column.name)[k]? := by
  simp only [Schema.columnNames, there, Option.map_some, Option.getD_some, List.getElem?_cons_succ]

/-- No name in front of the `k`th one begins with it. -/
def FirstOf (names : List CString) (name : CString) (k : Nat) : Prop :=
  names[k]? = some name ∧
    ∀ (j : Nat) (earlier : CString), j < k → names[j]? = some earlier → ¬ name <+: earlier

theorem findIdx?_iff_firstOf {names : List CString} {k : Nat} (here : names[k]? = some name) :
    (names.findIdx? fun earlier => name <+: earlier) = some k ↔ FirstOf names name k := by
  obtain ⟨inside, same⟩ := List.getElem?_eq_some_iff.mp here
  rw [List.findIdx?_eq_some_iff_getElem, FirstOf, and_iff_right here]
  constructor
  · rintro ⟨_, _, apart⟩ j earlier before there begins
    obtain ⟨_, rfl⟩ := List.getElem?_eq_some_iff.mp there
    exact apart j before (decide_eq_true begins)
  · intro apart
    refine ⟨inside, decide_eq_true (same ▸ List.prefix_rfl), fun j before begins => ?_⟩
    exact apart j _ before (List.getElem?_eq_getElem _) (of_decide_eq_true begins)

/-- The two methods agree on the columns that no other one in front of them begins with. -/
theorem agrees_iff_of_table (there : db table = some columns) (comma : ',' ∉ table)
    (plain : ∀ column ∈ columns, column.Plain) (bracket : ∀ column ∈ columns, '[' ∉ column.name)
    (other : name ≠ "id".toList) :
    db.Agrees table name ↔ ∃ k, FirstOf (columns.map Column.name) name k := by
  have index : ∀ k j : Nat, (columns.map Column.name)[k]? = some name →
      ((columns.map Column.name).findIdx? fun earlier => name <+: earlier) = some j →
      db.columnIndex table name = j + 1 := by
    intro k j here begins
    obtain ⟨column, member, rfl⟩ := List.mem_map.mp (List.mem_of_getElem? here)
    apply columnIndex_found there
    rw [tableSql, schemaText, marksBefore_append (tableSql_head comma),
      marksBefore_begins plain (plain column member).blank (by decide), begins]
  constructor
  · rintro ⟨found, missed⟩
    cases checked : db.checkColumn table name with
    | false =>
      have positive : 0 < db.columnIndex table name := columnIndex_positive there
      rw [missed checked] at positive
      exact absurd positive (by decide)
    | true =>
      obtain ⟨k, here, same⟩ := found checked
      cases k with
      | zero =>
        simp only [Schema.columnNames, there, Option.map_some, Option.getD_some,
          List.getElem?_cons_zero, Option.some_inj] at here
        exact absurd here.symm other
      | succ k =>
        rw [columnNames_succ there] at here
        refine ⟨k, (findIdx?_iff_firstOf here).mp ?_⟩
        cases begins : (columns.map Column.name).findIdx? fun earlier => name <+: earlier with
        | none =>
          have apart := List.findIdx?_eq_none_iff.mp begins name (List.mem_of_getElem? here)
          exact absurd (decide_eq_true List.prefix_rfl) (by rw [apart]; exact Bool.false_ne_true)
        | some j =>
          rw [index k j here begins] at same
          rw [show j = k by omega]
  · rintro ⟨k, first⟩
    have here := first.1
    have begins := (findIdx?_iff_firstOf here).mpr first
    have listed := List.mem_of_getElem? here
    have checked : db.checkColumn table name = true := by
      obtain ⟨column, member, same⟩ := List.mem_map.mp listed
      exact checkColumn_listed there listed (same ▸ bracket column member)
    refine ⟨fun _ => ⟨k + 1, ?_, ?_⟩, fun missed => ?_⟩
    · rwa [columnNames_succ there]
    · rw [index k k here begins]
      rfl
    · rw [checked] at missed
      cases missed

/-- Columns that are missing are appended, one after the other. -/
theorem insertColumns_made {missing : List Column} (there : db table = some columns)
    (comma : ',' ∉ table) (plain : ∀ column ∈ columns ++ missing, column.Plain)
    (bare : ∀ column ∈ columns ++ missing, Bare column.name)
    (distinct : ("id".toList :: (columns ++ missing).map Column.name).Nodup) :
    ∃ after, db.insertColumns table missing = some after ∧
      after table = some (columns ++ missing) := by
  induction missing generalizing db columns with
  | nil => exact ⟨db, rfl, by rw [there, List.append_nil]⟩
  | cons column missing ih =>
    have member : column ∈ columns ++ column :: missing :=
      List.mem_append_right _ List.mem_cons_self
    have fresh : column.name ∉ "id".toList :: columns.map Column.name := by
      rw [List.map_append, List.map_cons, ← List.cons_append] at distinct
      intro old
      exact (List.nodup_append.mp distinct).2.2 _ old _ List.mem_cons_self rfl
    have missed := checkColumn_unlisted there comma
      (fun old within => plain old (List.mem_append_left _ within)) (plain column member).blank
      (bare column member) (List.not_mem_of_not_mem_cons fresh)
    have inserted : db.insertColumn table column =
        some (Function.update db table (some (columns ++ [column]))) := by
      simp only [Schema.insertColumn, there]
      rw [if_neg fun old => fresh (List.contains_iff_mem.mp old)]
    rw [List.append_cons] at plain bare distinct
    obtain ⟨after, made, same⟩ := ih (Function.update_self ..) plain bare distinct
    rw [← List.append_cons] at same
    refine ⟨after, ?_, same⟩
    rw [Schema.insertColumns, missed, inserted]
    exact made

theorem checkTableAndCreat_made {added subsql : List Column} (absent : db table = none)
    (comma : ',' ∉ table) (plain : ∀ column ∈ subsql ++ added, column.Plain)
    (bare : ∀ column ∈ subsql ++ added, Bare column.name)
    (distinct : ("id".toList :: (subsql ++ added).map Column.name).Nodup) :
    ∃ after, db.checkTableAndCreat table added subsql = some after ∧
      after table = some (subsql ++ added) := by
  have first : ("id".toList :: subsql.map Column.name).Nodup := by
    rw [List.map_append, ← List.cons_append] at distinct
    exact (List.nodup_append.mp distinct).1
  have there : Function.update db table (some subsql) table = some subsql :=
    Function.update_self ..
  obtain ⟨after, inserted, same⟩ := insertColumns_made there comma plain bare distinct
  refine ⟨after, ?_, same⟩
  simp only [Schema.checkTableAndCreat, Schema.checkTable, absent, Option.isSome_none,
    Bool.false_eq_true, if_false, Schema.create, if_pos first, Option.bind_some, inserted]

/-- In a new table `column_index` agrees with `check_column` exactly on the columns that no other
one in front of them begins with. -/
theorem checkTableAndCreat_agrees_iff (db : Schema) (table : CString) (added subsql : List Column)
    (absent : db table = none) (comma : ',' ∉ table)
    (plain : ∀ column ∈ subsql ++ added, column.Plain)
    (bare : ∀ column ∈ subsql ++ added, Bare column.name)
    (distinct : ("id".toList :: (subsql ++ added).map Column.name).Nodup) :
    ∃ after, db.checkTableAndCreat table added subsql = some after ∧
      after table = some (subsql ++ added) ∧
      ∀ name, name ≠ "id".toList → (after.Agrees table name ↔
        ∃ k, FirstOf ((subsql ++ added).map Column.name) name k) := by
  obtain ⟨after, made, there⟩ := checkTableAndCreat_made absent comma plain bare distinct
  refine ⟨after, made, there, fun name other => ?_⟩
  exact agrees_iff_of_table there comma plain (fun column member => (bare column member).bracket)
    other

/-- Columns of which the first begins with the name of the second. -/
def volumes : List Column :=
  [⟨"volume_ma".toList, "float".toList⟩, ⟨"volume".toList, "float".toList⟩]

/-- `, date varchar(32) unique` -/
def dateFirst : List Column :=
  [⟨"date".toList, "varchar(32) unique".toList⟩]

theorem volumes_plain : ∀ column ∈ dateFirst ++ volumes, column.Plain := by
  have plain : ∀ column ∈ dateFirst ++ volumes,
      ' ' ∉ column.name ∧ ',' ∉ column.name ∧ ',' ∉ column.type := by decide
  exact fun column member => ⟨(plain column member).1, (plain column member).2.1,
    (plain column member).2.2⟩

theorem volumes_bare : ∀ column ∈ dateFirst ++ volumes, Bare column.name := by
  have bare : ∀ column ∈ dateFirst ++ volumes,
      '*' ∉ column.name ∧ '?' ∉ column.name ∧ '[' ∉ column.name := by decide
  exact fun column member => ⟨(bare column member).1, (bare column member).2.1,
    (bare column member).2.2⟩

theorem checkTableAndCreat_agrees_date : ∃ after,
    Schema.checkTableAndCreat (fun _ => none) "600000".toList volumes dateFirst = some after ∧
      after.Agrees "600000".toList "date".toList := by
  obtain ⟨after, made, _, agrees⟩ := checkTableAndCreat_agrees_iff (fun _ => none) "600000".toList
    volumes dateFirst rfl (by decide) volumes_plain volumes_bare (by decide)
  refine ⟨after, made, (agrees _ (by decide)).mpr ⟨0, rfl, ?_⟩⟩
  intro j earlier before
  exact absurd before (Nat.not_lt_zero j)

/-- The index of `volume` is that of `volume_ma`, and a column that is not there has one too. -/
theorem volumes_disagree : ∃ after,
    Schema.checkTableAndCreat (fun _ => none) "600000".toList volumes dateFirst = some after ∧
      ¬ after.Agrees "600000".toList "volume".toList ∧
      ¬ after.Agrees "600000".toList "amount".toList := by
  obtain ⟨after, made, there⟩ : ∃ after,
      Schema.checkTableAndCreat (fun _ => none) "600000".toList volumes dateFirst = some after ∧
        after "600000".toList = some (dateFirst ++ volumes) :=
    checkTableAndCreat_made rfl (by decide) volumes_plain volumes_bare (by decide)
  have agrees : ∀ {name : CString}, name ≠ "id".toList →
      (after.Agrees "600000".toList name ↔
        ∃ k, FirstOf ((dateFirst ++ volumes).map Column.name) name k) :=
    fun other => agrees_iff_of_table there (by decide) volumes_plain
      (fun column member => (volumes_bare column member).bracket) other
  refine ⟨after, made, ?_, ?_⟩
  · rw [agrees (by decide)]
    rintro ⟨k, here, first⟩
    match k with
    | 0 => exact absurd here (by decide)
    | 1 => exact absurd here (by decide)
    | k + 2 => exact first 1 _ (by omega) rfl (by decide)
  · rw [agrees (by decide)]
    rintro ⟨k, here, _⟩
    exact absurd (List.mem_of_getElem? here) (by decide)

end Tables

end Ct.Tushare
