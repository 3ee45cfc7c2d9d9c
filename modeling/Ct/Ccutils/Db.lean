import Ct.Lib.Fault
import Ct.Lib.Schema
import Mathlib.Logic.Function.Basic

set_option autoImplicit false

namespace Ct.Ccutils.Db

open Ct.Lib

/-- The statements that are not queries. The `subsql` of a `create table` is given as the columns
it declares. -/
inductive Statement
  | createTable (tbl : CString) (subsql : List Column)
  | alterTable (tbl : CString) (column : Column)
  deriving DecidableEq

/-- A table: the text of its statement in `sqlite_master`, and the names of its columns. -/
structure Table where
  sql : CString
  columns : List CString
  deriving DecidableEq

/-- An open database, with the statements that `db_exec` has been given. -/
structure Database where
  tables : CString → Option Table
  issued : List Statement

/-- `create table '%s' (id integer primary key autoincrement %s)` -/
def createdTable (tbl : CString) (columns : List Column) : Table :=
  ⟨schemaText (tableHead tbl "id integer primary key autoincrement ".toList) columns,
    "id".toList :: columns.map Column.name⟩

def alteredTable (table : Table) (column : Column) : Table :=
  ⟨alteredText table.sql column, table.columns ++ [column.name]⟩

section

-- whether SQLite carries out a statement that the schema allows
variable (accepts : Statement → Bool)

/-- `db_exec` of one of these statements, and whether it returns `SQLITE_OK`. -/
def dbExec (db : Database) (statement : Statement) : Bool × Database :=
  let db := { db with issued := db.issued ++ [statement] }
  match statement with
  | .createTable tbl subsql =>
    match db.tables tbl with
    | none =>
      if accepts statement then
        (true, { db with
          tables := Function.update db.tables tbl (some (createdTable tbl subsql)) })
      else (false, db)
    | some _ => (false, db)
  | .alterTable tbl column =>
    match db.tables tbl with
    | none => (false, db)
    | some table =>
      if column.name ∉ table.columns ∧ accepts statement = true then
        (true, { db with
          tables := Function.update db.tables tbl (some (alteredTable table column)) })
      else (false, db)

/-- `db_get_acell_str` on `sqlite_master`, by the name of a table. -/
def dbGetAcellStr (db : Database) (tbl : CString) (cell : Table → CString) : Option CString :=
  (db.tables tbl).map cell

/-- `for(index = 1; temp != anchor; temp++)`; `left` is what is left up to the anchor. -/
def indexLoop : CString → Nat → Int → Int
  | _, 0, index => index
  | [], _ + 1, index => index
  | c :: temp, left + 1, index => indexLoop temp left (if c = ',' then index + 1 else index)

def dbColumnIndex (db : Database) (tbl column : CString) : Except Fault Int :=
  match dbGetAcellStr db tbl Table.sql with
  | none => .error .nullDeref
  | some sqlCt =>
    match search (columnAnchor column) sqlCt with
    | none => .ok (-1)
    | some anchor => .ok (indexLoop sqlCt anchor 1)

def dbColumnCheck (db : Database) (tbl : CString) (column : Column) :
    Except Fault (Int × Database) :=
  match dbColumnIndex db tbl column.name with
  | .error fault => .error fault
  | .ok idx =>
    if idx < 0 then
      -- the outcome goes to `rc`, which is not returned
      let (_, db) := dbExec accepts db (.alterTable tbl column)
      .ok (idx, db)
    else .ok (idx, db)

end

end Ct.Ccutils.Db
