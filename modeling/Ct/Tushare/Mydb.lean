import Ct.Lib.Schema
import Mathlib.Data.List.MinMax
import Mathlib.Data.String.Basic
import Mathlib.Logic.Function.Basic

set_option autoImplicit false

namespace Ct.Tushare

open Ct.Lib

/-- A date as `%Y-%m-%d` spells it; SQLite orders it as text. -/
abbrev Date := CString

/-- The code of a stock: some digits. -/
abbrev Code := { code : CString // code.all Char.isDigit = true }

/-- A row behind its `id`: the date and the texts that `%f` makes of the 14 values. -/
structure Row where
  date : Date
  cells : Vector CString 14
  deriving DecidableEq

def Row.texts (row : Row) : List CString :=
  row.date :: row.cells.toList

/-- The table of a stock: its columns behind `id`, and its rows in the order of their `id`. -/
structure Table where
  columns : List Column
  rows : List Row
  deriving DecidableEq

/-- The first row by `order by .. desc`. -/
def firstDesc {α β : Type} [LinearOrder β] (order : α → β) (rows : List α) : Option α :=
  rows.argmax order

/-- The tables of an open database. -/
abbrev Mydb := Code → Option Table

/-- The text of the table in `sqlite_master`. -/
def Table.sql (code : Code) (table : Table) : CString :=
  schemaText (tableHead code.val "id integer primary key autoincrement ".toList) table.columns

namespace Mydb

variable (db : Mydb) (table : Code)

/-- `sql glob '*, %s *'` -/
def checkColumn (column : CString) : Bool :=
  match db table with
  | none => false
  | some there => (search (columnAnchor column) (there.sql table)).isSome

def checkTable : Bool :=
  (db table).isSome

def insertColumn (column : Column) : Mydb :=
  Function.update db table
    ((db table).map fun there => { there with columns := there.columns ++ [column] })

/-- `table_sql.count(',', 0, table_sql.find(', %s' % column)) + 1`; where `find` returns -1 the
count leaves out the last character. -/
def columnIndex (column : CString) : Int :=
  match db table with
  | none => -1
  | some there =>
    match search (',' :: ' ' :: column) (there.sql table) with
    | some found => ((there.sql table).take found).count ',' + 1
    | none => (there.sql table).dropLast.count ',' + 1

/-- `select * from '%s' order by date desc`, and the first row of it. -/
def getLastRecord : Option Row :=
  (db table).bind fun there => firstDesc Row.date there.rows

/-- `for column in columns` -/
def insertColumns (db : Mydb) (table : Code) : List Column → Mydb
  | [] => db
  | column :: columns =>
    if db.checkColumn table column.name then insertColumns db table columns
    else insertColumns (db.insertColumn table column) table columns

/-- `subsql` is given as the columns it declares. -/
def checkTableAndCreat (columns subsql : List Column) : Mydb :=
  if db.checkTable table then db.insertColumns table columns
  else insertColumns (Function.update db table (some ⟨subsql, []⟩)) table columns

end Mydb

end Ct.Tushare
