import Ct.Tushare.Mydb

set_option autoImplicit false

namespace Ct.Tushare

open Ct.Lib

/-- What `ts.get_hist_data` does: it raises an exception, returns `None`, or returns a frame with
these rows. -/
inductive HistData
  | raises
  | none
  | frame (rows : List Row)

/-- `ts.get_hist_data` -/
abbrev GetHistData := CString → Date → HistData

def dbcols : List Column :=
  ["open", "high", "close", "low", "volume", "price_change", "p_change", "ma5", "ma10", "ma20",
    "v_ma5", "v_ma10", "v_ma20", "turnover"].map fun name => ⟨name.toList, "float".toList⟩

/-- `, date varchar(32) unique` -/
def subsql : List Column :=
  [⟨"date".toList, "varchar(32) unique".toList⟩]

/-- `get_last_valid_date`, unless it raises an exception; `start` is the date 30 days ago. -/
def getLastValidDate (getHistData : GetHistData) (start : Date) : Option (Option Date) :=
  match getHistData "sh".toList start with
  | .raises => none
  | .none => some none
  | .frame rows => some (rows.head?.map Row.date)

def getLastUpdateDate (db : Mydb) (code : Code) : Option Date :=
  (db.getLastRecord code).bind fun data => data.texts[(db.columnIndex code "date".toList - 1).toNat]?

/-- `insert into '%s' values (NULL, '%s', %f, ..)` of the date and the 14 values, which the unique
column can refuse. -/
def insertRow (table : Table) (row : Row) : Option Table :=
  if table.columns.length = 15 ∧ ∀ old ∈ table.rows, old.date ≠ row.date then
    some { table with rows := table.rows ++ [row] }
  else none

/-- `for i in range(len(df))[::-1]` -/
def insertRows : Table → List Row → Option Table
  | table, [] => some table
  | table, row :: rows => (insertRow table row).bind fun table => insertRows table rows

/-- The request for one stock and its inserts up to the `commit`, unless one of them raises an
exception. -/
def pull (getHistData : GetHistData) (db : Mydb) (code : Code) (start : Date) : Option Mydb :=
  match getHistData code.val start with
  | .raises => none
  | .none => none
  | .frame df =>
    (db code).bind fun table =>
      (insertRows table df.reverse).map fun table => Function.update db code (some table)

/-- What is left of a run: what has been committed, the requests it has made, and whether it has
come to its end. -/
structure Outcome where
  db : Mydb
  requests : List (Code × Date)
  completed : Bool

/-- `for code in allstocks.index` -/
def syncLoop (getHistData : GetHistData) (lastValidDate : Option Date) :
    List Code → Date → Mydb → Outcome
  | [], _, db => ⟨db, [], true⟩
  | code :: allstocks, start, db =>
    let db := db.checkTableAndCreat code dbcols subsql
    let lastUpdateDate := getLastUpdateDate db code
    if lastUpdateDate ≠ none ∧ lastUpdateDate = lastValidDate then
      syncLoop getHistData lastValidDate allstocks start db
    else
      -- a stored date also replaces `start` for the stocks behind
      let start := lastUpdateDate.getD start
      match pull getHistData db code start with
      | none => ⟨db, [(code, start)], false⟩
      | some db =>
        let outcome := syncLoop getHistData lastValidDate allstocks start db
        { outcome with requests := (code, start) :: outcome.requests }

/-- `sync`, when `get_last_valid_date` and `ts.get_stock_basics` have returned. -/
def sync (getHistData : GetHistData) (lastValidDate : Option Date) (allstocks : List Code)
    (start : Date) (db : Mydb) : Outcome :=
  syncLoop getHistData lastValidDate allstocks start db

end Ct.Tushare
