import Ct.Lib.Fault
import Ct.Lib.Schema
import Ct.Sqlite.Statement
import Mathlib.Data.List.Nodup

set_option autoImplicit false

namespace Ct.Stocks

open Ct.Lib Ct.Sqlite

/-- A `char` array of this size, by the string in it. -/
abbrev CharArray (size : Nat) := { s : CString // s.length < size }

/-- `struct hist_data` -/
structure HistData where
  id : Int
  code : CharArray 8
  name : CharArray 16
  date : CharArray 16
  action : CharArray 16
  price : CFloat
  volume : Int
  counterFee : CFloat
  stampTax : CFloat
  transferFee : CFloat

/-- The `cols` of `stock_database_init`. -/
def historyColumns : List Column :=
  [⟨"code".toList, "varchar(32)".toList⟩, ⟨"name".toList, "varchar(32)".toList⟩,
    ⟨"date".toList, "varchar(32)".toList⟩, ⟨"action".toList, "varchar(32)".toList⟩,
    ⟨"price".toList, "float".toList⟩, ⟨"volume".toList, "integer".toList⟩,
    ⟨"counter_fee".toList, "float".toList⟩, ⟨"stamp_tax".toList, "float".toList⟩,
    ⟨"transfer_fee".toList, "float".toList⟩]

/-- The text that `stock_insert_record` prints. -/
def insertSql (d : HistData) : CString :=
  "insert into history (code, name, date, action,".toList ++
  "price, volume, counter_fee, stamp_tax, transfer_fee)".toList ++
  "values ('".toList ++ d.code.1 ++ "', '".toList ++ d.name.1 ++ "', '".toList ++ d.date.1 ++
  "', '".toList ++ d.action.1 ++ "', ".toList ++ floatText d.price ++ ", ".toList ++
  intText d.volume ++ ", ".toList ++ floatText d.counterFee ++ ", ".toList ++
  floatText d.stampTax ++ ", ".toList ++ floatText d.transferFee ++ ");".toList

/-- The text that `stock_update_record` prints. -/
def updateSql (d : HistData) : CString :=
  "update history set code = '".toList ++ d.code.1 ++ "', name = '".toList ++ d.name.1 ++
  "', date = '".toList ++ d.date.1 ++ "', action = '".toList ++ d.action.1 ++ "', ".toList ++
  "price = ".toList ++ floatText d.price ++ ", volume = ".toList ++ intText d.volume ++
  ", counter_fee = ".toList ++ floatText d.counterFee ++ ", stamp_tax = ".toList ++
  floatText d.stampTax ++ ", transfer_fee = ".toList ++ floatText d.transferFee ++ " ".toList ++
  "where id = ".toList ++ intText d.id ++ ";".toList

/-- The text that `stock_get_record_byid` prints. -/
def selectSql (id : Int) : CString :=
  "select * from history where id = ".toList ++ intText id ++ ";".toList

/-- A row of `history`: its id, and what a query returns for each of the other columns, with
`none` for a null. -/
structure Row where
  id : Int
  cells : List (CString × Option CString)

/-- The table `history`. Its id is `autoincrement`: `seq` is the largest one given so far. -/
structure History where
  rows : List Row
  seq : Int
  bounded : ∀ row ∈ rows, row.id ≤ seq
  distinct : (rows.map Row.id).Nodup

/-- The number that a value spells. -/
def valueInt : List Token → Option Int
  | [token] => if token.kind = .integer then some (Nat.ofDigitChars 10 token.text 0) else none
  | [sign, token] =>
    if sign = minus ∧ token.kind = .integer then some (-(Nat.ofDigitChars 10 token.text 0 : Int))
    else none
  | _ => none

/-- The rows that a condition on the id picks. -/
def picks (key : CString) (value : List Token) (row : Row) : Bool :=
  key == "id".toList && valueInt value == some row.id

section

-- what a query returns for a value that is not text
variable (render : Column → List Token → CString)

/-- What a query returns for a stored value: a string literal in a text column is kept. -/
def cellText (column : Column) (value : List Token) : CString :=
  match value with
  | [token] =>
    if token.kind = .string ∧ column.type = "varchar(32)".toList then dequote token.text
    else render column value
  | _ => render column value

def insertedCells (cells : List (CString × List Token)) : List (CString × Option CString) :=
  historyColumns.map fun column =>
    (column.name, (cells.lookup column.name).map (cellText render column))

/-- A column that the statement does not set keeps what it has. -/
def updatedCells (cells : List (CString × List Token)) (row : Row) :
    List (CString × Option CString) :=
  historyColumns.map fun column =>
    (column.name,
      match cells.lookup column.name with
      | some value => some (cellText render column value)
      | none => (row.cells.lookup column.name).join)

def insertRow (cells : List (CString × List Token)) (db : History) : History where
  rows := db.rows ++ [⟨db.seq + 1, insertedCells render cells⟩]
  seq := db.seq + 1
  bounded := by
    intro row inside
    rcases List.mem_append.mp inside with old | new
    · have := db.bounded row old
      omega
    · obtain rfl := List.mem_singleton.mp new
      exact Int.le_refl _
  distinct := by
    rw [List.map_append]
    refine List.nodup_append.mpr ⟨db.distinct, List.nodup_singleton _, ?_⟩
    intro id old new fresh same
    obtain ⟨row, inside, rfl⟩ := List.mem_map.mp old
    have below := db.bounded row inside
    have last := List.mem_singleton.mp fresh
    dsimp only at last
    omega

def updateRow (cells : List (CString × List Token)) (key : CString) (value : List Token)
    (row : Row) : Row :=
  if picks key value row then { row with cells := updatedCells render cells row } else row

theorem updateRow_id (cells : List (CString × List Token)) (key : CString) (value : List Token)
    (row : Row) : (updateRow render cells key value row).id = row.id := by
  unfold updateRow
  split <;> rfl

def updateRows (cells : List (CString × List Token)) (key : CString) (value : List Token)
    (db : History) : History where
  rows := db.rows.map (updateRow render cells key value)
  seq := db.seq
  bounded := by
    intro row inside
    obtain ⟨old, listed, rfl⟩ := List.mem_map.mp inside
    rw [updateRow_id]
    exact db.bounded old listed
  distinct := by
    have same : Row.id ∘ updateRow render cells key value = Row.id :=
      funext fun row => updateRow_id render cells key value row
    rw [List.map_map, same]
    exact db.distinct

/-- What a statement that SQLite carries out makes of the table; no statement here sets an id. -/
def execute (statement : Statement) (db : History) : History :=
  match statement with
  | .insert _ cells => insertRow render cells db
  | .update _ cells key value => updateRows render cells key value db
  | .select _ _ _ => db

/-- `db_exec` of a text that is one statement about this table, where SQLite carries it out. -/
def dbExec (sql : CString) (db : History) : Option History :=
  (readStatement (tokenize sql)).map fun statement => execute render statement db

def stockInsertRecord (d : HistData) (db : History) : Option History :=
  dbExec render (insertSql d) db

def stockUpdateRecord (d : HistData) (db : History) : Option History :=
  dbExec render (updateSql d) db

end

/-- `stock_get_record_byid`; a callback gets the cells of a row with their names. -/
def stockGetRecordById {α : Type} (id : Int)
    (cb : α → List (CString × Option CString) → Except Fault α) (param : α) (db : History) :
    Option (Except Fault α) :=
  match readStatement (tokenize (selectSql id)) with
  | some (.select _ key value) =>
    some ((db.rows.filter (picks key value)).foldlM
      (fun param row => cb param (("id".toList, some (intText row.id)) :: row.cells)) param)
  | _ => none

end Ct.Stocks
