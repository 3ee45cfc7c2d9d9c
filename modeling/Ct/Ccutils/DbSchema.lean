import Ct.Ccutils.Db
import Mathlib.Data.List.Nodup

set_option autoImplicit false

namespace Ct.Ccutils.Db

open Ct.Lib

variable {accepts : Statement → Bool} {db : Database} {tbl : CString}

/-- The table has been made of these columns, behind `id`, by `create table` and `alter table`. -/
def Database.MadeOf (db : Database) (tbl : CString) (columns : List Column) : Prop :=
  db.tables tbl = some (createdTable tbl columns)

/-- The loop counts the commas in front of the anchor. -/
theorem indexLoop_eq (text : CString) (anchor : Nat) (index : Int) :
    indexLoop text anchor index = index + (text.take anchor).count ',' := by
  induction text generalizing anchor index with
  | nil =>
    cases anchor with
    | zero => simp [indexLoop]
    | succ left => simp [indexLoop]
  | cons c text ih =>
    cases anchor with
    | zero => simp [indexLoop]
    | succ left =>
      rw [indexLoop, ih, List.take_succ_cons, List.count_cons]
      by_cases comma : c = ','
      · simp only [comma, ↓reduceIte, beq_self_eq_true]
        omega
      · simp [comma]

/-- The return value for a column with so many others between `id` and it, or for none. -/
def indexOf : Option Nat → Int
  | none => -1
  | some before => 1 + before

theorem dbColumnIndex_eq {table : Table} (there : db.tables tbl = some table) (column : CString) :
    dbColumnIndex db tbl column =
      .ok (indexOf (marksBefore ',' (columnAnchor column) table.sql)) := by
  rw [dbColumnIndex, dbGetAcellStr, there, marksBefore]
  cases found : search (columnAnchor column) table.sql with
  | none => simp only [Option.map_some, found, Option.map_none, indexOf]
  | some anchor => simp only [Option.map_some, found, indexLoop_eq, indexOf]

section MadeOf

variable {columns : List Column} (table : ',' ∉ tbl) (made : db.MadeOf tbl columns)
  (plain : ∀ column ∈ columns, column.Plain)

include table made plain

end MadeOf

end Ct.Ccutils.Db
