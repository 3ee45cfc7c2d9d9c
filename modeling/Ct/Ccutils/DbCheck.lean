import Ct.Ccutils.DbSchema

set_option autoImplicit false

namespace Ct.Ccutils.Db

open Ct.Lib

variable {accepts : Statement → Bool} {db : Database} {tbl : CString} {column : Column}

/-- There is such a table, and it has a column of this name. -/
def Database.Has (db : Database) (tbl name : CString) : Prop :=
  ∃ table, db.tables tbl = some table ∧ name ∈ table.columns

/-- What the comments promise: a positive value where the table has the column in the end, a
negative one where it has not, and `-1` from `db_column_index` where there is no table. -/
structure Contract (accepts : Statement → Bool) (db : Database) (tbl : CString)
    (column : Column) : Prop where
  check : ∃ idx after, dbColumnCheck accepts db tbl column = .ok (idx, after) ∧
    (0 < idx ↔ after.Has tbl column.name) ∧ (idx < 0 ↔ ¬ after.Has tbl column.name)
  index : db.tables tbl = none → dbColumnIndex db tbl column.name = .ok (-1)

/-- There is a table, its text shows the column if and only if it has it, and SQLite refuses to
add one that it has not. -/
def Shown (accepts : Statement → Bool) (db : Database) (tbl : CString) (column : Column) : Prop :=
  ∃ table, db.tables tbl = some table ∧
    ((search (columnAnchor column.name) table.sql).isSome ↔ column.name ∈ table.columns) ∧
    (column.name ∈ table.columns ∨ accepts (.alterTable tbl column) = false)

section Outcomes

variable {table : Table}

theorem Database.has_iff (there : db.tables tbl = some table) (name : CString) :
    db.Has tbl name ↔ name ∈ table.columns := by
  simp only [Database.Has, there, Option.some_inj, exists_eq_left']

theorem dbColumnCheck_shown (accepts : Statement → Bool) (there : db.tables tbl = some table)
    (shown : (search (columnAnchor column.name) table.sql).isSome) :
    ∃ idx, dbColumnCheck accepts db tbl column = .ok (idx, db) ∧ 0 < idx := by
  obtain ⟨anchor, found⟩ := Option.isSome_iff_exists.mp shown
  have index := dbColumnIndex_eq there column.name
  rw [marksBefore, found, Option.map_some, indexOf] at index
  have positive : (0 : Int) < 1 + ((table.sql.take anchor).count ',' : Nat) := by omega
  refine ⟨_, ?_, positive⟩
  simp only [dbColumnCheck, index]
  rw [if_neg (by omega)]

theorem dbColumnCheck_hidden (accepts : Statement → Bool) (there : db.tables tbl = some table)
    (hidden : ¬ (search (columnAnchor column.name) table.sql).isSome) :
    dbColumnCheck accepts db tbl column =
      .ok (-1, (dbExec accepts db (.alterTable tbl column)).2) := by
  have index := dbColumnIndex_eq there column.name
  rw [marksBefore, Option.not_isSome_iff_eq_none.mp hidden, Option.map_none, indexOf] at index
  simp only [dbColumnCheck, index]
  rw [if_pos (by decide)]

/-- After the statement the table has the column, if it had it or SQLite accepts it. -/
theorem dbExec_has (there : db.tables tbl = some table) :
    (dbExec accepts db (.alterTable tbl column)).2.Has tbl column.name ↔
      column.name ∈ table.columns ∨ accepts (.alterTable tbl column) = true := by
  by_cases allowed : column.name ∉ table.columns ∧ accepts (.alterTable tbl column) = true
  · have altered : (dbExec accepts db (.alterTable tbl column)).2.tables tbl =
        some (alteredTable table column) := by
      simp only [dbExec, there, if_pos allowed, Function.update_self]
    rw [Database.has_iff altered]
    apply iff_of_true
    · exact List.mem_append_right _ (List.mem_singleton_self _)
    · exact Or.inr allowed.2
  · have same : (dbExec accepts db (.alterTable tbl column)).2.tables tbl = some table := by
      simp only [dbExec, there, if_neg allowed]
    rw [Database.has_iff same]
    constructor
    · exact Or.inl
    · rintro (listed | accepted)
      · exact listed
      · by_contra missing
        exact allowed ⟨missing, accepted⟩

theorem contract_of_ok {idx : Int} {after : Database} (there : db.tables tbl = some table)
    (checked : dbColumnCheck accepts db tbl column = .ok (idx, after)) :
    Contract accepts db tbl column ↔
      (0 < idx ↔ after.Has tbl column.name) ∧ (idx < 0 ↔ ¬ after.Has tbl column.name) := by
  constructor
  · rintro ⟨⟨idx', after', checked', promised⟩, _⟩
    rw [checked] at checked'
    cases checked'
    exact promised
  · intro promised
    refine ⟨⟨idx, after, checked, promised⟩, fun absent => ?_⟩
    rw [there] at absent
    cases absent

/-- The contract for a table that is there. -/
theorem contract_of_table (there : db.tables tbl = some table) :
    Contract accepts db tbl column ↔
      ((search (columnAnchor column.name) table.sql).isSome ↔ column.name ∈ table.columns) ∧
      (column.name ∈ table.columns ∨ accepts (.alterTable tbl column) = false) := by
  by_cases shown : (search (columnAnchor column.name) table.sql).isSome
  · obtain ⟨idx, checked, positive⟩ := dbColumnCheck_shown accepts there shown
    have natural : ¬ idx < 0 := by omega
    rw [contract_of_ok there checked, Database.has_iff there]
    constructor
    · rintro ⟨found, _⟩
      exact ⟨iff_of_true shown (found.mp positive), Or.inl (found.mp positive)⟩
    · rintro ⟨listed, _⟩
      exact ⟨iff_of_true positive (listed.mp shown),
        iff_of_false natural (fun missing => missing (listed.mp shown))⟩
  · have checked := dbColumnCheck_hidden accepts there shown
    rw [contract_of_ok there checked, dbExec_has there]
    constructor
    · rintro ⟨found, _⟩
      have nowhere : ¬ (column.name ∈ table.columns ∨ accepts (.alterTable tbl column) = true) :=
        fun has => absurd (found.mpr has) (by decide)
      obtain ⟨missing, refused⟩ := not_or.mp nowhere
      exact ⟨iff_of_false shown missing, Or.inr (Bool.eq_false_iff.mpr refused)⟩
    · rintro ⟨listed, refused⟩
      have missing : column.name ∉ table.columns := fun member => shown (listed.mpr member)
      have nowhere : ¬ (column.name ∈ table.columns ∨ accepts (.alterTable tbl column) = true) := by
        rintro (member | accepted)
        · exact missing member
        · rw [refused.resolve_left missing] at accepted
          cases accepted
      exact ⟨iff_of_false (by decide) nowhere, iff_of_true (by decide) nowhere⟩

end Outcomes

/-- Where `db_table_check` has made the table, the contract is kept for its columns other than `id`
and for those that SQLite refuses. -/
theorem contract_of_made {columns : List Column} (table : ',' ∉ tbl) (made : db.MadeOf tbl columns)
    (plain : ∀ column ∈ columns, column.Plain) (blank : ' ' ∉ column.name) :
    Contract accepts db tbl column ↔ column.name ∈ columns.map Column.name ∨
      column.name ≠ "id".toList ∧ accepts (.alterTable tbl column) = false := by
  have shown : (search (columnAnchor column.name) (createdTable tbl columns).sql).isSome ↔
      column.name ∈ columns.map Column.name := by
    have marks : marksBefore ',' (columnAnchor column.name) (createdTable tbl columns).sql =
        (columns.map Column.name).idxOf? column.name :=
      marksBefore_schemaText (tableHead_comma table (by decide)) plain blank
    rw [← List.isSome_idxOf?, ← marks, marksBefore, Option.isSome_map]
  rw [contract_of_table made, shown]
  have listed : column.name ∈ (createdTable tbl columns).columns ↔
      column.name = "id".toList ∨ column.name ∈ columns.map Column.name := List.mem_cons
  rw [listed]
  constructor
  · rintro ⟨same, (first | later) | refused⟩
    · exact Or.inl (same.mpr (Or.inl first))
    · exact Or.inl later
    · by_cases first : column.name = "id".toList
      · exact Or.inl (same.mpr (Or.inl first))
      · exact Or.inr ⟨first, refused⟩
  · rintro (later | ⟨other, refused⟩)
    · exact ⟨iff_of_true later (Or.inr later), Or.inl (Or.inr later)⟩
    · refine ⟨?_, Or.inr refused⟩
      rw [or_iff_right other]

end Ct.Ccutils.Db
