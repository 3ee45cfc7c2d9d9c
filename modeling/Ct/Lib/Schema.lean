import Ct.Lib.CString
import Mathlib.Data.List.Basic

set_option autoImplicit false

namespace Ct.Lib

universe u

section Search

variable {α : Type u} [DecidableEq α]

/-- The offset at which `needle` first occurs. -/
def search (needle : List α) : List α → Option Nat
  | [] => if needle = [] then some 0 else none
  | c :: rest => if needle <+: c :: rest then some 0 else (search needle rest).map (· + 1)

theorem search_isSome_iff (needle text : List α) :
    (search needle text).isSome = true ↔ needle <:+: text := by
  induction text with
  | nil =>
    rw [List.infix_nil, search]
    split
    · rename_i empty
      exact iff_of_true rfl empty
    · rename_i some
      exact iff_of_false Bool.false_ne_true some
  | cons c text ih =>
    rw [List.infix_cons_iff, search]
    split
    · rename_i here
      exact iff_of_true rfl (Or.inl here)
    · rename_i apart
      rw [Option.isSome_map, ih, or_iff_right apart]

/-- How often `mark` stands before the first occurrence of `needle`. -/
def marksBefore (mark : α) (needle text : List α) : Option Nat :=
  (search needle text).map fun offset => (text.take offset).count mark

variable {mark : α} {needle text : List α}

theorem marksBefore_here (starts : needle <+: text) :
    marksBefore mark (mark :: needle) (mark :: text) = some 0 := by
  have found : mark :: needle <+: mark :: text := List.cons_prefix_cons.mpr ⟨rfl, starts⟩
  rw [marksBefore, search, if_pos found]
  rfl

theorem marksBefore_mark (apart : ¬ needle <+: text) :
    marksBefore mark (mark :: needle) (mark :: text) =
      (marksBefore mark (mark :: needle) text).map (· + 1) := by
  have missed : ¬ mark :: needle <+: mark :: text :=
    fun found => apart (List.cons_prefix_cons.mp found).2
  rw [marksBefore, search, if_neg missed, marksBefore]
  cases search (mark :: needle) text with
  | none => rfl
  | some offset => simp only [Option.map_some, List.take_succ_cons, List.count_cons_self]

theorem marksBefore_skip {c : α} (other : c ≠ mark) :
    marksBefore mark (mark :: needle) (c :: text) = marksBefore mark (mark :: needle) text := by
  have missed : ¬ mark :: needle <+: c :: text :=
    fun found => other (List.cons_prefix_cons.mp found).1.symm
  rw [marksBefore, search, if_neg missed, marksBefore]
  cases search (mark :: needle) text with
  | none => rfl
  | some offset =>
    simp only [Option.map_some, List.take_succ_cons, List.count_cons_of_ne other]

theorem marksBefore_append {front : List α} (outside : mark ∉ front) :
    marksBefore mark (mark :: needle) (front ++ text) =
      marksBefore mark (mark :: needle) text := by
  induction front with
  | nil => rfl
  | cons c front ih =>
    rw [List.cons_append, marksBefore_skip (List.ne_of_not_mem_cons outside).symm]
    exact ih (List.not_mem_of_not_mem_cons outside)

theorem marksBefore_absent (outside : mark ∉ text) :
    marksBefore mark (mark :: needle) text = none := by
  rw [← List.append_nil text, marksBefore_append outside]
  rfl

end Search

/-- Two words that end at the same blank. -/
theorem word_prefix_iff {α : Type u} {blank : α} {word other more : List α} (plain : blank ∉ word)
    (otherPlain : blank ∉ other) :
    word ++ [blank] <+: other ++ blank :: more ↔ word = other := by
  induction word generalizing other with
  | nil =>
    cases other with
    | nil => simp
    | cons c other =>
      have differs : blank ≠ c := List.ne_of_not_mem_cons otherPlain
      simp [differs]
  | cons d word ih =>
    cases other with
    | nil =>
      have differs : d ≠ blank := (List.ne_of_not_mem_cons plain).symm
      simp [differs]
    | cons c other =>
      rw [List.cons_append, List.cons_append, List.cons_prefix_cons, List.cons.injEq,
        ih (List.not_mem_of_not_mem_cons plain) (List.not_mem_of_not_mem_cons otherPlain)]

/-- What stands before a blank begins with a word without blanks. -/
theorem prefix_word_iff {α : Type u} {blank : α} {word other more : List α} (plain : blank ∉ word) :
    word <+: other ++ blank :: more ↔ word <+: other := by
  constructor
  · intro starts
    rcases List.prefix_or_prefix_of_prefix starts (List.prefix_append other (blank :: more)) with
      within | ⟨rest, rfl⟩
    · exact within
    · obtain ⟨after, same⟩ := starts
      rw [List.append_assoc] at same
      have rest_eq := List.append_cancel_left same
      cases rest with
      | nil => exact ⟨[], by simp⟩
      | cons c rest =>
        have first := (List.cons.inj rest_eq).1
        exact absurd (first ▸ List.mem_append_right other List.mem_cons_self) plain
  · rintro ⟨rest, rfl⟩
    exact ⟨rest ++ blank :: more, (List.append_assoc ..).symm⟩

/-- A column as a statement spells it. -/
structure Column where
  name : CString
  type : CString
  deriving DecidableEq, Repr

/-- `, name type` -/
def Column.text (column : Column) : CString :=
  ',' :: ' ' :: (column.name ++ ' ' :: column.type)

/-- `CREATE TABLE 'name' (first`; SQLite keeps the keywords in upper case. -/
def tableHead (name first : CString) : CString :=
  "CREATE TABLE '".toList ++ name ++ "' (".toList ++ first

/-- The text of a table that begins with `head` and goes on with these columns. -/
def schemaText (head : CString) (columns : List Column) : CString :=
  head ++ (columns.flatMap Column.text ++ [')'])

/-- `alter table .. add column` writes the column in front of the last parenthesis. -/
def alteredText (sql : CString) (column : Column) : CString :=
  sql.dropLast ++ column.text ++ [')']

theorem tableHead_comma {name first : CString} (plain : ',' ∉ name) (behind : ',' ∉ first) :
    ',' ∉ tableHead name first := by
  have create : ',' ∉ "CREATE TABLE '".toList := by decide
  have bracket : ',' ∉ "' (".toList := by decide
  intro inside
  rcases List.mem_append.mp inside with inside | inside
  · rcases List.mem_append.mp inside with inside | inside
    · rcases List.mem_append.mp inside with inside | inside
      · exact create inside
      · exact plain inside
    · exact bracket inside
  · exact behind inside

/-- A name without blanks and commas, and a type without commas. -/
structure Column.Plain (column : Column) : Prop where
  blank : ' ' ∉ column.name
  comma : ',' ∉ column.name
  type : ',' ∉ column.type

/-- `, name ` -/
def columnAnchor (name : CString) : CString :=
  ',' :: ' ' :: (name ++ [' '])

theorem marksBefore_columns {columns : List Column} (plain : ∀ column ∈ columns, column.Plain)
    {name tail : CString} (blank : ' ' ∉ name) (outside : ',' ∉ tail) :
    marksBefore ',' (columnAnchor name) (columns.flatMap Column.text ++ tail) =
      (columns.map Column.name).idxOf? name := by
  induction columns with
  | nil => exact marksBefore_absent outside
  | cons column columns ih =>
    have first := plain column List.mem_cons_self
    have within : ',' ∉ ' ' :: (column.name ++ ' ' :: column.type) := by
      simp [first.comma, first.type]
    have anchored : ' ' :: (name ++ [' ']) <+: ' ' :: (column.name ++ ' ' :: column.type) ++
        (columns.flatMap Column.text ++ tail) ↔ name = column.name := by
      rw [List.cons_append, List.cons_prefix_cons, List.append_assoc, List.cons_append,
        word_prefix_iff blank first.blank]
      exact and_iff_right rfl
    rw [List.flatMap_cons, List.append_assoc, Column.text, List.cons_append, columnAnchor,
      List.map_cons, List.idxOf?_cons]
    by_cases same : name = column.name
    · rw [marksBefore_here (anchored.mpr same), if_pos (by simp [same])]
    · rw [marksBefore_mark (fun found => same (anchored.mp found)), marksBefore_append within,
        if_neg (by simpa using Ne.symm same)]
      exact congrArg (Option.map (· + 1))
        (ih fun column member => plain column (List.mem_cons_of_mem _ member))

/-- Without the blank behind it, a name is found where a column's name begins with it. -/
theorem marksBefore_begins {columns : List Column} (plain : ∀ column ∈ columns, column.Plain)
    {name tail : CString} (blank : ' ' ∉ name) (outside : ',' ∉ tail) :
    marksBefore ',' (',' :: ' ' :: name) (columns.flatMap Column.text ++ tail) =
      (columns.map Column.name).findIdx? fun other => name <+: other := by
  induction columns with
  | nil => exact marksBefore_absent outside
  | cons column columns ih =>
    have first := plain column List.mem_cons_self
    have within : ',' ∉ ' ' :: (column.name ++ ' ' :: column.type) := by
      simp [first.comma, first.type]
    have anchored : ' ' :: name <+: ' ' :: (column.name ++ ' ' :: column.type) ++
        (columns.flatMap Column.text ++ tail) ↔ name <+: column.name := by
      rw [List.cons_append, List.cons_prefix_cons, List.append_assoc, List.cons_append,
        prefix_word_iff blank]
      exact and_iff_right rfl
    rw [List.flatMap_cons, List.append_assoc, Column.text, List.cons_append, List.map_cons,
      List.findIdx?_cons]
    by_cases begins : name <+: column.name
    · rw [marksBefore_here (anchored.mpr begins), if_pos (decide_eq_true begins)]
    · rw [marksBefore_mark (fun found => begins (anchored.mp found)), marksBefore_append within,
        if_neg (fun found => begins (of_decide_eq_true found))]
      exact congrArg (Option.map (· + 1))
        (ih fun column member => plain column (List.mem_cons_of_mem _ member))

/-- In the text of a table the commas in front of `, name ` count the columns before it. -/
theorem marksBefore_schemaText {head : CString} {columns : List Column} {name : CString}
    (outside : ',' ∉ head) (plain : ∀ column ∈ columns, column.Plain) (blank : ' ' ∉ name) :
    marksBefore ',' (columnAnchor name) (schemaText head columns) =
      (columns.map Column.name).idxOf? name := by
  rw [schemaText, columnAnchor, marksBefore_append outside]
  exact marksBefore_columns plain blank (by decide)

end Ct.Lib
