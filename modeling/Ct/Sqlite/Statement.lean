import Ct.Sqlite.Literals

set_option autoImplicit false

namespace Ct.Sqlite

open Ct.Lib

/-- A statement on one table. A column that it sets comes with the tokens of the value, as does
the column that picks the rows. -/
inductive Statement
  | insert (table : CString) (cells : List (CString × List Token))
  | update (table : CString) (cells : List (CString × List Token)) (key : CString)
      (value : List Token)
  | select (table : CString) (key : CString) (value : List Token)
  deriving DecidableEq

def whereWord : Token := word "where".toList

/-- A value that is one token. -/
def operandToken (token : Token) : Bool :=
  token.kind == .string || token.kind == .integer || token.kind == .float ||
    (token.kind == .word && token != whereWord)

/-- A value: a literal or a name, perhaps with a sign. -/
def operand : List Token → Bool
  | [token] => operandToken token
  | [sign, token] => sign == minus && operandToken token
  | _ => false

/-- What is in front of the first `stop`, and what is behind it. -/
def upTo (stop : Token) : List Token → Option (List Token × List Token)
  | [] => none
  | token :: rest =>
    if token = stop then some ([], rest)
    else (upTo stop rest).map fun (front, behind) => (token :: front, behind)

def readColumn : List Token → Option CString
  | [token] => if token.kind = .word then some token.text else none
  | _ => none

/-- `key = value ;` and no more. -/
def readCondition : List Token → Option (CString × List Token)
  | key :: sign :: rest =>
    match upTo semi rest with
    | some (value, []) =>
      if key.kind = .word ∧ sign = equals ∧ operand value then some (key.text, value) else none
    | _ => none
  | _ => none

/-- `column = value` -/
def readAssignment : List Token → Option (CString × List Token)
  | column :: sign :: value =>
    if column.kind = .word ∧ sign = equals ∧ operand value then some (column.text, value) else none
  | _ => none

/-- `table ( columns ) values ( values ) ;` -/
def readInsert : List Token → Option Statement
  | table :: opens :: rest =>
    match upTo rp rest with
    | some (columns, keyword :: again :: rest) =>
      match upTo rp rest, (columns.splitOn comma).mapM readColumn with
      | some (values, ends), some names =>
        let operands := values.splitOn comma
        if table.kind = .word ∧ opens = lp ∧ keyword = word "values".toList ∧ again = lp ∧
            ends = [semi] ∧ names.length = operands.length ∧ operands.all operand then
          some (.insert table.text (names.zip operands))
        else none
      | _, _ => none
    | _ => none
  | _ => none

/-- `table set assignments where condition ;` -/
def readUpdate : List Token → Option Statement
  | table :: keyword :: rest =>
    match upTo whereWord rest with
    | some (assignments, condition) =>
      match (assignments.splitOn comma).mapM readAssignment, readCondition condition with
      | some cells, some (key, value) =>
        if table.kind = .word ∧ keyword = word "set".toList then
          some (.update table.text cells key value)
        else none
      | _, _ => none
    | none => none
  | _ => none

/-- `* from table where condition ;` -/
def readSelect : List Token → Option Statement
  | all :: keyword :: table :: next :: rest =>
    match readCondition rest with
    | some (key, value) =>
      if all = star ∧ keyword = word "from".toList ∧ table.kind = .word ∧ next = whereWord then
        some (.select table.text key value)
      else none
    | none => none
  | _ => none

/-- The one statement that the tokens are, if they are a statement of these kinds. -/
def readStatement : List Token → Option Statement
  | first :: second :: rest =>
    if first = word "insert".toList ∧ second = word "into".toList then readInsert rest
    else if first = word "update".toList then readUpdate (second :: rest)
    else if first = word "select".toList then readSelect (second :: rest)
    else none
  | _ => none

section

variable {cells : List (CString × List Token)} {value : List Token}

theorem upTo_append (stop : Token) {front : List Token} (outside : stop ∉ front)
    (behind : List Token) : upTo stop (front ++ stop :: behind) = some (front, behind) := by
  induction front with
  | nil => exact if_pos rfl
  | cons token front ih =>
    have apart := List.ne_and_not_mem_of_not_mem_cons outside
    rw [List.cons_append, upTo, if_neg apart.1.symm, ih apart.2]
    rfl

theorem operandToken_outside {token : Token} (valid : operandToken token = true) :
    token ∉ [comma, rp, semi, whereWord] := by
  intro inside
  simp only [List.mem_cons, List.not_mem_nil, or_false] at inside
  rcases inside with rfl | rfl | rfl | rfl <;> exact absurd valid (by decide)

/-- No token that ends a value is part of one. -/
theorem operand_outside (valid : operand value = true) (stop : Token)
    (stops : stop ∈ [comma, rp, semi, whereWord]) : stop ∉ value := by
  unfold operand at valid
  split at valid
  · rename_i token
    intro inside
    rw [List.mem_singleton] at inside
    exact operandToken_outside (inside ▸ valid) stops
  · rename_i sign token
    simp only [Bool.and_eq_true, beq_iff_eq] at valid
    intro inside
    simp only [List.mem_cons, List.not_mem_nil, or_false] at inside
    rcases inside with rfl | rfl
    · rw [valid.1] at stops
      exact absurd stops (by decide)
    · exact operandToken_outside valid.2 stops
  · exact absurd valid (by decide)

theorem readCondition_tokens (key : CString) (valid : operand value = true) :
    readCondition (word key :: equals :: (value ++ [semi])) = some (key, value) := by
  have found := upTo_append semi (operand_outside valid semi (by decide)) []
  simp only [readCondition, found, valid, word_kind, word_text, and_self, if_true]

theorem not_mem_intercalate (stop : Token) {groups : List (List Token)} (other : stop ≠ comma)
    (outside : ∀ group ∈ groups, stop ∉ group) : stop ∉ [comma].intercalate groups := by
  induction groups with
  | nil => exact List.not_mem_nil
  | cons group groups ih =>
    have here := outside group List.mem_cons_self
    have later := ih fun group inside => outside group (List.mem_cons_of_mem _ inside)
    cases groups with
    | nil => simpa using here
    | cons next groups =>
      rw [List.intercalate_cons_cons]
      simp [here, later, other]

theorem values_outside (valid : ∀ cell ∈ cells, operand cell.2 = true) (stop : Token)
    (stops : stop ∈ [comma, rp, semi, whereWord]) : ∀ group ∈ cells.map Prod.snd, stop ∉ group := by
  intro group inside
  obtain ⟨cell, listed, rfl⟩ := List.mem_map.mp inside
  exact operand_outside (valid cell listed) stop stops

theorem columns_outside (stop : Token) (other : stop.kind ≠ .word) :
    ∀ group ∈ cells.map fun cell => [word cell.1], stop ∉ group := by
  intro group inside
  obtain ⟨cell, _, rfl⟩ := List.mem_map.mp inside
  intro same
  rw [List.mem_singleton.mp same] at other
  exact other rfl

theorem mapM_map {α β γ : Type} {spell : α → β} {read : β → Option γ} {value : α → γ} {xs : List α}
    (each : ∀ x ∈ xs, read (spell x) = some (value x)) :
    (xs.map spell).mapM read = some (xs.map value) := by
  induction xs with
  | nil => rfl
  | cons x xs ih =>
    have later := ih fun x inside => each x (List.mem_cons_of_mem _ inside)
    rw [List.map_cons, List.mapM_cons, each x List.mem_cons_self, later]
    rfl

theorem readColumns :
    (cells.map fun cell => [word cell.1]).mapM readColumn = some (cells.map Prod.fst) :=
  mapM_map fun _ _ => rfl

theorem readAssignments (valid : ∀ cell ∈ cells, operand cell.2 = true) :
    (cells.map fun cell => word cell.1 :: equals :: cell.2).mapM readAssignment = some cells := by
  have each : (cells.map fun cell => word cell.1 :: equals :: cell.2).mapM readAssignment =
      some (cells.map id) :=
    mapM_map fun cell inside => if_pos ⟨rfl, rfl, valid cell inside⟩
  rwa [List.map_id] at each

theorem assignments_outside (valid : ∀ cell ∈ cells, operand cell.2 = true) (stop : Token)
    (stops : stop ∈ [comma, rp, semi, whereWord]) (names : ∀ cell ∈ cells, stop ≠ word cell.1) :
    ∀ group ∈ cells.map fun cell => word cell.1 :: equals :: cell.2, stop ∉ group := by
  intro group inside
  obtain ⟨cell, listed, rfl⟩ := List.mem_map.mp inside
  have other : stop ≠ equals := by
    rintro rfl
    exact absurd stops (by decide)
  simp only [List.mem_cons, names cell listed, other, operand_outside (valid cell listed) stop stops,
    or_self, not_false_eq_true]

end

namespace Statement

/-- The tokens that spell a statement. -/
def tokens : Statement → List Token
  | insert table cells =>
    word "insert".toList :: word "into".toList :: word table :: lp ::
      ([comma].intercalate (cells.map fun cell => [word cell.1]) ++
        rp :: word "values".toList :: lp ::
          ([comma].intercalate (cells.map Prod.snd) ++ [rp, semi]))
  | update table cells key value =>
    word "update".toList :: word table :: word "set".toList ::
      ([comma].intercalate (cells.map fun cell => word cell.1 :: equals :: cell.2) ++
        whereWord :: word key :: equals :: (value ++ [semi]))
  | select table key value =>
    word "select".toList :: star :: word "from".toList :: word table :: whereWord ::
      word key :: equals :: (value ++ [semi])

/-- A column is named like no keyword, and each value is one. -/
def Plain : Statement → Prop
  | insert _ cells => cells ≠ [] ∧ ∀ cell ∈ cells, operand cell.2 = true
  | update _ cells _ value =>
    cells ≠ [] ∧ (∀ cell ∈ cells, cell.1 ≠ "where".toList ∧ operand cell.2 = true) ∧
      operand value = true
  | select _ _ value => operand value = true

theorem read_tokens {statement : Statement} (plain : statement.Plain) :
    readStatement statement.tokens = some statement := by
  cases statement with
  | insert table cells =>
    obtain ⟨nonempty, valid⟩ := plain
    have columns : ∀ group ∈ cells.map fun cell => [word cell.1], comma ∉ group :=
      columns_outside comma (by decide)
    have values := values_outside valid comma (by decide)
    have names := List.splitOn_intercalate comma columns (by simpa using nonempty)
    have operands := List.splitOn_intercalate comma values (by simpa using nonempty)
    have closes : rp ∉ [comma].intercalate (cells.map fun cell => [word cell.1]) :=
      not_mem_intercalate rp (by decide) (columns_outside rp (by decide))
    have first := upTo_append rp closes
    have second := upTo_append rp (not_mem_intercalate rp (by decide)
      (values_outside valid rp (by decide))) [semi]
    have all : (cells.map Prod.snd).all operand = true := by
      simpa using fun name value inside => valid (name, value) inside
    show readInsert (word table :: lp :: (_ ++ rp :: word _ :: lp :: (_ ++ [rp, semi]))) = _
    simp only [readInsert, first, second, names, operands, readColumns, all, List.length_map,
      word_kind, word_text, and_self, if_true, List.zip_map', List.map_id']
  | update table cells key value =>
    obtain ⟨nonempty, valid, last⟩ := plain
    have each := fun cell inside => (valid cell inside).2
    have apart := assignments_outside each comma (by decide) fun _ _ => by
      simp [comma, word]
    have before := assignments_outside each whereWord (by decide)
      fun cell inside same => (valid cell inside).1 (congrArg Token.text same).symm
    have split := List.splitOn_intercalate comma apart (by simpa using nonempty)
    have found := upTo_append whereWord (not_mem_intercalate whereWord (by decide) before)
      (word key :: equals :: (value ++ [semi]))
    show readUpdate (word table :: word "set".toList :: (_ ++ whereWord :: _)) = _
    simp only [readUpdate, found, split, readAssignments each, readCondition_tokens key last,
      word_kind, word_text, and_self, if_true]
  | select table key value =>
    have condition := readCondition_tokens key plain
    show readSelect (star :: word "from".toList :: word table :: whereWord ::
      word key :: equals :: (value ++ [semi])) = _
    simp only [readSelect, condition]
    rfl

end Statement

end Ct.Sqlite
