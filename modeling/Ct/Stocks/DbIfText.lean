import Ct.Sqlite.Quotes
import Ct.Stocks.Ui

set_option autoImplicit false

namespace Ct.Stocks

open Ct.Lib Ct.Sqlite

theorem signed_operand (negative : Bool) {token : Token} (valid : operandToken token = true) :
    operand (signTokens negative ++ [token]) = true := by
  cases negative with
  | false => exact valid
  | true => exact (Bool.and_eq_true _ _).mpr ⟨rfl, valid⟩

theorem intTokens_operand (x : Int) : operand (intTokens x) = true :=
  signed_operand _ rfl

theorem floatTokens_operand (f : CFloat) : operand (floatTokens f) = true := by
  cases f with
  | finite negative mantissa exponent => exact signed_operand _ rfl
  | inf negative => exact signed_operand _ (by decide)
  | nan negative => exact signed_operand _ (by decide)

/-- The columns that both statements set, and their values. -/
def recordCells (d : HistData) : List (CString × List Token) :=
  [("code".toList, [⟨.string, literal d.code.1⟩]), ("name".toList, [⟨.string, literal d.name.1⟩]),
    ("date".toList, [⟨.string, literal d.date.1⟩]),
    ("action".toList, [⟨.string, literal d.action.1⟩]), ("price".toList, floatTokens d.price),
    ("volume".toList, intTokens d.volume), ("counter_fee".toList, floatTokens d.counterFee),
    ("stamp_tax".toList, floatTokens d.stampTax),
    ("transfer_fee".toList, floatTokens d.transferFee)]

/-- The four strings of a record. -/
def texts (d : HistData) : List CString :=
  [d.code.1, d.name.1, d.date.1, d.action.1]

/-- No single quote in any of the four strings. -/
def QuoteFree (d : HistData) : Prop :=
  ∀ text ∈ texts d, '\'' ∉ text

/-- The values of a record as both statements print them. -/
def valueTexts (d : HistData) : List CString :=
  [literal d.code.1, literal d.name.1, literal d.date.1, literal d.action.1, floatText d.price,
    intText d.volume, floatText d.counterFee, floatText d.stampTax, floatText d.transferFee]

theorem literal_free {v : CString} (free : '\'' ∉ v) : literal v = '\'' :: (v ++ ['\'']) := by
  rw [literal, doubled_free free]

section

variable (d : HistData)

theorem values_piece :
    ∀ piece ∈ (valueTexts d).zip ((recordCells d).map Prod.snd), Piece piece.1 piece.2 := by
  simp only [valueTexts, recordCells, List.map_cons, List.map_nil, List.zip_cons_cons,
    List.zip_nil_left, List.forall_mem_cons, Piece.literal, Piece.floatText, Piece.int,
    List.not_mem_nil, false_implies, implies_true, and_self]

theorem columns_piece :
    Piece "code, name, date, action,price, volume, counter_fee, stamp_tax, transfer_fee".toList
      ([comma].intercalate ((recordCells d).map fun cell => [word cell.1])) := by
  have fees := Piece.comma (Piece.word "counter_fee".toList rfl) <|
    Piece.comma (Piece.word "stamp_tax".toList rfl)
      (Piece.word "transfer_fee".toList rfl)
  have numbers := Piece.comma (Piece.word "price".toList rfl) <|
    Piece.comma (Piece.word "volume".toList rfl) fees
  have behind := Piece.comma (Piece.word "date".toList rfl) <|
    Piece.tight (Piece.word "action".toList rfl) numbers
  have whole := Piece.comma (Piece.word "code".toList rfl) <|
    Piece.comma (Piece.word "name".toList rfl) behind
  simpa only [String.reduceToList, List.cons_append, List.nil_append, List.append_assoc,
    recordCells, List.map_cons, List.map_nil, List.intercalate_cons_cons,
    List.intercalate_singleton] using whole

/-- `column = value` for each column. -/
def assignments : List (CString × List Token) :=
  (recordCells d).zipWith
    (fun cell text => (cell.1 ++ " = ".toList ++ text, word cell.1 :: equals :: cell.2))
    (valueTexts d)

theorem assignments_piece : ∀ piece ∈ assignments d, Piece piece.1 piece.2 := by
  have text (name v : CString) (valid : identifier name = true) :
      Piece (name ++ " = ".toList ++ literal v) (word name :: equals :: [⟨.string, literal v⟩]) :=
    (Piece.word name valid).assign (Piece.literal v)
  have float (name : CString) (f : CFloat) (valid : identifier name = true) :
      Piece (name ++ " = ".toList ++ floatText f) (word name :: equals :: floatTokens f) :=
    (Piece.word name valid).assign (Piece.floatText f)
  have int (name : CString) (x : Int) (valid : identifier name = true) :
      Piece (name ++ " = ".toList ++ intText x) (word name :: equals :: intTokens x) :=
    (Piece.word name valid).assign (Piece.int x)
  simp only [assignments, recordCells, valueTexts, List.zipWith_cons_cons, List.zipWith_nil_left,
    List.forall_mem_cons, List.not_mem_nil, false_implies, implies_true, and_true]
  exact ⟨text _ _ rfl, text _ _ rfl, text _ _ rfl, text _ _ rfl, float _ _ rfl, int _ _ rfl,
    float _ _ rfl, float _ _ rfl, float _ _ rfl⟩

theorem recordCells_operand : ∀ cell ∈ recordCells d, operand cell.2 = true := by
  simp only [recordCells, List.forall_mem_cons, intTokens_operand, floatTokens_operand,
    List.not_mem_nil, false_implies, implies_true, and_true]
  exact ⟨rfl, rfl, rfl, rfl⟩

/-- What the text of `stock_insert_record` says if no string disturbs it. -/
def insertStatement : Statement :=
  .insert "history".toList (recordCells d)

def updateStatement : Statement :=
  .update "history".toList (recordCells d) "id".toList (intTokens d.id)

variable {d}

theorem insertSql_eq (free : QuoteFree d) : insertSql d =
    "insert".toList ++ ' ' :: ("into".toList ++ ' ' :: ("history".toList ++ ' ' :: '(' ::
      ("code, name, date, action,price, volume, counter_fee, stamp_tax, transfer_fee".toList ++
        ')' :: ("values".toList ++ ' ' :: '(' ::
          (", ".toList.intercalate (valueTexts d) ++ ')' :: [';']))))) := by
  simp only [QuoteFree, texts, List.forall_mem_cons] at free
  obtain ⟨code, name, date, action, _⟩ := free
  unfold insertSql
  simp only [valueTexts, List.intercalate_cons_cons, List.intercalate_singleton,
    literal_free code, literal_free name, literal_free date, literal_free action,
    List.append_assoc, List.cons_append, List.nil_append, String.reduceToList]

theorem lexed_insertSql (free : QuoteFree d) : Lexed (insertSql d) (insertStatement d).tokens := by
  rw [insertSql_eq free]
  have values := Piece.joined (by simp [valueTexts, recordCells]) (values_piece d)
  rw [List.map_fst_zip (by simp [valueTexts, recordCells]),
    List.map_snd_zip (by simp [valueTexts, recordCells])] at values
  have head := Piece.spaced (Piece.word "insert".toList rfl)
    (Piece.spaced (Piece.word "into".toList rfl) (Piece.word "history".toList rfl))
  have ends : Lexed [';'] [semi] := Lexed.first 1 Lexed.nil
  have listed := values.lexed ')' (by decide) _ _ ends.closed
  have keyword := (Piece.word "values".toList rfl).lexed ' ' (by decide) _ _ listed.opened
  have named := (columns_piece d).lexed ')' (by decide) _ _ keyword.closed
  have whole := head.lexed ' ' (by decide) _ _ named.opened
  simpa [Statement.tokens, insertStatement] using whole

theorem lexed_selectSql (id : Int) : Lexed (selectSql id)
    (Statement.select "history".toList "id".toList (intTokens id)).tokens := by
  have star_piece : Piece ['*'] [star] := Piece.token rfl (by decide) fun _ _ _ => rfl
  have condition := Piece.assign (Piece.word "id".toList rfl) (Piece.int id)
  have table := Piece.spaced (Piece.word "from".toList rfl) <|
    Piece.spaced (Piece.word "history".toList rfl) <|
      Piece.spaced (Piece.word "where".toList rfl) condition
  have all := (Piece.spaced (Piece.word "select".toList rfl) (Piece.spaced star_piece table)).ended
  unfold selectSql
  simpa [Statement.tokens, whereWord] using all

theorem updateSql_eq (free : QuoteFree d) : updateSql d =
    "update".toList ++ ' ' :: ("history".toList ++ ' ' :: ("set".toList ++ ' ' ::
      (", ".toList.intercalate ((assignments d).map Prod.fst) ++ ' ' :: ("where".toList ++ ' ' ::
        ("id".toList ++ " = ".toList ++ intText d.id ++ [';']))))) := by
  simp only [QuoteFree, texts, List.forall_mem_cons] at free
  obtain ⟨code, name, date, action, _⟩ := free
  unfold updateSql
  simp only [assignments, recordCells, valueTexts, List.zipWith_cons_cons,
    List.zipWith_nil_left, List.map_cons, List.map_nil, List.intercalate_cons_cons,
    List.intercalate_singleton, literal_free code, literal_free name, literal_free date,
    literal_free action, List.append_assoc, List.cons_append, List.nil_append,
    String.reduceToList]

theorem lexed_updateSql (free : QuoteFree d) : Lexed (updateSql d) (updateStatement d).tokens := by
  rw [updateSql_eq free]
  have values := Piece.joined (by simp [assignments, valueTexts, recordCells]) (assignments_piece d)
  have cells : (assignments d).map Prod.snd =
      (recordCells d).map fun cell => word cell.1 :: equals :: cell.2 := rfl
  rw [cells] at values
  have condition := Piece.assign (Piece.word "id".toList rfl) (Piece.int d.id)
  have all := (Piece.spaced (Piece.word "update".toList rfl) <|
    Piece.spaced (Piece.word "history".toList rfl) <| Piece.spaced (Piece.word "set".toList rfl) <|
      Piece.spaced values (Piece.spaced (Piece.word "where".toList rfl) condition)).ended
  simpa [Statement.tokens, updateStatement, whereWord] using all

theorem insertStatement_plain : (insertStatement d).Plain :=
  ⟨List.cons_ne_nil _ _, recordCells_operand d⟩

theorem updateStatement_plain : (updateStatement d).Plain := by
  refine ⟨List.cons_ne_nil _ _, fun cell inside => ⟨?_, recordCells_operand d cell inside⟩,
    intTokens_operand d.id⟩
  have names : ((recordCells d).map Prod.fst).all (fun name => name != "where".toList) = true := rfl
  have here := List.all_eq_true.mp names cell.1 (List.mem_map_of_mem inside)
  simpa using here

end

section

theorem stringLiterals_literal (v : CString) (tokens : List Token) :
    stringLiterals (⟨.string, literal v⟩ :: tokens) = v :: stringLiterals tokens := by
  simp [stringLiterals, dequote_literal]

theorem stringLiterals_other {token : Token} (other : token.kind ≠ .string) (tokens : List Token) :
    stringLiterals (token :: tokens) = stringLiterals tokens := by
  simp [stringLiterals, other]

theorem stringLiterals_word (name : CString) (tokens : List Token) :
    stringLiterals (word name :: tokens) = stringLiterals tokens :=
  stringLiterals_other (show TokenType.word ≠ .string by decide) tokens

theorem stringLiterals_sign {token : Token} (sign : token ∈ [comma, lp, rp, semi, equals])
    (tokens : List Token) : stringLiterals (token :: tokens) = stringLiterals tokens := by
  have signs : ∀ token ∈ [comma, lp, rp, semi, equals], token.kind ≠ .string := by decide
  exact stringLiterals_other (signs token sign) tokens

theorem stringLiterals_signed (negative : Bool) {token : Token} (other : token.kind ≠ .string) :
    stringLiterals (signTokens negative ++ [token]) = [] := by
  cases negative with
  | false => exact stringLiterals_other other []
  | true => exact (stringLiterals_other (by decide) _).trans (stringLiterals_other other [])

theorem stringLiterals_int (x : Int) : stringLiterals (intTokens x) = [] :=
  stringLiterals_signed _ nofun

theorem stringLiterals_float (f : CFloat) : stringLiterals (floatTokens f) = [] := by
  cases f with
  | finite negative mantissa exponent => exact stringLiterals_signed _ nofun
  | inf negative => exact stringLiterals_signed _ nofun
  | nan negative => exact stringLiterals_signed _ nofun

theorem insertStatement_literals (d : HistData) :
    stringLiterals (insertStatement d).tokens = texts d := by
  simp only [Statement.tokens, insertStatement, recordCells, List.map_cons, List.map_nil,
    List.intercalate_cons_cons, List.intercalate_singleton, List.append_assoc, List.cons_append,
    List.nil_append, stringLiterals_append, stringLiterals_word, stringLiterals_literal,
    stringLiterals_int, stringLiterals_float, stringLiterals_sign, List.mem_cons, true_or, or_true]
  rfl

theorem updateStatement_literals (d : HistData) :
    stringLiterals (updateStatement d).tokens = texts d := by
  simp only [Statement.tokens, updateStatement, recordCells, List.map_cons, List.map_nil,
    List.intercalate_cons_cons, List.intercalate_singleton, List.append_assoc, List.cons_append,
    List.nil_append, stringLiterals_append, stringLiterals_word, stringLiterals_literal,
    stringLiterals_int, stringLiterals_float, stringLiterals_sign, List.mem_cons, true_or, or_true,
    whereWord]
  rfl

end

end Ct.Stocks
