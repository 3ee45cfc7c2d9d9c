import Ct.Stocks.DbIfText

set_option autoImplicit false

namespace Ct.Stocks

open Ct.Lib Ct.Sqlite

section Quotes

theorem signText_free (negative : Bool) : '\'' ∉ signText negative := by
  cases negative <;> decide

theorem digits_free {digits : CString} (all : ∀ c ∈ digits, c.isDigit = true) :
    '\'' ∉ digits := fun inside => absurd (all _ inside) (by decide)

theorem intText_free (x : Int) : '\'' ∉ intText x := by
  simp only [intText, List.mem_append, signText_free, digits_free toDigits_digit, or_self,
    not_false_eq_true]

theorem floatText_free (f : CFloat) : '\'' ∉ floatText f := by
  cases f with
  | finite negative mantissa exponent =>
    have point : '\'' ≠ '.' := by decide
    simp only [floatText, List.mem_append, List.mem_cons, signText_free, point,
      digits_free toDigits_digit, digits_free fun _ => decimals_digit, or_self, not_false_eq_true]
  | inf negative =>
    have name : '\'' ∉ "inf".toList := by decide
    simp only [floatText, List.mem_append, signText_free, name, or_self, not_false_eq_true]
  | nan negative =>
    have name : '\'' ∉ "nan".toList := by decide
    simp only [floatText, List.mem_append, signText_free, name, or_self, not_false_eq_true]

/-- The quotes that a record's strings bring into a text. -/
def fieldQuotes (d : HistData) : Nat :=
  ((texts d).map fun text => text.count '\'').sum

theorem fieldQuotes_eq (d : HistData) : fieldQuotes d =
    d.code.1.count '\'' + d.name.1.count '\'' + d.date.1.count '\'' + d.action.1.count '\'' := by
  simp only [fieldQuotes, texts, List.map_cons, List.map_nil, List.sum_cons, List.sum_nil]
  omega

theorem insertSql_quotes (d : HistData) : (insertSql d).count '\'' = 8 + fieldQuotes d := by
  have table : "insert into history (code, name, date, action,".toList.count '\'' = 0 := by decide
  have columns : "price, volume, counter_fee, stamp_tax, transfer_fee)".toList.count '\'' = 0 := by
    decide
  have first : "values ('".toList.count '\'' = 1 := by decide
  have between : "', '".toList.count '\'' = 2 := by decide
  have last : "', ".toList.count '\'' = 1 := by decide
  have comma : ", ".toList.count '\'' = 0 := by decide
  have ends : ");".toList.count '\'' = 0 := by decide
  unfold insertSql
  simp only [List.count_append, List.count_eq_zero.mpr (floatText_free _),
    List.count_eq_zero.mpr (intText_free _), table, columns, first, between, last, comma, ends,
    fieldQuotes_eq]
  omega

theorem quotesOf_texts (d : HistData) : quotesOf (texts d) = 8 + 2 * fieldQuotes d := by
  simp only [quotesOf, fieldQuotes_eq, texts, List.map_cons, List.map_nil, List.sum_cons,
    List.sum_nil]
  omega

/-- Only a record without quotes leaves enough quotes for its literals. -/
theorem quoteFree_of_literals {d : HistData} {sql : CString}
    (quotes : sql.count '\'' = 8 + fieldQuotes d)
    (literals : stringLiterals (tokenize sql) = texts d) : QuoteFree d := by
  have taken := quotesOf_tokenizeLoop sql.length sql
  have read : stringLiterals (tokenizeLoop sql.length sql) = texts d := literals
  rw [read, quotesOf_texts, quotes] at taken
  have none_left : fieldQuotes d = 0 := by omega
  intro text inside
  have zero := List.sum_eq_zero_iff_forall_eq_nat.mp none_left (text.count '\'')
    (List.mem_map_of_mem inside)
  exact List.count_eq_zero.mp zero

end Quotes

section Stored

variable (render : Column → List Token → CString)

variable (atoi : CString → Int) (scanFloat : CString → CFloat → CFloat)

theorem valueInt_intTokens (x : Int) : valueInt (intTokens x) = some x := by
  have digits := Nat.ofDigitChars_ten_toDigits (n := x.natAbs)
  by_cases negative : x < 0
  · have tokens : intTokens x = [minus, ⟨.integer, Nat.toDigits 10 x.natAbs⟩] := by
      simp [intTokens, signTokens, negative]
    rw [tokens, valueInt, if_pos ⟨rfl, rfl⟩, digits, Option.some.injEq]
    omega
  · have tokens : intTokens x = [⟨.integer, Nat.toDigits 10 x.natAbs⟩] := by
      simp [intTokens, signTokens, negative]
    rw [tokens, valueInt, if_pos rfl, digits, Option.some.injEq]
    omega

theorem picks_id (id : Int) (row : Row) :
    picks "id".toList (intTokens id) row = decide (row.id = id) := by
  have read : valueInt (intTokens id) = some id := valueInt_intTokens id
  have key : ("id".toList == "id".toList) = true := rfl
  rw [picks, read, key, Bool.true_and, Bool.eq_iff_iff, beq_iff_eq, decide_eq_true_eq,
    Option.some.injEq, eq_comm]

/-- What the row of a record returns: its strings, and some text for each number. -/
def storedCells (d : HistData) : List (CString × Option CString) :=
  let numbers := fun column value => some (cellText render column value)
  [("code".toList, some d.code.1), ("name".toList, some d.name.1), ("date".toList, some d.date.1),
    ("action".toList, some d.action.1),
    ("price".toList, numbers ⟨"price".toList, "float".toList⟩ (floatTokens d.price)),
    ("volume".toList, numbers ⟨"volume".toList, "integer".toList⟩ (intTokens d.volume)),
    ("counter_fee".toList,
      numbers ⟨"counter_fee".toList, "float".toList⟩ (floatTokens d.counterFee)),
    ("stamp_tax".toList, numbers ⟨"stamp_tax".toList, "float".toList⟩ (floatTokens d.stampTax)),
    ("transfer_fee".toList,
      numbers ⟨"transfer_fee".toList, "float".toList⟩ (floatTokens d.transferFee))]

theorem cellText_literal (column : Column) (text : column.type = "varchar(32)".toList)
    (v : CString) : cellText render column [⟨.string, literal v⟩] = v := by
  exact (if_pos ⟨rfl, text⟩).trans (dequote_literal v)

theorem insertedCells_record (d : HistData) :
    insertedCells render (recordCells d) = storedCells render d := by
  have code := cellText_literal render ⟨"code".toList, _⟩ rfl d.code.1
  have name := cellText_literal render ⟨"name".toList, _⟩ rfl d.name.1
  have date := cellText_literal render ⟨"date".toList, _⟩ rfl d.date.1
  have action := cellText_literal render ⟨"action".toList, _⟩ rfl d.action.1
  rw [storedCells, ← code, ← name, ← date, ← action]
  rfl

theorem updatedCells_record (d : HistData) (row : Row) :
    updatedCells render (recordCells d) row = storedCells render d :=
  insertedCells_record render d

/-- A read that succeeds with the four strings of the record. -/
def Returns (result : Option (Except Fault HistData)) (d : HistData) : Prop :=
  ∃ data, result = some (.ok data) ∧ texts data = texts d

theorem strcpyTo_map {size : Nat} (s : CharArray size) (store : CharArray size → HistData) :
    (strcpyTo size s.1).map store = .ok (store s) := by
  rw [strcpyTo_fits]
  rfl

theorem uiConstructData_cons {data next : HistData} {cn : CString} {cv : Option CString}
    (stored : constructField atoi scanFloat data cn cv = .ok next)
    (rest : List (CString × Option CString)) :
    uiConstructData atoi scanFloat data ((cn, cv) :: rest) =
      uiConstructData atoi scanFloat next rest := by
  rw [uiConstructData, List.foldlM_cons, stored]
  rfl

theorem uiConstructData_numbers (data : HistData)
    (price volume counterFee stampTax transferFee : CString) :
    ∃ next, uiConstructData atoi scanFloat data [("price".toList, some price),
      ("volume".toList, some volume), ("counter_fee".toList, some counterFee),
      ("stamp_tax".toList, some stampTax), ("transfer_fee".toList, some transferFee)] = .ok next ∧
        texts next = texts data :=
  ⟨_, rfl, rfl⟩

theorem uiConstructData_stored (d old : HistData) (id : CString) :
    ∃ data, uiConstructData atoi scanFloat old (("id".toList, some id) :: storedCells render d) =
      .ok data ∧ texts data = texts d := by
  have code (data : HistData) : constructField atoi scanFloat data "code".toList (some d.code.1) =
      .ok { data with code := d.code } := strcpyTo_map d.code _
  have name (data : HistData) : constructField atoi scanFloat data "name".toList (some d.name.1) =
      .ok { data with name := d.name } := strcpyTo_map d.name _
  have date (data : HistData) : constructField atoi scanFloat data "date".toList (some d.date.1) =
      .ok { data with date := d.date } := strcpyTo_map d.date _
  have action (data : HistData) :
      constructField atoi scanFloat data "action".toList (some d.action.1) =
        .ok { data with action := d.action } := strcpyTo_map d.action _
  rw [uiConstructData_cons atoi scanFloat rfl, storedCells,
    uiConstructData_cons atoi scanFloat (code _), uiConstructData_cons atoi scanFloat (name _),
    uiConstructData_cons atoi scanFloat (date _), uiConstructData_cons atoi scanFloat (action _)]
  exact uiConstructData_numbers atoi scanFloat _ _ _ _ _ _

theorem stockGetRecordById_eq {α : Type} (id : Int)
    (cb : α → List (CString × Option CString) → Except Fault α) (param : α) (db : History) :
    stockGetRecordById id cb param db =
      some ((db.rows.filter fun row => row.id = id).foldlM
        (fun param row => cb param (("id".toList, some (intText row.id)) :: row.cells)) param) := by
  have plain : (Statement.select "history".toList "id".toList (intTokens id)).Plain :=
    intTokens_operand id
  have picked : picks "id".toList (intTokens id) = fun row => decide (row.id = id) :=
    funext (picks_id id)
  delta stockGetRecordById
  rw [(lexed_selectSql id).tokenize, Statement.read_tokens plain]
  dsimp only
  rw [picked]

/-- The row of a record is read back. -/
theorem stockGetRecordById_stored {db : History} {id : Int} {d : HistData}
    (found : db.rows.filter (fun row => row.id = id) = [⟨id, storedCells render d⟩])
    (old : HistData) :
    Returns (stockGetRecordById id (uiConstructData atoi scanFloat) old db) d := by
  obtain ⟨data, constructed, same⟩ := uiConstructData_stored render atoi scanFloat d old (intText id)
  refine ⟨data, ?_, same⟩
  rw [stockGetRecordById_eq, found, List.foldlM_cons, constructed]
  rfl

theorem filter_inserted (db : History) (cells : List (CString × List Token)) :
    (insertRow render cells db).rows.filter (fun row => row.id = db.seq + 1) =
      [⟨db.seq + 1, insertedCells render cells⟩] := by
  have older : db.rows.filter (fun row => row.id = db.seq + 1) = [] := by
    rw [List.filter_eq_nil_iff]
    intro row inside
    have below := db.bounded row inside
    simp only [decide_eq_true_eq]
    omega
  show (db.rows ++ [_]).filter _ = _
  rw [List.filter_append, older]
  simp

theorem filter_distinct {rows : List Row} (distinct : (rows.map Row.id).Nodup) {row : Row}
    (inside : row ∈ rows) : rows.filter (fun other => other.id = row.id) = [row] := by
  induction rows with
  | nil => exact absurd inside List.not_mem_nil
  | cons first rows ih =>
    rw [List.map_cons, List.nodup_cons] at distinct
    rcases List.mem_cons.mp inside with rfl | later
    · have none_else : rows.filter (fun other => other.id = row.id) = [] := by
        rw [List.filter_eq_nil_iff]
        intro other listed same
        have equal : other.id = row.id := by simpa using same
        exact distinct.1 (equal ▸ List.mem_map_of_mem listed)
      rw [List.filter_cons_of_pos (by simp), none_else]
    · have other : first.id ≠ row.id :=
        fun same => distinct.1 (same ▸ List.mem_map_of_mem later)
      rw [List.filter_cons_of_neg (by simp [other]), ih distinct.2 later]

theorem filter_updated {db : History} {id : Int} (present : id ∈ db.rows.map Row.id)
    (cells : List (CString × List Token)) :
    ∃ row, (updateRows render cells "id".toList (intTokens id) db).rows.filter
      (fun row => row.id = id) = [⟨id, updatedCells render cells row⟩] := by
  obtain ⟨row, inside, rfl⟩ := List.mem_map.mp present
  refine ⟨row, ?_⟩
  have changed : updateRow render cells "id".toList (intTokens row.id) row =
      ⟨row.id, updatedCells render cells row⟩ := by
    rw [updateRow, picks_id, decide_eq_true rfl, if_pos rfl]
  have listed := List.mem_map_of_mem
    (f := updateRow render cells "id".toList (intTokens row.id)) inside
  rw [changed] at listed
  exact filter_distinct (updateRows render cells "id".toList (intTokens row.id) db).distinct listed

end Stored

/-- The text is one statement, this one, and its string literals have these values. -/
structure Says (sql : CString) (statement : Statement) (values : List CString) : Prop where
  reads : readStatement (tokenize sql) = some statement
  literals : stringLiterals (tokenize sql) = values

section

variable (render : Column → List Token → CString)

variable (atoi : CString → Int) (scanFloat : CString → CFloat → CFloat)

/-- Both statements carry the strings of a record to their columns, and a row that one of them
has stored is read back with these strings. -/
structure CarriesTexts (d : HistData) : Prop where
  inserted : Says (insertSql d) (insertStatement d) (texts d)
  updated : Says (updateSql d) (updateStatement d) (texts d)
  readInserted : ∀ db after old, stockInsertRecord render d db = some after →
    Returns (stockGetRecordById after.seq (uiConstructData atoi scanFloat) old after) d
  readUpdated : ∀ db after old, stockUpdateRecord render d db = some after →
    d.id ∈ db.rows.map Row.id →
      Returns (stockGetRecordById d.id (uiConstructData atoi scanFloat) old after) d

theorem says_of_lexed {sql : CString} {statement : Statement} {values : List CString}
    (lexed : Lexed sql statement.tokens) (plain : statement.Plain)
    (literals : stringLiterals statement.tokens = values) : Says sql statement values :=
  ⟨by rw [lexed.tokenize, Statement.read_tokens plain], by rw [lexed.tokenize, literals]⟩

theorem carriesTexts_of_quoteFree {d : HistData} (free : QuoteFree d) :
    CarriesTexts render atoi scanFloat d := by
  have inserted : Says (insertSql d) (insertStatement d) (texts d) :=
    says_of_lexed (lexed_insertSql free) insertStatement_plain (insertStatement_literals d)
  have updated : Says (updateSql d) (updateStatement d) (texts d) :=
    says_of_lexed (lexed_updateSql free) updateStatement_plain (updateStatement_literals d)
  refine ⟨inserted, updated, fun db after old stored => ?_, fun db after old stored present => ?_⟩
  · rw [stockInsertRecord, dbExec, inserted.reads, Option.map_some, Option.some.injEq] at stored
    rw [← stored]
    apply stockGetRecordById_stored render
    have found := filter_inserted render db (recordCells d)
    rwa [insertedCells_record] at found
  · rw [stockUpdateRecord, dbExec, updated.reads, Option.map_some, Option.some.injEq] at stored
    rw [← stored]
    apply stockGetRecordById_stored render
    obtain ⟨row, found⟩ := filter_updated render present (recordCells d)
    rwa [updatedCells_record] at found

/-- The texts carry a record exactly when no string of it has a quote: `%s` pastes the strings as
they are. -/
theorem carriesTexts_iff (d : HistData) :
    CarriesTexts render atoi scanFloat d ↔ QuoteFree d :=
  ⟨fun carries => quoteFree_of_literals (insertSql_quotes d) carries.inserted.literals,
    carriesTexts_of_quoteFree render atoi scanFloat⟩

end

/-- The texts do not carry the name `o'k`. -/
theorem quote_not_carried :
    ¬ CarriesTexts (fun _ _ => []) (fun _ => 0) (fun _ f => f)
      ⟨1, ⟨"600000".toList, by decide⟩, ⟨"o'k".toList, by decide⟩, ⟨"20190101".toList, by decide⟩,
        ⟨"buy".toList, by decide⟩, .finite false 1 0, 100, .finite false 5 0, .finite false 0 0,
        .finite false 0 0⟩ := by
  intro carried
  have free := quoteFree_of_literals (insertSql_quotes _) carried.inserted.literals
  exact absurd (free "o'k".toList (by simp [texts])) (by decide)

end Ct.Stocks
