import Ct.Lib.Format
import Ct.Sqlite.Lexed

set_option autoImplicit false

namespace Ct.Sqlite

open Ct.Lib

theorem run_front {test : Char → Bool} {front z : CString} {c : Char}
    (inside : ∀ d ∈ front, test d = true) (stop : test c = false) :
    run test (front ++ c :: z) = front.length := by
  have outside : ¬ test c = true := by simp [stop]
  rw [run, List.takeWhile_append_of_pos inside, List.takeWhile_cons_of_neg outside,
    List.append_nil]

def word (name : CString) : Token := ⟨.word, name⟩

@[simp] theorem word_kind (name : CString) : (word name).kind = .word := rfl

@[simp] theorem word_text (name : CString) : (word name).text = name := rfl

def lp : Token := ⟨.lp, ['(']⟩

def rp : Token := ⟨.rp, [')']⟩

def semi : Token := ⟨.semi, [';']⟩

def equals : Token := ⟨.eq, ['=']⟩

def star : Token := ⟨.star, ['*']⟩

def minus : Token := ⟨.minus, ['-']⟩

def comma : Token := ⟨.comma, [',']⟩

/-- What may stand behind a value in a statement. -/
def separators : List Char := [',', ')', ' ', ';']

section Numbers

variable {c : Char} {z : CString}

theorem getToken_digit (digit : c.isDigit = true) : getToken (c :: z) = numberToken (c :: z) := by
  have visible : c ∉ [' ', '\t', '\n', '\x0c', '\r'] := by
    intro space
    simp only [List.mem_cons, List.not_mem_nil, or_false] at space
    rcases space with rfl | rfl | rfl | rfl | rfl <;> exact absurd digit (by decide)
  rw [getToken, if_neg visible, if_pos (Or.inl digit)]

/-- No number goes on at a separator. -/
theorem separator_ends (separates : c ∈ separators) :
    c.isDigit = false ∧ fraction (c :: z) = 0 ∧ exponent (c :: z) = 0 ∧
      run isIdChar (c :: z) = 0 := by
  simp only [separators, List.mem_cons, List.not_mem_nil, or_false] at separates
  rcases separates with rfl | rfl | rfl | rfl <;> cases z <;> exact ⟨rfl, rfl, rfl, rfl⟩

variable {whole decimals : CString}

theorem numberToken_integer (digits : ∀ d ∈ whole, d.isDigit = true) (separates : c ∈ separators) :
    numberToken (whole ++ c :: z) = (.integer, whole.length) := by
  obtain ⟨stop, fraction_zero, exponent_zero, more_zero⟩ := separator_ends (z := z) separates
  have scanned := run_front (z := z) digits stop
  simp only [numberToken, scanned, List.drop_left, fraction_zero, Nat.add_zero, exponent_zero,
    more_zero, if_true]

theorem numberToken_float (digits : ∀ d ∈ whole, d.isDigit = true)
    (behind : ∀ d ∈ decimals, d.isDigit = true) (separates : c ∈ separators) :
    numberToken (whole ++ '.' :: (decimals ++ c :: z)) =
      (.float, (whole ++ '.' :: decimals).length) := by
  obtain ⟨stop, _, exponent_zero, more_zero⟩ := separator_ends (z := z) separates
  have scanned := run_front (z := decimals ++ c :: z) digits (show Char.isDigit '.' = false from rfl)
  have point : fraction ('.' :: (decimals ++ c :: z)) = decimals.length + 1 := by
    rw [Nat.add_comm]
    exact congrArg (1 + ·) (run_front behind stop)
  have rest : (whole ++ '.' :: (decimals ++ c :: z)).drop (whole.length + (decimals.length + 1)) =
      c :: z := by
    rw [← List.drop_drop, List.drop_left, List.drop_succ_cons, List.drop_left]
  simp only [numberToken, scanned, List.drop_left, point, rest, exponent_zero, Nat.add_zero,
    more_zero, if_true, if_neg (Nat.succ_ne_zero _), List.length_append, List.length_cons]

end Numbers

/-- The value with every quote in it doubled. -/
def doubled (v : CString) : CString :=
  v.flatMap fun c => if c = '\'' then ['\'', '\''] else [c]

/-- The string literal for a value. -/
def literal (v : CString) : CString :=
  '\'' :: (doubled v ++ ['\''])

theorem doubled_quote (v : CString) : doubled ('\'' :: v) = '\'' :: '\'' :: doubled v := rfl

theorem doubled_other {c : Char} (other : c ≠ '\'') (v : CString) :
    doubled (c :: v) = c :: doubled v := by
  rw [doubled, List.flatMap_cons, if_neg other]
  rfl

theorem doubled_free {v : CString} (free : '\'' ∉ v) : doubled v = v := by
  induction v with
  | nil => rfl
  | cons c v ih =>
    have outside := List.ne_and_not_mem_of_not_mem_cons free
    rw [doubled_other outside.1.symm, ih outside.2]

theorem closing_other {c delim : Char} (other : c ≠ delim) (z : CString) :
    closing delim (c :: z) = (closing delim z).map (· + 1) := by
  cases z with
  | nil => simp only [closing, if_neg other, Option.map_none]
  | cons d z => rw [closing, if_neg other]

theorem closing_doubled (v : CString) {c : Char} (other : c ≠ '\'') (z : CString) :
    closing '\'' (doubled v ++ '\'' :: c :: z) = some (doubled v).length := by
  induction v with
  | nil =>
    show closing '\'' ('\'' :: c :: z) = some 0
    rw [closing, if_pos rfl, if_neg other]
  | cons d v ih =>
    by_cases quote : d = '\''
    · rw [quote, doubled_quote]
      show closing '\'' ('\'' :: '\'' :: (doubled v ++ '\'' :: c :: z)) = _
      rw [closing, if_pos rfl, if_pos rfl, ih]
      rfl
    · rw [doubled_other quote, List.cons_append, closing_other quote, ih]
      rfl

theorem getToken_literal (v : CString) {c : Char} (other : c ≠ '\'') (z : CString) :
    getToken (literal v ++ c :: z) = (.string, (literal v).length) := by
  have text : literal v ++ c :: z = '\'' :: (doubled v ++ '\'' :: c :: z) := by simp [literal]
  rw [text]
  show quotedToken '\'' (doubled v ++ '\'' :: c :: z) = _
  rw [quotedToken, closing_doubled v other]
  simp [literal]

/-- A literal read back is the value it was made for. -/
theorem dequote_literal (v : CString) : dequote (literal v) = v := by
  show dequoteLoop (doubled v ++ ['\'']) = v
  induction v with
  | nil => rfl
  | cons c v ih =>
    by_cases quote : c = '\''
    · rw [quote, doubled_quote]
      show dequoteLoop ('\'' :: '\'' :: (doubled v ++ ['\''])) = _
      rw [dequoteLoop, if_pos rfl, if_pos rfl, ih]
    · rw [doubled_other quote, List.cons_append]
      obtain ⟨d, z, more⟩ : ∃ d z, doubled v ++ ['\''] = d :: z :=
        List.exists_cons_of_ne_nil (by simp)
      rw [more] at ih ⊢
      rw [dequoteLoop, if_neg quote, ih]

/-- The text of a value and its tokens, wherever a separator stands behind it. -/
structure Piece (text : CString) (tokens : List Token) : Prop where
  visible : text.head?.map isSpace = some false
  lexed : ∀ c ∈ separators, ∀ z after, Lexed (c :: z) after → Lexed (text ++ c :: z) (tokens ++ after)

theorem Lexed.space {z : CString} {tokens : List Token}
    (visible : z.head?.map isSpace = some false) (after : Lexed z tokens) :
    Lexed (' ' :: z) tokens := by
  cases z with
  | nil => simp at visible
  | cons c z =>
    have ends : run isSpace (c :: z) = 0 := by
      have outside : ¬ isSpace c = true := by simpa using visible
      rw [run, List.takeWhile_cons_of_neg outside]
      rfl
    have start : getToken ([' '] ++ c :: z) = (.space, 1) := by
      show (TokenType.space, 1 + run isSpace (c :: z)) = _
      rw [ends]
    exact Lexed.token start after

theorem Piece.token {text : CString} {kind : TokenType}
    (visible : text.head?.map isSpace = some false) (solid : kind ≠ .space)
    (start : ∀ c ∈ separators, ∀ z, getToken (text ++ c :: z) = (kind, text.length)) :
    Piece text [⟨kind, text⟩] := by
  refine ⟨visible, fun c separates z after lexed => ?_⟩
  have read := Lexed.token (start c separates z) lexed
  rwa [kept, if_neg solid] at read

theorem Piece.literal (v : CString) : Piece (literal v) [⟨.string, literal v⟩] := by
  apply Piece.token rfl (by decide)
  intro c separates z
  have other : c ≠ '\'' := by
    rintro rfl
    exact absurd separates (by decide)
  exact getToken_literal v other z

theorem isSpace_low {c : Char} (space : isSpace c = true) : c.toNat ≤ 32 := by
  simp only [isSpace, Bool.or_eq_true, beq_iff_eq, Bool.and_eq_true, decide_eq_true_eq] at space
  rcases space with rfl | ⟨_, upper⟩
  · exact Nat.le_refl 32
  · rw [Char.le_def, UInt32.le_iff_toNat_le] at upper
    exact Nat.le_trans upper (by decide)

theorem visible_above {c : Char} (above : 32 < c.toNat) : isSpace c = false := by
  rw [Bool.eq_false_iff]
  intro space
  have := isSpace_low space
  omega

theorem digit_visible {c : Char} (digit : c.isDigit = true) : isSpace c = false :=
  visible_above (Nat.lt_of_lt_of_le (by decide) (Char.isDigit_iff_toNat.mp digit).1)

theorem digits_head {digits : CString} (nonempty : digits ≠ [])
    (all : ∀ d ∈ digits, d.isDigit = true) :
    ∃ d rest, digits = d :: rest ∧ d.isDigit = true ∧ isSpace d = false := by
  obtain ⟨d, rest, same⟩ := List.exists_cons_of_ne_nil nonempty
  have digit : d.isDigit = true := all d (same ▸ List.mem_cons_self)
  exact ⟨d, rest, same, digit, digit_visible digit⟩

theorem Piece.integer {digits : CString} (nonempty : digits ≠ [])
    (all : ∀ d ∈ digits, d.isDigit = true) : Piece digits [⟨.integer, digits⟩] := by
  obtain ⟨d, rest, same, digit, visible⟩ := digits_head nonempty all
  apply Piece.token (by simp [same, visible]) (by decide)
  intro c separates z
  have number := numberToken_integer (z := z) all separates
  rw [same, List.cons_append] at number ⊢
  rw [getToken_digit digit, number]

theorem Piece.float {whole decimals : CString} (nonempty : whole ≠ [])
    (all : ∀ d ∈ whole, d.isDigit = true) (behind : ∀ d ∈ decimals, d.isDigit = true) :
    Piece (whole ++ '.' :: decimals) [⟨.float, whole ++ '.' :: decimals⟩] := by
  obtain ⟨d, rest, same, digit, visible⟩ := digits_head nonempty all
  apply Piece.token (by simp [same, visible]) (by decide)
  intro c separates z
  have number := numberToken_float (z := z) all behind separates
  rw [List.append_assoc, List.cons_append]
  rw [same, List.cons_append] at number ⊢
  rw [getToken_digit digit, number]

theorem Piece.minus {text : CString} {tokens : List Token} (piece : Piece text tokens)
    (other : text.head? ≠ some '-') : Piece ('-' :: text) (minus :: tokens) := by
  refine ⟨rfl, fun d separates z after lexed => ?_⟩
  have start : getToken (['-'] ++ (text ++ d :: z)) = (.minus, 1) := by
    cases text with
    | nil => exact absurd piece.visible (by simp)
    | cons c text =>
      show minusToken (c :: (text ++ d :: z)) = _
      unfold minusToken
      split
      · rename_i same
        exact absurd (congrArg some (List.cons.inj same).1) other
      · rfl
  exact Lexed.token start (piece.lexed d separates z after lexed)

def signTokens (negative : Bool) : List Token :=
  if negative then [Sqlite.minus] else []

theorem Piece.signed {text : CString} {tokens : List Token} (negative : Bool)
    (piece : Piece text tokens) (other : text.head? ≠ some '-') :
    Piece (signText negative ++ text) (signTokens negative ++ tokens) := by
  cases negative with
  | false => exact piece
  | true => exact piece.minus other

/-- The tokens of `%d`. -/
def intTokens (x : Int) : List Token :=
  signTokens (x < 0) ++ [⟨.integer, Nat.toDigits 10 x.natAbs⟩]

/-- The tokens of `%.3f`; an infinity or a NaN is a name. -/
def floatTokens : CFloat → List Token
  | .finite negative mantissa exponent =>
    let n := thousandths mantissa exponent
    signTokens negative ++ [⟨.float, Nat.toDigits 10 (n / 1000) ++ '.' :: decimals n⟩]
  | .inf negative => signTokens negative ++ [word "inf".toList]
  | .nan negative => signTokens negative ++ [word "nan".toList]

theorem toDigits_digit {n : Nat} : ∀ c ∈ Nat.toDigits 10 n, c.isDigit = true :=
  fun _ => Nat.isDigit_of_mem_toDigits (by decide) (by decide)

theorem toDigits_head {n : Nat} (rest : CString) :
    (Nat.toDigits 10 n ++ rest).head? ≠ some '-' := by
  obtain ⟨d, more, same, digit, _⟩ := digits_head Nat.toDigits_ne_nil (toDigits_digit (n := n))
  rw [same, List.cons_append, List.head?_cons]
  intro sign
  rw [Option.some.inj sign] at digit
  exact absurd digit (by decide)

theorem Piece.int (x : Int) : Piece (intText x) (intTokens x) := by
  apply Piece.signed _ (Piece.integer Nat.toDigits_ne_nil toDigits_digit)
  simpa using toDigits_head (n := x.natAbs) []

/-- An identifier or a keyword that no blob starts like. -/
def identifier : CString → Bool
  | [] => false
  | c :: z => c.isAlpha && c != 'x' && c != 'X' && z.all isIdChar

theorem letter_outside {c : Char} (letter : c.isAlpha = true) (marks : List Char)
    (signs : marks.all (fun d => !d.isAlpha) = true) : c ∉ marks := by
  intro inside
  have sign := List.all_eq_true.mp signs c inside
  rw [letter] at sign
  cases sign

theorem letter_above {c : Char} (letter : c.isAlpha = true) : 65 ≤ c.toNat := by
  have either : (c.isUpper || c.isLower) = true := letter
  rcases (Bool.or_eq_true _ _).mp either with upper | lower
  · have range : decide (c.val ≥ 'A'.val ∧ c.val ≤ 'Z'.val) = true := upper
    rw [decide_eq_true_eq, ge_iff_le, UInt32.le_iff_toNat_le] at range
    exact range.1
  · have range : (decide (c.val ≥ 'a'.val) && decide (c.val ≤ 'z'.val)) = true := lower
    rw [Bool.and_eq_true, decide_eq_true_eq, ge_iff_le, UInt32.le_iff_toNat_le] at range
    exact Nat.le_trans (by decide) range.1

theorem letter_visible {c : Char} (letter : c.isAlpha = true) : isSpace c = false :=
  visible_above (Nat.lt_of_lt_of_le (by decide) (letter_above letter))

theorem letter_digit {c : Char} (letter : c.isAlpha = true) : c.isDigit = false := by
  rw [Bool.eq_false_iff]
  intro digit
  have above := letter_above letter
  have below : c.toNat ≤ 57 := (Char.isDigit_iff_toNat.mp digit).2
  omega

theorem getToken_letter {c : Char} {z : CString} (letter : c.isAlpha = true) :
    getToken (c :: z) = wordToken c z := by
  have apart : ∀ d : Char, d.isAlpha = false → c ≠ d := fun d sign same =>
    letter_outside letter [d] (by simp [sign]) (by simp [same])
  have number : ¬ (c.isDigit = true ∨ (c = '.' ∧ 0 < run Char.isDigit z)) := by
    simp [letter_digit letter, apart '.' rfl]
  have silent : operators.lookup c = none := by
    rw [List.lookup_eq_none_iff]
    intro entry listed
    have sign : operators.all (fun entry => !entry.1.isAlpha) = true := rfl
    have here := List.all_eq_true.mp sign entry listed
    simpa using apart entry.1 (by simpa using here)
  rw [getToken, if_neg (letter_outside letter _ rfl), if_neg number,
    if_neg (letter_outside letter _ rfl), if_neg (letter_outside letter _ rfl), if_neg (apart '?' rfl),
    if_neg (apart '-' rfl), if_neg (apart '/' rfl), if_neg (apart '[' rfl), if_neg (apart '!' rfl),
    silent]

/-- What ends a name. -/
theorem getToken_name {name : CString} (valid : identifier name = true) {c : Char}
    (stop : isIdChar c = false) (z : CString) :
    getToken (name ++ c :: z) = (.word, name.length) := by
  cases name with
  | nil => exact absurd valid (by decide)
  | cons d name =>
    simp only [identifier, Bool.and_eq_true, bne_iff_ne, ne_eq] at valid
    obtain ⟨⟨⟨letter, lower⟩, upper⟩, inside⟩ := valid
    have first : isIdChar d = true := by simp [isIdChar, Char.isAlphanum, letter]
    have scanned := run_front (z := z) (List.all_eq_true.mp inside) stop
    rw [List.cons_append, getToken_letter letter, wordToken, if_neg (by simp [lower, upper]),
      if_pos first, scanned, List.length_cons, Nat.add_comm]

theorem Piece.word (name : CString) (valid : identifier name = true) : Piece name [word name] := by
  have visible : name.head?.map isSpace = some false := by
    cases name with
    | nil => exact absurd valid (by decide)
    | cons c name =>
      simp only [identifier, Bool.and_eq_true] at valid
      simp [letter_visible valid.1.1.1]
  apply Piece.token visible (by decide)
  intro c separates z
  apply getToken_name valid
  simp only [separators, List.mem_cons, List.not_mem_nil, or_false] at separates
  rcases separates with rfl | rfl | rfl | rfl <;> rfl

theorem Piece.floatText (f : CFloat) : Piece (floatText f) (floatTokens f) := by
  cases f with
  | finite negative mantissa exponent =>
    exact Piece.signed negative
      (Piece.float Nat.toDigits_ne_nil toDigits_digit fun _ => decimals_digit) (toDigits_head _)
  | inf negative =>
    exact Piece.signed negative (Piece.word _ rfl) (by decide)
  | nan negative =>
    exact Piece.signed negative (Piece.word _ rfl) (by decide)

theorem visible_append {text : CString} (rest : CString)
    (visible : text.head?.map isSpace = some false) :
    (text ++ rest).head?.map isSpace = some false := by
  cases text with
  | nil => exact absurd visible (by simp)
  | cons c text => exact visible

section

variable {left right : CString} {leftTokens rightTokens : List Token}

/-- Two pieces with a text between them that starts with a separator. -/
theorem Piece.between {d : Char} (separates : d ∈ separators) (middle : CString)
    (middleTokens : List Token) (leftPiece : Piece left leftTokens)
    (rightPiece : Piece right rightTokens)
    (lexes : ∀ z tokens, Lexed (right ++ z) tokens →
      Lexed (d :: (middle ++ (right ++ z))) (middleTokens ++ tokens)) :
    Piece (left ++ d :: (middle ++ right)) (leftTokens ++ (middleTokens ++ rightTokens)) := by
  refine ⟨visible_append _ leftPiece.visible, fun c stops z after lexed => ?_⟩
  have behind := lexes (c :: z) _ (rightPiece.lexed c stops z after lexed)
  have all := leftPiece.lexed d separates _ _ behind
  simpa using all

/-- A blank in front of a piece. -/
theorem Piece.space (rightPiece : Piece right rightTokens) (z : CString) {tokens : List Token}
    (lexed : Lexed (right ++ z) tokens) : Lexed (' ' :: (right ++ z)) tokens :=
  Lexed.space (visible_append _ rightPiece.visible) lexed

theorem Piece.spaced (leftPiece : Piece left leftTokens) (rightPiece : Piece right rightTokens) :
    Piece (left ++ ' ' :: right) (leftTokens ++ rightTokens) :=
  Piece.between (by decide) [] [] leftPiece rightPiece fun z _ lexed => rightPiece.space z lexed

theorem Piece.tight (leftPiece : Piece left leftTokens) (rightPiece : Piece right rightTokens) :
    Piece (left ++ ',' :: right) (leftTokens ++ [Sqlite.comma] ++ rightTokens) := by
  rw [List.append_assoc]
  apply Piece.between (by decide) [] [Sqlite.comma] leftPiece rightPiece
  intro z tokens lexed
  exact Lexed.first 1 lexed

theorem Piece.comma (leftPiece : Piece left leftTokens) (rightPiece : Piece right rightTokens) :
    Piece (left ++ ", ".toList ++ right) (leftTokens ++ [Sqlite.comma] ++ rightTokens) := by
  rw [List.append_assoc, List.append_assoc]
  apply Piece.between (by decide) [' '] [Sqlite.comma] leftPiece rightPiece
  intro z tokens lexed
  exact Lexed.first 1 (rightPiece.space z lexed)

/-- `left = right` -/
theorem Piece.assign (leftPiece : Piece left leftTokens) (rightPiece : Piece right rightTokens) :
    Piece (left ++ " = ".toList ++ right) (leftTokens ++ [equals] ++ rightTokens) := by
  rw [List.append_assoc, List.append_assoc]
  apply Piece.between (by decide) ['=', ' '] [equals] leftPiece rightPiece
  intro z tokens lexed
  exact Lexed.first 2 (rightPiece.space z lexed)

end

/-- Values between commas. -/
theorem Piece.joined {pieces : List (CString × List Token)} (nonempty : pieces ≠ [])
    (each : ∀ piece ∈ pieces, Piece piece.1 piece.2) :
    Piece (", ".toList.intercalate (pieces.map Prod.fst))
      ([Sqlite.comma].intercalate (pieces.map Prod.snd)) := by
  induction pieces with
  | nil => exact absurd rfl nonempty
  | cons piece pieces ih =>
    have here := each piece List.mem_cons_self
    cases pieces with
    | nil => simpa using here
    | cons next pieces =>
      have later := ih (List.cons_ne_nil _ _) fun piece inside =>
        each piece (List.mem_cons_of_mem _ inside)
      simp only [List.map_cons, List.intercalate_cons_cons] at later ⊢
      simpa using here.comma later

theorem Lexed.opened {z : CString} {tokens : List Token} (after : Lexed z tokens) :
    Lexed (' ' :: '(' :: z) (lp :: tokens) :=
  Lexed.first 2 after

theorem Lexed.closed {z : CString} {tokens : List Token} (after : Lexed z tokens) :
    Lexed (')' :: z) (rp :: tokens) :=
  Lexed.first 1 after

/-- `;` at the end of a text. -/
theorem Piece.ended {text : CString} {tokens : List Token} (piece : Piece text tokens) :
    Lexed (text ++ [';']) (tokens ++ [semi]) :=
  piece.lexed ';' (by decide) [] [semi] (Lexed.first 1 Lexed.nil)

end Ct.Sqlite
