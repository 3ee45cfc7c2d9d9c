import Ct.Lib.CString

set_option autoImplicit false

namespace Ct.Sqlite

open Ct.Lib

/-- The `TK_` codes of `sqlite3GetToken`; a keyword and an identifier are both a `word`. -/
inductive TokenType
  | space
  | minus
  | lp
  | rp
  | semi
  | plus
  | star
  | slash
  | rem
  | eq
  | le
  | ne
  | lshift
  | lt
  | ge
  | rshift
  | gt
  | bitor
  | concat
  | comma
  | bitand
  | bitnot
  | string
  | quoted
  | dot
  | integer
  | float
  | variable
  | blob
  | word
  | illegal
  deriving DecidableEq, Repr

/-- `sqlite3Isspace` -/
def isSpace (c : Char) : Bool :=
  c == ' ' || ('\t' ≤ c && c ≤ '\r')

/-- `IdChar` -/
def isIdChar (c : Char) : Bool :=
  c.isAlphanum || c == '_' || c == '$' || 0x80 ≤ c.toNat

/-- `sqlite3Isxdigit` -/
def isXDigit (c : Char) : Bool :=
  c.isDigit || ('a' ≤ c && c ≤ 'f') || ('A' ≤ c && c ≤ 'F')

/-- How many characters from here on satisfy the test. -/
def run (test : Char → Bool) (z : CString) : Nat :=
  (z.takeWhile test).length

/-- Behind an opening `delim`, the offset of the one that closes; a doubled one does not. -/
def closing (delim : Char) : CString → Option Nat
  | [] => none
  | [c] => if c = delim then some 0 else none
  | c :: d :: rest =>
    if c = delim then
      if d = delim then (closing delim rest).map (· + 2) else some 0
    else (closing delim (d :: rest)).map (· + 1)

/-- A literal or an identifier between two `delim`; `z` is the text behind the first. -/
def quotedToken (delim : Char) (z : CString) : TokenType × Nat :=
  match closing delim z with
  | none => (.illegal, z.length + 1)
  | some i => (if delim = '\'' then .string else .quoted, i + 2)

/-- The characters of a comment from `z` on, behind the character `c` of it. -/
def commentLength : Char → CString → Nat
  | _, [] => 0
  | c, d :: z => if c = '*' ∧ d = '/' then 1 else 1 + commentLength d z

/-- An exponent, if there is one: `e` or `E`, perhaps a sign, and a digit. -/
def exponent (z : CString) : Nat :=
  match z with
  | e :: d :: rest =>
    if e = 'e' ∨ e = 'E' then
      if d.isDigit then 2 + run Char.isDigit rest
      else if (d = '+' ∨ d = '-') ∧ 0 < run Char.isDigit rest then 2 + run Char.isDigit rest
      else 0
    else 0
  | _ => 0

/-- What follows the integer part of a number. -/
def fraction (z : CString) : Nat :=
  match z with
  | '.' :: rest => 1 + run Char.isDigit rest
  | _ => 0

def numberToken (z : CString) : TokenType × Nat :=
  let i := run Char.isDigit z
  let f := fraction (z.drop i)
  let e := exponent (z.drop (i + f))
  let more := run isIdChar (z.drop (i + f + e))
  if more = 0 then (if f + e = 0 then .integer else .float, i + f + e)
  else (.illegal, i + f + e + more)

/-- `n` counts the characters of the name so far. -/
def variableToken : Nat → CString → TokenType × Nat
  | n, [] => (if n = 0 then .illegal else .variable, 1)
  | n, [c] =>
    if isIdChar c then (.variable, 2)
    else if c = '(' ∧ 0 < n then (.illegal, 2)
    else (if n = 0 then .illegal else .variable, 1)
  | n, c :: d :: z =>
    if isIdChar c then
      let (kind, i) := variableToken (n + 1) (d :: z)
      (kind, i + 1)
    else if c = '(' ∧ 0 < n then
      let i := run (fun c => !isSpace c && c != ')') (d :: z)
      if (d :: z)[i]? = some ')' then (.variable, i + 3) else (.illegal, i + 2)
    else if c = ':' ∧ d = ':' then
      let (kind, i) := variableToken n z
      (kind, i + 2)
    else (if n = 0 then .illegal else .variable, 1)

/-- Behind `x'`. -/
def blobToken (z : CString) : TokenType × Nat :=
  let i := run isXDigit z
  if z[i]? = some '\'' ∧ i % 2 = 0 then (.blob, i + 3)
  else
    let j := i + run (fun c => c != '\'') (z.drop i)
    (.illegal, if j < z.length then j + 3 else j + 2)

/-- `-`, or a comment up to the end of the line. -/
def minusToken (z : CString) : TokenType × Nat :=
  match z with
  | '-' :: z => (.space, 2 + run (fun c => c != '\n') z)
  | _ => (.minus, 1)

/-- `/`, or a comment up to the next `*/`. -/
def slashToken (z : CString) : TokenType × Nat :=
  match z with
  | '*' :: d :: z => (.space, 3 + commentLength d z)
  | _ => (.slash, 1)

/-- An identifier between `[` and `]`. -/
def bracketToken (z : CString) : TokenType × Nat :=
  let i := run (fun c => c != ']') z
  if i < z.length then (.quoted, i + 2) else (.illegal, i + 1)

/-- What each of these characters is alone, and what it is with the next one. -/
def operators : List (Char × TokenType × List (Char × TokenType)) :=
  [('(', .lp, []), (')', .rp, []), (';', .semi, []), ('+', .plus, []), ('*', .star, []),
    ('%', .rem, []), (',', .comma, []), ('&', .bitand, []), ('~', .bitnot, []), ('.', .dot, []),
    ('=', .eq, [('=', .eq)]), ('<', .lt, [('=', .le), ('>', .ne), ('<', .lshift)]),
    ('>', .gt, [('=', .ge), ('>', .rshift)]), ('|', .bitor, [('|', .concat)])]

/-- `single`, or what it is with the next character. -/
def operatorToken (single : TokenType) :
    List (Char × TokenType) → CString → TokenType × Nat
  | [], _ => (single, 1)
  | (d, kind) :: pairs, z =>
    if z.head? = some d then (kind, 2) else operatorToken single pairs z

/-- A blob, a keyword or an identifier, or a character that no token starts with. -/
def wordToken (c : Char) (z : CString) : TokenType × Nat :=
  if (c = 'x' ∨ c = 'X') ∧ z.head? = some '\'' then blobToken z.tail
  else if isIdChar c then (.word, 1 + run isIdChar z)
  else (.illegal, 1)

/-- `sqlite3GetToken`: the type and the length of the token at the start. -/
def getToken : CString → TokenType × Nat
  | [] => (.illegal, 1)
  | c :: z =>
    if c ∈ [' ', '\t', '\n', '\x0c', '\r'] then (.space, 1 + run isSpace z)
    else if c.isDigit ∨ (c = '.' ∧ 0 < run Char.isDigit z) then numberToken (c :: z)
    else if c ∈ ['\x60', '\'', '"'] then quotedToken c z
    else if c ∈ ['$', '@', '#', ':'] then variableToken 0 z
    else if c = '?' then (.variable, 1 + run Char.isDigit z)
    else if c = '-' then minusToken z
    else if c = '/' then slashToken z
    else if c = '[' then bracketToken z
    else if c = '!' then (if z.head? = some '=' then .ne else .illegal, 2)
    else
      match operators.lookup c with
      | some (single, pairs) => operatorToken single pairs z
      | none => wordToken c z

/-- `sLastToken`: the type of a token and its characters. -/
structure Token where
  kind : TokenType
  text : CString
  deriving DecidableEq, Repr

/-- A token, or nothing where it is space. -/
def kept (kind : TokenType) (text : CString) : List Token :=
  if kind = .space then [] else [⟨kind, text⟩]

/-- The loop of `sqlite3RunParser`: every token but the spaces goes to the parser. -/
def tokenizeLoop : Nat → CString → List Token
  | _, [] => []
  | 0, _ :: _ => []
  | fuel + 1, c :: z =>
    let token := getToken (c :: z)
    kept token.1 ((c :: z).take token.2) ++ tokenizeLoop fuel ((c :: z).drop token.2)

-- a token is never empty, so that a turn for every character is enough
def tokenize (text : CString) : List Token :=
  tokenizeLoop text.length text

/-- Behind the opening quote of a literal, what `sqlite3Dequote` leaves of it. -/
def dequoteLoop : CString → CString
  | [] => []
  | [c] => if c = '\'' then [] else [c]
  | c :: d :: z =>
    if c = '\'' then if d = '\'' then c :: dequoteLoop z else []
    else c :: dequoteLoop (d :: z)

/-- `sqlite3Dequote` of a string literal. -/
def dequote (text : CString) : CString :=
  dequoteLoop text.tail

end Ct.Sqlite
