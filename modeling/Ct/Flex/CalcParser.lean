import Ct.Flex.Calc
import Ct.Lib.Fault
import Ct.Lib.Scan
import Mathlib.Algebra.Group.Int.Defs

set_option autoImplicit false

namespace Ct.Flex.Calc

open Ct.Lib

/-- What the rules of the lexer do: they return a token or `EOL`, or print `ERROR`. -/
inductive Lexeme
  | token (t : Token)
  | eol
  | unknown
  deriving DecidableEq

/-- The rules for one character. -/
def rule (c : Char) : Option Lexeme :=
  if c = '+' then some (.token .add)
  else if c = '-' then some (.token .sub)
  else if c = '*' then some (.token .mul)
  else if c = '/' then some (.token .div)
  else if c = '|' then some (.token .abs)
  else if c = '(' then some (.token .lop)
  else if c = ')' then some (.token .rop)
  else if c = ' ' ∨ c = '\t' then none
  else if c = '\n' then some .eol
  else some .unknown

/-- The rule with the longest match at the start of a text, and what is left behind the match. A
comment goes up to and including the end of its line. -/
def longestMatch (c : Char) (rest : CString) : Option Lexeme × CString :=
  if c.isDigit then
    (some (.token (.number (decimalValue (c :: rest.takeWhile Char.isDigit)))),
      rest.dropWhile Char.isDigit)
  else if c = '/' ∧ rest.head? = some '/' ∧ '\n' ∈ rest then
    (none, (rest.dropWhile (· ≠ '\n')).tail)
  else (rule c, rest)

theorem longestMatch_shorter (c : Char) (rest : CString) :
    (longestMatch c rest).2.length ≤ rest.length := by
  rw [longestMatch]
  split
  · exact (List.dropWhile_sublist _).length_le
  · split
    · exact ((List.tail_sublist _).trans (List.dropWhile_sublist _)).length_le
    · exact Nat.le_refl _

/-- `yylex`, called until the end of the input. -/
def lexemes : CString → List Lexeme
  | [] => []
  | c :: rest => (longestMatch c rest).1.toList ++ lexemes (longestMatch c rest).2
termination_by text => text.length
decreasing_by exact Nat.lt_succ_of_le (longestMatch_shorter c rest)

/-- Why `yyparse` does not come to its end: a syntax error, or an operation on `int` without a
defined result. -/
inductive Stop
  | syntaxError
  | undefined
  deriving DecidableEq

inductive Ending
  | accepted
  | stopped (stop : Stop)
  deriving DecidableEq

/-- A line of the output: `ERROR`, or the value of an expression. -/
inductive Event
  | error
  | value (v : Int)
  deriving DecidableEq

/-- A symbol on the stack of the parser, with its value. Below all of them is `inputlist`. A
`NUMBER` and a `term` are reduced as soon as they are there, since no other action is possible. -/
inductive Symbol
  | exp (v : Int)
  | factor (v : Int)
  | add
  | sub
  | mul
  | div
  | lop
  | abs
  deriving DecidableEq

/-- A result of the type `int`. -/
def checked (v : Int) : Except Stop Int :=
  if -(2 ^ 31) ≤ v ∧ v < 2 ^ 31 then .ok v else .error .undefined

/-- `$1 / $3` -/
def quotient (a b : Int) : Except Stop Int :=
  match divide a b with
  | none => .error .undefined
  | some q => checked q

/-- `$2 > 0 ? $2 : -$2` -/
def absolute (a : Int) : Except Stop Int := checked (if a > 0 then a else -a)

/-- The reduction to `factor`, with a `term` on the stack. -/
def reduceTerm (v : Int) : List Symbol → Except Stop (List Symbol)
  | .mul :: .factor u :: stack => do
    let w ← checked (u * v)
    pure (.factor w :: stack)
  | .div :: .factor u :: stack => do
    let w ← quotient u v
    pure (.factor w :: stack)
  | stack => pure (.factor v :: stack)

/-- The reduction to `exp` where a `factor` is on the stack, for a lookahead other than `MUL` and
`DIV`. -/
def reduceFactor : List Symbol → Except Stop (List Symbol)
  | .factor v :: .add :: .exp u :: stack => do
    let w ← checked (u + v)
    pure (.exp w :: stack)
  | .factor v :: .sub :: .exp u :: stack => do
    let w ← checked (u - v)
    pure (.exp w :: stack)
  | .factor v :: stack => pure (.exp v :: stack)
  | stack => pure stack

/-- The shift of a token, with the reductions behind it that need no lookahead. -/
def shift : List Symbol → Token → Except Stop (List Symbol)
  | .exp v :: stack, .add => .ok (.add :: .exp v :: stack)
  | .exp v :: stack, .sub => .ok (.sub :: .exp v :: stack)
  | .exp v :: .lop :: stack, .rop => reduceTerm v stack
  | .exp v :: .abs :: stack, .abs => do
    let w ← absolute v
    reduceTerm w stack
  | .exp _ :: _, _ => .error .syntaxError
  | stack, .number n => reduceTerm n stack
  | stack, .lop => .ok (.lop :: stack)
  | stack, .abs => .ok (.abs :: stack)
  | _, _ => .error .syntaxError

/-- `atoi(yytext)`, for a token that is a number. -/
def Token.read : Token → Except Stop Token
  | .number n => do
    let n ← checked n
    pure (.number n)
  | t => pure t

/-- What the parser does with the next token. -/
def feed (stack : List Symbol) (t : Token) : Except Stop (List Symbol) := do
  let t ← t.read
  match t, stack with
  | .mul, .factor v :: stack => pure (.mul :: .factor v :: stack)
  | .div, .factor v :: stack => pure (.div :: .factor v :: stack)
  | t, stack => do
    let stack ← reduceFactor stack
    shift stack t

/-- `inputlist exp EOL`, with the value that is printed. -/
def endLine (stack : List Symbol) : Except Stop Int := do
  match ← reduceFactor stack with
  | [.exp v] => pure v
  | _ => .error .syntaxError

def endInput (stack : List Symbol) : Ending :=
  match reduceFactor stack with
  | .error stop => .stopped stop
  | .ok [] => .accepted
  | .ok _ => .stopped .syntaxError

/-- `yyparse`, with what it and `yylex` print. -/
def yyparse : List Symbol → List Lexeme → List Event × Ending
  | stack, [] => ([], endInput stack)
  | stack, .unknown :: rest =>
    let (events, ending) := yyparse stack rest
    (.error :: events, ending)
  | stack, .token t :: rest =>
    match feed stack t with
    | .error stop => ([], .stopped stop)
    | .ok stack => yyparse stack rest
  | stack, .eol :: rest =>
    match endLine stack with
    | .error stop => ([], .stopped stop)
    | .ok v =>
      let (events, ending) := yyparse [] rest
      (.value v :: events, ending)

/-- `main`, with its input. -/
def main (input : CString) : List Event × Ending := yyparse [] (lexemes input)

mutual

/-- What the actions compute with values of the type `int`. -/
def Exp.int : Exp → Except Stop Int
  | .factor f => f.int
  | .add e f => do
    let a ← e.int
    let b ← f.int
    checked (a + b)
  | .sub e f => do
    let a ← e.int
    let b ← f.int
    checked (a - b)

def Factor.int : Factor → Except Stop Int
  | .term t => t.int
  | .mul f t => do
    let a ← f.int
    let b ← t.int
    checked (a * b)
  | .div f t => do
    let a ← f.int
    let b ← t.int
    quotient a b

def Term.int : Term → Except Stop Int
  | .number n => checked n
  | .abs e => do
    let a ← e.int
    absolute a
  | .paren e => e.int

end

end Ct.Flex.Calc
