import Ct.Lib.CString

set_option autoImplicit false

namespace Ct.Flex.AstCalc

open Ct.Lib

/-- The operations on `double` that the program uses, with `atof` and the conversion `%g`. -/
structure Double where
  Carrier : Type
  zero : Carrier
  add : Carrier → Carrier → Carrier
  sub : Carrier → Carrier → Carrier
  mul : Carrier → Carrier → Carrier
  div : Carrier → Carrier → Carrier
  atof : CString → Carrier
  g : Carrier → CString

variable (d : Double)

/-- `struct ast`, a `struct numval` under the node type `K`, or a null pointer. -/
inductive Ast
  | null
  | numval (value : d.Carrier)
  | ast (nodetype : Char) (l r : Ast)

/-- What the rules of the lexer return; the last one calls `yyerror`. -/
inductive Lexeme
  | number (value : d.Carrier)
  | op (c : Char)
  | eol
  | unknown

/-- `yylval.d = atof(yytext)` for a number, `yytext[0]` for an operator. -/
def lexemes : CString → List (Lexeme d)
  | [] => []
  | c :: rest =>
    if c.isDigit then
      .number (d.atof (c :: rest.takeWhile Char.isDigit)) :: lexemes (rest.dropWhile Char.isDigit)
    else if c = '+' ∨ c = '-' ∨ c = '*' ∨ c = '/' then .op c :: lexemes rest
    else if c = '\n' then .eol :: lexemes rest
    else .unknown :: lexemes rest
termination_by text => text.length
decreasing_by
  · exact Nat.lt_succ_of_le (List.dropWhile_sublist _).length_le
  · exact Nat.lt_succ_self _
  · exact Nat.lt_succ_self _
  · exact Nat.lt_succ_self _

variable {d}

def newast (type : Char) (l r : Ast d) : Ast d := .ast type l r

def newnum (value : d.Carrier) : Ast d := .numval value

/-- `calc`; there is no value where it calls `yyerror` for the type of a node. -/
def Ast.calc : Ast d → Option d.Carrier
  | .null => some d.zero
  | .numval value => some value
  | .ast nodetype l r =>
    if nodetype = '+' then do pure (d.add (← l.calc) (← r.calc))
    else if nodetype = '-' then do pure (d.sub (← l.calc) (← r.calc))
    else if nodetype = '*' then do pure (d.mul (← l.calc) (← r.calc))
    else if nodetype = '/' then do pure (d.div (← l.calc) (← r.calc))
    else none

/-- A symbol on the stack of the parser, above `calclist`. A `NUMBER` and a `term` are reduced as
soon as they are there. -/
inductive Symbol (d : Double)
  | exp (a : Ast d)
  | factor (a : Ast d)
  | op (c : Char)

/-- The reduction to `factor`, with a `term` on the stack. -/
def reduceTerm (a : Ast d) : List (Symbol d) → List (Symbol d)
  | .op c :: .factor l :: stack => .factor (newast c l a) :: stack
  | stack => .factor a :: stack

/-- The reduction to `exp`, for a lookahead other than `'*'` and `'/'`. -/
def reduceFactor : List (Symbol d) → List (Symbol d)
  | .factor r :: .op c :: .exp l :: stack => .exp (newast c l r) :: stack
  | .factor a :: stack => .exp a :: stack
  | stack => stack

/-- What the parser does with a number or an operator, if it is no syntax error. -/
def feed (stack : List (Symbol d)) : Lexeme d → Option (List (Symbol d))
  | .number value =>
    match reduceFactor stack with
    | .exp _ :: _ => none
    | stack => some (reduceTerm (newnum value) stack)
  | .op c =>
    if c = '*' ∨ c = '/' then
      match stack with
      | .factor a :: stack => some (.op c :: .factor a :: stack)
      | _ => none
    else
      match reduceFactor stack with
      | .exp a :: stack => some (.op c :: .exp a :: stack)
      | _ => none
  | _ => none

inductive Ending
  | returned
  | aborted
  deriving DecidableEq

/-- `yyerror`, which aborts. -/
def yyerror (message : CString) : CString × Ending := ("yyerror: ".toList ++ message, .aborted)

/-- What is printed before what a later part of the run prints. -/
def printed (text : CString) (later : CString × Ending) : CString × Ending :=
  (text ++ later.1, later.2)

/-- `yyparse`, with what it and `yylex` print. -/
def yyparse : List (Symbol d) → List (Lexeme d) → CString × Ending
  | [], [] => ([], .returned)
  | _, [] => yyerror "syntax error".toList
  | _, .unknown :: _ => yyerror ". error\n".toList
  | stack, .eol :: rest =>
    match reduceFactor stack with
    | [] => printed "> ".toList (yyparse [] rest)
    | [.exp a] =>
      match a.calc with
      | some value =>
        printed ("= ".toList ++ d.g value ++ "\n\n> ".toList) (yyparse [] rest)
      | none => yyerror "node type fault.\n".toList
    | _ => yyerror "syntax error".toList
  | stack, lexeme :: rest =>
    match feed stack lexeme with
    | some stack => yyparse stack rest
    | none => yyerror "syntax error".toList

def main (d : Double) (input : CString) : CString × Ending :=
  printed "> ".toList (yyparse [] (lexemes d input))

end Ct.Flex.AstCalc
