import Ct.Lib.CString
import Ct.Lib.Hexadecimal

set_option autoImplicit false

namespace Ct.Lib

/-- The parts of a `scanf` format. -/
inductive Directive
  /-- a character that must be the next one of the input -/
  | plain (c : Char)
  /-- white space, which stands for any amount of it -/
  | blank
  /-- `%d` -/
  | decimal
  /-- `%x` -/
  | hex
  deriving DecidableEq, Repr

/-- White space in the C locale. -/
def isWhite (c : Char) : Bool :=
  c = ' ' || c = '\t' || c = '\n' || c = '\x0b' || c = '\x0c' || c = '\r'

def scanSign : CString → Bool × CString
  | '-' :: input => (true, input)
  | '+' :: input => (false, input)
  | input => (false, input)

/-- The `0x` that a hexadecimal number may start with. -/
def skipMark : CString → CString
  | '0' :: 'x' :: input => input
  | '0' :: 'X' :: input => input
  | input => input

def decimalValue (digits : CString) : Nat :=
  digits.foldl (fun n c => 10 * n + (c.toNat - '0'.toNat)) 0

/-- A number behind white space, with the rest of the input; there is none without a digit. -/
def scanNumber (isDigit : Char → Bool) (value : CString → Nat) (mark : CString → CString)
    (input : CString) : Option (Int × CString) :=
  let (negative, input) := scanSign (input.dropWhile isWhite)
  let input := mark input
  let digits := input.takeWhile isDigit
  if digits.isEmpty then none
  else
    let n : Int := value digits
    some (if negative then -n else n, input.dropWhile isDigit)

/-- The numbers that `sscanf` stores, in their order; it stops where the input does not match. -/
def scan : List Directive → CString → List Int
  | [], _ => []
  | .plain c :: format, input =>
    match input with
    | [] => []
    | d :: rest => if c = d then scan format rest else []
  | .blank :: format, input => scan format (input.dropWhile isWhite)
  | .decimal :: format, input =>
    match scanNumber Char.isDigit decimalValue id input with
    | none => []
    | some (n, rest) => n :: scan format rest
  | .hex :: format, input =>
    match scanNumber hexDigits.contains hexValue skipMark input with
    | none => []
    | some (n, rest) => n :: scan format rest

example : scan [.decimal, .plain 'd', .plain 'b'] "-10db".toList = [-10] := by decide

end Ct.Lib
