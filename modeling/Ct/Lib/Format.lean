import Ct.Lib.CString
import Mathlib.Algebra.Group.Int.Defs
import Mathlib.Algebra.GroupWithZero.Nat

set_option autoImplicit false

namespace Ct.Lib

def signText (negative : Bool) : CString :=
  if negative then ['-'] else []

/-- `%d` -/
def intText (x : Int) : CString :=
  signText (x < 0) ++ Nat.toDigits 10 x.natAbs

/-- `%x`, which reads an `int` as unsigned. -/
def hexText (x : Int) : CString := Nat.toDigits 16 (x % 2 ^ 32).toNat

theorem hexText_digit {x : Int} (low : 0 ≤ x) (high : x < 16) :
    hexText x = [Nat.digitChar x.toNat] := by
  rw [hexText, Int.emod_eq_of_lt low (by omega)]
  exact Nat.toDigits_of_lt_base (by omega)

/-- A negative number has many digits. -/
theorem hexText_negative {x : Int} (low : -(2 ^ 31) ≤ x) (high : x < 0) :
    7 < (hexText x).length := by
  apply Nat.lt_of_not_le
  intro short
  rw [hexText, Nat.length_toDigits_le_iff (by decide) (by decide)] at short
  omega

/-- A number below a power of ten has few digits, and perhaps a sign. -/
theorem length_intText_le {x : Int} {k : Nat} (positive : 0 < k) (small : x.natAbs < 10 ^ k) :
    (intText x).length ≤ k + 1 := by
  have digits := (Nat.length_toDigits_le_iff (by decide) positive).mpr small
  have sign : (signText (x < 0)).length ≤ 1 := by
    rw [signText]
    split
    · exact Nat.le_refl 1
    · exact Nat.zero_le 1
  rw [intText, List.length_append, Nat.add_comm]
  exact Nat.add_le_add digits sign

/-- A `float`; a finite one is `mantissa * 2 ^ exponent` and its sign. -/
inductive CFloat
  | finite (negative : Bool) (mantissa : Nat) (exponent : Int)
  | inf (negative : Bool)
  | nan (negative : Bool)
  deriving DecidableEq, Repr

/-- The integer next to `a / b`, and the even one of two that are as near. -/
def roundHalfEven (a b : Nat) : Nat :=
  if 2 * (a % b) < b ∨ 2 * (a % b) = b ∧ a / b % 2 = 0 then a / b else a / b + 1

def thousandths (mantissa : Nat) : Int → Nat
  | .ofNat e => 1000 * mantissa * 2 ^ e
  | .negSucc e => roundHalfEven (1000 * mantissa) (2 ^ (e + 1))

/-- The three digits behind the point. -/
def decimals (n : Nat) : CString :=
  [Nat.digitChar (n / 100 % 10), Nat.digitChar (n / 10 % 10), Nat.digitChar (n % 10)]

/-- `%.3f` -/
def floatText : CFloat → CString
  | .finite negative mantissa exponent =>
    let n := thousandths mantissa exponent
    signText negative ++ (Nat.toDigits 10 (n / 1000) ++ '.' :: decimals n)
  | .inf negative => signText negative ++ "inf".toList
  | .nan negative => signText negative ++ "nan".toList

example : floatText (.finite true 25 (-1)) = "-12.500".toList := by decide

theorem decimals_digit {n : Nat} {c : Char} (inside : c ∈ decimals n) : c.isDigit = true := by
  simp only [decimals, List.mem_cons, List.not_mem_nil, or_false] at inside
  rcases inside with rfl | rfl | rfl
  · simp [Nat.mod_lt]
  · simp [Nat.mod_lt]
  · simp [Nat.mod_lt]

end Ct.Lib
