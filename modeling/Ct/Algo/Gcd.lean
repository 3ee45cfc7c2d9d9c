import Ct.Lib.Format
import Ct.Lib.Scan
import Mathlib.Algebra.Group.Int.Defs

set_option autoImplicit false

namespace Ct.Algo.Gcd

open Ct.Lib

/-- A remainder by a positive number is less. -/
theorem remainder_less {a b : Int} (positive : b > 0) : (a.tmod b).toNat < b.toNat := by
  have less := Int.tmod_lt_of_pos a positive
  omega

def getGcd (a b : Int) : Int :=
  if _positive : b > 0 then getGcd b (a.tmod b) else a
termination_by b.toNat
decreasing_by exact remainder_less _positive

/-- `atoi`, which has no defined result for a number outside of `int`. -/
def atoi (s : CString) : Option Int :=
  let n := ((scanNumber Char.isDigit decimalValue id s).map Prod.fst).getD 0
  if -(2 ^ 31) ≤ n ∧ n < 2 ^ 31 then some n else none

/-- What `main` of the program prints. -/
inductive Output
  | lessArgument
  | result (a b gcd : Int)
  deriving DecidableEq, Repr

def Output.text : Output → CString
  | .lessArgument => "less argument\n".toList
  | .result a b gcd =>
    intText a ++ ", ".toList ++ intText b ++ " = ".toList ++ intText gcd ++ "\n".toList

/-- `main`, with its return value. -/
def main : List CString → Option (Int × Output)
  | _ :: first :: second :: _ => do
    let a ← atoi first
    let b ← atoi second
    pure (0, .result a b (getGcd a b))
  | _ => some (-1, .lessArgument)

/-- The command line has these two numbers. -/
def Accepts (argv : List CString) (a b : Int) : Prop :=
  ∃ program first second more, argv = program :: first :: second :: more ∧
    atoi first = some a ∧ atoi second = some b

/-- The program ends, and shows a number whose absolute value is the greatest common divisor. -/
def ShowsGcd (argv : List CString) (a b : Int) : Prop :=
  ∃ r, main argv = some (0, .result a b r) ∧ r.natAbs = Int.gcd a b

section GetGcd

variable {a b : Int}

theorem getGcd_stop (stop : ¬ b > 0) : getGcd a b = a := by
  rw [getGcd, dif_neg stop]

theorem getGcd_next (positive : b > 0) : getGcd a b = getGcd b (a.tmod b) := by
  rw [getGcd, dif_pos positive]

/-- One turn of the loop keeps the divisors. -/
theorem gcd_next (a b : Int) : Int.gcd b (a.tmod b) = Int.gcd a b := by
  rw [Int.gcd, Int.natAbs_tmod, Nat.gcd_comm, ← Nat.gcd_rec, Nat.gcd_comm]
  rfl

/-- As long as nothing is negative, the loop is the algorithm of Euclid. -/
theorem getGcd_natural (a b : Int) (low : 0 ≤ a) (low' : 0 ≤ b) : getGcd a b = Int.gcd a b := by
  induction a, b using getGcd.induct with
  | case1 a b positive ih =>
    rw [getGcd_next positive, ih low' (Int.tmod_nonneg b low), gcd_next]
  | case2 a b stop =>
    obtain rfl : b = 0 := by omega
    rw [getGcd_stop stop, Int.gcd_zero_right, Int.natAbs_of_nonneg low]

/-- A negative dividend leaves no positive remainder, so that the loop ends with the divisor. -/
theorem getGcd_negative (negative : a < 0) (positive : b > 0) : getGcd a b = b := by
  rw [getGcd_next positive, getGcd_stop]
  have opposite := Int.tmod_nonneg b (show 0 ≤ -a by omega)
  rw [Int.neg_tmod] at opposite
  omega

theorem getGcd_iff (a b : Int) : (getGcd a b).natAbs = Int.gcd a b ↔
    (0 < b ∧ (0 ≤ a ∨ b ∣ a)) ∨ (b ≤ 0 ∧ a ∣ b) := by
  by_cases positive : 0 < b
  · have notLow : ¬ b ≤ 0 := by omega
    by_cases low : 0 ≤ a
    · rw [getGcd_natural a b low (Int.le_of_lt positive), Int.natAbs_natCast]
      simp [positive, low]
    · rw [getGcd_negative (by omega) positive, eq_comm, Int.gcd_eq_natAbs_right_iff_dvd]
      simp [positive, low, notLow]
  · rw [getGcd_stop positive, eq_comm, Int.gcd_eq_natAbs_left_iff_dvd]
    simp [positive, Int.not_lt.mp positive]

end GetGcd

/-- The command line `4 -6`. -/
theorem negative_divisor_missed :
    ¬ ∀ (argv : List CString) (a b : Int), Accepts argv a b → (a, b) ≠ (0, 0) →
      ShowsGcd argv a b := by
  intro shows
  obtain ⟨r, shown, divides⟩ := shows ["gcd".toList, "4".toList, "-6".toList] 4 (-6)
    ⟨_, _, _, _, rfl, by decide, by decide⟩ (by decide)
  have read : atoi "4".toList = some 4 ∧ atoi "-6".toList = some (-6) := by decide
  simp only [main, read.1, read.2, Option.bind_eq_bind, Option.bind_some, Option.pure_def,
    getGcd_stop (show ¬ (-6 : Int) > 0 by decide), Option.some.injEq, Prod.mk.injEq,
    Output.result.injEq, true_and] at shown
  rw [← shown] at divides
  exact absurd divides (by decide)

/-- Where the loop runs, only a negative `a` that `b` does not divide goes wrong; where it does not
run, `a` is shown as it is. -/
theorem showsGcd_iff {argv : List CString} {a b : Int} (accepted : Accepts argv a b) :
    ShowsGcd argv a b ↔ (0 < b ∧ (0 ≤ a ∨ b ∣ a)) ∨ (b ≤ 0 ∧ a ∣ b) := by
  obtain ⟨program, first, second, more, rfl, read, read'⟩ := accepted
  have ran : main (program :: first :: second :: more) = some (0, .result a b (getGcd a b)) := by
    rw [main, read, read']
    rfl
  rw [← getGcd_iff, ShowsGcd, ran]
  constructor
  · rintro ⟨r, shown, divides⟩
    cases shown
    exact divides
  · exact fun divides => ⟨_, rfl, divides⟩

theorem showsGcd_twelve : ShowsGcd ["gcd".toList, "12".toList, "18".toList] 12 18 :=
  (showsGcd_iff ⟨_, _, _, _, rfl, by decide, by decide⟩).mpr (by decide)

end Ct.Algo.Gcd
