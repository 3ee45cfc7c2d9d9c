import Ct.Lib.Fault
import Mathlib.Data.Rat.Floor
import Mathlib.Tactic.Linarith

set_option autoImplicit false

namespace Ct.Lib

/-- A floating-point value without its fraction. -/
def truncate (x : ℚ) : Int := if 0 ≤ x then ⌊x⌋ else ⌈x⌉

/-- Conversion of a floating-point value to `int`; it is defined only in the range of the type. -/
def floatToInt (x : ℚ) : Except Fault Int :=
  if -(2 ^ 31) ≤ truncate x ∧ truncate x < 2 ^ 31 then .ok (truncate x) else .error .conversion

theorem floatToInt_nonneg {x : ℚ} (nonneg : 0 ≤ x) :
    floatToInt x = if x < 2 ^ 31 then .ok ⌊x⌋ else .error .conversion := by
  have low : -(2 ^ 31) ≤ ⌊x⌋ := by
    have floor := Int.floor_nonneg.mpr nonneg
    omega
  have high : ⌊x⌋ < 2 ^ 31 ↔ x < 2 ^ 31 := by
    rw [Int.floor_lt]
    norm_num
  rw [floatToInt, truncate, if_pos nonneg]
  simp only [low, true_and, high]

theorem floatToInt_intCast {n : Int} (low : -(2 ^ 31) ≤ n) (high : n < 2 ^ 31) :
    floatToInt n = .ok n := by
  have same : truncate n = n := by
    rw [truncate, Int.floor_intCast, Int.ceil_intCast, ite_self]
  rw [floatToInt, same, if_pos ⟨low, high⟩]

end Ct.Lib
