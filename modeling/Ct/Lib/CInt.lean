import Mathlib.Algebra.Group.Int.Defs
import Mathlib.Algebra.GroupWithZero.Nat

set_option autoImplicit false

namespace Ct.Lib

/-- Conversion to `int`: reduction modulo 2^32 to the range of the type. -/
def toInt (x : Int) : Int := Int.bmod x (2 ^ 32)

/-- Conversion to `size_t`: reduction modulo 2^64. -/
def toSize (x : Int) : Nat := (x % 2 ^ 64).toNat

theorem toInt_of_range {x : Int} (lower : -(2 ^ 31) ≤ x) (upper : x < 2 ^ 31) : toInt x = x := by
  unfold toInt
  rw [Int.bmod_eq_of_le] <;> omega

@[simp] theorem toInt_natCast {x : Nat} (small : x < 2 ^ 31) : toInt (x : Int) = x :=
  toInt_of_range (by omega) (by omega)

theorem toSize_of_range {x : Int} (lower : 0 ≤ x) (upper : x < 2 ^ 64) : toSize x = x.toNat := by
  unfold toSize
  rw [Int.emod_eq_of_lt lower upper]

/-- What holds of the bytes one by one. -/
theorem byte_cases {P : BitVec 8 → Prop} (all : ∀ n < 256, P (BitVec.ofNat 8 n)) : ∀ b, P b := by
  intro b
  have this := all b.toNat b.isLt
  rwa [BitVec.ofNat_toNat, BitVec.setWidth_eq] at this

end Ct.Lib
