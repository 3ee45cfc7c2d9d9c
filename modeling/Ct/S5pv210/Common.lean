import Mathlib.Algebra.GroupWithZero.Nat

set_option autoImplicit false

namespace Ct.S5pv210

/-- What `region_write` makes of the value `reg` that it has read. -/
def regionWrite (reg mask : BitVec 32) (index : Nat) (val : BitVec 32) : BitVec 32 :=
  (~~~(mask <<< index) &&& reg) ||| ((val &&& mask) <<< index)

/-- What `region_read` makes of it. -/
def regionRead (reg mask : BitVec 32) (index : Nat) : BitVec 32 := (reg >>> index) &&& mask

/-- What `set2clear` writes. -/
def set2clear (mask : BitVec 32) (index : Nat) : BitVec 32 := mask <<< index

/-- The bits under the mask are those of the value, all others are written back. -/
theorem regionWrite_getLsbD (reg mask val : BitVec 32) (index : Nat) {i : Nat} (inside : i < 32) :
    (regionWrite reg mask index val).getLsbD i =
      if index ≤ i ∧ mask.getLsbD (i - index) = true then val.getLsbD (i - index)
      else reg.getLsbD i := by
  rw [regionWrite, BitVec.getLsbD_or, BitVec.getLsbD_and, BitVec.getLsbD_not,
    BitVec.getLsbD_shiftLeft, BitVec.getLsbD_shiftLeft, BitVec.getLsbD_and]
  by_cases below : i < index
  · have before : ¬index ≤ i := by omega
    simp [below, before, inside]
  · have behind : index ≤ i := by omega
    cases mask.getLsbD (i - index) with
    | false => simp [behind, inside]
    | true => simp [below, behind, inside]

theorem regionRead_getLsbD (reg mask : BitVec 32) (index i : Nat) :
    (regionRead reg mask index).getLsbD i = (reg.getLsbD (index + i) && mask.getLsbD i) := by
  rw [regionRead, BitVec.getLsbD_and, BitVec.getLsbD_ushiftRight]

theorem set2clear_bit {index : Nat} (inside : index < 32) (i : Nat) :
    (set2clear 1 index).getLsbD i = decide (i = index) := by
  by_cases same : i = index
  · simp [set2clear, same, inside]
  · by_cases below : i < index
    · simp [set2clear, same, below]
    · have later : i - index ≠ 0 := by omega
      simp [set2clear, same, later]

/-- A one-bit field is set to the lowest bit of the value; every other bit is written back. -/
theorem regionWrite_bit {index : Nat} (inside : index < 32) (reg val : BitVec 32) (i : Nat) :
    (regionWrite reg 1 index val).getLsbD i =
      if i = index then val.getLsbD 0 else reg.getLsbD i := by
  by_cases high : i < 32
  · rw [regionWrite_getLsbD reg 1 val index high]
    by_cases same : i = index
    · simp [same]
    · have apart : ¬(index ≤ i ∧ (1 : BitVec 32).getLsbD (i - index) = true) := by
        rintro ⟨behind, bit⟩
        have least : i - index ≠ 0 := by omega
        simp [least] at bit
      rw [if_neg apart, if_neg same]
  · rw [BitVec.getLsbD_of_ge _ i (by omega), BitVec.getLsbD_of_ge reg i (by omega),
      if_neg (by omega)]

theorem maskBit_lt {mask : BitVec 32} {n : Nat} (low : mask.toNat < 2 ^ n) {i : Nat}
    (bit : mask.getLsbD i = true) : i < n := by
  apply Nat.lt_of_not_le
  intro high
  rw [BitVec.getLsbD, Nat.testBit_lt_two_pow (Nat.lt_of_lt_of_le low
    (Nat.pow_le_pow_right (by decide) high))] at bit
  cases bit

/-- The bits below and above the field are written back. -/
theorem regionWrite_outside (reg val : BitVec 32) {mask : BitVec 32} {n : Nat}
    (low : mask.toNat < 2 ^ n) {index i : Nat} (inside : i < 32)
    (outside : i < index ∨ index + n ≤ i) :
    (regionWrite reg mask index val).getLsbD i = reg.getLsbD i := by
  have apart : ¬(index ≤ i ∧ mask.getLsbD (i - index) = true) := by
    rintro ⟨behind, bit⟩
    have := maskBit_lt low bit
    omega
  rw [regionWrite_getLsbD reg mask val index inside, if_neg apart]

/-- A field that is read after it has been written. -/
theorem regionRead_regionWrite (reg mask val : BitVec 32) (index : Nat)
    (fits : ∀ i, mask.getLsbD i = true → index + i < 32) :
    regionRead (regionWrite reg mask index val) mask index = val &&& mask := by
  apply BitVec.eq_of_getLsbD_eq
  intro i _
  rw [regionRead_getLsbD, BitVec.getLsbD_and]
  cases masked : mask.getLsbD i with
  | false => simp
  | true => simp [regionWrite_getLsbD _ _ _ _ (fits i masked), masked]

/-- The other fields stay as they are. -/
theorem regionRead_regionWrite_other (reg val : BitVec 32) {mask mask' : BitVec 32}
    {index index' : Nat} (fits : ∀ i, mask'.getLsbD i = true → index' + i < 32 ∧
      ¬(index ≤ index' + i ∧ mask.getLsbD (index' + i - index) = true)) :
    regionRead (regionWrite reg mask index val) mask' index' = regionRead reg mask' index' := by
  apply BitVec.eq_of_getLsbD_eq
  intro i _
  rw [regionRead_getLsbD, regionRead_getLsbD]
  cases masked : mask'.getLsbD i with
  | false => simp
  | true => rw [regionWrite_getLsbD _ _ _ _ (fits i masked).1, if_neg (fits i masked).2]

end Ct.S5pv210
