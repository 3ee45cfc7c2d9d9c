import Ct.Lib.CInt
import Ct.Lib.RoundCipher
import Ct.Openssl.AesCore
import Mathlib.Tactic.IntervalCases

set_option autoImplicit false

namespace Ct.Openssl

open Ct.Lib

/-- The entry of a table for a byte. -/
def look (table : List Nat) (b : Byte) : Word := BitVec.ofNat 32 (table.getD b.toNat 0)

/-- The S-box. -/
def sBox (b : Byte) : Byte := (look te1 b).setWidth 8

def inverseSBox (b : Byte) : Byte := (look td4 b).setWidth 8

/-- The byte of a word behind `k` bits. -/
def byteAt (w : Word) (k : Nat) : Byte := (w >>> k).setWidth 8

def join (a b c d : Byte) : Word :=
  (a.setWidth 32 <<< 24) ^^^ (b.setWidth 32 <<< 16) ^^^ (c.setWidth 32 <<< 8) ^^^ d.setWidth 32

section Bytes

theorem entry_top (table : List Nat) (w : Word) :
    entry table (w >>> 24) = look table (byteAt w 24) := by
  have small : w.toNat >>> 24 < 2 ^ 8 := by
    have := w.isLt
    rw [Nat.shiftRight_eq_div_pow]
    omega
  rw [entry, look, byteAt, BitVec.toNat_setWidth, BitVec.toNat_ushiftRight, Nat.mod_eq_of_lt small]

/-- `& 0xff` -/
theorem toNat_and_ff (w : Word) : (w &&& 0xff#32).toNat = (w.setWidth 8).toNat := by
  rw [BitVec.toNat_and, BitVec.toNat_setWidth]
  exact Nat.and_two_pow_sub_one_eq_mod w.toNat 8

theorem entry_low (table : List Nat) (w : Word) :
    entry table (w &&& 0xff#32) = look table (byteAt w 0) := by
  rw [entry, look, byteAt, toNat_and_ff, BitVec.ushiftRight_zero]

theorem byteAt_shift (w : Word) (k : Nat) : byteAt (w >>> k) 0 = byteAt w k := by
  rw [byteAt, BitVec.ushiftRight_zero, byteAt]

theorem byteAt_join (a b c d : Byte) :
    byteAt (join a b c d) 24 = a ∧ byteAt (join a b c d) 16 = b ∧
      byteAt (join a b c d) 8 = c ∧ byteAt (join a b c d) 0 = d := by
  refine ⟨?_, ?_, ?_, ?_⟩
  all_goals
    ext i inside
    simp only [byteAt, join, BitVec.getElem_setWidth, BitVec.getLsbD_ushiftRight, BitVec.getLsbD_xor,
      BitVec.getLsbD_shiftLeft, BitVec.getLsbD_setWidth]
    interval_cases i
    all_goals simp

theorem join_byteAt (w : Word) : join (byteAt w 24) (byteAt w 16) (byteAt w 8) (byteAt w 0) = w := by
  ext i inside
  simp only [byteAt, join, BitVec.getElem_xor, BitVec.getElem_shiftLeft, BitVec.getElem_setWidth,
    BitVec.getLsbD_setWidth, BitVec.getLsbD_ushiftRight]
  interval_cases i
  all_goals simp

theorem byteAt_xor (v w : Word) (k : Nat) : byteAt (v ^^^ w) k = byteAt v k ^^^ byteAt w k := by
  ext i inside
  simp [byteAt]

end Bytes

section Field

theorem xor_pairs {w : Nat} (a b c d : BitVec w) :
    (a ^^^ b) ^^^ (c ^^^ d) = (a ^^^ c) ^^^ (b ^^^ d) := by
  ac_rfl

theorem xor_quads {w : Nat} (a b c d a' b' c' d' : BitVec w) :
    (a ^^^ a') ^^^ (b ^^^ b') ^^^ (c ^^^ c') ^^^ (d ^^^ d') =
      (a ^^^ b ^^^ c ^^^ d) ^^^ (a' ^^^ b' ^^^ c' ^^^ d') := by
  rw [xor_pairs a, xor_pairs (a ^^^ b), xor_pairs (a ^^^ b ^^^ c)]

/-- The product of a byte and `02`. -/
def xtime (b : Byte) : Byte := (b <<< 1) ^^^ (if b.msb then 0x1b else 0)

theorem xtime_xor (a b : Byte) : xtime (a ^^^ b) = xtime a ^^^ xtime b := by
  have carry : (if a.msb ^^ b.msb then 0x1b else 0 : Byte) =
      (if a.msb then 0x1b else 0) ^^^ (if b.msb then 0x1b else 0) := by
    cases a.msb
    · cases b.msb
      · rfl
      · rfl
    · cases b.msb
      · rfl
      · rfl
  rw [xtime, BitVec.msb_xor, BitVec.shiftLeft_xor_distrib, carry]
  exact xor_pairs ..

/-- The product of a byte and `c`, for a `c` of four bits. -/
def times (c : Byte) (b : Byte) : Byte :=
  (if c.getLsbD 0 then b else 0) ^^^ (if c.getLsbD 1 then xtime b else 0) ^^^
    (if c.getLsbD 2 then xtime (xtime b) else 0) ^^^
    (if c.getLsbD 3 then xtime (xtime (xtime b)) else 0)

theorem times_xor (c a b : Byte) : times c (a ^^^ b) = times c a ^^^ times c b := by
  have part : ∀ (bit : Bool) (u v : Byte),
      (if bit then u ^^^ v else 0) = (if bit then u else 0) ^^^ (if bit then v else 0) := by
    intro bit u v
    cases bit
    · exact (BitVec.xor_self (x := 0#8)).symm
    · rfl
  rw [times, xtime_xor, xtime_xor, xtime_xor, part, part, part, part]
  exact xor_quads ..

theorem join_xor (a b c d a' b' c' d' : Byte) :
    join (a ^^^ a') (b ^^^ b') (c ^^^ c') (d ^^^ d') = join a b c d ^^^ join a' b' c' d' := by
  rw [join, BitVec.setWidth_xor, BitVec.setWidth_xor, BitVec.setWidth_xor, BitVec.setWidth_xor,
    BitVec.shiftLeft_xor_distrib, BitVec.shiftLeft_xor_distrib, BitVec.shiftLeft_xor_distrib]
  exact xor_quads ..

/-- A byte times the coefficients of a column, as in `S[x].[02, 01, 01, 03]`. -/
def column (c₀ c₁ c₂ c₃ : Byte) (b : Byte) : Word :=
  join (times c₀ b) (times c₁ b) (times c₂ b) (times c₃ b)

theorem column_xor (c₀ c₁ c₂ c₃ a b : Byte) :
    column c₀ c₁ c₂ c₃ (a ^^^ b) = column c₀ c₁ c₂ c₃ a ^^^ column c₀ c₁ c₂ c₃ b := by
  rw [column, times_xor, times_xor, times_xor, times_xor, join_xor]
  rfl

end Field

section Tables

theorem inverseSBox_sBox : ∀ b : Byte, inverseSBox (sBox b) = b := byte_cases (by decide +kernel)

theorem sBox_inverseSBox : ∀ b : Byte, sBox (inverseSBox b) = b := byte_cases (by decide +kernel)

/-- An entry of a table that has been made of another one. -/
theorem look_map {table source : List Nat} {f : Byte → Word}
    (made : table = source.map fun v => (f (BitVec.ofNat 8 v)).toNat) (b : Byte)
    (inside : b.toNat < source.length) :
    look table b = f ((look source b).setWidth 8) := by
  have entry : table.getD b.toNat 0 = (f (BitVec.ofNat 8 (source.getD b.toNat 0))).toNat := by
    rw [made, List.getD_eq_getElem?_getD, List.getD_eq_getElem?_getD, List.getElem?_map,
      List.getElem?_eq_getElem inside]
    rfl
  rw [look, entry, BitVec.ofNat_toNat, BitVec.setWidth_eq, look, BitVec.setWidth_ofNat_of_le (by decide)]

set_option maxRecDepth 4000 in
/-- The comment at the tables: `Te0[x] = S[x].[02, 01, 01, 03]`, and so on. -/
theorem te_column (b : Byte) :
    look te0 b = column 2 1 1 3 (sBox b) ∧ look te1 b = column 3 2 1 1 (sBox b) ∧
      look te2 b = column 1 3 2 1 (sBox b) ∧ look te3 b = column 1 1 3 2 (sBox b) :=
  ⟨look_map (by decide +kernel) b b.isLt, look_map (by decide +kernel) b b.isLt,
    look_map (by decide +kernel) b b.isLt, look_map (by decide +kernel) b b.isLt⟩

set_option maxRecDepth 4000 in
/-- `Td0[x] = Si[x].[0e, 09, 0d, 0b]`, and so on. -/
theorem td_column (b : Byte) :
    look td0 b = column 14 9 13 11 (inverseSBox b) ∧ look td1 b = column 11 14 9 13 (inverseSBox b) ∧
      look td2 b = column 13 11 14 9 (inverseSBox b) ∧ look td3 b = column 9 13 11 14 (inverseSBox b) ∧
      look td4 b = (inverseSBox b).setWidth 32 :=
  ⟨look_map (by decide +kernel) b b.isLt, look_map (by decide +kernel) b b.isLt,
    look_map (by decide +kernel) b b.isLt, look_map (by decide +kernel) b b.isLt,
    look_map (by decide +kernel) b b.isLt⟩

end Tables

section Mix

/-- `MixColumns` of one column. -/
def mixWord (w : Word) : Word :=
  column 2 1 1 3 (byteAt w 24) ^^^ column 3 2 1 1 (byteAt w 16) ^^^ column 1 3 2 1 (byteAt w 8) ^^^
    column 1 1 3 2 (byteAt w 0)

theorem inverseMix_columns (w : Word) :
    inverseMix w =
      column 14 9 13 11 (byteAt w 24) ^^^ column 11 14 9 13 (byteAt w 16) ^^^
        column 13 11 14 9 (byteAt w 8) ^^^ column 9 13 11 14 (byteAt w 0) := by
  have index : ∀ (table : List Nat) (b : Byte), entry table (look te1 b &&& 0xff#32) = look table (sBox b) := by
    intro table b
    rw [entry, toNat_and_ff]
    rfl
  rw [inverseMix, entry_top te1, entry_low te1, entry_low te1, entry_low te1, byteAt_shift,
    byteAt_shift, index, index, index, index, (td_column _).1, (td_column _).2.1, (td_column _).2.2.1, (td_column _).2.2.2.1,
    inverseSBox_sBox, inverseSBox_sBox, inverseSBox_sBox, inverseSBox_sBox]

theorem inverseMix_xor (v w : Word) : inverseMix (v ^^^ w) = inverseMix v ^^^ inverseMix w := by
  simp only [inverseMix_columns, byteAt_xor, column_xor]
  exact xor_quads ..

/-- One byte of a column, mixed and unmixed. -/
theorem inverseMix_column : ∀ b : Byte,
    inverseMix (column 2 1 1 3 b) = b.setWidth 32 <<< 24 ∧
      inverseMix (column 3 2 1 1 b) = b.setWidth 32 <<< 16 ∧
      inverseMix (column 1 3 2 1 b) = b.setWidth 32 <<< 8 ∧
      inverseMix (column 1 1 3 2 b) = b.setWidth 32 := by
  simp only [inverseMix_columns]
  exact byte_cases (by decide +kernel)

theorem inverseMix_mixWord (w : Word) : inverseMix (mixWord w) = w := by
  rw [mixWord, inverseMix_xor, inverseMix_xor, inverseMix_xor, (inverseMix_column _).1,
    (inverseMix_column _).2.1, (inverseMix_column _).2.2.1, (inverseMix_column _).2.2.2]
  exact join_byteAt w

end Mix

end Ct.Openssl
