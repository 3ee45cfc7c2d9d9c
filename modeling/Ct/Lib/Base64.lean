import Mathlib.Algebra.GroupWithZero.Nat

set_option autoImplicit false

namespace Ct.Lib

/-- The groups of six bits that bytes are written in, with `none` for padding. -/
def sextets : List (BitVec 8) → List (Option Nat)
  | [] => []
  | [a] => [some (a.toNat / 4), some (a.toNat % 4 * 16), none, none]
  | [a, b] => [some (a.toNat / 4), some (a.toNat % 4 * 16 + b.toNat / 16),
      some (b.toNat % 16 * 4), none]
  | a :: b :: c :: rest => some (a.toNat / 4) :: some (a.toNat % 4 * 16 + b.toNat / 16) ::
      some (b.toNat % 16 * 4 + c.toNat / 64) :: some (c.toNat % 64) :: sextets rest

/-- The bytes that groups of six bits make up. -/
def bytesOf : List (Option Nat) → List (BitVec 8)
  | some p :: some q :: some r :: some s :: rest =>
    BitVec.ofNat 8 (p * 4 + q / 16) :: BitVec.ofNat 8 (q % 16 * 16 + r / 4) ::
      BitVec.ofNat 8 (r % 4 * 64 + s) :: bytesOf rest
  | [some p, some q, some r, none] =>
    [BitVec.ofNat 8 (p * 4 + q / 16), BitVec.ofNat 8 (q % 16 * 16 + r / 4)]
  | [some p, some q, none, none] => [BitVec.ofNat 8 (p * 4 + q / 16)]
  | _ => []

/-- A group of six bits as a character of a table. -/
def symbol (table : List Char) : Option Nat → Char
  | none => '='
  | some n => table.getD n '\x00'

def base64Alphabet : List Char :=
  "ABCDEFGHIJKLMNOPQRSTUVWXYZabcdefghijklmnopqrstuvwxyz0123456789+/".toList

/-- The six bits that a character of the alphabet stands for. -/
def symbolValue (c : Char) : Option Nat :=
  if 'A' ≤ c ∧ c ≤ 'Z' then some (c.toNat - 'A'.toNat)
  else if 'a' ≤ c ∧ c ≤ 'z' then some (c.toNat - 'a'.toNat + 26)
  else if '0' ≤ c ∧ c ≤ '9' then some (c.toNat - '0'.toNat + 52)
  else if c = '+' then some 62
  else if c = '/' then some 63
  else none

/-- Base64 with the standard alphabet, and padding. -/
def base64 (bytes : List (BitVec 8)) : List Char := (sextets bytes).map (symbol base64Alphabet)

theorem eq_ofNat {b : BitVec 8} {n : Nat} (value : n = b.toNat) : BitVec.ofNat 8 n = b := by
  rw [value, BitVec.ofNat_toNat, BitVec.setWidth_eq]

theorem bytesOf_sextets (bytes : List (BitVec 8)) : bytesOf (sextets bytes) = bytes := by
  fun_induction sextets bytes with
  | case1 => rfl
  | case2 a =>
    have small := a.isLt
    rw [bytesOf, eq_ofNat (b := a) (by omega)]
  | case3 a b =>
    have small := b.isLt
    rw [bytesOf, eq_ofNat (b := a) (by omega), eq_ofNat (b := b) (by omega)]
  | case4 a b c rest ih =>
    have small := b.isLt
    have small' := c.isLt
    rw [bytesOf, ih, eq_ofNat (b := a) (by omega), eq_ofNat (b := b) (by omega),
      eq_ofNat (b := c) (by omega)]

theorem sextet_lt (bytes : List (BitVec 8)) : ∀ n, some n ∈ sextets bytes → n < 64 := by
  fun_induction sextets bytes with
  | case1 => exact fun n member => absurd member List.not_mem_nil
  | case2 a =>
    have small := a.isLt
    intro n member
    simp at member
    omega
  | case3 a b =>
    have small := a.isLt
    have small' := b.isLt
    intro n member
    simp at member
    omega
  | case4 a b c rest ih =>
    have small := a.isLt
    have small' := b.isLt
    have small'' := c.isLt
    intro n member
    simp only [List.mem_cons, Option.some.injEq] at member
    rcases member with rfl | rfl | rfl | rfl | later
    · omega
    · omega
    · omega
    · omega
    · exact ih n later

theorem length_sextets (bytes : List (BitVec 8)) :
    (sextets bytes).length = 4 * ((bytes.length + 2) / 3) := by
  fun_induction sextets bytes with
  | case1 => rfl
  | case2 a => simp
  | case3 a b => simp
  | case4 a b c rest ih =>
    rw [List.length_cons, List.length_cons, List.length_cons, List.length_cons, ih,
      List.length_cons, List.length_cons, List.length_cons]
    omega

theorem symbolValue_symbol {n : Nat} (six : n < 64) :
    symbolValue (symbol base64Alphabet (some n)) = some n := by
  have all : (List.range 64).all
      (fun n => symbolValue (symbol base64Alphabet (some n)) == some n) = true := by decide
  simpa using List.all_eq_true.mp all n (List.mem_range.mpr six)

/-- The characters are read back. -/
theorem map_symbolValue (bytes : List (BitVec 8)) :
    (base64 bytes).map symbolValue = sextets bytes := by
  have back : ∀ x ∈ sextets bytes, (symbolValue ∘ symbol base64Alphabet) x = id x := by
    intro x member
    cases x with
    | none => rfl
    | some n => exact symbolValue_symbol (sextet_lt bytes n member)
  rw [base64, List.map_map, List.map_congr_left back, List.map_id]

/-- Different bytes are written differently. -/
theorem base64_injective {bytes other : List (BitVec 8)} (same : base64 bytes = base64 other) :
    bytes = other := by
  rw [← bytesOf_sextets bytes, ← map_symbolValue, same, map_symbolValue, bytesOf_sextets]

end Ct.Lib
