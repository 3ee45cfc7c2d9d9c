import Ct.Lib.Format
import Ct.Lib.Hexadecimal
import Mathlib.Data.Nat.Digits.Lemmas

set_option autoImplicit false

namespace Ct.Lib

/-- The digit for a number below 16. -/
def digitOf (d : Nat) : Char := "0123456789ABCDEF".toList.getD d '\x00'

/-- The digits of a number, the most significant one first; 0 has none. -/
def numeral (b n : Nat) : CString := ((Nat.digits b n).map digitOf).reverse

/-- The number that digits stand for. -/
def numeralValue (b : Nat) (s : CString) : Nat := s.foldl (fun n c => b * n + hexDigit c) 0

/-- Digits of the base, perhaps behind a minus sign, that stand for `n`; a zero in front of
another digit would be superfluous. -/
def IsNumeral (b : Nat) (text : CString) (n : Int) : Prop :=
  ∃ negative digits, text = signText negative ++ digits ∧ digits ≠ [] ∧
    (∀ c ∈ digits, ∃ d < b, c = digitOf d) ∧ (digits.head? = some '0' → digits = ['0']) ∧
    n = if negative then -(numeralValue b digits : Int) else numeralValue b digits

section DigitOf

variable {d : Nat}

/-- What holds of the digit of each number below 16, by trying them. -/
theorem forall_digitOf (test : Nat → Bool) (all : (List.range 16).all test = true) (small : d < 16) :
    test d = true := List.all_eq_true.mp all d (List.mem_range.mpr small)

theorem hexDigit_digitOf (small : d < 16) : hexDigit (digitOf d) = d := by
  simpa using forall_digitOf (fun d => decide (hexDigit (digitOf d) = d)) (by decide) small

theorem digitOf_ne_terminator (small : d < 16) : digitOf d ≠ '\x00' := by
  simpa using forall_digitOf (fun d => decide (digitOf d ≠ '\x00')) (by decide) small

theorem digitOf_ne_percent (small : d < 16) : digitOf d ≠ '%' := by
  simpa using forall_digitOf (fun d => decide (digitOf d ≠ '%')) (by decide) small

theorem digitOf_eq_zero (small : d < 16) : digitOf d = '0' ↔ d = 0 := by
  simpa using forall_digitOf (fun d => decide (digitOf d = '0' ↔ d = 0)) (by decide) small

theorem digitOf_ten (small : d < 10) : digitOf d = Nat.digitChar d := by
  have all : (List.range 10).all (fun d => decide (digitOf d = Nat.digitChar d)) = true := by decide
  simpa using List.all_eq_true.mp all d (List.mem_range.mpr small)

end DigitOf

section Numeral

variable {b n : Nat}

theorem numeral_zero (b : Nat) : numeral b 0 = [] := by
  rw [numeral, Nat.digits_zero, List.map_nil, List.reverse_nil]

/-- The last digit is the remainder, and the others are those of the quotient. -/
theorem numeral_snoc (low : 2 ≤ b) (positive : 0 < n) :
    numeral b n = numeral b (n / b) ++ [digitOf (n % b)] := by
  rw [numeral, Nat.digits_def' low positive, List.map_cons, List.reverse_cons]
  rfl

theorem mem_numeral (low : 2 ≤ b) : ∀ c ∈ numeral b n, ∃ d < b, c = digitOf d := by
  intro c member
  rw [numeral, List.mem_reverse] at member
  obtain ⟨d, inside, rfl⟩ := List.mem_map.mp member
  exact ⟨d, Nat.digits_lt_base low inside, rfl⟩

theorem length_numeral_le {k : Nat} (low : 2 ≤ b) (small : n < b ^ k) : (numeral b n).length ≤ k := by
  rw [numeral, List.length_reverse, List.length_map]
  exact (Nat.digits_length_le_iff low n).mpr small

theorem numeral_ne_nil (positive : 0 < n) : numeral b n ≠ [] := by
  rw [numeral, ne_eq, List.reverse_eq_nil_iff, List.map_eq_nil_iff]
  exact Nat.digits_ne_nil_iff_ne_zero.mpr (Nat.ne_of_gt positive)

theorem numeralValue_snoc (b : Nat) (s : CString) (c : Char) :
    numeralValue b (s ++ [c]) = b * numeralValue b s + hexDigit c := by
  rw [numeralValue, numeralValue, List.foldl_append]
  rfl

theorem numeralValue_numeral (low : 2 ≤ b) (high : b ≤ 16) (n : Nat) :
    numeralValue b (numeral b n) = n := by
  induction n using Nat.strongRecOn with
  | _ n ih =>
    by_cases positive : 0 < n
    · have less : n / b < n := Nat.div_lt_self positive low
      have digit : n % b < 16 := Nat.lt_of_lt_of_le (Nat.mod_lt n (by omega)) high
      rw [numeral_snoc low positive, numeralValue_snoc, ih _ less, hexDigit_digitOf digit,
        Nat.div_add_mod]
    · obtain rfl : n = 0 := by omega
      rw [numeral_zero]
      rfl

/-- The first digit of a number is not 0. -/
theorem numeral_head (low : 2 ≤ b) (high : b ≤ 16) (n : Nat) : (numeral b n).head? ≠ some '0' := by
  rw [numeral, List.head?_reverse, List.getLast?_map]
  intro zero
  obtain ⟨d, last, same⟩ := Option.map_eq_some_iff.mp zero
  have member := List.mem_of_getLast? last
  have digit : d < 16 := Nat.lt_of_lt_of_le (Nat.digits_lt_base low member) high
  rw [(digitOf_eq_zero digit).mp same] at last
  have positive : n ≠ 0 := by
    rintro rfl
    rw [Nat.digits_zero] at last
    cases last
  have top := Nat.getLast_digit_ne_zero b positive
  rw [List.getLast?_eq_some_getLast (Nat.digits_ne_nil_iff_ne_zero.mpr positive)] at last
  exact top (Option.some_inj.mp last)

theorem numeral_isNumeral (low : 2 ≤ b) (high : b ≤ 16) (positive : 0 < n) :
    IsNumeral b (numeral b n) n := by
  refine ⟨false, numeral b n, rfl, numeral_ne_nil positive, mem_numeral low,
    fun zero => absurd zero (numeral_head low high n), ?_⟩
  rw [numeralValue_numeral low high]
  rfl

theorem numeral_ten (positive : 0 < n) : numeral 10 n = Nat.toDigits 10 n := by
  induction n using Nat.strongRecOn with
  | _ n ih =>
    rw [numeral_snoc (by decide) positive, Nat.toDigits_eq_if (by decide),
      digitOf_ten (Nat.mod_lt n (by decide))]
    split
    case isTrue small => rw [Nat.div_eq_of_lt small, numeral_zero, Nat.mod_eq_of_lt small]; rfl
    case isFalse large => rw [ih (n / 10) (by omega) (by omega)]

theorem IsNumeral.ne_nil {text : CString} {n : Int} (numeral : IsNumeral b text n) : text ≠ [] := by
  obtain ⟨negative, digits, rfl, full, _⟩ := numeral
  exact List.append_ne_nil_of_right_ne_nil _ full

theorem IsNumeral.unterminated {text : CString} {n : Int} (high : b ≤ 16)
    (numeral : IsNumeral b text n) : '\x00' ∉ text := by
  obtain ⟨negative, digits, rfl, _, all, _⟩ := numeral
  rw [List.mem_append, not_or]
  constructor
  · cases negative with
    | true => decide
    | false => decide
  · intro member
    obtain ⟨d, small, same⟩ := all _ member
    exact digitOf_ne_terminator (Nat.lt_of_lt_of_le small high) same.symm

end Numeral

end Ct.Lib
