import Mathlib.Algebra.GroupWithZero.Nat
import Mathlib.Data.List.Basic

set_option autoImplicit false

namespace Ct.Lib

/-- A number in base 16, the most significant digit first and the letters in upper case. -/
def hexNumeral (n : Nat) : List Char := (Nat.toDigits 16 n).map Char.toUpper

/-- The digits, with both cases of a letter. -/
def hexDigits : List Char := "0123456789ABCDEFabcdef".toList

/-- The number that a digit stands for. -/
def hexDigit (c : Char) : Nat :=
  if c ≤ '9' then c.toNat - '0'.toNat else c.toUpper.toNat - 'A'.toNat + 10

/-- The number that a text of digits stands for. -/
def hexValue (s : List Char) : Nat := s.foldl (fun n c => 16 * n + hexDigit c) 0

/-- A zero is a leading one if a digit follows it. -/
def dropLeadingZeros : List Char → List Char
  | [] => []
  | [c] => [c]
  | c :: d :: s => if c = '0' then dropLeadingZeros (d :: s) else c :: d :: s

/-- A number has one digit, or it has a last digit behind another number. -/
theorem hex_induction {motive : Nat → Prop} (digit : ∀ d, d < 16 → motive d)
    (more : ∀ n d, 0 < n → d < 16 → motive n → motive (16 * n + d)) (n : Nat) : motive n := by
  induction n using Nat.strongRecOn with
  | _ n ih =>
    by_cases small : n < 16
    · exact digit n small
    · have parts := Nat.div_add_mod n 16
      rw [← parts]
      exact more (n / 16) (n % 16) (by omega) (by omega) (ih (n / 16) (by omega))

section Digits

/-- What holds of each digit, by trying them. -/
theorem forall_hexDigits (test : Char → Bool) (all : hexDigits.all test = true) {c : Char}
    (digit : c ∈ hexDigits) : test c = true := List.all_eq_true.mp all c digit

theorem hexDigit_lt {c : Char} (digit : c ∈ hexDigits) : hexDigit c < 16 := by
  simpa using forall_hexDigits (fun c => decide (hexDigit c < 16)) (by decide) digit

theorem hexNumeral_hexDigit {c : Char} (digit : c ∈ hexDigits) :
    hexNumeral (hexDigit c) = [c.toUpper] := by
  simpa using forall_hexDigits (fun c => decide (hexNumeral (hexDigit c) = [c.toUpper]))
    (by decide) digit

theorem hexDigit_eq_zero {c : Char} (digit : c ∈ hexDigits) :
    hexDigit c = 0 ↔ c.toUpper = '0' := by
  simpa using forall_hexDigits (fun c => decide (hexDigit c = 0 ↔ c.toUpper = '0'))
    (by decide) digit

/-- The text of a number below 16. -/
theorem hexNumeral_digit {d : Nat} (small : d < 16) :
    hexNumeral d = ["0123456789ABCDEF".toList.getD d '0'] := by
  have all : (List.range 16).all
      (fun d => decide (hexNumeral d = ["0123456789ABCDEF".toList.getD d '0'])) = true := by decide
  simpa using List.all_eq_true.mp all d (List.mem_range.mpr small)

theorem hexValue_digit {d : Nat} (small : d < 16) : hexValue (hexNumeral d) = d := by
  have all : (List.range 16).all (fun d => decide (hexValue (hexNumeral d) = d)) = true := by decide
  simpa using List.all_eq_true.mp all d (List.mem_range.mpr small)

theorem mem_hexNumeral_digit {d : Nat} (small : d < 16) : ∀ c ∈ hexNumeral d, c ∈ hexDigits := by
  have all : (List.range 16).all (fun d => (hexNumeral d).all hexDigits.contains) = true := by
    decide
  have here := List.all_eq_true.mp all d (List.mem_range.mpr small)
  intro c member
  exact List.contains_iff_mem.mp (List.all_eq_true.mp here c member)

end Digits

theorem hexNumeral_more {n d : Nat} (positive : 0 < n) (small : d < 16) :
    hexNumeral (16 * n + d) = hexNumeral n ++ hexNumeral d := by
  rw [hexNumeral, ← Nat.toDigits_append_toDigits (by decide) positive small, List.map_append]
  rfl

theorem mem_hexNumeral (n : Nat) : ∀ c ∈ hexNumeral n, c ∈ hexDigits := by
  induction n using hex_induction with
  | digit d small => exact mem_hexNumeral_digit small
  | more n d positive small ih =>
    rw [hexNumeral_more positive small]
    exact List.forall_mem_append.mpr ⟨ih, mem_hexNumeral_digit small⟩

theorem length_hexNumeral_le {n k : Nat} (positive : 0 < k) (small : n < 16 ^ k) :
    (hexNumeral n).length ≤ k := by
  rw [hexNumeral, List.length_map]
  exact (Nat.length_toDigits_le_iff (by decide) positive).mpr small

/-- Reading the text of a number gives the number. -/
theorem hexValue_hexNumeral (n : Nat) : hexValue (hexNumeral n) = n := by
  induction n using hex_induction with
  | digit d small => exact hexValue_digit small
  | more n d positive small ih =>
    have last : hexValue (hexNumeral d) = d := hexValue_digit small
    have one := hexNumeral_digit small
    rw [one] at last
    rw [hexNumeral_more positive small, one, hexValue, List.foldl_append]
    change 16 * hexValue (hexNumeral n) + hexDigit _ = _
    rw [ih]
    change 16 * 0 + hexDigit _ = d at last
    omega

/-- Digits behind a number make the text of the number longer. -/
theorem hexNumeral_foldl (s : List Char) :
    ∀ n, 0 < n → (∀ c ∈ s, c ∈ hexDigits) →
      hexNumeral (s.foldl (fun n c => 16 * n + hexDigit c) n) =
        hexNumeral n ++ s.map Char.toUpper := by
  induction s with
  | nil => exact fun n _ _ => (List.append_nil _).symm
  | cons c s ih =>
    intro n positive digits
    obtain ⟨here, later⟩ := List.forall_mem_cons.mp digits
    rw [List.foldl_cons, ih _ (by omega) later, hexNumeral_more positive (hexDigit_lt here),
      hexNumeral_hexDigit here, List.append_assoc, List.map_cons, List.singleton_append]

/-- The text of the number that digits stand for has these digits in upper case. -/
theorem hexNumeral_hexValue {s : List Char} (full : s ≠ []) (digits : ∀ c ∈ s, c ∈ hexDigits) :
    hexNumeral (hexValue s) = dropLeadingZeros (s.map Char.toUpper) := by
  induction s with
  | nil => exact absurd rfl full
  | cons c s ih =>
    obtain ⟨here, later⟩ := List.forall_mem_cons.mp digits
    have first : hexValue (c :: s) = s.foldl (fun n c => 16 * n + hexDigit c) (hexDigit c) := by
      rw [hexValue, List.foldl_cons, Nat.mul_zero, Nat.zero_add]
    have zero := hexDigit_eq_zero here
    cases s with
    | nil => exact (congrArg hexNumeral first).trans (hexNumeral_hexDigit here)
    | cons d s =>
      rw [List.map_cons, List.map_cons, dropLeadingZeros]
      by_cases leading : hexDigit c = 0
      · rw [if_pos (zero.mp leading), first, leading]
        exact ih (List.cons_ne_nil d s) later
      · have positive := Nat.pos_of_ne_zero leading
        rw [if_neg (mt zero.mpr leading), first, hexNumeral_foldl _ _ positive later,
          hexNumeral_hexDigit here]
        rfl

theorem hexValue_snoc (s : List Char) (c : Char) :
    hexValue (s ++ [c]) = 16 * hexValue s + hexDigit c := by
  rw [hexValue, hexValue, List.foldl_append]
  rfl

theorem hexDigit_eq_last {c : Char} (digit : c ∈ hexDigits) :
    hexDigit c = 15 ↔ c.toUpper = 'F' := by
  simpa using forall_hexDigits (fun c => decide (hexDigit c = 15 ↔ c.toUpper = 'F'))
    (by decide) digit

/-- The greatest number of `k` digits: the text ends in `k` times the last digit. -/
theorem hexValue_mod_eq_last (k : Nat) :
    ∀ {s : List Char}, (∀ c ∈ s, c ∈ hexDigits) →
      (hexValue s % 16 ^ k = 16 ^ k - 1 ↔ List.replicate k 'F' <:+ s.map Char.toUpper) := by
  induction k with
  | zero =>
    intro s _
    rw [Nat.pow_zero, Nat.mod_one, List.replicate_zero]
    simp
  | succ k ih =>
    intro s digits
    rcases List.eq_nil_or_concat' s with rfl | ⟨front, c, rfl⟩
    · have more : 16 ≤ 16 ^ (k + 1) := Nat.le_self_pow (Nat.succ_ne_zero k) 16
      have zero : hexValue [] % 16 ^ (k + 1) = 0 := Nat.zero_mod _
      rw [zero, List.map_nil, List.suffix_nil]
      simp
      omega
    · obtain ⟨before, last⟩ := List.forall_mem_append.mp digits
      have digit := last c (List.mem_singleton.mpr rfl)
      have small := hexDigit_lt digit
      have positive : 0 < 16 ^ k := Nat.pow_pos (by decide)
      have less := Nat.mod_lt (hexValue front) positive
      have high : (16 * hexValue front + hexDigit c) / 16 = hexValue front := by omega
      have low : (16 * hexValue front + hexDigit c) % 16 = hexDigit c := by omega
      rw [hexValue_snoc, Nat.pow_succ, Nat.mul_comm (16 ^ k), Nat.mod_mul, high, low,
        List.map_append, List.map_singleton, List.replicate_succ', ← List.reverse_prefix,
        List.reverse_append, List.reverse_append, List.reverse_singleton, List.reverse_singleton,
        List.singleton_append, List.singleton_append, List.cons_prefix_cons, List.reverse_prefix,
        ← ih before, eq_comm (a := 'F'), ← hexDigit_eq_last digit]
      omega

end Ct.Lib
