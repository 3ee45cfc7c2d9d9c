import Ct.Lib.Format
import Mathlib.Data.Rat.Floor
import Mathlib.Tactic.IntervalCases
import Mathlib.Tactic.NormNum
import Mathlib.Tactic.Linarith

set_option autoImplicit false

namespace Ct.Geye

open Ct.Lib

/-- `sprintf(ob, "#FF%x%x%x%x", m, n, m, n)` -/
def redText (m n : Int) : CString :=
  "#FF".toList ++ hexText m ++ hexText n ++ hexText m ++ hexText n

/-- `sprintf(ob, "#%x%x%x%xFF", m, n, m, n)` -/
def blueText (m n : Int) : CString :=
  "#".toList ++ hexText m ++ hexText n ++ hexText m ++ hexText n ++ "FF".toList

/-- `monitor_f2color`, with the text that it writes to `ob` and its value; the arithmetic on `roc`
is exact. -/
def monitorF2color (roc : ℚ) : CString × Int :=
  let roc1000 : Int := ⌊|roc * 10|⌋
  -- the clamp is on `roc`, not on `roc_1000`
  let roc := if roc1000 > 99 then 99 else roc
  let m := 9 - roc1000.tdiv 10
  let n := 9 - roc1000.tmod 10
  let ob := if roc > 0 then redText m n else if roc < 0 then blueText m n else "#bbb".toList
  (ob, roc1000)

def geyeRocToColorname (roc100 : ℚ) (defval : CString) : CString × Int :=
  let roc1000 : Int := ⌊|roc100 * 10|⌋
  let roc1000 := if roc1000 > 99 then 99 else roc1000
  let m := 9 - roc1000.tdiv 10
  let n := 9 - roc1000.tmod 10
  let outbuf := if roc100 > 0 then redText m n else if roc100 < 0 then blueText m n else defval
  (outbuf, roc1000)

def colorSize : Nat := 16

def hexDigits : List Char := "0123456789abcdefABCDEF".toList

/-- A colour `#rgb` or `#rrggbb`. -/
def IsColor (text : CString) : Prop :=
  ∃ digits, text = '#' :: digits ∧ (text.length = 4 ∨ text.length = 7) ∧
    ∀ c ∈ digits, c ∈ hexDigits

/-- Both functions write the same text and return the same value; the text is a colour and fits
the array of the caller. -/
def ColorsAgree (roc : ℚ) : Prop :=
  monitorF2color roc = geyeRocToColorname roc "#bbb".toList ∧
    IsColor (monitorF2color roc).1 ∧ (monitorF2color roc).1.length < colorSize

theorem roc1000_small_iff (roc : ℚ) : ⌊|roc * 10|⌋ ≤ 99 ↔ |roc| < 10 := by
  rw [← Int.lt_add_one_iff, Int.floor_lt, abs_mul]
  norm_num
  constructor
  · intro small
    linarith
  · intro small
    linarith

theorem digitChar_hex {x : Int} (low : 0 ≤ x) (high : x ≤ 9) :
    Nat.digitChar x.toNat ∈ hexDigits := by
  have below : x.toNat < 10 := by omega
  interval_cases x.toNat <;> decide

/-- One-digit numbers give a colour. -/
theorem text_isColor {m n : Int} (lowM : 0 ≤ m) (highM : m ≤ 9) (lowN : 0 ≤ n) (highN : n ≤ 9) :
    IsColor (redText m n) ∧ IsColor (blueText m n) := by
  have first := digitChar_hex lowM highM
  have second := digitChar_hex lowN highN
  have letter : 'F' ∈ hexDigits := by decide
  rw [redText, blueText, hexText_digit lowM (by omega), hexText_digit lowN (by omega)]
  generalize Nat.digitChar m.toNat = c at first ⊢
  generalize Nat.digitChar n.toNat = d at second ⊢
  constructor
  · exact ⟨['F', 'F', c, d, c, d], rfl, Or.inr rfl, by simp [first, second, letter]⟩
  · exact ⟨[c, d, c, d, 'F', 'F'], rfl, Or.inr rfl, by simp [first, second, letter]⟩

theorem redText_long {m : Int} (n : Int) (low : -(2 ^ 31) ≤ m) (high : m < 0) :
    colorSize < (redText m n).length := by
  have digits := hexText_negative low high
  have front : "#FF".toList.length = 3 := by rfl
  simp only [redText, List.length_append, colorSize, front]
  omega

theorem color_length {text : CString} (color : IsColor text) : text.length < colorSize := by
  obtain ⟨_, _, four | seven, _⟩ := color
  · rw [four]
    decide
  · rw [seven]
    decide

/-- Below 10% the clamps do nothing. -/
theorem colors_agree_below {roc : ℚ} (small : |roc| < 10) : ColorsAgree roc := by
  have within := (roc1000_small_iff roc).mpr small
  have natural : 0 ≤ ⌊|roc * 10|⌋ := Int.floor_nonneg.mpr (abs_nonneg _)
  have same : monitorF2color roc = geyeRocToColorname roc "#bbb".toList := by
    simp only [monitorF2color, geyeRocToColorname, gt_iff_lt, Int.not_lt.mpr within, ↓reduceIte]
  have color : IsColor (monitorF2color roc).1 := by
    simp only [monitorF2color, gt_iff_lt, Int.not_lt.mpr within, ↓reduceIte]
    generalize ⌊|roc * 10|⌋ = tenths at within natural ⊢
    have colored : IsColor (redText (9 - tenths.tdiv 10) (9 - tenths.tmod 10)) ∧
        IsColor (blueText (9 - tenths.tdiv 10) (9 - tenths.tmod 10)) := by
      rw [Int.tdiv_eq_ediv_of_nonneg natural, Int.tmod_eq_emod_of_nonneg natural]
      apply text_isColor <;> omega
    split
    · exact colored.1
    · split
      · exact colored.2
      · have letter : 'b' ∈ hexDigits := by decide
        exact ⟨['b', 'b', 'b'], rfl, Or.inl rfl, by simp [letter]⟩
  exact ⟨same, color, color_length color⟩

/-- From 10% on the text of `monitor_f2color` does not fit. -/
theorem monitorF2color_overflows {roc : ℚ} (fits : |roc * 10| < 2 ^ 31) (large : ¬ |roc| < 10) :
    colorSize < (monitorF2color roc).1.length := by
  have beyond := Int.not_le.mp (mt (roc1000_small_iff roc).mp large)
  have bounded : ⌊|roc * 10|⌋ < 2 ^ 31 := by
    rw [Int.floor_lt]
    exact_mod_cast fits
  have positive : (0 : ℚ) < 99 := by norm_num
  simp only [monitorF2color, gt_iff_lt, beyond, positive, ↓reduceIte]
  generalize ⌊|roc * 10|⌋ = tenths at beyond bounded ⊢
  have natural : 0 ≤ tenths := by omega
  rw [Int.tdiv_eq_ediv_of_nonneg natural]
  apply redText_long <;> omega

/-- The two copies agree, and write a colour at all, exactly below 10%. -/
theorem colors_agree_iff (roc : ℚ) (fits : |roc * 10| < 2 ^ 31) :
    ColorsAgree roc ↔ |roc| < 10 := by
  constructor
  · intro ⟨_, _, short⟩
    apply Classical.byContradiction
    intro large
    have long := monitorF2color_overflows fits large
    omega
  · exact colors_agree_below

theorem colors_agree_small : ColorsAgree (-3 / 2) :=
  (colors_agree_iff (-3 / 2) (by norm_num)).mpr (by norm_num)

/-- A fall by 12% is shown in 21 characters, and in red. -/
theorem colors_differ_beyond :
    |(-12 : ℚ) * 10| < 2 ^ 31 ∧
    monitorF2color (-12) = ("#FFfffffffd9fffffffd9".toList, 120) ∧
    geyeRocToColorname (-12) "#bbb".toList = ("#0000FF".toList, 99) ∧ ¬ ColorsAgree (-12) := by
  have tenths : ⌊|(-12 : ℚ) * 10|⌋ = 120 := by norm_num
  have red : redText (9 - Int.tdiv 120 10) (9 - Int.tmod 120 10) =
      "#FFfffffffd9fffffffd9".toList := by rfl
  have blue : blueText (9 - Int.tdiv 99 10) (9 - Int.tmod 99 10) = "#0000FF".toList := by rfl
  refine ⟨by norm_num, ?_, ?_, ?_⟩
  · simp only [monitorF2color, tenths]
    norm_num [red]
  · simp only [geyeRocToColorname, tenths]
    norm_num [blue]
  · intro ⟨_, _, short⟩
    have long : colorSize < (monitorF2color (-12)).1.length :=
      monitorF2color_overflows (by norm_num) (by norm_num)
    omega

end Ct.Geye
