import Ct.Lib.Calendar
import Ct.Lib.CInt

set_option autoImplicit false

namespace Ct.Linux

open Ct.Lib

/-- The members of `struct tm` that are set. -/
structure Tm where
  sec : Int
  min : Int
  hour : Int
  mday : Int
  mon : Int
  year : Int

def MINUTE : Int := 60

def HOUR : Int := 60 * MINUTE

def DAY : Int := 24 * HOUR

def YEAR : Int := 365 * DAY

/-- The array `month`, as if every year were a leap year. -/
def month : List Int :=
  [0, DAY * 31, DAY * (31 + 29), DAY * (31 + 29 + 31), DAY * (31 + 29 + 31 + 30),
    DAY * (31 + 29 + 31 + 30 + 31), DAY * (31 + 29 + 31 + 30 + 31 + 30),
    DAY * (31 + 29 + 31 + 30 + 31 + 30 + 31), DAY * (31 + 29 + 31 + 30 + 31 + 30 + 31 + 31),
    DAY * (31 + 29 + 31 + 30 + 31 + 30 + 31 + 31 + 30),
    DAY * (31 + 29 + 31 + 30 + 31 + 30 + 31 + 31 + 30 + 31),
    DAY * (31 + 29 + 31 + 30 + 31 + 30 + 31 + 31 + 30 + 31 + 30)]

/-- `kernel_mktime`, with a `long` of 32 bits whose sums wrap around. -/
def kernelMktime (tm : Tm) : Int :=
  let year := tm.year - 70
  let res := toInt (YEAR * year + DAY * Int.tdiv (year + 1) 4)
  let res := toInt (res + month.getD tm.mon.toNat 0)
  let res := if tm.mon > 1 ∧ Int.tmod (year + 2) 4 ≠ 0 then toInt (res - DAY) else res
  let res := toInt (res + DAY * (tm.mday - 1))
  let res := toInt (res + HOUR * tm.hour)
  let res := toInt (res + MINUTE * tm.min)
  toInt (res + tm.sec)

/-- What is summed up for a day. -/
def dayPart (year : Int) (mon : Nat) (mday : Int) : Int :=
  YEAR * year + DAY * Int.tdiv (year + 1) 4 + month.getD mon 0 -
    (if 1 < mon ∧ Int.tmod (year + 2) 4 ≠ 0 then DAY else 0) + DAY * (mday - 1)

theorem toInt_add (a b : Int) : toInt (toInt a + b) = toInt (a + b) := by
  unfold toInt
  exact Int.bmod_add_bmod

/-- The sums wrap around once, at the end. -/
theorem kernelMktime_eq (tm : Tm) (inside : 0 ≤ tm.mon) :
    kernelMktime tm = toInt (dayPart (tm.year - 70) tm.mon.toNat tm.mday + HOUR * tm.hour +
      MINUTE * tm.min + tm.sec) := by
  have first : tm.mon > 1 ↔ 1 < tm.mon.toNat := by omega
  rw [kernelMktime, dayPart]
  simp only [first]
  split
  · rw [Int.sub_eq_add_neg]
    simp only [toInt_add, Int.sub_eq_add_neg]
  · simp only [toInt_add, Int.sub_zero]

section Days

/-- The first day. -/
def epoch : Date := { year := 1970, month := 0, day := 1 }

theorem epoch_valid : epoch.Valid := ⟨by decide, by decide, by decide⟩

theorem isLeap_iff {year : Nat} (later : 1970 ≤ year) (early : year < 2100) :
    isLeap year = true ↔ year % 4 = 0 := by
  simp only [isLeap, Bool.and_eq_true, Bool.or_eq_true, decide_eq_true_eq]
  omega

/-- The adjustment is made where the year is no leap year. -/
theorem adjusted_iff {year : Nat} (later : 1970 ≤ year) (early : year < 2100) :
    Int.tmod ((year : Int) - 1970 + 2) 4 ≠ 0 ↔ isLeap year = false := by
  rw [Int.tmod_eq_emod_of_nonneg (by omega), ← Bool.not_eq_true, isLeap_iff later early]
  omega

theorem dayPart_eq {year mon : Nat} (later : 1970 ≤ year) (early : year < 2100) (mday : Int) :
    dayPart ((year : Int) - 1970) mon mday =
      YEAR * ((year : Int) - 1970) + DAY * (((year : Int) - 1969) / 4) + month.getD mon 0 -
        (if 1 < mon ∧ isLeap year = false then DAY else 0) + DAY * (mday - 1) := by
  have quotient : Int.tdiv ((year : Int) - 1970 + 1) 4 = ((year : Int) - 1969) / 4 := by
    rw [Int.tdiv_eq_ediv_of_nonneg (by omega)]
    congr 1
    omega
  rw [dayPart, quotient]
  simp only [adjusted_iff later early]

theorem dayPart_month {year mon : Nat} (later : 1970 ≤ year) (early : year < 2100)
    (inside : mon < 11) :
    dayPart ((year : Int) - 1970) (mon + 1) 1 =
      dayPart ((year : Int) - 1970) mon (daysIn year mon) + DAY := by
  rw [dayPart_eq later early, dayPart_eq later early]
  interval_cases mon
  all_goals
    cases leap : isLeap year
    all_goals simp [month, daysIn, leap, YEAR, DAY, HOUR, MINUTE]
    all_goals omega

theorem dayPart_year {year : Nat} (later : 1970 ≤ year) (early : year < 2099) :
    dayPart ((year + 1 : Nat) - 1970) 0 1 = dayPart ((year : Int) - 1970) 11 31 + DAY := by
  have leap_iff := isLeap_iff later (by omega)
  rw [dayPart_eq (by omega) (by omega), dayPart_eq later (by omega)]
  by_cases leap : year % 4 = 0
  · have here : isLeap year = true := leap_iff.mpr leap
    simp [here, month, YEAR, DAY, HOUR, MINUTE]
    omega
  · have here : isLeap year = false := Bool.eq_false_iff.mpr (mt leap_iff.mp leap)
    simp [here, month, YEAR, DAY, HOUR, MINUTE]
    omega

/-- No day of a year is in front of its first one. -/
theorem dayPart_start {year mon : Nat} (later : 1970 ≤ year) (early : year < 2100)
    (inside : mon < 12) {mday : Nat} (first : 1 ≤ mday) :
    dayPart ((year : Int) - 1970) 0 1 ≤ dayPart ((year : Int) - 1970) mon mday := by
  rw [dayPart_eq later early, dayPart_eq later early]
  have days : 0 ≤ DAY * ((mday : Int) - 1) := Int.mul_nonneg (by decide) (by omega)
  have months : (if 1 < mon ∧ isLeap year = false then DAY else 0) ≤ month.getD mon 0 := by
    interval_cases mon
    all_goals
      cases isLeap year
      all_goals decide
  simp only [Int.sub_self, Int.mul_zero, Int.add_zero]
  have start : month.getD 0 0 = 0 := rfl
  rw [start, if_neg (by omega)]
  omega

/-- From one day to the next, up to the century that has no leap year. -/
theorem dayPart_next {d : Date} (valid : d.Valid) (later : 1970 ≤ d.year)
    (early : d.next.year < 2100) :
    dayPart (d.next.year - 1970) d.next.month d.next.day =
      dayPart (d.year - 1970) d.month d.day + DAY := by
  have small : d.year < 2100 := Nat.lt_of_le_of_lt d.year_le_next early
  obtain ⟨inside, first, last⟩ := valid
  rw [Date.next] at early ⊢
  split
  · rw [dayPart_eq later (by omega), dayPart_eq later (by omega), DAY, HOUR, MINUTE]
    push_cast
    omega
  · rename_i ends
    have ends : d.day = daysIn d.year d.month := Nat.le_antisymm last (Nat.not_lt.mp ends)
    split
    · rw [ends]
      exact dayPart_month later (by omega) ‹_›
    · rename_i december more
      rw [if_neg december, if_neg more] at early
      have december : d.month = 11 := by omega
      rw [ends, december]
      exact dayPart_year later (Nat.lt_of_succ_lt_succ early)

/-- The sum of the days up to any date of these years. -/
theorem dayPart_after (n : Nat) (early : (epoch.after n).year < 2100) :
    dayPart ((epoch.after n).year - 1970) (epoch.after n).month (epoch.after n).day = DAY * n := by
  induction n with
  | zero => rfl
  | succ n ih =>
    have before := (epoch.after n).year_le_next
    have next := dayPart_next (epoch_valid.after n) (epoch.year_le_after n) early
    rw [Date.after, next, ih (Nat.lt_of_le_of_lt before early)]
    push_cast
    rw [Int.mul_add, Int.mul_one]

end Days

end Ct.Linux
