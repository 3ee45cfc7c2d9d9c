import Mathlib.Tactic.IntervalCases

set_option autoImplicit false

namespace Ct.Lib

/-- A date; the months count from 0, the days from 1. -/
@[ext] structure Date where
  year : Nat
  month : Nat
  day : Nat
  deriving DecidableEq

def isLeap (year : Nat) : Bool := year % 4 = 0 && (year % 100 ≠ 0 || year % 400 = 0)

def daysIn (year : Nat) : Nat → Nat
  | 1 => if isLeap year then 29 else 28
  | 3 | 5 | 8 | 10 => 30
  | _ => 31

namespace Date

structure Valid (d : Date) : Prop where
  month : d.month < 12
  first : 1 ≤ d.day
  last : d.day ≤ daysIn d.year d.month

/-- The day after. -/
def next (d : Date) : Date :=
  if d.day < daysIn d.year d.month then { d with day := d.day + 1 }
  else if d.month < 11 then { d with month := d.month + 1, day := 1 }
  else { year := d.year + 1, month := 0, day := 1 }

/-- The date some days after another one. -/
def after (d : Date) : Nat → Date
  | 0 => d
  | n + 1 => (after d n).next

theorem daysIn_pos (year month : Nat) : 1 ≤ daysIn year month := by
  unfold daysIn
  split
  · split <;> decide
  all_goals decide

theorem Valid.next {d : Date} (valid : d.Valid) : d.next.Valid := by
  rw [Date.next]
  split
  · exact ⟨valid.month, Nat.le_add_left 1 d.day, ‹_›⟩
  · split
    · exact ⟨Nat.succ_lt_succ ‹_›, Nat.le_refl 1, daysIn_pos ..⟩
    · exact ⟨Nat.succ_pos 11, Nat.le_refl 1, daysIn_pos ..⟩

theorem Valid.after {d : Date} (valid : d.Valid) (n : Nat) : (d.after n).Valid := by
  induction n with
  | zero => exact valid
  | succ n ih => exact ih.next

theorem year_le_next (d : Date) : d.year ≤ d.next.year := by
  rw [Date.next]
  split
  · exact Nat.le_refl _
  · split
    · exact Nat.le_refl _
    · exact Nat.le_succ _

theorem next_year_le (d : Date) : d.next.year ≤ d.year + 1 := by
  rw [Date.next]
  split
  · exact Nat.le_succ _
  · split
    · exact Nat.le_succ _
    · exact Nat.le_refl _

theorem year_le_after (d : Date) (n : Nat) : d.year ≤ (d.after n).year := by
  induction n with
  | zero => exact Nat.le_refl _
  | succ n ih => exact Nat.le_trans ih (year_le_next _)

end Date

end Ct.Lib
