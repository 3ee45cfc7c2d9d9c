import Ct.Linux.Mktime

set_option autoImplicit false

namespace Ct.Linux

open Ct.Lib

/-- A number below 100 in a register of the clock. -/
def bcd (n : Nat) : BitVec 8 := BitVec.ofNat 8 (n / 10 * 16 + n % 10)

/-- What the registers of the clock hold, some seconds after the start of 1970. -/
def cmos (t : Nat) : Nat → BitVec 8
  | 0 => bcd (t % 60)
  | 2 => bcd (t / 60 % 60)
  | 4 => bcd (t / 3600 % 24)
  | 7 => bcd (epoch.after (t / 86400)).day
  | 8 => bcd ((epoch.after (t / 86400)).month + 1)
  | 9 => bcd ((epoch.after (t / 86400)).year % 100)
  | _ => 0

/-- `BCD_TO_BIN` -/
def bcdToBin (val : BitVec 8) : Int := (val &&& 15#8).toNat + (val >>> 4).toNat * 10

/-- `time_init` from the read with number `k` on, with the number of the read it ends with;
`clock` has the time of each `CMOS_READ`. -/
def timeInit (clock : Nat → Nat) : Nat → Nat → Option (Int × Nat)
  | 0, _ => none
  | fuel + 1, k =>
    let sec := cmos (clock k) 0
    let min := cmos (clock (k + 1)) 2
    let hour := cmos (clock (k + 2)) 4
    let mday := cmos (clock (k + 3)) 7
    let mon := cmos (clock (k + 4)) 8
    let year := cmos (clock (k + 5)) 9
    if sec ≠ cmos (clock (k + 6)) 0 then timeInit clock fuel (k + 7)
    else
      let tm : Tm :=
        { sec := bcdToBin sec, min := bcdToBin min, hour := bcdToBin hour, mday := bcdToBin mday,
          mon := bcdToBin mon - 1, year := bcdToBin year }
      some (kernelMktime tm, k + 6)

section Registers

theorem bcdToBin_bcd {n : Nat} (small : n < 100) : bcdToBin (bcd n) = n := by
  have all : ∀ n < 100, bcdToBin (bcd n) = n := by decide +kernel
  exact all n small

theorem bcd_inj {n m : Nat} (small : n < 100) (small' : m < 100) (same : bcd n = bcd m) : n = m := by
  have values := congrArg bcdToBin same
  rw [bcdToBin_bcd small, bcdToBin_bcd small'] at values
  exact Int.ofNat_inj.mp values

/-- What is set of the members of `struct tm`, when all registers are read in one second. -/
def tmOf (t : Nat) : Tm where
  sec := (t % 60 : Nat)
  min := (t / 60 % 60 : Nat)
  hour := (t / 3600 % 24 : Nat)
  mday := (epoch.after (t / 86400)).day
  mon := (epoch.after (t / 86400)).month
  year := ((epoch.after (t / 86400)).year % 100 : Nat)

theorem daysIn_le (year mon : Nat) : daysIn year mon ≤ 31 := by
  unfold daysIn
  split
  · split <;> decide
  all_goals decide

theorem tmOf_eq (t : Nat) :
    ({ sec := bcdToBin (cmos t 0), min := bcdToBin (cmos t 2), hour := bcdToBin (cmos t 4),
       mday := bcdToBin (cmos t 7), mon := bcdToBin (cmos t 8) - 1,
       year := bcdToBin (cmos t 9) } : Tm) = tmOf t := by
  obtain ⟨month, _, day⟩ := epoch_valid.after (t / 86400)
  have days := daysIn_le (epoch.after (t / 86400)).year (epoch.after (t / 86400)).month
  simp only [cmos, tmOf]
  rw [bcdToBin_bcd (by omega), bcdToBin_bcd (by omega), bcdToBin_bcd (by omega),
    bcdToBin_bcd (by omega), bcdToBin_bcd (by omega), bcdToBin_bcd (by omega)]
  push_cast
  rw [Int.add_sub_cancel]

end Registers

section Years

/-- A day before a year begins is not in that year. -/
theorem year_lt {year : Nat} (n : Nat) (later : 1970 < year) (early : year < 2100)
    (before : DAY * n < dayPart ((year : Int) - 1970) 0 1) : (epoch.after n).year < year := by
  induction n with
  | zero => exact later
  | succ n ih =>
    have day : (0 : Int) < DAY := by decide
    rw [Nat.cast_succ, Int.mul_add, Int.mul_one] at before
    have here := ih (by omega)
    have step := (epoch.after n).next_year_le
    obtain ⟨month, first, _⟩ := epoch_valid.after (n + 1)
    refine Nat.lt_of_le_of_ne (Nat.le_trans step here) fun same => ?_
    have sum := dayPart_after (n + 1) (same ▸ early)
    have start := dayPart_start (Nat.le_of_lt later) early month first
    change (epoch.after (n + 1)).year = year at same
    rw [same, Nat.cast_succ, Int.mul_add, Int.mul_one] at sum
    omega

theorem month_le {mon : Nat} (inside : mon < 12) : month.getD mon 0 ≤ DAY * 335 := by
  interval_cases mon
  all_goals decide

/-- A century earlier, after 1970: where the sums are those of a negative number of years. -/
theorem dayPart_century (year : Int) (later : 30 ≤ year) (mon : Nat) (mday : Int) :
    ∃ leaps, (leaps = 24 ∨ leaps = 25) ∧
      dayPart year mon mday = dayPart (year - 100) mon mday + (YEAR * 100 + DAY * leaps) := by
  have adjusted : Int.tmod (year - 100 + 2) 4 ≠ 0 ↔ Int.tmod (year + 2) 4 ≠ 0 := by
    rw [Int.tmod_eq_emod_of_nonneg (by omega : 0 ≤ year + 2), Int.tmod_eq_emod]
    split <;> omega
  refine ⟨Int.tdiv (year + 1) 4 - Int.tdiv (year - 100 + 1) 4, ?_, ?_⟩
  · have sign : Int.sign 4 = 1 := rfl
    rw [Int.tdiv_eq_ediv_of_nonneg (by omega : 0 ≤ year + 1), Int.tdiv_eq_ediv]
    split <;> omega
  · simp only [dayPart, adjusted, YEAR, DAY, HOUR, MINUTE]
    omega

/-- A sum that is off by a century, as a number of 32 bits. -/
theorem toInt_ne {x t : Int} {leaps : Int} (some : leaps = 24 ∨ leaps = 25)
    (off : t = x + (YEAR * 100 + DAY * leaps)) : toInt x ≠ t := by
  simp only [YEAR, DAY, HOUR, MINUTE] at off
  unfold toInt
  rw [Int.bmod_def]
  split <;> omega

/-- `kernel_mktime` is right up to the end of 1999; two digits of a year are no more than that. -/
theorem kernelMktime_iff (t : Nat) :
    kernelMktime (tmOf t) = t ↔ (epoch.after (t / 86400)).year < 2000 := by
  have later := epoch.year_le_after (t / 86400)
  change 1970 ≤ _ at later
  obtain ⟨inside, first, last⟩ := epoch_valid.after (t / 86400)
  have days := daysIn_le (epoch.after (t / 86400)).year (epoch.after (t / 86400)).month
  have months := month_le inside
  have parts : (t : Int) = DAY * (t / 86400 : Nat) + HOUR * (t / 3600 % 24 : Nat) +
      MINUTE * (t / 60 % 60 : Nat) + (t % 60 : Nat) := by
    simp only [DAY, HOUR, MINUTE]
    omega
  rw [kernelMktime_eq _ (Int.natCast_nonneg _)]
  simp only [tmOf, Int.toNat_natCast]
  by_cases century : (epoch.after (t / 86400)).year < 2000
  · refine ⟨fun _ => century, fun _ => ?_⟩
    have digits : (((epoch.after (t / 86400)).year % 100 : Nat) : Int) - 70 =
        (epoch.after (t / 86400)).year - 1970 := by omega
    have sum := dayPart_after (t / 86400) (Nat.lt_trans century (by decide))
    have small : (t : Int) < 2 ^ 31 := by
      rw [dayPart_eq later (by omega)] at sum
      simp only [YEAR, DAY, HOUR, MINUTE] at sum parts months
      split at sum <;> omega
    rw [digits, sum, ← parts]
    exact toInt_natCast (by omega)
  · refine ⟨fun same => ?_, fun early => absurd early century⟩
    exfalso
    by_cases early : (epoch.after (t / 86400)).year < 2099
    · have digits : (((epoch.after (t / 86400)).year % 100 : Nat) : Int) - 70 =
          (epoch.after (t / 86400)).year - 1970 - 100 := by omega
      obtain ⟨leaps, some, off⟩ := dayPart_century
        ((epoch.after (t / 86400)).year - 1970) (by omega)
        (epoch.after (t / 86400)).month (epoch.after (t / 86400)).day
      have sum := dayPart_after (t / 86400) (Nat.lt_trans early (by decide))
      rw [digits] at same
      exact toInt_ne some (by omega) same
    · have late := mt (year_lt (t / 86400) (by decide) (by decide)) early
      have start : dayPart ((2099 : Nat) - 1970) 0 1 = DAY * 47117 := by decide
      have upper : toInt (dayPart (((epoch.after (t / 86400)).year % 100 : Nat) - 70)
          (epoch.after (t / 86400)).month (epoch.after (t / 86400)).day +
            HOUR * (t / 3600 % 24 : Nat) + MINUTE * (t / 60 % 60 : Nat) + (t % 60 : Nat)) <
          2 ^ 31 := by
        unfold toInt
        exact Int.bmod_lt (by decide)
      rw [start] at late
      rw [same] at upper
      simp only [DAY, HOUR, MINUTE] at late parts
      omega

end Years

section Ticks

variable {clock : Nat → Nat} (onward : ∀ k, clock k ≤ clock (k + 1))
  (quick : ∀ k, clock (k + 6) < clock k + 60)

include onward in
theorem clock_le {i k : Nat} (before : i ≤ k) : clock i ≤ clock k := by
  induction before with
  | refl => exact Nat.le_refl _
  | step _ ih => exact Nat.le_trans ih (onward _)

include quick in
/-- The same second is read twice only when no second has passed. -/
theorem sec_same_iff {k : Nat} (within : clock k ≤ clock (k + 6)) :
    cmos (clock k) 0 = cmos (clock (k + 6)) 0 ↔ clock k = clock (k + 6) := by
  constructor
  · intro same
    have few := quick k
    have secs := bcd_inj (by omega) (by omega) same
    omega
  · intro same
    rw [same]

include onward quick in
theorem timeInit_step (fuel k : Nat) :
    timeInit clock (fuel + 1) k =
      if clock k = clock (k + 6) then some (kernelMktime (tmOf (clock (k + 6))), k + 6)
      else timeInit clock fuel (k + 7) := by
  have within : ∀ i ≤ 6, clock k ≤ clock (k + i) ∧ clock (k + i) ≤ clock (k + 6) := fun i few =>
    ⟨clock_le onward (by omega), clock_le onward (by omega)⟩
  have same := sec_same_iff quick (within 6 (Nat.le_refl 6)).1
  rw [timeInit]
  by_cases still : clock k = clock (k + 6)
  · have all : ∀ i ≤ 6, clock (k + i) = clock (k + 6) := fun i few => by
      have := within i few
      omega
    rw [if_pos still]
    simp only
    rw [if_neg (not_not_intro (same.mpr still)), still, all 1 (by decide), all 2 (by decide),
      all 3 (by decide), all 4 (by decide), all 5 (by decide), tmOf_eq]
  · rw [if_neg still]
    simp only
    rw [if_pos (mt same.mp still)]

include onward quick in
theorem timeInit_from (fuel : Nat) : ∀ k, (∃ j < fuel, clock (k + 7 * j) = clock (k + 7 * j + 6)) →
    ∃ last, timeInit clock fuel k = some (kernelMktime (tmOf (clock last)), last) := by
  induction fuel with
  | zero =>
    rintro k ⟨j, few, _⟩
    exact absurd few (Nat.not_lt_zero j)
  | succ fuel ih =>
    rintro k ⟨j, few, still⟩
    rw [timeInit_step onward quick]
    split
    · exact ⟨k + 6, rfl⟩
    · rename_i ticks
      cases j with
      | zero => exact absurd still ticks
      | succ j =>
        refine ih (k + 7) ⟨j, by omega, ?_⟩
        rw [Nat.mul_succ, Nat.add_comm (7 * j), ← Nat.add_assoc] at still
        exact still

include onward quick in
/-- However the clock ticks while it is read, `startup_time` is the time of the last read just where
that is before the year 2000; the loop ends after a turn in which no second passes. -/
theorem timeInit_right_iff {fuel : Nat} (still : ∃ j < fuel, clock (7 * j) = clock (7 * j + 6)) :
    ∃ startup last, timeInit clock fuel 0 = some (startup, last) ∧
      (startup = clock last ↔ (epoch.after (clock last / 86400)).year < 2000) := by
  obtain ⟨j, few, same⟩ := still
  rw [← Nat.zero_add (7 * j)] at same
  obtain ⟨last, ran⟩ := timeInit_from onward quick fuel 0 ⟨j, few, same⟩
  exact ⟨_, last, ran, kernelMktime_iff (clock last)⟩

omit onward quick in
/-- A clock that ticks once, in the middle of the first turn. -/
theorem timeInit_right_tick :
    (∀ k, (fun k => if k < 3 then 59 else 60) k ≤ (fun k => if k < 3 then 59 else 60) (k + 1)) ∧
    (∀ k, (fun k => if k < 3 then 59 else 60) (k + 6) <
      (fun k => if k < 3 then 59 else 60) k + 60) ∧
    (∃ j < 2, (fun k => if k < 3 then 59 else 60) (7 * j) =
      (fun k => if k < 3 then 59 else 60) (7 * j + 6)) ∧
    ∃ startup last, timeInit (fun k => if k < 3 then 59 else 60) 2 0 = some (startup, last) ∧
      (startup = ((if last < 3 then 59 else 60 : Nat) : Int) ↔
        (epoch.after ((if last < 3 then 59 else 60) / 86400)).year < 2000) := by
  have onward : ∀ k, (fun k : Nat => if k < 3 then 59 else 60) k ≤
      (fun k : Nat => if k < 3 then 59 else 60) (k + 1) := fun k => by
    dsimp only
    split <;> split <;> omega
  have quick : ∀ k, (fun k : Nat => if k < 3 then 59 else 60) (k + 6) <
      (fun k : Nat => if k < 3 then 59 else 60) k + 60 := fun k => by
    dsimp only
    split <;> split <;> omega
  have still : ∃ j < 2, (fun k : Nat => if k < 3 then 59 else 60) (7 * j) =
      (fun k : Nat => if k < 3 then 59 else 60) (7 * j + 6) := ⟨1, by decide, by decide⟩
  exact ⟨onward, quick, still, timeInit_right_iff onward quick still⟩

end Ticks

end Ct.Linux
