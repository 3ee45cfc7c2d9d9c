import Ct.Lib.CFloat
import Mathlib.Tactic.NormNum

set_option autoImplicit false

namespace Ct.Geye

open Ct.Lib

/-- `struct stk_alert_level` -/
structure StkAlertLevel where
  lv1 : ℚ
  lv2 : ℚ
  lv3 : ℚ

/-- `struct stk_stock`, with the fields of the alert. -/
structure AlertStock where
  chgRate : ℚ
  chgRateAlert : Int

def calcAlert (alertLv : StkAlertLevel) (chgRate : Int) : ℚ :=
  if alertLv.lv3 < chgRate then -1
  else if alertLv.lv2 < chgRate then alertLv.lv2
  else if alertLv.lv1 < chgRate then alertLv.lv1
  else 0

/-- `calc_daily_alert`, with the stock as it leaves it. -/
def calcDailyAlert (shortTerm : StkAlertLevel) (stock : AlertStock) :
    Except Fault (ℚ × AlertStock) :=
  if stock.chgRateAlert < 0 then .ok (0, stock)
  else if stock.chgRate ≤ stock.chgRateAlert then .ok (0, stock)
  else do
    -- the parameter of `calc_alert` is an `int`, and so is `rate`
    let chgRate ← floatToInt stock.chgRate
    let rate ← floatToInt (calcAlert shortTerm chgRate)
    .ok (rate, if rate ≠ 0 then { stock with chgRateAlert := rate } else stock)

/-- One call for every rate, with what they return. -/
def dailyAlerts (shortTerm : StkAlertLevel) :
    List ℚ → AlertStock → Except Fault (List ℚ × AlertStock)
  | [], stock => .ok ([], stock)
  | chgRate :: rates, stock => do
    let (told, stock) ← calcDailyAlert shortTerm { stock with chgRate := chgRate }
    let (later, stock) ← dailyAlerts shortTerm rates stock
    .ok (told :: later, stock)

section Levels

/-- Levels in their order. -/
structure RisingLevels extends StkAlertLevel where
  positive : 0 < lv1
  second : lv1 < lv2
  third : lv2 < lv3

/-- The highest level that the rate exceeds, and 0 when it exceeds none. -/
def exceeded (levels : StkAlertLevel) (rate : ℚ) : Nat :=
  if levels.lv3 < rate then 3
  else if levels.lv2 < rate then 2
  else if levels.lv1 < rate then 1
  else 0

/-- What is returned for a level. -/
def reported (levels : StkAlertLevel) : Nat → ℚ
  | 0 => 0
  | 1 => levels.lv1
  | 2 => levels.lv2
  | _ => -1

theorem calcAlert_eq (levels : StkAlertLevel) (n : Int) :
    calcAlert levels n = reported levels (exceeded levels n) := by
  unfold calcAlert exceeded
  split_ifs <;> rfl

variable (levels : RisingLevels)

theorem exceeded_le (rate : ℚ) : exceeded levels.toStkAlertLevel rate ≤ 3 := by
  unfold exceeded
  split_ifs <;> omega

theorem exceeded_mono {low high : ℚ} (le : low ≤ high) :
    exceeded levels.toStkAlertLevel low ≤ exceeded levels.toStkAlertLevel high := by
  have second := levels.second
  have third := levels.third
  unfold exceeded
  split_ifs <;> first | omega | (exfalso; linarith)

theorem reported_lt {low high : Nat} (less : low < high) (few : high ≤ 2) :
    reported levels.toStkAlertLevel low < reported levels.toStkAlertLevel high := by
  have positive := levels.positive
  have second := levels.second
  have cases : low = 0 ∧ high = 1 ∨ low = 0 ∧ high = 2 ∨ low = 1 ∧ high = 2 := by omega
  rcases cases with ⟨rfl, rfl⟩ | ⟨rfl, rfl⟩ | ⟨rfl, rfl⟩
  · exact positive
  · exact positive.trans second
  · exact second

theorem reported_nonneg {level : Nat} (few : level ≤ 2) :
    0 ≤ reported levels.toStkAlertLevel level := by
  rcases Nat.eq_zero_or_pos level with rfl | some
  · exact le_refl _
  · exact (reported_lt levels some few).le

theorem reported_ne_zero {level : Nat} (some : 0 < level) :
    reported levels.toStkAlertLevel level ≠ 0 := by
  rcases Nat.lt_or_ge 2 level with top | few
  · have last : reported levels.toStkAlertLevel level = -1 := by
      obtain ⟨rest, rfl⟩ : ∃ rest, level = rest + 3 := ⟨level - 3, by omega⟩
      rfl
    rw [last]
    norm_num
  · exact (reported_lt levels some few).ne'

theorem exceeded_le_of_reported {before : Nat} {rate : ℚ} (few : before ≤ 2)
    (low : rate ≤ reported levels.toStkAlertLevel before) :
    exceeded levels.toStkAlertLevel rate ≤ before := by
  have positive := levels.positive
  have second := levels.second
  have third := levels.third
  have cases : before = 0 ∨ before = 1 ∨ before = 2 := by omega
  unfold exceeded
  rcases cases with rfl | rfl | rfl
  · have low : rate ≤ 0 := low
    split_ifs <;> first | omega | (exfalso; linarith)
  · have low : rate ≤ levels.lv1 := low
    split_ifs <;> first | omega | (exfalso; linarith)
  · have low : rate ≤ levels.lv2 := low
    split_ifs <;> first | omega | (exfalso; linarith)

/-- The levels that an `int` exceeds are in the range of `int` themselves. -/
theorem calcAlert_converts {n : Int} (small : n < 2 ^ 31) :
    floatToInt (calcAlert levels.toStkAlertLevel n) =
      .ok ⌊reported levels.toStkAlertLevel (exceeded levels.toStkAlertLevel n)⌋ := by
  have positive := levels.positive
  have second := levels.second
  have bound : (n : ℚ) < 2 ^ 31 := by exact_mod_cast small
  rw [calcAlert_eq]
  unfold exceeded
  split_ifs with above₃ above₂ above₁
  · have last := floatToInt_intCast (n := -1) (by decide) (by decide)
    rw [Int.cast_neg, Int.cast_one] at last
    exact last
  · exact (floatToInt_nonneg (positive.trans second).le).trans (if_pos (above₂.trans bound))
  · exact (floatToInt_nonneg positive.le).trans (if_pos (above₁.trans bound))
  · exact (floatToInt_nonneg (le_refl 0)).trans (if_pos (by norm_num))

/-- The alert that the stock keeps is the highest level reported. -/
def Keeps (before : Nat) (alert : Int) : Prop :=
  before ≤ 3 ∧ (alert : ℚ) = reported levels.toStkAlertLevel before

theorem Keeps.last_iff {before : Nat} {alert : Int} (keeps : Keeps levels before alert) :
    alert < 0 ↔ before = 3 := by
  obtain ⟨few, same⟩ := keeps
  constructor
  · intro negative
    have below : (alert : ℚ) < 0 := by exact_mod_cast negative
    rw [same] at below
    by_contra other
    exact absurd below (not_lt.mpr (reported_nonneg levels (by omega)))
  · rintro rfl
    have below : (alert : ℚ) < 0 := by
      rw [same]
      norm_num [reported]
    exact_mod_cast below

theorem Keeps.start : Keeps levels 0 0 := ⟨by omega, Int.cast_zero⟩

/-- The rates for which the alert that is due is returned after `before`. -/
def Heard (before : Nat) (rate : ℚ) : Prop :=
  before = 3 ∨ rate ≤ reported levels.toStkAlertLevel before ∨
    rate < 2 ^ 31 ∧
      let level := exceeded levels.toStkAlertLevel rate
      let seen := exceeded levels.toStkAlertLevel ⌊rate⌋
      if before < level then
        seen = level ∧
          ⌊reported levels.toStkAlertLevel level⌋ = reported levels.toStkAlertLevel level
      else reported levels.toStkAlertLevel seen < 1

/-- What one call is to return. -/
def dueNow (before : Nat) (rate : ℚ) : ℚ :=
  let level := exceeded levels.toStkAlertLevel rate
  if before < level then reported levels.toStkAlertLevel level else 0

theorem calcDailyAlert_quiet {stock : AlertStock}
    (quiet : stock.chgRateAlert < 0 ∨ stock.chgRate ≤ stock.chgRateAlert) :
    calcDailyAlert levels.toStkAlertLevel stock = .ok (0, stock) := by
  rw [calcDailyAlert]
  by_cases last : stock.chgRateAlert < 0
  · rw [if_pos last]
  · rw [if_neg last, if_pos (quiet.resolve_left last)]

theorem calcDailyAlert_above {stock : AlertStock} (some : 0 ≤ stock.chgRateAlert)
    (above : stock.chgRateAlert < stock.chgRate) :
    calcDailyAlert levels.toStkAlertLevel stock =
      if stock.chgRate < 2 ^ 31 then
        let seen := exceeded levels.toStkAlertLevel ⌊stock.chgRate⌋
        let rate := ⌊reported levels.toStkAlertLevel seen⌋
        .ok (rate, if rate ≠ 0 then { stock with chgRateAlert := rate } else stock)
      else .error .conversion := by
  have nonneg : 0 ≤ stock.chgRate := by
    have start : (0 : ℚ) ≤ stock.chgRateAlert := by exact_mod_cast some
    linarith
  rw [calcDailyAlert, if_neg (not_lt.mpr some), if_neg (not_le.mpr above),
    floatToInt_nonneg nonneg]
  by_cases small : stock.chgRate < 2 ^ 31
  · have high : ⌊stock.chgRate⌋ < 2 ^ 31 := by
      rw [Int.floor_lt]
      exact_mod_cast small
    rw [if_pos small, if_pos small]
    simp only [bind, Except.bind, calcAlert_converts levels high]
  · rw [if_neg small, if_neg small]
    rfl

/-- The truncated rate and the truncated level: nothing else than the due alert comes through
unless both keep what matters. -/
theorem floor_reported_iff {before seen level : Nat} (before_few : before ≤ 2) (few : level ≤ 3)
    (le : seen ≤ level) :
    (⌊reported levels.toStkAlertLevel seen⌋ : ℚ) =
        (if before < level then reported levels.toStkAlertLevel level else 0) ↔
      if before < level then
        seen = level ∧
          ⌊reported levels.toStkAlertLevel level⌋ = reported levels.toStkAlertLevel level
      else reported levels.toStkAlertLevel seen < 1 := by
  by_cases news : before < level
  · rw [if_pos news, if_pos news]
    constructor
    · intro same
      rcases Nat.lt_or_eq_of_le le with less | rfl
      · have nonneg := reported_nonneg levels (show seen ≤ 2 by omega)
        have floor := Int.floor_nonneg.mpr nonneg
        exfalso
        by_cases last : level = 3
        · subst last
          have value : reported levels.toStkAlertLevel 3 = -1 := rfl
          have start : (0 : ℚ) ≤ ⌊reported levels.toStkAlertLevel seen⌋ := by exact_mod_cast floor
          rw [same, value] at start
          norm_num at start
        · have lower := reported_lt levels less (by omega)
          have below := Int.floor_le (reported levels.toStkAlertLevel seen)
          linarith
      · exact ⟨rfl, same⟩
    · rintro ⟨rfl, same⟩
      exact same
  · rw [if_neg news, if_neg news]
    have nonneg := reported_nonneg levels (show seen ≤ 2 by omega)
    constructor
    · intro zero
      have none : ⌊reported levels.toStkAlertLevel seen⌋ = 0 := by exact_mod_cast zero
      exact (Int.floor_eq_zero_iff.mp none).2
    · intro small
      have none : ⌊reported levels.toStkAlertLevel seen⌋ = 0 :=
        Int.floor_eq_zero_iff.mpr ⟨nonneg, small⟩
      rw [none, Int.cast_zero]

variable {levels}

/-- Nothing is due when the call returns at once. -/
theorem Keeps.quiet {before : Nat} {stock : AlertStock}
    (keeps : Keeps levels before stock.chgRateAlert)
    (quiet : stock.chgRateAlert < 0 ∨ stock.chgRate ≤ stock.chgRateAlert) :
    exceeded levels.toStkAlertLevel stock.chgRate ≤ before := by
  by_cases last : before = 3
  · rw [last]
    exact exceeded_le levels stock.chgRate
  · have low := quiet.resolve_left (mt keeps.last_iff.mp last)
    rw [keeps.2] at low
    have few := keeps.1
    exact exceeded_le_of_reported levels (by omega) low

theorem Keeps.told_iff {before : Nat} {stock : AlertStock}
    (keeps : Keeps levels before stock.chgRateAlert) :
    (∃ next, calcDailyAlert levels.toStkAlertLevel stock =
        .ok (dueNow levels before stock.chgRate, next)) ↔
      Heard levels before stock.chgRate := by
  by_cases quiet : stock.chgRateAlert < 0 ∨ stock.chgRate ≤ stock.chgRateAlert
  · have none : dueNow levels before stock.chgRate = 0 :=
      if_neg (Nat.not_lt.mpr (keeps.quiet quiet))
    rw [calcDailyAlert_quiet levels quiet, none]
    refine iff_of_true ⟨stock, rfl⟩ ?_
    rcases quiet with last | low
    · exact .inl (keeps.last_iff.mp last)
    · rw [keeps.2] at low
      exact .inr (.inl low)
  · obtain ⟨some, above⟩ := not_or.mp quiet
    have other : before ≠ 3 := mt keeps.last_iff.mpr some
    have few := keeps.1
    have up := above
    rw [keeps.2] at up
    rw [calcDailyAlert_above levels (not_lt.mp some) (not_le.mp above), Heard,
      or_iff_right other, or_iff_right up]
    by_cases small : stock.chgRate < 2 ^ 31
    · rw [if_pos small, and_iff_right small]
      have same := floor_reported_iff levels (show before ≤ 2 by omega)
        (exceeded_le levels stock.chgRate) (exceeded_mono levels (Int.floor_le stock.chgRate))
      refine Iff.trans ?_ same
      constructor
      · rintro ⟨next, told⟩
        exact congrArg Prod.fst (Except.ok.inj told)
      · intro value
        exact ⟨_, congrArg Except.ok (Prod.ext value rfl)⟩
    · rw [if_neg small]
      refine iff_of_false (fun told => ?_) fun heard => small heard.1
      obtain ⟨_, told⟩ := told
      cases told

theorem Keeps.step {before : Nat} {stock next : AlertStock}
    (keeps : Keeps levels before stock.chgRateAlert)
    (told : calcDailyAlert levels.toStkAlertLevel stock =
      .ok (dueNow levels before stock.chgRate, next)) :
    Keeps levels (max before (exceeded levels.toStkAlertLevel stock.chgRate))
      next.chgRateAlert := by
  by_cases quiet : stock.chgRateAlert < 0 ∨ stock.chgRate ≤ stock.chgRateAlert
  · rw [calcDailyAlert_quiet levels quiet] at told
    have same : stock = next := congrArg Prod.snd (Except.ok.inj told)
    rw [Nat.max_eq_left (keeps.quiet quiet), ← same]
    exact keeps
  · obtain ⟨some, above⟩ := not_or.mp quiet
    rw [calcDailyAlert_above levels (not_lt.mp some) (not_le.mp above)] at told
    by_cases small : stock.chgRate < 2 ^ 31
    · rw [if_pos small] at told
      have value := congrArg Prod.fst (Except.ok.inj told)
      have state := congrArg Prod.snd (Except.ok.inj told)
      dsimp only at value state
      generalize ⌊reported levels.toStkAlertLevel _⌋ = rate at value state
      by_cases news : before < exceeded levels.toStkAlertLevel stock.chgRate
      · have due : dueNow levels before stock.chgRate = reported levels.toStkAlertLevel
            (exceeded levels.toStkAlertLevel stock.chgRate) := if_pos news
        rw [due] at value
        have nonzero : rate ≠ 0 := by
          intro zero
          rw [zero, Int.cast_zero] at value
          exact reported_ne_zero levels (Nat.zero_lt_of_lt news) value.symm
        rw [if_pos nonzero] at state
        rw [Nat.max_eq_right (Nat.le_of_lt news), ← state]
        exact ⟨exceeded_le levels _, value⟩
      · have due : dueNow levels before stock.chgRate = 0 := if_neg news
        rw [due] at value
        have zero : rate = 0 := by exact_mod_cast value
        rw [if_neg (not_not.mpr zero)] at state
        rw [Nat.max_eq_left (Nat.not_lt.mp news), ← state]
        exact keeps
    · rw [if_neg small] at told
      cases told

end Levels

section Runs

variable {levels : RisingLevels}

/-- What the calls are to return, with `before` the highest level returned so far. -/
def due (levels : RisingLevels) : Nat → List ℚ → List ℚ
  | _, [] => []
  | before, rate :: rates =>
    dueNow levels before rate ::
      due levels (max before (exceeded levels.toStkAlertLevel rate)) rates

/-- Every rate is heard after the highest level that the rates in front of it exceed. -/
def AllHeard (levels : RisingLevels) : Nat → List ℚ → Prop
  | _, [] => True
  | before, rate :: rates =>
    Heard levels before rate ∧
      AllHeard levels (max before (exceeded levels.toStkAlertLevel rate)) rates

theorem Keeps.run_iff (rates : List ℚ) :
    ∀ {before : Nat} {stock : AlertStock}, Keeps levels before stock.chgRateAlert →
      ((∃ final, dailyAlerts levels.toStkAlertLevel rates stock =
          .ok (due levels before rates, final)) ↔ AllHeard levels before rates) := by
  induction rates with
  | nil =>
    intro before stock keeps
    exact iff_of_true ⟨stock, rfl⟩ trivial
  | cons rate rates ih =>
    intro before stock keeps
    have now : Keeps levels before (AlertStock.mk rate stock.chgRateAlert).chgRateAlert := keeps
    have heard := now.told_iff
    rw [AllHeard, ← heard]
    constructor
    · rintro ⟨final, run⟩
      obtain ⟨⟨told, next⟩, first, run⟩ := bind_ends run
      obtain ⟨⟨later, last⟩, rest, run⟩ := bind_ends run
      have result := congrArg Prod.fst (Except.ok.inj run)
      obtain ⟨here, behind⟩ := List.cons.inj result
      rw [here] at first
      rw [behind] at rest
      exact ⟨⟨next, first⟩, (ih (now.step first)).mp ⟨last, rest⟩⟩
    · rintro ⟨⟨next, first⟩, rest⟩
      obtain ⟨last, run⟩ := (ih (now.step first)).mpr rest
      refine ⟨last, ?_⟩
      simp only [dailyAlerts, first, bind, Except.bind, run, due]

/-- A report after another one: nothing comes after -1, and the levels rise. -/
def Higher (before after : ℚ) : Prop := before ≠ -1 ∧ (after = -1 ∨ before < after)

theorem reported_higher {low high : Nat} (less : low < high) (few : high ≤ 3) :
    Higher (reported levels.toStkAlertLevel low) (reported levels.toStkAlertLevel high) := by
  have nonneg := reported_nonneg levels (show low ≤ 2 by omega)
  refine ⟨by linarith, ?_⟩
  by_cases last : high = 3
  · rw [last]
    exact .inl rfl
  · exact .inr (reported_lt levels less (by omega))

theorem due_reports (rates : List ℚ) :
    ∀ (before : Nat) (told : ℚ), told ∈ (due levels before rates).filter (· ≠ 0) →
      ∃ level, before < level ∧ level ≤ 3 ∧ told = reported levels.toStkAlertLevel level := by
  induction rates with
  | nil =>
    intro before told member
    cases member
  | cons rate rates ih =>
    intro before told member
    obtain ⟨here, nonzero⟩ := List.mem_filter.mp member
    rcases List.mem_cons.mp here with rfl | later
    · have news : before < exceeded levels.toStkAlertLevel rate := by
        by_contra old
        rw [dueNow, if_neg old] at nonzero
        exact absurd nonzero (by decide)
      exact ⟨_, news, exceeded_le levels rate, if_pos news⟩
    · obtain ⟨level, high, few, same⟩ := ih _ told (List.mem_filter.mpr ⟨later, nonzero⟩)
      exact ⟨level, by omega, few, same⟩

theorem due_rises (rates : List ℚ) :
    ∀ before : Nat, ((due levels before rates).filter (· ≠ 0)).Pairwise Higher := by
  induction rates with
  | nil =>
    intro before
    exact List.Pairwise.nil
  | cons rate rates ih =>
    intro before
    rw [due, List.filter_cons]
    by_cases news : before < exceeded levels.toStkAlertLevel rate
    · have told : dueNow levels before rate = reported levels.toStkAlertLevel
          (exceeded levels.toStkAlertLevel rate) := if_pos news
      have nonzero := reported_ne_zero levels (Nat.zero_lt_of_lt news)
      rw [told, if_pos (decide_eq_true nonzero)]
      refine List.pairwise_cons.mpr ⟨fun later member => ?_, ih _⟩
      obtain ⟨level, high, few, rfl⟩ := due_reports rates _ later member
      exact reported_higher (by omega) few
    · have told : dueNow levels before rate = 0 := if_neg news
      rw [told, if_neg (by decide)]
      exact ih _

/-- Every call returns what is due, each level is reported once and in order, and nothing is
reported after -1. -/
def Reports (levels : RisingLevels) (chgRate : ℚ) (rates : List ℚ) : Prop :=
  ∃ told final, dailyAlerts levels.toStkAlertLevel rates ⟨chgRate, 0⟩ = .ok (told, final) ∧
    told = due levels 0 rates ∧ (told.filter (· ≠ 0)).Pairwise Higher

/-- The alerts are right exactly when every rate is heard. -/
theorem reports_iff (levels : RisingLevels) (chgRate : ℚ) (rates : List ℚ) :
    Reports levels chgRate rates ↔ AllHeard levels 0 rates := by
  have start : Keeps levels 0 (AlertStock.mk chgRate 0).chgRateAlert := Keeps.start levels
  rw [← start.run_iff rates]
  constructor
  · rintro ⟨told, final, run, same, _⟩
    rw [same] at run
    exact ⟨final, run⟩
  · rintro ⟨final, run⟩
    exact ⟨_, final, run, rfl, due_rises rates 0⟩

def halfLevels : RisingLevels where
  lv1 := 5 / 2
  lv2 := 5
  lv3 := 15 / 2
  positive := by norm_num
  second := by norm_num
  third := by norm_num

/-- The level is truncated, and it is reported again. -/
theorem level_repeated :
    ¬∀ (levels : RisingLevels) (chgRate : ℚ) (rates : List ℚ), Reports levels chgRate rates := by
  intro all
  obtain ⟨told, final, run, same, _⟩ := all halfLevels 0 [3, 3]
  have code : (dailyAlerts halfLevels.toStkAlertLevel [3, 3] ⟨0, 0⟩).toOption.map Prod.fst =
      some [2, 2] := by decide +kernel
  have expected : due halfLevels 0 [3, 3] = [5 / 2, 0] := by decide +kernel
  rw [run, same, expected] at code
  have values : [5 / 2, 0] = ([2, 2] : List ℚ) := Option.some.inj code
  exact absurd values (by decide +kernel)

end Runs

end Ct.Geye
