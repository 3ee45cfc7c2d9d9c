import Ct.S5pv210.Timer

set_option autoImplicit false

namespace Ct.S5pv210.TimerInit

open Ct.S5pv210.Timer

/-- The registers, by their addresses. -/
abbrev Regs := BitVec 32 → BitVec 32

def gpdCon : BitVec 32 := 0xE02000A0

def timerBase : BitVec 32 := 0xE2500000

def tcfg0 : BitVec 32 := timerBase + 0x0

def tcfg1 : BitVec 32 := timerBase + 0x4

def tcon : BitVec 32 := timerBase + 0x8

/-- `TCNTBx(x)` -/
def tcntb (t : TimerSn) : BitVec 32 :=
  timerBase + 0xC + BitVec.ofNat 32 ((t.sn <<< 4) - (t.sn <<< 2))

/-- `TCMPBx(x)` -/
def tcmpb (t : TimerSn) : BitVec 32 :=
  timerBase + 0x10 + BitVec.ofNat 32 ((t.sn <<< 4) - (t.sn <<< 2))

def tintCstat : BitVec 32 := timerBase + 0x44

/-- `__raw_write` -/
def rawWrite (addr value : BitVec 32) (regs : Regs) : Regs := fun a =>
  if a = addr then if addr = tintCstat then writeTintCstat (regs addr) value else value else regs a

/-- `region_write` of a register -/
def regionWriteAt (addr mask : BitVec 32) (index : Nat) (val : BitVec 32) (regs : Regs) : Regs :=
  rawWrite addr (regionWrite (regs addr) mask index val) regs

/-- `enum timer_divider` -/
inductive TimerDivider
  | divider1
  | divider2
  | divider4
  | divider8
  | divider16
  | sclkPwm
  deriving DecidableEq, Repr

def TimerDivider.code : TimerDivider → BitVec 32
  | divider1 => 0
  | divider2 => 1
  | divider4 => 2
  | divider8 => 3
  | divider16 => 4
  | sclkPwm => 5

def timerManualUpdate : Nat := 1

def timerToutInverter : Nat := 2

def timerAutoReload : Nat := 3

/-- `struct timer`; its flags are fields of one bit, and signed. -/
structure Timer where
  sn : TimerSn
  countBuffer : BitVec 32
  cmpBuffer : BitVec 32
  prescaler : BitVec 32
  divider : TimerDivider
  autoReload : BitVec 1
  outInvert : BitVec 1
  irqEnable : BitVec 1

/-- `timer_default_cfg` -/
def timerDefaultCfg : Timer where
  sn := .timer0
  countBuffer := 16112
  cmpBuffer := 16112 / 2
  prescaler := 0xFF
  divider := .divider16
  autoReload := 0
  outInvert := 0
  irqEnable := 0

def timerUpdate (tSn : TimerSn) : Regs → Regs :=
  regionWriteAt tcon 0x1 (timerManualUpdate + if tSn = .timer0 then 0 else (tSn.sn + 1) <<< 2) 1

def timerSetPeriod (tSn : TimerSn) (cnt cmp : BitVec 32) (regs : Regs) : Regs :=
  if cnt ≠ 0 then rawWrite (tcmpb tSn) cmp (rawWrite (tcntb tSn) cnt regs)
  else rawWrite (tcmpb tSn) (cmp &&& regs (tcntb tSn)) regs

def timerIrqToggle (tSn : TimerSn) (enable : BitVec 32) : Regs → Regs :=
  regionWriteAt tintCstat 0x1 tSn.sn enable

/-- Where the bits of a timer start in `TCON`. -/
def tconIndex (tSn : TimerSn) : Nat := if tSn = .timer0 then 0 else (tSn.sn <<< 2) + 4

/-- Where the prescaler of a timer starts in `TCFG0`. -/
def prescalerIndex (tSn : TimerSn) : Nat := if 1 < tSn.sn then 8 else 0

/-- The flags of a timer as `timer_init` shifts them: a field that is 1 is read as -1. -/
def tconFlags (pt : Timer) : BitVec 32 :=
  (pt.autoReload.signExtend 32 <<< timerAutoReload) |||
    (pt.outInvert.signExtend 32 <<< timerToutInverter)

/-- `timer_init` -/
def timerInit (pt : Timer) (regs : Regs) : Regs :=
  let regs := regionWriteAt gpdCon 0xf (pt.sn.sn <<< 2) 0x2 regs
  let regs := regionWriteAt tcfg0 0xff (prescalerIndex pt.sn) pt.prescaler regs
  let regs := regionWriteAt tcfg1 0xf (pt.sn.sn <<< 2) pt.divider.code regs
  let regs := regionWriteAt tcon 0xf (tconIndex pt.sn) (tconFlags pt) regs
  let regs := timerSetPeriod pt.sn pt.countBuffer pt.cmpBuffer regs
  let regs := timerUpdate pt.sn regs
  timerIrqToggle pt.sn (pt.irqEnable.signExtend 32) regs

section Frame

theorem rawWrite_self {addr : BitVec 32} (plain : addr ≠ tintCstat) (value : BitVec 32)
    (regs : Regs) : rawWrite addr value regs addr = value := by
  rw [rawWrite, if_pos rfl, if_neg plain]

theorem rawWrite_other {addr other : BitVec 32} (apart : other ≠ addr) (value : BitVec 32)
    (regs : Regs) : rawWrite addr value regs other = regs other := if_neg apart

theorem regionWriteAt_self {addr : BitVec 32} (plain : addr ≠ tintCstat) (mask val : BitVec 32)
    (index : Nat) (regs : Regs) :
    regionWriteAt addr mask index val regs addr = regionWrite (regs addr) mask index val :=
  rawWrite_self plain _ regs

theorem regionWriteAt_other {addr other : BitVec 32} (apart : other ≠ addr) (mask val : BitVec 32)
    (index : Nat) (regs : Regs) : regionWriteAt addr mask index val regs other = regs other :=
  rawWrite_other apart _ regs

/-- A register that the settings of a timer are in. -/
def Setting (addr : BitVec 32) : Prop := addr = tcfg0 ∨ addr = tcfg1 ∨ addr = tcon

theorem setting_apart {addr : BitVec 32} (setting : Setting addr) (t : TimerSn) :
    addr ≠ gpdCon ∧ addr ≠ tintCstat ∧ addr ≠ tcntb t ∧ addr ≠ tcmpb t := by
  rcases setting with rfl | rfl | rfl
  · cases t <;> decide
  · cases t <;> decide
  · cases t <;> decide

theorem timerSetPeriod_setting {addr : BitVec 32} (setting : Setting addr) (t : TimerSn)
    (cnt cmp : BitVec 32) (regs : Regs) : timerSetPeriod t cnt cmp regs addr = regs addr := by
  obtain ⟨_, _, count, compare⟩ := setting_apart setting t
  rw [timerSetPeriod]
  split
  · rw [rawWrite_other compare, rawWrite_other count]
  · rw [rawWrite_other compare]

end Frame

section Settings

variable {pt : Timer} {regs : Regs}

theorem timerInit_tcfg0 (pt : Timer) (regs : Regs) : timerInit pt regs tcfg0 =
    regionWrite (regs tcfg0) 0xff (prescalerIndex pt.sn) pt.prescaler := by
  rw [timerInit, timerIrqToggle, regionWriteAt_other (by decide), timerUpdate,
    regionWriteAt_other (by decide), timerSetPeriod_setting (Or.inl rfl),
    regionWriteAt_other (by decide), regionWriteAt_other (by decide),
    regionWriteAt_self (by decide), regionWriteAt_other (by decide)]

theorem timerInit_tcfg1 (pt : Timer) (regs : Regs) : timerInit pt regs tcfg1 =
    regionWrite (regs tcfg1) 0xf (pt.sn.sn <<< 2) pt.divider.code := by
  rw [timerInit, timerIrqToggle, regionWriteAt_other (by decide), timerUpdate,
    regionWriteAt_other (by decide), timerSetPeriod_setting (Or.inr (Or.inl rfl)),
    regionWriteAt_other (by decide), regionWriteAt_self (by decide),
    regionWriteAt_other (by decide), regionWriteAt_other (by decide)]

/-- The flags are written, and then the bit next to the first is set and stays so. -/
theorem timerInit_tcon (pt : Timer) (regs : Regs) : timerInit pt regs tcon =
    regionWrite (regionWrite (regs tcon) 0xf (tconIndex pt.sn) (tconFlags pt)) 0x1
      (tconIndex pt.sn + timerManualUpdate) 1 := by
  have bit : timerManualUpdate + (if pt.sn = .timer0 then 0 else (pt.sn.sn + 1) <<< 2) =
      tconIndex pt.sn + timerManualUpdate := by
    cases pt.sn <;> decide
  rw [timerInit, timerIrqToggle, regionWriteAt_other (by decide), timerUpdate, bit,
    regionWriteAt_self (by decide), timerSetPeriod_setting (Or.inr (Or.inr rfl)),
    regionWriteAt_self (by decide), regionWriteAt_other (by decide),
    regionWriteAt_other (by decide), regionWriteAt_other (by decide)]

theorem tconIndex_room (t : TimerSn) : tconIndex t + 4 ≤ 32 := by
  cases t <;> decide

/-- The bits of the flags, as they are shifted: the inverter's reaches into that of the reload. -/
theorem tconFlags_bits (pt : Timer) :
    (tconFlags pt).getLsbD timerToutInverter = pt.outInvert.getLsbD 0 ∧
      (tconFlags pt).getLsbD timerAutoReload =
        (pt.autoReload.getLsbD 0 || pt.outInvert.getLsbD 0) := by
  rw [tconFlags]
  rcases BitVec.eq_zero_or_eq_one pt.autoReload with reload | reload
  · rcases BitVec.eq_zero_or_eq_one pt.outInvert with invert | invert
    · rw [reload, invert]
      decide
    · rw [reload, invert]
      decide
  · rcases BitVec.eq_zero_or_eq_one pt.outInvert with invert | invert
    · rw [reload, invert]
      decide
    · rw [reload, invert]
      decide

theorem timerInit_flag (pt : Timer) (regs : Regs) {flag : Nat} (high : 1 < flag) (low : flag < 4) :
    (timerInit pt regs tcon).getLsbD (tconIndex pt.sn + flag) = (tconFlags pt).getLsbD flag := by
  have room := tconIndex_room pt.sn
  have mask : (0xf : BitVec 32).getLsbD flag = true := by
    obtain rfl | rfl : flag = 2 ∨ flag = 3 := by omega
    · decide
    · decide
  rw [timerInit_tcon, regionWrite_outside _ _ (n := 1) (by decide) (by omega)
    (Or.inr (by rw [timerManualUpdate]; omega)), regionWrite_getLsbD _ _ _ _ (by omega),
    if_pos ⟨Nat.le_add_right _ _, by rwa [Nat.add_sub_cancel_left]⟩, Nat.add_sub_cancel_left]

end Settings

/-- After `timer_init` the fields of the timer hold what is configured, and the bits outside of
them are as before. -/
structure Programs (pt : Timer) (regs : Regs) : Prop where
  autoReload : (timerInit pt regs tcon).getLsbD (tconIndex pt.sn + timerAutoReload) =
    pt.autoReload.getLsbD 0
  outInvert : (timerInit pt regs tcon).getLsbD (tconIndex pt.sn + timerToutInverter) =
    pt.outInvert.getLsbD 0
  prescaler : regionRead (timerInit pt regs tcfg0) 0xff (prescalerIndex pt.sn) = pt.prescaler
  divider : regionRead (timerInit pt regs tcfg1) 0xf (pt.sn.sn <<< 2) = pt.divider.code
  tconOutside : ∀ i, i < 32 → (i < tconIndex pt.sn ∨ tconIndex pt.sn + 4 ≤ i) →
    (timerInit pt regs tcon).getLsbD i = (regs tcon).getLsbD i
  tcfg0Outside : ∀ i, i < 32 → (i < prescalerIndex pt.sn ∨ prescalerIndex pt.sn + 8 ≤ i) →
    (timerInit pt regs tcfg0).getLsbD i = (regs tcfg0).getLsbD i
  tcfg1Outside : ∀ i, i < 32 → (i < pt.sn.sn <<< 2 ∨ (pt.sn.sn <<< 2) + 4 ≤ i) →
    (timerInit pt regs tcfg1).getLsbD i = (regs tcfg1).getLsbD i

section Fields

variable {pt : Timer} {regs : Regs}

theorem autoReload_iff (pt : Timer) (regs : Regs) :
    (timerInit pt regs tcon).getLsbD (tconIndex pt.sn + timerAutoReload) =
      pt.autoReload.getLsbD 0 ↔ (pt.outInvert = 1 → pt.autoReload = 1) := by
  rw [timerInit_flag pt regs (by decide) (by decide), (tconFlags_bits pt).2]
  rcases BitVec.eq_zero_or_eq_one pt.autoReload with reload | reload
  · rcases BitVec.eq_zero_or_eq_one pt.outInvert with invert | invert
    · rw [reload, invert]
      decide
    · rw [reload, invert]
      decide
  · rw [reload]
    exact iff_of_true (Bool.true_or _) fun _ => rfl

theorem prescaler_kept (regs : Regs) {byte : BitVec 8}
    (field : pt.prescaler = byte.setWidth 32) :
    regionRead (timerInit pt regs tcfg0) 0xff (prescalerIndex pt.sn) = pt.prescaler := by
  have room : prescalerIndex pt.sn + 8 ≤ 32 := by
    rw [prescalerIndex]
    split
    · decide
    · decide
  rw [timerInit_tcfg0, regionRead_regionWrite]
  · have small := byte.isLt
    have mask : (0xff : BitVec 32).toNat = 2 ^ 8 - 1 := by decide
    apply BitVec.eq_of_toNat_eq
    rw [field, BitVec.toNat_and, mask, Nat.and_two_pow_sub_one_eq_mod, BitVec.toNat_setWidth]
    omega
  · intro i bit
    have inside := maskBit_lt (n := 8) (by decide) bit
    omega

theorem divider_kept (pt : Timer) (regs : Regs) :
    regionRead (timerInit pt regs tcfg1) 0xf (pt.sn.sn <<< 2) = pt.divider.code := by
  have room : (pt.sn.sn <<< 2) + 4 ≤ 32 := by
    cases pt.sn <;> decide
  rw [timerInit_tcfg1, regionRead_regionWrite]
  · cases pt.divider <;> decide
  · intro i bit
    have inside := maskBit_lt (n := 4) (by decide) bit
    omega

theorem tcon_outside (pt : Timer) (regs : Regs) {i : Nat} (inside : i < 32)
    (outside : i < tconIndex pt.sn ∨ tconIndex pt.sn + 4 ≤ i) :
    (timerInit pt regs tcon).getLsbD i = (regs tcon).getLsbD i := by
  rw [timerInit_tcon, regionWrite_outside _ _ (n := 1) (by decide) inside,
    regionWrite_outside _ _ (n := 4) (by decide) inside outside]
  rw [timerManualUpdate]
  omega

end Fields

/-- The configuration is programmed unless the output is inverted without reload. -/
theorem programs_iff (sn : TimerSn) (countBuffer cmpBuffer : BitVec 32) (prescaler : BitVec 8)
    (divider : TimerDivider) (autoReload outInvert irqEnable : BitVec 1) (regs : Regs) :
    Programs { timerDefaultCfg with
      sn, countBuffer, cmpBuffer, prescaler := prescaler.setWidth 32, divider, autoReload,
      outInvert, irqEnable } regs ↔ (outInvert = 1 → autoReload = 1) := by
  constructor
  · exact fun programs => (autoReload_iff _ regs).mp programs.autoReload
  · intro compatible
    refine ⟨(autoReload_iff _ regs).mpr compatible, ?_, prescaler_kept regs rfl,
      divider_kept _ regs, fun i => tcon_outside _ regs, ?_, ?_⟩
    · rw [timerInit_flag _ regs (by decide) (by decide), (tconFlags_bits _).1]
    · intro i inside outside
      rw [timerInit_tcfg0]
      exact regionWrite_outside _ _ (by decide) inside outside
    · intro i inside outside
      rw [timerInit_tcfg1]
      exact regionWrite_outside _ _ (by decide) inside outside

/-- A timer that runs once with its output inverted is set up to reload. -/
theorem inverted_oneshot_reloads :
    ¬Programs { timerDefaultCfg with outInvert := 1 } fun _ => 0 :=
  fun programs => absurd ((autoReload_iff _ _).mp programs.autoReload rfl) (by decide)

end Ct.S5pv210.TimerInit
