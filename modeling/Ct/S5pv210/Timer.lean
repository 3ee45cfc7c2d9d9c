import Ct.Lib.Machine
import Ct.S5pv210.Common

set_option autoImplicit false

namespace Ct.S5pv210.Timer

open Ct.Lib

/-- `enum timer_sn`, without `TIMER_NONE` -/
inductive TimerSn
  | timer0
  | timer1
  | timer2
  | timer3
  | timer4
  deriving DecidableEq, Repr

def TimerSn.sn : TimerSn → Nat
  | timer0 => 0
  | timer1 => 1
  | timer2 => 2
  | timer3 => 3
  | timer4 => 4

/-- `TINT_CSTAT` after a write: bits 0 to 4 are stored, a 1 clears one of bits 5 to 9. -/
def writeTintCstat (reg value : BitVec 32) : BitVec 32 :=
  (value &&& 0x1f) ||| (reg &&& ~~~value &&& 0x3e0)

def enabled (reg : BitVec 32) (t : TimerSn) : Bool := reg.getLsbD t.sn

def pending (reg : BitVec 32) (t : TimerSn) : Bool := reg.getLsbD (t.sn + 5)

/-- What the functions do to `TINT_CSTAT`; between two of these accesses, and between the read
and the write of a `region_write`, the hardware may set flags. -/
inductive Access
  /-- `region_write(TINT_CSTAT, 0x1, index, val)` -/
  | regionWrite (index : Nat) (val : BitVec 32)
  /-- `set2clear(TINT_CSTAT, 0x1, index)` -/
  | set2clear (index : Nat)
  /-- reads until `region_read(TINT_CSTAT, 0x1, index)` is not 0 -/
  | poll (index : Nat)

def timerIrqToggle (tSn : TimerSn) (enable : BitVec 32) : List Access :=
  [.regionWrite tSn.sn enable]

def timerIrqClear (tSn : TimerSn) : List Access := [.set2clear (tSn.sn + 5)]

/-- `timer_init`; the other registers that it sets up do not count here. -/
def timerInit (sn : TimerSn) (irqEnable : BitVec 1) : List Access :=
  -- `irq_enable` is a signed bit field
  timerIrqToggle sn (irqEnable.signExtend 32)

def timerSpinDelay (tSn : TimerSn) : List Access :=
  timerInit tSn 1 ++ [.poll (tSn.sn + 5)] ++ timerIrqClear tSn

def icOffset : Nat := 16

def icTimer : BitVec 32 := 0x1

def irqClass (channel : BitVec 32) : BitVec 32 := channel >>> icOffset

def irqMinor (channel : BitVec 32) : Nat := (channel &&& 0xffff).toNat

/-- `TIMERINT(x)` -/
def timerint (t : TimerSn) : BitVec 32 := (icTimer <<< icOffset) + BitVec.ofNat 32 t.sn

def irqSetTimer (minor : Nat) : List Access :=
  if minor ≤ 4 then [.regionWrite minor 0x1] else []

/-- `irq_init`; the other classes do not access `TINT_CSTAT`. -/
def irqInit (channel : BitVec 32) : List Access :=
  if irqClass channel = icTimer then irqSetTimer (irqMinor channel) else []

def timerClearPending (minor : Nat) : List Access :=
  [.set2clear (5 + minor), .regionWrite minor 0x1]

def irqClearPending (channel : BitVec 32) : List Access :=
  if irqClass channel = icTimer then timerClearPending (irqMinor channel) else []

/-- The calls for a timer. -/
inductive Call
  | timerIrqToggle (enable : BitVec 32)
  | timerIrqClear
  | timerSpinDelay
  | irqInit
  | irqClearPending

def Call.accesses (t : TimerSn) : Call → List Access
  | timerIrqToggle enable => Timer.timerIrqToggle t enable
  | timerIrqClear => Timer.timerIrqClear t
  | timerSpinDelay => Timer.timerSpinDelay t
  | irqInit => Timer.irqInit (timerint t)
  | irqClearPending => Timer.irqClearPending (timerint t)

/-- The register, and the call that is on its way: its timer, the accesses that it has left, and
the value that a `region_write` has read and not yet written. -/
structure State where
  tintCstat : BitVec 32
  timer : TimerSn
  left : List Access
  reg : Option (BitVec 32)

/-- No call is on its way. -/
def idle (tintCstat : BitVec 32) : State := ⟨tintCstat, .timer0, [], none⟩

inductive Action
  /-- the hardware sets the flag of this timer -/
  | raise (t : TimerSn)
  | call (t : TimerSn) (call : Call)
  /-- the next access of the call -/
  | access

def access (s : State) : Option State :=
  match s.left with
  | [] => none
  | .regionWrite index val :: rest =>
    match s.reg with
    | none => some { s with reg := some s.tintCstat }
    | some reg =>
      some { s with
        tintCstat := writeTintCstat s.tintCstat (regionWrite reg 0x1 index val)
        left := rest
        reg := none }
  | .set2clear index :: rest =>
    some { s with tintCstat := writeTintCstat s.tintCstat (set2clear 0x1 index), left := rest }
  | .poll index :: rest =>
    some (if regionRead s.tintCstat 0x1 index = 0 then s else { s with left := rest })

def timers : Machine State Action where
  step s
    | .raise t => some { s with tintCstat := s.tintCstat ||| ((0x20 : BitVec 32) <<< t.sn) }
    | .call t call =>
      if s.left.isEmpty then some { s with timer := t, left := call.accesses t } else none
    | .access => access s

end Ct.S5pv210.Timer
