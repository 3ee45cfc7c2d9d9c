import Ct.Lib.Fault
import Ct.S5pv210.Common

set_option autoImplicit false

namespace Ct.S5pv210.I2c

open Ct.Lib

/-- What becomes of a transfer: whether the ninth clock brings an acknowledgement, and the byte
that comes in while the controller receives. -/
structure Transfer where
  acked : Bool
  data : BitVec 8

/-- The registers of the controller, and how many transfers there have been. -/
structure Bus where
  i2ccon : BitVec 32
  i2cstat : BitVec 32
  i2cds : BitVec 32
  transfers : Nat

def i2cMaxTry : Nat := 3

def i2cRead : BitVec 32 := 1

def i2cWrite : BitVec 32 := 0

def i2cSetNack : BitVec 32 := 0

def i2cSetAck : BitVec 32 := 1

/-- `i2c_mode_t` -/
def masterRx : BitVec 32 := 2

def masterTx : BitVec 32 := 3

section Registers

variable (bus : Bus)

def i2cAckToggle (x : BitVec 32) : Bus := { bus with i2ccon := regionWrite bus.i2ccon 0x1 7 x }

def i2cSetMode (mode : BitVec 32) : Bus :=
  { bus with i2cstat := regionWrite bus.i2cstat 0x3 6 mode }

def i2cStart : Bus := { bus with i2cstat := regionWrite bus.i2cstat 0x1 5 1 }

def i2cStop : Bus := { bus with i2cstat := regionWrite bus.i2cstat 0x1 5 0 }

def i2cTrxPend : BitVec 32 := bus.i2ccon &&& ((1 : BitVec 32) <<< 4)

def i2cTrxResume : Bus := { bus with i2ccon := regionWrite bus.i2ccon 0x1 4 0 }

def i2cTrxToggle (x : BitVec 32) : Bus := { bus with i2cstat := regionWrite bus.i2cstat 0x1 4 x }

def i2cNotRcvAck : BitVec 32 := bus.i2cstat &&& 0x1

def i2cDataWrite (ch : BitVec 32) : Bus := { bus with i2cds := ch &&& 0xff }

def i2cDataRead : BitVec 8 := (bus.i2cds &&& 0xff).setWidth 8

/-- The mode bits, as the controller sees them. -/
def mode : BitVec 32 := regionRead bus.i2cstat 0x3 6

end Registers

variable (device : Nat → Transfer)

/-- `while(!i2c_trx_pend());`: unless a transfer is pending already, the next one takes place. It
leaves the status of the ninth clock in bit 0, and what is received in the data register. -/
def awaitPend (bus : Bus) : Bus :=
  if i2cTrxPend bus = 0 then
    { i2ccon := regionWrite bus.i2ccon 0x1 4 1
      i2cstat := regionWrite bus.i2cstat 0x1 0 (if (device bus.transfers).acked then 0 else 1)
      i2cds := if mode bus = masterRx then (device bus.transfers).data.setWidth 32 else bus.i2cds
      transfers := bus.transfers + 1 }
  else bus

def modeOf (rwFlag : BitVec 32) : BitVec 32 := if rwFlag = i2cRead then masterRx else masterTx

/-- The loop of `i2c_select_device`, with the tries that are left. -/
def selectLoop (addr : BitVec 8) (rwFlag : BitVec 32) : Nat → Bus → Int × Bus
  | 0, bus => (-1, bus)
  | left + 1, bus =>
    let bus := i2cDataWrite bus ((addr.setWidth 32 <<< 1) ||| rwFlag)
    let bus := i2cAckToggle bus i2cSetAck
    let bus := i2cTrxResume bus
    let bus := i2cSetMode bus (modeOf rwFlag)
    let bus := i2cTrxToggle bus 1
    let bus := i2cStart bus
    let bus := awaitPend device bus
    if i2cNotRcvAck bus = 0 then (0, bus) else selectLoop addr rwFlag left (i2cStop bus)

def i2cSelectDevice (addr : BitVec 8) (rwFlag : BitVec 32) (bus : Bus) : Int × Bus :=
  selectLoop device addr rwFlag i2cMaxTry bus

def i2cSendAddr (addr : BitVec 8) (bus : Bus) : Int × Bus :=
  let bus := i2cDataWrite bus (addr.setWidth 32)
  let bus := i2cTrxResume bus
  let bus := awaitPend device bus
  ((i2cNotRcvAck bus).toInt, bus)

def i2cRestart (addr : BitVec 8) (rwFlag : BitVec 32) (bus : Bus) : Int × Bus :=
  let bus := i2cDataWrite bus ((addr.setWidth 32 <<< 1) ||| rwFlag)
  let bus := i2cSetMode bus (modeOf rwFlag)
  let bus := i2cStart bus
  let bus := i2cTrxResume bus
  let bus := awaitPend device bus
  ((i2cNotRcvAck bus).toInt, bus)

/-- `i2c_receive_data`, with the byte that it stores. -/
def i2cReceiveData (ack : BitVec 32) (bus : Bus) : Int × BitVec 8 × Bus :=
  let bus := i2cAckToggle bus ack
  let bus := i2cTrxResume bus
  let bus := awaitPend device bus
  ((i2cNotRcvAck bus).toInt, i2cDataRead bus, bus)

def i2cSendData (ch : BitVec 8) (bus : Bus) : Int × Bus :=
  let bus := i2cDataWrite bus (ch.signExtend 32)
  let bus := i2cTrxResume bus
  let bus := awaitPend device bus
  ((i2cNotRcvAck bus).toInt, bus)

/-- `buf[i] = ch` -/
def store (buf : List (BitVec 8)) (i : Nat) (ch : BitVec 8) : Except Fault (List (BitVec 8)) :=
  if i < buf.length then .ok (buf.set i ch) else .error .outOfBounds

/-- The loop of `i2c_read_array` from `i` on, with its `ret`, which is not 0 if it has been left. -/
def receiveLoop : Nat → Nat → List (BitVec 8) → Bus →
    Except Fault (Int × Nat × List (BitVec 8) × Bus)
  | 0, i, buf, bus => .ok (0, i, buf, bus)
  | left + 1, i, buf, bus => do
    let (ret, ch, bus) := i2cReceiveData device i2cSetAck bus
    let buf ← store buf i ch
    if ret = 0 then receiveLoop left (i + 1) buf bus else .ok (ret, i, buf, bus)

/-- `i2c_stop(); i2c_trx_resume();` -/
def finish (bus : Bus) : Bus := i2cTrxResume (i2cStop bus)

/-- `i2c_read_array`; what it prints is left out. -/
def i2cReadArray (addr : BitVec 8) (buf : List (BitVec 8)) (len : Int) (bus : Bus) :
    Except Fault (Int × List (BitVec 8) × Bus) := do
  let (ret, bus) := i2cSelectDevice device 0x50 i2cWrite bus
  if ret ≠ 0 then .ok (ret, buf, bus)
  else
    let (ret, bus) := i2cSendAddr device addr bus
    if ret ≠ 0 then .ok (ret, buf, finish bus)
    else
      let (ret, bus) := i2cRestart device 0x50 i2cRead bus
      if ret ≠ 0 then .ok (ret, buf, finish bus)
      else
        let (ret, i, buf, bus) ← receiveLoop device (len - 1).toNat 0 buf bus
        if ret ≠ 0 then .ok (ret, buf, finish bus)
        else
          let (_, ch, bus) := i2cReceiveData device i2cSetNack bus
          let buf ← store buf i ch
          .ok (len, buf, finish bus)

/-- The loop of `i2c_write_array` from `i` on, with its `ret`. -/
def sendLoop (buf : List (BitVec 8)) : Nat → Nat → Bus → Except Fault (Int × Bus)
  | 0, _, bus => .ok (0, bus)
  | left + 1, i, bus =>
    match buf[i]? with
    | none => .error .outOfBounds
    | some ch =>
      let (ret, bus) := i2cSendData device ch bus
      if ret = 0 then sendLoop buf left (i + 1) bus else .ok (ret, bus)

/-- `i2c_write_array`; what it prints is left out. -/
def i2cWriteArray (addr : BitVec 8) (buf : List (BitVec 8)) (len : Int) (bus : Bus) :
    Except Fault (Int × Bus) := do
  let (ret, bus) := i2cSelectDevice device 0x50 i2cWrite bus
  if ret ≠ 0 then .ok (ret, bus)
  else
    let (ret, bus) := i2cSendAddr device addr bus
    if ret ≠ 0 then .ok (ret, finish bus)
    else
      let (ret, bus) ← sendLoop device buf len.toNat 0 bus
      if ret ≠ 0 then .ok (ret, finish bus) else .ok (len, finish bus)

def i2cReadByte (addr : BitVec 8) (ch : BitVec 8) (bus : Bus) :
    Except Fault (Int × List (BitVec 8) × Bus) :=
  i2cReadArray device addr [ch] 1 bus

def i2cWriteByte (addr : BitVec 8) (ch : BitVec 8) (bus : Bus) : Except Fault (Int × Bus) :=
  i2cWriteArray device addr [ch] 1 bus

end Ct.S5pv210.I2c
