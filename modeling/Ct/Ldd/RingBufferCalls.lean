import Ct.Ldd.RingBuffer
import Ct.Lib.Machine

set_option autoImplicit false

namespace Ct.Ldd.RingBuffer

open Ct.Lib

/-- Where a call of `rb_read` stands. -/
inductive ReadPc
  | loop
  | locked
  | copying (readSize : Nat)
  | copyOut
  | done (ret : Int)
  deriving DecidableEq

/-- A call of `rb_read`; `buffer` is the part of the `kmalloc`ed block below `buffer_pos`. -/
structure ReadCall where
  size : Nat
  buffer : List UInt8
  pc : ReadPc

/-- Where a call of `rb_write` stands. -/
inductive WritePc
  | loop
  | locked
  | waiting
  | relock
  | copying (writeSize : Int)
  | done (ret : Int)
  deriving DecidableEq

/-- A call of `rb_write`; `buffer` is the copy of the user's buffer. -/
structure WriteCall where
  size : Nat
  buffer : List UInt8
  bufferPos : Int
  pc : WritePc

inductive Call
  | read (call : ReadCall)
  | write (call : WriteCall)

/-- What one step of a call does to the device. -/
inductive Effect
  | quiet
  | down
  | up
  | take
  | put (byte : UInt8)

/-- `rb_read` up to its loop. -/
def rbReadEntry (size : Nat) (alloc : Bool) : ReadCall :=
  if size ≤ 0 then ⟨size, [], .done (-EINVAL)⟩
  else if !alloc then ⟨size, [], .done (-ENOMEM)⟩
  else ⟨size, [], .loop⟩

/-- One step of `rb_read`. `fails` is the outcome of the operation the step waits for:
`down_interruptible` interrupted, `copy_to_user` faulting. Blocked steps are `none`. -/
def rbReadStep (dev : Rb) (call : ReadCall) (fails : Bool) : Option (Effect × ReadCall) :=
  match call.pc with
  | .loop =>
    if call.buffer.length < call.size then
      if fails then some (.quiet, { call with pc := .done (-ERESTARTSYS) })
      else if 0 < dev.sem then some (.down, { call with pc := .locked })
      else none
    else some (.quiet, { call with pc := .copyOut })
  | .locked =>
    if isEmpty dev then some (.up, { call with pc := .copyOut })
    else
      let bufferSize := call.size - call.buffer.length
      let readSize := if bufferSize < bufferUsed dev then bufferSize else bufferUsed dev
      some (.quiet, { call with pc := .copying readSize })
  | .copying 0 => some (.up, { call with pc := .loop })
  | .copying (readSize + 1) =>
    some (.take, { call with buffer := call.buffer ++ [dev.nextByte], pc := .copying readSize })
  | .copyOut =>
    if fails then some (.quiet, { call with pc := .done (-ERESTARTSYS) })
    else some (.quiet, { call with pc := .done (toInt call.buffer.length) })
  | .done _ => none

/-- `rb_write` up to its loop: `fault` is a `copy_from_user` that fails. -/
def rbWriteEntry (user : List UInt8) (alloc fault : Bool) : WriteCall :=
  if user.length ≤ 0 then ⟨user.length, user, 0, .done (-EINVAL)⟩
  else if !alloc then ⟨user.length, user, 0, .done (-ENOMEM)⟩
  else if fault then ⟨user.length, user, 0, .done (-ERESTARTSYS)⟩
  else ⟨user.length, user, 0, .loop⟩

/-- `write_size` as computed with the semaphore held. -/
def writeSize (dev : Rb) (call : WriteCall) : Int :=
  let bufferSize := toInt (toSize (call.size - call.bufferPos))
  if toSize bufferSize < idleBuffer dev then toInt (toSize bufferSize)
  else toInt (idleBuffer dev)

/-- One step of `rb_write`; `fails` is an interrupted `down_interruptible` or
`wait_event_interruptible`. -/
def rbWriteStep (dev : Rb) (call : WriteCall) (fails : Bool) : Option (Effect × WriteCall) :=
  match call.pc with
  | .loop =>
    if toSize call.bufferPos < call.size then
      if fails then some (.quiet, { call with pc := .done (-ERESTARTSYS) })
      else if 0 < dev.sem then some (.down, { call with pc := .locked })
      else none
    else some (.quiet, { call with pc := .done (toInt call.size) })
  | .locked =>
    if isFilled dev then some (.up, { call with pc := .waiting })
    else some (.quiet, { call with pc := .copying (writeSize dev call) })
  | .waiting =>
    if fails then some (.quiet, { call with pc := .done (-ERESTARTSYS) })
    else if !isFilled dev then some (.quiet, { call with pc := .relock })
    else none
  | .relock =>
    if fails then some (.quiet, { call with pc := .loop })
    -- is_filled is not tested again: another writer may have filled the ring
    else if 0 < dev.sem then some (.down, { call with pc := .copying (writeSize dev.down call) })
    else none
  | .copying left =>
    if 0 < left then
      some (.put (call.buffer.getD call.bufferPos.toNat 0),
        { call with bufferPos := call.bufferPos + 1, pc := .copying (left - 1) })
    else some (.up, { call with pc := .loop })
  | .done _ => none

def Call.step (dev : Rb) (call : Call) (fails : Bool) : Option (Effect × Call) :=
  match call with
  | .read call => (rbReadStep dev call fails).map fun result => (result.1, .read result.2)
  | .write call => (rbWriteStep dev call fails).map fun result => (result.1, .write result.2)

/-- The device, the calls made on it so far, and who inserted and extracted which byte. -/
structure State where
  dev : Rb
  calls : Nat → Option Call
  inserted : List (Nat × UInt8)
  extracted : List (Nat × UInt8)

def State.start (mem : Vector UInt8 memsize) : State := ⟨rbInit mem, fun _ => none, [], []⟩

/-- The bytes of a log that one call moved, in order. -/
def movedBy (id : Nat) (log : List (Nat × UInt8)) : List UInt8 :=
  (log.filter (·.1 == id)).map Prod.snd

def State.setCall (state : State) (id : Nat) (call : Call) : State :=
  { state with calls := fun other => if other = id then some call else state.calls other }

def Rb.perform (dev : Rb) : Effect → Rb
  | .quiet => dev
  | .down => dev.down
  | .up => dev.up
  | .take => dev.take
  | .put byte => dev.put byte

/-- The bytes an effect adds to the log of inserted bytes. -/
def Effect.inserts : Effect → List UInt8
  | .put byte => [byte]
  | _ => []

/-- The bytes an effect adds to the log of extracted bytes. -/
def Effect.extracts (dev : Rb) : Effect → List UInt8
  | .take => [dev.nextByte]
  | _ => []

def State.perform (state : State) (id : Nat) (effect : Effect) : State :=
  { state with
    dev := state.dev.perform effect
    inserted := state.inserted ++ effect.inserts.map (Prod.mk id)
    extracted := state.extracted ++ (effect.extracts state.dev).map (Prod.mk id) }

/-- `alloc` and `fault` are the outcomes of `kmalloc` and `copy_from_user`. -/
inductive Action
  | callRead (id size : Nat) (alloc : Bool)
  | callWrite (id : Nat) (user : List UInt8) (alloc fault : Bool)
  | run (id : Nat) (fails : Bool)

/-- `kmalloc` hands out no block above its limit. -/
def kmallocMay (kmallocMax size : Nat) (alloc : Bool) : Bool := !alloc || size ≤ kmallocMax

def step (kmallocMax : Nat) (state : State) : Action → Option State
  | .callRead id size alloc =>
    if state.calls id = none ∧ kmallocMay kmallocMax size alloc then
      some (state.setCall id (.read (rbReadEntry size alloc)))
    else none
  | .callWrite id user alloc fault =>
    if state.calls id = none ∧ kmallocMay kmallocMax user.length alloc then
      some (state.setCall id (.write (rbWriteEntry user alloc fault)))
    else none
  | .run id fails =>
    match state.calls id with
    | none => none
    | some call =>
      match call.step state.dev fails with
      | none => none
      | some (effect, next) => some ((state.perform id effect).setCall id next)

/-- Any number of calls on the one device, their steps interleaved in any order. -/
def device (kmallocMax : Nat) : Machine State Action := ⟨step kmallocMax⟩

end Ct.Ldd.RingBuffer
