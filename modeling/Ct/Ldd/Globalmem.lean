import Ct.Lib.Writes
import Mathlib.Logic.Function.Basic

set_option autoImplicit false

namespace Ct.Ldd.Globalmem

open Ct.Lib

def memsize : Nat := 16

/-- The memory of the device, and `f_pos` of every open file. -/
structure State where
  mem : List (BitVec 8)
  fPos : Nat → BitVec 64

def seekSet : Int := 0

def seekCur : Int := 1

def seekEnd : Int := 2

/-- `filp->f_pos = offset; return filp->f_pos;` -/
def moveTo (s : State) (filp : Nat) (offset : BitVec 64) : BitVec 64 × State :=
  (offset, { s with fPos := Function.update s.fPos filp offset })

def gmLlseek (s : State) (filp : Nat) (offset : BitVec 64) (cur : Int) : BitVec 64 × State :=
  if cur = seekSet then
    if offset.toInt < 0 ∨ offset.toInt > memsize then (-1, s) else moveTo s filp offset
  else if cur = seekCur then
    let tmp := s.fPos filp + offset
    if tmp.toInt < 0 ∨ tmp.toInt > memsize then (-1, s) else moveTo s filp tmp
  else if cur = seekEnd then
    if offset.toInt > 0 ∨ offset.toInt < -memsize then (-1, s)
    else moveTo s filp (BitVec.ofNat 64 memsize + offset)
  else (-1, s)

/-- `loff_t tmp = MEMSIZE - *ppos;` -/
def room (s : State) (filp : Nat) : BitVec 64 := BitVec.ofNat 64 memsize - s.fPos filp

/-- `if(size > tmp) size = tmp;`, where the comparison is unsigned. -/
def clip (size tmp : BitVec 64) : BitVec 64 := if size.toNat > tmp.toNat then tmp else size

/-- The `n` bytes from here on lie in the memory. -/
def inside (s : State) (filp : Nat) (n : BitVec 64) : Bool :=
  (s.fPos filp).toNat + n.toNat ≤ s.mem.length

/-- `*ppos += size` -/
def advance (s : State) (filp : Nat) (size : BitVec 64) : State :=
  { s with fPos := Function.update s.fPos filp (s.fPos filp + size) }

/-- `gm_read`, with the bytes that it copies to the user; `faults` tells whether the copy does. -/
def gmRead (s : State) (filp : Nat) (size : BitVec 64) (faults : Bool) :
    Except Fault (BitVec 64 × List (BitVec 8) × State) :=
  let tmp := room s filp
  if tmp.toInt ≤ 0 then .ok (-1, [], s)
  else
    let size := clip size tmp
    if !inside s filp size then .error .outOfBounds
    else if faults then .ok (-1, [], s)
    else .ok (size, (s.mem.drop (s.fPos filp).toNat).take size.toNat, advance s filp size)

/-- The first `n` bytes of a user buffer. -/
def userBytes (buf : Nat → BitVec 8) (n : BitVec 64) : List (BitVec 8) := (List.range n.toNat).map buf

/-- `copy_from_user` to the memory at the position. -/
def copyFromUser (s : State) (filp : Nat) (buf : Nat → BitVec 8) (n : BitVec 64) : State :=
  { s with mem := overwrite s.mem (s.fPos filp).toNat (userBytes buf n) }

/-- `gm_write`; where the copy faults, `faults` is what it leaves in the bytes it was to fill. -/
def gmWrite (s : State) (filp : Nat) (buf : Nat → BitVec 8) (size : BitVec 64)
    (faults : Option (Nat → BitVec 8)) : Except Fault (BitVec 64 × State) :=
  let tmp := room s filp
  if tmp.toInt ≤ 0 then .ok (-1, s)
  else
    let size := clip size tmp
    if !inside s filp size then .error .outOfBounds
    else
      match faults with
      | some left => .ok (-1, copyFromUser s filp left size)
      | none => .ok (size, advance (copyFromUser s filp buf size) filp size)

inductive Call
  | llseek (offset : BitVec 64) (cur : Int)
  | read (size : BitVec 64) (faults : Bool)
  | write (buf : Nat → BitVec 8) (size : BitVec 64) (faults : Option (Nat → BitVec 8))

/-- The call with this file: its value, the bytes that are read, and the state after it. -/
def perform (s : State) (filp : Nat) : Call → Except Fault (BitVec 64 × List (BitVec 8) × State)
  | .llseek offset cur =>
    let (ret, after) := gmLlseek s filp offset cur
    .ok (ret, [], after)
  | .read size faults => gmRead s filp size faults
  | .write buf size faults =>
    match gmWrite s filp buf size faults with
    | .error fault => .error fault
    | .ok (ret, after) => .ok (ret, [], after)

/-- What a call that has returned `ret` has stored: a successful write its bytes, a write whose
copy has faulted what that has left. -/
def stores (s : State) (filp : Nat) (ret : BitVec 64) : Call → List (Written (BitVec 8))
  | .write buf size faults =>
    match faults with
    | none =>
      if ret = -1 then [] else [⟨(s.fPos filp).toNat, userBytes buf ret, true⟩]
    | some left =>
      if (room s filp).toInt ≤ 0 then []
      else [⟨(s.fPos filp).toNat, userBytes left (clip size (room s filp)), false⟩]
  | _ => []

/-- A sequence of calls, with what they have stored, the latest first. -/
def run (s : State) (log : List (Written (BitVec 8))) :
    List (Nat × Call) → Except Fault (State × List (Written (BitVec 8)))
  | [] => .ok (s, log)
  | (filp, call) :: rest =>
    match perform s filp call with
    | .error fault => .error fault
    | .ok (ret, _, after) => run after (stores s filp ret call ++ log) rest

/-- Every file is open, at position 0. -/
def opened (mem : Fin memsize → BitVec 8) : State := ⟨List.ofFn mem, fun _ => 0⟩

end Ct.Ldd.Globalmem
