import Ct.Lib.CInt
import Ct.Lib.Fifo

set_option autoImplicit false

namespace Ct.Ldd.RingBuffer

open Ct.Lib

def memsize : Nat := 16

instance : NeZero memsize := ⟨by decide⟩

def EINVAL : Int := 22
def ENOMEM : Int := 12
def ERESTARTSYS : Int := 512

/-- `struct ringbuffer` without its char device: `sem` is the count of the semaphore. -/
structure Rb where
  mem : Vector UInt8 memsize
  size : Int
  readPos : Int
  writePos : Int
  sem : Nat

/-- The memory comes from `kmalloc` and holds whatever was there. -/
def rbInit (mem : Vector UInt8 memsize) : Rb where
  mem := mem
  size := memsize
  readPos := (memsize : Int) - 1
  writePos := 0
  sem := 1

def bufferUsed (rb : Rb) : Nat :=
  if rb.writePos > rb.readPos then
    toSize (rb.writePos - rb.readPos - 1)
  else
    toSize (rb.writePos - rb.readPos - 1 + rb.size)

def idleBuffer (rb : Rb) : Nat := toSize (rb.size - bufferUsed rb - 1)

def nextReadPos (rb : Rb) : Int := (rb.readPos + 1).tmod rb.size

def nextWritePos (rb : Rb) : Int := (rb.writePos + 1).tmod rb.size

def isEmpty (rb : Rb) : Bool := (rb.readPos + 1).tmod rb.size = rb.writePos

def isFilled (rb : Rb) : Bool := rb.writePos = rb.readPos

/-- `down` on a semaphore whose count is not 0. -/
def Rb.down (rb : Rb) : Rb := { rb with sem := rb.sem - 1 }

def Rb.up (rb : Rb) : Rb := { rb with sem := rb.sem + 1 }

/-- `dev->mem[dev->read_pos]` once `read_pos` has moved on. -/
def Rb.nextByte (rb : Rb) : UInt8 := cellAt rb.mem (nextReadPos rb).toNat

/-- The device part of one turn of the copy loop of `rb_read`. -/
def Rb.take (rb : Rb) : Rb := { rb with readPos := nextReadPos rb }

/-- The device part of one turn of the copy loop of `rb_write`. -/
def Rb.put (rb : Rb) (byte : UInt8) : Rb :=
  { rb with mem := rb.mem.setIfInBounds rb.writePos.toNat byte, writePos := nextWritePos rb }

/-- `w - r - 1` around the buffer. -/
def Rb.distance (rb : Rb) : Nat := ((rb.writePos - rb.readPos - 1) % memsize).toNat

/-- The unread bytes, oldest first: the cells after `read_pos` up to `write_pos`. -/
def unread (rb : Rb) : List UInt8 := window rb.mem (rb.readPos + 1).toNat rb.distance

/-- What every operation keeps: the positions index `mem`. -/
structure Rb.Valid (rb : Rb) : Prop where
  size_eq : rb.size = memsize
  readPos_nonneg : 0 ≤ rb.readPos
  readPos_lt : rb.readPos < memsize
  writePos_nonneg : 0 ≤ rb.writePos
  writePos_lt : rb.writePos < memsize

section Valid

variable {rb : Rb}

theorem rbInit_valid (mem : Vector UInt8 memsize) : (rbInit mem).Valid := by
  constructor <;> simp [rbInit, memsize]

theorem distance_lt (rb : Rb) : rb.distance < memsize := by
  simp only [Rb.distance, memsize]
  omega

theorem Rb.Valid.bufferUsed_eq (valid : rb.Valid) : bufferUsed rb = rb.distance := by
  obtain ⟨size_eq, readNonneg, readLt, writeNonneg, writeLt⟩ := valid
  simp only [bufferUsed, Rb.distance, memsize, size_eq] at *
  split
  · rw [toSize_of_range (by omega) (by omega)]
    omega
  · rw [toSize_of_range (by omega) (by omega)]
    omega

theorem Rb.Valid.idleBuffer_eq (valid : rb.Valid) :
    idleBuffer rb = memsize - 1 - rb.distance := by
  have below := distance_lt rb
  rw [idleBuffer, valid.bufferUsed_eq, valid.size_eq]
  simp only [memsize] at *
  rw [toSize_of_range (by omega) (by omega)]
  omega

theorem Rb.Valid.nextReadPos_eq (valid : rb.Valid) :
    nextReadPos rb = (rb.readPos + 1) % memsize := by
  have lower := valid.readPos_nonneg
  rw [nextReadPos, valid.size_eq, Int.tmod_eq_emod_of_nonneg (by omega)]

theorem Rb.Valid.nextWritePos_eq (valid : rb.Valid) :
    nextWritePos rb = (rb.writePos + 1) % memsize := by
  have lower := valid.writePos_nonneg
  rw [nextWritePos, valid.size_eq, Int.tmod_eq_emod_of_nonneg (by omega)]

/-- `is_empty` compares the positions the way `buffer_used` subtracts them. -/
theorem Rb.Valid.isEmpty_iff (valid : rb.Valid) : isEmpty rb = true ↔ rb.distance = 0 := by
  have next := valid.nextReadPos_eq
  obtain ⟨size_eq, readNonneg, readLt, writeNonneg, writeLt⟩ := valid
  rw [nextReadPos] at next
  simp only [isEmpty, decide_eq_true_eq, next, Rb.distance, memsize] at *
  omega

theorem Rb.Valid.isFilled_iff (valid : rb.Valid) :
    isFilled rb = true ↔ rb.distance = memsize - 1 := by
  obtain ⟨size_eq, readNonneg, readLt, writeNonneg, writeLt⟩ := valid
  simp only [isFilled, decide_eq_true_eq, Rb.distance, memsize] at *
  omega

theorem Rb.Valid.down (valid : rb.Valid) : rb.down.Valid := ⟨valid.1, valid.2, valid.3, valid.4, valid.5⟩

theorem Rb.Valid.up (valid : rb.Valid) : rb.up.Valid := ⟨valid.1, valid.2, valid.3, valid.4, valid.5⟩

theorem Rb.Valid.take (valid : rb.Valid) : rb.take.Valid := by
  have next := valid.nextReadPos_eq
  refine ⟨valid.size_eq, ?_, ?_, valid.writePos_nonneg, valid.writePos_lt⟩
  all_goals
    simp only [Rb.take, next, memsize]
    omega

theorem Rb.Valid.put (valid : rb.Valid) (byte : UInt8) : (rb.put byte).Valid := by
  have next := valid.nextWritePos_eq
  refine ⟨valid.size_eq, valid.readPos_nonneg, valid.readPos_lt, ?_, ?_⟩
  all_goals
    simp only [Rb.put, next, memsize]
    omega

@[simp] theorem distance_down (rb : Rb) : rb.down.distance = rb.distance := rfl

@[simp] theorem length_unread (rb : Rb) : (unread rb).length = rb.distance := length_window _ _ _

theorem unread_rbInit (mem : Vector UInt8 memsize) : unread (rbInit mem) = [] := rfl

theorem Rb.Valid.distance_take (valid : rb.Valid) (some : 0 < rb.distance) :
    rb.take.distance = rb.distance - 1 := by
  have next := valid.nextReadPos_eq
  simp only [Rb.distance, Rb.take, next, memsize] at *
  omega

theorem Rb.Valid.distance_put (valid : rb.Valid) (byte : UInt8)
    (room : rb.distance < memsize - 1) : (rb.put byte).distance = rb.distance + 1 := by
  have next := valid.nextWritePos_eq
  simp only [Rb.distance, Rb.put, next, memsize] at *
  omega

/-- A turn of the reader's loop removes the oldest unread byte. -/
theorem Rb.Valid.unread_take (valid : rb.Valid) (some : 0 < rb.distance) :
    unread rb = rb.nextByte :: unread rb.take := by
  have next := valid.nextReadPos_eq
  have lower := valid.readPos_nonneg
  have count : rb.distance = rb.take.distance + 1 := by
    rw [valid.distance_take some]
    omega
  change window rb.mem (rb.readPos + 1).toNat rb.distance =
    cellAt rb.mem (nextReadPos rb).toNat ::
      window rb.mem (nextReadPos rb + 1).toNat rb.take.distance
  rw [count, window_cons]
  congr 1
  · apply cellAt_congr
    simp only [next, memsize]
    omega
  · apply window_congr
    simp only [next, memsize]
    omega

/-- A turn of the writer's loop fills a cell that holds no unread byte and appends it. -/
theorem Rb.Valid.unread_put (valid : rb.Valid) (byte : UInt8)
    (room : rb.distance < memsize - 1) : unread (rb.put byte) = unread rb ++ [byte] := by
  have grown := valid.distance_put byte room
  obtain ⟨_, readNonneg, readLt, writeNonneg, writeLt⟩ := valid
  change window (rb.mem.setIfInBounds rb.writePos.toNat byte) (rb.readPos + 1).toNat
      (rb.put byte).distance = window rb.mem (rb.readPos + 1).toNat rb.distance ++ [byte]
  have last : ((rb.readPos + 1).toNat + rb.distance) % memsize = rb.writePos.toNat := by
    simp only [Rb.distance, memsize] at *
    omega
  rw [grown, window_snoc, ← last, cellAt_set_self, window_set_outside]
  intro k below
  rw [last]
  simp only [Rb.distance, memsize] at *
  omega

/-- The store of a writer that has room reaches no unread cell. -/
theorem Rb.Valid.put_unread_cell (valid : rb.Valid) (byte : UInt8)
    (room : rb.distance < memsize - 1) (k : Nat) (below : k < rb.distance) :
    cellAt (rb.put byte).mem ((rb.readPos + 1).toNat + k) =
      cellAt rb.mem ((rb.readPos + 1).toNat + k) := by
  obtain ⟨_, readNonneg, readLt, writeNonneg, writeLt⟩ := valid
  apply cellAt_set_of_ne
  simp only [Rb.distance, memsize] at *
  omega

end Valid

end Ct.Ldd.RingBuffer
