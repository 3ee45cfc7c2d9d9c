import Ct.Lib.Fault
import Ct.Lib.Memory

set_option autoImplicit false

namespace Ct.Uart

open Ct.Lib

/-- `sizeof(struct mtdata_desc)`: 30 bytes of a frame, two of padding and the `int valid`. -/
def descSize : Nat := 36

/-- `offsetof(struct mtdata_desc, valid)` -/
def validOffset : Nat := 32

/-- The array `data` of `main` as bytes, the three descriptors one behind the other. -/
abbrev Bytes := List UInt8

/-- What the calls of `read` deliver one after the other: a byte, or `none` where a call times out
or fails and leaves its buffer alone. Behind the list they all do. -/
abbrev Reads := List (Option UInt8)

def store (mem : Bytes) (addr : Nat) (b : UInt8) : Except Fault Bytes :=
  if addr < mem.length then .ok (mem.set addr b) else .error .outOfBounds

/-- A store of an `int` below 256, its lowest byte first. -/
def storeInt (mem : Bytes) (addr : Nat) (value : UInt8) : Except Fault Bytes :=
  if addr + 4 ≤ mem.length then .ok (overwrite mem addr [value, 0, 0, 0])
  else .error .outOfBounds

/-- `data[i].valid` as a truth value. -/
def valid (mem : Bytes) (i : Nat) : Bool :=
  ((mem.drop (descSize * i + validOffset)).take 4).any (· != 0)

/-- The inner loop of `calcsum`; the list holds the bytes from `bp[j]` to the end of the array. -/
def checkFrame : UInt8 → Bytes → Except Fault Bool
  | _, [] => .error .outOfBounds
  | sum, b :: rest =>
    if b = 0xcc then .ok false
    else
      match rest with
      | [] => .error .outOfBounds
      | next :: _ => if next = 0xcc then .ok (b == sum) else checkFrame (sum ^^^ b) rest

/-- One turn of the outer loop of `calcsum`. -/
def calcsumEntry (mem : Bytes) (i : Nat) : Except Fault (Bool × Bytes) :=
  match storeInt mem (descSize * i + validOffset) 0 with
  | .error fault => .error fault
  | .ok mem =>
    match checkFrame 0xee (mem.drop (descSize * i + 1)) with
    | .error fault => .error fault
    | .ok false => .ok (false, mem)
    | .ok true =>
      match storeInt mem (descSize * i + validOffset) 1 with
      | .error fault => .error fault
      | .ok mem => .ok (true, mem)

/-- `left` more turns from `i` on. -/
def calcsumFrom : Nat → Nat → Nat → Bytes → Except Fault (Nat × Bytes)
  | 0, _, k, mem => .ok (k, mem)
  | left + 1, i, k, mem =>
    match calcsumEntry mem i with
    | .error fault => .error fault
    | .ok (hit, mem) => calcsumFrom left (i + 1) (if hit then k + 1 else k) mem

def calcsum (mem : Bytes) : Except Fault (Nat × Bytes) := calcsumFrom 3 0 0 mem

/-- The search of `recv_eecc` for the first byte of a frame: the value of `c`, or `none` where a
`read` fails, and the reads that are left. The loop ends on the byte or on its count. -/
def searchEe : Nat → UInt8 → Reads → Option UInt8 × Reads
  | 0, c, reads => (some c, reads)
  | left + 1, c, reads =>
    if c = 0xee then (some c, reads)
    else
      match reads with
      | some b :: rest => searchEe left b rest
      | _ => (none, reads.tail)

/-- The second loop of `recv_eecc`, from `buffer[i]` on. Where `read` fails, the last byte is
stored once more. -/
def recvBytes (base : Nat) : Nat → UInt8 → Bytes → Reads → Except Fault (Int × Bytes × Reads)
  | i, _, mem, some b :: rest =>
    match store mem (base + i) b with
    | .error fault => .error fault
    | .ok mem => if b = 0xcc then .ok (i + 1, mem, rest) else recvBytes base (i + 1) b mem rest
  | i, c, mem, reads =>
    match store mem (base + i) c with
    | .error fault => .error fault
    | .ok mem => .ok (i + 1, mem, reads.tail)

/-- `recv_eecc` into the bytes from `base` on. -/
def recvEecc (base : Nat) (mem : Bytes) (reads : Reads) : Except Fault (Int × Bytes × Reads) :=
  match searchEe 128 0 reads with
  | (none, reads) => .ok (-1, mem, reads)
  | (some c, reads) =>
    match store mem base 0xee with
    | .error fault => .error fault
    | .ok mem => recvBytes base 1 c mem reads

/-- The loop of `uart_read_buf`, with `left` more descriptors from `i` on. -/
def readFrames : Nat → Nat → Int → Bytes → Reads → Except Fault (Int × Bytes × Reads)
  | 0, _, ret, mem, reads => .ok (ret, mem, reads)
  | left + 1, i, ret, mem, reads =>
    if ret < 0 then .ok (ret, mem, reads)
    else
      match recvEecc (descSize * i) mem reads with
      | .error fault => .error fault
      | .ok (ret, mem, reads) => readFrames left (i + 1) ret mem reads

/-- What the serial line does while `uart_read_buf` runs: whether `open` and
`uart_init_taximeter` succeed, and what the reads deliver. -/
structure Session where
  opened : Bool
  ready : Bool
  reads : Reads

/-- `uart_read_buf`, with the reads that it leaves. -/
def uartReadBuf (mem : Bytes) (session : Session) : Except Fault (Int × Bytes × Reads) :=
  if !session.opened then .ok (-1, mem, session.reads)
  else if !session.ready then .ok (-1, mem, session.reads)
  else readFrames 3 0 0 mem session.reads

/-- The bytes that a call of `uart_read_buf` has received when it leaves `rest`. -/
def received (session : Session) (rest : Reads) : Bytes :=
  (session.reads.take (session.reads.length - rest.length)).filterMap id

end Ct.Uart
