import Ct.Lib.Format
import Ct.Lib.Memory

set_option autoImplicit false

namespace Ct.Copy

open Ct.Lib

/-- A line of `map`; the sectors have 512 bytes. -/
structure Segment where
  number : BitVec 64
  start : BitVec 64
  count : BitVec 64
  deriving DecidableEq

/-- `map` -/
def systemMap : List Segment :=
  [⟨1, 461920, 262136⟩, ⟨2, 724064, 16⟩, ⟨3, 724712, 16⟩, ⟨4, 728664, 257536⟩, ⟨5, 986208, 16⟩,
   ⟨6, 1248352, 16⟩, ⟨7, 1249000, 16⟩, ⟨8, 1252952, 257536⟩, ⟨9, 1510496, 16⟩, ⟨10, 1772640, 16⟩,
   ⟨11, 1773288, 16⟩, ⟨12, 1777240, 138600⟩, ⟨13, 2034784, 16⟩, ⟨14, 2296928, 16⟩,
   ⟨15, 2297576, 16⟩, ⟨16, 2559072, 16⟩, ⟨17, 2821216, 16⟩, ⟨18, 2821864, 16⟩,
   ⟨19, 2825816, 152680⟩]

/-- What `main` finds when it calls `open`, `read` and `write`. A call that does not fail transfers
what it is asked for, as far as the file reaches. -/
structure Calls where
  /-- what `system_all.img` holds when it is opened, or that it cannot be opened -/
  openOut : Option (List UInt8)
  openIn : CString → Option (List UInt8)
  /-- the `read` of this file at this offset fails -/
  readFails : CString → Nat → Bool
  /-- the `write` at this offset fails -/
  writeFails : Nat → Bool

/-- `filename`: with the longest number it has 31 characters. -/
def filename (number : BitVec 64) : CString :=
  "system_".toList ++ intText number.toInt ++ ".img".toList

/-- `fd_out`, with what was written so far, and the variables that sum it up. -/
structure Output where
  image : List UInt8
  offset : Nat
  filledSize : BitVec 64
  emptySize : BitVec 64

/-- `write(fd_out, bytes, 512)` -/
def writeOut (calls : Calls) (bytes : List UInt8) (out : Output) : Option Output :=
  if calls.writeFails out.offset then none
  else some { out with
    image := overwrite out.image out.offset bytes
    offset := out.offset + bytes.length }

/-- `read(fd_in, buffer, 512)`: what the file has no more of stays in the buffer. -/
def readIn (file : List UInt8) (pos : Nat) (buffer : List UInt8) : List UInt8 :=
  let bytes := (file.drop pos).take 512
  bytes ++ buffer.drop bytes.length

/-- The loop over the sectors of a segment, of which `left` are left. A stop carries the return
value of `main`. -/
def copyLoop (calls : Calls) (name : CString) (file : List UInt8) :
    Nat → Nat → List UInt8 → BitVec 64 → Output →
      Except (Int × Output) (List UInt8 × BitVec 64 × Output)
  | 0, _, buffer, count, out => .ok (buffer, count, out)
  | left + 1, pos, buffer, count, out =>
    if calls.readFails name pos then .error (-1, out)
    else
      let buffer := readIn file pos buffer
      match writeOut calls buffer out with
      | none => .error (-2, out)
      | some out =>
        copyLoop calls name file left (min (pos + 512) file.length) buffer
          (count + BitVec.ofNat 64 buffer.length) out

/-- The loop over the sectors of a gap. -/
def zeroLoop (calls : Calls) : Nat → BitVec 64 → Output → Except (Int × Output) (BitVec 64 × Output)
  | 0, count, out => .ok (count, out)
  | left + 1, count, out =>
    match writeOut calls (List.replicate 512 0) out with
    | none => .error (-1, out)
    | some out => zeroLoop calls left (count + 512) out

/-- The loop over `map`, with the segment before. -/
def segmentLoop (calls : Calls) :
    Option Segment → List Segment → List UInt8 → Output → Except (Int × Output) Output
  | _, [], _, out => .ok out
  | before, segment :: rest, buffer, out =>
    let name := filename segment.number
    match calls.openIn name with
    | none => .error (-1, out)
    | some file => do
      let (buffer, count, out) ← copyLoop calls name file segment.count.toNat 0 buffer 0 out
      let out := { out with filledSize := out.filledSize + count }
      match before with
      | none => segmentLoop calls (some segment) rest buffer out
      | some before => do
        let emptyCount := segment.start - before.start - before.count
        let (count, out) ← zeroLoop calls emptyCount.toNat 0 out
        let out := { out with emptySize := out.emptySize + count }
        segmentLoop calls (some segment) rest buffer out

/-- The two sizes that `main` prints at its end. -/
structure Sizes where
  allWrite : BitVec 64
  endToStart : BitVec 64
  deriving DecidableEq

/-- What `main` returns, leaves in `system_all.img`, and prints at its end. -/
structure Result where
  ret : Int
  image : Option (List UInt8)
  sizes : Option Sizes

/-- "sector end - start + tail" -/
def endToStart (first : Segment) (rest : List Segment) : BitVec 64 :=
  let last := (first :: rest).getLast (List.cons_ne_nil first rest)
  (last.start - first.start + last.count) * 512

/-- `main`, for a table that starts with `first`. -/
def main (calls : Calls) (first : Segment) (rest : List Segment) : Result :=
  match calls.openOut with
  | none => ⟨-1, none, none⟩
  | some image =>
    match segmentLoop calls none (first :: rest) (List.replicate 512 0) ⟨image, 0, 0, 0⟩ with
    | .error (ret, out) => ⟨ret, some out.image, none⟩
    | .ok out =>
      ⟨0, some out.image, some ⟨out.filledSize + out.emptySize, endToStart first rest⟩⟩

theorem length_filename (number : BitVec 64) : (filename number).length < 32 := by
  have low := BitVec.two_mul_toInt_lt (x := number)
  have high := BitVec.le_two_mul_toInt (x := number)
  have power : (10 : Nat) ^ 19 = 10000000000000000000 := by decide
  have digits : (intText number.toInt).length ≤ 19 + 1 := by
    apply length_intText_le (by decide)
    rw [power]
    omega
  have around : ∀ text : CString,
      ("system_".toList ++ text ++ ".img".toList).length = 7 + text.length + 4 := by
    intro text
    rw [List.length_append, List.length_append]
    rfl
  have parts : (filename number).length = 7 + (intText number.toInt).length + 4 := around _
  generalize (intText number.toInt).length = n at digits parts
  omega

end Ct.Copy
