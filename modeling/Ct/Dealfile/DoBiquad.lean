import Ct.Lib.CInt
import Ct.Lib.Fault
import Ct.Lib.Scan

set_option autoImplicit false

namespace Ct.Dealfile

open Ct.Lib

/-- The cells of a buffer; `none` has not been written. -/
abbrev Buffer := List (Option Char)

def storeChar (buffer : Buffer) (i : Int) (c : Char) : Except Fault Buffer :=
  if 0 ≤ i ∧ i < buffer.length then .ok (buffer.set i.toNat (some c)) else .error .outOfBounds

def loadChar (buffer : Buffer) (i : Int) : Except Fault Char :=
  if 0 ≤ i then
    match buffer[i.toNat]? with
    | none => .error .outOfBounds
    | some none => .error .uninitialised
    | some (some c) => .ok c
  else .error .outOfBounds

/-- The string that a buffer holds. -/
def cstring : Buffer → Except Fault CString
  | [] => .error .outOfBounds
  | none :: _ => .error .uninitialised
  | some c :: rest => if c = '\x00' then .ok [] else (cstring rest).map (c :: ·)

/-- The loop of `readline` from `i` on; the list holds what is left of `tmp`. -/
def copyLine : List Char → Nat → Buffer → Except Fault (Nat × Buffer)
  | [], i, buffer => .ok (i, buffer)
  | c :: tmp, i, buffer => do
    let buffer ← storeChar buffer i c
    if c = '\n' then
      let buffer ← storeChar buffer i '\x00'
      .ok (i, buffer)
    else copyLine tmp (i + 1) buffer

/-- `readline` on an open file, with the buffer and the position as it leaves them. -/
def readline (content : List Char) (buffer : Buffer) (position : Int) :
    Except Fault (Int × Buffer × Int) :=
  -- the comparison with `fo_size` is an unsigned one
  if content.length ≤ toSize position then .ok (-1, buffer, position)
  else do
    let tmp := (content.drop position.toNat).take 1024
    let (i, buffer) ← copyLine tmp 0 buffer
    let last ← loadChar buffer ((i : Int) - 1)
    let split : Int := if last = '\r' then 2 else 1
    let split := if i = tmp.length then 0 else split
    let (i, buffer) ←
      if i = tmp.length ∨ last = '\r' then do
        let buffer ← storeChar buffer ((i : Int) - 1) '\x00'
        pure ((i : Int) - 1, buffer)
      else pure ((i : Int), buffer)
    let next := position + (i + split)
    -- the sum has to be in the range of `int`
    if next < 2 ^ 31 then .ok (i, buffer, next) else .error .conversion

/-- The calls of `readline` up to the one that returns -1, with what each of the others returns and
leaves in the buffer. -/
def readLines (content : List Char) : Nat → Buffer → Int → Except Fault (List (Int × Buffer))
  | 0, _, _ => .error .outOfFuel
  | fuel + 1, buffer, position => do
    let (ret, buffer, position) ← readline content buffer position
    if ret = -1 then .ok []
    else
      let later ← readLines content fuel buffer position
      .ok ((ret, buffer) :: later)

/-- The loop of `load_eqdata`, over what it does with the buffer. -/
def loadLoop {σ : Type} (body : Buffer → σ → Except Fault σ) (content : List Char) :
    Nat → Buffer → Int → σ → Except Fault σ
  | 0, _, _, _ => .error .outOfFuel
  | fuel + 1, buffer, position, state => do
    let (ret, buffer, position) ← readline content buffer position
    let state ← body buffer state
    if 0 < ret then loadLoop body content fuel buffer position state else .ok state

/-- `char buffer[2048]` -/
def bufferSize : Nat := 2048

def uninitialised : Buffer := List.replicate bufferSize none

def freqDesc : List CString :=
  ["80hz".toList, "100hz".toList, "200hz".toList, "300hz".toList, "500hz".toList, "1000hz".toList,
    "2000hz".toList, "3000hz".toList, "5000hz".toList, "10000hz".toList, "15000hz".toList]

/-- `FEND` -/
def fEnd : Nat := 11

def hzDataCount : List Int := [6, 6, 6, 6, 6, 1, 6, 1, 6, 1, 6]

/-- `enum string_type` -/
inductive StringType
  | hz
  | db
  | data
  | none
  deriving DecidableEq, Repr

def stringCheck (s : CString) : Except Fault StringType :=
  if "address".toList.isPrefixOf s then .ok .data
  -- `s + len - 2` is in front of the buffer
  else if s.length < 2 then .error .outOfBounds
  else if s.drop (s.length - 2) = "hz".toList then .ok .hz
  else if s.drop (s.length - 2) = "db".toList then .ok .db
  else .ok .none

def freqToIndex (freq : CString) : Int :=
  match freqDesc.findIdx? (· == freq) with
  | some i => i
  | none => -1

/-- `db_to_index`; the value is unspecified where `sscanf` stores no number, and where the number or
the sum is out of the range of `int`. -/
def dbToIndex (sDb : CString) : Option Int :=
  match scan [.decimal, .plain 'd', .plain 'b'] sDb with
  | [] => none
  | db :: _ => if -(2 ^ 31) ≤ db ∧ db + 10 < 2 ^ 31 then some (db + 10) else none

/-- The places of `eq_data`. -/
inductive Place
  | count (h : Int)
  | addr (h d k : Int)
  | val (h d k : Int)
  deriving DecidableEq, Repr

/-- The place is in its arrays. -/
def Place.Inside : Place → Prop
  | .count h => 0 ≤ h ∧ h < fEnd
  | .addr h d k | .val h d k => (0 ≤ h ∧ h < fEnd) ∧ (0 ≤ d ∧ d < 21) ∧ 0 ≤ k ∧ k < 7

instance : DecidablePred Place.Inside
  | .count _ => inferInstanceAs (Decidable (_ ∧ _))
  | .addr .. => inferInstanceAs (Decidable (_ ∧ _))
  | .val .. => inferInstanceAs (Decidable (_ ∧ _))

/-- The stores to `eq_data`; `none` is an unspecified value. -/
abbrev Stores := List (Place × Option Int)

def storeAt (stores : Stores) (place : Place) (value : Option Int) : Except Fault Stores :=
  if place.Inside then .ok (stores ++ [(place, value)]) else .error .outOfBounds

/-- The variables of `load_eqdata`; `di` is `none` before it is set. -/
structure Load where
  currentHz : Int
  currentDb : Option Int
  di : Option Int
  address : Option Int
  value : Option Int
  stores : Stores
  deriving DecidableEq, Repr

/-- What `%x` stores in an `int`, unspecified where the number has more than 32 bits. -/
def hexWord (n : Int) : Option Int := if n.natAbs < 2 ^ 32 then some (toInt n) else none

/-- `"address 0x%x data 0x%x"` -/
def dataFormat : List Directive :=
  "address".toList.map .plain ++ [.blank, .plain '0', .plain 'x', .hex, .blank] ++
    "data".toList.map .plain ++ [.blank, .plain '0', .plain 'x', .hex]

/-- The `switch` of `load_eqdata`. -/
def loadString (s : CString) (load : Load) : Except Fault Load := do
  match ← stringCheck s with
  | .hz =>
    let currentHz := freqToIndex s
    let stores ← storeAt load.stores (.count currentHz) hzDataCount[currentHz.toNat]?
    .ok { load with currentHz := currentHz, stores := stores }
  | .db => .ok { load with currentDb := dbToIndex s, di := some 0 }
  | .data =>
    let scanned := scan dataFormat s
    let address := match scanned with
      | address :: _ => hexWord address
      | [] => load.address
    let value := match scanned with
      | _ :: value :: _ => hexWord value
      | _ => load.value
    match load.currentDb, load.di with
    | some d, some k =>
      let stores ← storeAt load.stores (.addr load.currentHz d k) address
      let stores ← storeAt stores (.val load.currentHz d k) value
      .ok { load with di := some (k + 1), address := address, value := value, stores := stores }
    | _, _ => .error .uninitialised
  | .none => .ok load

def loadTurn (buffer : Buffer) (load : Load) : Except Fault Load := do
  let s ← cstring buffer
  loadString s load

def loadStart : Load where
  currentHz := 0
  currentDb := some 0
  di := none
  address := none
  value := none
  stores := []

/-- `load_eqdata`, with what it returns and the stores that it makes; `none` is a file that cannot
be opened. -/
def loadEqdata (fuel : Nat) : Option (List Char) → Except Fault (Int × Stores)
  | none => .ok (-1, [])
  | some content => do
    let load ← loadLoop loadTurn content fuel uninitialised 0 loadStart
    .ok (0, load.stores)

end Ct.Dealfile
