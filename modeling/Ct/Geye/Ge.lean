import Ct.Geye.Stkmon
import Ct.Lib.CInt
import Ct.Lib.Circleq

set_option autoImplicit false

namespace Ct.Geye

open Ct.Lib

structure GeStkcfg (φ : Type) where
  enable : Int
  visible : Int
  minPrice : φ
  aimPrice : φ
  avgPrice : φ
  stopProfit : φ
  stopLoss : φ

structure GeStock (φ ι : Type) where
  data : StkDat φ ι
  code : CString
  exchange : CString
  abcode : CString
  num : ι
  cfg : GeStkcfg φ
  list : CircleqEntry

structure GeIndex (φ ι : Type) where
  data : IdxDat φ ι
  enable : Int
  visible : Int
  base : ι
  list : CircleqEntry

/-- `struct golden_eye_2`, with the nodes that its two lists link: a link `node i` is the `i`th of
them. The pull functions are null or set. -/
structure GoldenEye2 (φ ι : Type) where
  pullStockData : Bool
  pullIndexData : Bool
  stockCount : Int
  stockList : CircleqHead
  indexCount : Int
  indexList : CircleqHead
  stocks : List (GeStock φ ι)
  indices : List (GeIndex φ ι)

variable {φ ι : Type}

/-- `stock->list.cqe_next` -/
def stockNext (stocks : List (GeStock φ ι)) (i : Nat) : Except Fault Link :=
  match stocks[i]? with
  | none => .error .outOfBounds
  | some stock => .ok stock.list.next

/-- `gi->list.cqe_next` -/
def indexNext (indices : List (GeIndex φ ι)) (i : Nat) : Except Fault Link :=
  match indices[i]? with
  | none => .error .outOfBounds
  | some index => .ok index.list.next

/-- The bytes of a character array that was all zero before this string was stored in it. -/
def arrayBytes (size : Nat) (s : CString) : List Char :=
  (s ++ List.replicate size '\x00').take size

/-- Eight such bytes read as a pointer. -/
def linkOfBytes (bytes : List Char) : Link :=
  if bytes.all (· == '\x00') then .null else .wild

/-- Four of them read as an `int`, the lowest first. -/
def intOfBytes (bytes : List Char) : Int :=
  toInt (bytes.foldr (fun c value => c.toNat + 256 * value) 0 : Nat)

end Ct.Geye
