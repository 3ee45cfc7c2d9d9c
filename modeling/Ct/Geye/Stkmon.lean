import Ct.Lib.CString

set_option autoImplicit false

namespace Ct.Geye

open Ct.Lib

def stkExSz : Nat := 8

def stkCodeSz : Nat := 16

def stkNameSz : Nat := 32

def stkDataSz : Nat := 16

def stkTimeSz : Nat := 16

/-- The conversions of a field's text: `atof`, `atol`, `atoi`, and what `convert_charset` leaves
in a `name` array that was all zero. `φ` holds the floats, `ι` the integers. -/
structure Conv (φ ι : Type) where
  atof : CString → φ
  atol : CString → ι
  atoi : CString → ι
  convertCharset : CString → CString

/-- `struct stk_stkdat`; the arrays `bv`, `bp`, `av`, `ap` have five elements. -/
structure StkDat (φ ι : Type) where
  exchange : CString
  code : CString
  name : CString
  open_ : φ
  preClose : φ
  price : φ
  high : φ
  low : φ
  bid : φ
  ask : φ
  volume : ι
  amount : ι
  bv : List ι
  bp : List φ
  av : List ι
  ap : List φ
  date : CString
  time : CString

/-- `struct stk_idxdat`. -/
structure IdxDat (φ ι : Type) where
  code : CString
  name : CString
  index : φ
  diff : φ
  roc : φ
  volume : ι
  amount : ι

variable {φ ι : Type} [Zero φ] [Zero ι]

/-- The record after `memset(sjs, 0, sizeof(*sjs))`. -/
def StkDat.zero : StkDat φ ι where
  exchange := []
  code := []
  name := []
  open_ := 0
  preClose := 0
  price := 0
  high := 0
  low := 0
  bid := 0
  ask := 0
  volume := 0
  amount := 0
  bv := List.replicate 5 0
  bp := List.replicate 5 0
  av := List.replicate 5 0
  ap := List.replicate 5 0
  date := []
  time := []

def IdxDat.zero : IdxDat φ ι where
  code := []
  name := []
  index := 0
  diff := 0
  roc := 0
  volume := 0
  amount := 0

end Ct.Geye
