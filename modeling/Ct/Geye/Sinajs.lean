import Ct.Geye.Stkmon
import Ct.Lib.Tokens

set_option autoImplicit false

namespace Ct.Geye

open Ct.Lib

/-- `struct sinajs`: `common` is what the monitor shows, the rest what was decoded. -/
structure Sinajs (φ ι : Type) where
  common : StkDat φ ι
  code : CString
  open_ : φ
  preClose : φ
  price : φ
  high : φ
  low : φ
  bid : φ
  ask : φ
  volume : ι
  amount : ι
  bv : List ι
  bp : List φ
  av : List ι
  ap : List φ
  date : CString
  time : CString

variable {φ ι : Type} [Zero φ] [Zero ι]

def Sinajs.zero : Sinajs φ ι where
  common := StkDat.zero
  code := []
  open_ := 0
  preClose := 0
  price := 0
  high := 0
  low := 0
  bid := 0
  ask := 0
  volume := 0
  amount := 0
  bv := List.replicate 5 0
  bp := List.replicate 5 0
  av := List.replicate 5 0
  ap := List.replicate 5 0
  date := []
  time := []

/-- `isspace` in the C locale. -/
def isSpace (c : Char) : Bool :=
  c = ' ' || c = '\t' || c = '\n' || c = '\x0b' || c = '\x0c' || c = '\r'

/-- The plain characters of a `scanf` format, each of which must be the next one of the input. -/
def scanLiteral : CString → CString → Option CString
  | [], input => some input
  | _ :: _, [] => none
  | c :: format, d :: input => if c = d then scanLiteral format input else none

/-- `sscanf(token, "var hq_str_%s", code)`, with the word it stores where it returns 1: the blank
of the format and `%s` both pass over any white space. -/
def scanCode (token : CString) : Option CString :=
  match scanLiteral ['v', 'a', 'r'] token with
  | none => none
  | some rest =>
    match scanLiteral ['h', 'q', '_', 's', 't', 'r', '_'] (rest.dropWhile isSpace) with
    | none => none
    | some rest =>
      match (rest.dropWhile isSpace).takeWhile (fun c => !isSpace c) with
      | [] => none
      | word => some word

/-- "decode variable": the code and `sptr1`, or `none` where the decoders report that they found
no code. -/
def decodeVariable (buffer : CString) : Except Fault (Option (CString × CString)) :=
  match nextToken '"' buffer with
  | (none, _) => .error .nullDeref
  | (some token, sptr1) =>
    match scanCode (token.takeWhile (· != '=')) with
    | none => .ok none
    | some code => if code.length < stkCodeSz then .ok (some (code, sptr1)) else .error .outOfBounds

/-- "decode value" up to the first property, the name, and `sptr2`. -/
def decodeName (sptr1 : CString) : Except Fault (CString × CString) :=
  match strtokR '"' none (some sptr1) with
  | .error fault => .error fault
  | .ok (token, _) =>
    match strtokR ',' token none with
    | .error fault => .error fault
    | .ok (none, _) => .error .nullDeref
    | .ok (some token, sptr2) => .ok (token, sptr2)

/-- `token = strtok_r(NULL, ",", &sptr2)` for a token that is used without a check. -/
abbrev nextField : StateT CString (Except Fault) CString := takeToken ','

def strcpy (size : Nat) (token : CString) : StateT CString (Except Fault) CString :=
  if token.length < size then pure token else throw .outOfBounds

/-- `for(i = 0; i < 5; i++)` over `bv[i]` and `bp[i]`, from `i` on. -/
def stockBids (conv : Conv φ ι) :
    Nat → Nat → StkDat φ ι → StateT CString (Except Fault) (StkDat φ ι)
  | 0, _, sj => pure sj
  | left + 1, i, sj => do
    let token ← nextField
    let sj := { sj with bv := sj.bv.set i (conv.atoi token) }
    let token ← nextField
    let sj := { sj with bp := sj.bp.set i (conv.atof token) }
    stockBids conv left (i + 1) sj

def stockAsks (conv : Conv φ ι) :
    Nat → Nat → StkDat φ ι → StateT CString (Except Fault) (StkDat φ ι)
  | 0, _, sj => pure sj
  | left + 1, i, sj => do
    let token ← nextField
    let sj := { sj with av := sj.av.set i (conv.atoi token) }
    let token ← nextField
    let sj := { sj with ap := sj.ap.set i (conv.atof token) }
    stockAsks conv left (i + 1) sj

/-- The properties behind the name, as `sinajs_stock_decode` reads them. -/
def stockProps (conv : Conv φ ι) (sj : StkDat φ ι) :
    StateT CString (Except Fault) (StkDat φ ι) := do
  let token ← nextField
  let sj := { sj with open_ := conv.atof token }
  let token ← nextField
  let sj := { sj with preClose := conv.atof token }
  let token ← nextField
  let sj := { sj with price := conv.atof token }
  let token ← nextField
  let sj := { sj with high := conv.atof token }
  let token ← nextField
  let sj := { sj with low := conv.atof token }
  let token ← nextField
  let sj := { sj with bid := conv.atof token }
  let token ← nextField
  let sj := { sj with ask := conv.atof token }
  let token ← nextField
  let sj := { sj with volume := conv.atol token }
  let token ← nextField
  let sj := { sj with amount := conv.atol token }
  let sj ← stockBids conv 5 0 sj
  let sj ← stockAsks conv 5 0 sj
  let token ← nextField
  let date ← strcpy stkDataSz token
  let sj := { sj with date := date }
  let token ← nextField
  let time ← strcpy stkTimeSz token
  pure { sj with time := time }

def sinajsStockDecode (conv : Conv φ ι) (buffer : Option CString) (sjs : StkDat φ ι) :
    Except Fault (Int × StkDat φ ι) :=
  match buffer with
  | none => .ok (-1, sjs)
  | some buffer =>
    match decodeVariable buffer with
    | .error fault => .error fault
    | .ok none => .ok (-1, StkDat.zero)
    | .ok (some (code, sptr1)) =>
      match decodeName sptr1 with
      | .error fault => .error fault
      | .ok (token, sptr2) =>
        let sj : StkDat φ ι :=
          { StkDat.zero with code := code, name := conv.convertCharset token }
        match stockProps conv sj sptr2 with
        | .error fault => .error fault
        | .ok (sj, _) => .ok (0, sj)

def sinajsBids (conv : Conv φ ι) :
    Nat → Nat → Sinajs φ ι → StateT CString (Except Fault) (Sinajs φ ι)
  | 0, _, sj => pure sj
  | left + 1, i, sj => do
    let token ← nextField
    let sj := { sj with bv := sj.bv.set i (conv.atoi token) }
    let token ← nextField
    let sj := { sj with bp := sj.bp.set i (conv.atof token) }
    sinajsBids conv left (i + 1) sj

def sinajsAsks (conv : Conv φ ι) :
    Nat → Nat → Sinajs φ ι → StateT CString (Except Fault) (Sinajs φ ι)
  | 0, _, sj => pure sj
  | left + 1, i, sj => do
    let token ← nextField
    let sj := { sj with av := sj.av.set i (conv.atoi token) }
    let token ← nextField
    let sj := { sj with ap := sj.ap.set i (conv.atof token) }
    sinajsAsks conv left (i + 1) sj

/-- The properties behind the name, as `sinajs_decode` reads them. -/
def sinajsProps (conv : Conv φ ι) (sj : Sinajs φ ι) :
    StateT CString (Except Fault) (Sinajs φ ι) := do
  let token ← nextField
  let sj := { sj with open_ := conv.atof token }
  let token ← nextField
  let sj := { sj with preClose := conv.atof token }
  let token ← nextField
  let sj := { sj with price := conv.atof token }
  let token ← nextField
  let sj := { sj with high := conv.atof token }
  let token ← nextField
  let sj := { sj with low := conv.atof token }
  let token ← nextField
  let sj := { sj with bid := conv.atof token }
  let token ← nextField
  let sj := { sj with ask := conv.atof token }
  let token ← nextField
  let sj := { sj with volume := conv.atol token }
  let token ← nextField
  let sj := { sj with amount := conv.atol token }
  let sj ← sinajsBids conv 5 0 sj
  let sj ← sinajsAsks conv 5 0 sj
  let token ← nextField
  let date ← strcpy stkDataSz token
  let sj := { sj with date := date }
  let token ← nextField
  let time ← strcpy stkTimeSz token
  pure { sj with time := time }

/-- The name goes to `common`, everything else to the record itself. -/
def sinajsDecode (conv : Conv φ ι) (buffer : Option CString) (sj : Sinajs φ ι) :
    Except Fault (Int × Sinajs φ ι) :=
  match buffer with
  | none => .ok (-1, sj)
  | some buffer =>
    match decodeVariable buffer with
    | .error fault => .error fault
    | .ok none => .ok (-1, Sinajs.zero)
    | .ok (some (code, sptr1)) =>
      match decodeName sptr1 with
      | .error fault => .error fault
      | .ok (token, sptr2) =>
        let sj : Sinajs φ ι :=
          { Sinajs.zero with
            common := { StkDat.zero with name := conv.convertCharset token }
            code := code }
        match sinajsProps conv sj sptr2 with
        | .error fault => .error fault
        | .ok (sj, _) => .ok (0, sj)

/-- `cstr_token`: a missing token leaves the variable as it was. -/
def cstrToken {β : Type} (func : CString → β) (var : β) : StateT CString (Except Fault) β :=
  fun sptr2 =>
    match strtokR ',' none (some sptr2) with
    | .error fault => .error fault
    | .ok (none, sptr2) => .ok (var, sptr2)
    | .ok (some token, sptr2) => .ok (func token, sptr2)

def indexProps (conv : Conv φ ι) (idxd : IdxDat φ ι) :
    StateT CString (Except Fault) (IdxDat φ ι) := do
  let index ← cstrToken conv.atof idxd.index
  let idxd := { idxd with index := index }
  let diff ← cstrToken conv.atof idxd.diff
  let idxd := { idxd with diff := diff }
  let roc ← cstrToken conv.atof idxd.roc
  let idxd := { idxd with roc := roc }
  let volume ← cstrToken conv.atol idxd.volume
  let idxd := { idxd with volume := volume }
  let amount ← cstrToken conv.atol idxd.amount
  pure { idxd with amount := amount }

/-- `EINVAL` and `ENODATA`, of which the negatives are returned. -/
def einval : Int := 22

def enodata : Int := 61

def sinajsIndexDecode (conv : Conv φ ι) (pbuf : Option CString) (index : IdxDat φ ι) :
    Except Fault (Int × IdxDat φ ι) :=
  match pbuf with
  | none => .ok (-einval, index)
  | some buffer =>
    match decodeVariable buffer with
    | .error fault => .error fault
    | .ok none => .ok (-1, IdxDat.zero)
    | .ok (some (code, sptr1)) =>
      match decodeName sptr1 with
      | .error fault => .error fault
      | .ok (token, sptr2) =>
        let idxd : IdxDat φ ι :=
          { IdxDat.zero with code := code, name := conv.convertCharset token }
        match indexProps conv idxd sptr2 with
        | .error fault => .error fault
        | .ok (idxd, _) => .ok (0, idxd)

/-- `sinajs_apply_data` on the `pull_data` pointers of the listed stocks. -/
def sinajsApplyData (stocks : List (Option (Sinajs φ ι))) : List (Option (Sinajs φ ι)) :=
  stocks.map fun pullData => pullData.map fun js =>
    { js with common := { js.common with price := js.price, preClose := js.preClose } }

end Ct.Geye
