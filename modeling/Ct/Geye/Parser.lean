import Ct.Ccutils.Xml
import Ct.Geye.Ge
import Ct.Geye.Sinajs
import Ct.Lib.CircleqTail

set_option autoImplicit false

namespace Ct.Geye

open Ct.Lib
open Ct.Ccutils.Xml

/-- `object->nodesetval->nodeTab[i]` -/
def nodeAt (nodeTab : List XmlElement) (i : Int) : Except Fault XmlElement :=
  if i < 0 then .error .outOfBounds
  else
    match nodeTab[i.toNat]? with
    | none => .error .outOfBounds
    | some node => .ok node

/-- The loop of `parser_load_xobjects` from `i` on, which has no first value: `for(i < 0; ...)`
only compares it. `f` also knows which element it is called for. -/
def parserLoadXobjects {σ : Type} (nodeTab : List XmlElement)
    (f : Nat → XmlElement → σ → Except Fault (Int × σ)) (i : Int) (param : σ) : Except Fault σ :=
  if i < nodeTab.length then
    match nodeAt nodeTab i with
    | .error fault => .error fault
    | .ok node =>
      match f i.toNat node param with
      | .error fault => .error fault
      | .ok (_, param) => parserLoadXobjects nodeTab f (i + 1) param
  else .ok param
termination_by (nodeTab.length - i).toNat

def enomem : Int := 12

def propbufSize : Nat := 32

def geAbcodeSz : Nat := 8

/-- `GE_CODE_SIZE`, and the size of `buffer` in `parser_load_index`. -/
def geCodeSize : Nat := 16

variable {φ ι : Type}

def stockField : EntryField (GeStock φ ι) where
  entry stock := stock.list
  withEntry stock list := { stock with list := list }
  entry_withEntry _ _ := rfl

def indexField : EntryField (GeIndex φ ι) where
  entry index := index.list
  withEntry index list := { index with list := list }
  entry_withEntry _ _ := rfl

variable [Zero ι]

/-- `parser_load_stock`; `block` is what `malloc` returns, with its old content. The results of
`cxml_get_prop_string` are its buffers, and never null. -/
def parserLoadStock (conv : Conv φ ι) (block : Option (GeStock φ ι)) (node : XmlElement)
    (ge : GoldenEye2 φ ι) : Except Fault (Int × GoldenEye2 φ ι) :=
  if node.name ≠ "stock".toList then .ok (-einval, ge)
  else
    match block with
    | none => .ok (-enomem, ge)
    | some stock => do
      let code ← cxmlGetPropString node "code".toList none stkCodeSz
      let exchange ← cxmlGetPropString node "exchange".toList none stkExSz
      let abcode ← cxmlGetPropString node "abcode".toList none geAbcodeSz
      let avgPrice ← cxmlGetPropString node "avg_price".toList (some ['0']) propbufSize
      let minPrice ← cxmlGetPropString node "min_price".toList (some ['0']) propbufSize
      let aimPrice ← cxmlGetPropString node "aim_price".toList (some ['0']) propbufSize
      let stopProfit ← cxmlGetPropString node "stop_profit".toList (some ['0']) propbufSize
      let stopLoss ← cxmlGetPropString node "stop_loss".toList (some ['0']) propbufSize
      let stock : GeStock φ ι :=
        { stock with
          code := code
          exchange := exchange
          abcode := abcode
          num := cxmlGetPropInteger conv.atoi node "num".toList 0
          cfg :=
            { enable := cxmlGetPropBool node "enable".toList 0
              visible := cxmlGetPropBool node "visible".toList 0
              minPrice := conv.atof minPrice
              aimPrice := conv.atof aimPrice
              avgPrice := conv.atof avgPrice
              stopProfit := conv.atof stopProfit
              stopLoss := conv.atof stopLoss } }
      let (stockList, stocks) ← circleqInsertTail stockField ge.stockList ge.stocks stock
      pure (0, { ge with
        stockList := stockList, stocks := stocks, stockCount := ge.stockCount + 1 })

/-- `strncat(dst, src, n)` -/
def strncat (dst src : CString) (n : Nat) : CString := dst ++ src.take n

def parserLoadIndex (conv : Conv φ ι) (block : Option (GeIndex φ ι)) (node : XmlElement)
    (ge : GoldenEye2 φ ι) : Except Fault (Int × GoldenEye2 φ ι) :=
  if node.name ≠ "index".toList then .ok (-einval, ge)
  else
    match block with
    | none => .ok (-enomem, ge)
    | some index => do
      let code ← cxmlGetPropString node "exchange".toList none stkCodeSz
      let buffer ← cxmlGetPropString node "code".toList none geCodeSize
      let index : GeIndex φ ι :=
        { index with
          data := { index.data with code := strncat code buffer (geCodeSize - code.length - 1) }
          enable := cxmlGetPropBool node "enable".toList 0
          visible := cxmlGetPropBool node "visible".toList 0
          base := cxmlGetPropInteger conv.atoi node "base".toList 0 }
      let (indexList, indices) ← circleqInsertTail indexField ge.indexList ge.indices index
      pure (0, { ge with
        indexList := indexList, indices := indices, indexCount := ge.indexCount + 1 })

/-- The loops of `parser_print_xml`; the counter `i` is all that they compute. -/
def parserPrintXml (fuel : Nat) (ge : GoldenEye2 φ ι) : Except Fault Unit :=
  match traverse (stockNext ge.stocks) (fun _ i => .ok (false, i + 1)) fuel ge.stockList.first 0 with
  | .error fault => .error fault
  | .ok _ =>
    match traverse (indexNext ge.indices) (fun _ i => .ok (false, i + 1)) fuel ge.indexList.first
        0 with
    | .error fault => .error fault
    | .ok _ => .ok ()

/-- What a run of `parser_load_xml` finds in memory that the source does not set: the automatic
`i` of either call of `parser_load_xobjects`, the blocks that `malloc` returns in it, and the value
in the place of the missing return value. -/
structure Garbage (φ ι : Type) where
  stockStart : Int
  indexStart : Int
  stockBlock : Nat → Option (GeStock φ ι)
  indexBlock : Nat → Option (GeIndex φ ι)
  rc : Int

/-- `if(object) parser_load_xobjects(object, f, ge);` -/
def loadObject {σ : Type} (object : Option (List XmlElement))
    (f : Nat → XmlElement → σ → Except Fault (Int × σ)) (i : Int) (param : σ) : Except Fault σ :=
  match object with
  | none => .ok param
  | some nodeTab => parserLoadXobjects nodeTab f i param

/-- `parser_load_xml`; `doc` is what `xmlParseFile` makes of `market_info.xml`. -/
def parserLoadXml (conv : Conv φ ι) (doc : Option XmlDoc) (garbage : Garbage φ ι) (fuel : Nat)
    (ge : GoldenEye2 φ ι) : Except Fault (Int × GoldenEye2 φ ι) :=
  match doc with
  | none => .ok (-einval, ge)
  | some doc => do
    let ge := { ge with stockCount := 0, stockList := circleqInit }
    let ge ← loadObject (getXpathObject doc "stock".toList)
      (fun i => parserLoadStock conv (garbage.stockBlock i)) garbage.stockStart ge
    let ge := { ge with indexCount := 0, indexList := circleqInit }
    let ge ← loadObject (getXpathObject doc "index".toList)
      (fun i => parserLoadIndex conv (garbage.indexBlock i)) garbage.indexStart ge
    parserPrintXml fuel ge
    -- the function ends without a return statement
    pure (garbage.rc, ge)

end Ct.Geye
