import Ct.Ccutils.Net
import Ct.Geye.Ge
import Ct.Geye.Sinajs

set_option autoImplicit false

namespace Ct.Geye

open Ct.Lib
open Ct.Ccutils.Net

variable {φ ι : Type} [Zero φ] [Zero ι]

/-- `buffer[rc] = 0`, and the string that then starts at `buffer`. -/
def terminate (buffer : List Char) (rc : Int) : Except Fault CString :=
  if rc.toNat < buffer.length then
    .ok ((buffer.set rc.toNat '\x00').takeWhile (· != '\x00'))
  else .error .outOfBounds

/-- `strcmp(gi->data.code, index->common.data.code) == 0` -/
def indexTest (indices : List (GeIndex φ ι)) (code : CString) (i : Nat) : Except Fault Bool :=
  match indices[i]? with
  | none => .error .outOfBounds
  | some gi => .ok (gi.data.code == code)

def sinajsIndexAttachV2 (fuel : Nat) (ge : GoldenEye2 φ ι) (index : IdxDat φ ι) :
    Except Fault (Int × GoldenEye2 φ ι) :=
  match traverse (indexNext ge.indices) (searchBody (indexTest ge.indices index.code)) fuel
      ge.indexList.first () with
  | .error fault => .error fault
  | .ok (.node i, _) =>
    match ge.indices[i]? with
    | none => .error .outOfBounds
    | some gi => .ok (0, { ge with indices := ge.indices.set i { gi with data := index } })
  | .ok (_, _) => .ok (-enodata, ge)

/-- The loop of `sinajs_pull_index_data_v2` over the lines of the response. -/
def indexLines (conv : Conv φ ι) (fuel : Nat) :
    Nat → CString → GoldenEye2 φ ι → Except Fault (Int × GoldenEye2 φ ι)
  | 0, _, _ => .error .outOfFuel
  | turns + 1, text, ge =>
    match nextToken '\n' text with
    | (none, _) => .ok (0, ge)
    | (some token, sptr1) =>
      match sinajsIndexDecode conv (some token) IdxDat.zero with
      | .error fault => .error fault
      | .ok (rc, index) =>
        if rc < 0 then .ok (-einval, ge)
        else
          match sinajsIndexAttachV2 fuel ge index with
          | .error fault => .error fault
          | .ok (rc, ge) => if rc < 0 then .ok (rc, ge) else indexLines conv fuel turns sptr1 ge

def indexUrl : CString := "hq.sinajs.cn/list=s_sh000001".toList

/-- `sinajs_pull_index_data_v2`; `sinajs_build_index_url` does nothing and returns 0, and `buffer`
holds what was on the stack. -/
def sinajsPullIndexDataV2 (conv : Conv φ ι) (curl : Transfer) (buffer : List Char) (fuel : Nat)
    (ge : GoldenEye2 φ ι) : Except Fault (Int × GoldenEye2 φ ι) :=
  match httpGet (some indexUrl) curl buffer with
  | .error fault => .error fault
  | .ok (rc, buffer) =>
    if rc < 0 then .ok (-einval, ge)
    else
      match terminate buffer rc with
      | .error fault => .error fault
      | .ok text => indexLines conv fuel fuel text ge

def slistSize : Nat := 1024

def strcat (size : Nat) (dst src : CString) : Except Fault CString :=
  if (dst ++ src).length < size then .ok (dst ++ src) else .error .outOfBounds

/-- One stock of the loop that builds the URL. -/
def slistBody (stocks : List (GeStock φ ι)) (i : Nat) (slist : CString) :
    Except Fault (Bool × CString) :=
  match stocks[i]? with
  | none => .error .outOfBounds
  | some stock =>
    if stock.cfg.enable ≠ 0 then do
      let slist ← strcat slistSize slist stock.exchange
      let slist ← strcat slistSize slist stock.code
      let slist ← strcat slistSize slist [',']
      pure (false, slist)
    else .ok (false, slist)

def localSize : Nat := 20

/-- `sprintf(local, "%s%s", stock->exchange, stock->code)` and the comparison with the code of the
line. -/
def stockTest (stocks : List (GeStock φ ι)) (code : CString) (i : Nat) : Except Fault Bool :=
  match stocks[i]? with
  | none => .error .outOfBounds
  | some stock =>
    if (stock.exchange ++ stock.code).length < localSize then
      .ok (stock.exchange ++ stock.code == code)
    else .error .outOfBounds

/-- `memcpy(&stock->data, &sdata, sizeof(stock->data))` where the search has ended on the list
head. With 8-byte pointers `exchange` lands on `cqh_first`, `code` on `cqh_last` and
`index_count`, and `name` on `index_list`; the other 176 bytes land behind `ge`. -/
def storeAtHead (ge : GoldenEye2 φ ι) (sdata : StkDat φ ι) : GoldenEye2 φ ι :=
  let code := arrayBytes stkCodeSz sdata.code
  let name := arrayBytes stkNameSz sdata.name
  { ge with
    stockList := ⟨linkOfBytes (arrayBytes stkExSz sdata.exchange), linkOfBytes (code.take 8)⟩
    indexCount := intOfBytes ((code.drop 8).take 4)
    indexList := ⟨linkOfBytes (name.take 8), linkOfBytes ((name.drop 8).take 8)⟩ }

/-- The part of the loop of `sinajs_pull_stock_data` behind the decoding: find the stock and
attach the data. The test `!stock` only catches a null pointer. -/
def stockAttach (fuel : Nat) (ge : GoldenEye2 φ ι) (sdata : StkDat φ ι) :
    Except Fault (GoldenEye2 φ ι) :=
  match traverse (stockNext ge.stocks) (searchBody (stockTest ge.stocks sdata.code)) fuel
      ge.stockList.first () with
  | .error fault => .error fault
  | .ok (.null, _) => .ok ge
  | .ok (.head, _) => .ok (storeAtHead ge sdata)
  | .ok (.wild, _) => .error .outOfBounds
  | .ok (.node i, _) =>
    match ge.stocks[i]? with
    | none => .error .outOfBounds
    | some stock => .ok { ge with stocks := ge.stocks.set i { stock with data := sdata } }

/-- The loop of `sinajs_pull_stock_data` over the lines of the response. -/
def stockLines (conv : Conv φ ι) (fuel : Nat) :
    Nat → CString → GoldenEye2 φ ι → Except Fault (Int × GoldenEye2 φ ι)
  | 0, _, _ => .error .outOfFuel
  | turns + 1, text, ge =>
    match nextToken '\n' text with
    | (none, _) => .ok (0, ge)
    | (some token, sptr1) =>
      match sinajsStockDecode conv (some token) StkDat.zero with
      | .error fault => .error fault
      | .ok (rc, sdata) =>
        if rc < 0 then .ok (-einval, ge)
        else
          match stockAttach fuel ge sdata with
          | .error fault => .error fault
          | .ok ge => stockLines conv fuel turns sptr1 ge

def slistUrl : CString := "hq.sinajs.cn/list=".toList

def sinajsPullStockData (conv : Conv φ ι) (curl : Transfer) (buffer : List Char) (fuel : Nat)
    (ge : GoldenEye2 φ ι) : Except Fault (Int × GoldenEye2 φ ι) :=
  match traverse (stockNext ge.stocks) (slistBody ge.stocks) fuel ge.stockList.first slistUrl with
  | .error fault => .error fault
  | .ok (_, slist) =>
    match httpGet (some slist) curl buffer with
    | .error fault => .error fault
    | .ok (rc, buffer) =>
      if rc < 0 then .ok (-1, ge)
      else
        match terminate buffer rc with
        | .error fault => .error fault
        | .ok text => stockLines conv fuel fuel text ge

end Ct.Geye
