import Ct.Stocks.DbIf

set_option autoImplicit false

namespace Ct.Stocks

open Ct.Lib Ct.Sqlite

/-- `strcpy` into such an array. -/
def strcpyTo (size : Nat) (src : CString) : Except Fault (CharArray size) :=
  if fits : src.length < size then .ok ⟨src, fits⟩ else .error .outOfBounds

@[simp] theorem strcpyTo_fits {size : Nat} (s : CharArray size) : strcpyTo size s.1 = .ok s :=
  dif_pos s.2

section

-- `atoi`, and what `sscanf` with `%f` makes of a variable
variable (atoi : CString → Int) (scanFloat : CString → CFloat → CFloat)

/-- One turn of the loop of `ui_construct_data`. A null is read by every branch that takes it. -/
def constructField (data : HistData) (cn : CString) (cv : Option CString) :
    Except Fault HistData :=
  if ∀ name ∈ "id".toList :: historyColumns.map Column.name, cn ≠ name then .ok data
  else
    match cv with
    | none => .error .nullDeref
    | some cv =>
      if cn = "id".toList then .ok { data with id := atoi cv }
      else if cn = "code".toList then
        (strcpyTo 8 cv).map fun code => { data with code := code }
      else if cn = "name".toList then
        (strcpyTo 16 cv).map fun name => { data with name := name }
      else if cn = "date".toList then
        (strcpyTo 16 cv).map fun date => { data with date := date }
      else if cn = "action".toList then
        (strcpyTo 16 cv).map fun action => { data with action := action }
      else if cn = "price".toList then .ok { data with price := scanFloat cv data.price }
      else if cn = "volume".toList then .ok { data with volume := atoi cv }
      else if cn = "counter_fee".toList then
        .ok { data with counterFee := scanFloat cv data.counterFee }
      else if cn = "stamp_tax".toList then
        .ok { data with stampTax := scanFloat cv data.stampTax }
      else .ok { data with transferFee := scanFloat cv data.transferFee }

/-- `ui_construct_data` -/
def uiConstructData (data : HistData) (cells : List (CString × Option CString)) :
    Except Fault HistData :=
  cells.foldlM (fun data cell => constructField atoi scanFloat data cell.1 cell.2) data

end

end Ct.Stocks
