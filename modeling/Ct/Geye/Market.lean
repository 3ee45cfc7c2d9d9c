import Ct.Geye.SinajsPull

set_option autoImplicit false

namespace Ct.Geye

open Ct.Lib
open Ct.Ccutils.Net

variable {φ ι : Type} [Zero φ] [Zero ι]

/-- What one refresh meets: the transfers of its two `http_get` calls, and the old contents of
the two buffers. -/
structure Net where
  indexCurl : Transfer
  indexBuffer : List Char
  stockCurl : Transfer
  stockBuffer : List Char

/-- `ge->pull_index_data(ge)`, where it is set. -/
def indexHalf (conv : Conv φ ι) (net : Net) (fuel : Nat) (ge : GoldenEye2 φ ι) :
    Except Fault (Int × GoldenEye2 φ ι) :=
  if ge.pullIndexData then sinajsPullIndexDataV2 conv net.indexCurl net.indexBuffer fuel ge
  else .ok (0, ge)

/-- `ge->pull_stock_data(ge)`, where it is set. -/
def stockHalf (conv : Conv φ ι) (net : Net) (fuel : Nat) (ge : GoldenEye2 φ ι) :
    Except Fault (Int × GoldenEye2 φ ι) :=
  if ge.pullStockData then sinajsPullStockData conv net.stockCurl net.stockBuffer fuel ge
  else .ok (0, ge)

/-- `event_netdata_update`: what the pull functions return is dropped. -/
def eventNetdataUpdate (conv : Conv φ ι) (net : Net) (fuel : Nat) (ge : GoldenEye2 φ ι) :
    Except Fault (Int × GoldenEye2 φ ι) :=
  match indexHalf conv net fuel ge with
  | .error fault => .error fault
  | .ok (_, ge) =>
    match stockHalf conv net fuel ge with
    | .error fault => .error fault
    | .ok (_, ge) => .ok (0, ge)

/-- The functions that use the refreshed data. What they compute is left out, only that they run
is kept. -/
inductive Use
  | calcRealtimeInfoV2
  | calcPrintInfo
  | marketDisplayUpdate
  deriving DecidableEq, Repr

def marketNetdataUpdate (conv : Conv φ ι) (net : Net) (fuel : Nat) (ge : GoldenEye2 φ ι) :
    Except Fault (Int × GoldenEye2 φ ι × List Use) :=
  match eventNetdataUpdate conv net fuel ge with
  | .error fault => .error fault
  | .ok (rc, ge) =>
    if rc < 0 then .ok (-einval, ge, [])
    else .ok (0, ge, [.calcRealtimeInfoV2, .calcPrintInfo])

/-- `market_net_request`; `running` is `g_market_timer_running`, and the result says whether the
timer goes on. -/
def marketNetRequest (conv : Conv φ ι) (net : Net) (fuel : Nat) (running : Bool)
    (ge : GoldenEye2 φ ι) : Except Fault (Bool × GoldenEye2 φ ι × List Use) :=
  match marketNetdataUpdate conv net fuel ge with
  | .error fault => .error fault
  | .ok (rc, ge, uses) =>
    if rc < 0 then .ok (true, ge, uses)
    else if !running then .ok (false, ge, uses)
    else .ok (true, ge, uses ++ [.marketDisplayUpdate])

end Ct.Geye
