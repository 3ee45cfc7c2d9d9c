import Ct.Lib.CString
import Ct.Lib.Memory
import Mathlib.Algebra.GroupWithZero.Nat

set_option autoImplicit false

namespace Ct.Ccutils.Net

open Ct.Lib

/-- What libcurl does in one `http_get`: whether `curl_easy_init` delivers a handle, the chunks
that `curl_easy_perform` hands to the write callback, whether it returns `CURLE_OK`, and the
`CURLINFO_SIZE_DOWNLOAD` that `curl_easy_getinfo` stores, or `none` where that fails. -/
structure Transfer where
  handle : Bool
  chunks : List (List Char)
  performed : Bool
  sizeDownload : Option Nat

/-- `cc_http_get_buffer`; `size * nmemb` is the length of the chunk. -/
def ccHttpGetBuffer (chunk stream : List Char) : Except Fault (Nat × List Char) :=
  match memcpy stream chunk with
  | .error fault => .error fault
  | .ok stream => .ok (chunk.length, stream)

/-- The calls of the write callback; libcurl passes the same `stream` every time. -/
def performWrites : List (List Char) → List Char → Except Fault (List Char)
  | [], stream => .ok stream
  | chunk :: rest, stream =>
    match ccHttpGetBuffer chunk stream with
    | .error fault => .error fault
    | .ok (_, stream) => performWrites rest stream

/-- `return dsize`: a whole double, returned as an `int`. -/
def returnSize (dsize : Nat) : Except Fault Int :=
  if dsize < 2 ^ 31 then .ok dsize else .error .conversion

def httpGet (url : Option CString) (curl : Transfer) (buffer : List Char) :
    Except Fault (Int × List Char) :=
  match url with
  | none => .ok (-1, buffer)
  | some _ =>
    if curl.handle then
      match performWrites curl.chunks buffer with
      | .error fault => .error fault
      | .ok buffer =>
        -- `res` of `curl_easy_perform` is overwritten by that of `curl_easy_getinfo`, and the
        -- latter is only printed
        let dsize := curl.sizeDownload.getD 0
        match returnSize dsize with
        | .error fault => .error fault
        | .ok rc => .ok (rc, buffer)
    else .ok (0, buffer)

end Ct.Ccutils.Net
