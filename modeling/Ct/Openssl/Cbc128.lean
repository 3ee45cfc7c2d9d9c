import Ct.Lib.Chaining
import Ct.Lib.Region
import Ct.Openssl.AesCore

set_option autoImplicit false

namespace Ct.Openssl

open Ct.Lib Region

/-- The memory that the pointers point into. -/
abbrev Mem := Region Byte

/-- How the file is compiled; `size` is `sizeof(size_t)`. -/
structure Build where
  smallFootprint : Bool
  strictAlignment : Bool
  size : Nat
  divides : size ∣ 16

/-- How many bytes the loops take at once. -/
def Build.unit (build : Build) (inp out ivec : Nat) : Nat :=
  if build.strictAlignment ∧ (inp ||| out ||| ivec) % build.size ≠ 0 then 1 else build.size

def xorBytes (a b : List Byte) : List Byte := List.zipWith (· ^^^ ·) a b

/-- `out[n] = a[n] ^ b[n]` from `n` on, for `left` units. -/
def xorLoop (unit out a b : Nat) : Nat → Nat → Mem → Mem
  | 0, _, mem => mem
  | left + 1, n, mem =>
    xorLoop unit out a b left (n + unit)
      (store mem (out + n) (xorBytes (load mem (a + n) unit) (load mem (b + n) unit)))

/-- `out[n] = src[n]` from `n` on, for `left` bytes. -/
def copyLoop (out src : Nat) : Nat → Nat → Mem → Mem
  | 0, _, mem => mem
  | left + 1, n, mem => copyLoop out src left (n + 1) (store mem (out + n) [mem (src + n)])

/-- The variables of the loops. -/
structure Cursor where
  mem : Mem
  iv : Nat
  inp : Nat
  out : Nat
  len : Nat

section Encrypt

variable (block : List Byte → List Byte)

/-- `while (len>=16)` -/
def encryptWords (unit : Nat) (c : Cursor) : Cursor :=
  if 16 ≤ c.len then
    let mem := xorLoop unit c.out c.inp c.iv (16 / unit) 0 c.mem
    let mem := store mem c.out (block (load mem c.out 16))
    encryptWords unit
      { mem := mem, iv := c.out, inp := c.inp + 16, out := c.out + 16, len := c.len - 16 }
  else c
termination_by c.len

/-- `while (len)` -/
def encryptBytes (c : Cursor) : Cursor :=
  if c.len = 0 then c
  else
    let n := min 16 c.len
    let mem := xorLoop 1 c.out c.inp c.iv n 0 c.mem
    let mem := copyLoop c.out c.iv (16 - n) n mem
    let mem := store mem c.out (block (load mem c.out 16))
    if c.len ≤ 16 then { c with mem := mem, iv := c.out }
    else
      encryptBytes
        { mem := mem, iv := c.out, inp := c.inp + 16, out := c.out + 16, len := c.len - 16 }
termination_by c.len

/-- `CRYPTO_cbc128_encrypt`, with the memory as it leaves it. -/
def cbc128Encrypt (build : Build) (inp out len ivec : Nat) (mem : Mem) : Mem :=
  let c : Cursor := { mem := mem, iv := ivec, inp := inp, out := out, len := len }
  let c := if build.smallFootprint then c else encryptWords block (build.unit inp out ivec) c
  let c := encryptBytes block c
  store c.mem ivec (load c.mem c.iv 16)

end Encrypt

section Decrypt

variable (block : List Byte → List Byte)

/-- `while (len>=16)`, for `in != out`. -/
def decryptApart (unit : Nat) (c : Cursor) : Cursor :=
  if 16 ≤ c.len then
    let mem := store c.mem c.out (block (load c.mem c.inp 16))
    let mem := xorLoop unit c.out c.out c.iv (16 / unit) 0 mem
    decryptApart unit
      { mem := mem, iv := c.inp, inp := c.inp + 16, out := c.out + 16, len := c.len - 16 }
  else c
termination_by c.len

/-- The loop that puts `tmp`, chained to `ivec`, into `out`, and `in` into `ivec`. -/
def turnLoop (unit : Nat) (tmp : List Byte) (inp out ivec : Nat) : Nat → Nat → Mem → Mem
  | 0, _, mem => mem
  | left + 1, n, mem =>
    let c := load mem (inp + n) unit
    let mem := store mem (out + n)
      (xorBytes ((tmp.drop n).take unit) (load mem (ivec + n) unit))
    turnLoop unit tmp inp out ivec left (n + unit) (store mem (ivec + n) c)

/-- `while (len>=16)`, for `in == out`. -/
def decryptInPlace (unit ivec : Nat) (c : Cursor) : Cursor :=
  if 16 ≤ c.len then
    let tmp := block (load c.mem c.inp 16)
    let mem := turnLoop unit tmp c.inp c.out ivec (16 / unit) 0 c.mem
    decryptInPlace unit ivec
      { mem := mem, iv := c.iv, inp := c.inp + 16, out := c.out + 16, len := c.len - 16 }
  else c
termination_by c.len

/-- `while (len)` -/
def decryptBytes (ivec : Nat) (c : Cursor) : Mem :=
  if c.len = 0 then c.mem
  else
    let n := min 16 c.len
    let tmp := block (load c.mem c.inp 16)
    let mem := turnLoop 1 tmp c.inp c.out ivec n 0 c.mem
    if c.len ≤ 16 then copyLoop ivec c.inp (16 - n) n mem
    else
      decryptBytes ivec
        { mem := mem, iv := c.iv, inp := c.inp + 16, out := c.out + 16, len := c.len - 16 }
termination_by c.len

/-- `CRYPTO_cbc128_decrypt`, with the memory as it leaves it. -/
def cbc128Decrypt (build : Build) (inp out len ivec : Nat) (mem : Mem) : Mem :=
  let c : Cursor := { mem := mem, iv := ivec, inp := inp, out := out, len := len }
  let unit := build.unit inp out ivec
  if build.smallFootprint then decryptBytes block ivec c
  else if inp ≠ out then
    let c := decryptApart block unit c
    decryptBytes block ivec { c with mem := store c.mem ivec (load c.mem c.iv 16) }
  else decryptBytes block ivec (decryptInPlace block unit ivec c)

end Decrypt

/-- `AES_cbc_encrypt` -/
def aesCbcEncrypt (build : Build) (inp out length : Nat) (key : AesKey) (ivec : Nat) (enc : Int)
    (mem : Mem) : Mem :=
  if enc ≠ 0 then cbc128Encrypt (aesEncrypt · key) build inp out length ivec mem
  else cbc128Decrypt (aesDecrypt · key) build inp out length ivec mem

end Ct.Openssl
