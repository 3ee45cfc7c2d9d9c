import Ct.Lib.Base64
import Ct.Lib.CInt
import Ct.Lib.Fault

set_option autoImplicit false

namespace Ct.Openssl.Base64

open Ct.Lib

/-- A `char`, which is signed. -/
abbrev CChar := BitVec 8

def ch (c : Char) : CChar := BitVec.ofNat 8 c.toNat

def text (s : String) : List CChar := s.toList.map ch

/-- The promotion of a `char`. -/
def int (c : CChar) : BitVec 32 := c.signExtend 32

/-- The array `Base64`, with its terminator. -/
def table : List CChar :=
  text "ABCDEFGHIJKLMNOPQRSTUVWXYZabcdefghijklmnopqrstuvwxyz0123456789+/" ++ [0]

/-- `Base64[i]` -/
def letter (i : BitVec 32) : Except Fault CChar :=
  if 0 ≤ i.toInt ∧ i.toInt < table.length then .ok (table.getD i.toNat 0) else .error .outOfBounds

/-- What `dst` points to: its size, and what has been written up to `p`. -/
structure Dst where
  size : Nat
  written : List CChar

/-- `*p++ = c` -/
def put (c : CChar) (dst : Dst) : Except Fault Dst :=
  if dst.written.length < dst.size then .ok { dst with written := dst.written ++ [c] }
  else .error .outOfBounds

/-- `*p = 0` at the end; what is read back is the string that starts at `dst`. -/
def finish (dst : Dst) : Except Fault (List CChar) :=
  if dst.written.length < dst.size then .ok (dst.written.takeWhile (· ≠ 0)) else .error .outOfBounds

section Encode

def first (a : CChar) : Except Fault CChar := letter ((int a).sshiftRight 2 &&& 0x3f#32)

def second (a b : CChar) : Except Fault CChar :=
  letter (((int a &&& 0x3#32) <<< 4) + (int b).sshiftRight 4)

def third (b c : CChar) : Except Fault CChar :=
  letter (((int b &&& 0xf#32) <<< 2) + (int c).sshiftRight 6)

def fourth (c : CChar) : Except Fault CChar := letter (int c &&& 0x3f#32)

/-- The loop of `base64_encode`, with what is left of `src` from `i` on. -/
def encodeLoop : List CChar → Dst → Except Fault (List CChar × Dst)
  | a :: b :: c :: rest, dst => do
    let dst ← put (← first a) dst
    let dst ← put (← second a b) dst
    let dst ← put (← third b c) dst
    let dst ← put (← fourth c) dst
    encodeLoop rest dst
  | rest, dst => .ok (rest, dst)

/-- The branches for `strlen(src)-i`. -/
def encodeRest : List CChar → Dst → Except Fault Dst
  | [a], dst => do
    let dst ← put (← first a) dst
    let dst ← put (← letter ((int a &&& 0x3#32) <<< 4)) dst
    let dst ← put (ch '=') dst
    put (ch '=') dst
  | [a, b], dst => do
    let dst ← put (← first a) dst
    let dst ← put (← second a b) dst
    let dst ← put (← letter ((int b &&& 0xf#32) <<< 2)) dst
    put (ch '=') dst
  | _, dst => .ok dst

/-- `base64_encode`, for a string whose length is an `int`. -/
def encode (src : List CChar) (size : Nat) : Except Fault (List CChar) := do
  let (rest, dst) ← encodeLoop src { size := size, written := [] }
  let dst ← encodeRest rest dst
  finish dst

end Encode

section Decode

/-- `c >= lo && c <= hi` -/
def between (lo c hi : CChar) : Bool := lo.sle c && c.sle hi

/-- What is stored for a character. -/
def value (c : CChar) : Option CChar :=
  if between (ch 'A') c (ch 'Z') then some (c - ch 'A')
  else if between (ch 'a') c (ch 'z') then some (c - ch 'a' + 26)
  else if between (ch '0') c (ch '9') then some (c - ch '0' + 52)
  else if c = ch '+' then some 62
  else if c = ch '/' then some 63
  else if c = ch '=' then some (-1)
  else none

/-- `while(*s)`: the values, or the first character that has none. -/
def values : List CChar → Except CChar (List CChar)
  | [] => .ok []
  | c :: src =>
    match value c with
    | none => .error c
    | some v => (values src).map (v :: ·)

/-- `*(q+i)` -/
def cell (q : List CChar) (i : Nat) : Except Fault CChar :=
  match q[i]? with
  | some v => .ok v
  | none => .error .outOfBounds

/-- `(a<<2)+(b>>4)`, as a `char`; a negative value is shifted as its bits are. -/
def byte1 (a b : CChar) : CChar := ((int a <<< 2) + (int b).sshiftRight 4).setWidth 8

def byte2 (b c : CChar) : CChar := ((int b <<< 4) + (int c).sshiftRight 2).setWidth 8

def byte3 (c d : CChar) : CChar := ((int c <<< 6) + int d).setWidth 8

def decodeGroup (q : List CChar) (i : Nat) (dst : Dst) : Except Fault Dst := do
  let dst ← put (byte1 (← cell q i) (← cell q (i + 1))) dst
  let dst ← put (byte2 (← cell q (i + 1)) (← cell q (i + 2))) dst
  put (byte3 (← cell q (i + 2)) (← cell q (i + 3))) dst

/-- `for(i=0;i<len-4;i+=4)` -/
def decodeLoop (q : List CChar) (len : Int) (i : Nat) (dst : Dst) : Except Fault (Nat × Dst) :=
  if (i : Int) < len - 4 then do
    let dst ← decodeGroup q i dst
    decodeLoop q len (i + 4) dst
  else .ok (i, dst)
termination_by (len - 4 - i).toNat

def notValid : List CChar := text "Not a valid base64 string\n"

/-- The branches behind the loop, for the last four values; a text is what is printed before the
program exits. -/
def decodeLast (q : List CChar) (i : Nat) (dst : Dst) : Except Fault (Except (List CChar) Dst) := do
  if (← cell q (i + 3)) ≠ -1 then
    return .ok (← decodeGroup q i dst)
  else if (← cell q (i + 2)) ≠ -1 then
    let dst ← put (byte1 (← cell q i) (← cell q (i + 1))) dst
    let dst ← put (byte2 (← cell q (i + 1)) (← cell q (i + 2))) dst
    let dst ← put ((int (← cell q (i + 2)) <<< 6).setWidth 8) dst
    return .ok dst
  else if (← cell q (i + 1)) ≠ -1 then
    let dst ← put (byte1 (← cell q i) (← cell q (i + 1))) dst
    let dst ← put ((int (← cell q (i + 1)) <<< 4).setWidth 8) dst
    return .ok dst
  else
    return .error notValid

/-- `base64_decode`; `given` says for which sizes `malloc` returns a block. -/
def decode (given : Nat → Bool) (src : List CChar) (size : Nat) :
    Except Fault (Except (List CChar) (List CChar)) :=
  if given (src.length + 1) then
    match values src with
    | .error c => .ok (.error ([ch '\n', c] ++ text ":Not a valid base64 string\n"))
    | .ok vs => do
      let q := vs ++ [0]
      let (i, dst) ← decodeLoop q src.length 0 { size := size, written := [] }
      match ← decodeLast q i dst with
      | .error printed => return .error printed
      | .ok dst => return .ok (← finish dst)
  else .error .nullDeref

end Decode

section Main

/-- What `getopt_long` returns, with `optarg`. -/
inductive Opt
  | help
  | src (optarg : List CChar)
  | type (optarg : List CChar)
  | other

/-- The variables of `main`; `src` and `type` are there when `s` and `t` are set. -/
structure Vars where
  src : Option (List CChar)
  type : Option CChar

def help : List CChar :=
  text "author ltw:4/12/2008 d/m/Y\n" ++
    text "Usage:\n\tltwbase64 -s string -t e\n\tltwbase64 -s string -t d\n"

/-- The loop over the options; a text is what is printed before the program exits. -/
def options (given : Nat → Bool) : List Opt → Vars → Except Fault (Except (List CChar) Vars)
  | [], vars => .ok (.ok vars)
  | .help :: _, _ => .ok (.error help)
  | .src optarg :: opts, vars =>
    if 99 < optarg.length then .ok (.error help)
    else if given 100 then options given opts { vars with src := some optarg }
    else .error .nullDeref
  | .type optarg :: opts, vars => options given opts { vars with type := some (optarg.headD 0) }
  | .other :: opts, vars => options given opts vars

/-- The size of `dst`. -/
def dstSize (src : List CChar) : Nat := (src.length + 2) * 4 / 3 + 1

/-- `main`: what it prints. -/
def main (given : Nat → Bool) (opts : List Opt) : Except Fault (List CChar) := do
  match ← options given opts { src := none, type := none } with
  | .error printed => return printed
  | .ok vars =>
    match vars.src with
    | none => throw .uninitialised
    | some src =>
      let size := dstSize src
      if vars.type = some (ch 'e') then
        if given size then return (← encode src size) ++ [ch '\n'] else throw .nullDeref
      else if vars.type = some (ch 'd') then
        if given size then
          match ← decode given src size with
          | .error printed => return printed
          | .ok text => return text ++ [ch '\n']
        else throw .nullDeref
      else return help

end Main

end Ct.Openssl.Base64
