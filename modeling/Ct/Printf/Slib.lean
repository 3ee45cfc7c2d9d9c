import Ct.Lib.CString
import Ct.Lib.Fault
import Ct.Lib.Memory
import Mathlib.Data.Nat.Digits.Lemmas

set_option autoImplicit false

namespace Ct.Printf

open Ct.Lib

/-- A base for which `tb` has the digits. -/
structure Base where
  val : Nat
  low : 2 ≤ val
  high : val ≤ 16

def decimal : Base := ⟨10, by decide, by decide⟩

def hexadecimal : Base := ⟨16, by decide, by decide⟩

/-- `char st[32]`, with whatever it holds before it is set. -/
abbrev Scratch := { st : List Char // st.length = 32 }

/-- `buffer[i]` -/
def load (buffer : List Char) (i : Nat) : Except Fault Char :=
  match buffer[i]? with
  | none => .error .outOfBounds
  | some c => .ok c

/-- `buffer[i] = c` -/
def store (buffer : List Char) (i : Nat) (c : Char) : Except Fault (List Char) :=
  if i < buffer.length then .ok (buffer.set i c) else .error .outOfBounds

def tb : List Char := "0123456789ABCDEF".toList ++ ['\x00']

theorem quotient_less {n : Int} (base : Base) (positive : 0 < n) :
    (n.tdiv base.val).toNat < n.toNat := by
  obtain ⟨m, rfl⟩ := Int.eq_ofNat_of_zero_le (Int.le_of_lt positive)
  rw [← Int.ofNat_tdiv, Int.toNat_natCast, Int.toNat_natCast]
  exact Nat.div_lt_self (by omega) base.low

/-- The loop that stores the digits, from the last one on. -/
def digitLoop (base : Base) (n : Int) (stp : Nat) (st : List Char) :
    Except Fault (Nat × List Char) :=
  if _positive : 0 < n then
    match load tb (n.tmod base.val).toNat with
    | .error fault => .error fault
    | .ok c =>
      match store st (stp + 1) c with
      | .error fault => .error fault
      | .ok st => digitLoop base (n.tdiv base.val) (stp + 1) st
  else .ok (stp, st)
termination_by n.toNat
decreasing_by exact quotient_less base _positive

/-- `while(*sp++ = *stp--)` -/
def copyLoop (st : List Char) (stp : Nat) (s : List Char) (sp : Nat) :
    Except Fault (List Char) := do
  let c ← load st stp
  let s ← store s sp c
  if c = '\x00' then pure s
  else
    match stp with
    | 0 => .error .outOfBounds
    | stp + 1 => copyLoop st stp s (sp + 1)

/-- `myitoa`, with the buffer that it returns. -/
def myitoa (scratch : Scratch) (n : Int) (s : List Char) (base : Base) :
    Except Fault (List Char) := do
  let st ← store scratch.val 0 '\x00'
  let (stp, st) ← digitLoop base n 0 st
  copyLoop st stp s 0

/-- The base of `%d` and of `%p`. -/
def conversionBase (p : Char) : Base := if p = 'd' then decimal else hexadecimal

/-- The string in a buffer. -/
def stringIn (buffer : List Char) : CString := buffer.takeWhile (· ≠ '\x00')

/-- The loop of `myprintf`, which passes the text of a number to `nested`. -/
def printLoop (scratch : Scratch) (nested : CString → Except Fault CString) :
    Bool → CString → List Int → List Char → Except Fault CString
  | _, [], _, _ => .ok []
  | true, p :: s, vl, st =>
    if p = '%' then (printLoop scratch nested false s vl st).map ('%' :: ·)
    else if p = 'd' ∨ p = 'p' then
      match vl with
      | [] => .error .uninitialised
      | vv :: vl => do
        let st ← myitoa scratch vv st (conversionBase p)
        let text ← nested (stringIn st)
        let rest ← printLoop scratch nested false s vl st
        pure (text ++ rest)
    else (printLoop scratch nested false s vl st).map ('?' :: ·)
  | false, p :: s, vl, st =>
    if p = '%' then printLoop scratch nested true s vl st
    else (printLoop scratch nested false s vl st).map (p :: ·)

/-- `myprintf(s)`: a conversion reads an argument that was not passed. -/
def myprintfString (scratch : Scratch) (s : CString) : Except Fault CString :=
  printLoop scratch (fun _ => .error .uninitialised) false s [] scratch.val

/-- `myprintf`, with the text that it prints. -/
def myprintf (scratch : Scratch) (s : CString) (vl : List Int) : Except Fault CString :=
  printLoop scratch (myprintfString scratch) false s vl scratch.val

end Ct.Printf
