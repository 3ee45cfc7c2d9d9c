import Ct.S5pv210.Registry
import Ct.S5pv210.Getstr

set_option autoImplicit false

namespace Ct.S5pv210.Main

open Ct.Lib

/-- `SHELL_MAX_ARGUMENTS` -/
def shellMaxArguments : Nat := 10

/-- The size of `buffer` in `shell_query`. -/
def bufferSize : Nat := 2048

def isBlank (c : Char) : Bool := c == ' ' || c == '\t'

/-- `while(*str != ' ' && *str != '\t' && *str != 0) str++` -/
def wordEnd : List Char → Except Fault Nat
  | [] => .error .outOfBounds
  | c :: rest => if isBlank c || c == '\x00' then .ok 0 else (wordEnd rest).map (· + 1)

/-- The loop of `shell_parse_arguments`; `argv` has the positions in the buffer. -/
def parseLoop : Nat → List Char → List Nat → Nat → Except Fault (List Char × List Nat)
  | 0, _, _, _ => .error .outOfFuel
  | fuel + 1, buffer, argv, str =>
    match buffer[str]? with
    | none => .error .outOfBounds
    | some c =>
      if c = '\x00' then .ok (buffer, argv)
      else if argv.length < shellMaxArguments then do
        let n ← wordEnd (buffer.drop str)
        if buffer[str + n]? = some '\x00' then parseLoop fuel buffer (argv ++ [str]) (str + n)
        else parseLoop fuel (buffer.set (str + n) '\x00') (argv ++ [str]) (str + n + 1)
      else .error .outOfBounds

/-- The string at this position. -/
def stringAt (buffer : List Char) (p : Nat) : Except Fault CString :=
  if '\x00' ∈ buffer.drop p then .ok ((buffer.drop p).takeWhile (· ≠ '\x00'))
  else .error .outOfBounds

/-- The loop that prints the arguments, the `j`th one first. -/
def printArgv (buffer : List Char) : Nat → List Nat → Except Fault (List CString)
  | _, [] => .ok []
  | j, p :: argv => do
    let arg ← stringAt buffer p
    let text ← printf "argv[%x] = %s\n".toList [.word (BitVec.ofNat 32 j), .string (some arg)]
    let sent ← printArgv buffer (j + 1) argv
    pure (text :: sent)

def shellParseArguments (str : List Char) : Except Fault (List Char × List Nat × List CString) := do
  let (str, argv) ← parseLoop (str.length + 1) str [] 0
  let text ← printf "argc = %x\n".toList [.word (BitVec.ofNat 32 argv.length)]
  let sent ← printArgv str 0 argv
  pure (str, argv, text :: sent)

def strcmp : CString → CString → Int
  | a :: as, b :: bs => if a = b then strcmp as bs else (a.toNat : Int) - b.toNat
  | a :: _, [] => a.toNat
  | [], b :: _ => -(b.toNat : Int)
  | [], [] => 0

variable {π σ : Type}

/-- The body of the loop of `shell_query`. A handler `run` changes what is outside of the shell. -/
def queryBody (run : π → List CString → σ → Int × σ) (reg : Registry π) (argv : List CString)
    (name : CString) (l : Nat) :
    Int × σ × List (Event π) → Except Fault (Bool × (Int × σ × List (Event π)))
  | (rc, outside, events) =>
    match reg.gCmds[l]? with
    | none => .error .outOfBounds
    | some sc =>
      match sc.cmd with
      | none => .error .nullDeref
      | some cmd =>
        if strcmp name cmd = 0 then
          match sc.process with
          | some process =>
            let (rc, outside) := run process argv outside
            .ok (false, (rc, outside, events ++ [.visits l, .runs process argv]))
          | none => .ok (false, (0, outside, events ++ [.visits l]))
        else .ok (false, (rc, outside, events ++ [.visits l]))

/-- `shell_query`, with the input that it leaves; `buffer` is what is on the stack before. -/
def shellQuery (run : π → List CString → σ → Int × σ) (reg : Registry π)
    (buffer : Vector Char bufferSize) (input : List Char) (outside : σ) :
    Except Fault (Int × σ × List Char × List (Event π)) := do
  let (buffer, input, echo) ← uartGetstr input buffer.toList 0
  if buffer.head? = some '\x00' then pure (0, outside, input, echo.map .sent)
  else do
    let (buffer, argv, sent) ← shellParseArguments buffer
    let argv ← argv.mapM (stringAt buffer)
    match argv with
    | [] => .error .uninitialised
    | name :: _ =>
      let (_, rc, outside, events) ← traverse reg.next (queryBody run reg argv name)
        (cmdSlots + 1) reg.gcmdsHead.next (-100, outside, (echo ++ sent).map .sent)
      if rc = -100 then do
        let name ← stringAt buffer 0
        let text ← printf " '%s' not found, 'help' for more information\n".toList
          [.string (some name)]
        pure (rc, outside, input, events ++ [.sent text])
      else pure (rc, outside, input, events)

end Ct.S5pv210.Main
