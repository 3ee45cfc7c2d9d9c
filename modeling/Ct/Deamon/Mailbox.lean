import Ct.Lib.CString
import Ct.Lib.Machine
import Ct.Lib.Format
import Mathlib.Logic.Function.Basic

set_option autoImplicit false

namespace Ct.Deamon

open Ct.Lib

/-- `argv[1]` of a client. -/
abbrev Argument := { text : CString // '\x00' ∉ text }

/-- Where a client stands. -/
inductive ClientPc
  /-- `if(shm->state == 0)` -/
  | test
  /-- `shm->state = 2` -/
  | claim
  /-- `strcpy(shm->data, argv[1])`, before the store of character `k` -/
  | copy (k : Nat)
  /-- `shm->state = 1` -/
  | publish
  | finished
  /-- it has stored outside of the shared memory -/
  | broken
  deriving DecidableEq, Repr

/-- Where the daemon stands; a text is what `sprintf` has read so far. -/
inductive DeamonPc
  /-- `while(this_running++)` -/
  | loop
  /-- `if(shm->state == 1)` -/
  | check
  /-- `shm->state = 2` -/
  | take
  /-- `sprintf(mbuff, "shm: %s\n", shm->data)` -/
  | read (text : CString)
  /-- `write(fd, mbuff, strlen(mbuff))` -/
  | log (text : CString)
  /-- `shm->state = 0` -/
  | release
  /-- `strcmp(shm->data, "deamon_exit")`, before the load of character `k` -/
  | compare (k : Nat)
  /-- the load of `shm->state` for the line of the loop -/
  | lookState
  /-- `sprintf(mbuff, "loopping : shm state = %d, data = %s\n", shm->state, shm->data)` -/
  | lookData (state : Nat) (text : CString)
  /-- the second `write(fd, mbuff, strlen(mbuff))` -/
  | logLook (state : Nat) (text : CString)
  | left
  /-- it has stored outside of `mbuff`, or counted too far -/
  | broken
  deriving DecidableEq, Repr

/-- A line of the log: a message, or the line of the loop. -/
inductive LogLine
  | message (text : CString)
  | loopping (state : Nat) (text : CString)
  deriving DecidableEq, Repr

def LogLine.text : LogLine → CString
  | .message text => "shm: ".toList ++ text ++ ['\n']
  | .loopping state text =>
    "loopping : shm state = ".toList ++ intText state ++ ", data = ".toList ++ text ++ ['\n']

/-- The size of `mbuff`. -/
def mbuffSize : Nat := 64

/-- The size of `data` in `struct deamon_shm`. -/
def dataSize : Nat := 1024

/-- The largest `int`. -/
def intMax : Int := 2 ^ 31 - 1

def deamonExit : CString := "deamon_exit".toList

/-- The shared memory and the processes; `decisions` are the outcomes of the comparisons so far. -/
structure State where
  state : Nat
  data : List Char
  clients : Nat → ClientPc
  deamon : DeamonPc
  thisRunning : Int
  log : List LogLine
  decisions : List Bool

/-- New shared memory is zeroed. -/
def started : State where
  state := 0
  data := List.replicate dataSize '\x00'
  clients _ := .test
  deamon := .loop
  thisRunning := 1
  log := []
  decisions := []

/-- One access of a client. -/
def clientStep (argv1 : Nat → Argument) (s : State) (i : Nat) : Option State :=
  match s.clients i with
  | .test =>
    some (if s.state = 0 then { s with clients := Function.update s.clients i .claim } else s)
  | .claim => some { s with state := 2, clients := Function.update s.clients i (.copy 0) }
  | .copy k =>
    if k < s.data.length then
      match (argv1 i).val[k]? with
      | some c => some { s with
          data := s.data.set k c, clients := Function.update s.clients i (.copy (k + 1)) }
      | none => some { s with
          data := s.data.set k '\x00', clients := Function.update s.clients i .publish }
    else some { s with clients := Function.update s.clients i .broken }
  | .publish => some { s with state := 1, clients := Function.update s.clients i .finished }
  | .finished => none
  | .broken => none

/-- Where `sprintf` goes on after the load of a character of the text. -/
def formatStep (data : List Char) (text : CString) (line : CString → LogLine)
    (more done : CString → DeamonPc) : DeamonPc :=
  match data[text.length]? with
  | none => .broken
  | some c =>
    if c = '\x00' then
      if (line text).text.length < mbuffSize then done text else .broken
    else more (text ++ [c])

/-- One access of the daemon. -/
def deamonStep (s : State) : Option State :=
  match s.deamon with
  | .loop =>
    if s.thisRunning = 0 then some { s with deamon := .left, thisRunning := 1 }
    else if s.thisRunning < intMax then
      some { s with deamon := .check, thisRunning := s.thisRunning + 1 }
    else some { s with deamon := .broken }
  | .check => some { s with deamon := if s.state = 1 then .take else .lookState }
  | .take => some { s with state := 2, deamon := .read [] }
  | .read text => some { s with deamon := formatStep s.data text .message .read .log }
  | .log text => some { s with deamon := .release, log := s.log ++ [.message text] }
  | .release => some { s with state := 0, deamon := .compare 0 }
  | .compare k =>
    match s.data[k]? with
    | none => some { s with deamon := .broken }
    | some c =>
      if c ≠ deamonExit.getD k '\x00' then
        some { s with deamon := .lookState, decisions := s.decisions ++ [false] }
      else if c = '\x00' then
        some { s with deamon := .lookState, thisRunning := 0, decisions := s.decisions ++ [true] }
      else some { s with deamon := .compare (k + 1) }
  | .lookState => some { s with deamon := .lookData s.state [] }
  | .lookData state text => some { s with
      deamon := formatStep s.data text (.loopping state) (.lookData state) (.logLook state) }
  | .logLook state text => some { s with deamon := .loop, log := s.log ++ [.loopping state text] }
  | .left => none
  | .broken => none

inductive Action
  | client (i : Nat)
  | deamon
  deriving DecidableEq, Repr

/-- The processes take one access after the other, in any order. -/
def mailbox (argv1 : Nat → Argument) : Machine State Action where
  step s
    | .client i => clientStep argv1 s i
    | .deamon => deamonStep s

end Ct.Deamon
