import Ct.Lib.CString
import Ct.Lib.Fault

set_option autoImplicit false

namespace Ct.Shell

open Ct.Lib

/-- `CMD_MAX_NUM` -/
abbrev cmdMaxNum : Nat := 16

/-- `CMD_MAX_LEN` -/
abbrev cmdMaxLen : Nat := 64

/-- The size of `cmdin`. -/
abbrev cmdinSize : Nat := 128

/-- `enum cmd_t` -/
inductive Cmd
  | quit
  | help
  | fieldList
  | fieldCreate
  | fieldUpdate
  | fieldGen
  | fieldDelete
  deriving DecidableEq, Repr

/-- `struct u_shell` after `shell_init_arg_array`: `argv` holds the strings in `arg_buf`, which are
whatever the memory holds before the first is stored. -/
structure Shell where
  argc : Nat
  argv : Vector CString cmdMaxNum

/-- `strcpy(sh->argv[sh->argc++], s)` -/
def storeArg (sh : Shell) (s : CString) : Except Fault Shell :=
  if inside : sh.argc < cmdMaxNum then
    if s.length < cmdMaxLen then .ok ⟨sh.argc + 1, sh.argv.set sh.argc s⟩
    else .error .outOfBounds
  else .error .outOfBounds

def isBlank (c : Char) : Bool :=
  c == ' ' || c == '\t'

/-- `while('\0' != *s)`, with the text behind `s` where it ends. -/
def splitLoop : Nat → Shell → CString → Except Fault (Shell × CString)
  | 0, _, _ => .error .outOfFuel
  | _ + 1, sh, [] => .ok (sh, [])
  | fuel + 1, sh, c :: rest =>
    if isBlank c then splitLoop fuel sh rest
    else
      match (c :: rest).dropWhile fun c => !isBlank c with
      | [] => .ok (sh, c :: rest)
      | _ :: behind =>
        match storeArg sh ((c :: rest).takeWhile fun c => !isBlank c) with
        | .error fault => .error fault
        | .ok sh => splitLoop fuel sh behind

/-- `if(*s != '\0')` -/
def storeLast (sh : Shell) (s : CString) : Except Fault Shell :=
  if s ≠ [] then storeArg sh s else .ok sh

def shellSplitCmdline (sh : Shell) (s : CString) : Except Fault Shell :=
  match splitLoop (s.length + 1) { sh with argc := 0 } s with
  | .error fault => .error fault
  | .ok (sh, s) => storeLast sh s

def commands : List (CString × Cmd) :=
  [("quit".toList, .quit), ("help".toList, .help), ("fl".toList, .fieldList),
    ("fc".toList, .fieldCreate), ("fu".toList, .fieldUpdate), ("fg".toList, .fieldGen),
    ("fd".toList, .fieldDelete)]

/-- The first command of this name. -/
def commandNamed (name : CString) : Option Cmd :=
  (commands.find? fun command => command.1 = name).map Prod.snd

/-- The command that `shell_router` runs, or none for `err_command`. -/
def shellRouter (sh : Shell) : Option Cmd :=
  commandNamed sh.argv[0]

/-- One line: the body of the loop in `main`. -/
def shellLine (sh : Shell) (cmdin : CString) : Except Fault (Shell × Option Cmd) :=
  match shellSplitCmdline sh cmdin with
  | .error fault => .error fault
  | .ok sh => .ok (sh, shellRouter sh)

/-- The loop of `main` over the lines that are typed: the shell that waits for the next line, or
none after `quit`. -/
def session (sh : Shell) : List CString → Except Fault (Option Shell)
  | [] => .ok (some sh)
  | cmdin :: lines =>
    match shellLine sh cmdin with
    | .error fault => .error fault
    | .ok (_, some .quit) => .ok none
    | .ok (sh, _) => session sh lines

end Ct.Shell
