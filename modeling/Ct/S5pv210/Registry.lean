import Ct.Lib.CircleqTail
import Ct.S5pv210.Printf

set_option autoImplicit false

namespace Ct.S5pv210.Main

open Ct.Lib

/-- `struct list_head`; the link `.node i` points at `g_cmds[i].list`. -/
structure ListHead where
  prev : Link
  next : Link

/-- `struct shell_command`; `π` is the type of the handlers. -/
structure ShellCommand (π : Type) where
  list : ListHead
  cmd : Option CString
  process : Option π
  helpMsg : Option CString

/-- `gcmds_head`, and `g_cmds` of `sc_malloc`. -/
structure Registry (π : Type) where
  gcmdsHead : ListHead
  gCmds : List (ShellCommand π)

/-- What can be seen of a run: a text that is printed, a node on which a traversal stands, and a
handler that is called. -/
inductive Event (π : Type)
  | sent (text : CString)
  | visits (i : Nat)
  | runs (process : π) (argv : List CString)

variable {π : Type}

def cmdSlots : Nat := 16

def emptyRegistry : Registry π :=
  ⟨⟨.head, .head⟩, List.replicate cmdSlots ⟨⟨.null, .null⟩, none, none, none⟩⟩

def scMalloc (reg : Registry π) : Option Nat := reg.gCmds.findIdx? fun sc => sc.cmd.isNone

/-- `list_add_tail(&gcmds_head, &g_cmds[i].list)` -/
def listAddTail (reg : Registry π) (i : Nat) : Except Fault (Registry π) :=
  let gCmds := reg.gCmds.modify i fun sc => { sc with list := ⟨reg.gcmdsHead.prev, .head⟩ }
  match reg.gcmdsHead.prev with
  | .null => .error .nullDeref
  | .wild => .error .outOfBounds
  | .head => .ok ⟨⟨.node i, .node i⟩, gCmds⟩
  | .node j => .ok ⟨⟨.node i, reg.gcmdsHead.next⟩,
      gCmds.modify j fun sc => { sc with list := ⟨sc.list.prev, .node i⟩ }⟩

def registerShellCommand (reg : Registry π) (i : Nat) : Except Fault (Int × Registry π) :=
  (listAddTail reg i).map fun reg => (0, reg)

def registerShellCommandQuick (reg : Registry π) (cmd : Option CString) (func : Option π)
    (msg : Option CString) : Except Fault (Int × Registry π × List (Event π)) :=
  match scMalloc reg with
  | none => do
    let text ← printf "main: sc_malloc failed\n".toList []
    pure (-1, reg, [.sent text])
  | some i => do
    let gCmds := reg.gCmds.modify i fun sc =>
      { sc with cmd := cmd, process := func, helpMsg := msg }
    let text ← printf "main: register command %s\n".toList [.string cmd]
    let (rc, reg) ← registerShellCommand { reg with gCmds := gCmds } i
    pure (rc, reg, [.sent text])

/-- `l->next` -/
def Registry.next (reg : Registry π) (i : Nat) : Except Fault Link :=
  match reg.gCmds[i]? with
  | none => .error .outOfBounds
  | some sc => .ok sc.list.next

/-- The body of the loop of `do_help`, with `i` as `count`. -/
def helpBody (reg : Registry π) (l : Nat) :
    Nat × List (Event π) → Except Fault (Bool × (Nat × List (Event π)))
  | (count, events) =>
    match reg.gCmds[l]? with
    | none => .error .outOfBounds
    | some sc => do
      let text ← printf " %s - %s\n".toList [.string sc.cmd, .string sc.helpMsg]
      pure (false, (count + 1, events ++ [.visits l, .sent text]))

/-- `do_help`, whose loop is over at most as many nodes as there are. -/
def doHelp (reg : Registry π) : Except Fault (Int × List (Event π)) := do
  let (_, count, events) ←
    traverse reg.next (helpBody reg) (cmdSlots + 1) reg.gcmdsHead.next (0, [])
  let text ← printf "  total %x commands\n".toList [.word (BitVec.ofNat 32 count)]
  pure (0, events ++ [.sent text])

/-- The arguments of a call of `register_shell_command_quick`, whose name is not NULL. -/
structure Request (π : Type) where
  cmd : CString
  process : Option π
  helpMsg : Option CString
  terminated : '\x00' ∉ cmd

/-- A sequence of calls, with what they return. -/
def registerAll (reg : Registry π) :
    List (Request π) → Except Fault (List Int × Registry π × List (Event π))
  | [] => .ok ([], reg, [])
  | request :: rest => do
    let (rc, reg, events) ←
      registerShellCommandQuick reg (some request.cmd) request.process request.helpMsg
    let (rcs, reg, more) ← registerAll reg rest
    pure (rc :: rcs, reg, events ++ more)

end Ct.S5pv210.Main
