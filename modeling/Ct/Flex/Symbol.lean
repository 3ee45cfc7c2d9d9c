import Ct.Lib.CString
import Ct.Lib.Probe

set_option autoImplicit false

namespace Ct.Flex

open Ct.Lib

/-- `struct ref`, without `filename`, which is never set. -/
structure Ref where
  lineno : Int
  flags : Int
  deriving DecidableEq

/-- `struct symbol`; `list` is the chain of its references. -/
structure Symbol where
  name : Option CString
  list : List Ref

def hashTableLength : Nat := 9997

/-- The zeroed `symtab`. -/
def emptySymtab : List Symbol := List.replicate hashTableLength ⟨none, []⟩

/-- Why a run ends early. -/
inductive Stop
  | fault (fault : Fault)
  | abort
  deriving DecidableEq

def symhash (sym : CString) : Nat :=
  let hash := sym.foldl (fun hash c => (hash * 9) ^^^ BitVec.ofNat 32 (c.toNat % 256)) (0 : BitVec 32)
  hash.toNat % hashTableLength

/-- Whether the allocations of one call of `addref` succeed. -/
structure Heap where
  strdup : Bool
  malloc : Bool

/-- The loop of `lookup`, which is left `scnt` more times, with the number of slots that it has
looked at. -/
def lookupLoop (heap : Heap) (name : CString) :
    Nat → Nat → List Symbol → Nat → Nat × Except Stop (Nat × List Symbol)
  | 0, _, _, probed => (probed, .error .abort)
  | scnt + 1, sp, symtab, probed =>
    match symtab[sp]? with
    | none => (probed, .error (.fault .outOfBounds))
    | some symbol =>
      if symbol.name = some name then (probed + 1, .ok (sp, symtab))
      else if symbol.name = none then
        (probed + 1, .ok (sp, symtab.set sp ⟨if heap.strdup then some name else none, []⟩))
      else
        lookupLoop heap name scnt (if sp + 1 = hashTableLength then 0 else sp + 1) symtab
          (probed + 1)

def lookup (heap : Heap) (name : CString) (symtab : List Symbol) :
    Nat × Except Stop (Nat × List Symbol) :=
  lookupLoop heap name hashTableLength (symhash name) symtab 0

/-- `rp->next = sp->list; sp->list = rp;` -/
def prepend (symtab : List Symbol) (sp : Nat) (ref : Ref) : List Symbol :=
  symtab.modify sp fun symbol => { symbol with list := ref :: symbol.list }

/-- `addref`, with the number of slots that it has looked at. -/
def addref (heap : Heap) (name : CString) (lineno flags : Int) (symtab : List Symbol) :
    Nat × Except Stop (Int × List Symbol) :=
  match lookup heap name symtab with
  | (probed, .error stop) => (probed, .error stop)
  | (probed, .ok (sp, symtab)) =>
    if heap.malloc then (probed, .ok (0, prepend symtab sp ⟨lineno, flags⟩))
    else (probed, .error .abort)

/-- The arguments of a call of `addref`. -/
structure Call where
  name : CString
  lineno : Int
  flags : Int

/-- A sequence of calls, with the number of slots that each has looked at; the `k`th call of the
program meets `heap k`. -/
def run (heap : Nat → Heap) (k : Nat) (symtab : List Symbol) :
    List Call → List Nat × Except Stop (List Symbol)
  | [] => ([], .ok symtab)
  | call :: rest =>
    match addref (heap k) call.name call.lineno call.flags symtab with
    | (probed, .error stop) => ([probed], .error stop)
    | (probed, .ok (_, after)) =>
      let (probes, result) := run heap (k + 1) after rest
      (probed :: probes, result)

end Ct.Flex
