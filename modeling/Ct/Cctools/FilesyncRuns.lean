import Ct.Cctools.Filesync
import Mathlib.Data.List.Dedup

set_option autoImplicit false

namespace Ct.Cctools.Filesync

open Ct.Lib
open Ct.Ccutils.Utable
open Ct.Ccutils.Ufile

variable {tbl : List (Option (TableNode FileNode))} {overflows : Nat} {inserted : List CString}
  {blocks : Nat → TableNode FileNode}

/-- The slots after these names were inserted, one after the other: those that found no slot left
were reported. -/
structure Filled (tbl : List (Option (TableNode FileNode))) (overflows : Nat)
    (inserted : List CString) : Prop where
  length_eq : tbl.length = fileTableSize
  named : ∀ (i : Nat) node, tbl[i]? = some (some node) → ∃ key, node.cmpStr = some key
  entries : keys tbl = (inserted.take fileTableSize : List CString)
  overflows_eq : overflows = inserted.length - fileTableSize

theorem Filled.keyed {ht : HashTableDesc FileNode} (filled : Filled tbl overflows inserted)
    (tbl_eq : ht.tbl = some tbl) (size_eq : ht.size = fileTableSize) : Keyed ht tbl where
  tbl_eq := tbl_eq
  length_eq := filled.length_eq.trans size_eq.symm
  positive := by
    rw [size_eq]
    decide
  named := filled.named

theorem Filled.zero : Filled Static.zero.tnTable 0 [] where
  length_eq := List.length_replicate
  named := by
    intro i node here
    have free := List.eq_of_mem_replicate (List.mem_of_getElem? here)
    cases free
  entries := keys_replicate fileTableSize
  overflows_eq := rfl

/-- A descriptor over slots that hold the inserted names. -/
def Holds (ht : HashTableDesc FileNode) (overflows : Nat) (inserted : List CString) : Prop :=
  ∃ tbl, ht.tbl = some tbl ∧ ht.size = fileTableSize ∧ Filled tbl overflows inserted

variable {env : Env} {listing : Listing}

variable {static : Static} {k : Nat}

end Ct.Cctools.Filesync
