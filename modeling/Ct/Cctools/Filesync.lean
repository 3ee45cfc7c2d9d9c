import Ct.Ccutils.UfileScan
import Ct.Ccutils.UtableRuns

set_option autoImplicit false

namespace Ct.Cctools.Filesync

open Ct.Lib
open Ct.Ccutils.Utable
open Ct.Ccutils.Ufile

def fileTableSize : Nat := 1024

structure FileNode where
  filename : CString

/-- The static objects of the file: `tn_table`, `htdesc`, and the reports so far. -/
structure Static where
  tnTable : List (Option (TableNode FileNode))
  htdesc : HashTableDesc FileNode
  mallocs : Nat
  overflows : Nat

def Static.zero : Static where
  tnTable := List.replicate fileTableSize none
  htdesc := ⟨none, 0, none, false, false, false⟩
  mallocs := 0
  overflows := 0

end Ct.Cctools.Filesync
