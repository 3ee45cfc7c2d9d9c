import Ct.Lib.CString
import Ct.Lib.Probe

set_option autoImplicit false

namespace Ct.Ccutils.Utable

open Ct.Lib

universe u

variable {ρ : Type u}

/-- `struct table_node`; a null pointer is `none`. -/
structure TableNode (ρ : Type u) where
  cmpStr : Option CString
  cmpInt : Int
  hash : Nat
  p : Option ρ

/-- `struct hash_table_desc`. The callbacks `remove`, `foreach` and `print` are null or set;
what they are called with is part of the results below. -/
structure HashTableDesc (ρ : Type u) where
  tbl : Option (List (Option (TableNode ρ)))
  size : Nat
  insert : Option (TableNode ρ → Option ρ)
  remove : Bool
  foreach : Bool
  print : Bool

/-- What the allocator does in one `hash_table_insert`: the old contents of the block that
`malloc` hands out, if any, and whether `strdup` succeeds. -/
structure Heap (ρ : Type u) where
  block : Option (TableNode ρ)
  strdup : Bool

/-- The comparison of one slot; `strcmp` reads through the stored pointer. -/
def lookupVisit (tbl : List (Option (TableNode ρ))) (node : TableNode ρ) (i : Nat) :
    Option (Except Fault Int) :=
  match tbl[i]? with
  | none => some (.error .outOfBounds)
  | some none => none
  | some (some p) =>
    match node.cmpStr with
    | some key =>
      match p.cmpStr with
      | some stored => if stored = key then some (.ok i) else none
      | none => some (.error .nullDeref)
    | none => if node.cmpInt = p.cmpInt then some (.ok i) else none

def hashTableLookup (fuel : Nat) (ht : HashTableDesc ρ) (node : TableNode ρ) :
    Except Fault Int :=
  match ht.tbl with
  | none => .ok (-1)
  | some tbl =>
    if ht.size ≤ 0 then .ok (-1)
    else
      match probe ht.size node.hash (lookupVisit tbl node) fuel node.hash with
      | .error fault => .error fault
      | .ok none => .ok (-1)
      | .ok (some result) => result

/-- What `hash_table_insert` returns, leaves and reports. -/
structure Inserted (ρ : Type u) where
  rc : Int
  table : HashTableDesc ρ
  overflow : Bool

def insertVisit (tbl : List (Option (TableNode ρ))) (i : Nat) : Option (Except Fault Nat) :=
  match tbl[i]? with
  | none => some (.error .outOfBounds)
  | some none => some (.ok i)
  | some (some _) => none

/-- The node that `hash_table_insert` builds in a block: `cmp_str` and `p` keep the old
contents of the block when the key is an integer or no callback is set. -/
def fillNode (ht : HashTableDesc ρ) (node block : TableNode ρ) (strdup : Bool) : TableNode ρ where
  cmpStr :=
    match node.cmpStr with
    | some key => if strdup then some key else none
    | none => block.cmpStr
  cmpInt := node.cmpInt
  hash := node.hash
  p :=
    match ht.insert with
    | some callback => callback node
    | none => block.p

def hashTableInsert (fuel : Nat) (ht : HashTableDesc ρ) (node : TableNode ρ) (heap : Heap ρ) :
    Except Fault (Inserted ρ) :=
  match ht.tbl with
  | none => .ok ⟨-1, ht, false⟩
  | some tbl =>
    if ht.size ≤ 0 then .ok ⟨-1, ht, false⟩
    else
      match probe ht.size node.hash (insertVisit tbl) fuel node.hash with
      | .error fault => .error fault
      | .ok none => .ok ⟨-1, ht, true⟩
      | .ok (some (.error fault)) => .error fault
      | .ok (some (.ok i)) =>
        match heap.block with
        | none => .ok ⟨-1, ht, false⟩
        | some block =>
          let new := fillNode ht node block heap.strdup
          .ok ⟨i, { ht with tbl := some (tbl.set i (some new)) }, false⟩

/-- What `hash_table_remove` returns and leaves, what it passes to the `remove` callback and
which strings it frees. -/
structure Removed (ρ : Type u) where
  rc : Int
  table : HashTableDesc ρ
  callback : List (Option ρ)
  freed : List CString

def hashTableRemove (fuel : Nat) (ht : HashTableDesc ρ) (node : TableNode ρ) :
    Except Fault (Removed ρ) :=
  match ht.tbl with
  | none => .ok ⟨-1, ht, [], []⟩
  | some tbl =>
    if ht.size ≤ 0 then .ok ⟨-1, ht, [], []⟩
    else
      match hashTableLookup fuel ht node with
      | .error fault => .error fault
      | .ok i =>
        if i < 0 then .ok ⟨-1, ht, [], []⟩
        else
          match tbl[i.toNat]? with
          | some (some rm) =>
            .ok ⟨0, { ht with tbl := some (tbl.set i.toNat none) },
              if ht.remove then [rm.p] else [], rm.cmpStr.toList⟩
          | _ => .error .nullDeref

/-- The calls `ht->foreach(i, node)` in order, and the count returned. -/
def foreachLoop (ht : HashTableDesc ρ) (tbl : List (Option (TableNode ρ))) :
    Nat → Nat → Int → List (Nat × TableNode ρ) → Except Fault (Int × List (Nat × TableNode ρ))
  | 0, _, count, calls => .ok (count, calls)
  | left + 1, i, count, calls =>
    match tbl[i]? with
    | none => .error .outOfBounds
    | some (some node) =>
      if ht.foreach then foreachLoop ht tbl left (i + 1) (count + 1) (calls ++ [(i, node)])
      else foreachLoop ht tbl left (i + 1) count calls
    | some none => foreachLoop ht tbl left (i + 1) count calls

def hashTableForeach (ht : HashTableDesc ρ) : Except Fault (Int × List (Nat × TableNode ρ)) :=
  match ht.tbl with
  | none => .ok (-1, [])
  | some tbl =>
    if ht.size ≤ 0 then .ok (-1, [])
    else foreachLoop ht tbl ht.size 0 0 []

end Ct.Ccutils.Utable
