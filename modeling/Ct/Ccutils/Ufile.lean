import Ct.Lib.CString
import Ct.Lib.Fault
import Mathlib.Data.List.Basic

set_option autoImplicit false

namespace Ct.Ccutils.Ufile

open Ct.Lib

universe u

/-- The file system and the allocator as one scan meets them: what `stat` and `opendir` answer
for a path, and whether the allocations of the `k`th `new_dir_node` succeed. -/
structure Env where
  /-- `S_ISDIR` of the mode, or `none` where `stat` fails -/
  stat : CString → Option Bool
  /-- the names that `readdir` delivers, or `none` where `opendir` fails -/
  opendir : CString → Option (List CString)
  malloc : Nat → Bool
  strdup : Nat → Bool

def fileType (env : Env) (path : CString) : Int :=
  match env.stat path with
  | none => -1
  | some true => 0
  | some false => 1

/-- `struct dir_node`: `d` is the stream, with the names still to be read from it. The `prev`
links are the order of the nodes on the stack. -/
structure DirNode where
  d : Nat
  rest : List CString
  path : CString

/-- The state of the callback, the value of `cur` at every call of it, and the blocks and
streams handed out and given back so far. -/
structure Scan (σ : Type u) where
  user : σ
  calls : List CString
  nodes : Nat
  allocated : List Nat
  freed : List Nat
  opened : List Nat
  closed : List Nat

variable {σ : Type u}

def newDirNode (env : Env) (path : CString) (scan : Scan σ) : Scan σ × Option DirNode :=
  let id := scan.nodes
  let counted := { scan with nodes := id + 1 }
  if !env.malloc id then (counted, none)
  else
    let allocated := { counted with allocated := scan.allocated ++ [id] }
    if !env.strdup id then ({ allocated with freed := scan.freed ++ [id] }, none)
    else
      match env.opendir path with
      | none => ({ allocated with freed := scan.freed ++ [id] }, none)
      | some names => ({ allocated with opened := scan.opened ++ [id] }, some ⟨id, names, path⟩)

/-- `put_dir_node` of the top of the stack; the node below it becomes `dnode`. -/
def putDirNode (node : DirNode) (scan : Scan σ) : Scan σ :=
  { scan with closed := scan.closed ++ [node.d], freed := scan.freed ++ [node.d] }

def hidden (name : CString) : Bool := name.head? == some '.'

def pathSize : Nat := 1024

/-- `sprintf(cur, "%s/%s", dnode->path, dir->d_name)`. -/
def curPath (path name : CString) : CString := path ++ '/' :: name

/-- The inner loop of `dir_scan`: read entries up to a subdirectory or the end of the stream.
The result carries the rest of the stream and, unless `dir` is null, `cur`. -/
def readLoop (env : Env) (doEach : CString → σ → σ) (path : CString) :
    List CString → Scan σ → Except Fault (Scan σ × List CString × Option CString)
  | [], scan => .ok (scan, [], none)
  | name :: rest, scan =>
    if hidden name then readLoop env doEach path rest scan
    else
      let cur := curPath path name
      if cur.length ≥ pathSize then .error .outOfBounds
      else if fileType env cur = 0 then .ok (scan, rest, some cur)
      else
        readLoop env doEach path rest
          { scan with user := doEach name scan.user, calls := scan.calls ++ [cur] }

/-- The outer loop of `dir_scan`; the top of the stack is `dnode`. -/
def scanLoop (env : Env) (doEach : CString → σ → σ) :
    Nat → List DirNode → Scan σ → Except Fault (Scan σ)
  | 0, _, _ => .error .outOfFuel
  | _ + 1, [], scan => .ok scan
  | fuel + 1, dnode :: prev, scan =>
    match readLoop env doEach dnode.path dnode.rest scan with
    | .error fault => .error fault
    | .ok (after, rest, none) =>
      scanLoop env doEach fuel prev (putDirNode { dnode with rest := rest } after)
    | .ok (after, rest, some cur) =>
      match newDirNode env cur after with
      | (opened, none) => scanLoop env doEach fuel [] opened
      | (opened, some node) =>
        scanLoop env doEach fuel (node :: { dnode with rest := rest } :: prev) opened

/-- `dir_scan`; `count` is never changed. -/
def dirScan (env : Env) (doEach : CString → σ → σ) (fuel : Nat) (root : CString) (user : σ) :
    Except Fault (Int × Scan σ) :=
  let start : Scan σ := ⟨user, [], 0, [], [], [], []⟩
  let count : Int := 0
  let (scan, dnode) := newDirNode env root start
  match scanLoop env doEach fuel dnode.toList scan with
  | .error fault => .error fault
  | .ok final => .ok (count, final)

end Ct.Ccutils.Ufile
