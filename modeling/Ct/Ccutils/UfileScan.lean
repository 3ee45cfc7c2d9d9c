import Ct.Ccutils.Ufile
import Mathlib.Data.List.Perm.Basic

set_option autoImplicit false

namespace Ct.Ccutils.Ufile

open Ct.Lib

universe u

variable {σ : Type u}

/-- What is still to be read of a directory: its entries in the order of `readdir`, those of its
subdirectories below them. -/
inductive Listing
  | nil
  | file (name : CString) (rest : Listing)
  | dir (name : CString) (children rest : Listing)

namespace Listing

/-- The names a stream over the directory delivers. -/
def names : Listing → List CString
  | nil => []
  | file name rest => name :: rest.names
  | dir name _ rest => name :: rest.names

/-- The paths of the visible files, depth first, each directory resumed after the entry that was
descended into. -/
def visible (path : CString) : Listing → List CString
  | nil => []
  | file name rest =>
    if hidden name then rest.visible path else curPath path name :: rest.visible path
  | dir name children rest =>
    if hidden name then rest.visible path
    else children.visible (curPath path name) ++ rest.visible path

/-- The names `do_each` is given for them. -/
def visibleNames : Listing → List CString
  | nil => []
  | file name rest => if hidden name then rest.visibleNames else name :: rest.visibleNames
  | dir name children rest =>
    if hidden name then rest.visibleNames else children.visibleNames ++ rest.visibleNames

/-- The entries below `path` are what the file system shows there, and their paths fit the
buffer; nothing is asked of hidden entries. -/
def Below (env : Env) (path : CString) : Listing → Prop
  | nil => True
  | file name rest =>
    (hidden name = false →
      (curPath path name).length < pathSize ∧ env.stat (curPath path name) = some false) ∧
    rest.Below env path
  | dir name children rest =>
    (hidden name = false →
      (curPath path name).length < pathSize ∧ env.stat (curPath path name) = some true ∧
      env.opendir (curPath path name) = some children.names ∧
      children.Below env (curPath path name)) ∧
    rest.Below env path

/-- Turns of the outer loop that a stream with these entries takes. -/
def turns : Listing → Nat
  | nil => 1
  | file _ rest => rest.turns
  | dir name children rest =>
    if hidden name then rest.turns else 1 + children.turns + rest.turns

/-- The scan of a directory by recursion over its entries: what the loops of `dir_scan` do with
a stack. -/
def scan (doEach : CString → σ → σ) (d : Nat) (path : CString) : Listing → Scan σ → Scan σ
  | nil, state => putDirNode ⟨d, [], path⟩ state
  | file name rest, state =>
    if hidden name then rest.scan doEach d path state
    else
      rest.scan doEach d path
        { state with
          user := doEach name state.user
          calls := state.calls ++ [curPath path name] }
  | dir name children rest, state =>
    if hidden name then rest.scan doEach d path state
    else
      let opened := { state with
        nodes := state.nodes + 1
        allocated := state.allocated ++ [state.nodes]
        opened := state.opened ++ [state.nodes] }
      rest.scan doEach d path (children.scan doEach state.nodes (curPath path name) opened)

theorem turns_pos (listing : Listing) : 0 < listing.turns := by
  induction listing with
  | nil => exact Nat.zero_lt_one
  | file _ rest ih => exact ih
  | dir name children rest _ ih =>
    simp only [turns]
    split <;> omega

end Listing

/-- Every allocation of the scan succeeds. -/
structure Env.Allocates (env : Env) : Prop where
  malloc : ∀ k, env.malloc k = true
  strdup : ∀ k, env.strdup k = true

theorem newDirNode_opens {env : Env} {path : CString} {names : List CString}
    (allocates : env.Allocates) (opens : env.opendir path = some names) (state : Scan σ) :
    newDirNode env path state =
      ({ state with
        nodes := state.nodes + 1
        allocated := state.allocated ++ [state.nodes]
        opened := state.opened ++ [state.nodes] }, some ⟨state.nodes, names, path⟩) := by
  simp [newDirNode, allocates.malloc, allocates.strdup, opens]

theorem readLoop_hidden {env : Env} {doEach : CString → σ → σ} {path name : CString}
    {names : List CString} {state : Scan σ} (hid : hidden name = true) :
    readLoop env doEach path (name :: names) state = readLoop env doEach path names state := by
  simp only [readLoop, hid, ↓reduceIte]

theorem readLoop_calls {env : Env} {path name : CString} (doEach : CString → σ → σ)
    (names : List CString) (state : Scan σ) (visible : hidden name = false)
    (fits : (curPath path name).length < pathSize)
    (isFile : env.stat (curPath path name) = some false) :
    readLoop env doEach path (name :: names) state =
      readLoop env doEach path names
        { state with
          user := doEach name state.user
          calls := state.calls ++ [curPath path name] } := by
  simp [readLoop, visible, Nat.not_le.mpr fits, fileType, isFile]

theorem readLoop_descends {env : Env} {path name : CString} (doEach : CString → σ → σ)
    (names : List CString) (state : Scan σ) (visible : hidden name = false)
    (fits : (curPath path name).length < pathSize)
    (isDir : env.stat (curPath path name) = some true) :
    readLoop env doEach path (name :: names) state =
      .ok (state, names, some (curPath path name)) := by
  simp [readLoop, visible, Nat.not_le.mpr fits, fileType, isDir]

/-- A turn depends on the stream through what the inner loop makes of it. -/
theorem scanLoop_passes {env : Env} {doEach : CString → σ → σ} {d fuel : Nat} {path : CString}
    {names : List CString} {before after : Scan σ} (rest : Listing) (prev : List DirNode)
    (same : readLoop env doEach path names before =
      readLoop env doEach path rest.names after) :
    scanLoop env doEach (rest.turns + fuel) (⟨d, names, path⟩ :: prev) before =
      scanLoop env doEach (rest.turns + fuel) (⟨d, rest.names, path⟩ :: prev) after := by
  obtain ⟨turn, more⟩ : ∃ turn, rest.turns + fuel = turn + 1 := by
    have positive := rest.turns_pos
    exact ⟨rest.turns + fuel - 1, by omega⟩
  rw [more]
  simp only [scanLoop, same]

/-- The loops with their stack compute the recursive scan of the stream on top, and go on with
the stream below it. -/
theorem scanLoop_top {env : Env} {doEach : CString → σ → σ} (allocates : env.Allocates)
    (listing : Listing) :
    ∀ (d : Nat) (path : CString) (prev : List DirNode) (state : Scan σ) (fuel : Nat),
      listing.Below env path →
      scanLoop env doEach (listing.turns + fuel) (⟨d, listing.names, path⟩ :: prev) state =
        scanLoop env doEach fuel prev (listing.scan doEach d path state) := by
  induction listing with
  | nil =>
    intro d path prev state fuel _
    rw [Listing.turns, Nat.add_comm]
    rfl
  | file name rest ih =>
    intro d path prev state fuel ⟨shown, below⟩
    cases hid : hidden name with
    | true =>
      simp only [Listing.turns, Listing.names, Listing.scan, hid, ↓reduceIte]
      rw [scanLoop_passes rest prev (readLoop_hidden hid)]
      exact ih d path prev state fuel below
    | false =>
      obtain ⟨fits, isFile⟩ := shown hid
      have called := readLoop_calls doEach rest.names state hid fits isFile
      simp only [Listing.turns, Listing.names, Listing.scan, hid, Bool.false_eq_true, ↓reduceIte]
      rw [scanLoop_passes rest prev called]
      exact ih d path prev _ fuel below
  | dir name children rest ihChildren ihRest =>
    intro d path prev state fuel ⟨shown, below⟩
    cases hid : hidden name with
    | true =>
      simp only [Listing.turns, Listing.names, Listing.scan, hid, ↓reduceIte]
      rw [scanLoop_passes rest prev (readLoop_hidden hid)]
      exact ihRest d path prev state fuel below
    | false =>
      obtain ⟨fits, isDir, opens, inside⟩ := shown hid
      -- the subdirectory is pushed, read to its end, and the stream below it resumed
      have descended := readLoop_descends doEach rest.names state hid fits isDir
      have pushed := newDirNode_opens allocates opens state
      simp only [Listing.turns, Listing.names, Listing.scan, hid, Bool.false_eq_true, ↓reduceIte]
      rw [show 1 + children.turns + rest.turns + fuel =
        children.turns + (rest.turns + fuel) + 1 by omega]
      simp only [scanLoop, descended, pushed]
      rw [ihChildren _ _ _ _ _ inside, ihRest d path prev _ fuel below]

namespace Listing

variable (doEach : CString → σ → σ)

theorem scan_calls (listing : Listing) : ∀ (d : Nat) (path : CString) (state : Scan σ),
    (listing.scan doEach d path state).calls = state.calls ++ listing.visible path := by
  induction listing with
  | nil =>
    intro d path state
    simp [scan, visible, putDirNode]
  | file name rest ih =>
    intro d path state
    simp only [scan, visible]
    split <;> simp [ih]
  | dir name children rest ihChildren ihRest =>
    intro d path state
    simp only [scan, visible]
    split <;> simp [ihChildren, ihRest]

theorem scan_user (listing : Listing) : ∀ (d : Nat) (path : CString) (state : Scan σ),
    (listing.scan doEach d path state).user =
      listing.visibleNames.foldl (fun user name => doEach name user) state.user := by
  induction listing with
  | nil =>
    intro d path state
    rfl
  | file name rest ih =>
    intro d path state
    simp only [scan, visibleNames]
    split <;> simp [ih]
  | dir name children rest ihChildren ihRest =>
    intro d path state
    simp only [scan, visibleNames]
    split <;> simp [ihChildren, ihRest]

end Listing

/-- The streams given back and the suspended ones are those opened; a node lives as long as
its stream. -/
structure Balanced (state : Scan σ) (suspended : List Nat) : Prop where
  streams : (state.closed ++ suspended).Perm state.opened
  numbered : state.opened = List.range state.nodes
  allocated : state.allocated = state.opened
  freed : state.freed = state.closed

theorem Balanced.push {state : Scan σ} {suspended : List Nat} (balanced : Balanced state suspended) :
    Balanced
      { state with
        nodes := state.nodes + 1
        allocated := state.allocated ++ [state.nodes]
        opened := state.opened ++ [state.nodes] }
      (state.nodes :: suspended) := by
  refine ⟨?_, ?_, ?_, balanced.freed⟩
  · exact List.perm_middle.trans
      ((balanced.streams.cons state.nodes).trans (List.perm_append_singleton _ _).symm)
  · rw [List.range_succ, ← balanced.numbered]
  · rw [balanced.allocated]

theorem Balanced.call {state : Scan σ} {suspended : List Nat} (balanced : Balanced state suspended)
    (user : σ) (calls : List CString) :
    Balanced { state with user := user, calls := calls } suspended :=
  ⟨balanced.streams, balanced.numbered, balanced.allocated, balanced.freed⟩

theorem scan_balanced (doEach : CString → σ → σ) (listing : Listing) :
    ∀ (d : Nat) (path : CString) (state : Scan σ) (suspended : List Nat),
      Balanced state (d :: suspended) →
      Balanced (listing.scan doEach d path state) suspended := by
  induction listing with
  | nil =>
    intro d path state suspended ⟨streams, numbered, allocated, freed⟩
    refine ⟨?_, numbered, allocated, ?_⟩
    · simpa only [Listing.scan, putDirNode, List.append_assoc, List.singleton_append] using streams
    · simp only [Listing.scan, putDirNode, freed]
  | file name rest ih =>
    intro d path state suspended balanced
    simp only [Listing.scan]
    split
    · exact ih d path state suspended balanced
    · exact ih d path _ suspended (balanced.call _ _)
  | dir name children rest ihChildren ihRest =>
    intro d path state suspended balanced
    simp only [Listing.scan]
    split
    · exact ihRest d path state suspended balanced
    · apply ihRest
      apply ihChildren
      exact balanced.push

/-- The state a scan starts its loops with: the root is opened. -/
def scanStart (user : σ) : Scan σ := ⟨user, [], 1, [0], [], [0], []⟩

theorem scanStart_balanced (user : σ) : Balanced (scanStart user) [0] :=
  ⟨List.Perm.refl _, rfl, rfl, rfl⟩

theorem dirScan_root {env : Env} (allocates : env.Allocates) {root : CString} {names : List CString}
    (opens : env.opendir root = some names) (doEach : CString → σ → σ) (fuel : Nat) (user : σ) :
    dirScan env doEach fuel root user =
      (scanLoop env doEach fuel [⟨0, names, root⟩] (scanStart user)).map fun final => (0, final) := by
  have pushed : newDirNode env root (⟨user, [], 0, [], [], [], []⟩ : Scan σ) =
      (scanStart user, some ⟨0, names, root⟩) :=
    newDirNode_opens allocates opens _
  simp only [dirScan, pushed, Option.toList_some]
  cases scanLoop env doEach fuel [⟨0, names, root⟩] (scanStart user) <;> rfl

/-- `dir_scan` computes the recursive scan of the root. -/
theorem dirScan_spec {env : Env} (allocates : env.Allocates) (doEach : CString → σ → σ)
    {root : CString} {listing : Listing} (opens : env.opendir root = some listing.names)
    (below : listing.Below env root) (user : σ) {fuel : Nat} (enough : listing.turns + 1 ≤ fuel) :
    dirScan env doEach fuel root user =
      .ok (0, listing.scan doEach 0 root (scanStart user)) := by
  have walked : scanLoop env doEach fuel [⟨0, listing.names, root⟩] (scanStart user) =
      .ok (listing.scan doEach 0 root (scanStart user)) := by
    obtain ⟨left, rfl⟩ : ∃ left, fuel = listing.turns + (left + 1) :=
      ⟨fuel - listing.turns - 1, by omega⟩
    rw [scanLoop_top allocates listing 0 root [] (scanStart user) (left + 1) below]
    rfl
  rw [dirScan_root allocates opens, walked]
  rfl

/-- `dir_scan` terminates, calls `do_each` for the visible files in depth-first order and for
nothing else, and has closed every directory it opened. -/
theorem dir_scan_exact (env : Env) (allocates : env.Allocates) (doEach : CString → σ → σ)
    (root : CString) (listing : Listing) (opens : env.opendir root = some listing.names)
    (below : listing.Below env root) (user : σ) :
    ∃ enough, ∀ fuel, enough ≤ fuel → ∃ final,
      dirScan env doEach fuel root user = .ok (0, final) ∧
      final.calls = listing.visible root ∧
      final.user = listing.visibleNames.foldl (fun user name => doEach name user) user ∧
      final.opened.Nodup ∧ final.closed.Perm final.opened ∧
      final.allocated = final.opened ∧ final.freed = final.closed := by
  have final := scan_balanced doEach listing 0 root (scanStart user) [] (scanStart_balanced user)
  refine ⟨listing.turns + 1, fun fuel enough => ⟨_, dirScan_spec allocates doEach opens below user
    enough, ?_, ?_, ?_, ?_, final.allocated, final.freed⟩⟩
  · rw [listing.scan_calls]
    rfl
  · exact listing.scan_user doEach 0 root (scanStart user)
  · rw [final.numbered]
    exact List.nodup_range
  · simpa only [List.append_nil] using final.streams

/-- A directory with a hidden entry, a file, a subdirectory with a file, and a last file. -/
theorem dir_scan_exact_small :
    ∃ enough, ∀ fuel, enough ≤ fuel → ∃ final,
      dirScan
        { stat := fun path => some (path == ['r', '/', 's'])
          opendir := fun path =>
            if path = ['r'] then some [['.'], ['a'], ['s'], ['c']]
            else if path = ['r', '/', 's'] then some [['b']] else none
          malloc := fun _ => true
          strdup := fun _ => true }
        (fun name names => names ++ [name]) fuel ['r'] [] = .ok (0, final) ∧
      final.calls = [['r', '/', 'a'], ['r', '/', 's', '/', 'b'], ['r', '/', 'c']] ∧
      final.user = [['a'], ['b'], ['c']] := by
  obtain ⟨enough, works⟩ := dir_scan_exact
    { stat := fun path => some (path == ['r', '/', 's'])
      opendir := fun path =>
        if path = ['r'] then some [['.'], ['a'], ['s'], ['c']]
        else if path = ['r', '/', 's'] then some [['b']] else none
      malloc := fun _ => true
      strdup := fun _ => true }
    ⟨fun _ => rfl, fun _ => rfl⟩ (fun name names => names ++ [name]) ['r']
    (.file ['.'] (.file ['a'] (.dir ['s'] (.file ['b'] .nil) (.file ['c'] .nil))))
    (by decide) (by
      refine ⟨fun shown => absurd shown (by decide), fun _ => ⟨by decide, by decide⟩,
        fun _ => ⟨by decide, by decide, by decide, fun _ => ⟨by decide, by decide⟩, trivial⟩,
        fun _ => ⟨by decide, by decide⟩, trivial⟩) []
  refine ⟨enough, fun fuel le => ?_⟩
  obtain ⟨final, run, calls, user, _⟩ := works fuel le
  exact ⟨final, run, calls, user⟩

end Ct.Ccutils.Ufile
