import Ct.Ccutils.UfileScan

set_option autoImplicit false

namespace Ct.Ccutils.Ufile

open Ct.Lib

universe u

variable {σ : Type u}

namespace Listing

/-- The entries below `path` are what the file system shows there; `opendir` fails for exactly
the directories in `fails`. Nothing is asked of hidden entries and of what is below a failing
directory. -/
def Shown (env : Env) (fails : CString → Bool) (path : CString) : Listing → Prop
  | nil => True
  | file name rest =>
    (hidden name = false → env.stat (curPath path name) = some false) ∧
    rest.Shown env fails path
  | dir name children rest =>
    (hidden name = false →
      env.stat (curPath path name) = some true ∧
      if fails (curPath path name) then env.opendir (curPath path name) = none
      else
        env.opendir (curPath path name) = some children.names ∧
        children.Shown env fails (curPath path name)) ∧
    rest.Shown env fails path

/-- The paths of the visible files that are not below a failing directory. -/
def readable (fails : CString → Bool) (path : CString) : Listing → List CString
  | nil => []
  | file name rest =>
    if hidden name then rest.readable fails path
    else curPath path name :: rest.readable fails path
  | dir name children rest =>
    if hidden name || fails (curPath path name) then rest.readable fails path
    else children.readable fails (curPath path name) ++ rest.readable fails path

/-- No visible directory fails, and every path the scan writes fits `cur`. -/
def AllOpen (fails : CString → Bool) (path : CString) : Listing → Prop
  | nil => True
  | file name rest =>
    (hidden name = false → (curPath path name).length < pathSize) ∧ rest.AllOpen fails path
  | dir name children rest =>
    (hidden name = false →
      (curPath path name).length < pathSize ∧ fails (curPath path name) = false ∧
      children.AllOpen fails (curPath path name)) ∧
    rest.AllOpen fails path

theorem below_of_open {env : Env} {fails : CString → Bool} (listing : Listing) :
    ∀ path, listing.Shown env fails path → listing.AllOpen fails path →
      listing.Below env path := by
  induction listing with
  | nil =>
    intro path _ _
    trivial
  | file name rest ih =>
    intro path ⟨shown, shownRest⟩ ⟨fits, openRest⟩
    exact ⟨fun visible => ⟨fits visible, shown visible⟩, ih path shownRest openRest⟩
  | dir name children rest ihChildren ihRest =>
    intro path ⟨shown, shownRest⟩ ⟨opens, openRest⟩
    refine ⟨fun visible => ?_, ihRest path shownRest openRest⟩
    obtain ⟨fits, works, inside⟩ := opens visible
    have ⟨isDir, entries⟩ := shown visible
    simp only [works, Bool.false_eq_true, ↓reduceIte] at entries
    exact ⟨fits, isDir, entries.1, ihChildren _ entries.2 inside⟩

theorem readable_of_open {fails : CString → Bool} (listing : Listing) :
    ∀ path, listing.AllOpen fails path → listing.readable fails path = listing.visible path := by
  induction listing with
  | nil =>
    intro path _
    rfl
  | file name rest ih =>
    intro path opens
    have openRest := opens.2
    simp only [readable, visible, ih path openRest]
  | dir name children rest ihChildren ihRest =>
    rintro path ⟨opens, openRest⟩
    cases hid : hidden name with
    | true => simp [readable, visible, hid, ihRest path openRest]
    | false =>
      obtain ⟨_, works, inside⟩ := opens hid
      simp [readable, visible, hid, works, ihRest path openRest, ihChildren _ inside]

end Listing

theorem newDirNode_fails {env : Env} {path : CString} (allocates : env.Allocates)
    (unreadable : env.opendir path = none) (state : Scan σ) :
    newDirNode env path state =
      ({ state with
        nodes := state.nodes + 1
        allocated := state.allocated ++ [state.nodes]
        freed := state.freed ++ [state.nodes] }, none) := by
  simp [newDirNode, allocates.malloc, allocates.strdup, unreadable]

/-- A path that does not fit overflows `cur`. -/
theorem readLoop_overflows {env : Env} {doEach : CString → σ → σ} {path name : CString}
    (names : List CString) (state : Scan σ) (visible : hidden name = false)
    (long : ¬ (curPath path name).length < pathSize) :
    readLoop env doEach path (name :: names) state = .error .outOfBounds := by
  simp [readLoop, visible, Nat.not_lt.mp long]

theorem scanLoop_overflows {env : Env} {doEach : CString → σ → σ} {d fuel : Nat}
    {path name : CString} {names : List CString} {prev : List DirNode} {state final : Scan σ}
    (visible : hidden name = false) (long : ¬ (curPath path name).length < pathSize) :
    scanLoop env doEach fuel (⟨d, name :: names, path⟩ :: prev) state ≠ .ok final := by
  cases fuel with
  | zero => simp [scanLoop]
  | succ fuel => simp [scanLoop, readLoop_overflows names state visible long]

theorem scanLoop_null {env : Env} {doEach : CString → σ → σ} {fuel : Nat} {state final : Scan σ}
    (run : scanLoop env doEach fuel [] state = .ok final) : final = state := by
  cases fuel with
  | zero => simp [scanLoop] at run
  | succ fuel => exact (Except.ok.inj run).symm

/-- From a stream that meets an unreadable directory the scan, where it ends at all, leaves a
stream open: that directory's failed push drops the whole stack. -/
theorem scanLoop_leaks {env : Env} {fails : CString → Bool} (allocates : env.Allocates)
    (doEach : CString → σ → σ) (listing : Listing) :
    ∀ (d : Nat) (path : CString) (prev : List DirNode) (state : Scan σ) (suspended : List Nat)
      (fuel : Nat) (final : Scan σ),
      listing.Shown env fails path → ¬ listing.AllOpen fails path →
      Balanced state (d :: suspended) →
      scanLoop env doEach (listing.turns + fuel) (⟨d, listing.names, path⟩ :: prev) state =
        .ok final →
      final.closed.length < final.opened.length := by
  induction listing with
  | nil =>
    intro d path prev state suspended fuel final _ blocked
    exact absurd trivial blocked
  | file name rest ih =>
    rintro d path prev state suspended fuel final ⟨shown, shownRest⟩ blocked balanced run
    cases hid : hidden name with
    | true =>
      have later : ¬ rest.AllOpen fails path := fun openRest =>
        blocked ⟨fun visible => absurd (hid.symm.trans visible) (by decide), openRest⟩
      simp only [Listing.turns, Listing.names] at run
      rw [scanLoop_passes rest prev (readLoop_hidden hid)] at run
      exact ih d path prev state suspended fuel final shownRest later balanced run
    | false =>
      simp only [Listing.turns, Listing.names] at run
      by_cases fits : (curPath path name).length < pathSize
      · have later : ¬ rest.AllOpen fails path := fun openRest =>
          blocked ⟨fun _ => fits, openRest⟩
        have called := readLoop_calls doEach rest.names state hid fits (shown hid)
        rw [scanLoop_passes rest prev called] at run
        exact ih d path prev _ suspended fuel final shownRest later (balanced.call _ _) run
      · exact absurd run (scanLoop_overflows hid fits)
  | dir name children rest ihChildren ihRest =>
    rintro d path prev state suspended fuel final ⟨shown, shownRest⟩ blocked balanced run
    cases hid : hidden name with
    | true =>
      have later : ¬ rest.AllOpen fails path := fun openRest =>
        blocked ⟨fun visible => absurd (hid.symm.trans visible) (by decide), openRest⟩
      simp only [Listing.turns, Listing.names, hid, ↓reduceIte] at run
      rw [scanLoop_passes rest prev (readLoop_hidden hid)] at run
      exact ihRest d path prev state suspended fuel final shownRest later balanced run
    | false =>
      obtain ⟨isDir, entries⟩ := shown hid
      simp only [Listing.turns, Listing.names, hid, Bool.false_eq_true, ↓reduceIte] at run
      rw [show 1 + children.turns + rest.turns + fuel =
        children.turns + (rest.turns + fuel) + 1 by omega] at run
      by_cases fits : (curPath path name).length < pathSize
      · have descended := readLoop_descends doEach rest.names state hid fits isDir
        cases works : fails (curPath path name) with
        | true =>
          simp only [works, ↓reduceIte] at entries
          simp only [scanLoop, descended, newDirNode_fails allocates entries] at run
          -- the pushed node is null, which ends the outer loop with the stack still open
          have stopped := scanLoop_null run
          have streams := balanced.streams.length_eq
          simp only [List.length_append, List.length_cons] at streams
          rw [stopped]
          show state.closed.length < state.opened.length
          omega
        | false =>
          simp only [works, Bool.false_eq_true, ↓reduceIte] at entries
          have pushed := newDirNode_opens allocates entries.1 state
          simp only [scanLoop, descended, pushed] at run
          have balancedChild := balanced.push
          by_cases inside : children.AllOpen fails (curPath path name)
          · have later : ¬ rest.AllOpen fails path := fun openRest =>
              blocked ⟨fun _ => ⟨fits, works, inside⟩, openRest⟩
            have belowChild := children.below_of_open _ entries.2 inside
            rw [scanLoop_top allocates children _ _ _ _ _ belowChild] at run
            have resumed := scan_balanced doEach children _ (curPath path name) _ _ balancedChild
            exact ihRest d path prev _ suspended fuel final shownRest later resumed run
          · exact ihChildren _ _ _ _ _ _ final entries.2 inside balancedChild run
      · exact absurd run (scanLoop_overflows hid fits)

/-- `dir_scan` returns, has called `do_each` once for every visible file that is not below a
failing directory, and has closed every stream and released every node. -/
def Survives (env : Env) (doEach : CString → σ → σ) (fails : CString → Bool) (root : CString)
    (listing : Listing) (user : σ) : Prop :=
  ∃ enough, ∀ fuel, enough ≤ fuel → ∃ count final,
    dirScan env doEach fuel root user = .ok (count, final) ∧
    final.calls.Perm (listing.readable fails root) ∧
    final.closed.Perm final.opened ∧ final.freed.Perm final.allocated

theorem survives_of_open {env : Env} (allocates : env.Allocates) (doEach : CString → σ → σ)
    {fails : CString → Bool} {root : CString} {listing : Listing}
    (opens : env.opendir root = some listing.names) (shown : listing.Shown env fails root)
    (user : σ) (allOpen : listing.AllOpen fails root) :
    Survives env doEach fails root listing user := by
  have below := listing.below_of_open root shown allOpen
  have balanced := scan_balanced doEach listing 0 root (scanStart user) [] (scanStart_balanced user)
  refine ⟨listing.turns + 1, fun fuel enough =>
    ⟨0, _, dirScan_spec allocates doEach opens below user enough, ?_, ?_, ?_⟩⟩
  · rw [listing.scan_calls, listing.readable_of_open root allOpen]
    exact List.Perm.refl _
  · simpa only [List.append_nil] using balanced.streams
  · rw [balanced.freed, balanced.allocated]
    simpa only [List.append_nil] using balanced.streams

/-- One unreadable directory below the root, or one path too long for `cur`, is all it takes. -/
theorem survives_unreadable_iff (env : Env) (allocates : env.Allocates) (doEach : CString → σ → σ)
    (fails : CString → Bool) (root : CString) (listing : Listing)
    (opens : env.opendir root = some listing.names) (shown : listing.Shown env fails root)
    (user : σ) :
    Survives env doEach fails root listing user ↔ listing.AllOpen fails root := by
  constructor
  · intro ⟨enough, survives⟩
    apply Classical.byContradiction
    intro blocked
    obtain ⟨count, final, run, _, closed, _⟩ := survives (listing.turns + enough) (by omega)
    rw [dirScan_root allocates opens] at run
    cases walked : scanLoop env doEach (listing.turns + enough) [⟨0, listing.names, root⟩]
        (scanStart user) with
    | error fault => simp [walked, Except.map] at run
    | ok last =>
      have leaks := scanLoop_leaks allocates doEach listing 0 root [] (scanStart user) [] enough
        last shown blocked (scanStart_balanced user) walked
      simp only [walked, Except.map, Except.ok.injEq, Prod.mk.injEq] at run
      rw [run.2] at leaks
      exact absurd closed.length_eq (Nat.ne_of_lt leaks)
  · exact survives_of_open allocates doEach opens shown user

/-- A readable directory with a file, between two files of the root. -/
theorem survives_readable_directory :
    Survives
      { stat := fun path => some (path == ['r', '/', 's'])
        opendir := fun path =>
          if path = ['r'] then some [['a'], ['s'], ['c']]
          else if path = ['r', '/', 's'] then some [['b']] else none
        malloc := fun _ => true
        strdup := fun _ => true }
      (fun name names => names ++ [name]) (fun _ => false) ['r']
      (.file ['a'] (.dir ['s'] (.file ['b'] .nil) (.file ['c'] .nil))) [] := by
  apply (survives_unreadable_iff _ ⟨fun _ => rfl, fun _ => rfl⟩ _ _ _ _ ?_ ?_ _).mpr
  · refine ⟨fun _ => by decide, fun _ => ⟨by decide, rfl, fun _ => by decide, trivial⟩,
      fun _ => by decide, trivial⟩
  · decide
  · exact ⟨fun _ => by decide, fun _ => ⟨by decide, by decide, fun _ => by decide, trivial⟩,
      fun _ => by decide, trivial⟩

/-- An unreadable directory comes before the only file of the root: the file is never reported
and the root stays open. -/
theorem unreadable_directory_leaks :
    ∃ env : Env, env.Allocates ∧ env.opendir ['r'] = some [['s'], ['a']] ∧
      (Listing.dir ['s'] .nil (.file ['a'] .nil)).Shown env (fun path => path == ['r', '/', 's'])
        ['r'] ∧
      ¬ Survives env (fun name names => names ++ [name]) (fun path => path == ['r', '/', 's'])
        ['r'] (.dir ['s'] .nil (.file ['a'] .nil)) ([] : List CString) := by
  refine ⟨{ stat := fun path => some (path == ['r', '/', 's'])
            opendir := fun path => if path = ['r'] then some [['s'], ['a']] else none
            malloc := fun _ => true
            strdup := fun _ => true }, ⟨fun _ => rfl, fun _ => rfl⟩, by decide, ?_, ?_⟩
  · exact ⟨fun _ => ⟨by decide, by simp [curPath]⟩, fun _ => by decide, trivial⟩
  · intro ⟨enough, survives⟩
    obtain ⟨count, final, run, calls, closed, _⟩ := survives (enough + 2) (by omega)
    have lost : (0, ⟨[], [], 2, [0, 1], [1], [0], []⟩) = (count, final) := Except.ok.inj run
    rw [← (Prod.mk.inj lost).2] at closed
    exact absurd closed.length_eq (by decide)

end Ct.Ccutils.Ufile
