import Ct.Flex.Symbol
import Mathlib.Data.Finset.Card
import Mathlib.Data.Finset.Range
import Mathlib.Data.Finset.Lattice.Lemmas

set_option autoImplicit false

namespace Ct.Flex

open Ct.Lib

def nameAt (symtab : List Symbol) (i : Nat) : Option CString := symtab[i]?.bind Symbol.name

def listAt (symtab : List Symbol) (i : Nat) : List Ref := (symtab[i]?.map Symbol.list).getD []

/-- The first `k` slots that are looked at for this name hold other names. -/
def Passed (symtab : List Symbol) (name : CString) (k : Nat) : Prop :=
  ∀ j, j < k → ∃ other, nameAt symtab (slotAt hashTableLength (symhash name) j) = some other ∧
    other ≠ name

/-- The name is in the slot that is looked at after `k` others. -/
def ReachedAt (symtab : List Symbol) (name : CString) (k : Nat) : Prop :=
  k < hashTableLength ∧ Passed symtab name k ∧
    nameAt symtab (slotAt hashTableLength (symhash name) k) = some name

theorem symhash_lt (name : CString) : symhash name < hashTableLength :=
  Nat.mod_lt _ (by decide)

/-- What `lookup` finds, where every slot before is taken by another name. -/
theorem lookupLoop_cases (heap : Heap) {name : CString} {symtab : List Symbol}
    (sized : symtab.length = hashTableLength) (scnt : Nat) :
    ∀ {k : Nat}, k + scnt = hashTableLength → Passed symtab name k →
      (∃ m, ReachedAt symtab name m ∧
        lookupLoop heap name scnt (slotAt hashTableLength (symhash name) k) symtab k =
          (m + 1, .ok (slotAt hashTableLength (symhash name) m, symtab))) ∨
      (∃ m, m < hashTableLength ∧ Passed symtab name m ∧
        nameAt symtab (slotAt hashTableLength (symhash name) m) = none ∧
        lookupLoop heap name scnt (slotAt hashTableLength (symhash name) k) symtab k =
          (m + 1, .ok (slotAt hashTableLength (symhash name) m,
            symtab.set (slotAt hashTableLength (symhash name) m)
              ⟨if heap.strdup then some name else none, []⟩))) ∨
      (Passed symtab name hashTableLength ∧
        lookupLoop heap name scnt (slotAt hashTableLength (symhash name) k) symtab k =
          (hashTableLength, .error .abort)) := by
  have start := symhash_lt name
  induction scnt with
  | zero =>
    intro k total passed
    rw [Nat.add_zero] at total
    subst total
    exact Or.inr (Or.inr ⟨passed, rfl⟩)
  | succ scnt ih =>
    intro k total passed
    have inside : slotAt hashTableLength (symhash name) k < symtab.length := by
      rw [sized]
      exact slotAt_lt start k
    have here := List.getElem?_eq_getElem inside
    generalize symtab[slotAt hashTableLength (symhash name) k] = symbol at here
    have named : nameAt symtab (slotAt hashTableLength (symhash name) k) = symbol.name := by
      rw [nameAt, here, Option.bind_some]
    simp only [lookupLoop, here, slotAt_wrap start]
    by_cases same : symbol.name = some name
    · rw [if_pos same]
      exact Or.inl ⟨k, ⟨by omega, passed, by rw [named, same]⟩, rfl⟩
    · rw [if_neg same]
      by_cases free : symbol.name = none
      · rw [if_pos free]
        exact Or.inr (Or.inl ⟨k, by omega, passed, by rw [named, free], rfl⟩)
      · rw [if_neg free]
        apply ih (by omega)
        intro j before
        by_cases last : j = k
        · obtain ⟨other, taken⟩ := Option.ne_none_iff_exists'.mp free
          rw [last, named, taken]
          rw [taken] at same
          exact ⟨other, rfl, fun equal => same (by rw [equal])⟩
        · exact passed j (by omega)

section Slots

variable {symtab : List Symbol} {name : CString}

/-- A name is reached after one number of slots only. -/
theorem ReachedAt.unique {k m : Nat} (reached : ReachedAt symtab name k)
    (again : ReachedAt symtab name m) : k = m := by
  obtain ⟨_, passed, here⟩ := reached
  obtain ⟨_, passedAgain, hereAgain⟩ := again
  by_contra apart
  by_cases first : k < m
  · obtain ⟨other, taken, differs⟩ := passedAgain k first
    rw [here, Option.some_inj] at taken
    exact differs taken.symm
  · obtain ⟨other, taken, differs⟩ := passed m (by omega)
    rw [hereAgain, Option.some_inj] at taken
    exact differs taken.symm

/-- A free slot in the order of visits ends the search for a name that was not met before. -/
theorem not_reached_of_free {m : Nat} (passed : Passed symtab name m)
    (free : nameAt symtab (slotAt hashTableLength (symhash name) m) = none) (k : Nat) :
    ¬ ReachedAt symtab name k := by
  rintro ⟨_, before, here⟩
  by_cases early : k < m
  · obtain ⟨other, taken, differs⟩ := passed k early
    rw [here, Option.some_inj] at taken
    exact differs taken.symm
  · by_cases last : k = m
    · rw [last, free] at here
      cases here
    · obtain ⟨other, taken, _⟩ := before m (by omega)
      rw [free] at taken
      cases taken

/-- Names that stay in their slots stay reached. -/
theorem Passed.mono {after : List Symbol} {k : Nat}
    (kept : ∀ i other, nameAt symtab i = some other → nameAt after i = some other)
    (passed : Passed symtab name k) : Passed after name k := by
  intro j before
  obtain ⟨other, taken, differs⟩ := passed j before
  exact ⟨other, kept _ _ taken, differs⟩

/-- A search of the whole table finds every slot taken by another name. -/
theorem taken_of_passed (passed : Passed symtab name hashTableLength) {i : Nat}
    (inside : i < hashTableLength) : ∃ other, nameAt symtab i = some other ∧ other ≠ name := by
  obtain ⟨k, early, rfl⟩ := exists_slotAt (symhash_lt name) inside
  exact passed k early

theorem nameAt_lt {i : Nat} (taken : nameAt symtab i = some name) : i < symtab.length := by
  by_contra outside
  rw [nameAt, List.getElem?_eq_none (by omega)] at taken
  cases taken

theorem nameAt_prepend (sp : Nat) (ref : Ref) (i : Nat) :
    nameAt (prepend symtab sp ref) i = nameAt symtab i := by
  rw [nameAt, nameAt, prepend, List.getElem?_modify]
  cases symtab[i]? with
  | none => rfl
  | some symbol =>
    by_cases here : sp = i
    · simp [here]
    · simp [here]

theorem listAt_prepend {sp : Nat} (inside : sp < symtab.length) (ref : Ref) (i : Nat) :
    listAt (prepend symtab sp ref) i =
      if sp = i then ref :: listAt symtab sp else listAt symtab i := by
  rw [listAt, listAt, listAt, prepend, List.getElem?_modify]
  by_cases here : sp = i
  · subst here
    simp [List.getElem?_eq_getElem inside]
  · simp [here]

theorem nameAt_set {sp : Nat} (inside : sp < symtab.length) (symbol : Symbol) (i : Nat) :
    nameAt (symtab.set sp symbol) i = if sp = i then symbol.name else nameAt symtab i := by
  rw [nameAt, nameAt, List.getElem?_set]
  by_cases here : sp = i
  · subst here
    simp [inside]
  · simp [here]

theorem listAt_set {sp : Nat} (inside : sp < symtab.length) (symbol : Symbol) (i : Nat) :
    listAt (symtab.set sp symbol) i = if sp = i then symbol.list else listAt symtab i := by
  rw [listAt, listAt, List.getElem?_set]
  by_cases here : sp = i
  · subst here
    simp [inside]
  · simp [here]

end Slots

/-- The distinct names that are passed. -/
def names (calls : List Call) : Finset CString := (calls.map Call.name).toFinset

/-- The references of a name, the most recent first. -/
def refsOf (name : CString) (calls : List Call) : List Ref :=
  ((calls.filter fun call => call.name = name).map fun call => ⟨call.lineno, call.flags⟩).reverse

theorem names_snoc (calls : List Call) (call : Call) :
    names (calls ++ [call]) = insert call.name (names calls) := by
  ext name
  simp [names]

theorem names_mono (calls more : List Call) : names calls ⊆ names (calls ++ more) := by
  intro name
  simp only [names, List.map_append, List.toFinset_append, Finset.mem_union]
  exact Or.inl

theorem refsOf_snoc (name : CString) (calls : List Call) (call : Call) :
    refsOf name (calls ++ [call]) =
      if call.name = name then ⟨call.lineno, call.flags⟩ :: refsOf name calls
      else refsOf name calls := by
  by_cases same : call.name = name
  · simp [refsOf, same]
  · simp [refsOf, same]

theorem refsOf_nil_of_not_mem {name : CString} {calls : List Call} (new : name ∉ names calls) :
    refsOf name calls = [] := by
  simp only [names, List.mem_toFinset, List.mem_map, not_exists, not_and] at new
  simpa [refsOf] using new

/-- The table after these calls: every stored name is reached from its hash through slots that
other names take, and its references are those of its calls. -/
structure Concordance (calls : List Call) (symtab : List Symbol) : Prop where
  sized : symtab.length = hashTableLength
  reached : ∀ {i : Nat} {name : CString}, nameAt symtab i = some name →
    ∃ k, ReachedAt symtab name k ∧ slotAt hashTableLength (symhash name) k = i
  refs : ∀ {i : Nat} {name : CString}, nameAt symtab i = some name →
    listAt symtab i = refsOf name calls
  stored : ∀ {name : CString}, name ∈ names calls → ∃ i, nameAt symtab i = some name
  passed : ∀ {i : Nat} {name : CString}, nameAt symtab i = some name → name ∈ names calls

/-- A call that puts its reference into a slot that was free, or had its name. -/
theorem Concordance.add {calls : List Call} {symtab after : List Symbol} {call : Call} {m : Nat}
    (inv : Concordance calls symtab) (sized : after.length = hashTableLength)
    (early : m < hashTableLength) (clear : Passed symtab call.name m)
    (slot : nameAt symtab (slotAt hashTableLength (symhash call.name) m) = none ∨
      nameAt symtab (slotAt hashTableLength (symhash call.name) m) = some call.name)
    (nameAt_after : ∀ i, nameAt after i =
      if slotAt hashTableLength (symhash call.name) m = i then some call.name else nameAt symtab i)
    (listAt_after : ∀ i, listAt after i =
      if slotAt hashTableLength (symhash call.name) m = i then
        ⟨call.lineno, call.flags⟩ :: refsOf call.name calls else listAt symtab i) :
    Concordance (calls ++ [call]) after := by
  generalize here : slotAt hashTableLength (symhash call.name) m = sp at *
  have kept : ∀ i other, nameAt symtab i = some other → nameAt after i = some other := by
    intro i other taken
    rw [nameAt_after]
    by_cases same : sp = i
    · rw [if_pos same, ← taken, ← same]
      apply (slot.resolve_left _).symm
      rw [same, taken]
      exact Option.some_ne_none other
    · rw [if_neg same, taken]
  have own : ReachedAt after call.name m :=
    ⟨early, clear.mono kept, by rw [here, nameAt_after, if_pos rfl]⟩
  have origin : ∀ {i name}, nameAt after i = some name →
      (sp = i ∧ name = call.name) ∨ (sp ≠ i ∧ nameAt symtab i = some name) := by
    intro i name taken
    rw [nameAt_after] at taken
    by_cases same : sp = i
    · rw [if_pos same, Option.some_inj] at taken
      exact Or.inl ⟨same, taken.symm⟩
    · rw [if_neg same] at taken
      exact Or.inr ⟨same, taken⟩
  have reached : ∀ {i name}, nameAt after i = some name →
      ∃ k, ReachedAt after name k ∧ slotAt hashTableLength (symhash name) k = i := by
    intro i name taken
    rcases origin taken with ⟨rfl, rfl⟩ | ⟨_, before⟩
    · exact ⟨m, own, here⟩
    · obtain ⟨k, ⟨inside, passed, found⟩, rfl⟩ := inv.reached before
      exact ⟨k, ⟨inside, passed.mono kept, kept _ _ found⟩, rfl⟩
  refine ⟨sized, reached, ?_, ?_, ?_⟩
  · intro i name taken
    rw [listAt_after, refsOf_snoc]
    rcases origin taken with ⟨rfl, rfl⟩ | ⟨apart, before⟩
    · rw [if_pos rfl, if_pos rfl]
    · rw [if_neg apart, inv.refs before]
      symm
      apply if_neg
      rintro rfl
      obtain ⟨k, found, place⟩ := reached taken
      rw [found.unique own, here] at place
      exact apart place
  · intro name passed
    rw [names_snoc, Finset.mem_insert] at passed
    rcases passed with rfl | earlier
    · exact ⟨sp, by rw [nameAt_after, if_pos rfl]⟩
    · obtain ⟨i, before⟩ := inv.stored earlier
      exact ⟨i, kept i name before⟩
  · intro i name taken
    rw [names_snoc, Finset.mem_insert]
    rcases origin taken with ⟨_, same⟩ | ⟨_, before⟩
    · exact Or.inl same
    · exact Or.inr (inv.passed before)

theorem concordance_empty : Concordance [] emptySymtab := by
  have free : ∀ i name, nameAt emptySymtab i ≠ some name := by
    intro i name taken
    rw [nameAt, emptySymtab, List.getElem?_replicate] at taken
    split at taken
    · cases taken
    · cases taken
  exact ⟨List.length_replicate, fun taken => absurd taken (free _ _),
    fun taken => absurd taken (free _ _), fun passed => absurd passed (Finset.notMem_empty _),
    fun taken => absurd taken (free _ _)⟩

/-- Every slot has a name. -/
def Full (symtab : List Symbol) : Prop :=
  ∀ i, i < hashTableLength → ∃ name, nameAt symtab i = some name

/-- A slot that a search has not met does not hold a name that was passed before. -/
theorem Concordance.new_of_free {calls : List Call} {symtab : List Symbol}
    (inv : Concordance calls symtab) {name : CString} {m : Nat} (passed : Passed symtab name m)
    (free : nameAt symtab (slotAt hashTableLength (symhash name) m) = none) :
    name ∉ names calls := by
  intro earlier
  obtain ⟨i, taken⟩ := inv.stored earlier
  obtain ⟨k, reached, _⟩ := inv.reached taken
  exact not_reached_of_free passed free k reached

theorem addref_of_lookup {name : CString} {symtab between : List Symbol} {probes sp : Nat}
    (found : lookup ⟨true, true⟩ name symtab = (probes, .ok (sp, between))) (lineno flags : Int) :
    addref ⟨true, true⟩ name lineno flags symtab =
      (probes, .ok (0, prepend between sp ⟨lineno, flags⟩)) := by
  simp only [addref, found, if_true]

/-- What a call does to the table, with enough memory. -/
theorem addref_cases {calls : List Call} {symtab : List Symbol} (inv : Concordance calls symtab)
    (call : Call) :
    ∃ probes, probes ≤ hashTableLength ∧
      ((∃ after, addref ⟨true, true⟩ call.name call.lineno call.flags symtab =
          (probes, .ok (0, after)) ∧ Concordance (calls ++ [call]) after) ∨
        (addref ⟨true, true⟩ call.name call.lineno call.flags symtab = (probes, .error .abort) ∧
          Full symtab ∧ call.name ∉ names calls)) := by
  have none : Passed symtab call.name 0 := fun j before => absurd before (Nat.not_lt_zero j)
  have found := lookupLoop_cases ⟨true, true⟩ inv.sized hashTableLength (Nat.zero_add _) none
  rw [slotAt_zero (symhash_lt call.name)] at found
  rcases found with ⟨m, ⟨early, passed, taken⟩, found⟩ | ⟨m, early, passed, free, found⟩ |
    ⟨passed, found⟩
  · have inside := nameAt_lt taken
    refine ⟨m + 1, early, Or.inl ⟨_, addref_of_lookup found call.lineno call.flags, ?_⟩⟩
    apply inv.add (by rw [prepend, List.length_modify, inv.sized]) early passed (Or.inr taken)
    · intro i
      rw [nameAt_prepend]
      by_cases here : slotAt hashTableLength (symhash call.name) m = i
      · rw [if_pos here, ← here, taken]
      · rw [if_neg here]
    · intro i
      rw [listAt_prepend inside, inv.refs taken]
  · simp only [if_true] at found
    have inside : slotAt hashTableLength (symhash call.name) m < symtab.length := by
      rw [inv.sized]
      exact slotAt_lt (symhash_lt call.name) m
    refine ⟨m + 1, early, Or.inl ⟨_, addref_of_lookup found call.lineno call.flags, ?_⟩⟩
    apply inv.add (by rw [prepend, List.length_modify, List.length_set, inv.sized]) early passed
      (Or.inl free)
    · intro i
      rw [nameAt_prepend, nameAt_set inside]
    · intro i
      rw [listAt_prepend (by rwa [List.length_set]), listAt_set inside, listAt_set inside,
        if_pos rfl, refsOf_nil_of_not_mem (inv.new_of_free passed free)]
      by_cases here : slotAt hashTableLength (symhash call.name) m = i
      · rw [if_pos here, if_pos here]
      · rw [if_neg here, if_neg here, if_neg here]
  · refine ⟨hashTableLength, le_refl _, Or.inr ⟨by simp only [addref, lookup, found], ?_, ?_⟩⟩
    · intro i inside
      obtain ⟨other, taken, _⟩ := taken_of_passed passed inside
      exact ⟨other, taken⟩
    · intro earlier
      obtain ⟨i, taken⟩ := inv.stored earlier
      have inside := nameAt_lt taken
      rw [inv.sized] at inside
      obtain ⟨other, differs, apart⟩ := taken_of_passed passed inside
      rw [taken, Option.some_inj] at differs
      exact apart differs.symm

/-- There are as many names as there are slots that hold one. -/
theorem Concordance.card_names {calls : List Call} {symtab : List Symbol}
    (inv : Concordance calls symtab) :
    (names calls).card =
      ((Finset.range hashTableLength).filter fun i => (nameAt symtab i).isSome).card := by
  symm
  apply Finset.card_bij (fun i _ => (nameAt symtab i).getD [])
  · intro i member
    obtain ⟨name, taken⟩ := Option.isSome_iff_exists.mp (Finset.mem_filter.mp member).2
    rw [taken]
    exact inv.passed taken
  · intro i member j memberAgain same
    obtain ⟨name, taken⟩ := Option.isSome_iff_exists.mp (Finset.mem_filter.mp member).2
    obtain ⟨again, takenAgain⟩ := Option.isSome_iff_exists.mp (Finset.mem_filter.mp memberAgain).2
    rw [taken, takenAgain, Option.getD_some, Option.getD_some] at same
    subst same
    obtain ⟨k, reached, rfl⟩ := inv.reached taken
    obtain ⟨m, reachedAgain, rfl⟩ := inv.reached takenAgain
    rw [reached.unique reachedAgain]
  · intro name passed
    obtain ⟨i, taken⟩ := inv.stored passed
    have inside := nameAt_lt taken
    rw [inv.sized] at inside
    refine ⟨i, Finset.mem_filter.mpr ⟨Finset.mem_range.mpr inside, ?_⟩, ?_⟩
    · rw [taken, Option.isSome_some]
    · rw [taken, Option.getD_some]

theorem Concordance.card_le {calls : List Call} {symtab : List Symbol}
    (inv : Concordance calls symtab) : (names calls).card ≤ hashTableLength := by
  rw [inv.card_names]
  have counted := Finset.card_filter_le (Finset.range hashTableLength)
    fun i => (nameAt symtab i).isSome
  rwa [Finset.card_range] at counted

theorem Concordance.card_of_full {calls : List Call} {symtab : List Symbol}
    (inv : Concordance calls symtab) (full : Full symtab) :
    (names calls).card = hashTableLength := by
  rw [inv.card_names, Finset.filter_true_of_mem, Finset.card_range]
  intro i member
  obtain ⟨name, taken⟩ := full i (Finset.mem_range.mp member)
  rw [taken, Option.isSome_some]

section Runs

variable {heap : Nat → Heap}

/-- A sequence of calls ends in a table of all of them, or at a call with a new name on a full
table. -/
theorem run_cases (enough : ∀ k, heap k = ⟨true, true⟩) (calls : List Call) :
    ∀ {done : List Call} {symtab : List Symbol} (k : Nat), Concordance done symtab →
      (∃ after, (run heap k symtab calls).2 = .ok after ∧ Concordance (done ++ calls) after) ∨
      ∃ before call rest full, calls = before ++ call :: rest ∧
        (run heap k symtab before).2 = .ok full ∧ Concordance (done ++ before) full ∧
        Full full ∧ call.name ∉ names (done ++ before) ∧
        (run heap k symtab (before ++ [call])).2 = .error .abort ∧
        (run heap k symtab calls).2 = .error .abort := by
  induction calls with
  | nil =>
    intro done symtab k inv
    exact Or.inl ⟨symtab, rfl, by rwa [List.append_nil]⟩
  | cons call calls ih =>
    intro done symtab k inv
    obtain ⟨probes, _, ⟨next, called, inv'⟩ | ⟨called, full, new⟩⟩ := addref_cases inv call
    · rcases ih (k + 1) inv' with ⟨after, ended, kept⟩ |
        ⟨before, last, rest, full, rfl, reached, kept, isFull, new, stops, ended⟩
      · refine Or.inl ⟨after, ?_, by rwa [List.append_assoc] at kept⟩
        simp only [run, enough k, called, ended]
      · rw [List.append_assoc] at kept new
        refine Or.inr ⟨call :: before, last, rest, full, rfl, ?_, kept, isFull, new, ?_, ?_⟩
        · simp only [run, enough k, called, reached]
        · simp only [List.cons_append, run, enough k, called, stops]
        · simp only [run, enough k, called, ended]
    · refine Or.inr ⟨[], call, calls, symtab, rfl, rfl, ?_, full, ?_, ?_, ?_⟩
      · rwa [List.append_nil]
      · rwa [List.append_nil]
      · simp only [List.nil_append, run, enough k, called]
      · simp only [run, enough k, called]

/-- No call looks at a slot twice. -/
theorem run_probes (enough : ∀ k, heap k = ⟨true, true⟩) (calls : List Call) :
    ∀ {done : List Call} {symtab : List Symbol} (k : Nat), Concordance done symtab →
      ∀ probes ∈ (run heap k symtab calls).1, probes ≤ hashTableLength := by
  induction calls with
  | nil =>
    intro done symtab k _ probes member
    cases member
  | cons call calls ih =>
    intro done symtab k inv probes member
    obtain ⟨probed, few, ⟨next, called, inv'⟩ | ⟨called, _, _⟩⟩ := addref_cases inv call
    · simp only [run, enough k, called, List.mem_cons] at member
      rcases member with rfl | later
      · exact few
      · exact ih (k + 1) inv' probes later
    · simp only [run, enough k, called, List.mem_singleton] at member
      rw [member]
      exact few

/-- The calls so far have filled the table, and this one has a new name. -/
def NewOnFull (heap : Nat → Heap) (before : List Call) (call : Call) : Prop :=
  ∃ symtab, (run heap 0 emptySymtab before).2 = .ok symtab ∧ Full symtab ∧
    call.name ∉ names before

theorem NewOnFull.card {before : List Call} {call : Call} (enough : ∀ k, heap k = ⟨true, true⟩)
    (reached : NewOnFull heap before call) :
    (names (before ++ [call])).card = hashTableLength + 1 := by
  obtain ⟨symtab, ended, full, new⟩ := reached
  rcases run_cases enough before 0 concordance_empty with ⟨after, ran, inv⟩ |
    ⟨_, _, _, _, _, _, _, _, _, _, stopped⟩
  · rw [ran] at ended
    cases ended
    rw [names_snoc, Finset.card_insert_of_notMem new]
    rw [List.nil_append] at inv
    rw [inv.card_of_full full]
  · rw [stopped] at ended
    cases ended

/-- With enough memory, calls with at most as many names as there are slots all return; then each
name is in one slot, with the lines of its calls, the most recent first, and no other name is in a
slot. With more names the first call with a new name on a full table aborts, and nothing else does.
No call looks at more slots than there are. -/
theorem concordance (enough : ∀ k, heap k = ⟨true, true⟩) (calls : List Call) :
    (∀ probes ∈ (run heap 0 emptySymtab calls).1, probes ≤ hashTableLength) ∧
    ((names calls).card ≤ hashTableLength →
      ∃ symtab, (run heap 0 emptySymtab calls).2 = .ok symtab ∧
        (∀ name ∈ names calls, ∃ i symbol, symtab[i]? = some symbol ∧ symbol.name = some name ∧
          symbol.list.map Ref.lineno =
            ((calls.filter fun call => call.name = name).map Call.lineno).reverse ∧
          ∀ j, nameAt symtab j = some name → j = i) ∧
        ∀ i name, nameAt symtab i = some name → name ∈ names calls) ∧
    (hashTableLength < (names calls).card →
      ∃ before call rest, calls = before ++ call :: rest ∧ NewOnFull heap before call ∧
        (∀ first earlier later, before = first ++ earlier :: later →
          ¬ NewOnFull heap first earlier) ∧
        (run heap 0 emptySymtab (before ++ [call])).2 = .error .abort ∧
        (run heap 0 emptySymtab calls).2 = .error .abort) := by
  refine ⟨run_probes enough calls 0 concordance_empty, ?_, ?_⟩
  · intro fits
    rcases run_cases enough calls 0 concordance_empty with ⟨symtab, ended, inv⟩ |
      ⟨before, call, rest, full, rfl, ended, _, isFull, new, _, _⟩
    · rw [List.nil_append] at inv
      refine ⟨symtab, ended, ?_, fun i name taken => inv.passed taken⟩
      intro name passed
      obtain ⟨i, taken⟩ := inv.stored passed
      obtain ⟨symbol, here, named⟩ := Option.bind_eq_some_iff.mp taken
      refine ⟨i, symbol, here, named, ?_, ?_⟩
      · have refs := inv.refs taken
        rw [listAt, here, Option.map_some, Option.getD_some] at refs
        rw [refs, refsOf, List.map_reverse, List.map_map]
        rfl
      · intro j again
        obtain ⟨k, reached, rfl⟩ := inv.reached taken
        obtain ⟨m, reachedAgain, rfl⟩ := inv.reached again
        rw [reached.unique reachedAgain]
    · have excess := NewOnFull.card enough ⟨full, ended, isFull, new⟩
      have grows := names_mono (before ++ [call]) rest
      rw [List.append_assoc, List.singleton_append] at grows
      have counted := Finset.card_le_card grows
      omega
  · intro excess
    rcases run_cases enough calls 0 concordance_empty with ⟨symtab, ended, inv⟩ |
      ⟨before, call, rest, full, same, ended, inv, isFull, new, stops, aborts⟩
    · have fits := inv.card_le
      rw [List.nil_append] at fits
      omega
    · refine ⟨before, call, rest, same, ⟨full, ended, isFull, new⟩, ?_, stops, aborts⟩
      rintro first earlier later rfl early
      have sooner := early.card enough
      have grows := names_mono (first ++ [earlier]) later
      rw [List.append_assoc, List.singleton_append] at grows
      have counted := Finset.card_le_card grows
      have fits := inv.card_le
      rw [List.nil_append] at fits
      omega

theorem concordance_counted :
    let calls : List Call := [⟨['a'], 1, 0⟩, ⟨['b'], 1, 0⟩, ⟨['a'], 2, 0⟩]
    (∀ k, (fun _ : Nat => Heap.mk true true) k = ⟨true, true⟩) ∧
    ∃ symtab, (run (fun _ => ⟨true, true⟩) 0 emptySymtab calls).2 = .ok symtab ∧
      (∀ name ∈ names calls, ∃ i symbol, symtab[i]? = some symbol ∧ symbol.name = some name ∧
        symbol.list.map Ref.lineno =
          ((calls.filter fun call => call.name = name).map Call.lineno).reverse ∧
        ∀ j, nameAt symtab j = some name → j = i) ∧
      ∀ i name, nameAt symtab i = some name → name ∈ names calls := by
  refine ⟨fun _ => rfl, (concordance (fun _ => rfl) _).2.1 ?_⟩
  exact le_trans (List.toFinset_card_le _) (by decide)

end Runs

end Ct.Flex
