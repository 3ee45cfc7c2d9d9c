import Ct.Ccutils.UtableRuns

set_option autoImplicit false

namespace Ct.Ccutils.Utable

open Ct.Lib

universe u

variable {ρ : Type u}

/-- What a caller sees of one call: what it returns, what it passes to the `remove` callback and
which strings it frees. -/
inductive Output (ρ : Type u)
  | inserted (rc : Int) (overflow : Bool)
  | removed (rc : Int) (callback : List (Option ρ)) (freed : List CString)
  | found (rc : Int)
  | visited (count : Int) (calls : List (Nat × TableNode ρ))

/-- One call, with what it shows and the table it leaves. -/
def answer (fuel : Nat) (ht : HashTableDesc ρ) :
    Op ρ → Except Fault (Output ρ × HashTableDesc ρ)
  | .insert node heap =>
    (hashTableInsert fuel ht node heap).map fun result =>
      (.inserted result.rc result.overflow, result.table)
  | .remove node =>
    (hashTableRemove fuel ht node).map fun result =>
      (.removed result.rc result.callback result.freed, result.table)
  | .lookup node => (hashTableLookup fuel ht node).map fun rc => (.found rc, ht)
  | .foreach => (hashTableForeach ht).map fun result => (.visited result.1 result.2, ht)

/-- What a sequence of calls shows, up to the first fault. -/
def outputs (fuel : Nat) : HashTableDesc ρ → List (Op ρ) → List (Except Fault (Output ρ))
  | _, [] => []
  | ht, op :: rest =>
    match answer fuel ht op with
    | .error fault => [.error fault]
    | .ok (output, next) => .ok output :: outputs fuel next rest

/-- The same call, with other old contents of the block that `malloc` hands out. -/
inductive Op.Alike : Op ρ → Op ρ → Prop
  | block (node block block' : TableNode ρ) (strdup : Bool) :
    Alike (.insert node ⟨some block, strdup⟩) (.insert node ⟨some block', strdup⟩)
  | same (op : Op ρ) : Alike op op

/-- A call of `hash_table_insert`, `hash_table_lookup` or `hash_table_remove` whose node has an
integer key. -/
def Op.Integer : Op ρ → Prop
  | .insert node _ => node.cmpStr = none
  | .remove node => node.cmpStr = none
  | .lookup node => node.cmpStr = none
  | .foreach => False

/-- What the calls show does not depend on what the blocks of the heap held before. -/
def IgnoresHeap (n : Nat) (callbacks : HashTableDesc ρ) (ops : List (Op ρ)) : Prop :=
  ∀ ops', List.Forall₂ Op.Alike ops ops' →
    outputs n (emptyTable n callbacks) ops' = outputs n (emptyTable n callbacks) ops

/-- The first slot that a call looks at; `foreach` begins with the first one. -/
def Op.hash : Op ρ → Nat
  | .insert node _ => node.hash
  | .remove node => node.hash
  | .lookup node => node.hash
  | .foreach => 0

/-- No call removes an integer that the table holds. Nothing comes after a call that starts
outside of the table. -/
def NoneHeld (n : Nat) : Multiset Int → List (Op ρ) → Prop
  | _, [] => True
  | held, op :: rest =>
    if 0 < n ∧ n ≤ op.hash then True
    else
      match op with
      | .insert node heap =>
        NoneHeld n (if heap.block.isSome ∧ held.card < n then node.cmpInt ::ₘ held else held) rest
      | .remove node => node.cmpInt ∉ held ∧ NoneHeld n held rest
      | .lookup _ => NoneHeld n held rest
      | .foreach => NoneHeld n held rest

/-- The integers in the slots. -/
def ints (tbl : List (Option (TableNode ρ))) : List (Option Int) :=
  tbl.map (Option.map TableNode.cmpInt)

section Visits

variable {tbl : List (Option (TableNode ρ))} {node : TableNode ρ} {i : Nat}

/-- The comparison of one slot with an integer key. -/
def intVisit (slots : List (Option Int)) (key : Int) (i : Nat) : Option (Except Fault Int) :=
  match slots[i]? with
  | none => some (.error .outOfBounds)
  | some none => none
  | some (some k) => if key = k then some (.ok i) else none

def freeVisit (slots : List (Option Int)) (i : Nat) : Option (Except Fault Nat) :=
  match slots[i]? with
  | none => some (.error .outOfBounds)
  | some none => some (.ok i)
  | some (some _) => none

theorem lookupVisit_int (integer : node.cmpStr = none) :
    lookupVisit tbl node = intVisit (ints tbl) node.cmpInt := by
  funext i
  simp only [lookupVisit, intVisit, ints, List.getElem?_map, integer]
  cases tbl[i]? with
  | none => rfl
  | some slot =>
    cases slot with
    | none => rfl
    | some entry => rfl

theorem insertVisit_int : insertVisit tbl = freeVisit (ints tbl) := by
  funext i
  simp only [insertVisit, freeVisit, ints, List.getElem?_map]
  cases tbl[i]? with
  | none => rfl
  | some slot =>
    cases slot with
    | none => rfl
    | some entry => rfl

variable {slots : List (Option Int)} {key : Int}

theorem intVisit_some {hit : Except Fault Int} (small : i < slots.length)
    (visited : intVisit slots key i = some hit) : hit = .ok i ∧ slots[i]? = some (some key) := by
  rw [List.getElem?_eq_getElem small]
  rw [intVisit, List.getElem?_eq_getElem small] at visited
  cases here : slots[i] with
  | none => simp only [here, reduceCtorEq] at visited
  | some k =>
    simp only [here] at visited
    split at visited
    · rename_i same
      cases visited
      exact ⟨rfl, by rw [same]⟩
    · cases visited

theorem freeVisit_some {hit : Except Fault Nat} (small : i < slots.length)
    (visited : freeVisit slots i = some hit) : hit = .ok i ∧ slots[i]? = some none := by
  rw [List.getElem?_eq_getElem small]
  rw [freeVisit, List.getElem?_eq_getElem small] at visited
  cases here : slots[i] with
  | none =>
    simp only [here, Option.some_inj] at visited
    exact ⟨visited.symm, rfl⟩
  | some k => simp only [here, reduceCtorEq] at visited

theorem freeVisit_none (small : i < slots.length) (visited : freeVisit slots i = none) :
    ∃ k, slots[i]? = some (some k) := by
  rw [List.getElem?_eq_getElem small]
  rw [freeVisit, List.getElem?_eq_getElem small] at visited
  cases here : slots[i] with
  | none => simp only [here, reduceCtorEq] at visited
  | some k => exact ⟨k, rfl⟩

end Visits

/-- A table next to its slots. -/
structure Sized (ht : HashTableDesc ρ) (tbl : List (Option (TableNode ρ))) : Prop where
  tbl_eq : ht.tbl = some tbl
  length_eq : tbl.length = ht.size

section Calls

variable {ht : HashTableDesc ρ} {tbl : List (Option (TableNode ρ))} {node : TableNode ρ} {op : Op ρ}

theorem Sized.ints_length (sized : Sized ht tbl) : (ints tbl).length = ht.size :=
  (List.length_map _).trans sized.length_eq

theorem probe_hit {β : Type} {n start : Nat} {visit : Nat → Option β} {hit : β}
    (positive : 0 < n) (here : visit start = some hit) :
    probe n start visit n start = .ok (some hit) := by
  obtain ⟨fuel, rfl⟩ : ∃ fuel, n = fuel + 1 := ⟨n - 1, by omega⟩
  simp only [probe, here]

/-- A call that starts outside of the table reads there. -/
theorem Sized.outside (sized : Sized ht tbl) (integer : op.Integer) (positive : 0 < ht.size)
    (outside : ht.size ≤ op.hash) : answer ht.size ht op = .error .outOfBounds := by
  have open_ : ¬ ht.size ≤ 0 := by omega
  have beyond : tbl[op.hash]? = none := List.getElem?_eq_none (sized.length_eq ▸ outside)
  have lookup : ∀ node, node.hash = op.hash →
      hashTableLookup ht.size ht node = .error .outOfBounds := by
    intro node same
    have hit : lookupVisit tbl node node.hash = some (.error .outOfBounds) := by
      simp only [lookupVisit, same, beyond]
    simp only [hashTableLookup, sized.tbl_eq, open_, if_false, probe_hit positive hit]
  cases op with
  | insert node heap =>
    have hit : insertVisit tbl node.hash = some (.error .outOfBounds) := by
      simp only [insertVisit, show tbl[node.hash]? = none from beyond]
    simp only [answer, hashTableInsert, sized.tbl_eq, open_, if_false, probe_hit positive hit,
      Except.map]
  | remove node =>
    simp only [answer, hashTableRemove, sized.tbl_eq, open_, if_false, lookup node rfl, Except.map]
  | lookup node => simp only [answer, lookup node rfl, Except.map]
  | foreach => exact integer.elim

/-- A lookup finds an integer if and only if the table holds it. -/
theorem Sized.lookup (sized : Sized ht tbl) (integer : node.cmpStr = none)
    (inside : ¬ (0 < ht.size ∧ ht.size ≤ node.hash)) :
    (hashTableLookup ht.size ht node = .ok (-1) ∧ node.cmpInt ∉ stored (ints tbl)) ∨
      ∃ i : Nat, hashTableLookup ht.size ht node = .ok i ∧
        (ints tbl)[i]? = some (some node.cmpInt) := by
  by_cases empty : ht.size = 0
  · refine Or.inl ⟨by simp only [hashTableLookup, sized.tbl_eq, empty, Nat.le_refl, if_true], ?_⟩
    have nothing : ints tbl = [] := List.eq_nil_of_length_eq_zero (sized.ints_length.trans empty)
    rw [nothing]
    exact Multiset.notMem_zero _
  have open_ : ¬ ht.size ≤ 0 := by omega
  rcases probe_cases (intVisit (ints tbl) node.cmpInt) (by omega : node.hash < ht.size)
    (Nat.le_refl _) with ⟨missed, none⟩ | ⟨k, hit, below, visited, _, found⟩
  · refine Or.inl ⟨?_, ?_⟩
    · simp only [hashTableLookup, sized.tbl_eq, open_, if_false, lookupVisit_int integer, missed]
    · intro member
      obtain ⟨i, here⟩ := mem_stored.mp member
      have small : i < ht.size := sized.ints_length ▸ (List.getElem?_eq_some_iff.mp here).1
      have visit := none i small
      simp only [intVisit, here, if_true, reduceCtorEq] at visit
  · have small : slotAt ht.size node.hash k < (ints tbl).length := by
      rw [sized.ints_length]
      exact slotAt_lt (by omega) k
    obtain ⟨rfl, here⟩ := intVisit_some small visited
    refine Or.inr ⟨_, ?_, here⟩
    simp only [hashTableLookup, sized.tbl_eq, open_, if_false, lookupVisit_int integer, found]

/-- An insert fills the first free slot, if there is one and `malloc` succeeds. -/
theorem Sized.insert (sized : Sized ht tbl) (inside : node.hash < ht.size) :
    ((stored (ints tbl)).card = ht.size ∧ probe ht.size node.hash (freeVisit (ints tbl)) ht.size
        node.hash = .ok none) ∨
      ∃ i, (ints tbl)[i]? = some none ∧ probe ht.size node.hash (freeVisit (ints tbl)) ht.size
        node.hash = .ok (some (.ok i)) := by
  rcases probe_cases (freeVisit (ints tbl)) inside (Nat.le_refl _) with
    ⟨missed, none⟩ | ⟨k, hit, below, visited, _, found⟩
  · refine Or.inl ⟨?_, missed⟩
    rw [card_stored_eq, sized.ints_length]
    intro i small
    exact freeVisit_none small (none i (sized.ints_length ▸ small))
  · have small : slotAt ht.size node.hash k < (ints tbl).length := by
      rw [sized.ints_length]
      exact slotAt_lt inside k
    obtain ⟨rfl, free⟩ := freeVisit_some small visited
    exact Or.inr ⟨_, free, found⟩

/-- A remove that finds no node changes nothing. -/
theorem Sized.remove_absent (sized : Sized ht tbl) (integer : node.cmpStr = none)
    (inside : ¬ (0 < ht.size ∧ ht.size ≤ node.hash)) (absent : node.cmpInt ∉ stored (ints tbl)) :
    answer ht.size ht (.remove node) = .ok (.removed (-1) [] [], ht) := by
  by_cases empty : ht.size ≤ 0
  · simp only [answer, hashTableRemove, sized.tbl_eq, empty, if_true, Except.map]
  rcases sized.lookup integer inside with ⟨missed, _⟩ | ⟨i, _, here⟩
  · simp only [answer, hashTableRemove, sized.tbl_eq, empty, if_false, missed, Except.map]
    rfl
  · exact absurd (mem_stored.mpr ⟨i, here⟩) absent

/-- A remove that finds a node frees whatever string pointer the node has. -/
theorem Sized.remove_held (sized : Sized ht tbl) (integer : node.cmpStr = none)
    (inside : ¬ (0 < ht.size ∧ ht.size ≤ node.hash)) (held : node.cmpInt ∈ stored (ints tbl)) :
    ∃ (i : Nat) (entry : TableNode ρ) (next : HashTableDesc ρ), tbl[i]? = some (some entry) ∧
      answer ht.size ht (.remove node) = .ok
        (.removed 0 (if ht.remove then [entry.p] else []) entry.cmpStr.toList, next) := by
  by_cases empty : ht.size ≤ 0
  · have nothing : ints tbl = [] :=
      List.eq_nil_of_length_eq_zero (sized.ints_length.trans (Nat.le_zero.mp empty))
    rw [nothing] at held
    exact absurd held (Multiset.notMem_zero _)
  rcases sized.lookup integer inside with ⟨_, absent⟩ | ⟨i, found, here⟩
  · exact absurd held absent
  · have entry : ∃ entry, tbl[i]? = some (some entry) := by
      simp only [ints, List.getElem?_map, Option.map_eq_some_iff] at here
      obtain ⟨_, slot, entry, rfl, _⟩ := here
      exact ⟨entry, slot⟩
    obtain ⟨entry, slot⟩ := entry
    have natural : ¬ (i : Int) < 0 := by omega
    refine ⟨i, entry, { ht with tbl := some (tbl.set i none) }, slot, ?_⟩
    simp only [answer, hashTableRemove, sized.tbl_eq, empty, if_false, found, natural,
      Int.toNat_natCast, slot, Except.map]

theorem Sized.fill (sized : Sized ht tbl) (i : Nat) (slot : Option (TableNode ρ)) :
    Sized { ht with tbl := some (tbl.set i slot) } (tbl.set i slot) :=
  ⟨rfl, List.length_set.trans sized.length_eq⟩

/-- What an insert leaves of the slots. -/
def Fills (ht : HashTableDesc ρ) (node : TableNode ρ) (heap : Heap ρ)
    (tbl last : List (Option (TableNode ρ))) : Prop :=
  last = tbl ∨ ∃ i block, heap.block = some block ∧
    last = tbl.set i (some (fillNode ht node block heap.strdup))

/-- All nodes of the table have this pointer as their string. -/
def Marked (str : Option CString) (tbl : List (Option (TableNode ρ))) : Prop :=
  ∀ entry, some entry ∈ tbl → entry.cmpStr = str

/-- An integer key leaves the string pointer of a node as the block had it. -/
theorem Fills.marked {heap : Heap ρ} {last : List (Option (TableNode ρ))} {str : Option CString}
    (fills : Fills ht node heap tbl last) (integer : node.cmpStr = none) (marked : Marked str tbl)
    (old : ∀ block, heap.block = some block → block.cmpStr = str) : Marked str last := by
  rcases fills with rfl | ⟨i, block, there, rfl⟩
  · exact marked
  · intro entry member
    rcases List.mem_or_eq_of_mem_set member with before | new
    · exact marked entry before
    · cases new
      simp only [fillNode, integer]
      exact old block there

end Calls

section Runs

variable {ht ht' : HashTableDesc ρ} {tbl tbl' : List (Option (TableNode ρ))} {node : TableNode ρ}

/-- Two tables that hold the same integers in the same slots. -/
structure Pair (ht ht' : HashTableDesc ρ) (tbl tbl' : List (Option (TableNode ρ))) : Prop where
  first : Sized ht tbl
  second : Sized ht' tbl'
  size_eq : ht'.size = ht.size
  ints_eq : ints tbl' = ints tbl

theorem Pair.lookup (pair : Pair ht ht' tbl tbl') (integer : node.cmpStr = none)
    (inside : ¬ (0 < ht.size ∧ ht.size ≤ node.hash)) :
    ∃ rc, answer ht.size ht (.lookup node) = .ok (.found rc, ht) ∧
      answer ht.size ht' (.lookup node) = .ok (.found rc, ht') := by
  have same : hashTableLookup ht.size ht' node = hashTableLookup ht.size ht node := by
    simp only [hashTableLookup, pair.first.tbl_eq, pair.second.tbl_eq, pair.size_eq,
      lookupVisit_int integer, pair.ints_eq]
  rcases pair.first.lookup integer inside with ⟨missed, _⟩ | ⟨i, found, _⟩
  · refine ⟨-1, ?_, ?_⟩
    · simp only [answer, missed, Except.map]
    · simp only [answer, same, missed, Except.map]
  · refine ⟨i, ?_, ?_⟩
    · simp only [answer, found, Except.map]
    · simp only [answer, same, found, Except.map]

theorem Pair.remove_absent (pair : Pair ht ht' tbl tbl') (integer : node.cmpStr = none)
    (inside : ¬ (0 < ht.size ∧ ht.size ≤ node.hash)) (absent : node.cmpInt ∉ stored (ints tbl)) :
    answer ht.size ht (.remove node) = .ok (.removed (-1) [] [], ht) ∧
      answer ht.size ht' (.remove node) = .ok (.removed (-1) [] [], ht') := by
  refine ⟨pair.first.remove_absent integer inside absent, ?_⟩
  rw [← pair.ints_eq] at absent
  rw [← pair.size_eq] at inside ⊢
  exact pair.second.remove_absent integer inside absent

/-- Both tables fill the same slot. -/
theorem Pair.fill (pair : Pair ht ht' tbl tbl') (new new' : TableNode ρ)
    (same : new'.cmpInt = new.cmpInt) (i : Nat) :
    Pair { ht with tbl := some (tbl.set i (some new)) }
      { ht' with tbl := some (tbl'.set i (some new')) } (tbl.set i (some new))
      (tbl'.set i (some new')) := by
  refine ⟨pair.first.fill i _, pair.second.fill i _, pair.size_eq, ?_⟩
  have equal := pair.ints_eq
  simp only [ints, List.map_set, Option.map_some, same] at equal ⊢
  rw [equal]

theorem Pair.insert (pair : Pair ht ht' tbl tbl') {heap heap' : Heap ρ}
    (there : heap'.block.isSome = heap.block.isSome)
    (inside : ¬ (0 < ht.size ∧ ht.size ≤ node.hash)) :
    ∃ output next next' last last',
      answer ht.size ht (.insert node heap) = .ok (output, next) ∧
      answer ht.size ht' (.insert node heap') = .ok (output, next') ∧
      Pair next next' last last' ∧ next.size = ht.size ∧
      Fills ht node heap tbl last ∧ Fills ht' node heap' tbl' last' ∧
      stored (ints last) = if heap.block.isSome ∧ (stored (ints tbl)).card < ht.size then
        node.cmpInt ::ₘ stored (ints tbl) else stored (ints tbl) := by
  have size_eq := pair.size_eq
  by_cases empty : ht.size ≤ 0
  · refine ⟨.inserted (-1) false, ht, ht', tbl, tbl', ?_, ?_, pair, rfl, Or.inl rfl, Or.inl rfl, ?_⟩
    · simp only [answer, hashTableInsert, pair.first.tbl_eq, empty, if_true, Except.map]
    · simp only [answer, hashTableInsert, pair.second.tbl_eq, size_eq, empty, if_true, Except.map]
    · rw [if_neg (fun room => absurd room.2 (by omega))]
  rcases pair.first.insert (by omega : node.hash < ht.size) with ⟨full, missed⟩ | ⟨i, free, found⟩
  · refine ⟨.inserted (-1) true, ht, ht', tbl, tbl', ?_, ?_, pair, rfl, Or.inl rfl, Or.inl rfl, ?_⟩
    · simp only [answer, hashTableInsert, pair.first.tbl_eq, empty, if_false, insertVisit_int,
        missed, Except.map]
    · simp only [answer, hashTableInsert, pair.second.tbl_eq, size_eq, empty, if_false,
        insertVisit_int, pair.ints_eq, missed, Except.map]
    · rw [if_neg (fun room => absurd room.2 (by omega))]
  · have room : (stored (ints tbl)).card < ht.size := pair.first.ints_length ▸ card_stored_lt free
    cases block : heap.block with
    | none =>
      have block' : heap'.block = none := by
        rw [block] at there
        exact Option.not_isSome_iff_eq_none.mp (by rw [there]; simp)
      refine ⟨.inserted (-1) false, ht, ht', tbl, tbl', ?_, ?_, pair, rfl, Or.inl rfl, Or.inl rfl,
        ?_⟩
      · simp only [answer, hashTableInsert, pair.first.tbl_eq, empty, if_false, insertVisit_int,
          found, block, Except.map]
      · simp only [answer, hashTableInsert, pair.second.tbl_eq, size_eq, empty, if_false,
          insertVisit_int, pair.ints_eq, found, block', Except.map]
      · rw [if_neg (fun room => by simp at room)]
    | some old =>
      obtain ⟨old', block'⟩ : ∃ old', heap'.block = some old' := by
        rw [block] at there
        exact Option.isSome_iff_exists.mp there
      have filled := pair.fill (fillNode ht node old heap.strdup)
        (fillNode ht' node old' heap'.strdup) rfl i
      refine ⟨.inserted i false, _, _, _, _, ?_, ?_, filled, rfl, Or.inr ⟨i, old, block, rfl⟩,
        Or.inr ⟨i, old', block', rfl⟩, ?_⟩
      · simp only [answer, hashTableInsert, pair.first.tbl_eq, empty, if_false, insertVisit_int,
          found, block, Except.map]
      · simp only [answer, hashTableInsert, pair.second.tbl_eq, size_eq, empty, if_false,
          insertVisit_int, pair.ints_eq, found, block', Except.map]
      · rw [if_pos ⟨rfl, room⟩, ← stored_fill free, ints, List.map_set]
        rfl

theorem Op.Alike.integer {op op' : Op ρ} (alike : op.Alike op') (integer : op.Integer) :
    op'.Integer := by
  cases alike with
  | block node block block' strdup => exact integer
  | same => exact integer

theorem Op.Alike.hash_eq {op op' : Op ρ} (alike : op.Alike op') : op'.hash = op.hash := by
  cases alike with
  | block node block block' strdup => rfl
  | same => rfl

theorem outputs_cons {fuel : Nat} {op : Op ρ} {output : Output ρ} {next : HashTableDesc ρ}
    (answered : answer fuel ht op = .ok (output, next)) (rest : List (Op ρ)) :
    outputs fuel ht (op :: rest) = .ok output :: outputs fuel next rest := by
  simp only [outputs, answered]

theorem outputs_fault {fuel : Nat} {op : Op ρ} {fault : Fault}
    (answered : answer fuel ht op = .error fault) (rest : List (Op ρ)) :
    outputs fuel ht (op :: rest) = [.error fault] := by
  simp only [outputs, answered]

/-- As long as no node is removed, what the blocks held before does not show. -/
theorem Pair.outputs_eq {ops ops' : List (Op ρ)} (pair : Pair ht ht' tbl tbl')
    (integers : ∀ op ∈ ops, op.Integer) (alike : List.Forall₂ Op.Alike ops ops')
    (none : NoneHeld ht.size (stored (ints tbl)) ops) :
    outputs ht.size ht' ops' = outputs ht.size ht ops := by
  induction alike generalizing ht ht' tbl tbl' with
  | nil => rfl
  | @cons op op' rest rest' alike tail ih =>
    have integer := integers op (List.mem_cons_self ..)
    have integers' : ∀ op ∈ rest, op.Integer :=
      fun op member => integers op (List.mem_cons_of_mem _ member)
    by_cases outside : 0 < ht.size ∧ ht.size ≤ op.hash
    · rw [outputs_fault (pair.first.outside integer outside.1 outside.2)]
      rw [← pair.size_eq] at outside ⊢
      apply outputs_fault
      exact pair.second.outside (alike.integer integer) outside.1 (alike.hash_eq.symm ▸ outside.2)
    have inside : ¬ (0 < ht.size ∧ ht.size ≤ op.hash) := outside
    cases op with
    | insert node heap =>
      rw [NoneHeld, if_neg outside] at none
      obtain ⟨heap', rfl, there⟩ : ∃ heap', op' = .insert node heap' ∧
          heap'.block.isSome = heap.block.isSome := by
        cases alike with
        | block node block block' strdup => exact ⟨_, rfl, rfl⟩
        | same => exact ⟨_, rfl, rfl⟩
      obtain ⟨output, next, next', last, last', answered, answered', pair', size_eq, _, _, held⟩ :=
        pair.insert there inside
      rw [outputs_cons answered, outputs_cons answered', ← size_eq]
      rw [← held, ← size_eq] at none
      rw [ih pair' integers' none]
    | remove node =>
      rw [NoneHeld, if_neg outside] at none
      obtain rfl : op' = .remove node := by
        cases alike
        rfl
      obtain ⟨answered, answered'⟩ := pair.remove_absent integer inside none.1
      rw [outputs_cons answered, outputs_cons answered', ih pair integers' none.2]
    | lookup node =>
      rw [NoneHeld, if_neg outside] at none
      obtain rfl : op' = .lookup node := by
        cases alike
        rfl
      obtain ⟨rc, answered, answered'⟩ := pair.lookup integer inside
      rw [outputs_cons answered, outputs_cons answered', ih pair integers' none]
    | foreach => exact integer.elim

/-- The heap with this string pointer in the block that it hands out. -/
def Heap.mark (str : Option CString) (heap : Heap ρ) : Heap ρ :=
  { heap with block := heap.block.map fun block => { block with cmpStr := str } }

theorem Heap.mark_isSome (str : Option CString) (heap : Heap ρ) :
    (heap.mark str).block.isSome = heap.block.isSome := Option.isSome_map

theorem Heap.mark_cmpStr (str : Option CString) (heap : Heap ρ) :
    ∀ block, (heap.mark str).block = some block → block.cmpStr = str := by
  intro block there
  obtain ⟨old, _, rfl⟩ := Option.map_eq_some_iff.mp there
  rfl

def Op.mark (str : Option CString) : Op ρ → Op ρ
  | .insert node heap => .insert node (heap.mark str)
  | .remove node => .remove node
  | .lookup node => .lookup node
  | .foreach => .foreach

theorem Op.mark_alike (str : Option CString) (op : Op ρ) : op.Alike (op.mark str) := by
  cases op with
  | insert node heap =>
    obtain ⟨block, strdup⟩ := heap
    cases block with
    | none => exact .same _
    | some block => exact .block ..
  | remove node => exact .same _
  | lookup node => exact .same _
  | foreach => exact .same _

theorem mark_alike (str : Option CString) (ops : List (Op ρ)) :
    List.Forall₂ Op.Alike ops (ops.map (Op.mark str)) := by
  induction ops with
  | nil => exact .nil
  | cons op rest ih => exact .cons (op.mark_alike str) ih

/-- A removed node shows what its block held before. -/
theorem Pair.noneHeld {ops : List (Op ρ)} (pair : Pair ht ht' tbl tbl')
    (integers : ∀ op ∈ ops, op.Integer) (blank : Marked none tbl) (marked : Marked (some []) tbl')
    (same : outputs ht.size ht' (ops.map (Op.mark (some []))) =
      outputs ht.size ht (ops.map (Op.mark none))) :
    NoneHeld ht.size (stored (ints tbl)) ops := by
  induction ops generalizing ht ht' tbl tbl' with
  | nil => trivial
  | cons op rest ih =>
    have integer := integers op (List.mem_cons_self ..)
    have integers' : ∀ op ∈ rest, op.Integer :=
      fun op member => integers op (List.mem_cons_of_mem _ member)
    by_cases outside : 0 < ht.size ∧ ht.size ≤ op.hash
    · cases op with
      | insert node heap => rw [NoneHeld, if_pos outside]; trivial
      | remove node => rw [NoneHeld, if_pos outside]; trivial
      | lookup node => rw [NoneHeld, if_pos outside]; trivial
      | foreach => exact integer.elim
    rw [List.map_cons, List.map_cons] at same
    simp only [Op.mark] at same
    have inside : ¬ (0 < ht.size ∧ ht.size ≤ op.hash) := outside
    cases op with
    | insert node heap =>
      rw [NoneHeld, if_neg outside]
      have there : (heap.mark (some [])).block.isSome = (heap.mark none).block.isSome := by
        rw [Heap.mark_isSome, Heap.mark_isSome]
      obtain ⟨output, next, next', last, last', answered, answered', pair', size_eq, fills, fills',
        held⟩ := pair.insert there inside
      rw [Heap.mark_isSome] at held
      rw [outputs_cons answered, outputs_cons answered', ← size_eq] at same
      rw [← held, ← size_eq]
      exact ih pair' integers' (fills.marked integer blank (heap.mark_cmpStr none))
        (fills'.marked integer marked (heap.mark_cmpStr (some []))) (List.cons.inj same).2
    | remove node =>
      rw [NoneHeld, if_neg outside]
      by_cases held : node.cmpInt ∈ stored (ints tbl)
      · obtain ⟨i, entry, next, slot, answered⟩ := pair.first.remove_held integer inside held
        rw [← pair.ints_eq] at held
        rw [← pair.size_eq] at inside
        obtain ⟨i', entry', next', slot', answered'⟩ :=
          pair.second.remove_held integer inside held
        rw [pair.size_eq] at answered'
        rw [outputs_cons answered, outputs_cons answered', blank entry (List.mem_of_getElem? slot),
          marked entry' (List.mem_of_getElem? slot')] at same
        simp at same
      · obtain ⟨answered, answered'⟩ := pair.remove_absent integer inside held
        rw [outputs_cons answered, outputs_cons answered'] at same
        exact ⟨held, ih pair integers' blank marked (List.cons.inj same).2⟩
    | lookup node =>
      rw [NoneHeld, if_neg outside]
      obtain ⟨rc, answered, answered'⟩ := pair.lookup integer inside
      rw [outputs_cons answered, outputs_cons answered'] at same
      exact ih pair integers' blank marked (List.cons.inj same).2
    | foreach => exact integer.elim

theorem emptyTable_pair (n : Nat) (callbacks : HashTableDesc ρ) :
    Pair (emptyTable n callbacks) (emptyTable n callbacks) (List.replicate n none)
      (List.replicate n none) :=
  ⟨⟨rfl, List.length_replicate⟩, ⟨rfl, List.length_replicate⟩, rfl, rfl⟩

theorem replicate_marked (n : Nat) (str : Option CString) :
    Marked str (List.replicate n (none : Option (TableNode ρ))) := by
  intro entry member
  cases List.eq_of_mem_replicate member

/-- With integer keys the old contents of the heap stay hidden exactly as long as no node is
removed. -/
theorem ignoresHeap_iff (n : Nat) (callbacks : HashTableDesc ρ) (ops : List (Op ρ))
    (integers : ∀ op ∈ ops, op.Integer) :
    IgnoresHeap n callbacks ops ↔ NoneHeld n 0 ops := by
  have pair := emptyTable_pair n callbacks
  have nothing : stored (ints (List.replicate n (none : Option (TableNode ρ)))) = 0 := by
    rw [ints, List.map_replicate]
    exact stored_replicate n
  rw [← nothing]
  constructor
  · intro ignores
    apply pair.noneHeld integers (replicate_marked n none) (replicate_marked n (some []))
    exact (ignores _ (mark_alike (some []) ops)).trans (ignores _ (mark_alike none ops)).symm
  · intro none ops' alike
    exact pair.outputs_eq integers alike none

/-- An integer that is stored and looked up. -/
theorem ignoresHeap_of_lookup :
    IgnoresHeap 1 (⟨none, 0, none, true, false, false⟩ : HashTableDesc Unit)
      [.insert ⟨none, 5, 0, none⟩ ⟨some ⟨some ['x'], 0, 0, none⟩, true⟩,
        .lookup ⟨none, 5, 0, none⟩] := by
  apply (ignoresHeap_iff 1 _ _ _).mpr
  · simp [NoneHeld, Op.hash]
  · intro op member
    simp only [List.mem_cons, List.not_mem_nil, or_false] at member
    rcases member with rfl | rfl
    · rfl
    · rfl

/-- The string pointer of a removed integer is whatever the block held before. -/
theorem remove_shows_heap :
    ¬ IgnoresHeap 1 (⟨none, 0, none, true, false, false⟩ : HashTableDesc Unit)
      [.insert ⟨none, 5, 0, none⟩ ⟨some ⟨none, 0, 0, none⟩, true⟩, .remove ⟨none, 5, 0, none⟩] := by
  intro ignores
  have same := ignores
    [.insert ⟨none, 5, 0, none⟩ ⟨some ⟨some ['x'], 0, 0, none⟩, true⟩, .remove ⟨none, 5, 0, none⟩]
    (.cons (.block ..) (.cons (.same _) .nil))
  have shown : ∀ (l l' : List CString), Except.ok (Output.removed 0 [(none : Option Unit)] l) =
      (Except.ok (Output.removed 0 [none] l') : Except Fault (Output Unit)) → l = l' := by
    intro l l' equal
    cases equal
    rfl
  cases shown [['x']] [] (List.cons.inj (List.cons.inj same).2).1

end Runs

end Ct.Ccutils.Utable
