import Ct.Ccutils.UtableBag

set_option autoImplicit false

namespace Ct.Ccutils.Utable

open Ct.Lib

universe u

variable {ρ : Type u}

/-- The node carries this string key and the start slot assigned to it. -/
def IsKey (hash : CString → Nat) (node : TableNode ρ) (key : CString) : Prop :=
  node.cmpStr = some key ∧ node.hash = hash key

inductive Op (ρ : Type u)
  | insert (node : TableNode ρ) (heap : Heap ρ)
  | remove (node : TableNode ρ)
  | lookup (node : TableNode ρ)
  | foreach

/-- The operation is one on a string key, and its allocations succeed. -/
def Op.Keyed (hash : CString → Nat) : Op ρ → Prop
  | .insert node heap =>
    (∃ key, IsKey hash node key) ∧ ∃ block, heap = ⟨some block, true⟩
  | .remove node => ∃ key, IsKey hash node key
  | .lookup node => ∃ key, IsKey hash node key
  | .foreach => True

def applyOp (fuel : Nat) (ht : HashTableDesc ρ) : Op ρ → Except Fault (HashTableDesc ρ)
  | .insert node heap => (hashTableInsert fuel ht node heap).map Inserted.table
  | .remove node => (hashTableRemove fuel ht node).map Removed.table
  | .lookup node => (hashTableLookup fuel ht node).map fun _ => ht
  | .foreach => (hashTableForeach ht).map fun _ => ht

/-- The table under a sequence of operations, each allowed `fuel` probes. -/
def table (fuel : Nat) : Machine (HashTableDesc ρ) (Op ρ) :=
  ⟨fun ht op => (applyOp fuel ht op).toOption⟩

/-- What the table is for: a multiset of at most `cap` keys. -/
def bagStep (cap : Nat) (bag : Multiset CString) : Op ρ → Multiset CString
  | .insert node _ =>
    match node.cmpStr with
    | some key => if bag.card < cap then key ::ₘ bag else bag
    | none => bag
  | .remove node =>
    match node.cmpStr with
    | some key => bag.erase key
    | none => bag
  | .lookup _ => bag
  | .foreach => bag

/-- The table before the first operation: `n` null pointers. -/
def emptyTable (n : Nat) (callbacks : HashTableDesc ρ) : HashTableDesc ρ :=
  { callbacks with tbl := some (List.replicate n none), size := n }

variable {ht : HashTableDesc ρ} {tbl : List (Option (TableNode ρ))} {key : CString}
  {node : TableNode ρ}

theorem emptyTable_keyed {n : Nat} (positive : 0 < n) (callbacks : HashTableDesc ρ) :
    Keyed (emptyTable n callbacks) (List.replicate n none) where
  tbl_eq := rfl
  length_eq := List.length_replicate
  positive := positive
  named := by
    intro i node here
    have free := List.eq_of_mem_replicate (List.mem_of_getElem? here)
    cases free

/-- A slot gets another entry, or none. -/
theorem Keyed.set {i : Nat} {slot : Option (TableNode ρ)} (keyed : Keyed ht tbl)
    (named : ∀ entry, slot = some entry → ∃ key, entry.cmpStr = some key) :
    Keyed { ht with tbl := some (tbl.set i slot) } (tbl.set i slot) where
  tbl_eq := rfl
  length_eq := by
    rw [List.length_set]
    exact keyed.length_eq
  positive := keyed.positive
  named := by
    intro j entry here
    rcases List.mem_or_eq_of_mem_set (List.mem_of_getElem? here) with old | new
    · obtain ⟨k, stored⟩ := List.mem_iff_getElem?.mp old
      exact keyed.named k entry stored
    · exact named entry new.symm

theorem Keyed.fill {i : Nat} (keyed : Keyed ht tbl) (named : node.cmpStr = some key) :
    Keyed { ht with tbl := some (tbl.set i (some node)) } (tbl.set i (some node)) := by
  apply keyed.set
  intro entry new
  cases new
  exact ⟨key, named⟩

theorem Keyed.clear {i : Nat} (keyed : Keyed ht tbl) :
    Keyed { ht with tbl := some (tbl.set i none) } (tbl.set i none) := by
  apply keyed.set
  intro entry new
  cases new

/-- Every slot is occupied. -/
def Full (tbl : List (Option (TableNode ρ))) : Prop :=
  ∀ i, i < tbl.length → ∃ entry, tbl[i]? = some (some entry)

theorem FirstFree.not_full {start i : Nat} (first : FirstFree tbl start i) : ¬ Full tbl := by
  obtain ⟨k, _, _, free, _⟩ := first
  intro full
  obtain ⟨entry, stored⟩ := full i (List.getElem?_eq_some_iff.mp free).1
  rw [free] at stored
  cases stored

theorem Keyed.card_of_full (keyed : Keyed ht tbl) (full : Full tbl) :
    (keys tbl).card = ht.size := by
  rw [← keyed.length_eq]
  apply card_keys_eq
  intro i below
  obtain ⟨entry, stored⟩ := full i below
  obtain ⟨key, named⟩ := keyed.named i entry stored
  exact ⟨key, entry, stored, named⟩

theorem FirstFree.card_lt {start i : Nat} (keyed : Keyed ht tbl) (first : FirstFree tbl start i) :
    (keys tbl).card < ht.size := by
  obtain ⟨k, _, _, free, _⟩ := first
  rw [← keyed.length_eq]
  exact card_keys_lt free

theorem fillNode_cmpStr {block : TableNode ρ} (named : node.cmpStr = some key) :
    (fillNode ht node block true).cmpStr = some key := by
  simp only [fillNode, named, ↓reduceIte]

/-- One operation takes the table to one that represents the next multiset. -/
theorem applyOp_bag {hash : CString → Nat} {op : Op ρ} (keyed : Keyed ht tbl)
    (starts : ∀ key, hash key < ht.size) (opKeyed : op.Keyed hash) :
    ∃ next tbl', applyOp ht.size ht op = .ok next ∧ Keyed next tbl' ∧ next.size = ht.size ∧
      next.foreach = ht.foreach ∧ keys tbl' = bagStep ht.size (keys tbl) op := by
  cases op with
  | insert node heap =>
    obtain ⟨⟨key, named, startsAt⟩, block, rfl⟩ := opKeyed
    have inside : node.hash < ht.size := startsAt ▸ starts key
    rcases hashTableInsert_spec block true keyed inside (Nat.le_refl _) with
      ⟨overflow, full⟩ | ⟨i, first, inserted⟩
    · refine ⟨ht, tbl, by simp only [applyOp, overflow, Except.map], keyed, rfl, rfl, ?_⟩
      have card := keyed.card_of_full (fun i below => full i (keyed.length_eq ▸ below))
      simp only [bagStep, named, card, Nat.lt_irrefl, ↓reduceIte]
    · refine ⟨_, _, by simp only [applyOp, inserted, Except.map]; rfl,
        keyed.fill (fillNode_cmpStr named), rfl, rfl, ?_⟩
      have room := first.card_lt keyed
      obtain ⟨k, _, _, free, _⟩ := first
      simp only [bagStep, named, room, ↓reduceIte]
      exact keys_fill free (fillNode_cmpStr named)
  | remove node =>
    obtain ⟨key, named, startsAt⟩ := opKeyed
    have inside : node.hash < ht.size := startsAt ▸ starts key
    rcases hashTableRemove_spec keyed named inside (Nat.le_refl _) with
      ⟨missed, absent⟩ | ⟨i, entry, stored, same, removed⟩
    · refine ⟨ht, tbl, by simp only [applyOp, missed, Except.map], keyed, rfl, rfl, ?_⟩
      simp only [bagStep, named]
      exact (Multiset.erase_of_notMem absent).symm
    · refine ⟨_, _, by simp only [applyOp, removed, Except.map]; rfl, keyed.clear, rfl, rfl, ?_⟩
      simp only [bagStep, named]
      rw [← keys_clear ⟨entry, stored, same⟩, Multiset.erase_cons_head]
  | lookup node =>
    obtain ⟨key, named, startsAt⟩ := opKeyed
    have inside : node.hash < ht.size := startsAt ▸ starts key
    rcases hashTableLookup_spec keyed named inside (Nat.le_refl _) with ⟨missed, _⟩ | ⟨i, found, _⟩
    · exact ⟨ht, tbl, by simp only [applyOp, missed, Except.map], keyed, rfl, rfl, rfl⟩
    · exact ⟨ht, tbl, by simp only [applyOp, found, Except.map], keyed, rfl, rfl, rfl⟩
  | foreach =>
    exact ⟨ht, tbl, by simp only [applyOp, hashTableForeach_spec keyed, Except.map], keyed,
      rfl, rfl, rfl⟩

/-- What every call does on a table of `n` slots that represents `bag`. -/
structure Answers (n : Nat) (hash : CString → Nat) (ht : HashTableDesc ρ)
    (tbl : List (Option (TableNode ρ))) (bag : Multiset CString) : Prop where
  found : ∀ node key, IsKey hash node key → key ∈ bag →
    ∃ i : Nat, hashTableLookup n ht node = .ok i ∧ Stores tbl i key
  notFound : ∀ node key, IsKey hash node key → key ∉ bag →
    hashTableLookup n ht node = .ok (-1)
  insertFull : ∀ node key block, IsKey hash node key → Full tbl →
    hashTableInsert n ht node ⟨some block, true⟩ = .ok ⟨-1, ht, true⟩
  insertFree : ∀ node key block, IsKey hash node key → ¬ Full tbl →
    ∃ (i : Nat) (new : TableNode ρ), FirstFree tbl (hash key) i ∧ new.cmpStr = some key ∧
      hashTableInsert n ht node ⟨some block, true⟩ =
        .ok ⟨i, { ht with tbl := some (tbl.set i (some new)) }, false⟩
  removeAbsent : ∀ node key, IsKey hash node key → key ∉ bag →
    ∃ removed, hashTableRemove n ht node = .ok removed ∧ removed.rc = -1 ∧ removed.table = ht
  removePresent : ∀ node key, IsKey hash node key → key ∈ bag →
    ∃ (i : Nat) (removed : Removed ρ), Stores tbl i key ∧
      hashTableRemove n ht node = .ok removed ∧ removed.rc = 0 ∧
      removed.table = { ht with tbl := some (tbl.set i none) }
  foreach : ht.foreach = true →
    ∃ calls, hashTableForeach ht = .ok ((bag.card : Int), calls) ∧ calls.Nodup ∧
      ∀ i node, (i, node) ∈ calls ↔ tbl[i]? = some (some node)

theorem Keyed.answers {hash : CString → Nat} (keyed : Keyed ht tbl)
    (starts : ∀ key, hash key < ht.size) : Answers ht.size hash ht tbl (keys tbl) := by
  constructor
  · rintro node key ⟨named, startsAt⟩ member
    rcases hashTableLookup_spec keyed named (startsAt ▸ starts key) (Nat.le_refl _) with
      ⟨_, absent⟩ | here
    · exact absurd member absent
    · exact here
  · rintro node key ⟨named, startsAt⟩ absent
    rcases hashTableLookup_spec keyed named (startsAt ▸ starts key) (Nat.le_refl _) with
      ⟨missed, _⟩ | ⟨i, _, stores⟩
    · exact missed
    · exact absurd (mem_keys.mpr ⟨i, stores⟩) absent
  · rintro node key block ⟨named, startsAt⟩ full
    rcases hashTableInsert_spec block true keyed (startsAt ▸ starts key) (Nat.le_refl _) with
      ⟨overflow, _⟩ | ⟨i, first, _⟩
    · exact overflow
    · exact absurd full first.not_full
  · rintro node key block ⟨named, startsAt⟩ room
    rcases hashTableInsert_spec block true keyed (startsAt ▸ starts key) (Nat.le_refl _) with
      ⟨_, full⟩ | ⟨i, first, inserted⟩
    · exact absurd (fun i below => full i (keyed.length_eq ▸ below)) room
    · exact ⟨i, _, startsAt ▸ first, fillNode_cmpStr named, inserted⟩
  · rintro node key ⟨named, startsAt⟩ absent
    rcases hashTableRemove_spec keyed named (startsAt ▸ starts key) (Nat.le_refl _) with
      ⟨missed, _⟩ | ⟨i, entry, stored, same, _⟩
    · exact ⟨_, missed, rfl, rfl⟩
    · exact absurd (mem_keys.mpr ⟨i, entry, stored, same⟩) absent
  · rintro node key ⟨named, startsAt⟩ member
    rcases hashTableRemove_spec keyed named (startsAt ▸ starts key) (Nat.le_refl _) with
      ⟨_, absent⟩ | ⟨i, entry, stored, same, removed⟩
    · exact absurd member absent
    · exact ⟨i, _, ⟨entry, stored, same⟩, removed, rfl, rfl⟩
  · intro set
    refine ⟨entries tbl 0, ?_, entries_nodup 0, fun i node => ?_⟩
    · rw [hashTableForeach_spec keyed, visits_of_set set, card_keys_entries 0 keyed.named]
    · rw [mem_entries, Nat.sub_zero, and_iff_right (Nat.zero_le i)]

theorem run_bag {hash : CString → Nat} (ops : List (Op ρ)) (keyed : Keyed ht tbl)
    (starts : ∀ key, hash key < ht.size) (opsKeyed : ∀ op ∈ ops, op.Keyed hash) :
    ∃ final tbl', (table ht.size).exec ht ops = some final ∧ Keyed final tbl' ∧
      final.size = ht.size ∧ keys tbl' = ops.foldl (bagStep ht.size) (keys tbl) := by
  induction ops generalizing ht tbl with
  | nil => exact ⟨ht, tbl, rfl, keyed, rfl, rfl⟩
  | cons op rest ih =>
    obtain ⟨next, tbl', applied, nextKeyed, size_eq, _, bag⟩ :=
      applyOp_bag keyed starts (opsKeyed op (List.mem_cons_self ..))
    obtain ⟨final, last, run, finalKeyed, finalSize, finalBag⟩ :=
      ih nextKeyed (fun key => size_eq ▸ starts key)
        (fun later member => opsKeyed later (List.mem_cons_of_mem _ member))
    refine ⟨final, last, ?_, finalKeyed, finalSize.trans size_eq, ?_⟩
    · rw [Machine.exec_cons]
      exact ⟨next, by simp only [table, applied, Except.toOption], size_eq ▸ run⟩
    · rw [finalBag, size_eq, bag, List.foldl_cons]

/-- Every sequence of calls terminates within `n` probes a call, and the table it leaves
represents the multiset of the keys inserted and not yet removed. -/
theorem hash_table_bag (n : Nat) (positive : 0 < n) (hash : CString → Nat)
    (starts : ∀ key, hash key < n) (callbacks : HashTableDesc ρ) (ops : List (Op ρ))
    (opsKeyed : ∀ op ∈ ops, op.Keyed hash) :
    ∃ ht tbl, (table n).exec (emptyTable n callbacks) ops = some ht ∧ ht.tbl = some tbl ∧
      tbl.length = n ∧ keys tbl = ops.foldl (bagStep n) 0 ∧ Answers n hash ht tbl (keys tbl) := by
  obtain ⟨ht, tbl, run, keyed, size_eq, bag⟩ :=
    run_bag ops (emptyTable_keyed positive callbacks) starts opsKeyed
  have size_n : ht.size = n := size_eq
  refine ⟨ht, tbl, run, keyed.tbl_eq, keyed.length_eq.trans size_n, ?_, ?_⟩
  · rw [bag, keys_replicate]
    rfl
  · have answers := keyed.answers (fun key => size_n.symm ▸ starts key)
    rwa [size_n] at answers

/-- Two keys that collide in a table of three slots, the first of them removed again. -/
theorem hash_table_bag_collision :
    ∃ (ht : HashTableDesc Unit) (tbl : List (Option (TableNode Unit))),
      (table 3).exec (emptyTable 3 ⟨none, 0, none, false, true, false⟩)
        [.insert ⟨some ['a'], 0, 2, none⟩ ⟨some ⟨none, 0, 0, none⟩, true⟩,
          .insert ⟨some ['b'], 0, 2, none⟩ ⟨some ⟨none, 0, 0, none⟩, true⟩,
          .remove ⟨some ['a'], 0, 2, none⟩] = some ht ∧
      ht.tbl = some tbl ∧ keys tbl = {['b']} ∧ Answers 3 (fun _ => 2) ht tbl {['b']} := by
  obtain ⟨ht, tbl, run, same, _, bag, answers⟩ :=
    hash_table_bag 3 (by decide) (fun _ => 2) (fun _ => by decide)
      (⟨none, 0, none, false, true, false⟩ : HashTableDesc Unit)
      [.insert ⟨some ['a'], 0, 2, none⟩ ⟨some ⟨none, 0, 0, none⟩, true⟩,
        .insert ⟨some ['b'], 0, 2, none⟩ ⟨some ⟨none, 0, 0, none⟩, true⟩,
        .remove ⟨some ['a'], 0, 2, none⟩]
      (by
        intro op member
        simp only [List.mem_cons, List.not_mem_nil, or_false] at member
        rcases member with rfl | rfl | rfl
        · exact ⟨⟨['a'], rfl, rfl⟩, _, rfl⟩
        · exact ⟨⟨['b'], rfl, rfl⟩, _, rfl⟩
        · exact ⟨['a'], rfl, rfl⟩)
  have one : keys tbl = {['b']} := by
    rw [bag]
    decide
  exact ⟨ht, tbl, run, same, one, one ▸ answers⟩

end Ct.Ccutils.Utable
