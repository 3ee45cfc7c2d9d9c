import Ct.Ccutils.Utable
import Ct.Lib.Machine
import Ct.Lib.Slots

set_option autoImplicit false

namespace Ct.Ccutils.Utable

open Ct.Lib

universe u

variable {ρ : Type u}

/-- The slot stores an entry with this key. -/
def Stores (tbl : List (Option (TableNode ρ))) (i : Nat) (key : CString) : Prop :=
  ∃ node, tbl[i]? = some (some node) ∧ node.cmpStr = some key

/-- The keys of the stored entries. -/
def keys (tbl : List (Option (TableNode ρ))) : Multiset CString :=
  (tbl.filterMap fun slot => slot.bind TableNode.cmpStr : List CString)

/-- A table whose entries all have a string key, next to its slots. -/
structure Keyed (ht : HashTableDesc ρ) (tbl : List (Option (TableNode ρ))) : Prop where
  tbl_eq : ht.tbl = some tbl
  length_eq : tbl.length = ht.size
  positive : 0 < ht.size
  named : ∀ (i : Nat) node, tbl[i]? = some (some node) → ∃ key, node.cmpStr = some key

/-- The first free slot at or cyclically after `start`. -/
def FirstFree (tbl : List (Option (TableNode ρ))) (start i : Nat) : Prop :=
  ∃ k, k < tbl.length ∧ slotAt tbl.length start k = i ∧ tbl[i]? = some none ∧
    ∀ j, j < k → ∃ node, tbl[slotAt tbl.length start j]? = some (some node)

section Slots

variable {tbl : List (Option (TableNode ρ))}

theorem keys_eq (tbl : List (Option (TableNode ρ))) :
    keys tbl = stored (tbl.map fun slot => slot.bind TableNode.cmpStr) := by
  rw [stored, List.filterMap_map]
  rfl

theorem Stores.getElem? {i : Nat} {key : CString} (stores : Stores tbl i key) :
    (tbl.map fun slot => slot.bind TableNode.cmpStr)[i]? = some (some key) := by
  obtain ⟨node, here, named⟩ := stores
  rw [List.getElem?_map, here, Option.map_some, Option.bind_some, named]

theorem mem_keys {key : CString} : key ∈ keys tbl ↔ ∃ i, Stores tbl i key := by
  rw [keys_eq, mem_stored]
  apply exists_congr
  intro i
  constructor
  · intro here
    simp only [List.getElem?_map, Option.map_eq_some_iff, Option.bind_eq_some_iff] at here
    obtain ⟨_, slot, node, rfl, named⟩ := here
    exact ⟨node, slot, named⟩
  · exact Stores.getElem?

theorem keys_replicate (n : Nat) : keys (List.replicate n (none : Option (TableNode ρ))) = 0 := by
  rw [keys_eq, List.map_replicate]
  exact stored_replicate n

/-- Filling a free slot adds one copy of its key. -/
theorem keys_fill {i : Nat} {node : TableNode ρ} {key : CString} (free : tbl[i]? = some none)
    (named : node.cmpStr = some key) : keys (tbl.set i (some node)) = key ::ₘ keys tbl := by
  rw [keys_eq, keys_eq, List.map_set, Option.bind_some, named]
  apply stored_fill
  rw [List.getElem?_map, free]
  rfl

/-- Emptying a slot deletes one copy of its key. -/
theorem keys_clear {i : Nat} {key : CString} (stores : Stores tbl i key) :
    key ::ₘ keys (tbl.set i none) = keys tbl := by
  rw [keys_eq, keys_eq, List.map_set]
  exact stored_clear stores.getElem?

/-- The stored entries with their slots, in slot order. -/
def entries (tbl : List (Option (TableNode ρ))) (first : Nat) : List (Nat × TableNode ρ) :=
  (tbl.zipIdx first).filterMap fun slot => slot.1.map fun node => (slot.2, node)

theorem entries_cons (slot : Option (TableNode ρ)) (rest : List (Option (TableNode ρ)))
    (first : Nat) : entries (slot :: rest) first =
      (slot.map fun node => (first, node)).toList ++ entries rest (first + 1) := by
  cases slot <;> simp [entries, List.zipIdx_cons]

theorem mem_entries {first i : Nat} {node : TableNode ρ} :
    (i, node) ∈ entries tbl first ↔ first ≤ i ∧ tbl[i - first]? = some (some node) := by
  simp only [entries, List.mem_filterMap, Option.map_eq_some_iff, Prod.mk.injEq, Prod.exists,
    List.mk_mem_zipIdx_iff_le_and_getElem?_sub]
  constructor
  · rintro ⟨_, _, ⟨low, here⟩, _, rfl, rfl, rfl⟩
    exact ⟨low, here⟩
  · rintro ⟨low, here⟩
    exact ⟨some node, i, ⟨low, here⟩, node, rfl, rfl, rfl⟩

theorem entries_nodup (first : Nat) : (entries tbl first).Nodup := by
  induction tbl generalizing first with
  | nil => exact List.nodup_nil
  | cons slot rest ih =>
    rw [entries_cons]
    cases slot with
    | none => exact ih (first + 1)
    | some node =>
      refine List.nodup_cons.mpr ⟨fun member => ?_, ih (first + 1)⟩
      have low := (mem_entries.mp member).1
      omega

theorem card_keys_lt {i : Nat} (free : tbl[i]? = some none) : (keys tbl).card < tbl.length := by
  rw [keys_eq, ← List.length_map (f := fun slot => slot.bind TableNode.cmpStr)]
  apply card_stored_lt
  rw [List.getElem?_map, free]
  rfl

theorem card_keys_eq (full : ∀ i, i < tbl.length → ∃ key, Stores tbl i key) :
    (keys tbl).card = tbl.length := by
  rw [keys_eq, card_stored_eq, List.length_map]
  intro i below
  rw [List.length_map] at below
  obtain ⟨key, stores⟩ := full i below
  exact ⟨key, stores.getElem?⟩

theorem card_keys_entries (first : Nat)
    (named : ∀ (i : Nat) node, tbl[i]? = some (some node) → ∃ key, node.cmpStr = some key) :
    (entries tbl first).length = (keys tbl).card := by
  induction tbl generalizing first with
  | nil => rfl
  | cons slot rest ih =>
    have tail := ih (first + 1) (fun i node here => named (i + 1) node here)
    simp only [keys, Multiset.coe_card] at tail ⊢
    rw [entries_cons, List.length_append, tail]
    cases slot with
    | none => simp
    | some node =>
      obtain ⟨key, here⟩ := named 0 node rfl
      simp [here, Nat.add_comm]

end Slots

variable {ht : HashTableDesc ρ} {tbl : List (Option (TableNode ρ))} {node : TableNode ρ}
  {key : CString} {fuel : Nat}

theorem Keyed.slot_cases (keyed : Keyed ht tbl) {i : Nat} (below : i < ht.size) :
    tbl[i]? = some none ∨ ∃ entry, tbl[i]? = some (some entry) := by
  have inside : i < tbl.length := Nat.lt_of_lt_of_eq below keyed.length_eq.symm
  rw [List.getElem?_eq_getElem inside]
  cases tbl[i] with
  | none => exact Or.inl rfl
  | some entry => exact Or.inr ⟨entry, rfl⟩

theorem lookupVisit_none (named : node.cmpStr = some key) {i : Nat}
    (missed : lookupVisit tbl node i = none) : ¬ Stores tbl i key := by
  rintro ⟨entry, here, same⟩
  simp [lookupVisit, here, named, same] at missed

theorem lookupVisit_some (keyed : Keyed ht tbl) (named : node.cmpStr = some key) {i : Nat}
    {hit : Except Fault Int} (below : i < ht.size) (visited : lookupVisit tbl node i = some hit) :
    hit = .ok i ∧ Stores tbl i key := by
  rcases keyed.slot_cases below with free | ⟨entry, here⟩
  · simp [lookupVisit, free] at visited
  · obtain ⟨other, same⟩ := keyed.named i entry here
    simp only [lookupVisit, here, named, same] at visited
    split at visited
    · rename_i equal
      cases visited
      exact ⟨rfl, entry, here, equal ▸ same⟩
    · cases visited

/-- The walk of `hash_table_lookup` passes over empty slots, so no entry hides behind a slot
that was emptied. -/
theorem hashTableLookup_spec (keyed : Keyed ht tbl) (named : node.cmpStr = some key)
    (inside : node.hash < ht.size) (enough : ht.size ≤ fuel) :
    (hashTableLookup fuel ht node = .ok (-1) ∧ key ∉ keys tbl) ∨
      ∃ i : Nat, hashTableLookup fuel ht node = .ok i ∧ Stores tbl i key := by
  have positive := keyed.positive
  have open_ : ¬ ht.size ≤ 0 := by omega
  rcases probe_cases (lookupVisit tbl node) inside enough with
    ⟨missed, none⟩ | ⟨k, hit, below, visited, _, found⟩
  · refine Or.inl ⟨?_, fun member => ?_⟩
    · simp only [hashTableLookup, keyed.tbl_eq, open_, ↓reduceIte, missed]
    · obtain ⟨i, stores⟩ := mem_keys.mp member
      obtain ⟨entry, here, same⟩ := stores
      have small : i < ht.size := keyed.length_eq ▸ (List.getElem?_eq_some_iff.mp here).1
      exact lookupVisit_none named (none i small) ⟨entry, here, same⟩
  · obtain ⟨rfl, stores⟩ := lookupVisit_some keyed named (slotAt_lt inside k) visited
    refine Or.inr ⟨_, ?_, stores⟩
    simp only [hashTableLookup, keyed.tbl_eq, open_, ↓reduceIte, found]

theorem hashTableInsert_spec (block : TableNode ρ) (strdup : Bool) (keyed : Keyed ht tbl)
    (inside : node.hash < ht.size) (enough : ht.size ≤ fuel) :
    (hashTableInsert fuel ht node ⟨some block, strdup⟩ = .ok ⟨-1, ht, true⟩ ∧
        ∀ i, i < ht.size → ∃ entry, tbl[i]? = some (some entry)) ∨
      ∃ i : Nat, FirstFree tbl node.hash i ∧
        hashTableInsert fuel ht node ⟨some block, strdup⟩ =
          .ok ⟨i, { ht with tbl := some (tbl.set i (some (fillNode ht node block strdup))) },
            false⟩ := by
  have positive := keyed.positive
  have open_ : ¬ ht.size ≤ 0 := by omega
  have occupied : ∀ i, i < ht.size → insertVisit tbl i = none →
      ∃ entry, tbl[i]? = some (some entry) := by
    intro i below silent
    rcases keyed.slot_cases below with free | stored
    · simp [insertVisit, free] at silent
    · exact stored
  rcases probe_cases (insertVisit tbl) inside enough with
    ⟨missed, none⟩ | ⟨k, hit, below, visited, before, found⟩
  · refine Or.inl ⟨?_, fun i small => occupied i small (none i small)⟩
    simp only [hashTableInsert, keyed.tbl_eq, open_, ↓reduceIte, missed]
  · rcases keyed.slot_cases (slotAt_lt inside k) with free | ⟨entry, stored⟩
    · rw [insertVisit, free] at visited
      cases visited
      refine Or.inr ⟨slotAt ht.size node.hash k, ⟨k, ?_, ?_, free, ?_⟩, ?_⟩
      · exact keyed.length_eq ▸ below
      · rw [keyed.length_eq]
      · intro j early
        rw [keyed.length_eq]
        exact occupied _ (slotAt_lt inside j) (before j early)
      · simp only [hashTableInsert, keyed.tbl_eq, open_, ↓reduceIte, found]
    · rw [insertVisit, stored] at visited
      cases visited

theorem hashTableRemove_spec (keyed : Keyed ht tbl) (named : node.cmpStr = some key)
    (inside : node.hash < ht.size) (enough : ht.size ≤ fuel) :
    (hashTableRemove fuel ht node = .ok ⟨-1, ht, [], []⟩ ∧ key ∉ keys tbl) ∨
      ∃ (i : Nat) (entry : TableNode ρ), tbl[i]? = some (some entry) ∧ entry.cmpStr = some key ∧
        hashTableRemove fuel ht node =
          .ok ⟨0, { ht with tbl := some (tbl.set i none) }, if ht.remove then [entry.p] else [],
            [key]⟩ := by
  have positive := keyed.positive
  have open_ : ¬ ht.size ≤ 0 := by omega
  rcases hashTableLookup_spec keyed named inside enough with ⟨missed, absent⟩ | ⟨i, found, stores⟩
  · refine Or.inl ⟨?_, absent⟩
    simp only [hashTableRemove, keyed.tbl_eq, open_, ↓reduceIte, missed]
    rfl
  · obtain ⟨entry, here, same⟩ := stores
    refine Or.inr ⟨i, entry, here, same, ?_⟩
    have natural : ¬ (i : Int) < 0 := by omega
    simp only [hashTableRemove, keyed.tbl_eq, open_, ↓reduceIte, found, natural,
      Int.toNat_natCast, here, same, Option.toList_some]

/-- The entries handed to the `foreach` callback from slot `first` on. -/
def visits (ht : HashTableDesc ρ) (tbl : List (Option (TableNode ρ))) (first : Nat) :
    List (Nat × TableNode ρ) :=
  if ht.foreach then entries (tbl.drop first) first else []

private theorem foreachLoop_spec (left : Nat) :
    ∀ (first : Nat) (count : Int) (calls : List (Nat × TableNode ρ)),
      first + left = tbl.length →
      foreachLoop ht tbl left first count calls =
        .ok (count + (visits ht tbl first).length, calls ++ visits ht tbl first) := by
  induction left with
  | zero =>
    intro first count calls total
    have none : visits ht tbl first = [] := by
      rw [visits, List.drop_of_length_le (by omega)]
      split <;> rfl
    simp [foreachLoop, none]
  | succ left ih =>
    intro first count calls total
    have below : first < tbl.length := by omega
    have slot := List.getElem?_eq_getElem below
    have split_ : visits ht tbl first =
        (if ht.foreach then (tbl[first].map fun node => (first, node)).toList else []) ++
          visits ht tbl (first + 1) := by
      simp only [visits]
      rw [List.drop_eq_getElem_cons below, entries_cons]
      split <;> rfl
    rw [split_]
    cases stored : tbl[first] with
    | none =>
      rw [stored] at slot
      simp only [foreachLoop, slot]
      rw [ih (first + 1) count calls (by omega)]
      simp
    | some entry =>
      rw [stored] at slot
      cases set : ht.foreach with
      | false =>
        simp only [foreachLoop, slot, set, Bool.false_eq_true, ↓reduceIte, List.nil_append]
        exact ih (first + 1) count calls (by omega)
      | true =>
        simp only [foreachLoop, slot, set, ↓reduceIte]
        rw [ih (first + 1) (count + 1) _ (by omega)]
        simp only [Option.map_some, Option.toList_some, List.singleton_append, List.length_cons,
          List.append_assoc, Except.ok.injEq, Prod.mk.injEq, and_true]
        omega

theorem hashTableForeach_spec (keyed : Keyed ht tbl) :
    hashTableForeach ht = .ok ((visits ht tbl 0).length, visits ht tbl 0) := by
  have positive := keyed.positive
  have open_ : ¬ ht.size ≤ 0 := by omega
  simp only [hashTableForeach, keyed.tbl_eq, open_, ↓reduceIte]
  rw [foreachLoop_spec ht.size 0 0 [] (by rw [keyed.length_eq, Nat.zero_add])]
  simp

/-- With a callback set, the visits are the stored entries, each once. -/
theorem visits_of_set (set : ht.foreach = true) : visits ht tbl 0 = entries tbl 0 := by
  rw [visits, if_pos set, List.drop_zero]

end Ct.Ccutils.Utable
