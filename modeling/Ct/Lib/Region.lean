import Mathlib.Data.List.Basic

set_option autoImplicit false

namespace Ct.Lib

universe u

/-- A memory with a cell at each address. -/
abbrev Region (α : Type u) := Nat → α

namespace Region

variable {α : Type u}

/-- The `n` cells from `p` on. -/
def load (mem : Region α) (p n : Nat) : List α := (List.range n).map fun i => mem (p + i)

/-- The memory after these cells have been stored from `p` on. -/
def store (mem : Region α) (p : Nat) (cells : List α) : Region α :=
  fun a => if a < p then mem a else (cells[a - p]?).getD (mem a)

variable {mem : Region α} {p q n : Nat} {cells : List α}

@[simp] theorem length_load : (load mem p n).length = n := by simp [load]

theorem getElem?_load {i : Nat} (inside : i < n) : (load mem p n)[i]? = some (mem (p + i)) := by
  rw [load, List.getElem?_map, List.getElem?_range inside]
  rfl

theorem load_congr {mem' : Region α} {p' : Nat} (same : ∀ i < n, mem (p + i) = mem' (p' + i)) :
    load mem p n = load mem' p' n :=
  List.map_congr_left fun i member => same i (List.mem_range.mp member)

theorem load_add (m : Nat) : load mem p (n + m) = load mem p n ++ load mem (p + n) m := by
  rw [load, List.range_add, List.map_append, List.map_map]
  congr 1
  exact List.map_congr_left fun i _ => congrArg mem (Nat.add_assoc p n i).symm

theorem store_nil : store mem p [] = mem := by
  funext a
  simp [store]

theorem store_inside {a : Nat} {cell : α} (start : p ≤ a) (there : cells[a - p]? = some cell) :
    store mem p cells a = cell := by
  rw [store, if_neg (Nat.not_lt.mpr start), there]
  rfl

/-- A store puts its cells there, whatever the memory was. -/
theorem store_same {mem' : Region α} {a : Nat} (start : p ≤ a) (inside : a < p + cells.length) :
    store mem p cells a = store mem' p cells a := by
  have there := List.getElem?_eq_getElem (l := cells) (i := a - p) (by omega)
  rw [store_inside start there, store_inside start there]

theorem store_outside {a : Nat} (outside : a < p ∨ p + cells.length ≤ a) :
    store mem p cells a = mem a := by
  rw [store]
  split
  · rfl
  · rw [List.getElem?_eq_none (by omega)]
    rfl

theorem load_store (mem : Region α) (p : Nat) (cells : List α) :
    load (store mem p cells) p cells.length = cells := by
  apply List.ext_getElem (length_load)
  intro i inside inside'
  simp only [load, List.getElem_map, List.getElem_range]
  apply store_inside (by omega)
  rw [Nat.add_sub_cancel_left, List.getElem?_eq_getElem inside']

theorem load_stored (len : cells.length = n) : load (store mem p cells) p n = cells := by
  subst len
  exact load_store mem p cells

theorem load_store_apart (apart : p + n ≤ q ∨ q + cells.length ≤ p) :
    load (store mem q cells) p n = load mem p n :=
  load_congr fun i inside => store_outside (by omega)

/-- Stores that follow each other are one store. -/
theorem store_store (mem : Region α) (p : Nat) (first second : List α) :
    store (store mem p first) (p + first.length) second = store mem p (first ++ second) := by
  funext a
  by_cases start : a < p
  · rw [store_outside (by omega), store_outside (by omega), store_outside (by omega)]
  · rw [store, store, store, if_neg start, if_neg start]
    by_cases before : a < p + first.length
    · rw [if_pos before, List.getElem?_append_left (by omega)]
    · rw [if_neg before, List.getElem?_append_right (by omega), Nat.sub_add_eq,
        List.getElem?_eq_none (l := first) (by omega)]
      rfl

theorem store_comm {other : List α}
    (apart : p + cells.length ≤ q ∨ q + other.length ≤ p) :
    store (store mem p cells) q other = store (store mem q other) p cells := by
  funext a
  by_cases inside : p ≤ a ∧ a < p + cells.length
  · rw [store_outside (by omega)]
    exact store_same inside.1 inside.2
  · rw [store_outside (p := p) (by omega)]
    by_cases within : q ≤ a ∧ a < q + other.length
    · exact store_same within.1 within.2
    · rw [store_outside (by omega), store_outside (by omega), store_outside (by omega)]

/-- A second store to the same cells replaces the first. -/
theorem store_again {other : List α} (same : cells.length = other.length) :
    store (store mem p cells) p other = store mem p other := by
  funext a
  by_cases inside : p ≤ a ∧ a < p + other.length
  · exact store_same inside.1 inside.2
  · rw [store_outside (by omega), store_outside (by omega), store_outside (by omega)]

/-- What is there already is stored again. -/
theorem store_load : store mem p (load mem p n) = mem := by
  funext a
  by_cases inside : p ≤ a ∧ a < p + n
  · apply store_inside inside.1
    rw [getElem?_load (by omega), Nat.add_sub_cancel' inside.1]
  · exact store_outside (by rw [length_load]; omega)

/-- A store in two parts, where each part is followed by a store elsewhere. -/
theorem store_between {first second held other : List α}
    (apart : second = [] ∨ q + held.length ≤ p + first.length ∨
      p + first.length + second.length ≤ q)
    (same : held.length = other.length) :
    store (store (store (store mem p first) q held) (p + first.length) second) q other =
      store (store mem p (first ++ second)) q other := by
  rcases apart with rfl | apart
  · rw [store_nil, store_again same, List.append_nil]
  · rw [store_comm (p := q) apart, store_again same, store_store]

end Region

end Ct.Lib
