import Ct.Lib.Fault
import Mathlib.Data.List.Basic

set_option autoImplicit false

namespace Ct.Lib

universe u

/-- Visit the slots of a table of `n` slots from `i` on, wrapping after the last one, until a
visit hits or the walk is back at `start`. -/
def probe {β : Type u} (n start : Nat) (visit : Nat → Option β) :
    Nat → Nat → Except Fault (Option β)
  | 0, _ => .error .outOfFuel
  | fuel + 1, i =>
    match visit i with
    | some hit => .ok (some hit)
    | none =>
      let next := if i ≥ n - 1 then 0 else i + 1
      if next = start then .ok none else probe n start visit fuel next

/-- The `k`th slot visited from `start`. -/
def slotAt (n start k : Nat) : Nat := (start + k) % n

section Probe

variable {β : Type u} {n start : Nat}

theorem slotAt_zero (inside : start < n) : slotAt n start 0 = start := Nat.mod_eq_of_lt inside

theorem slotAt_lt (inside : start < n) (k : Nat) : slotAt n start k < n :=
  Nat.mod_lt _ (Nat.zero_lt_of_lt inside)

/-- The next slot in the order of visits, for a cursor that wraps when it reaches the end. -/
theorem slotAt_wrap (inside : start < n) (k : Nat) :
    (if slotAt n start k + 1 = n then 0 else slotAt n start k + 1) = slotAt n start (k + 1) := by
  have below := slotAt_lt inside k
  have next : slotAt n start (k + 1) = (slotAt n start k + 1) % n := by
    rw [slotAt, slotAt, ← Nat.add_assoc, Nat.mod_add_mod]
  rw [next]
  by_cases last : slotAt n start k + 1 = n
  · rw [if_pos last, last, Nat.mod_self]
  · rw [if_neg last, Nat.mod_eq_of_lt (by omega)]

/-- The step of the walk is the next slot in the order of visits. -/
theorem slotAt_succ (inside : start < n) (k : Nat) :
    (if slotAt n start k ≥ n - 1 then 0 else slotAt n start k + 1) = slotAt n start (k + 1) := by
  have below := slotAt_lt inside k
  have same : slotAt n start k ≥ n - 1 ↔ slotAt n start k + 1 = n := by omega
  simp only [same, slotAt_wrap inside]

/-- The walk is back at its start after `n` visits and not before. -/
theorem slotAt_eq_start (inside : start < n) {k : Nat} (positive : 0 < k) (le : k ≤ n) :
    slotAt n start k = start ↔ k = n := by
  simp only [slotAt]
  constructor
  · intro same
    by_contra short
    by_cases wrapped : start + k < n
    · rw [Nat.mod_eq_of_lt wrapped] at same
      omega
    · rw [Nat.mod_eq_sub_mod (by omega), Nat.mod_eq_of_lt (by omega)] at same
      omega
  · rintro rfl
    rw [Nat.add_mod_right, Nat.mod_eq_of_lt inside]

/-- Every slot is visited. -/
theorem exists_slotAt (inside : start < n) {i : Nat} (below : i < n) :
    ∃ k, k < n ∧ slotAt n start k = i := by
  by_cases before : i < start
  · refine ⟨i + n - start, by omega, ?_⟩
    rw [slotAt, show start + (i + n - start) = i + n by omega, Nat.add_mod_right,
      Nat.mod_eq_of_lt below]
  · refine ⟨i - start, by omega, ?_⟩
    rw [slotAt, show start + (i - start) = i by omega, Nat.mod_eq_of_lt below]

private theorem probe_from (visit : Nat → Option β) (inside : start < n) (left : Nat) :
    ∀ fuel k, k + left = n → k < n → left ≤ fuel →
      (∀ j, j < k → visit (slotAt n start j) = none) →
      (probe n start visit fuel (slotAt n start k) = .ok none ∧ ∀ i, i < n → visit i = none) ∨
      ∃ m hit, m < n ∧ visit (slotAt n start m) = some hit ∧
        (∀ j, j < m → visit (slotAt n start j) = none) ∧
        probe n start visit fuel (slotAt n start k) = .ok (some hit) := by
  induction left with
  | zero =>
    intro fuel k total below
    omega
  | succ left ih =>
    intro fuel k total below enough missed
    obtain ⟨fuel, rfl⟩ : ∃ rest, fuel = rest + 1 := ⟨fuel - 1, by omega⟩
    cases visited : visit (slotAt n start k) with
    | some hit =>
      refine Or.inr ⟨k, hit, below, visited, missed, ?_⟩
      simp only [probe, visited]
    | none =>
      have unfolded : probe n start visit (fuel + 1) (slotAt n start k) =
          if slotAt n start (k + 1) = start then .ok none
          else probe n start visit fuel (slotAt n start (k + 1)) := by
        simp only [probe, visited, slotAt_succ inside]
      have further : ∀ j, j < k + 1 → visit (slotAt n start j) = none := by
        intro j before
        by_cases last : j = k
        · rw [last, visited]
        · exact missed j (by omega)
      rw [unfolded]
      by_cases last : k + 1 = n
      · rw [if_pos ((slotAt_eq_start inside (Nat.succ_pos k) (by omega)).mpr last)]
        refine Or.inl ⟨rfl, fun i small => ?_⟩
        obtain ⟨j, early, rfl⟩ := exists_slotAt inside small
        exact further j (by omega)
      · rw [if_neg (fun back =>
          last ((slotAt_eq_start inside (Nat.succ_pos k) (by omega)).mp back))]
        exact ih fuel (k + 1) (by omega) (by omega) (by omega) further

/-- `n` visits are enough, and the walk stops at the first hit in the order of visits. -/
theorem probe_cases (visit : Nat → Option β) (inside : start < n) {fuel : Nat} (enough : n ≤ fuel) :
    (probe n start visit fuel start = .ok none ∧ ∀ i, i < n → visit i = none) ∨
    ∃ k hit, k < n ∧ visit (slotAt n start k) = some hit ∧
      (∀ j, j < k → visit (slotAt n start j) = none) ∧
      probe n start visit fuel start = .ok (some hit) := by
  have walk := probe_from visit inside n fuel 0 (by omega) (by omega) enough
    (fun j none => absurd none (Nat.not_lt_zero j))
  rwa [slotAt_zero inside] at walk

end Probe

end Ct.Lib
