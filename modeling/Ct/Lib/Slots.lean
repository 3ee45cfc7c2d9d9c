import Mathlib.Data.Multiset.AddSub

set_option autoImplicit false

namespace Ct.Lib

universe u

variable {α : Type u}

/-- What a table of slots stores, whatever the slots. -/
def stored (slots : List (Option α)) : Multiset α := (slots.filterMap id : List α)

variable {slots : List (Option α)} {i : Nat} {x : α}

theorem mem_stored : x ∈ stored slots ↔ ∃ i : Nat, slots[i]? = some (some x) := by
  simp only [stored, Multiset.mem_coe, List.mem_filterMap, id, exists_eq_right]
  exact List.mem_iff_getElem?

theorem stored_replicate (n : Nat) : stored (List.replicate n (none : Option α)) = 0 := by
  simp [stored]

theorem stored_cons (slot : Option α) (rest : List (Option α)) :
    stored (slot :: rest) = slot.elim (stored rest) fun x => x ::ₘ stored rest := by
  cases slot with
  | none => rfl
  | some x => rfl

/-- Filling a free slot adds one copy. -/
theorem stored_fill (free : slots[i]? = some none) (x : α) :
    stored (slots.set i (some x)) = x ::ₘ stored slots := by
  induction slots generalizing i with
  | nil => cases free
  | cons slot rest ih =>
    cases i with
    | zero =>
      cases free
      rfl
    | succ i =>
      rw [List.set_cons_succ, stored_cons, stored_cons, ih free]
      cases slot with
      | none => rfl
      | some other =>
        rw [Option.elim_some, Option.elim_some]
        exact Multiset.cons_swap ..

/-- Emptying a slot deletes one copy. -/
theorem stored_clear (full : slots[i]? = some (some x)) :
    x ::ₘ stored (slots.set i none) = stored slots := by
  obtain ⟨inside, here⟩ := List.getElem?_eq_some_iff.mp full
  have again : (slots.set i none).set i (some x) = slots := by
    rw [List.set_set, ← here, List.set_getElem_self]
  rw [← stored_fill (List.getElem?_set_self inside), again]

theorem card_stored_le (slots : List (Option α)) : (stored slots).card ≤ slots.length := by
  rw [stored, Multiset.coe_card]
  exact List.length_filterMap_le _ _

theorem card_stored_lt (free : slots[i]? = some none) : (stored slots).card < slots.length := by
  induction slots generalizing i with
  | nil => cases free
  | cons slot rest ih =>
    rw [stored_cons, List.length_cons]
    cases i with
    | zero =>
      cases free
      exact Nat.lt_succ_of_le (card_stored_le rest)
    | succ i =>
      have tail := ih (i := i) free
      cases slot with
      | none => exact Nat.lt_succ_of_lt tail
      | some other =>
        rw [Option.elim_some, Multiset.card_cons]
        exact Nat.succ_lt_succ tail

theorem card_stored_eq (full : ∀ i, i < slots.length → ∃ x, slots[i]? = some (some x)) :
    (stored slots).card = slots.length := by
  induction slots with
  | nil => rfl
  | cons slot rest ih =>
    obtain ⟨x, here⟩ := full 0 (Nat.zero_lt_succ _)
    cases here
    have tail := ih (fun i below => full (i + 1) (Nat.succ_lt_succ below))
    rw [stored_cons, Option.elim_some, Multiset.card_cons, tail, List.length_cons]

end Ct.Lib
