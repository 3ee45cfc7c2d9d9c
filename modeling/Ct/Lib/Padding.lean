import Mathlib.Algebra.Group.Nat.Defs
import Mathlib.Data.List.Basic

set_option autoImplicit false

namespace Ct.Lib

universe u

variable {α : Type u}

/-- Cells stand in front of others where those stand behind them. -/
theorem append_prefix_iff {first second whole : List α} :
    first ++ second <+: whole ↔ first <+: whole ∧ second <+: whole.drop first.length := by
  constructor
  · rintro ⟨rest, rfl⟩
    rw [List.append_assoc, List.drop_left]
    exact ⟨List.prefix_append .., List.prefix_append ..⟩
  · rintro ⟨⟨behind, rfl⟩, after⟩
    rw [List.drop_left] at after
    exact (List.prefix_append_right_inj first).mpr after

/-- Padding commutes with what it pads only where there is none, or where there is nothing else. -/
theorem append_replicate_comm {pad : α} {cells : List α} {n : Nat} :
    cells ++ List.replicate n pad = List.replicate n pad ++ cells ↔
      n = 0 ∨ ∀ cell ∈ cells, cell = pad := by
  constructor
  · intro same
    induction cells with
    | nil => exact Or.inr fun cell member => absurd member List.not_mem_nil
    | cons c cells ih =>
      cases n with
      | zero => exact Or.inl rfl
      | succ n =>
        rw [List.replicate_succ, List.cons_append, List.cons_append, List.cons.injEq,
          ← List.replicate_succ] at same
        obtain ⟨rfl, same⟩ := same
        -- the first of the padding moves behind the rest of it
        rw [List.append_cons, ← List.replicate_succ'] at same
        rcases ih same with none | all
        · cases none
        · exact Or.inr (List.forall_mem_cons.mpr ⟨rfl, all⟩)
  · rintro (rfl | all)
    · rw [List.replicate_zero, List.append_nil, List.nil_append]
    · rw [List.eq_replicate_of_mem all, List.replicate_append_replicate,
        List.replicate_append_replicate, Nat.add_comm]

end Ct.Lib
