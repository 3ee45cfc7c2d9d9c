import Ct.Lib.Memory

set_option autoImplicit false

namespace Ct.Lib

universe u

variable {α : Type u}

/-- A write from `addr` on. Where it is not whole, it has broken off, and `cells` is what it has
left in its place. -/
structure Written (α : Type u) where
  addr : Nat
  cells : List α
  whole : Bool

namespace Written

/-- The write covers this cell. -/
def Covers (w : Written α) (i : Nat) : Prop := w.addr ≤ i ∧ i < w.addr + w.cells.length

instance (w : Written α) (i : Nat) : Decidable (w.Covers i) :=
  inferInstanceAs (Decidable (_ ∧ _))

/-- The cell of the latest whole write that covers it, or of the memory at the start; the latest
write comes first. -/
def latest (start : List α) : List (Written α) → Nat → Option α
  | [], i => start[i]?
  | w :: log, i => if w.whole = true ∧ w.Covers i then w.cells[i - w.addr]? else latest start log i

/-- The latest write that covers the cell has broken off. -/
def Torn : List (Written α) → Nat → Prop
  | [], _ => False
  | w :: log, i => if w.Covers i then w.whole = false else Torn log i

/-- Every cell that is not torn holds what the latest write put there. -/
def Reflects (start : List α) (log : List (Written α)) (mem : List α) : Prop :=
  ∀ i, ¬ Torn log i → mem[i]? = latest start log i

theorem reflects_start (start : List α) : Reflects start [] start := fun _ _ => rfl

theorem Reflects.write {start mem : List α} {log : List (Written α)}
    (reflects : Reflects start log mem) (w : Written α)
    (fits : w.addr + w.cells.length ≤ mem.length) :
    Reflects start (w :: log) (overwrite mem w.addr w.cells) := by
  intro i kept
  have cell := overwrite_getElem? fits i
  rw [latest]
  by_cases covers : w.Covers i
  · simp only [Torn, covers, ↓reduceIte, Bool.not_eq_false] at kept
    rw [if_pos ⟨kept, covers⟩]
    exact cell.trans (if_pos covers)
  · simp only [Torn, covers, ↓reduceIte] at kept
    rw [if_neg fun both => covers both.2]
    exact (cell.trans (if_neg covers)).trans (reflects i kept)

end Written

end Ct.Lib
