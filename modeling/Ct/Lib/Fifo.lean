import Mathlib.Algebra.GroupWithZero.Nat
import Mathlib.Data.List.Basic
import Mathlib.Data.Vector.Basic

set_option autoImplicit false

namespace Ct.Lib

universe u

/-- A bounded queue together with everything that ever entered and left it. -/
structure Ledger (α : Type u) (cap : Nat) where
  inserted : List α
  extracted : List α
  items : List α
  balance : inserted = extracted ++ items
  bounded : items.length ≤ cap

namespace Ledger

variable {α : Type u} {cap : Nat}

def empty : Ledger α cap := ⟨[], [], [], rfl, Nat.zero_le _⟩

def insert (ledger : Ledger α cap) (item : α) (room : ledger.items.length < cap) :
    Ledger α cap where
  inserted := ledger.inserted ++ [item]
  extracted := ledger.extracted
  items := ledger.items ++ [item]
  balance := by rw [ledger.balance, List.append_assoc]
  bounded := by
    rw [List.length_append, List.length_singleton]
    exact room

def extract (ledger : Ledger α cap) (item : α) (rest : List α)
    (front : ledger.items = item :: rest) : Ledger α cap where
  inserted := ledger.inserted
  extracted := ledger.extracted ++ [item]
  items := rest
  balance := by rw [ledger.balance, front, List.append_assoc, List.singleton_append]
  bounded := by
    have bound := ledger.bounded
    rw [front, List.length_cons] at bound
    omega

/-- What one step of a device may do to the queue it implements. -/
inductive Step : Ledger α cap → Ledger α cap → Prop
  | stay (ledger : Ledger α cap) : Step ledger ledger
  | insert (ledger : Ledger α cap) (item : α) (room : ledger.items.length < cap) :
      Step ledger (ledger.insert item room)
  | extract (ledger : Ledger α cap) (item : α) (rest : List α)
      (front : ledger.items = item :: rest) : Step ledger (ledger.extract item rest front)

end Ledger

/-- The cell of a circular buffer at a position counted without wrapping. -/
def cellAt {α : Type u} {n : Nat} [NeZero n] (mem : Vector α n) (pos : Nat) : α :=
  mem[Fin.ofNat n pos]

/-- The `len` cells of a circular buffer from position `start` on. -/
def window {α : Type u} {n : Nat} [NeZero n] (mem : Vector α n) (start len : Nat) : List α :=
  (List.range len).map fun k => cellAt mem (start + k)

section Window

variable {α : Type u} {n : Nat} [NeZero n]

theorem cellAt_congr (mem : Vector α n) {pos other : Nat} (same : pos % n = other % n) :
    cellAt mem pos = cellAt mem other := by
  simp only [cellAt, Fin.getElem_fin, Fin.val_ofNat, same]

theorem cellAt_set_self (mem : Vector α n) (pos : Nat) (item : α) :
    cellAt (mem.setIfInBounds (pos % n) item) pos = item := by
  simp only [cellAt, Fin.getElem_fin, Fin.val_ofNat]
  exact Vector.getElem_setIfInBounds_self _

theorem cellAt_set_of_ne (mem : Vector α n) (pos cell : Nat) (item : α) (other : pos % n ≠ cell) :
    cellAt (mem.setIfInBounds cell item) pos = cellAt mem pos := by
  simp only [cellAt, Fin.getElem_fin, Fin.val_ofNat]
  exact Vector.getElem_setIfInBounds_ne _ (Ne.symm other)

@[simp] theorem length_window (mem : Vector α n) (start len : Nat) :
    (window mem start len).length = len := by
  simp only [window, List.length_map, List.length_range]

theorem window_snoc (mem : Vector α n) (start len : Nat) :
    window mem start (len + 1) = window mem start len ++ [cellAt mem (start + len)] := by
  simp only [window, List.range_succ, List.map_append, List.map_cons, List.map_nil]

theorem window_cons (mem : Vector α n) (start len : Nat) :
    window mem start (len + 1) = cellAt mem start :: window mem (start + 1) len := by
  simp only [window, List.range_succ_eq_map, List.map_cons, List.map_map, Nat.add_zero]
  congr 1
  apply List.map_congr_left
  intro k _
  simp only [Function.comp_apply, Nat.succ_eq_add_one, Nat.add_comm k 1, Nat.add_assoc]

theorem window_congr (mem : Vector α n) {start other : Nat} (len : Nat)
    (same : start % n = other % n) : window mem start len = window mem other len := by
  apply List.map_congr_left
  intro k _
  apply cellAt_congr
  rw [Nat.add_mod, same, ← Nat.add_mod]

/-- A store to a cell outside the window leaves the window as it was. -/
theorem window_set_outside (mem : Vector α n) (start len cell : Nat) (item : α)
    (outside : ∀ k, k < len → (start + k) % n ≠ cell) :
    window (mem.setIfInBounds cell item) start len = window mem start len := by
  apply List.map_congr_left
  intro k below
  exact cellAt_set_of_ne mem (start + k) cell item (outside k (List.mem_range.mp below))

end Window

end Ct.Lib
