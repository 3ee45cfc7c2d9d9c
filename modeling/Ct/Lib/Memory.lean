import Ct.Lib.Fault

set_option autoImplicit false

namespace Ct.Lib

universe u

variable {α : Type u}

/-- `memcpy` to the start of an object. -/
def memcpy (dst src : List α) : Except Fault (List α) :=
  if src.length ≤ dst.length then .ok (src ++ dst.drop src.length) else .error .outOfBounds

theorem memcpy_nil (dst : List α) : memcpy dst [] = .ok dst := rfl

theorem memcpy_fits {dst src : List α} (fits : src.length ≤ dst.length) :
    memcpy dst src = .ok (src ++ dst.drop src.length) := if_pos fits

theorem memcpy_outside {dst src new : List α} (copied : memcpy dst src = .ok new) {i : Nat}
    (outside : src.length ≤ i) : new[i]? = dst[i]? := by
  unfold memcpy at copied
  split at copied
  · cases copied
    rw [List.getElem?_append_right outside, List.getElem?_drop]
    congr 1
    omega
  · cases copied

theorem getElem?_front (front : List α) (c : α) (rest : List α) :
    (front ++ c :: rest)[front.length]? = some c := by
  rw [List.getElem?_append_right (Nat.le_refl _), Nat.sub_self]
  rfl

theorem getElem?_behind (front word : List α) (stop : α) (tail : List α) :
    (front ++ (word ++ stop :: tail))[front.length + word.length]? = some stop := by
  rw [← List.append_assoc, ← List.length_append, getElem?_front]

theorem set_front (front rest : List α) (old c : α) :
    (front ++ old :: rest).set front.length c = front ++ c :: rest := by
  rw [List.set_append_right _ _ (Nat.le_refl _), Nat.sub_self, List.set_cons_zero]

theorem set_behind (front word tail : List α) (stop c : α) :
    (front ++ (word ++ stop :: tail)).set (front.length + word.length) c =
      front ++ (word ++ c :: tail) := by
  rw [← List.append_assoc, ← List.length_append, set_front, List.append_assoc]

theorem append_cell (front word : List α) (stop : α) (text : List α) :
    front ++ (word ++ [stop]) ++ text = front ++ (word ++ stop :: text) := by
  rw [List.append_assoc, List.append_assoc, List.singleton_append]

theorem length_cell (front word : List α) (stop : α) :
    (front ++ (word ++ [stop])).length = front.length + word.length + 1 := by
  rw [List.length_append, List.length_append, List.length_singleton, Nat.add_assoc]

/-- A cell is stored behind those that are there. -/
theorem prefix_set {line buffer : List α} (start : line <+: buffer)
    (room : line.length < buffer.length) (c : α) :
    line ++ [c] <+: buffer.set line.length c := by
  obtain ⟨rest, rfl⟩ := start
  cases rest with
  | nil =>
    rw [List.append_nil] at room
    exact absurd room (Nat.lt_irrefl _)
  | cons d rest =>
    rw [set_front]
    exact ⟨rest, by rw [List.append_assoc, List.singleton_append]⟩

/-- One more cell is the one behind those that are there. -/
theorem prefix_snoc_iff {front whole : List α} (start : front <+: whole) (c : α) :
    front ++ [c] <+: whole ↔ whole[front.length]? = some c := by
  obtain ⟨rest, rfl⟩ := start
  rw [List.prefix_append_right_inj, List.getElem?_append_right (Nat.le_refl _), Nat.sub_self]
  cases rest with
  | nil => simp
  | cons d rest => simp [eq_comm]

/-- Memory after these cells have been stored from `addr` on. -/
def overwrite (mem : List α) (addr : Nat) (cells : List α) : List α :=
  mem.take addr ++ cells ++ mem.drop (addr + cells.length)

section Overwrite

variable {mem cells : List α} {addr n : Nat}

theorem overwrite_length (fits : addr + cells.length ≤ mem.length) :
    (overwrite mem addr cells).length = mem.length := by
  rw [overwrite, List.length_append, List.length_append, List.length_take, List.length_drop]
  omega

theorem overwrite_getElem? (fits : addr + cells.length ≤ mem.length) (i : Nat) :
    (overwrite mem addr cells)[i]? =
      if addr ≤ i ∧ i < addr + cells.length then cells[i - addr]? else mem[i]? := by
  have front : (mem.take addr).length = addr := by
    rw [List.length_take]
    omega
  rw [overwrite, List.append_assoc]
  by_cases before : i < addr
  · rw [List.getElem?_append_left (by omega), if_neg (by omega), List.getElem?_take_of_lt before]
  · rw [List.getElem?_append_right (by omega), front]
    by_cases inside : i < addr + cells.length
    · rw [List.getElem?_append_left (by omega), if_pos (by omega)]
    · rw [List.getElem?_append_right (by omega), if_neg (by omega), List.getElem?_drop]
      congr 1
      omega

theorem overwrite_drop_self (inside : addr ≤ mem.length) :
    (overwrite mem addr cells).drop addr = cells ++ mem.drop (addr + cells.length) := by
  have front : (mem.take addr).length = addr := by
    rw [List.length_take]
    omega
  rw [overwrite, List.append_assoc]
  exact List.drop_left' front

theorem overwrite_drop (inside : addr ≤ mem.length) (behind : addr + cells.length ≤ n) :
    (overwrite mem addr cells).drop n = mem.drop n := by
  obtain ⟨more, rfl⟩ : ∃ more, n = addr + (cells.length + more) :=
    ⟨n - addr - cells.length, by omega⟩
  rw [← List.drop_drop, overwrite_drop_self inside, List.drop_append, List.drop_drop,
    List.drop_eq_nil_of_le (Nat.le_add_right _ _)]
  rw [List.nil_append, Nat.add_sub_cancel_left, Nat.add_assoc]

/-- Between the start of a region and the stored cells nothing changes. -/
theorem overwrite_drop_take {start len : Nat} (before : start + len ≤ addr)
    (inside : addr ≤ mem.length) :
    ((overwrite mem addr cells).drop start).take len = (mem.drop start).take len := by
  rw [overwrite, List.append_assoc, List.drop_append_of_le_length, List.take_append_of_le_length,
    List.drop_take, List.take_take, Nat.min_eq_left (by omega)]
  · rw [List.length_drop, List.length_take]
    omega
  · rw [List.length_take]
    omega

theorem set_eq_overwrite (cell : α) (inside : addr < mem.length) :
    mem.set addr cell = overwrite mem addr [cell] := by
  rw [overwrite, List.set_eq_take_append_cons_drop, if_pos inside, List.append_assoc]
  rfl

/-- A store in a region of memory, seen from the start of that region. -/
theorem overwrite_drop_inside {start : Nat} (inside : start + addr ≤ mem.length) :
    (overwrite mem (start + addr) cells).drop start = overwrite (mem.drop start) addr cells := by
  rw [overwrite, overwrite, List.append_assoc, List.drop_append_of_le_length, List.drop_take,
    Nat.add_sub_cancel_left, List.drop_drop, ← Nat.add_assoc, List.append_assoc]
  rw [List.length_take]
  omega

/-- A second store to the same cells replaces the first. -/
theorem overwrite_again {other : List α} (same : cells.length = other.length)
    (inside : addr ≤ mem.length) :
    overwrite (overwrite mem addr cells) addr other = overwrite mem addr other := by
  have front : (mem.take addr).length = addr := by
    rw [List.length_take]
    omega
  rw [overwrite, overwrite_drop inside (by omega), overwrite, overwrite,
    List.append_assoc (mem.take addr) cells, List.take_left' front]

/-- Stores that follow each other are one store. -/
theorem overwrite_overwrite {first second : List α} (fits : addr + first.length ≤ mem.length) :
    overwrite (overwrite mem addr first) (addr + first.length) second =
      overwrite mem addr (first ++ second) := by
  have front : (mem.take addr ++ first).length = addr + first.length := by
    rw [List.length_append, List.length_take]
    omega
  have behind : (overwrite mem addr first).drop (addr + first.length + second.length) =
      mem.drop (addr + (first ++ second).length) := by
    rw [List.length_append, ← Nat.add_assoc]
    exact overwrite_drop (by omega) (Nat.le_add_right _ _)
  rw [overwrite, behind, overwrite, overwrite, List.take_left' front, List.append_assoc
    (mem.take addr)]

end Overwrite

end Ct.Lib
