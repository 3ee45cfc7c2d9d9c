import Ct.Uart.Modtaxi
import Mathlib.Data.List.Basic

set_option autoImplicit false

namespace Ct.Uart

open Ct.Lib

/-- The xor of the first byte and the payload. -/
def checksum (payload : Bytes) : UInt8 := payload.foldl (· ^^^ ·) 0xee

/-- The frame with this payload. -/
def frame (payload : Bytes) : Bytes := 0xee :: (payload ++ [checksum payload, 0xcc])

/-- What `recv_eecc` stores of a frame whose bytes up to the first `0xcc` are these. -/
def stored (body : Bytes) : Bytes := 0xee :: (body ++ [0xcc])

/-- The bytes of `data[i]` in front of its `valid`. -/
def descBytes (mem : Bytes) (i : Nat) : Bytes := (mem.drop (descSize * i)).take validOffset

section Check

/-- A body passes when it is not empty and its last byte is the xor of what is before it. -/
def passes (sum : UInt8) (body : Bytes) : Bool :=
  !body.isEmpty && body.foldl (· ^^^ ·) sum == 0

theorem checkFrame_empty (sum : UInt8) (rest : Bytes) :
    checkFrame sum (0xcc :: rest) = .ok false := by
  cases rest with
  | nil => rfl
  | cons next rest => rfl

theorem checkFrame_last {b : UInt8} (other : b ≠ 0xcc) (sum : UInt8) (rest : Bytes) :
    checkFrame sum (b :: 0xcc :: rest) = .ok (b == sum) := by
  rw [checkFrame, if_neg other, if_pos rfl]

theorem checkFrame_more {b next : UInt8} (other : b ≠ 0xcc) (different : next ≠ 0xcc) (sum : UInt8)
    (rest : Bytes) :
    checkFrame sum (b :: next :: rest) = checkFrame (sum ^^^ b) (next :: rest) := by
  rw [checkFrame, if_neg other, if_neg different]

theorem checkFrame_ends (body : Bytes) :
    ∀ (sum : UInt8) (rest : Bytes), 0xcc ∉ body →
      checkFrame sum (body ++ 0xcc :: rest) = .ok (passes sum body) := by
  induction body with
  | nil => exact fun sum rest _ => checkFrame_empty sum rest
  | cons b more ih =>
    intro sum rest plain
    obtain ⟨other, plain⟩ := List.ne_and_not_mem_of_not_mem_cons plain
    cases more with
    | nil =>
      have last : (b == sum) = passes sum [b] := by
        rw [passes, Bool.eq_iff_iff, beq_iff_eq, Bool.and_eq_true, beq_iff_eq]
        exact ⟨fun same => ⟨rfl, UInt8.xor_eq_zero_iff.mpr same.symm⟩,
          fun zero => (UInt8.xor_eq_zero_iff.mp zero.2).symm⟩
      rw [← last]
      exact checkFrame_last (Ne.symm other) sum rest
    | cons next more =>
      have different : next ≠ 0xcc := Ne.symm (List.ne_of_not_mem_cons plain)
      have step := checkFrame_more (Ne.symm other) different sum (more ++ 0xcc :: rest)
      exact step.trans (ih (sum ^^^ b) rest plain)

theorem passes_checksum (payload : Bytes) : passes 0xee (payload ++ [checksum payload]) = true := by
  rw [passes, List.foldl_append, Bool.and_eq_true, beq_iff_eq]
  refine ⟨?_, UInt8.xor_eq_zero_iff.mpr rfl⟩
  rw [Bool.not_eq_true', List.isEmpty_eq_false_iff]
  simp

end Check

section Calcsum

variable {mem : Bytes} {i : Nat}

/-- Room for a descriptor and for those behind it. -/
theorem desc_room {left size : Nat} (room : descSize * (i + (left + 1)) ≤ size) :
    descSize * i + descSize ≤ size ∧ descSize * (i + 1 + left) ≤ size := by
  constructor
  · refine Nat.le_trans ?_ room
    rw [← Nat.mul_succ]
    exact Nat.mul_le_mul_left _ (by omega)
  · refine Nat.le_trans (Nat.le_of_eq ?_) room
    rw [Nat.add_assoc, Nat.add_comm 1]

/-- A later descriptor starts behind an earlier one. -/
theorem desc_apart {j : Nat} (above : i < j) : descSize * i + descSize ≤ descSize * j := by
  rw [← Nat.mul_succ]
  exact Nat.mul_le_mul_left _ above

/-- What `calcsum` finds for the descriptor that these bytes start with. -/
def rechecks (desc : Bytes) : Except Fault Bool :=
  checkFrame 0xee ((overwrite desc validOffset [0, 0, 0, 0]).drop 1)

/-- Memory after `data[i].valid = value`. -/
def flagged (mem : Bytes) (i : Nat) (hit : Bool) : Bytes :=
  overwrite mem (descSize * i + validOffset) [if hit then 1 else 0, 0, 0, 0]

theorem storeInt_fits (room : descSize * i + descSize ≤ mem.length) (value : UInt8) :
    storeInt mem (descSize * i + validOffset) value =
      .ok (overwrite mem (descSize * i + validOffset) [value, 0, 0, 0]) := by
  have inside : descSize * i + validOffset + 4 ≤ mem.length := room
  rw [storeInt, if_pos inside]

theorem flagged_length (room : descSize * i + descSize ≤ mem.length) (hit : Bool) :
    (flagged mem i hit).length = mem.length := overwrite_length room

theorem calcsumEntry_eq (room : descSize * i + descSize ≤ mem.length) :
    calcsumEntry mem i =
      (rechecks (mem.drop (descSize * i))).map fun hit => (hit, flagged mem i hit) := by
  have inside : descSize * i + validOffset ≤ mem.length := Nat.le_trans (Nat.le_add_right _ 4) room
  have cleared : (flagged mem i false).drop (descSize * i + 1) =
      (overwrite (mem.drop (descSize * i)) validOffset [0, 0, 0, 0]).drop 1 := by
    rw [← overwrite_drop_inside inside, List.drop_drop]
    rfl
  have again : overwrite (flagged mem i false) (descSize * i + validOffset) [1, 0, 0, 0] =
      flagged mem i true := overwrite_again rfl inside
  have room' : descSize * i + descSize ≤ (flagged mem i false).length := by
    rw [flagged_length room]
    exact room
  have first : storeInt mem (descSize * i + validOffset) 0 = .ok (flagged mem i false) :=
    storeInt_fits room 0
  rw [calcsumEntry, first]
  dsimp only
  rw [cleared, rechecks]
  cases checkFrame 0xee ((overwrite (mem.drop (descSize * i)) validOffset [0, 0, 0, 0]).drop 1) with
  | error fault => rfl
  | ok hit =>
    cases hit with
    | false => rfl
    | true =>
      dsimp only
      rw [storeInt_fits room', again]
      rfl

theorem flagged_drop {n : Nat} (room : descSize * i + descSize ≤ mem.length)
    (behind : descSize * i + descSize ≤ n) (hit : Bool) :
    (flagged mem i hit).drop n = mem.drop n :=
  overwrite_drop (Nat.le_trans (Nat.le_add_right _ 4) room) behind

theorem flagged_drop_take {start len : Nat} (room : descSize * i + descSize ≤ mem.length)
    (before : start + len ≤ descSize * i + validOffset) (hit : Bool) :
    ((flagged mem i hit).drop start).take len = (mem.drop start).take len :=
  overwrite_drop_take before (Nat.le_trans (Nat.le_add_right _ 4) room)

theorem flagged_valid (room : descSize * i + descSize ≤ mem.length) (hit : Bool) :
    valid (flagged mem i hit) i = hit := by
  have inside : descSize * i + validOffset ≤ mem.length := Nat.le_trans (Nat.le_add_right _ 4) room
  rw [valid, flagged, overwrite_drop_self inside]
  cases hit with
  | false => rfl
  | true => rfl

theorem flagged_valid_before (room : descSize * i + descSize ≤ mem.length) {j : Nat} (before : j < i)
    (hit : Bool) : valid (flagged mem i hit) j = valid mem j := by
  have apart : descSize * j + validOffset + 4 ≤ descSize * i + validOffset :=
    Nat.le_trans (desc_apart before) (Nat.le_add_right _ _)
  rw [valid, valid, flagged_drop_take room apart]

theorem flagged_descBytes (room : descSize * i + descSize ≤ mem.length) (j : Nat) (hit : Bool) :
    descBytes (flagged mem i hit) j = descBytes mem j := by
  rcases Nat.lt_or_ge i j with behind | before
  · rw [descBytes, descBytes, flagged_drop room (desc_apart behind)]
  · have apart : descSize * j + validOffset ≤ descSize * i + validOffset :=
      Nat.add_le_add_right (Nat.mul_le_mul_left _ before) _
    rw [descBytes, descBytes, flagged_drop_take room apart]

/-- A frame at the start of a descriptor decides what `calcsum` finds there. -/
theorem rechecks_stored {desc body : Bytes} (plain : 0xcc ∉ body) (room : validOffset ≤ desc.length)
    (starts : stored body <+: desc.take validOffset) : rechecks desc = .ok (passes 0xee body) := by
  have same : (overwrite desc validOffset [0, 0, 0, 0]).take validOffset = desc.take validOffset :=
    overwrite_drop_take (Nat.le_of_eq (Nat.zero_add _)) room
  rw [← same] at starts
  obtain ⟨rest, whole⟩ := starts.trans (List.take_prefix _ _)
  rw [rechecks, ← whole]
  have behind : (stored body ++ rest).drop 1 = body ++ 0xcc :: rest := by
    change body ++ [0xcc] ++ rest = _
    rw [List.append_assoc]
    rfl
  rw [behind, checkFrame_ends body 0xee rest plain]

/-- Each `valid` tells what the check of the bytes before the call finds, and nothing else changes
in front of them. -/
theorem calcsumFrom_spec (left : Nat) :
    ∀ {i k count : Nat} {mem mem' : Bytes}, descSize * (i + left) ≤ mem.length →
      calcsumFrom left i k mem = .ok (count, mem') →
      mem'.length = mem.length ∧
      (∀ j, i ≤ j → j < i + left → rechecks (mem.drop (descSize * j)) = .ok (valid mem' j)) ∧
      (∀ j, j < i → valid mem' j = valid mem j) ∧ ∀ j, descBytes mem' j = descBytes mem j := by
  induction left with
  | zero =>
    intro i k count mem mem' _ run
    cases run
    exact ⟨rfl, fun j low high => absurd high (Nat.not_lt.mpr low), fun _ _ => rfl, fun _ => rfl⟩
  | succ left ih =>
    intro i k count mem mem' room run
    obtain ⟨here, later⟩ := desc_room room
    rw [calcsumFrom, calcsumEntry_eq here] at run
    cases checked : rechecks (mem.drop (descSize * i)) with
    | error fault =>
      rw [checked] at run
      cases run
    | ok hit =>
      rw [checked] at run
      obtain ⟨length, flags, before, bytes⟩ := ih (by rw [flagged_length here]; exact later) run
      refine ⟨length.trans (flagged_length here hit), fun j low high => ?_, fun j below => ?_,
        fun j => (bytes j).trans (flagged_descBytes here j hit)⟩
      · rcases Nat.eq_or_lt_of_le low with rfl | above
        · rw [before i (Nat.lt_succ_self i), flagged_valid here]
          exact checked
        · rw [← flagged_drop here (desc_apart above) hit]
          exact flags j above (by omega)
      · rw [before j (Nat.lt_succ_of_lt below), flagged_valid_before here below]

/-- Where every descriptor passes, all are counted. -/
theorem calcsumFrom_passes (left : Nat) :
    ∀ {i k : Nat} {mem : Bytes}, descSize * (i + left) ≤ mem.length →
      (∀ j, i ≤ j → j < i + left → rechecks (mem.drop (descSize * j)) = .ok true) →
      ∃ mem', calcsumFrom left i k mem = .ok (k + left, mem') := by
  induction left with
  | zero => exact fun _ _ => ⟨_, rfl⟩
  | succ left ih =>
    intro i k mem room all
    obtain ⟨here, later⟩ := desc_room room
    obtain ⟨mem', ran⟩ : ∃ mem', calcsumFrom left (i + 1) (k + 1) (flagged mem i true) =
        .ok (k + 1 + left, mem') := by
      refine ih (by rw [flagged_length here]; exact later) fun j low high => ?_
      rw [flagged_drop here (desc_apart low)]
      exact all j (Nat.le_of_succ_le low) (by omega)
    refine ⟨mem', ?_⟩
    rw [calcsumFrom, calcsumEntry_eq here, all i (Nat.le_refl i) (by omega)]
    rw [Nat.add_assoc, Nat.add_comm 1] at ran
    exact ran

end Calcsum

end Ct.Uart
