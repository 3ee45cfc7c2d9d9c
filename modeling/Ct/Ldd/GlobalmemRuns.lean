import Ct.Ldd.Globalmem
import Mathlib.Algebra.Group.Int.Defs
import Mathlib.Algebra.GroupWithZero.Nat

set_option autoImplicit false

namespace Ct.Ldd.Globalmem

open Ct.Lib

section Position

theorem toInt_cases (x : BitVec 64) :
    (x.toInt = x.toNat ∧ x.toNat < 2 ^ 63) ∨ (x.toInt = x.toNat - 2 ^ 64 ∧ 2 ^ 63 ≤ x.toNat) := by
  rw [BitVec.toInt_eq_toNat_cond]
  have bound := x.isLt
  split
  · left
    omega
  · right
    omega

/-- An offset that passes the test of either bound. -/
theorem toNat_of_bounds {x : BitVec 64} (bounds : ¬ (x.toInt < 0 ∨ x.toInt > memsize)) :
    x.toNat ≤ memsize := by
  rcases toInt_cases x with ⟨same, _⟩ | ⟨negative, _⟩
  · omega
  · have bound := x.isLt
    omega

theorem toNat_of_end {x : BitVec 64} (bounds : ¬ (x.toInt > 0 ∨ x.toInt < -memsize)) :
    (BitVec.ofNat 64 memsize + x).toNat ≤ memsize := by
  have bound := x.isLt
  rw [BitVec.toNat_add, BitVec.toNat_ofNat]
  unfold memsize at bounds ⊢
  rcases toInt_cases x with ⟨same, _⟩ | ⟨negative, _⟩
  · omega
  · omega

variable {s : State} {filp : Nat}

theorem room_toNat (position : (s.fPos filp).toNat ≤ memsize) :
    (room s filp).toNat = memsize - (s.fPos filp).toNat := by
  unfold room memsize at *
  rw [BitVec.toNat_sub, BitVec.toNat_ofNat]
  omega

theorem room_toInt (position : (s.fPos filp).toNat ≤ memsize) :
    (room s filp).toInt ≤ 0 ↔ (s.fPos filp).toNat = memsize := by
  have left := room_toNat position
  unfold memsize at *
  rcases toInt_cases (room s filp) with ⟨same, _⟩ | ⟨_, _⟩
  · omega
  · omega

theorem clip_toNat (size tmp : BitVec 64) : (clip size tmp).toNat = min size.toNat tmp.toNat := by
  unfold clip
  split
  · omega
  · omega

theorem advance_toNat {n : BitVec 64} (fits : (s.fPos filp).toNat + n.toNat ≤ memsize) :
    (s.fPos filp + n).toNat = (s.fPos filp).toNat + n.toNat := by
  unfold memsize at fits
  rw [BitVec.toNat_add]
  omega

theorem userBytes_length (buf : Nat → BitVec 8) (n : BitVec 64) :
    (userBytes buf n).length = n.toNat := by
  rw [userBytes, List.length_map, List.length_range]

end Position

/-- The invariant of the calls: every position is in the device, whose memory shows what has been
stored in it. -/
structure Inv (start : List (BitVec 8)) (log : List (Written (BitVec 8))) (s : State) : Prop where
  size : s.mem.length = memsize
  positions : ∀ file, (s.fPos file).toNat ≤ memsize
  reflects : Written.Reflects start log s.mem

theorem opened_inv (mem : Fin memsize → BitVec 8) : Inv (List.ofFn mem) [] (opened mem) where
  size := List.length_ofFn
  positions _ := Nat.zero_le _
  reflects := Written.reflects_start _

section Calls

variable {start : List (BitVec 8)} {log : List (Written (BitVec 8))} {s : State} {filp : Nat}

theorem gmLlseek_cases (s : State) (filp : Nat) (offset : BitVec 64) (cur : Int) :
    gmLlseek s filp offset cur = (-1, s) ∨
      ∃ target : BitVec 64, target.toNat ≤ memsize ∧
        gmLlseek s filp offset cur = moveTo s filp target := by
  unfold gmLlseek
  dsimp only
  split
  · split
    · exact Or.inl rfl
    · rename_i bounds
      exact Or.inr ⟨_, toNat_of_bounds bounds, rfl⟩
  · split
    · split
      · exact Or.inl rfl
      · rename_i bounds
        exact Or.inr ⟨_, toNat_of_bounds bounds, rfl⟩
    · split
      · split
        · exact Or.inl rfl
        · rename_i bounds
          exact Or.inr ⟨_, toNat_of_end bounds, rfl⟩
      · exact Or.inl rfl

/-- The number of bytes that a copy moves. -/
def count (s : State) (filp : Nat) (size : BitVec 64) : BitVec 64 := clip size (room s filp)

theorem count_toNat (inv : Inv start log s) (size : BitVec 64) :
    (count s filp size).toNat = min size.toNat (memsize - (s.fPos filp).toNat) := by
  rw [count, clip_toNat, room_toNat (inv.positions filp)]

theorem count_fits (inv : Inv start log s) (filp : Nat) (size : BitVec 64) :
    (s.fPos filp).toNat + (count s filp size).toNat ≤ memsize := by
  have position := inv.positions filp
  rw [count_toNat inv]
  omega

theorem count_inside (inv : Inv start log s) (filp : Nat) (size : BitVec 64) :
    inside s filp (count s filp size) = true := by
  have fits := count_fits inv filp size
  rw [inside, inv.size]
  exact decide_eq_true fits

theorem count_ne (inv : Inv start log s) (filp : Nat) (size : BitVec 64) : count s filp size ≠ -1 := by
  intro same
  have fits := count_fits inv filp size
  rw [same] at fits
  revert fits
  unfold memsize
  simp

/-- At the end of the device there is nothing to read and no room to write. -/
theorem gmRead_eq (inv : Inv start log s) (size : BitVec 64) (faults : Bool) :
    gmRead s filp size faults =
      if (s.fPos filp).toNat = memsize ∨ faults = true then .ok (-1, [], s)
      else .ok (count s filp size,
        (s.mem.drop (s.fPos filp).toNat).take (count s filp size).toNat,
        advance s filp (count s filp size)) := by
  have fits := count_inside inv filp size
  unfold count at fits ⊢
  by_cases full : (s.fPos filp).toNat = memsize
  · have none := (room_toInt (inv.positions filp)).mpr full
    simp only [gmRead, none, full, true_or, ↓reduceIte]
  · have some := mt (room_toInt (inv.positions filp)).mp full
    simp only [gmRead, some, full, fits, false_or, ↓reduceIte, Bool.not_true, Bool.false_eq_true]

theorem gmWrite_eq (inv : Inv start log s) (buf : Nat → BitVec 8) (size : BitVec 64)
    (faults : Option (Nat → BitVec 8)) :
    gmWrite s filp buf size faults =
      if (s.fPos filp).toNat = memsize then .ok (-1, s)
      else
        match faults with
        | some left => .ok (-1, copyFromUser s filp left (count s filp size))
        | none =>
          .ok (count s filp size,
            advance (copyFromUser s filp buf (count s filp size)) filp (count s filp size)) := by
  have fits := count_inside inv filp size
  unfold count at fits ⊢
  by_cases full : (s.fPos filp).toNat = memsize
  · have none := (room_toInt (inv.positions filp)).mpr full
    simp only [gmWrite, none, full, ↓reduceIte]
  · have some := mt (room_toInt (inv.positions filp)).mp full
    cases faults with
    | none => simp only [gmWrite, some, full, fits, ↓reduceIte, Bool.not_true, Bool.false_eq_true]
    | some left =>
      simp only [gmWrite, some, full, fits, ↓reduceIte, Bool.not_true, Bool.false_eq_true]

end Calls

/-- The call is a write whose copy faults. -/
def CopyFaults (s : State) (filp : Nat) : Call → Prop
  | .write _ _ (some _) => (s.fPos filp).toNat < memsize
  | _ => False

/-- What the device promises of a call in the state `s`, where `log` has been stored, the latest
first, in a memory that held `start`. -/
structure Promised (start : List (BitVec 8)) (log : List (Written (BitVec 8))) (s : State)
    (filp : Nat) (call : Call) (ret : BitVec 64) (bytes : List (BitVec 8)) (after : State) :
    Prop where
  positions : ∀ file, (after.fPos file).toNat ≤ memsize
  others : ∀ file, file ≠ filp → after.fPos file = s.fPos file
  write : ∀ buf size faults, call = .write buf size faults → ret ≠ -1 →
    ret.toNat = min size.toNat (memsize - (s.fPos filp).toNat) ∧
    after.mem = overwrite s.mem (s.fPos filp).toNat (userBytes buf ret) ∧
    (after.fPos filp).toNat = (s.fPos filp).toNat + ret.toNat
  read : ∀ size faults, call = .read size faults → ret ≠ -1 →
    bytes.length = ret.toNat ∧ after.mem = s.mem ∧
    ∀ k, k < bytes.length → ¬ Written.Torn log ((s.fPos filp).toNat + k) →
      bytes[k]? = Written.latest start log ((s.fPos filp).toNat + k)
  failed : ret = -1 → after.fPos = s.fPos ∧ (¬ CopyFaults s filp call → after.mem = s.mem)

section Step

variable {start : List (BitVec 8)} {log : List (Written (BitVec 8))} {s : State} {filp : Nat}

/-- A call fails without a trace. -/
theorem promised_failed (inv : Inv start log s) (call : Call) :
    Promised start log s filp call (-1) [] s where
  positions := inv.positions
  others _ _ := rfl
  write _ _ _ _ ok := absurd rfl ok
  read _ _ _ ok := absurd rfl ok
  failed _ := ⟨rfl, fun _ => rfl⟩

theorem update_positions (inv : Inv start log s) (filp : Nat) {target : BitVec 64}
    (inside : target.toNat ≤ memsize) (file : Nat) :
    (Function.update s.fPos filp target file).toNat ≤ memsize := by
  by_cases same : file = filp
  · rw [same, Function.update_self]
    exact inside
  · rw [Function.update_of_ne same]
    exact inv.positions file

theorem ne_of_inside {x : BitVec 64} (inside : x.toNat ≤ memsize) : x ≠ -1 := by
  intro same
  rw [same] at inside
  exact absurd inside (by decide)

/-- The call keeps the invariant and does what is promised. -/
def Steps (start : List (BitVec 8)) (log : List (Written (BitVec 8))) (s : State) (filp : Nat)
    (call : Call) : Prop :=
  ∃ ret bytes after, perform s filp call = .ok (ret, bytes, after) ∧
    Promised start log s filp call ret bytes after ∧ Inv start (stores s filp ret call ++ log) after

theorem llseek_step (inv : Inv start log s) (offset : BitVec 64) (cur : Int) :
    Steps start log s filp (.llseek offset cur) := by
  rcases gmLlseek_cases s filp offset cur with refused | ⟨target, inside, moved⟩
  · refine ⟨-1, [], s, ?_, promised_failed inv _, inv⟩
    simp only [perform, refused]
  · have positions := update_positions inv filp inside
    refine ⟨target, [], (moveTo s filp target).2, ?_, ⟨positions, ?_, ?_, ?_, ?_⟩,
      ⟨inv.size, positions, inv.reflects⟩⟩
    · simp only [perform, moved]
      rfl
    · exact fun file other => Function.update_of_ne other ..
    · intro _ _ _ same
      cases same
    · intro _ _ same
      cases same
    · exact fun failed => absurd failed (ne_of_inside inside)

theorem advance_positions (inv : Inv start log s) (filp : Nat) (size : BitVec 64) (file : Nat) :
    (Function.update s.fPos filp (s.fPos filp + count s filp size) file).toNat ≤ memsize := by
  have fits := count_fits inv filp size
  apply update_positions inv filp
  rw [advance_toNat fits]
  exact fits

theorem read_step (inv : Inv start log s) (size : BitVec 64) (faults : Bool) :
    Steps start log s filp (.read size faults) := by
  by_cases fails : (s.fPos filp).toNat = memsize ∨ faults = true
  · refine ⟨-1, [], s, ?_, promised_failed inv _, inv⟩
    simp only [perform, gmRead_eq inv, fails, ↓reduceIte]
  · have fits := count_fits inv filp size
    have positions := advance_positions inv filp size
    refine ⟨count s filp size, (s.mem.drop (s.fPos filp).toNat).take (count s filp size).toNat,
      advance s filp (count s filp size), ?_, ⟨positions, ?_, ?_, ?_, ?_⟩,
      ⟨inv.size, positions, inv.reflects⟩⟩
    · simp only [perform, gmRead_eq inv, fails, ↓reduceIte]
    · exact fun file other => Function.update_of_ne other ..
    · intro _ _ _ same
      cases same
    · intro _ _ _ _
      have length : ((s.mem.drop (s.fPos filp).toNat).take (count s filp size).toNat).length =
          (count s filp size).toNat := by
        rw [List.length_take, List.length_drop, inv.size]
        omega
      refine ⟨length, rfl, fun k below whole => ?_⟩
      rw [length] at below
      rw [List.getElem?_take_of_lt below, List.getElem?_drop]
      exact inv.reflects _ whole
    · exact fun failed => absurd failed (count_ne inv filp size)

/-- What is copied to the memory is a write of the log, whole or not. -/
theorem copy_reflects (inv : Inv start log s) (buf : Nat → BitVec 8) (size : BitVec 64)
    (whole : Bool) :
    (copyFromUser s filp buf (count s filp size)).mem.length = memsize ∧
      Written.Reflects start
        (⟨(s.fPos filp).toNat, userBytes buf (count s filp size), whole⟩ :: log)
        (copyFromUser s filp buf (count s filp size)).mem := by
  have fits : (s.fPos filp).toNat + (userBytes buf (count s filp size)).length ≤ s.mem.length := by
    rw [userBytes_length, inv.size]
    exact count_fits inv filp size
  refine ⟨?_, inv.reflects.write ⟨_, _, whole⟩ fits⟩
  show (overwrite _ _ _).length = memsize
  rw [overwrite_length fits, inv.size]

theorem write_step (inv : Inv start log s) (buf : Nat → BitVec 8) (size : BitVec 64)
    (faults : Option (Nat → BitVec 8)) : Steps start log s filp (.write buf size faults) := by
  by_cases full : (s.fPos filp).toNat = memsize
  · have none := (room_toInt (inv.positions filp)).mpr full
    refine ⟨-1, [], s, ?_, promised_failed inv _, ?_⟩
    · simp only [perform, gmWrite_eq inv, full, ↓reduceIte]
    · cases faults <;> simpa [stores, none] using inv
  · have some := mt (room_toInt (inv.positions filp)).mp full
    have position := inv.positions filp
    cases faults with
    | some left =>
      obtain ⟨length, reflects⟩ := copy_reflects inv left size false
      refine ⟨-1, [], copyFromUser s filp left (count s filp size), ?_,
        ⟨inv.positions, fun _ _ => rfl, ?_, ?_, ?_⟩, ?_⟩
      · simp only [perform, gmWrite_eq inv, full, ↓reduceIte]
      · intro _ _ _ _ ok
        exact absurd rfl ok
      · intro _ _ same
        cases same
      · intro _
        refine ⟨rfl, fun whole => absurd ?_ whole⟩
        show (s.fPos filp).toNat < memsize
        omega
      · simp only [stores, some, ↓reduceIte]
        exact ⟨length, inv.positions, reflects⟩
    | none =>
      obtain ⟨length, reflects⟩ := copy_reflects inv buf size true
      have fits := count_fits inv filp size
      have positions := advance_positions inv filp size
      have ok := count_ne inv filp size
      refine ⟨count s filp size, [],
        advance (copyFromUser s filp buf (count s filp size)) filp (count s filp size), ?_,
        ⟨positions, ?_, ?_, ?_, ?_⟩, ?_⟩
      · simp only [perform, gmWrite_eq inv, full, ↓reduceIte]
      · exact fun file other => Function.update_of_ne other ..
      · intro _ _ _ same _
        cases same
        refine ⟨count_toNat inv size, rfl, ?_⟩
        show (Function.update s.fPos filp (s.fPos filp + count s filp size) filp).toNat = _
        rw [Function.update_self]
        exact advance_toNat fits
      · intro _ _ same
        cases same
      · exact fun failed => absurd failed ok
      · simp only [stores, ok, ↓reduceIte]
        exact ⟨length, positions, reflects⟩

theorem call_step (inv : Inv start log s) (filp : Nat) (call : Call) :
    Steps start log s filp call := by
  cases call with
  | llseek offset cur => exact llseek_step inv offset cur
  | read size faults => exact read_step inv size faults
  | write buf size faults => exact write_step inv buf size faults

end Step

/-- Every sequence of calls runs without an access outside the memory, and keeps the invariant. -/
theorem run_inv {start : List (BitVec 8)} (calls : List (Nat × Call)) :
    ∀ {s : State} {log : List (Written (BitVec 8))}, Inv start log s →
      ∃ final stored, run s log calls = .ok (final, stored) ∧ Inv start stored final := by
  induction calls with
  | nil => exact fun inv => ⟨_, _, rfl, inv⟩
  | cons first rest ih =>
    intro s log inv
    obtain ⟨filp, call⟩ := first
    obtain ⟨ret, bytes, after, performed, _, kept⟩ := call_step inv filp call
    obtain ⟨final, stored, ran, last⟩ := ih kept
    refine ⟨final, stored, ?_, last⟩
    simp only [run, performed]
    exact ran

/-- After any calls with any files, every position is in the device and every further call does
what is promised. -/
theorem globalmem_promised (mem : Fin memsize → BitVec 8) (calls : List (Nat × Call)) :
    ∃ s log, run (opened mem) [] calls = .ok (s, log) ∧
      (∀ file, (s.fPos file).toNat ≤ memsize) ∧
      ∀ filp call, ∃ ret bytes after, perform s filp call = .ok (ret, bytes, after) ∧
        Promised (List.ofFn mem) log s filp call ret bytes after := by
  obtain ⟨s, log, ran, inv⟩ := run_inv calls (opened_inv mem)
  refine ⟨s, log, ran, inv.positions, fun filp call => ?_⟩
  obtain ⟨ret, bytes, after, performed, promised, _⟩ := call_step inv filp call
  exact ⟨ret, bytes, after, performed, promised⟩

/-- After a write whose copy faults, a read returns neither the byte of a successful write, since
there is none, nor the initial one. -/
theorem torn_byte_read :
    ∃ s log bytes after,
      run (opened fun _ => 0) [] [(0, .write (fun _ => 1) 1 (some fun _ => 7))] = .ok (s, log) ∧
      perform s 0 (.read 1 false) = .ok (1, bytes, after) ∧
      bytes[0]? = some 7 ∧
      Written.latest (List.ofFn fun _ : Fin memsize => (0 : BitVec 8)) log 0 = some 0 := by
  exact ⟨_, _, _, _, rfl, rfl, by decide, by decide⟩

end Ct.Ldd.Globalmem
