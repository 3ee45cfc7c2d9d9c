import Ct.Openssl.Base64
import Mathlib.Data.List.TakeWhile

set_option autoImplicit false

namespace Ct.Openssl.Base64

open Ct.Lib

section Letters

/-- The letter of a group of six bits, or the padding. -/
def sign (x : Option Nat) : CChar := ch (symbol base64Alphabet x)

theorem table_sign : ∀ n < 64, table.getD n 0 = sign (some n) := by decide

theorem ofNat_toInt {n : Nat} (small : n < 2 ^ 31) : (BitVec.ofNat 32 n).toInt = n := by
  rw [BitVec.toInt_eq_toNat_cond, BitVec.toNat_ofNat, Nat.mod_eq_of_lt (by omega),
    if_pos (by omega)]

theorem letter_ofNat {n : Nat} (few : n < 64) : letter (BitVec.ofNat 32 n) = .ok (sign (some n)) := by
  have index := ofNat_toInt (n := n) (by omega)
  have long : table.length = 65 := by decide
  rw [letter, if_pos (by omega), BitVec.toNat_ofNat, Nat.mod_eq_of_lt (by omega), table_sign n few]

theorem first_eq (a : CChar) : first a = .ok (sign (some (a.toNat / 4))) := by
  have index : ∀ a : CChar, (int a).sshiftRight 2 &&& 0x3f#32 = BitVec.ofNat 32 (a.toNat / 4) :=
    byte_cases (by decide +kernel)
  have small := a.isLt
  rw [first, index, letter_ofNat (by omega)]

theorem fourth_eq (c : CChar) : fourth c = .ok (sign (some (c.toNat % 64))) := by
  have index : ∀ c : CChar, int c &&& 0x3f#32 = BitVec.ofNat 32 (c.toNat % 64) :=
    byte_cases (by decide +kernel)
  rw [fourth, index, letter_ofNat (by omega)]

theorem low_two (a : CChar) : (int a &&& 0x3#32) <<< 4 = BitVec.ofNat 32 (a.toNat % 4 * 16) := by
  revert a
  exact byte_cases (by decide +kernel)

theorem low_four (b : CChar) : (int b &&& 0xf#32) <<< 2 = BitVec.ofNat 32 (b.toNat % 16 * 4) := by
  revert b
  exact byte_cases (by decide +kernel)

/-- A shift to the right keeps the sign. -/
theorem high_four (b : CChar) : (int b).sshiftRight 4 =
    BitVec.ofNat 32 (if b.toNat < 128 then b.toNat / 16 else b.toNat / 16 + (2 ^ 32 - 16)) := by
  revert b
  exact byte_cases (by decide +kernel)

theorem high_two (c : CChar) : (int c).sshiftRight 6 =
    BitVec.ofNat 32 (if c.toNat < 128 then c.toNat / 64 else c.toNat / 64 + (2 ^ 32 - 4)) := by
  revert c
  exact byte_cases (by decide +kernel)

/-- An index that is off by a negative summand is negative, or it is that of another letter. -/
theorem letter_below {n k : Nat} (few : n < 64) (less : k < 64) {c : CChar}
    (read : letter (BitVec.ofNat 32 (n + (2 ^ 32 - k))) = .ok c) :
    k ≤ n ∧ c = sign (some (n - k)) := by
  by_cases inside : k ≤ n
  · have same : BitVec.ofNat 32 (n + (2 ^ 32 - k)) = BitVec.ofNat 32 (n - k) := by
      apply BitVec.eq_of_toNat_eq
      rw [BitVec.toNat_ofNat, BitVec.toNat_ofNat]
      omega
    rw [same, letter_ofNat (by omega)] at read
    exact ⟨inside, (Except.ok.inj read).symm⟩
  · have negative : (BitVec.ofNat 32 (n + (2 ^ 32 - k))).toInt < 0 := by
      rw [BitVec.toInt_eq_toNat_cond, BitVec.toNat_ofNat, Nat.mod_eq_of_lt (by omega),
        if_neg (by omega)]
      omega
    rw [letter, if_neg (by omega)] at read
    cases read

theorem second_low {b : CChar} (low : b.toNat < 128) (a : CChar) :
    second a b = .ok (sign (some (a.toNat % 4 * 16 + b.toNat / 16))) := by
  rw [second, low_two, high_four, if_pos low, ← BitVec.ofNat_add, letter_ofNat (by omega)]

theorem third_low {c : CChar} (low : c.toNat < 128) (b : CChar) :
    third b c = .ok (sign (some (b.toNat % 16 * 4 + c.toNat / 64))) := by
  rw [third, low_four, high_two, if_pos low, ← BitVec.ofNat_add, letter_ofNat (by omega)]

theorem second_high {a b : CChar} (high : ¬b.toNat < 128) {letter : CChar}
    (read : second a b = .ok letter) :
    16 ≤ a.toNat % 4 * 16 + b.toNat / 16 ∧
      letter = sign (some (a.toNat % 4 * 16 + b.toNat / 16 - 16)) := by
  have small := b.isLt
  rw [second, low_two, high_four, if_neg high, ← BitVec.ofNat_add, ← Nat.add_assoc] at read
  exact letter_below (by omega) (by decide) read

theorem third_high {b c : CChar} (high : ¬c.toNat < 128) {letter : CChar}
    (read : third b c = .ok letter) :
    4 ≤ b.toNat % 16 * 4 + c.toNat / 64 ∧
      letter = sign (some (b.toNat % 16 * 4 + c.toNat / 64 - 4)) := by
  have small := c.isLt
  rw [third, low_four, high_two, if_neg high, ← BitVec.ofNat_add, ← Nat.add_assoc] at read
  exact letter_below (by omega) (by decide) read

theorem second_last (a : CChar) :
    letter ((int a &&& 0x3#32) <<< 4) = .ok (sign (some (a.toNat % 4 * 16))) := by
  rw [low_two, letter_ofNat (by omega)]

theorem third_last (b : CChar) :
    letter ((int b &&& 0xf#32) <<< 2) = .ok (sign (some (b.toNat % 16 * 4))) := by
  rw [low_four, letter_ofNat (by omega)]

end Letters

section Encode

/-- The second and the third of every three characters are of ASCII. -/
def LowBehind : List CChar → Prop
  | _ :: b :: c :: rest => b.toNat < 128 ∧ c.toNat < 128 ∧ LowBehind rest
  | [_, b] => b.toNat < 128
  | _ => True

/-- The groups of six bits that four characters each stand for; the bits in front of the padding
are zeros. -/
inductive Quads : List (Option Nat) → Prop
  | one {p q : Nat} : p < 64 → q < 64 → q % 16 = 0 → Quads [some p, some q, none, none]
  | two {p q r : Nat} : p < 64 → q < 64 → r < 64 → r % 4 = 0 →
      Quads [some p, some q, some r, none]
  | three {p q r s : Nat} : p < 64 → q < 64 → r < 64 → s < 64 →
      Quads [some p, some q, some r, some s]
  | more {p q r s : Nat} {xs : List (Option Nat)} : p < 64 → q < 64 → r < 64 → s < 64 →
      Quads xs → Quads (some p :: some q :: some r :: some s :: xs)

theorem put_room {c : CChar} {dst : Dst} (room : dst.written.length < dst.size) :
    put c dst = .ok { dst with written := dst.written ++ [c] } := if_pos room

theorem put_written {c : CChar} {dst dst' : Dst} (ran : put c dst = .ok dst') :
    dst' = { dst with written := dst.written ++ [c] } := by
  unfold put at ran
  split at ran
  · exact (Except.ok.inj ran).symm
  · cases ran

/-- Letters that are stored one behind the other. -/
def putAll (letters : List CChar) (dst : Dst) : Except Fault Dst :=
  letters.foldlM (fun dst c => put c dst) dst

theorem putAll_room (letters : List CChar) : ∀ (dst : Dst),
    dst.written.length + letters.length ≤ dst.size →
      putAll letters dst = .ok { dst with written := dst.written ++ letters } := by
  induction letters with
  | nil =>
    intro dst _
    rw [List.append_nil]
    rfl
  | cons c letters ih =>
    intro dst room
    rw [List.length_cons] at room
    have rest := ih { dst with written := dst.written ++ [c] }
      (by simp only [List.length_append, List.length_singleton]; omega)
    rw [List.append_assoc] at rest
    rw [putAll, List.foldlM_cons, put_room (by omega)]
    exact rest

theorem putAll_written (letters : List CChar) : ∀ {dst dst' : Dst},
    putAll letters dst = .ok dst' → dst' = { dst with written := dst.written ++ letters } := by
  induction letters with
  | nil =>
    intro dst dst' ran
    rw [List.append_nil]
    exact (Except.ok.inj ran).symm
  | cons c letters ih =>
    intro dst dst' ran
    obtain ⟨next, stored, ran⟩ := bind_ends ran
    rw [ih ran, put_written stored, List.append_assoc]
    rfl

/-- The whole of the two loops. -/
def encodeAll (src : List CChar) (dst : Dst) : Except Fault Dst := do
  let (rest, dst) ← encodeLoop src dst
  encodeRest rest dst

theorem encodeAll_more {a b c : CChar} {x y : CChar} (left : second a b = .ok x)
    (right : third b c = .ok y) (rest : List CChar) (dst : Dst) :
    encodeAll (a :: b :: c :: rest) dst =
      putAll [sign (some (a.toNat / 4)), x, y, sign (some (c.toNat % 64))] dst >>=
        encodeAll rest := by
  rw [encodeAll, encodeLoop, first_eq, left, right, fourth_eq]
  simp only [putAll, List.foldlM_cons, List.foldlM_nil, bind_assoc, pure_bind]
  rfl

theorem encodeAll_one (a : CChar) (dst : Dst) :
    encodeAll [a] dst =
      putAll [sign (some (a.toNat / 4)), sign (some (a.toNat % 4 * 16)), sign none, sign none]
        dst := by
  change encodeRest [a] dst = _
  rw [encodeRest, first_eq, second_last]
  simp only [putAll, List.foldlM_cons, List.foldlM_nil, bind_pure]
  rfl

theorem encodeAll_two {a b : CChar} {x : CChar} (left : second a b = .ok x) (dst : Dst) :
    encodeAll [a, b] dst =
      putAll [sign (some (a.toNat / 4)), x, sign (some (b.toNat % 16 * 4)), sign none] dst := by
  change encodeRest [a, b] dst = _
  rw [encodeRest, first_eq, left, third_last]
  simp only [putAll, List.foldlM_cons, List.foldlM_nil, bind_pure]
  rfl

theorem encodeAll_low (src : List CChar) (low : LowBehind src) : ∀ {dst : Dst},
    dst.written.length + (sextets src).length ≤ dst.size →
      encodeAll src dst = .ok { dst with written := dst.written ++ (sextets src).map sign } := by
  fun_induction sextets src with
  | case1 =>
    intro dst _
    rw [List.map_nil, List.append_nil]
    rfl
  | case2 a =>
    intro dst room
    rw [encodeAll_one]
    exact putAll_room _ _ room
  | case3 a b =>
    intro dst room
    rw [encodeAll_two (second_low low a)]
    exact putAll_room _ _ room
  | case4 a b c rest ih =>
    intro dst room
    obtain ⟨lowB, lowC, low⟩ := low
    simp only [List.length_cons] at room
    rw [encodeAll_more (second_low lowB a) (third_low lowC b), putAll_room _ _ (by simp; omega)]
    refine (ih low (by simp; omega)).trans ?_
    rw [List.append_assoc]
    rfl

/-- What stands in the place of a group of six bits, where a character follows that may be negative:
a right group is the one of the bytes, any other is smaller by `k`. -/
def Near (low : Prop) (k n right : Nat) : Prop := low ∧ n = right ∨ ¬low ∧ n + k = right

theorem second_near {a b : CChar} {letter : CChar} (read : second a b = .ok letter) :
    ∃ q < 64, letter = sign (some q) ∧ Near (b.toNat < 128) 16 q (a.toNat % 4 * 16 + b.toNat / 16) := by
  have small := b.isLt
  by_cases low : b.toNat < 128
  · rw [second_low low] at read
    exact ⟨_, by omega, (Except.ok.inj read).symm, Or.inl ⟨low, rfl⟩⟩
  · obtain ⟨more, same⟩ := second_high low read
    exact ⟨_, by omega, same, Or.inr ⟨low, by omega⟩⟩

theorem third_near {b c : CChar} {letter : CChar} (read : third b c = .ok letter) :
    ∃ r < 64, letter = sign (some r) ∧ Near (c.toNat < 128) 4 r (b.toNat % 16 * 4 + c.toNat / 64) := by
  have small := c.isLt
  by_cases low : c.toNat < 128
  · rw [third_low low] at read
    exact ⟨_, by omega, (Except.ok.inj read).symm, Or.inl ⟨low, rfl⟩⟩
  · obtain ⟨more, same⟩ := third_high low read
    exact ⟨_, by omega, same, Or.inr ⟨low, by omega⟩⟩

/-- The letters that have been found where the loops end. -/
theorem two_letters {a b : CChar} {dst dst' : Dst} (ran : encodeAll [a, b] dst = .ok dst') :
    ∃ x, second a b = .ok x := by
  change encodeRest [a, b] dst = _ at ran
  rw [encodeRest, first_eq] at ran
  obtain ⟨_, _, ran⟩ := bind_ends ran
  obtain ⟨_, _, ran⟩ := bind_ends ran
  obtain ⟨x, read, _⟩ := bind_ends ran
  exact ⟨x, read⟩

theorem more_letters {a b c : CChar} {rest : List CChar} {dst dst' : Dst}
    (ran : encodeAll (a :: b :: c :: rest) dst = .ok dst') :
    ∃ x y, second a b = .ok x ∧ third b c = .ok y := by
  rw [encodeAll, encodeLoop, first_eq] at ran
  obtain ⟨_, ran, _⟩ := bind_ends ran
  obtain ⟨_, _, ran⟩ := bind_ends ran
  obtain ⟨_, _, ran⟩ := bind_ends ran
  obtain ⟨x, read, ran⟩ := bind_ends ran
  obtain ⟨_, _, ran⟩ := bind_ends ran
  obtain ⟨y, read', _⟩ := bind_ends ran
  exact ⟨x, y, read, read'⟩

/-- A character that is read back is the number that is written. -/
theorem eq_of_ofNat {n : Nat} {b : CChar} (same : BitVec.ofNat 8 n = b) : n % 256 = b.toNat := by
  rw [← same, BitVec.toNat_ofNat]

/-- What has been encoded is a text of groups of six bits; they are those of another string if one of
the characters was negative. -/
theorem encodeAll_read (src : List CChar) : src ≠ [] → ∀ {dst dst' : Dst},
    encodeAll src dst = .ok dst' →
      ∃ xs, Quads xs ∧ dst' = { dst with written := dst.written ++ xs.map sign } ∧
        xs.length = (sextets src).length ∧ (bytesOf xs).length = src.length ∧
        (bytesOf xs = src → LowBehind src) := by
  fun_induction sextets src with
  | case1 => exact fun full => absurd rfl full
  | case2 a =>
    intro _ dst dst' ran
    have small := a.isLt
    rw [encodeAll_one] at ran
    exact ⟨_, .one (by omega) (by omega) (by omega), putAll_written _ ran, rfl, rfl, fun _ => trivial⟩
  | case3 a b =>
    intro _ dst dst' ran
    have small := a.isLt
    have small' := b.isLt
    obtain ⟨x, left⟩ := two_letters ran
    obtain ⟨q, few, rfl, near⟩ := second_near left
    rw [encodeAll_two left] at ran
    refine ⟨_, .two (by omega) few (by omega) (by omega), putAll_written _ ran, rfl, rfl,
      fun same => ?_⟩
    have first := eq_of_ofNat (List.cons.inj same).1
    unfold Near at near
    change b.toNat < 128
    omega
  | case4 a b c rest ih =>
    intro _ dst dst' ran
    have small := a.isLt
    have small' := b.isLt
    have small'' := c.isLt
    obtain ⟨x, y, left, right⟩ := more_letters ran
    obtain ⟨q, few, rfl, near⟩ := second_near left
    obtain ⟨r, few', rfl, near'⟩ := third_near right
    rw [encodeAll_more left right] at ran
    obtain ⟨next, stored, ran⟩ := bind_ends ran
    have low : ∀ {tail tail' : List CChar}, BitVec.ofNat 8 (a.toNat / 4 * 4 + q / 16) ::
        BitVec.ofNat 8 (q % 16 * 16 + r / 4) :: tail = a :: b :: tail' →
          b.toNat < 128 ∧ c.toNat < 128 := fun same => by
      have first := eq_of_ofNat (List.cons.inj same).1
      have second := eq_of_ofNat (List.cons.inj (List.cons.inj same).2).1
      unfold Near at near near'
      omega
    by_cases ended : rest = []
    · subst ended
      have ran : next = dst' := Except.ok.inj ran
      subst ran
      refine ⟨[some (a.toNat / 4), some q, some r, some (c.toNat % 64)], .three (by omega) few few' (by omega),
        putAll_written _ stored, rfl, rfl, fun same => ?_⟩
      obtain ⟨lowB, lowC⟩ := low same
      exact ⟨lowB, lowC, trivial⟩
    · obtain ⟨xs, quads, written, long, long', same⟩ := ih ended ran
      refine ⟨some (a.toNat / 4) :: some q :: some r :: some (c.toNat % 64) :: xs,
        .more (by omega) few few' (by omega) quads, ?_, ?_, ?_, fun all => ?_⟩
      · rw [written, putAll_written _ stored, List.append_assoc]
        rfl
      · simp only [List.length_cons, long]
      · simp only [bytesOf, List.length_cons, long']
      · obtain ⟨lowB, lowC⟩ := low all
        exact ⟨lowB, lowC, same (List.cons.inj (List.cons.inj (List.cons.inj all).2).2).2⟩

end Encode

section Decode

/-- What is stored for a group of six bits, or for the padding. -/
def stored : Option Nat → CChar
  | some n => BitVec.ofNat 8 n
  | none => -1

theorem value_sign : ∀ n < 64, value (sign (some n)) = some (stored (some n)) := by decide +kernel

theorem values_sign {xs : List (Option Nat)} (six : ∀ n, some n ∈ xs → n < 64) :
    values (xs.map sign) = .ok (xs.map stored) := by
  induction xs with
  | nil => rfl
  | cons x xs ih =>
    have here : value (sign x) = some (stored x) := by
      cases x with
      | none => decide
      | some n => exact value_sign n (six n (List.mem_cons_self ..))
    rw [List.map_cons, values, here, ih fun n member => six n (List.mem_cons_of_mem _ member)]
    rfl

theorem Quads.six {xs : List (Option Nat)} (quads : Quads xs) : ∀ n, some n ∈ xs → n < 64 := by
  induction quads with
  | one hp hq _ | two hp hq hr _ | three hp hq hr hs =>
    intro n member
    simp at member
    omega
  | more hp hq hr hs _ ih =>
    intro n member
    simp only [List.mem_cons, Option.some.injEq] at member
    rcases member with rfl | rfl | rfl | rfl | later
    · exact hp
    · exact hq
    · exact hr
    · exact hs
    · exact ih n later

theorem toInt_stored {n : Nat} (few : n < 64) : int (stored (some n)) = BitVec.ofNat 32 n := by
  have all : ∀ n < 64, int (stored (some n)) = BitVec.ofNat 32 n := by decide +kernel
  exact all n few

theorem shifts : ∀ n < 64,
    (BitVec.ofNat 32 n).sshiftRight 4 = BitVec.ofNat 32 (n / 16) ∧
      (BitVec.ofNat 32 n).sshiftRight 2 = BitVec.ofNat 32 (n / 4) ∧
      BitVec.ofNat 32 n <<< 2 = BitVec.ofNat 32 (n * 4) ∧
      BitVec.ofNat 32 n <<< 4 = BitVec.ofNat 32 (n * 16) ∧
      BitVec.ofNat 32 n <<< 6 = BitVec.ofNat 32 (n * 64) := by decide +kernel

/-- What is stored is reduced to a byte. -/
theorem byte_eq {n m : Nat} (same : n % 256 = m % 256) :
    (BitVec.ofNat 32 n).setWidth 8 = BitVec.ofNat 8 m := by
  rw [BitVec.setWidth_ofNat_of_le (by decide)]
  apply BitVec.eq_of_toNat_eq
  rw [BitVec.toNat_ofNat, BitVec.toNat_ofNat]
  exact same

theorem byte1_eq {p q : Nat} (hp : p < 64) (hq : q < 64) :
    byte1 (stored (some p)) (stored (some q)) = BitVec.ofNat 8 (p * 4 + q / 16) := by
  rw [byte1, toInt_stored hp, toInt_stored hq, (shifts p hp).2.2.1, (shifts q hq).1,
    ← BitVec.ofNat_add, byte_eq rfl]

theorem byte2_eq {q r : Nat} (hq : q < 64) (hr : r < 64) :
    byte2 (stored (some q)) (stored (some r)) = BitVec.ofNat 8 (q % 16 * 16 + r / 4) := by
  rw [byte2, toInt_stored hq, toInt_stored hr, (shifts q hq).2.2.2.1, (shifts r hr).2.1,
    ← BitVec.ofNat_add]
  exact byte_eq (by omega)

theorem byte3_eq {r s : Nat} (hr : r < 64) (hs : s < 64) :
    byte3 (stored (some r)) (stored (some s)) = BitVec.ofNat 8 (r % 4 * 64 + s) := by
  rw [byte3, toInt_stored hr, toInt_stored hs, (shifts r hr).2.2.2.2, ← BitVec.ofNat_add]
  exact byte_eq (by omega)

theorem stored_ne {n : Nat} (few : n < 64) : stored (some n) ≠ -1 := by
  have all : ∀ n < 64, stored (some n) ≠ -1 := by decide
  exact all n few

theorem cell_behind {front rest : List CChar} {k : Nat} {v : CChar} (there : rest[k]? = some v) :
    cell (front ++ rest) (front.length + k) = .ok v := by
  rw [cell, List.getElem?_append_right (by omega), Nat.add_sub_cancel_left, there]

/-- A group of values, behind the ones that have been read. -/
theorem decodeGroup_eq (front : List CChar) (u v w x : CChar) (tail : List CChar) (dst : Dst) :
    decodeGroup (front ++ u :: v :: w :: x :: tail) front.length dst =
      putAll [byte1 u v, byte2 v w, byte3 w x] dst := by
  have at0 : cell (front ++ u :: v :: w :: x :: tail) front.length = .ok u :=
    cell_behind (k := 0) rfl
  rw [decodeGroup, at0, cell_behind (k := 1) rfl, cell_behind (k := 2) rfl, cell_behind (k := 3) rfl]
  simp only [putAll, List.foldlM_cons, List.foldlM_nil, bind_pure]
  rfl

theorem decodeLast_group (front : List CChar) (u v w : CChar) {x : CChar} (some : x ≠ -1)
    (tail : List CChar) (dst : Dst) :
    decodeLast (front ++ u :: v :: w :: x :: tail) front.length dst =
      (putAll [byte1 u v, byte2 v w, byte3 w x] dst).map .ok := by
  rw [decodeLast, cell_behind (k := 3) rfl]
  change (if x ≠ -1 then _ else _) = _
  rw [if_pos some, decodeGroup_eq]
  cases putAll [byte1 u v, byte2 v w, byte3 w x] dst with
  | error fault => rfl
  | ok dst => rfl

theorem map_bind {α β γ : Type} (first : Except Fault α) (next : α → Except Fault β) (f : β → γ) :
    (first >>= next).map f = first >>= fun a => (next a).map f := by
  cases first with
  | error fault => rfl
  | ok a => rfl

theorem decodeLast_two (front : List CChar) (u v : CChar) {w : CChar} (some : w ≠ -1)
    (tail : List CChar) (dst : Dst) :
    decodeLast (front ++ u :: v :: w :: -1 :: tail) front.length dst =
      (putAll [byte1 u v, byte2 v w, (int w <<< 6).setWidth 8] dst).map .ok := by
  have at0 : cell (front ++ u :: v :: w :: -1 :: tail) front.length = .ok u :=
    cell_behind (k := 0) rfl
  rw [decodeLast, cell_behind (k := 3) rfl, cell_behind (k := 2) rfl, cell_behind (k := 1) rfl, at0]
  change (if w ≠ -1 then _ else _) = _
  rw [if_pos some]
  simp only [putAll, List.foldlM_cons, List.foldlM_nil, map_bind]
  rfl

theorem decodeLast_one (front : List CChar) (u : CChar) {v : CChar} (some : v ≠ -1)
    (tail : List CChar) (dst : Dst) :
    decodeLast (front ++ u :: v :: -1 :: -1 :: tail) front.length dst =
      (putAll [byte1 u v, (int v <<< 4).setWidth 8] dst).map .ok := by
  have at0 : cell (front ++ u :: v :: -1 :: -1 :: tail) front.length = .ok u :=
    cell_behind (k := 0) rfl
  rw [decodeLast, cell_behind (k := 3) rfl, cell_behind (k := 2) rfl, cell_behind (k := 1) rfl, at0]
  change (if v ≠ -1 then _ else _) = _
  rw [if_pos some]
  simp only [putAll, List.foldlM_cons, List.foldlM_nil, map_bind]
  rfl

theorem decodeLast_none (front : List CChar) (u : CChar) (tail : List CChar) (dst : Dst) :
    decodeLast (front ++ u :: -1 :: -1 :: -1 :: tail) front.length dst = .ok (.error notValid) := by
  rw [decodeLast, cell_behind (k := 3) rfl, cell_behind (k := 2) rfl, cell_behind (k := 1) rfl]
  rfl

/-- The loop and the branches behind it. -/
def decodeAll (q : List CChar) (len : Int) (i : Nat) (dst : Dst) :
    Except Fault (Except (List CChar) Dst) := do
  let (i, dst) ← decodeLoop q len i dst
  decodeLast q i dst

theorem decodeAll_last {front rest : List CChar} {len : Int} (last : len = front.length + 4)
    (dst : Dst) :
    decodeAll (front ++ rest) len front.length dst = decodeLast (front ++ rest) front.length dst := by
  rw [decodeAll, decodeLoop, if_neg (by omega)]
  rfl

theorem decodeAll_more {front rest : List CChar} {u v w x : CChar} {len : Int}
    (more : front.length + 4 < len) (dst : Dst) :
    decodeAll (front ++ u :: v :: w :: x :: rest) len front.length dst =
      putAll [byte1 u v, byte2 v w, byte3 w x] dst >>=
        decodeAll (front ++ [u, v, w, x] ++ rest) len (front ++ [u, v, w, x]).length := by
  rw [decodeAll, decodeLoop, if_pos (by omega), decodeGroup_eq, List.append_assoc]
  cases putAll [byte1 u v, byte2 v w, byte3 w x] dst with
  | error fault => rfl
  | ok dst =>
    rw [List.length_append]
    rfl

/-- What stands for groups of six bits is decoded; behind the bytes there may be a terminator. -/
theorem decodeAll_quads {xs : List (Option Nat)} (quads : Quads xs) :
    ∃ pad : List CChar, (pad = [] ∨ pad = [0]) ∧ (bytesOf xs ++ pad).length ≤ xs.length ∧
      ∀ (front tail : List CChar) (dst : Dst), dst.written.length + (bytesOf xs ++ pad).length ≤ dst.size →
        decodeAll (front ++ (xs.map stored ++ tail)) (front.length + xs.length) front.length dst =
          .ok (.ok { dst with written := dst.written ++ (bytesOf xs ++ pad) }) := by
  induction quads with
  | @one p q hp hq zeros =>
    refine ⟨[0], Or.inr rfl, by simp [bytesOf], fun front tail dst room => ?_⟩
    have last : (int (stored (some q)) <<< 4).setWidth 8 = (0 : CChar) := by
      rw [toInt_stored hq, (shifts q hq).2.2.2.1]
      exact byte_eq (m := 0) (by omega)
    refine (decodeAll_last rfl dst).trans ((decodeLast_one front _ (stored_ne hq) tail dst).trans ?_)
    rw [byte1_eq hp hq, last]
    exact congrArg (Except.map Except.ok) (putAll_room _ _ room)
  | @two p q r hp hq hr zeros =>
    refine ⟨[0], Or.inr rfl, by simp [bytesOf], fun front tail dst room => ?_⟩
    have last : (int (stored (some r)) <<< 6).setWidth 8 = (0 : CChar) := by
      rw [toInt_stored hr, (shifts r hr).2.2.2.2]
      exact byte_eq (m := 0) (by omega)
    refine (decodeAll_last rfl dst).trans ((decodeLast_two front _ _ (stored_ne hr) tail dst).trans ?_)
    rw [byte1_eq hp hq, byte2_eq hq hr, last]
    exact congrArg (Except.map Except.ok) (putAll_room _ _ room)
  | @three p q r s hp hq hr hs =>
    refine ⟨[], Or.inl rfl, by simp [bytesOf], fun front tail dst room => ?_⟩
    refine (decodeAll_last rfl dst).trans ((decodeLast_group front _ _ _ (stored_ne hs) tail dst).trans ?_)
    rw [byte1_eq hp hq, byte2_eq hq hr, byte3_eq hr hs]
    exact congrArg (Except.map Except.ok) (putAll_room _ _ room)
  | @more p q r s xs hp hq hr hs quads ih =>
    obtain ⟨pad, short, few, ih⟩ := ih
    refine ⟨pad, short, ?_, fun front tail dst room => ?_⟩
    · simp only [bytesOf, List.cons_append, List.length_cons]
      omega
    have full : xs.length ≠ 0 := by
      cases quads <;> simp
    rw [bytesOf, List.cons_append, List.cons_append, List.cons_append] at room
    simp only [List.length_cons] at room
    refine (decodeAll_more (by simp only [List.length_cons]; omega) dst).trans ?_
    rw [byte1_eq hp hq, byte2_eq hq hr, byte3_eq hr hs, putAll_room _ _ (by simp; omega)]
    have rest := ih (front ++ [stored (some p), stored (some q), stored (some r), stored (some s)])
      tail { dst with written := dst.written ++ [BitVec.ofNat 8 (p * 4 + q / 16),
        BitVec.ofNat 8 (q % 16 * 16 + r / 4), BitVec.ofNat 8 (r % 4 * 64 + s)] }
      (by simp only [List.length_append, List.length_cons, List.length_nil] at room ⊢; omega)
    have len : ((front.length : Nat) : Int) + (some p :: some q :: some r :: some s :: xs).length =
        (front ++ [stored (some p), stored (some q), stored (some r), stored (some s)]).length +
          xs.length := by
      simp only [List.length_append, List.length_cons, List.length_nil]
      omega
    rw [len]
    refine rest.trans ?_
    rw [bytesOf, List.append_assoc]
    rfl

theorem cell_outside {q : List CChar} {i : Nat} (outside : q.length ≤ i) :
    cell q i = .error .outOfBounds := by
  rw [cell, List.getElem?_eq_none outside]

/-- Four values that are there. -/
theorem four_inside {q : List CChar} {i : Nat} (inside : i + 3 < q.length) :
    ∃ front u v w x tail, q = front ++ u :: v :: w :: x :: tail ∧ front.length = i := by
  refine ⟨q.take i, q.get ⟨i, by omega⟩, q.get ⟨i + 1, by omega⟩, q.get ⟨i + 2, by omega⟩,
    q.get ⟨i + 3, inside⟩, q.drop (i + 4), ?_, ?_⟩
  · have parts := List.take_append_drop i q
    rw [List.drop_eq_getElem_cons (by omega), List.drop_eq_getElem_cons (by omega),
      List.drop_eq_getElem_cons (by omega), List.drop_eq_getElem_cons inside] at parts
    exact parts.symm
  · rw [List.length_take]
    omega

/-- A group that is inside of the block. -/
theorem decodeGroup_inside {q : List CChar} {i : Nat} (inside : i + 3 < q.length) (dst : Dst)
    (room : dst.written.length + 3 ≤ dst.size) :
    ∃ bytes, bytes.length = 3 ∧
      decodeGroup q i dst = .ok { dst with written := dst.written ++ bytes } := by
  obtain ⟨front, u, v, w, x, tail, rfl, rfl⟩ := four_inside inside
  exact ⟨_, rfl, (decodeGroup_eq front u v w x tail dst).trans (putAll_room _ _ room)⟩

theorem decodeLoop_inside {q : List CChar} {len : Nat} (block : q.length = len + 1) : ∀ (i : Nat)
    (dst : Dst), i % 4 = 0 → i < len → dst.written.length + (len - i) ≤ dst.size →
      ∃ i' dst', decodeLoop q len i dst = .ok (i', dst') ∧ i' % 4 = 0 ∧ i' < len ∧ len ≤ i' + 4 ∧
        dst'.size = dst.size ∧ dst'.written.length + (len - i') ≤ dst.written.length + (len - i) := by
  intro i dst
  induction left : len - i using Nat.strongRecOn generalizing i dst with
  | ind n ih =>
    subst left
    intro aligned inside room
    by_cases more : (i : Int) < (len : Int) - 4
    · obtain ⟨bytes, three, ran⟩ := decodeGroup_inside (q := q) (i := i) (by omega) dst
        (by omega)
      obtain ⟨i', dst', loop, aligned', inside', last, size, few⟩ :=
        ih (len - (i + 4)) (by omega) (i + 4) { dst with written := dst.written ++ bytes } rfl
          (by omega) (by omega)
          (by simp only [List.length_append]; omega)
      refine ⟨i', dst', ?_, aligned', inside', last, size, ?_⟩
      · rw [decodeLoop, if_pos more, ran]
        exact loop
      · simp only [List.length_append] at few
        omega
    · exact ⟨i, dst, by rw [decodeLoop, if_neg more], aligned, inside, by omega, rfl, Nat.le_refl _⟩

theorem decodeLast_inside {q : List CChar} {i : Nat} (inside : i + 3 < q.length) (dst : Dst)
    (room : dst.written.length + 3 ≤ dst.size) :
    ∃ result, decodeLast q i dst = .ok result ∧
      ∀ dst', result = .ok dst' →
        dst'.size = dst.size ∧ dst'.written.length ≤ dst.written.length + 3 := by
  obtain ⟨front, u, v, w, x, tail, rfl, rfl⟩ := four_inside inside
  by_cases last : x = -1
  · subst last
    by_cases third : w = -1
    · subst third
      by_cases second : v = -1
      · subst second
        exact ⟨_, decodeLast_none front u tail dst, fun _ same => by cases same⟩
      · refine ⟨_, (decodeLast_one front u second tail dst).trans
          (congrArg (Except.map Except.ok) (putAll_room _ _ (Nat.le_of_succ_le room))), ?_⟩
        rintro _ ⟨⟩
        exact ⟨rfl, by simp⟩
    · refine ⟨_, (decodeLast_two front u v third tail dst).trans
        (congrArg (Except.map Except.ok) (putAll_room _ _ room)), ?_⟩
      rintro _ ⟨⟩
      exact ⟨rfl, by simp⟩
  · refine ⟨_, (decodeLast_group front u v w last tail dst).trans
      (congrArg (Except.map Except.ok) (putAll_room _ _ room)), ?_⟩
    rintro _ ⟨⟩
    exact ⟨rfl, by simp⟩

/-- The decoder stays inside of its block where its text has whole groups, or all but one letter of
the last. -/
theorem decodeAll_inside {q : List CChar} {len : Nat} (block : q.length = len + 1)
    (whole : 3 ≤ len ∧ (len % 4 = 0 ∨ len % 4 = 3)) {size : Nat} (room : len + 3 < size) :
    ∃ result, decodeAll q len 0 ⟨size, []⟩ = .ok result ∧
      ∀ dst, result = .ok dst → dst.written.length < dst.size := by
  obtain ⟨i, dst, loop, aligned, inside, last, same, few⟩ :=
    decodeLoop_inside block 0 ⟨size, []⟩ rfl (by omega) (by simp; omega)
  simp only [List.length_nil] at few same
  obtain ⟨result, ran, fits⟩ := decodeLast_inside (q := q) (i := i) (by omega) dst (by omega)
  refine ⟨result, ?_, fun dst' same' => ?_⟩
  · rw [decodeAll, loop]
    exact ran
  · obtain ⟨size', few'⟩ := fits dst' same'
    omega

theorem decodeAll_outside {q : List CChar} (len : Nat) (block : q.length = len + 1)
    (part : ¬(3 ≤ len ∧ (len % 4 = 0 ∨ len % 4 = 3))) (size : Nat)
    (room : len ≠ 0 → len + 3 < size) :
    decodeAll q len 0 ⟨size, []⟩ = .error .outOfBounds := by
  by_cases empty : len = 0
  · subst empty
    rw [decodeAll, decodeLoop, if_neg (by omega)]
    change decodeLast q 0 ⟨size, []⟩ = _
    rw [decodeLast, cell_outside (by omega)]
    rfl
  · have more := room empty
    obtain ⟨i, dst, loop, aligned, inside, last, _⟩ :=
      decodeLoop_inside block 0 ⟨size, []⟩ rfl (by omega) (by simp; omega)
    rw [decodeAll, loop]
    change decodeLast q i dst = _
    rw [decodeLast, cell_outside (by omega)]
    rfl

end Decode

section Main

theorem sign_ne {x : Option Nat} (six : ∀ n, x = some n → n < 64) : sign x ≠ 0 := by
  have all : ∀ n < 64, sign (some n) ≠ 0 := by decide +kernel
  cases x with
  | none => decide
  | some n => exact all n (six n rfl)

theorem takeWhile_plain {letters : List CChar} (plain : (0 : CChar) ∉ letters) :
    letters.takeWhile (· ≠ 0) = letters :=
  List.takeWhile_eq_self_iff.mpr fun _ member => decide_eq_true fun same => plain (same ▸ member)

theorem takeWhile_pad (letters : List CChar) {pad : List CChar} (short : pad = [] ∨ pad = [0]) :
    (letters ++ pad).takeWhile (· ≠ 0) = letters.takeWhile (· ≠ 0) := by
  rcases short with rfl | rfl
  · rw [List.append_nil]
  · induction letters with
    | nil => rfl
    | cons c letters ih => rw [List.cons_append, List.takeWhile_cons, ih, List.takeWhile_cons]

theorem signs_plain {xs : List (Option Nat)} (six : ∀ n, some n ∈ xs → n < 64) :
    (0 : CChar) ∉ xs.map sign := by
  intro member
  obtain ⟨x, member, zero⟩ := List.mem_map.mp member
  exact sign_ne (fun n same => six n (same ▸ member)) zero

/-- Where the options are a text and what to do with it. -/
def command (src : List CChar) (type : Char) : List Opt := [.src src, .type [ch type]]

theorem main_long (given : Nat → Bool) {src : List CChar} (long : 99 < src.length) (type : Char) :
    main given (command src type) = .ok help := by
  rw [main, command, options, if_pos long]
  rfl

variable {given : Nat → Bool} (allocates : ∀ n < 200, given n = true)

include allocates

theorem main_encodes {src : List CChar} (short : src.length ≤ 99) :
    main given (command src 'e') =
      (encode src (dstSize src)).map (· ++ [ch '\n']) := by
  have size : dstSize src < 200 := by
    unfold dstSize
    omega
  rw [main, command, options, if_neg (by omega), if_pos (allocates 100 (by decide))]
  simp only [options, List.headD_cons, bind, Except.bind]
  rw [if_pos trivial, if_pos (allocates _ size)]
  cases encode src (dstSize src) with
  | error fault => rfl
  | ok code => rfl

theorem main_decodes {src : List CChar} (short : src.length ≤ 99) :
    main given (command src 'd') =
      (decode given src (dstSize src)).map fun
        | .error printed => printed
        | .ok text => text ++ [ch '\n'] := by
  have size : dstSize src < 200 := by
    unfold dstSize
    omega
  rw [main, command, options, if_neg (by omega), if_pos (allocates 100 (by decide))]
  simp only [options, List.headD_cons, bind, Except.bind]
  rw [if_neg (by decide), if_pos trivial, if_pos (allocates _ size)]
  cases decode given src (dstSize src) with
  | error fault => rfl
  | ok result =>
    cases result with
    | error printed => rfl
    | ok text => rfl

omit allocates in
theorem encode_eq (src : List CChar) (size : Nat) :
    encode src size = encodeAll src ⟨size, []⟩ >>= finish := by
  rw [encode, encodeAll, bind_assoc]

omit allocates in
theorem encode_low {src : List CChar} (low : LowBehind src) :
    encode src (dstSize src) = .ok ((base64 src).map ch) := by
  have long := length_sextets src
  have room : (sextets src).length < dstSize src := by
    unfold dstSize
    omega
  have letters : (base64 src).map ch = (sextets src).map sign := List.map_map ..
  rw [encode_eq, encodeAll_low src low (by simpa using Nat.le_of_lt room)]
  change finish ⟨dstSize src, [] ++ (sextets src).map sign⟩ = _
  rw [List.nil_append, finish, if_pos (by rwa [List.length_map]),
    takeWhile_plain (signs_plain (sextet_lt src)), letters]

omit allocates in
theorem encode_read {src : List CChar} (full : src ≠ []) {size : Nat} {code : List CChar}
    (ran : encode src size = .ok code) :
    ∃ xs, Quads xs ∧ code = xs.map sign ∧ xs.length = (sextets src).length ∧
      (bytesOf xs).length = src.length ∧ (bytesOf xs = src → LowBehind src) := by
  rw [encode_eq] at ran
  obtain ⟨dst, all, ran⟩ := bind_ends ran
  obtain ⟨xs, quads, rfl, long, long', low⟩ := encodeAll_read src full all
  refine ⟨xs, quads, ?_, long, long', low⟩
  rw [List.nil_append, finish] at ran
  split at ran
  · rw [takeWhile_plain (signs_plain quads.six)] at ran
    exact (Except.ok.inj ran).symm
  · cases ran

omit allocates in
theorem decode_eq {src vs : List CChar} (known : values src = .ok vs) (size : Nat)
    (block : given (src.length + 1) = true) :
    decode given src size = decodeAll (vs ++ [0]) src.length 0 ⟨size, []⟩ >>= fun
      | .error printed => .ok (.error printed)
      | .ok dst => (finish dst).map .ok := by
  rw [decode, if_pos block, known, decodeAll, bind_assoc]
  dsimp only
  congr 1

omit allocates in
theorem decode_quads {xs : List (Option Nat)} (quads : Quads xs) {size : Nat}
    (room : xs.length < size) (block : given (xs.length + 1) = true) :
    decode given (xs.map sign) size = .ok (.ok ((bytesOf xs).takeWhile (· ≠ 0))) := by
  obtain ⟨pad, short, few, all⟩ := decodeAll_quads quads
  have ran := all [] [0] ⟨size, []⟩ (by simp only [List.length_nil]; omega)
  rw [List.nil_append, List.nil_append, List.length_nil, Int.natCast_zero, Int.zero_add] at ran
  rw [decode_eq (values_sign quads.six) size (by rwa [List.length_map]), List.length_map, ran]
  change (finish ⟨size, bytesOf xs ++ pad⟩).map Except.ok = _
  rw [finish, if_pos (by simp only; omega), takeWhile_pad _ short]
  rfl

omit allocates in
theorem quads_sextets (src : List CChar) : src ≠ [] → Quads (sextets src) := by
  fun_induction sextets src with
  | case1 => exact fun full => absurd rfl full
  | case2 a =>
    intro _
    have small := a.isLt
    exact .one (by omega) (by omega) (by omega)
  | case3 a b =>
    intro _
    have small := a.isLt
    have small' := b.isLt
    exact .two (by omega) (by omega) (by omega) (by omega)
  | case4 a b c rest ih =>
    intro _
    have small := a.isLt
    have small' := b.isLt
    have small'' := c.isLt
    by_cases ended : rest = []
    · subst ended
      exact .three (by omega) (by omega) (by omega) (by omega)
    · exact .more (by omega) (by omega) (by omega) (by omega) (ih ended)

omit allocates in
theorem help_ascii : ∀ c ∈ help, c.toNat < 128 := by simp [help, text, ch]

omit allocates in
theorem low_of_ascii (src : List CChar) (ascii : ∀ c ∈ src, c.toNat < 128) : LowBehind src := by
  fun_induction LowBehind src with
  | case1 a b c rest ih =>
    exact ⟨ascii b (by simp), ascii c (by simp), ih fun d member => ascii d (by simp [member])⟩
  | case2 a b => exact ascii b (by simp)
  | case3 => trivial

omit allocates in
/-- No other bytes of this number end up as this string. -/
theorem bytes_of_takeWhile {bytes src : List CChar} (long : bytes.length = src.length)
    (same : bytes.takeWhile (· ≠ 0) = src) : bytes = src := by
  have start : bytes.takeWhile (· ≠ 0) <+: bytes := List.takeWhile_prefix _
  rw [same] at start
  exact (start.eq_of_length long.symm).symm

omit allocates in
/-- The letters of a string are those of no other groups. -/
theorem bytesOf_of_signs {xs : List (Option Nat)} (quads : Quads xs) {src : List CChar}
    (full : src ≠ []) (plain : (0 : CChar) ∉ src) (long : (bytesOf xs).length = src.length)
    (same : xs.map sign = (sextets src).map sign) : bytesOf xs = src := by
  have read : decode (fun _ => true) (xs.map sign) (xs.length + 1) = _ :=
    decode_quads quads (Nat.lt_succ_self _) rfl
  have read' : decode (fun _ => true) ((sextets src).map sign) ((sextets src).length + 1) = _ :=
    decode_quads (quads_sextets src full) (Nat.lt_succ_self _) rfl
  have len : xs.length = (sextets src).length := by
    have := congrArg List.length same
    rwa [List.length_map, List.length_map] at this
  rw [same, len, read', bytesOf_sextets, takeWhile_plain plain] at read
  exact bytes_of_takeWhile long (Except.ok.inj (Except.ok.inj read)).symm

omit allocates in
theorem map_append_inj {α : Type} {first : Except Fault (List α)} {text tail : List α}
    (ran : first.map (· ++ tail) = .ok (text ++ tail)) : first = .ok text := by
  obtain ⟨_, rfl, same⟩ := map_ends ran
  rw [List.append_cancel_right same]

theorem main_reads {xs : List (Option Nat)} (quads : Quads xs) (short : xs.length ≤ 99) :
    main given (command (xs.map sign) 'd') =
      .ok ((bytesOf xs).takeWhile (· ≠ 0) ++ [ch '\n']) := by
  rw [main_decodes allocates (by rwa [List.length_map]), decode_quads quads
    (by rw [dstSize, List.length_map]; omega) (allocates _ (by omega))]
  rfl

/-- A text is printed in base64 just where no letter is off; and it comes back just where in
addition there is something of it, and its letters are not too many for `main`, which then prints
the usage instead. -/
theorem main_comesBack_iff {text : List CChar} (plain : (0 : CChar) ∉ text)
    (short : text.length ≤ 99) :
    (main given (command text 'e') = .ok ((base64 text).map ch ++ [ch '\n']) ↔ LowBehind text) ∧
    ((∃ code, main given (command text 'e') = .ok (code ++ [ch '\n']) ∧
        main given (command code 'd') = .ok (text ++ [ch '\n'])) ↔
      text ≠ [] ∧ LowBehind text ∧ (text.length ≤ 72 ∨ help = text ++ [ch '\n'])) := by
  have encodes := main_encodes allocates short
  have letters : (base64 text).map ch = (sextets text).map sign := List.map_map ..
  have many := length_sextets text
  have plainly : LowBehind text →
      main given (command text 'e') = .ok ((base64 text).map ch ++ [ch '\n']) := fun low => by
    rw [encodes, encode_low low]
    rfl
  refine ⟨⟨fun same => ?_, plainly⟩, ⟨?_, ?_⟩⟩
  · by_cases full : text = []
    · exact full ▸ trivial
    · obtain ⟨xs, quads, written, _, long, low⟩ := encode_read full (map_append_inj (encodes ▸ same))
      exact low (bytesOf_of_signs quads full plain long (written.symm.trans letters))
  · rintro ⟨code, there, back⟩
    have full : text ≠ [] := by
      rintro rfl
      have code : [] = code := Except.ok.inj (map_append_inj (encodes ▸ there))
      subst code
      have outside := decodeAll_outside (q := [0]) 0 rfl (by omega) (dstSize [])
        (fun full => absurd rfl full)
      rw [main_decodes allocates (Nat.zero_le _), decode_eq rfl _ (allocates 1 (by decide))] at back
      change Except.map _ (decodeAll [0] (0 : Nat) 0 ⟨dstSize [], []⟩ >>= _) = _ at back
      rw [outside] at back
      cases back
    obtain ⟨xs, quads, written, many', long, low⟩ :=
      encode_read full (map_append_inj (encodes ▸ there))
    by_cases few : code.length ≤ 99
    · rw [written, List.length_map] at few
      rw [written, main_reads allocates quads few] at back
      have same := bytes_of_takeWhile long (List.append_cancel_right (Except.ok.inj back))
      exact ⟨full, low same, Or.inl (by omega)⟩
    · rw [main_long given (by omega)] at back
      have usage : help = text ++ [ch '\n'] := Except.ok.inj back
      exact ⟨full, low_of_ascii text fun c member =>
        help_ascii c (by rw [usage]; exact List.mem_append_left _ member), Or.inr usage⟩
  · rintro ⟨full, low, fits⟩
    refine ⟨_, plainly low, ?_⟩
    rw [letters]
    by_cases few : text.length ≤ 72
    · rw [main_reads allocates (quads_sextets text full) (by omega), bytesOf_sextets,
        takeWhile_plain plain]
    · rw [main_long given (by rw [List.length_map]; omega), fits.resolve_left few]

omit allocates in
theorem length_values : ∀ {src vs : List CChar}, values src = .ok vs → vs.length = src.length := by
  intro src
  induction src with
  | nil =>
    rintro vs ⟨⟩
    rfl
  | cons c src ih =>
    intro vs known
    rw [values] at known
    cases here : value c with
    | none =>
      rw [here] at known
      cases known
    | some v =>
      rw [here] at known
      cases rest : values src with
      | error bad =>
        rw [rest] at known
        cases known
      | ok others =>
        rw [rest] at known
        obtain rfl := Except.ok.inj known
        rw [List.length_cons, List.length_cons, ih rest]

omit allocates in
theorem values_error_iff (src : List CChar) :
    (∃ c, values src = .error c) ↔ ∃ c ∈ src, value c = none := by
  induction src with
  | nil => simp [values]
  | cons c src ih =>
    rw [values]
    cases here : value c with
    | none => simp [here]
    | some v =>
      cases rest : values src with
      | error bad =>
        obtain ⟨d, member, none⟩ := ih.mp ⟨bad, rest⟩
        exact ⟨fun _ => ⟨d, List.mem_cons_of_mem _ member, none⟩, fun _ => ⟨bad, rfl⟩⟩
      | ok others =>
        constructor
        · rintro ⟨_, ⟨⟩⟩
        · rintro ⟨d, member, none⟩
          rcases List.mem_cons.mp member with rfl | later
          · rw [here] at none
            cases none
          · obtain ⟨bad, failed⟩ := ih.mpr ⟨d, later, none⟩
            rw [rest] at failed
            cases failed

omit allocates in
theorem main_comesBack_word :
    (∀ n < 200, (fun _ : Nat => true) n = true) ∧ (0 : CChar) ∉ text "word" ∧
      (text "word").length ≤ 99 ∧
      (main (fun _ => true) (command (text "word") 'e') =
        .ok ((base64 (text "word")).map ch ++ [ch '\n']) ↔ LowBehind (text "word")) ∧
      ((∃ code, main (fun _ => true) (command (text "word") 'e') = .ok (code ++ [ch '\n']) ∧
          main (fun _ => true) (command code 'd') = .ok (text "word" ++ [ch '\n'])) ↔
        text "word" ≠ [] ∧ LowBehind (text "word") ∧
          ((text "word").length ≤ 72 ∨ help = text "word" ++ [ch '\n'])) :=
  ⟨fun _ _ => rfl, by decide, by decide,
    main_comesBack_iff (fun _ _ => rfl) (by decide) (by decide)⟩

/-- The program decodes without reading outside of its block, and without writing outside of the
other one, just where the text has a letter that is not of base64, or where whole groups of letters,
or all but one of the last group. -/
theorem main_decodes_iff {src : List CChar} (short : src.length ≤ 99) :
    (∃ printed, main given (command src 'd') = .ok printed) ↔
      (∃ c ∈ src, value c = none) ∨
        3 ≤ src.length ∧ (src.length % 4 = 0 ∨ src.length % 4 = 3) := by
  rw [main_decodes allocates short, map_ends_iff, ← values_error_iff]
  have block := allocates (src.length + 1) (by omega)
  cases known : values src with
  | error c =>
    rw [decode, if_pos block, known]
    exact ⟨fun _ => Or.inl ⟨c, rfl⟩, fun _ => ⟨_, rfl⟩⟩
  | ok vs =>
    have len := length_values known
    have long : (vs ++ [0]).length = src.length + 1 := by
      rw [List.length_append, len, List.length_singleton]
    have room : src.length ≠ 0 → src.length + 3 < dstSize src := by
      unfold dstSize
      omega
    rw [decode_eq known _ block]
    by_cases whole : 3 ≤ src.length ∧ (src.length % 4 = 0 ∨ src.length % 4 = 3)
    · refine ⟨fun _ => Or.inr whole, fun _ => ?_⟩
      obtain ⟨result, ran, fits⟩ := decodeAll_inside long whole (room (by omega))
      rw [ran]
      cases result with
      | error printed => exact ⟨_, rfl⟩
      | ok dst =>
        refine ⟨.ok (dst.written.takeWhile (· ≠ 0)), ?_⟩
        change (finish dst).map _ = _
        rw [finish, if_pos (fits dst rfl)]
        rfl
    · rw [decodeAll_outside _ long whole _ room]
      constructor
      · rintro ⟨_, ⟨⟩⟩
      · rintro (⟨_, ⟨⟩⟩ | fits)
        exact absurd fits whole

omit allocates in
theorem main_decodes_word :
    (∀ n < 200, (fun _ : Nat => true) n = true) ∧ (text "d29yZA").length ≤ 99 ∧
      ((∃ printed, main (fun _ => true) (command (text "d29yZA") 'd') = .ok printed) ↔
        (∃ c ∈ text "d29yZA", value c = none) ∨
          3 ≤ (text "d29yZA").length ∧
            ((text "d29yZA").length % 4 = 0 ∨ (text "d29yZA").length % 4 = 3)) :=
  ⟨fun _ _ => rfl, by decide, main_decodes_iff (fun _ _ => rfl) (by decide)⟩

end Main

end Ct.Openssl.Base64
