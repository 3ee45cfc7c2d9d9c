import Ct.S5pv210.Printf
import Ct.Lib.Hexadecimal
import Ct.Lib.Memory

set_option autoImplicit false

namespace Ct.S5pv210

open Ct.Lib

/-- `while(n > 0) { *++tsp = tb[n & 0xf]; n >>= 4; }` -/
def storeDigits : Nat → BitVec 32 → List Char → Nat → Except Fault (List Char × Nat)
  | 0, _, _, _ => .error .outOfFuel
  | fuel + 1, n, ts, tsp =>
    if 0 < n then
      if tsp + 1 < ts.length then
        storeDigits fuel (n >>> 4)
          (ts.set (tsp + 1) ("0123456789ABCDEF".toList.getD (n &&& 0xf).toNat '0')) (tsp + 1)
      else .error .outOfBounds
    else .ok (ts, tsp)

/-- `while((*dsp++ = *tsp--))`; in front of `ts` nothing may be read. -/
def copyDigits (ts : List Char) : Nat → List Char → Nat → Except Fault (List Char)
  | tsp, ds, dsp =>
    match ts[tsp]? with
    | none => .error .outOfBounds
    | some c =>
      if dsp < ds.length then
        if c = '\x00' then .ok (ds.set dsp c)
        else match tsp with
          | 0 => .error .outOfBounds
          | tsp + 1 => copyDigits ts tsp (ds.set dsp c) (dsp + 1)
      else .error .outOfBounds

/-- `i2hs` with its array `ts`, as it is on the stack before, and the buffer `ds`. -/
def i2hsInto (n : BitVec 32) (ts : Vector Char 32) (ds : List Char) : Except Fault (List Char) := do
  let (ts, tsp) ← storeDigits 9 n (ts.toList.set 0 '\x00') 0
  if ts[tsp]? = some '\x00' then
    if tsp + 1 < ts.length then copyDigits (ts.set (tsp + 1) '0') (tsp + 1) ds 0
    else .error .outOfBounds
  else copyDigits ts tsp ds 0

/-- `x` in the loop of `str2hl`. -/
def digitOf (c : Char) : Option Nat :=
  if 0x30 ≤ c.toNat ∧ c.toNat ≤ 0x39 then some (c.toNat - 0x30)
  else if 0x41 ≤ c.toNat ∧ c.toNat ≤ 0x46 then some (c.toNat - 0x41 + 10)
  else if 0x61 ≤ c.toNat ∧ c.toNat ≤ 0x66 then some (c.toNat - 0x61 + 10)
  else none

/-- The loop of `str2hl`; a `long` of the machine has 32 bits. -/
def str2hlLoop : CString → BitVec 32 → BitVec 32
  | [], number => number
  | c :: ss, number =>
    match digitOf c with
    | none => -1
    | some x => str2hlLoop ss ((number <<< 4) ||| BitVec.ofNat 32 x)

def str2hl (ss : CString) : BitVec 32 := str2hlLoop ss 0

theorem digitOf_hexDigit {c : Char} (digit : c ∈ hexDigits) : digitOf c = some (hexDigit c) := by
  simpa using forall_hexDigits (fun c => decide (digitOf c = some (hexDigit c)))
    (by decide) digit

theorem shift_or_toNat {number : BitVec 32} {x : Nat} (small : number.toNat < 2 ^ 28)
    (digit : x < 16) :
    ((number <<< 4) ||| BitVec.ofNat 32 x).toNat = 16 * number.toNat + x := by
  have shifted : (number <<< 4).toNat = number.toNat <<< 4 := by
    rw [BitVec.toNat_shiftLeft, Nat.shiftLeft_eq]
    omega
  have low : (BitVec.ofNat 32 x).toNat = x := by
    rw [BitVec.toNat_ofNat]
    omega
  rw [BitVec.toNat_or, shifted, low, ← Nat.shiftLeft_add_eq_or_of_lt (by omega), Nat.shiftLeft_eq]
  omega

/-- Where the digits fit into a word, the word is their value. -/
theorem str2hlLoop_value (ss : CString) :
    ∀ (number : BitVec 32) (k : Nat), (∀ c ∈ ss, c ∈ hexDigits) → number.toNat < 16 ^ k →
      k + ss.length ≤ 8 →
      (str2hlLoop ss number).toNat = ss.foldl (fun n c => 16 * n + hexDigit c) number.toNat := by
  induction ss with
  | nil => exact fun _ _ _ _ _ => rfl
  | cons c ss ih =>
    intro number k digits small few
    obtain ⟨here, later⟩ := List.forall_mem_cons.mp digits
    rw [List.length_cons] at few
    have word : number.toNat < 2 ^ 28 := by
      have most : 16 ^ k ≤ 16 ^ 7 := Nat.pow_le_pow_right (by decide) (by omega)
      omega
    have next := shift_or_toNat word (hexDigit_lt here)
    have bound := hexDigit_lt here
    rw [str2hlLoop, digitOf_hexDigit here, List.foldl_cons, ← next]
    apply ih _ (k + 1) later _ (by omega)
    rw [next, Nat.pow_succ]
    omega

theorem str2hl_value {ss : CString} (digits : ∀ c ∈ ss, c ∈ hexDigits) (few : ss.length ≤ 8) :
    (str2hl ss).toNat = hexValue ss :=
  str2hlLoop_value ss 0 0 digits (by decide) (by omega)

theorem i2hsLoop_zero (fuel : Nat) (ts : CString) : i2hsLoop fuel 0 ts = ts := by
  cases fuel with
  | zero => rfl
  | succ fuel => exact if_pos rfl

theorem low_digit (n : BitVec 32) : (n &&& 0xf).toNat = n.toNat % 16 := by
  rw [BitVec.toNat_and]
  exact Nat.and_two_pow_sub_one_eq_mod n.toNat 4

theorem shift_digit (n : BitVec 32) : (n >>> 4).toNat = n.toNat / 16 := by
  rw [BitVec.toNat_ushiftRight, Nat.shiftRight_eq_div_pow]

/-- The loop puts the text of a number in front. -/
theorem i2hsLoop_text (fuel : Nat) :
    ∀ (n : BitVec 32) (ts : CString), 0 < n.toNat → n.toNat < 16 ^ fuel →
      i2hsLoop fuel n ts = hexNumeral n.toNat ++ ts := by
  induction fuel with
  | zero =>
    intro n ts positive small
    rw [Nat.pow_zero] at small
    omega
  | succ fuel ih =>
    intro n ts positive small
    have nonzero : n ≠ 0 := by
      rintro rfl
      exact absurd positive (by decide)
    have digit : n.toNat % 16 < 16 := Nat.mod_lt _ (by decide)
    have parts := Nat.div_add_mod n.toNat 16
    rw [i2hsLoop, if_neg nonzero, low_digit]
    by_cases last : n.toNat / 16 = 0
    · have done : n >>> 4 = 0 := BitVec.eq_of_toNat_eq (by rw [shift_digit, last]; rfl)
      rw [done, i2hsLoop_zero, ← parts, last, Nat.mul_zero, Nat.zero_add, Nat.mod_mod,
        hexNumeral_digit digit]
      rfl
    · have less : n.toNat / 16 < 16 ^ fuel := by
        rw [Nat.pow_succ] at small
        omega
      have whole := hexNumeral_more (Nat.pos_of_ne_zero last) digit
      rw [parts, hexNumeral_digit digit] at whole
      rw [← shift_digit] at last less
      rw [ih _ _ (Nat.pos_of_ne_zero last) less, shift_digit, whole, List.append_assoc,
        List.singleton_append]

theorem i2hs_text (n : BitVec 32) : i2hs n = hexNumeral n.toNat := by
  rw [i2hs]
  by_cases zero : n.toNat = 0
  · have same : n = 0 := BitVec.eq_of_toNat_eq zero
    subst same
    rfl
  · have loop := i2hsLoop_text 8 n [] (Nat.pos_of_ne_zero zero) n.isLt
    rw [List.append_nil] at loop
    rw [loop]
    split
    · rename_i none
      exact absurd none (by simp [hexNumeral])
    · rfl

section Buffer

/-- The digits of a number are behind each other in `ts`, the last one first. -/
theorem storeDigits_loop (fuel : Nat) :
    ∀ (n : BitVec 32) (text rest : List Char), n.toNat < 16 ^ fuel → fuel ≤ rest.length →
      ∃ rest', storeDigits (fuel + 1) n ('\x00' :: (text.reverse ++ rest)) text.length =
        .ok ('\x00' :: ((i2hsLoop fuel n text).reverse ++ rest'), (i2hsLoop fuel n text).length) ∧
        (i2hsLoop fuel n text).length + rest'.length = text.length + rest.length := by
  have ended : ∀ (fuel : Nat) (text rest : List Char),
      storeDigits (fuel + 1) 0 ('\x00' :: (text.reverse ++ rest)) text.length =
        .ok ('\x00' :: (text.reverse ++ rest), text.length) := fun _ _ _ => rfl
  induction fuel with
  | zero =>
    intro n text rest small _
    have zero : n = 0 := BitVec.eq_of_toNat_eq (Nat.lt_one_iff.mp small)
    subst zero
    exact ⟨rest, ended 0 text rest, rfl⟩
  | succ fuel ih =>
    intro n text rest small room
    by_cases zero : n.toNat = 0
    · have same : n = 0 := BitVec.eq_of_toNat_eq zero
      subst same
      rw [i2hsLoop_zero]
      exact ⟨rest, ended (fuel + 1) text rest, rfl⟩
    · have positive : 0 < n := Nat.pos_of_ne_zero zero
      have nonzero : n ≠ 0 := fun same => zero (congrArg BitVec.toNat same)
      have less : (n >>> 4).toNat < 16 ^ fuel := by
        rw [Nat.pow_succ] at small
        rw [shift_digit]
        omega
      cases rest with
      | nil => exact absurd room (Nat.not_succ_le_zero fuel)
      | cons o rest =>
        have inside : text.length + 1 < ('\x00' :: (text.reverse ++ o :: rest)).length := by simp
        obtain ⟨rest', run, size⟩ := ih (n >>> 4)
          ("0123456789ABCDEF".toList.getD (n &&& 0xf).toNat '0' :: text) rest less
          (Nat.le_of_succ_le_succ room)
        rw [List.reverse_cons, List.append_assoc, List.singleton_append, List.length_cons] at run
        have stored := set_behind ['\x00'] text.reverse rest o
          ("0123456789ABCDEF".toList.getD (n &&& 0xf).toNat '0')
        rw [List.length_reverse, List.length_singleton, Nat.add_comm, List.singleton_append,
          List.singleton_append] at stored
        rw [i2hsLoop, if_neg nonzero]
        refine ⟨rest', ?_, ?_⟩
        · rw [storeDigits, if_pos positive, if_pos inside, stored, run]
        · rw [size, List.length_cons, List.length_cons]
          omega

/-- The text is copied from its end in `ts` on, and the terminator last. -/
theorem copyDigits_text (text : List Char) :
    ∀ (rest front old : List Char), '\x00' ∉ text → text.length < old.length →
      ∃ tail, copyDigits ('\x00' :: (text.reverse ++ rest)) text.length (front ++ old)
        front.length = .ok (front ++ (text ++ '\x00' :: tail)) := by
  induction text with
  | nil =>
    intro rest front old _ room
    cases old with
    | nil => exact absurd room (Nat.lt_irrefl _)
    | cons o old =>
      have inside : front.length < (front ++ o :: old).length := by simp
      have stored := set_front front old o '\x00'
      refine ⟨old, ?_⟩
      rw [copyDigits, List.length_nil, List.getElem?_cons_zero]
      dsimp only
      rw [if_pos inside, if_pos rfl, stored, List.nil_append]
  | cons c text ih =>
    intro rest front old inside room
    cases old with
    | nil => exact absurd room (Nat.not_lt_zero _)
    | cons o old =>
      have place : front.length < (front ++ o :: old).length := by simp
      have other : c ≠ '\x00' := (List.ne_of_not_mem_cons inside).symm
      have stored := set_front front old o c
      have last := getElem?_behind ['\x00'] text.reverse c rest
      rw [List.length_reverse, List.length_singleton, Nat.add_comm, List.singleton_append] at last
      obtain ⟨tail, run⟩ := ih (c :: rest) (front ++ [c]) old (List.not_mem_of_not_mem_cons inside)
        (Nat.lt_of_succ_lt_succ room)
      rw [List.append_assoc, List.append_assoc, List.singleton_append, List.singleton_append,
        List.length_append, List.length_singleton] at run
      refine ⟨tail, ?_⟩
      rw [List.reverse_cons, List.append_assoc, List.singleton_append, List.length_cons, copyDigits,
        last]
      dsimp only
      rw [if_pos place, if_neg other, stored, run, List.cons_append]

theorem i2hs_length (n : BitVec 32) : (i2hs n).length ≤ 8 := by
  rw [i2hs_text]
  exact length_hexNumeral_le (by decide) n.isLt

theorem i2hs_inside (n : BitVec 32) : '\x00' ∉ i2hs n := by
  intro member
  rw [i2hs_text] at member
  exact absurd (mem_hexNumeral n.toNat _ member) (by decide)

/-- `i2hs` writes its text and the terminator, which are at most nine characters. -/
theorem i2hsInto_text (n : BitVec 32) (ts : Vector Char 32) {ds : List Char}
    (room : 9 ≤ ds.length) : ∃ tail, i2hsInto n ts ds = .ok (i2hs n ++ '\x00' :: tail) := by
  have long := i2hs_length n
  have inside := i2hs_inside n
  obtain ⟨o, rest, stack⟩ : ∃ o rest, ts.toList = o :: rest :=
    List.exists_cons_of_length_pos (by rw [ts.length_toList]; decide)
  have size : rest.length = 31 := by
    have whole := ts.length_toList
    rw [stack, List.length_cons] at whole
    omega
  obtain ⟨rest', run, sizes⟩ := storeDigits_loop 8 n [] rest n.isLt (by omega)
  rw [List.reverse_nil, List.nil_append, List.length_nil] at run
  rw [size, List.length_nil] at sizes
  rw [i2hs] at long inside ⊢
  rw [i2hsInto, stack, List.set_cons_zero, run]
  simp only [bind, Except.bind]
  cases text : i2hsLoop 8 n [] with
  | nil =>
    rw [text, List.length_nil] at sizes
    cases rest' with
    | nil => simp at sizes
    | cons d rest' =>
      obtain ⟨tail, copied⟩ := copyDigits_text ['0'] rest' [] ds (by decide)
        (by rw [List.length_singleton]; omega)
      refine ⟨tail, ?_⟩
      rw [List.nil_append, List.nil_append, List.length_nil] at copied
      exact copied
  | cons c cs =>
    rw [text] at long inside
    have short : (c :: cs).length ≤ 8 := long
    have last := getElem?_behind ['\x00'] cs.reverse c rest'
    rw [List.length_reverse, List.length_singleton, Nat.add_comm, List.singleton_append] at last
    have other : c ≠ '\x00' := (List.ne_of_not_mem_cons inside).symm
    obtain ⟨tail, copied⟩ := copyDigits_text (c :: cs) rest' [] ds inside
      (Nat.lt_of_le_of_lt short room)
    refine ⟨tail, ?_⟩
    rw [List.nil_append, List.nil_append, List.length_nil, List.reverse_cons, List.append_assoc,
      List.singleton_append] at copied
    rw [List.reverse_cons, List.append_assoc, List.singleton_append, List.length_cons, last,
      if_neg (fun same => other (Option.some_inj.mp same))]
    exact copied

end Buffer

/-- Up to eight digits of either case. -/
abbrev HexString := { s : CString // s ≠ [] ∧ s.length ≤ 8 ∧ ∀ c ∈ s, c ∈ hexDigits }

/-- The text of a word is read back as the word, and the word of a text is written as the text in
upper case without its leading zeros. -/
theorem i2hs_str2hl (n : BitVec 32) (s : HexString) (ts ds : Vector Char 32) :
    (∃ tail, i2hsInto n ts ds.toList = .ok (hexNumeral n.toNat ++ '\x00' :: tail)) ∧
      str2hl (hexNumeral n.toNat) = n ∧
      ∃ tail, i2hsInto (str2hl s.val) ts ds.toList =
        .ok (dropLeadingZeros (s.val.map Char.toUpper) ++ '\x00' :: tail) := by
  obtain ⟨s, full, few, digits⟩ := s
  have room : 9 ≤ ds.toList.length := by
    rw [ds.length_toList]
    decide
  refine ⟨?_, ?_, ?_⟩
  · rw [← i2hs_text]
    exact i2hsInto_text n ts room
  · apply BitVec.eq_of_toNat_eq
    rw [str2hl_value (mem_hexNumeral n.toNat) (length_hexNumeral_le (by decide) n.isLt),
      hexValue_hexNumeral]
  · rw [← hexNumeral_hexValue full digits, ← str2hl_value digits few, ← i2hs_text]
    exact i2hsInto_text _ ts room

end Ct.S5pv210
