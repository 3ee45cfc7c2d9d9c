import Ct.Openssl.AesRounds

set_option autoImplicit false

namespace Ct.Openssl

open Ct.Lib

def Columns.xor (s k : Columns) : Columns :=
  ⟨s.c0 ^^^ k.c0, s.c1 ^^^ k.c1, s.c2 ^^^ k.c2, s.c3 ^^^ k.c3⟩

def Columns.map (f : Word → Word) (s : Columns) : Columns := ⟨f s.c0, f s.c1, f s.c2, f s.c3⟩

/-- `SubBytes` and `ShiftRows`. -/
def subShift (s : Columns) : Columns :=
  ⟨join (sBox (byteAt s.c0 24)) (sBox (byteAt s.c1 16)) (sBox (byteAt s.c2 8)) (sBox (byteAt s.c3 0)),
    join (sBox (byteAt s.c1 24)) (sBox (byteAt s.c2 16)) (sBox (byteAt s.c3 8)) (sBox (byteAt s.c0 0)),
    join (sBox (byteAt s.c2 24)) (sBox (byteAt s.c3 16)) (sBox (byteAt s.c0 8)) (sBox (byteAt s.c1 0)),
    join (sBox (byteAt s.c3 24)) (sBox (byteAt s.c0 16)) (sBox (byteAt s.c1 8)) (sBox (byteAt s.c2 0))⟩

/-- A word of the inverse, from the four columns that its bytes come from. -/
def unjoin (a b c d : Word) : Word :=
  join (inverseSBox (byteAt a 24)) (inverseSBox (byteAt b 16)) (inverseSBox (byteAt c 8))
    (inverseSBox (byteAt d 0))

def unsubShift (s : Columns) : Columns :=
  ⟨unjoin s.c0 s.c3 s.c2 s.c1, unjoin s.c1 s.c0 s.c3 s.c2, unjoin s.c2 s.c1 s.c0 s.c3,
    unjoin s.c3 s.c2 s.c1 s.c0⟩

theorem xor_cancel (s k : Word) : s ^^^ k ^^^ k = s := by
  rw [BitVec.xor_assoc, BitVec.xor_self, BitVec.xor_zero]

theorem unsubShift_subShift (s : Columns) : unsubShift (subShift s) = s := by
  have top := fun a b c d => (byteAt_join a b c d).1
  have second := fun a b c d => (byteAt_join a b c d).2.1
  have third := fun a b c d => (byteAt_join a b c d).2.2.1
  have low := fun a b c d => (byteAt_join a b c d).2.2.2
  simp only [unsubShift, subShift, unjoin, top, second, third, low, inverseSBox_sBox, join_byteAt]

/-- The rounds of the code. -/
def aes : RoundCipher Columns where
  xor := Columns.xor
  sub := subShift
  unsub := unsubShift
  mix := Columns.map mixWord
  unmix := Columns.map inverseMix
  xor_xor s k := by
    simp only [Columns.xor, xor_cancel]
  unsub_sub := unsubShift_subShift
  unmix_mix s := by
    simp only [Columns.map, inverseMix_mixWord]
  unmix_xor s k := by
    simp only [Columns.map, Columns.xor, inverseMix_xor]

/-- Four words of the schedule. -/
def roundKey (rk : Schedule) (p : Nat) : Columns :=
  ⟨rk.word p, rk.word (p + 1), rk.word (p + 2), rk.word (p + 3)⟩

section Rounds

/-- The bytes of `subShift`, mixed: what the tables hold. -/
theorem mixWord_join (a b c d : Byte) :
    mixWord (join (sBox a) (sBox b) (sBox c) (sBox d)) =
      look te0 a ^^^ look te1 b ^^^ look te2 c ^^^ look te3 d := by
  rw [mixWord, (byteAt_join _ _ _ _).1, (byteAt_join _ _ _ _).2.1, (byteAt_join _ _ _ _).2.2.1,
    (byteAt_join _ _ _ _).2.2.2, (te_column a).1, (te_column b).2.1, (te_column c).2.2.1,
    (te_column d).2.2.2]

theorem inverseMix_unjoin (a b c d : Word) :
    inverseMix (unjoin a b c d) =
      look td0 (byteAt a 24) ^^^ look td1 (byteAt b 16) ^^^ look td2 (byteAt c 8) ^^^
        look td3 (byteAt d 0) := by
  rw [inverseMix_columns, unjoin, (byteAt_join _ _ _ _).1, (byteAt_join _ _ _ _).2.1,
    (byteAt_join _ _ _ _).2.2.1, (byteAt_join _ _ _ _).2.2.2, (td_column _).1, (td_column _).2.1,
    (td_column _).2.2.1, (td_column _).2.2.2.1]

theorem encryptRound_round (s : Columns) (rk : Schedule) (p : Nat) :
    encryptRound s rk p = aes.round s (roundKey rk p) := by
  simp only [encryptRound, entry_top, entry_low, byteAt_shift, ← mixWord_join]
  rfl

theorem decryptRound_unround (s : Columns) (rk : Schedule) (p : Nat) :
    decryptRound s rk p = aes.unround s (roundKey rk p) := by
  simp only [decryptRound, entry_top, entry_low, byteAt_shift, ← inverseMix_unjoin]
  rfl

/-- The entries of the tables with one byte of the S-box each. -/
theorem te_last (b : Byte) :
    look te2 b &&& 0xff000000#32 = (sBox b).setWidth 32 <<< 24 ∧
      look te3 b &&& 0x00ff0000#32 = (sBox b).setWidth 32 <<< 16 ∧
      look te0 b &&& 0x0000ff00#32 = (sBox b).setWidth 32 <<< 8 ∧
      look te1 b &&& 0x000000ff#32 = (sBox b).setWidth 32 := by
  have masks : ∀ v : Byte, column 1 3 2 1 v &&& 0xff000000#32 = v.setWidth 32 <<< 24 ∧
      column 1 1 3 2 v &&& 0x00ff0000#32 = v.setWidth 32 <<< 16 ∧
      column 2 1 1 3 v &&& 0x0000ff00#32 = v.setWidth 32 <<< 8 ∧
      column 3 2 1 1 v &&& 0x000000ff#32 = v.setWidth 32 := byte_cases (by decide +kernel)
  rw [(te_column b).1, (te_column b).2.1, (te_column b).2.2.1, (te_column b).2.2.2]
  exact masks (sBox b)

theorem encryptLast_xor (t : Columns) (rk : Schedule) (p : Nat) :
    encryptLast t rk p = aes.xor (aes.sub t) (roundKey rk p) := by
  simp only [encryptLast, entry_top, entry_low, byteAt_shift, (te_last _).1, (te_last _).2.1,
    (te_last _).2.2.1, (te_last _).2.2.2]
  rfl

theorem decryptLast_xor (t : Columns) (rk : Schedule) (p : Nat) :
    decryptLast t rk p = aes.xor (aes.unsub t) (roundKey rk p) := by
  have last := fun b => (td_column b).2.2.2.2
  simp only [decryptLast, entry_top, entry_low, byteAt_shift, last]
  rfl

/-- The next `n` round keys. -/
def roundKeys (rk : Schedule) (p : Nat) : Nat → List Columns
  | 0 => []
  | n + 1 => roundKey rk p :: roundKeys rk (p + 4) n

theorem roundKeys_two (rk : Schedule) (p r : Nat) :
    roundKeys rk (p + 4) (2 * (r + 1) + 1) =
      roundKey rk (p + 4) :: roundKey rk (p + 8) :: roundKeys rk (p + 8 + 4) (2 * r + 1) := rfl

theorem encryptLoop_rounds (rk : Schedule) (r : Nat) : ∀ (p : Nat) (s : Columns),
    encryptLoop rk (r + 1) p s =
      ((roundKeys rk (p + 4) (2 * r + 1)).foldl aes.round s, p + 8 * (r + 1)) := by
  induction r with
  | zero =>
    intro p s
    rw [encryptLoop, if_pos rfl, encryptRound_round]
    rfl
  | succ r ih =>
    intro p s
    rw [encryptLoop, if_neg (Nat.succ_ne_zero r), ih, encryptRound_round, encryptRound_round, roundKeys_two,
      List.foldl_cons, List.foldl_cons, show p + 8 + 8 * (r + 1) = p + 8 * (r + 1 + 1) by omega]

theorem decryptLoop_rounds (rk : Schedule) (r : Nat) : ∀ (p : Nat) (s : Columns),
    decryptLoop rk (r + 1) p s =
      ((roundKeys rk (p + 4) (2 * r + 1)).foldl aes.unround s, p + 8 * (r + 1)) := by
  induction r with
  | zero =>
    intro p s
    rw [decryptLoop, if_pos rfl, decryptRound_unround]
    rfl
  | succ r ih =>
    intro p s
    rw [decryptLoop, if_neg (Nat.succ_ne_zero r), ih, decryptRound_unround, decryptRound_unround, roundKeys_two,
      List.foldl_cons, List.foldl_cons, show p + 8 + 8 * (r + 1) = p + 8 * (r + 1 + 1) by omega]

end Rounds

section Schedules

theorem word_set {rk : Schedule} {i : Nat} (inside : i < rk.length) (w : Word) (j : Nat) :
    Schedule.word (rk.set i w) j = if i = j then w else rk.word j := by
  rw [Schedule.word, Schedule.word, List.getD_eq_getElem?_getD, List.getD_eq_getElem?_getD,
    List.getElem?_set]
  split
  · rfl
  · rfl

theorem word_swap {rk : Schedule} {i j : Nat} (inside : i < rk.length) (inside' : j < rk.length)
    (n : Nat) :
    (swap rk i j).word n = if j = n then rk.word i else if i = n then rk.word j else rk.word n := by
  rw [swap, word_set (by rwa [List.length_set]), word_set inside]

/-- The first `k` lines of the body of the loop that inverts the order. -/
def swaps (rk : Schedule) (i j : Nat) : Nat → Schedule
  | 0 => rk
  | k + 1 => swap (swaps rk i j k) (i + k) (j + k)

@[simp] theorem length_swaps (rk : Schedule) (i j k : Nat) : (swaps rk i j k).length = rk.length := by
  induction k with
  | zero => rfl
  | succ k ih => rw [swaps, length_swap, ih]

theorem word_swaps {rk : Schedule} {i j : Nat} (apart : i + 4 ≤ j) (inside : j + 3 < rk.length)
    {k : Nat} (few : k ≤ 4) (n : Nat) :
    (swaps rk i j k).word n =
      if j ≤ n ∧ n < j + k then rk.word (i + (n - j))
      else if i ≤ n ∧ n < i + k then rk.word (j + (n - i)) else rk.word n := by
  induction k generalizing n with
  | zero =>
    rw [if_neg (by omega), if_neg (by omega)]
    rfl
  | succ k ih =>
    have before := ih (by omega)
    have low : (swaps rk i j k).word (i + k) = rk.word (i + k) := by
      rw [before, if_neg (by omega), if_neg (by omega)]
    have high : (swaps rk i j k).word (j + k) = rk.word (j + k) := by
      rw [before, if_neg (by omega), if_neg (by omega)]
    rw [swaps, word_swap (by rw [length_swaps]; omega) (by rw [length_swaps]; omega), low, high,
      before]
    by_cases atHigh : j + k = n
    · rw [if_pos atHigh, if_pos (by omega), ← atHigh, Nat.add_sub_cancel_left]
    · rw [if_neg atHigh]
      by_cases atLow : i + k = n
      · rw [if_pos atLow, if_neg (by omega), if_pos (by omega), ← atLow, Nat.add_sub_cancel_left]
      · rw [if_neg atLow]
        congr 1
        · exact propext (by omega)
        · congr 1
          exact propext (by omega)

theorem roundKey_congr {rk rk' : Schedule} {p p' : Nat}
    (same : ∀ k < 4, rk'.word (p' + k) = rk.word (p + k)) : roundKey rk' p' = roundKey rk p := by
  have first := same 0 (by decide)
  have second := same 1 (by decide)
  have third := same 2 (by decide)
  have last := same 3 (by decide)
  rw [Nat.add_zero, Nat.add_zero] at first
  rw [roundKey, first, second, third, last, roundKey]

/-- Two round keys change places. -/
theorem roundKey_swaps {rk : Schedule} {a b : Nat} (apart : a < b)
    (inside : 4 * b + 3 < rk.length) (r : Nat) :
    roundKey (swaps rk (4 * a) (4 * b) 4) (4 * r) =
      if r = b then roundKey rk (4 * a) else if r = a then roundKey rk (4 * b)
      else roundKey rk (4 * r) := by
  have words := word_swaps (i := 4 * a) (by omega) inside (Nat.le_refl 4)
  by_cases last : r = b
  · subst last
    rw [if_pos rfl]
    refine roundKey_congr fun k few => ?_
    rw [words, if_pos (by omega), Nat.add_sub_cancel_left]
  · rw [if_neg last]
    by_cases first : r = a
    · subst first
      rw [if_pos rfl]
      refine roundKey_congr fun k few => ?_
      rw [words, if_neg (by omega), if_pos (by omega), Nat.add_sub_cancel_left]
    · rw [if_neg first]
      refine roundKey_congr fun k few => ?_
      rw [words, if_neg (by omega), if_neg (by omega)]

/-- The order of the round keys from `a` to `b` is inverted. -/
theorem roundKey_invertOrder (n : Nat) : ∀ (rk : Schedule) {a b : Nat}, b ≤ a + n →
    4 * b + 3 < rk.length → ∀ r, roundKey (invertOrder rk (4 * a) (4 * b)) (4 * r) =
      if a ≤ r ∧ r ≤ b then roundKey rk (4 * (a + b - r)) else roundKey rk (4 * r) := by
  induction n using Nat.strongRecOn with
  | ind n ih =>
    intro rk a b near inside r
    rw [invertOrder]
    split
    case isFalse done =>
      by_cases between : a ≤ r ∧ r ≤ b
      · rw [if_pos between, show a + b - r = r by omega]
      · rw [if_neg between]
    case isTrue before =>
      have later := ih (n - 2) (by omega) (swaps rk (4 * a) (4 * b) 4) (a := a + 1)
        (b := b - 1) (by omega) (by rw [length_swaps]; omega) r
      have low : 4 * (a + 1) = 4 * a + 4 := by omega
      have high : 4 * (b - 1) = 4 * b - 4 := by omega
      rw [low, high] at later
      refine later.trans ?_
      have swapped := roundKey_swaps (by omega : a < b) inside
      by_cases middle : a + 1 ≤ r ∧ r ≤ b - 1
      · rw [if_pos middle, if_pos (by omega), swapped, if_neg (by omega), if_neg (by omega),
          show a + 1 + (b - 1) - r = a + b - r by omega]
      · rw [if_neg middle, swapped]
        by_cases last : r = b
        · rw [if_pos last, if_pos (by omega), last, Nat.add_sub_cancel]
        · rw [if_neg last]
          by_cases first : r = a
          · rw [if_pos first, if_pos (by omega), first, Nat.add_sub_cancel_left]
          · rw [if_neg first, if_neg (by omega)]

/-- The first `k` lines of the body of the loop that applies the inverse `MixColumn`. -/
def mixes (rk : Schedule) (p : Nat) : Nat → Schedule
  | 0 => rk
  | k + 1 => mixInto (mixes rk p k) (p + k)

@[simp] theorem length_mixes (rk : Schedule) (p k : Nat) : (mixes rk p k).length = rk.length := by
  induction k with
  | zero => rfl
  | succ k ih => rw [mixes, length_mixInto, ih]

theorem word_mixes (rk : Schedule) {p k : Nat} (inside : p + k ≤ rk.length) (n : Nat) :
    (mixes rk p k).word n =
      if p ≤ n ∧ n < p + k then inverseMix (rk.word n) else rk.word n := by
  induction k generalizing n with
  | zero =>
    rw [if_neg (by omega)]
    rfl
  | succ k ih =>
    have before := ih (by omega)
    have here : (mixes rk p k).word (p + k) = rk.word (p + k) := by
      rw [before, if_neg (by omega)]
    rw [mixes, mixInto, word_set (by rw [length_mixes]; omega), here, before]
    by_cases last : p + k = n
    · rw [if_pos last, if_pos (by omega), last]
    · rw [if_neg last]
      congr 1
      exact propext (by omega)

theorem roundKey_mixes {rk : Schedule} {a : Nat} (inside : 4 * a + 3 < rk.length) (r : Nat) :
    roundKey (mixes rk (4 * a) 4) (4 * r) =
      if r = a then (roundKey rk (4 * r)).map inverseMix else roundKey rk (4 * r) := by
  have words := word_mixes rk (p := 4 * a) (k := 4) (by omega)
  by_cases here : r = a
  · subst here
    rw [if_pos rfl, roundKey, words, words, words, words, if_pos (by omega), if_pos (by omega),
      if_pos (by omega), if_pos (by omega)]
    rfl
  · rw [if_neg here]
    refine roundKey_congr fun k few => ?_
    rw [words, if_neg (by omega)]

/-- The round keys behind `a` are unmixed. -/
theorem roundKey_mixKeys (left : Nat) : ∀ (rk : Schedule) {a : Nat},
    4 * (a + left) + 3 < rk.length → ∀ r, roundKey (mixKeys left (4 * a) rk) (4 * r) =
      if a < r ∧ r ≤ a + left then (roundKey rk (4 * r)).map inverseMix
      else roundKey rk (4 * r) := by
  induction left with
  | zero =>
    intro rk a _ r
    rw [if_neg (by omega)]
    rfl
  | succ left ih =>
    intro rk a inside r
    have later := ih (mixes rk (4 * (a + 1)) 4) (a := a + 1)
      (by rw [length_mixes]; omega) r
    refine later.trans ?_
    rw [roundKey_mixes (by omega)]
    by_cases here : r = a + 1
    · rw [if_neg (by omega), if_pos here, if_pos (by omega)]
    · rw [if_neg here]
      congr 1
      exact propext (by omega)

/-- The schedule for decryption has the keys of the other one in the opposite order, and those in
the middle unmixed. -/
theorem roundKeys_inverted (rk : Schedule) {rounds : Nat} (inside : 4 * rounds + 3 < rk.length) :
    let dk := mixKeys (rounds - 1) 0 (invertOrder rk 0 (4 * rounds))
    roundKey dk 0 = roundKey rk (4 * rounds) ∧ roundKey dk (4 * rounds) = roundKey rk 0 ∧
      ∀ r, 0 < r → r < rounds →
        roundKey dk (4 * r) = (roundKey rk (4 * (rounds - r))).map inverseMix := by
  intro dk
  have inverted : ∀ r, roundKey (invertOrder rk 0 (4 * rounds)) (4 * r) =
      if 0 ≤ r ∧ r ≤ rounds then roundKey rk (4 * (0 + rounds - r)) else roundKey rk (4 * r) :=
    roundKey_invertOrder rounds rk (a := 0) (by omega) inside
  have mixed : ∀ r, roundKey dk (4 * r) =
      if 0 < r ∧ r ≤ 0 + (rounds - 1) then
        (roundKey (invertOrder rk 0 (4 * rounds)) (4 * r)).map inverseMix
      else roundKey (invertOrder rk 0 (4 * rounds)) (4 * r) :=
    roundKey_mixKeys (rounds - 1) _ (a := 0) (by rw [length_invertOrder]; omega)
  refine ⟨?_, ?_, fun r positive early => ?_⟩
  · have first := mixed 0
    rw [if_neg (by omega), inverted, if_pos (by omega)] at first
    simpa using first
  · rw [mixed, if_neg (by omega), inverted, if_pos (by omega)]
    congr 1
    omega
  · rw [mixed, if_pos (by omega), inverted, if_pos (by omega)]
    congr 3
    omega

theorem length_roundKeys (rk : Schedule) (n : Nat) : ∀ p, (roundKeys rk p n).length = n := by
  induction n with
  | zero => intro p; rfl
  | succ n ih => intro p; rw [roundKeys, List.length_cons, ih]

theorem getElem?_roundKeys (rk : Schedule) {n i : Nat} (inside : i < n) :
    ∀ p, (roundKeys rk p n)[i]? = some (roundKey rk (p + 4 * i)) := by
  induction n generalizing i with
  | zero => omega
  | succ n ih =>
    intro p
    cases i with
    | zero => rfl
    | succ i =>
      rw [roundKeys, List.getElem?_cons_succ, ih (by omega)]
      congr 2
      omega

/-- As lists: the middle keys of the one schedule, from those of the other. -/
theorem roundKeys_reverse {rk dk : Schedule} {rounds : Nat}
    (middle : ∀ r, 0 < r → r < rounds →
      roundKey dk (4 * r) = (roundKey rk (4 * (rounds - r))).map inverseMix) :
    roundKeys dk 4 (rounds - 1) =
      ((roundKeys rk 4 (rounds - 1)).map (Columns.map inverseMix)).reverse := by
  apply List.ext_getElem?
  intro i
  by_cases inside : i < rounds - 1
  · have key := middle (i + 1) (by omega) (by omega)
    rw [getElem?_roundKeys dk inside, List.getElem?_reverse (by simp [length_roundKeys, inside]),
      List.length_map, length_roundKeys, List.getElem?_map, getElem?_roundKeys rk (by omega),
      Option.map_some, show 4 + 4 * i = 4 * (i + 1) by omega, key]
    congr 3
    omega
  · rw [List.getElem?_eq_none (by rw [length_roundKeys]; omega),
      List.getElem?_eq_none (by simp [length_roundKeys]; omega)]

end Schedules

section Blocks

theorem putU32_bytes (w : Word) : putU32 w = [byteAt w 24, byteAt w 16, byteAt w 8, byteAt w 0] := by
  rw [putU32, byteAt, byteAt, byteAt, byteAt, BitVec.ushiftRight_zero]

def columnsOf (block : List Byte) : Columns :=
  ⟨getU32 block 0, getU32 block 4, getU32 block 8, getU32 block 12⟩

theorem columnsOf_putColumns (s : Columns) : columnsOf (putColumns s) = s := by
  rw [putColumns, putU32_bytes, putU32_bytes, putU32_bytes, putU32_bytes]
  exact congr (congr (congrArg₂ Columns.mk (join_byteAt s.c0) (join_byteAt s.c1))
    (join_byteAt s.c2)) (join_byteAt s.c3)

theorem putU32_join (a b c d : Byte) : putU32 (join a b c d) = [a, b, c, d] := by
  rw [putU32_bytes, (byteAt_join a b c d).1, (byteAt_join a b c d).2.1, (byteAt_join a b c d).2.2.1,
    (byteAt_join a b c d).2.2.2]

theorem putColumns_columnsOf {block : List Byte} (sized : block.length = 16) :
    putColumns (columnsOf block) = block := by
  match block, sized with
  | [b0, b1, b2, b3, b4, b5, b6, b7, b8, b9, b10, b11, b12, b13, b14, b15], _ =>
    change putU32 (join b0 b1 b2 b3) ++ putU32 (join b4 b5 b6 b7) ++ putU32 (join b8 b9 b10 b11) ++
      putU32 (join b12 b13 b14 b15) = _
    rw [putU32_join, putU32_join, putU32_join, putU32_join]
    rfl

/-- `AES_encrypt` with an even, positive number of rounds. -/
theorem aesEncrypt_rounds (block : List Byte) {key : AesKey} {half : Nat}
    (even : key.rounds = 2 * (half + 1)) :
    aesEncrypt block key = putColumns
      (aes.encrypt (roundKey key.rdKey 0) (roundKeys key.rdKey 4 (key.rounds - 1))
        (roundKey key.rdKey (4 * key.rounds)) (columnsOf block)) := by
  have halved : key.rounds >>> 1 = half + 1 := by
    rw [even, Nat.shiftRight_eq_div_pow]
    omega
  rw [aesEncrypt, halved, encryptLoop_rounds]
  dsimp only
  rw [encryptLast_xor, show 0 + 8 * (half + 1) = 4 * key.rounds by omega,
    show 2 * half + 1 = key.rounds - 1 by omega]
  rfl

theorem aesDecrypt_rounds (block : List Byte) {key : AesKey} {half : Nat}
    (even : key.rounds = 2 * (half + 1)) :
    aesDecrypt block key = putColumns
      (aes.decrypt (roundKey key.rdKey 0) (roundKeys key.rdKey 4 (key.rounds - 1))
        (roundKey key.rdKey (4 * key.rounds)) (columnsOf block)) := by
  have halved : key.rounds >>> 1 = half + 1 := by
    rw [even, Nat.shiftRight_eq_div_pow]
    omega
  rw [aesDecrypt, halved, decryptLoop_rounds]
  dsimp only
  rw [decryptLast_xor, show 0 + 8 * (half + 1) = 4 * key.rounds by omega,
    show 2 * half + 1 = key.rounds - 1 by omega]
  rfl

end Blocks

section Keys

/-- Two schedules with the same first words. -/
def Agree (rk rk' : Schedule) (n : Nat) : Prop := ∀ i < n, rk.word i = rk'.word i

variable {rk rk' : Schedule} {n : Nat}

theorem Agree.set (agree : Agree rk rk' n) (inside : n < rk.length) (inside' : n < rk'.length)
    {w w' : Word} (same : w = w') : Agree (rk.set n w) (rk'.set n w') (n + 1) := by
  intro i before
  rw [word_set inside, word_set inside', same]
  by_cases here : n = i
  · rw [if_pos here, if_pos here]
  · rw [if_neg here, if_neg here, agree i (by omega)]

theorem Agree.xorInto (agree : Agree rk rk' n) (inside : n < rk.length) (inside' : n < rk'.length)
    {a b : Nat} (first : a < n) (second : b < n) :
    Agree (xorInto rk n a b) (xorInto rk' n a b) (n + 1) :=
  agree.set inside inside' (by rw [agree a first, agree b second])

theorem loadKey_agree (userKey : List Byte) (fits : n ≤ rk.length) (fits' : n ≤ rk'.length) :
    Agree (loadKey userKey n rk) (loadKey userKey n rk') n := by
  induction n with
  | zero => exact fun i before => absurd before (Nat.not_lt_zero i)
  | succ n ih =>
    exact (ih (by omega) (by omega)).set (by rw [length_loadKey]; omega)
      (by rw [length_loadKey]; omega) rfl

/-- A word that is stored, and three that are added to one another. -/
theorem Agree.four (agree : Agree rk rk' n) {a : Nat} (early : a + 2 < n)
    (inside : n + 3 < rk.length) (inside' : n + 3 < rk'.length) {w w' : Word} (same : w = w') :
    Agree
      (Openssl.xorInto (Openssl.xorInto (Openssl.xorInto (rk.set n w) (n + 1) a n) (n + 2) (a + 1)
        (n + 1)) (n + 3) (a + 2) (n + 2))
      (Openssl.xorInto (Openssl.xorInto (Openssl.xorInto (rk'.set n w') (n + 1) a n) (n + 2) (a + 1)
        (n + 1)) (n + 3) (a + 2) (n + 2)) (n + 4) := by
  have first := agree.set (by omega) (by omega) same
  have second := first.xorInto (a := a) (b := n) (by simp; omega) (by simp; omega) (by omega)
    (by omega)
  have third := second.xorInto (a := a + 1) (b := n + 1) (by simp; omega) (by simp; omega)
    (by omega) (by omega)
  exact third.xorInto (a := a + 2) (b := n + 2) (by simp; omega) (by simp; omega) (by omega)
    (by omega)

theorem expand128_agree (left : Nat) : ∀ (i p : Nat) {rk rk' : Schedule},
    p + 4 + 4 * left ≤ rk.length → p + 4 + 4 * left ≤ rk'.length → Agree rk rk' (p + 4) →
      Agree (expand128 left i p rk) (expand128 left i p rk') (p + 4 + 4 * left) := by
  induction left with
  | zero => exact fun i p _ _ _ _ agree => agree
  | succ left ih =>
    intro i p rk rk' fits fits' agree
    have next := agree.four (a := p + 1) (by omega) (by omega) (by omega)
      (congrArg₂ (fun u v => u ^^^ rotated v ^^^ rconAt i) (agree p (by omega))
        (agree (p + 3) (by omega)))
    have later := ih (i + 1) (p + 4) (by simp; omega) (by simp; omega) next
    rwa [show p + 4 + 4 + 4 * left = p + 4 + 4 * (left + 1) by omega] at later

theorem expand192_agree (left : Nat) : ∀ (i p : Nat) {rk rk' : Schedule},
    p + 10 + 6 * left ≤ rk.length → p + 10 + 6 * left ≤ rk'.length → Agree rk rk' (p + 6) →
      Agree (expand192 (left + 1) i p rk) (expand192 (left + 1) i p rk') (p + 10 + 6 * left) := by
  induction left with
  | zero =>
    intro i p rk rk' fits fits' agree
    exact agree.four (a := p + 1) (by omega) (by omega) (by omega)
      (congrArg₂ (fun u v => u ^^^ rotated v ^^^ rconAt i) (agree p (by omega))
        (agree (p + 5) (by omega)))
  | succ left ih =>
    intro i p rk rk' fits fits' agree
    have next := agree.four (a := p + 1) (by omega) (by omega) (by omega)
      (congrArg₂ (fun u v => u ^^^ rotated v ^^^ rconAt i) (agree p (by omega))
        (agree (p + 5) (by omega)))
    have fifth := next.xorInto (a := p + 4) (b := p + 9) (by simp; omega) (by simp; omega)
      (by omega) (by omega)
    have sixth := fifth.xorInto (a := p + 5) (b := p + 10) (by simp; omega) (by simp; omega)
      (by omega) (by omega)
    have later := ih (i + 1) (p + 6) (by simp; omega) (by simp; omega) sixth
    rwa [show p + 6 + 10 + 6 * left = p + 10 + 6 * (left + 1) by omega] at later

theorem expand256_agree (left : Nat) : ∀ (i p : Nat) {rk rk' : Schedule},
    p + 12 + 8 * left ≤ rk.length → p + 12 + 8 * left ≤ rk'.length → Agree rk rk' (p + 8) →
      Agree (expand256 (left + 1) i p rk) (expand256 (left + 1) i p rk') (p + 12 + 8 * left) := by
  induction left with
  | zero =>
    intro i p rk rk' fits fits' agree
    exact agree.four (a := p + 1) (by omega) (by omega) (by omega)
      (congrArg₂ (fun u v => u ^^^ rotated v ^^^ rconAt i) (agree p (by omega))
        (agree (p + 7) (by omega)))
  | succ left ih =>
    intro i p rk rk' fits fits' agree
    have next := agree.four (a := p + 1) (by omega) (by omega) (by omega)
      (congrArg₂ (fun u v => u ^^^ rotated v ^^^ rconAt i) (agree p (by omega))
        (agree (p + 7) (by omega)))
    have half := next.four (a := p + 5) (by omega) (by simp; omega) (by simp; omega)
      (congrArg₂ (fun u v => u ^^^ unrotated v) (next (p + 4) (by omega))
        (next (p + 11) (by omega)))
    have later := ih (i + 1) (p + 8) (by simp; omega) (by simp; omega) half
    rwa [show p + 8 + 12 + 8 * left = p + 12 + 8 * (left + 1) by omega] at later

section Lengths

variable (userKey : List Byte) (key : AesKey)

theorem setEncryptKey_128 :
    (setEncryptKey userKey 128 key).2.rounds = 10 ∧ (setEncryptKey userKey 128 key).1 = 0 ∧
      (setEncryptKey userKey 128 key).2.rdKey =
        expand128 10 0 0 (loadKey userKey 4 key.rdKey) := by
  rw [setEncryptKey, if_neg (by decide), if_pos rfl]
  refine ⟨rfl, rfl, ?_⟩
  dsimp only

theorem setEncryptKey_192 :
    (setEncryptKey userKey 192 key).2.rounds = 12 ∧ (setEncryptKey userKey 192 key).1 = 0 ∧
      (setEncryptKey userKey 192 key).2.rdKey =
        expand192 8 0 0 (loadKey userKey 6 key.rdKey) := by
  rw [setEncryptKey, if_neg (by decide), if_neg (by decide), if_pos rfl]
  refine ⟨rfl, rfl, ?_⟩
  dsimp only

theorem setEncryptKey_256 :
    (setEncryptKey userKey 256 key).2.rounds = 14 ∧ (setEncryptKey userKey 256 key).1 = 0 ∧
      (setEncryptKey userKey 256 key).2.rdKey =
        expand256 7 0 0 (loadKey userKey 8 key.rdKey) := by
  rw [setEncryptKey, if_neg (by decide), if_neg (by decide), if_neg (by decide)]
  refine ⟨rfl, rfl, ?_⟩
  dsimp only

end Lengths

/-- The schedule depends on the key alone, not on what was in the array before. -/
theorem setEncryptKey_agree {bits : Int} (valid : bits = 128 ∨ bits = 192 ∨ bits = 256)
    (userKey : List Byte) (key key' : AesKey) :
    ∃ half, (setEncryptKey userKey bits key).2.rounds = 2 * (half + 1) ∧
      (setEncryptKey userKey bits key').2.rounds = 2 * (half + 1) ∧ 8 * (half + 1) + 3 < 60 ∧
      Agree (setEncryptKey userKey bits key).2.rdKey (setEncryptKey userKey bits key').2.rdKey
        (8 * (half + 1) + 4) := by
  have sized := key.sized
  have sized' := key'.sized
  rcases valid with rfl | rfl | rfl
  · obtain ⟨rounds, _, schedule⟩ := setEncryptKey_128 userKey key
    obtain ⟨rounds', _, schedule'⟩ := setEncryptKey_128 userKey key'
    refine ⟨4, rounds, rounds', by decide, ?_⟩
    rw [schedule, schedule']
    exact expand128_agree 10 0 0 (by rw [length_loadKey]; omega) (by rw [length_loadKey]; omega)
      (loadKey_agree userKey (by omega) (by omega))
  · obtain ⟨rounds, _, schedule⟩ := setEncryptKey_192 userKey key
    obtain ⟨rounds', _, schedule'⟩ := setEncryptKey_192 userKey key'
    refine ⟨5, rounds, rounds', by decide, ?_⟩
    rw [schedule, schedule']
    exact expand192_agree 7 0 0 (by rw [length_loadKey]; omega) (by rw [length_loadKey]; omega)
      (loadKey_agree userKey (by omega) (by omega))
  · obtain ⟨rounds, _, schedule⟩ := setEncryptKey_256 userKey key
    obtain ⟨rounds', _, schedule'⟩ := setEncryptKey_256 userKey key'
    refine ⟨6, rounds, rounds', by decide, ?_⟩
    rw [schedule, schedule']
    exact expand256_agree 6 0 0 (by rw [length_loadKey]; omega) (by rw [length_loadKey]; omega)
      (loadKey_agree userKey (by omega) (by omega))

theorem roundKey_agree (agree : Agree rk rk' n) {p : Nat} (inside : p + 4 ≤ n) :
    roundKey rk p = roundKey rk' p :=
  roundKey_congr fun k few => agree (p + k) (by omega)

theorem roundKeys_agree (agree : Agree rk rk' n) (count : Nat) :
    ∀ p, p + 4 * count ≤ n → roundKeys rk p count = roundKeys rk' p count := by
  induction count with
  | zero => exact fun _ _ => rfl
  | succ count ih =>
    intro p inside
    rw [roundKeys, roundKeys, ih (p + 4) (by omega), roundKey_agree agree (by omega)]

theorem setEncryptKey_status {bits : Int} (valid : bits = 128 ∨ bits = 192 ∨ bits = 256)
    (userKey : List Byte) (key : AesKey) : (setEncryptKey userKey bits key).1 = 0 := by
  rcases valid with rfl | rfl | rfl
  · exact (setEncryptKey_128 userKey key).2.1
  · exact (setEncryptKey_192 userKey key).2.1
  · exact (setEncryptKey_256 userKey key).2.1

theorem setDecryptKey_valid {bits : Int} (valid : bits = 128 ∨ bits = 192 ∨ bits = 256)
    (userKey : List Byte) (key : AesKey) :
    (setDecryptKey userKey bits key).2.rounds = (setEncryptKey userKey bits key).2.rounds ∧
      (setDecryptKey userKey bits key).2.rdKey =
        mixKeys ((setEncryptKey userKey bits key).2.rounds - 1) 0
          (invertOrder (setEncryptKey userKey bits key).2.rdKey 0
            (4 * (setEncryptKey userKey bits key).2.rounds)) := by
  have status := setEncryptKey_status valid userKey key
  rw [setDecryptKey]
  dsimp only
  rw [if_neg (by rw [status]; decide)]
  exact ⟨rfl, rfl⟩

end Keys

/-- What has been encrypted is decrypted again, for every key of one of the three lengths and every
block, whatever the two structures held before. -/
theorem aesDecrypt_aesEncrypt {bits : Int} (valid : bits = 128 ∨ bits = 192 ∨ bits = 256)
    (userKey : List Byte) (key key' : AesKey) {block : List Byte} (sized : block.length = 16) :
    aesDecrypt (aesEncrypt block (setEncryptKey userKey bits key).2)
      (setDecryptKey userKey bits key').2 = block := by
  obtain ⟨half, even, even', inside, agree⟩ := setEncryptKey_agree valid userKey key' key
  obtain ⟨rounds, schedule⟩ := setDecryptKey_valid valid userKey key'
  have dkEven := rounds.trans even
  have fits : 4 * (2 * (half + 1)) + 3 < (setEncryptKey userKey bits key').2.rdKey.length := by
    rw [AesKey.sized]
    omega
  obtain ⟨first, last, middle⟩ := roundKeys_inverted _ fits
  rw [even] at schedule
  rw [← schedule] at first last middle
  rw [roundKey_agree agree (by omega)] at first last
  have unmixed := roundKeys_reverse middle
  rw [roundKeys_agree agree _ _ (by omega)] at unmixed
  rw [aesDecrypt_rounds _ dkEven, aesEncrypt_rounds block even', dkEven, even',
    columnsOf_putColumns, first, last, unmixed]
  exact (congrArg putColumns (aes.decrypt_encrypt ..)).trans (putColumns_columnsOf sized)

/-- A structure that has not been set up. -/
def blankKey : AesKey := ⟨List.replicate 60 0, 0, List.length_replicate⟩

theorem aesDecrypt_aesEncrypt_blank :
    ((256 : Int) = 128 ∨ (256 : Int) = 192 ∨ (256 : Int) = 256) ∧
    (List.replicate 16 (0 : Byte)).length = 16 ∧
    aesDecrypt (aesEncrypt (List.replicate 16 0) (setEncryptKey (List.replicate 32 0) 256 blankKey).2)
      (setDecryptKey (List.replicate 32 0) 256 blankKey).2 = List.replicate 16 0 := by
  have valid : (256 : Int) = 128 ∨ (256 : Int) = 192 ∨ (256 : Int) = 256 := Or.inr (Or.inr rfl)
  exact ⟨valid, List.length_replicate, aesDecrypt_aesEncrypt valid _ _ _ List.length_replicate⟩

end Ct.Openssl
