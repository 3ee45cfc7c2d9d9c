import Ct.Lib.Base64
import Ct.Lib.CInt
import Ct.Lib.Fault
import Ct.Lib.Memory

set_option autoImplicit false

namespace Ct.SimpleCodec

open Ct.Lib

/-- The blanks in front of the continued lines belong to the string. -/
def mapptr : List Char :=
  "ABCDEFGHIJKLMNOPQRSTUVWXYZ".toList ++
    "                                abcdefghijklmnopqrstuvwxyz".toList ++
    "                                0123456789+/".toList

/-- `mapptr[(current & (0x3f << shift)) >> shift]` -/
def mapAt (current : BitVec 32) (shift : Nat) : Char :=
  mapptr.getD ((current &&& ((0x3f : BitVec 32) <<< shift)) >>> shift).toNat '\x00'

/-- The output buffer and `buffer_pos`. -/
abbrev Output := List Char × Nat

/-- `buffer[buffer_pos++] = c` -/
def put (c : Char) (out : Output) : Except Fault Output :=
  if out.2 < out.1.length then .ok (out.1.set out.2 c, out.2 + 1) else .error .outOfBounds

/-- The loop of `base64_encode`, with what is left of `in_code` from `i` on; where `buffer_size`
is in the range of `int`, so are `i` and `buffer_pos`. -/
def encodeLoop : List (BitVec 8) → Output → Except Fault (List (BitVec 8) × Output)
  | a :: b :: c :: rest, out => do
    let current := (a.setWidth 32 <<< 16) ||| (b.setWidth 32 <<< 8) ||| (c.setWidth 32 <<< 0)
    let out ← put (mapAt current 18) out
    let out ← put (mapAt current 12) out
    let out ← put (mapAt current 6) out
    let out ← put (mapAt current 0) out
    encodeLoop rest out
  | rest, out => .ok (rest, out)

/-- `switch(len - i)` -/
def encodeRest : List (BitVec 8) → Output → Except Fault Output
  | [a, b], out => do
    let current := (a.setWidth 32 <<< 16) ||| (b.setWidth 32 <<< 8)
    let out ← put (mapAt current 18) out
    let out ← put (mapAt current 12) out
    let out ← put (mapAt current 6) out
    let out ← put '=' out
    .ok out
  | [a], out => do
    let current := a.setWidth 32 <<< 8
    let out ← put (mapAt current 10) out
    let out ← put (mapAt current 4) out
    let out ← put '=' out
    let out ← put '=' out
    .ok out
  | _, out => .ok out

/-- `buffer_size`, an `int` -/
def bufferSize (len : Int) : Int :=
  let size := toInt (Int.tdiv len 3 * 4)
  let size := if 0 < Int.tmod len 3 then toInt (size + 4) else size
  toInt (size + 1)

/-- `base64_encode`, with the buffer that it returns, whole; `malloc` returns a block with some
content, or fails. -/
def base64Encode (malloc : (n : Nat) → Option (Vector Char n)) (inCode : List (BitVec 8)) :
    Except Fault (Option (List Char)) :=
  if inCode.length = 0 then .ok none
  else
    match malloc (toSize (bufferSize inCode.length)) with
    | none => .ok none
    | some block => do
      let (rest, out) ← encodeLoop inCode (block.toList, 0)
      let out ← encodeRest rest out
      let out ← put '\x00' out
      .ok (some out.1)

section Fields

theorem field_eq (x : BitVec 32) (shift : Nat) :
    ((x &&& ((0x3f : BitVec 32) <<< shift)) >>> shift).toNat = x.toNat / 2 ^ shift % 64 := by
  have same : (x &&& ((0x3f : BitVec 32) <<< shift)) >>> shift = (x >>> shift) &&& 0x3f := by
    apply BitVec.eq_of_getLsbD_eq
    intro i _
    rw [BitVec.getLsbD_ushiftRight, BitVec.getLsbD_and, BitVec.getLsbD_and,
      BitVec.getLsbD_ushiftRight, BitVec.getLsbD_shiftLeft, Nat.add_sub_cancel_left]
    have behind : ¬shift + i < shift := by omega
    by_cases inside : shift + i < 32
    · simp [inside, behind]
    · rw [BitVec.getLsbD_of_ge x _ (by omega), Bool.false_and, Bool.false_and]
  have mask : (0x3f : BitVec 32).toNat = 2 ^ 6 - 1 := by decide
  rw [same, BitVec.toNat_and, mask, Nat.and_two_pow_sub_one_eq_mod, BitVec.toNat_ushiftRight,
    Nat.shiftRight_eq_div_pow]

theorem pair_toNat (a b : BitVec 8) :
    ((a.setWidth 32 <<< 16) ||| (b.setWidth 32 <<< 8) : BitVec 32).toNat =
      (a.toNat * 256 + b.toNat) <<< 8 := by
  have small := a.isLt
  have small' := b.isLt
  have first : (a.setWidth 32 <<< 16 : BitVec 32).toNat = a.toNat <<< 16 := by
    rw [BitVec.toNat_shiftLeft, BitVec.toNat_setWidth, Nat.shiftLeft_eq, Nat.shiftLeft_eq]
    omega
  have second : (b.setWidth 32 <<< 8 : BitVec 32).toNat = b.toNat <<< 8 := by
    rw [BitVec.toNat_shiftLeft, BitVec.toNat_setWidth, Nat.shiftLeft_eq, Nat.shiftLeft_eq]
    omega
  have low : b.toNat <<< 8 < 2 ^ 16 := by
    rw [Nat.shiftLeft_eq]
    omega
  rw [BitVec.toNat_or, first, second, ← Nat.shiftLeft_add_eq_or_of_lt low, Nat.shiftLeft_eq,
    Nat.shiftLeft_eq, Nat.shiftLeft_eq]
  omega

theorem triple_toNat (a b c : BitVec 8) :
    ((a.setWidth 32 <<< 16) ||| (b.setWidth 32 <<< 8) ||| (c.setWidth 32 <<< 0) : BitVec 32).toNat =
      a.toNat * 65536 + b.toNat * 256 + c.toNat := by
  have small := c.isLt
  have last : (c.setWidth 32 <<< 0 : BitVec 32).toNat = c.toNat := by
    rw [BitVec.shiftLeft_zero, BitVec.toNat_setWidth]
    omega
  rw [BitVec.toNat_or, pair_toNat, last, ← Nat.shiftLeft_add_eq_or_of_lt (by omega),
    Nat.shiftLeft_eq]
  omega

theorem mapAt_eq (x : BitVec 32) (shift : Nat) :
    mapAt x shift = symbol mapptr (some (x.toNat / 2 ^ shift % 64)) := by
  rw [mapAt, field_eq]
  rfl

end Fields

section Writes

/-- Characters that are stored one behind the other. -/
def putAll (text : List Char) (out : Output) : Except Fault Output :=
  text.foldlM (fun out c => put c out) out

theorem putAll_cons (c : Char) (text : List Char) (out : Output) :
    putAll (c :: text) out = (put c out).bind (putAll text) := rfl

/-- They are stored if there is room for them all. -/
theorem putAll_room (text : List Char) : ∀ (front old : List Char), text.length ≤ old.length →
    putAll text (front ++ old, front.length) =
      .ok (front ++ text ++ old.drop text.length, front.length + text.length) := by
  induction text with
  | nil =>
    intro front old _
    rw [List.append_nil]
    rfl
  | cons c text ih =>
    intro front old room
    cases old with
    | nil => exact absurd room (Nat.not_succ_le_zero _)
    | cons o old =>
      have inside : front.length < (front ++ o :: old).length := by simp
      have rest := ih (front ++ [c]) old (Nat.le_of_succ_le_succ room)
      rw [List.append_assoc, List.singleton_append, List.length_append, List.length_singleton]
        at rest
      rw [putAll_cons, put, if_pos inside, set_front, Except.bind, rest, List.length_cons,
        List.drop_succ_cons, List.append_cons front c, Nat.add_assoc, Nat.add_comm 1]
      simp

/-- The buffer keeps its size. -/
theorem putAll_length (text : List Char) :
    ∀ {out out' : Output}, putAll text out = .ok out' → out'.1.length = out.1.length := by
  induction text with
  | nil =>
    intro out out' ran
    cases ran
    rfl
  | cons c text ih =>
    intro out out' ran
    obtain ⟨next, first, ran⟩ := bind_ends ran
    have first : put c out = .ok next := first
    rw [ih ran]
    rw [put] at first
    split at first
    · cases first
      exact List.length_set ..
    · cases first

/-- The text that `base64_encode` stores. -/
def stored (inCode : List (BitVec 8)) : List Char :=
  (sextets inCode).map (symbol mapptr) ++ ['\x00']

theorem mapAt_of_field {x : BitVec 32} {shift n : Nat} (field : x.toNat / 2 ^ shift % 64 = n) :
    mapAt x shift = symbol mapptr (some n) := by
  rw [mapAt_eq, field]

/-- A character, and what is stored behind it. -/
theorem bind_put {β : Type} (c : Char) {text : List Char} {first : Output → Except Fault β}
    {next : β → Except Fault Output} (later : ∀ out, (first out).bind next = putAll text out)
    (out : Output) : (put c out >>= first).bind next = putAll (c :: text) out := by
  rw [putAll_cons, ← funext later]
  cases put c out with
  | error fault => rfl
  | ok out => rfl

theorem bind_four {β : Type} (c d e f : Char) {text : List Char} {first : Output → Except Fault β}
    {next : β → Except Fault Output} (later : ∀ out, (first out).bind next = putAll text out)
    (out : Output) :
    (put c out >>= fun out => put d out >>= fun out => put e out >>= fun out =>
      put f out >>= first).bind next = putAll (c :: d :: e :: f :: text) out :=
  bind_put c (bind_put d (bind_put e (bind_put f later))) out

theorem put_last (out : Output) :
    (Except.ok out : Except Fault Output).bind (put '\x00') = putAll ['\x00'] out := by
  rw [putAll_cons]
  show put '\x00' out = (put '\x00' out).bind Except.ok
  cases put '\x00' out with
  | error fault => rfl
  | ok out => rfl

/-- The loop and the rest behind it store the groups of six bits, and then the terminator. -/
theorem encode_puts (inCode : List (BitVec 8)) (out : Output) :
    ((encodeLoop inCode out).bind fun done => (encodeRest done.1 done.2).bind (put '\x00')) =
      putAll (stored inCode) out := by
  fun_induction encodeLoop inCode out with
  | case1 a b c rest out current ih =>
    have word : current.toNat = a.toNat * 65536 + b.toNat * 256 + c.toNat := triple_toNat a b c
    have small := a.isLt
    have small' := b.isLt
    have small'' := c.isLt
    rw [mapAt_of_field (n := a.toNat / 4) (by omega),
      mapAt_of_field (n := a.toNat % 4 * 16 + b.toNat / 16) (by omega),
      mapAt_of_field (n := b.toNat % 16 * 4 + c.toNat / 64) (by omega),
      mapAt_of_field (n := c.toNat % 64) (by omega)]
    exact bind_four _ _ _ _ ih out
  | case2 rest out other =>
    match rest, other with
    | [], _ => exact put_last out
    | [a], _ =>
      have small := a.isLt
      have word : (a.setWidth 32 <<< 8 : BitVec 32).toNat = a.toNat * 256 := by
        rw [BitVec.toNat_shiftLeft, BitVec.toNat_setWidth, Nat.shiftLeft_eq]
        omega
      show (encodeRest [a] out).bind (put '\x00') = putAll (stored [a]) out
      rw [encodeRest, mapAt_of_field (n := a.toNat / 4) (by omega),
        mapAt_of_field (n := a.toNat % 4 * 16) (by omega)]
      exact bind_four _ _ _ _ put_last out
    | [a, b], _ =>
      have small := a.isLt
      have small' := b.isLt
      have word := pair_toNat a b
      rw [Nat.shiftLeft_eq] at word
      show (encodeRest [a, b] out).bind (put '\x00') = putAll (stored [a, b]) out
      rw [encodeRest, mapAt_of_field (n := a.toNat / 4) (by omega),
        mapAt_of_field (n := a.toNat % 4 * 16 + b.toNat / 16) (by omega),
        mapAt_of_field (n := b.toNat % 16 * 4) (by omega)]
      exact bind_four _ _ _ _ put_last out
    | a :: b :: c :: rest, other => exact absurd rfl (other a b c rest)

theorem length_stored (inCode : List (BitVec 8)) :
    (stored inCode).length = 4 * ((inCode.length + 2) / 3) + 1 := by
  rw [stored, List.length_append, List.length_map, length_sextets, List.length_singleton]

/-- The tables agree on the upper case letters only. -/
theorem symbol_mapptr_iff {n : Nat} (six : n < 64) :
    symbol mapptr (some n) = symbol base64Alphabet (some n) ↔ n < 26 := by
  have all : (List.range 64).all (fun n => (symbol mapptr (some n) ==
      symbol base64Alphabet (some n)) == decide (n < 26)) = true := by decide
  have here := List.all_eq_true.mp all n (List.mem_range.mpr six)
  rw [beq_iff_eq, Bool.eq_iff_iff, beq_iff_eq, decide_eq_true_iff] at here
  exact here

/-- What is stored is base64 if all groups of six bits stand for upper case letters. -/
theorem stored_iff (inCode : List (BitVec 8)) :
    stored inCode = base64 inCode ++ ['\x00'] ↔ ∀ n, some n ∈ sextets inCode → n < 26 := by
  rw [stored, base64, List.append_left_inj, List.map_inj_left]
  constructor
  · exact fun same n member => (symbol_mapptr_iff (sextet_lt inCode n member)).mp (same _ member)
  · intro upper x member
    cases x with
    | none => rw [symbol, symbol]
    | some n => exact (symbol_mapptr_iff (sextet_lt inCode n member)).mpr (upper n member)

end Writes

section Size

theorem toInt_range (x : Int) : -(2 ^ 31) ≤ toInt x ∧ toInt x < 2 ^ 31 := by
  have lower : -((2 ^ 32 : Nat) : Int) / 2 ≤ Int.bmod x (2 ^ 32) := Int.le_bmod (by decide)
  have upper : Int.bmod x (2 ^ 32) < (((2 ^ 32 : Nat) : Int) + 1) / 2 := Int.bmod_lt (by decide)
  unfold toInt
  omega

theorem bufferSize_small {len : Nat} (small : len ≤ 1610612733) :
    bufferSize len = (4 * ((len + 2) / 3) + 1 : Nat) := by
  rw [bufferSize, Int.tdiv_eq_ediv_of_nonneg (by omega), Int.tmod_eq_emod_of_nonneg (by omega)]
  have whole : toInt ((len : Int) / 3 * 4) = (len : Int) / 3 * 4 :=
    toInt_of_range (by omega) (by omega)
  simp only [whole]
  by_cases more : 0 < (len : Int) % 3
  · rw [if_pos more, toInt_of_range (x := (len : Int) / 3 * 4 + 4) (by omega) (by omega),
      toInt_of_range (by omega) (by omega)]
    omega
  · rw [if_neg more, toInt_of_range (by omega) (by omega)]
    omega

/-- The block has the size of the text only while that is in the range of `int`. -/
theorem bufferSize_fits_iff {len : Nat} (long : len < 2 ^ 63) :
    toSize (bufferSize len) = 4 * ((len + 2) / 3) + 1 ↔ len ≤ 1610612733 := by
  constructor
  · intro fits
    have range := toInt_range ((if 0 < Int.tmod len 3 then toInt (toInt (Int.tdiv len 3 * 4) + 4)
      else toInt (Int.tdiv len 3 * 4)) + 1)
    have size : bufferSize len = toInt ((if 0 < Int.tmod len 3 then
      toInt (toInt (Int.tdiv len 3 * 4) + 4) else toInt (Int.tdiv len 3 * 4)) + 1) := rfl
    rw [← size] at range
    rw [toSize] at fits
    omega
  · intro small
    rw [bufferSize_small small, toSize_of_range (by omega) (by omega), Int.toNat_natCast]

end Size

section Encode

variable {malloc : (n : Nat) → Option (Vector Char n)} {inCode : List (BitVec 8)}

theorem base64Encode_eq (malloc : (n : Nat) → Option (Vector Char n)) (full : inCode ≠ []) :
    base64Encode malloc inCode =
      match malloc (toSize (bufferSize inCode.length)) with
      | none => .ok none
      | some block => (putAll (stored inCode) (block.toList, 0)).map (some ·.1) := by
  have some : ¬inCode.length = 0 := mt List.length_eq_zero_iff.mp full
  rw [base64Encode, if_neg some]
  cases malloc (toSize (bufferSize inCode.length)) with
  | none => rfl
  | some block =>
    dsimp only
    rw [← encode_puts]
    cases encodeLoop inCode (block.toList, 0) with
    | error fault => rfl
    | ok done =>
      simp only [bind, Except.bind]
      cases encodeRest done.1 done.2 with
      | error fault => rfl
      | ok out =>
        dsimp only
        cases put '\x00' out with
        | error fault => rfl
        | ok out => rfl

/-- The result is base64 and a terminator, in a block of just this size. -/
def Encodes (malloc : (n : Nat) → Option (Vector Char n)) (inCode : List (BitVec 8)) : Prop :=
  base64Encode malloc inCode = .ok (some (base64 inCode ++ ['\x00']))

theorem length_encoded (inCode : List (BitVec 8)) :
    (base64 inCode ++ ['\x00']).length = 4 * ((inCode.length + 2) / 3) + 1 := by
  rw [List.length_append, base64, List.length_map, length_sextets, List.length_singleton]

/-- A block of the right size holds what is stored and nothing else. -/
theorem putAll_whole {n : Nat} (block : Vector Char n) (fits : n = (stored inCode).length) :
    putAll (stored inCode) (block.toList, 0) = .ok (stored inCode, (stored inCode).length) := by
  have size : block.toList.length = (stored inCode).length := by
    rw [block.length_toList, fits]
  have whole := putAll_room (stored inCode) [] block.toList (Nat.le_of_eq size.symm)
  rw [List.nil_append, List.nil_append, List.length_nil, Nat.zero_add,
    List.drop_eq_nil_of_le (Nat.le_of_eq size), List.append_nil] at whole
  exact whole

theorem base64Encode_fits (full : inCode ≠ [])
    (fits : toSize (bufferSize inCode.length) = (stored inCode).length)
    (given : (malloc (toSize (bufferSize inCode.length))).isSome = true) :
    base64Encode malloc inCode = .ok (some (stored inCode)) := by
  obtain ⟨block, found⟩ := Option.isSome_iff_exists.mp given
  rw [base64Encode_eq malloc full, found]
  dsimp only
  rw [putAll_whole block fits]
  rfl

/-- What is returned is a whole block. -/
theorem length_of_encoded (full : inCode ≠ []) {buffer : List Char}
    (encoded : base64Encode malloc inCode = .ok (some buffer)) :
    (malloc (toSize (bufferSize inCode.length))).isSome = true ∧
      buffer.length = toSize (bufferSize inCode.length) := by
  rw [base64Encode_eq malloc full] at encoded
  cases found : malloc (toSize (bufferSize inCode.length)) with
  | none =>
    rw [found] at encoded
    cases encoded
  | some block =>
    rw [found] at encoded
    dsimp only at encoded
    cases ran : putAll (stored inCode) (block.toList, 0) with
    | error fault =>
      rw [ran] at encoded
      cases encoded
    | ok out =>
      rw [ran] at encoded
      cases encoded
      exact ⟨rfl, (putAll_length _ ran).trans block.length_toList⟩

/-- Only upper case letters are where the alphabet has them; and where both of two inputs are
encoded, their texts tell them apart. -/
theorem encodes_iff (malloc : (n : Nat) → Option (Vector Char n)) (inCode : List (BitVec 8))
    (full : inCode ≠ []) (long : inCode.length < 2 ^ 63) :
    (Encodes malloc inCode ↔
      inCode.length ≤ 1610612733 ∧
        (malloc (4 * ((inCode.length + 2) / 3) + 1)).isSome = true ∧
        ∀ n, some n ∈ sextets inCode → n < 26) ∧
      ∀ other, Encodes malloc inCode → Encodes malloc other →
        base64Encode malloc inCode = base64Encode malloc other → inCode = other := by
  refine ⟨?_, ?_⟩
  · rw [← stored_iff, ← bufferSize_fits_iff long]
    constructor
    · intro encodes
      obtain ⟨given, size⟩ := length_of_encoded full encodes
      rw [length_encoded] at size
      refine ⟨size.symm, by rwa [size], ?_⟩
      rw [Encodes, base64Encode_fits full (by rw [length_stored, size]) given] at encodes
      exact Option.some_inj.mp (Except.ok.inj encodes)
    · rintro ⟨size, given, same⟩
      rw [Encodes, base64Encode_fits full (by rw [length_stored, size]) (by rwa [size]), same]
  · intro other encodes encodes' same
    rw [Encodes] at encodes encodes'
    rw [encodes, encodes'] at same
    exact base64_injective (List.append_cancel_right (Option.some_inj.mp (Except.ok.inj same)))

/-- A `malloc` that never fails. -/
def zeroed (n : Nat) : Option (Vector Char n) := some (Vector.replicate n '\x00')

theorem encodes_upper : Encodes zeroed [0x00, 0x10, 0x83] :=
  (encodes_iff zeroed [0x00, 0x10, 0x83] (by decide) (by decide)).1.mpr
    ⟨by decide, rfl, (stored_iff _).mp (by decide)⟩

/-- Two letters have the same text, which is not base64. -/
theorem lower_case_lost : ¬Encodes zeroed [0x68] ∧
    base64Encode zeroed [0x68] = base64Encode zeroed [0x6C] := by
  have text : base64Encode zeroed [0x68] = .ok (some " A==\x00".toList) := rfl
  have other : base64Encode zeroed [0x6C] = .ok (some " A==\x00".toList) := rfl
  refine ⟨?_, by rw [text, other]⟩
  rw [Encodes, text]
  exact fun same => absurd (Option.some_inj.mp (Except.ok.inj same)) (by decide)

end Encode

end Ct.SimpleCodec
