import Ct.Openssl.Cbc128

set_option autoImplicit false

namespace Ct.Openssl

open Ct.Lib Region

/-- Two parts of the memory that do not meet. -/
abbrev Apart (p n q m : Nat) : Prop := p + n ≤ q ∨ q + m ≤ p

section Loops

variable {mem : Mem} {out a b ivec inp : Nat}

theorem length_xorBytes (s t : List Byte) : (xorBytes s t).length = min s.length t.length :=
  List.length_zipWith

theorem xorBytes_append {s s' : List Byte} (t t' : List Byte) (same : s.length = s'.length) :
    xorBytes (s ++ t) (s' ++ t') = xorBytes s s' ++ xorBytes t t' :=
  List.zipWith_append same

theorem xorBytes_cancel {s iv : List Byte} (same : s.length = iv.length) :
    xorBytes (xorBytes s iv) iv = s := by
  apply List.ext_getElem
  · rw [length_xorBytes, length_xorBytes]
    omega
  · intro i inside inside'
    simp only [xorBytes, List.getElem_zipWith]
    rw [BitVec.xor_assoc, BitVec.xor_self, BitVec.xor_zero]

/-- The loop over the units of a block is one store, wherever its source is the place where it
stores to, or apart from it. -/
theorem xorLoop_store (unit left : Nat) : ∀ (n : Nat) (mem : Mem),
    a = out ∨ Apart (a + n) (unit * left) (out + n) (unit * left) →
    Apart (b + n) (unit * left) (out + n) (unit * left) →
      xorLoop unit out a b left n mem = store mem (out + n)
        (xorBytes (load mem (a + n) (unit * left)) (load mem (b + n) (unit * left))) := by
  induction left with
  | zero =>
    intro n mem _ _
    exact store_nil.symm
  | succ left ih =>
    intro n mem source chained
    have whole : unit * (left + 1) = unit + unit * left := by rw [Nat.mul_succ, Nat.add_comm]
    have len : (xorBytes (load mem (a + n) unit) (load mem (b + n) unit)).length = unit := by
      rw [length_xorBytes, length_load, length_load, Nat.min_self]
    unfold Apart at source chained
    rw [whole] at source chained ⊢
    rw [xorLoop, ih (n + unit) _ (by unfold Apart; omega) (by unfold Apart; omega), load_add,
      load_add, xorBytes_append _ _ (by rw [length_load, length_load]), ← store_store, len,
      ← Nat.add_assoc, load_store_apart (by omega), load_store_apart (by omega), Nat.add_assoc a,
      Nat.add_assoc b]

theorem copyLoop_store {src : Nat} (left : Nat) : ∀ (n : Nat) (mem : Mem),
    Apart (src + n) left (out + n) left →
      copyLoop out src left n mem = store mem (out + n) (load mem (src + n) left) := by
  induction left with
  | zero =>
    intro n mem _
    exact store_nil.symm
  | succ left ih =>
    intro n mem apart
    unfold Apart at apart
    have first : load mem (src + n) 1 = [mem (src + n)] := rfl
    rw [copyLoop, ih (n + 1) _ (by unfold Apart; omega), Nat.add_comm left 1, load_add, first,
      ← store_store, List.length_singleton, ← Nat.add_assoc,
      load_store_apart (by rw [List.length_singleton]; omega)]
    rfl

/-- The loop of the decryption in units: it puts `tmp`, chained to `ivec`, into `out`, and what has
been read into `ivec`. -/
theorem turnLoop_store (unit : Nat) {tmp : List Byte} (left : Nat) : ∀ (n : Nat) (mem : Mem),
    n + unit * left ≤ tmp.length →
    inp = out ∨ Apart (inp + n) (unit * left) (out + n) (unit * left) →
    Apart (ivec + n) (unit * left) (out + n) (unit * left) →
    Apart (inp + n) (unit * left) (ivec + n) (unit * left) →
      turnLoop unit tmp inp out ivec left n mem =
        store (store mem (out + n)
          (xorBytes ((tmp.drop n).take (unit * left)) (load mem (ivec + n) (unit * left))))
          (ivec + n) (load mem (inp + n) (unit * left)) := by
  induction left with
  | zero =>
    intro n mem _ _ _ _
    change mem = store (store mem _ (xorBytes ((tmp.drop n).take 0) [])) _ []
    rw [store_nil, List.take_zero]
    exact store_nil.symm
  | succ left ih =>
    intro n mem fits source chained kept
    have whole : unit * (left + 1) = unit + unit * left := by rw [Nat.mul_succ, Nat.add_comm]
    unfold Apart at source chained kept
    rw [whole] at fits source chained kept ⊢
    have part : ((tmp.drop n).take unit).length = unit := by
      rw [List.length_take, List.length_drop]
      omega
    have len : (xorBytes ((tmp.drop n).take unit) (load mem (ivec + n) unit)).length = unit := by
      rw [length_xorBytes, part, length_load, Nat.min_self]
    -- the second part of the loop meets nothing of the first
    rw [turnLoop, ih (n + unit) _ (by omega) (by unfold Apart; omega) (by unfold Apart; omega)
      (by unfold Apart; omega), load_store_apart (by rw [length_load]; omega),
      load_store_apart (by omega), load_store_apart (by rw [length_load]; omega),
      load_store_apart (by omega),
      store_comm (p := ivec + n) (by rw [length_load, length_xorBytes, length_load]; omega),
      List.take_add, List.drop_drop, load_add, load_add, xorBytes_append _ _ (by rw [part, length_load]),
      ← store_store, length_load, ← store_store, len, Nat.add_assoc out, Nat.add_assoc ivec,
      Nat.add_assoc inp]

end Loops

section Text

/-- A part of a block, filled with zeros. -/
def fill (part : List Byte) : List Byte := part ++ List.replicate (16 - part.length) 0

/-- The blocks of a text; the last one is filled with zeros. -/
def blocksOf (text : List Byte) : List (List Byte) :=
  if text = [] then [] else fill (text.take 16) :: blocksOf (text.drop 16)
termination_by text.length
decreasing_by
  rename_i nonempty
  have := List.length_pos_iff.mpr nonempty
  rw [List.length_drop]
  omega

/-- The `m` blocks from `p` on. -/
def blocksAt (mem : Mem) (p : Nat) : Nat → List (List Byte)
  | 0 => []
  | m + 1 => load mem p 16 :: blocksAt mem (p + 16) m

/-- How many blocks a text of this length has. -/
def blockCount (len : Nat) : Nat := (len + 15) / 16

theorem length_fill {part : List Byte} (short : part.length ≤ 16) : (fill part).length = 16 := by
  rw [fill, List.length_append, List.length_replicate]
  omega

theorem blocksOf_nil : blocksOf [] = [] := by rw [blocksOf, if_pos rfl]

theorem blocksOf_nonempty {text : List Byte} (nonempty : text ≠ []) :
    blocksOf text = fill (text.take 16) :: blocksOf (text.drop 16) := by
  rw [blocksOf, if_neg nonempty]

theorem blocksOf_sized (text : List Byte) : ∀ b ∈ blocksOf text, b.length = 16 := by
  induction text using blocksOf.induct with
  | case1 => simp [blocksOf_nil]
  | case2 text nonempty ih =>
    rw [blocksOf_nonempty nonempty]
    exact List.forall_mem_cons.mpr ⟨length_fill (List.length_take_le _ _), ih⟩

theorem length_blocksOf (text : List Byte) : (blocksOf text).length = blockCount text.length := by
  induction text using blocksOf.induct with
  | case1 => simp [blocksOf_nil, blockCount]
  | case2 text nonempty ih =>
    have positive := List.length_pos_iff.mpr nonempty
    rw [blocksOf_nonempty nonempty, List.length_cons, ih, List.length_drop, blockCount, blockCount]
    omega

/-- A text is the start of its blocks. -/
theorem take_blocksOf (text : List Byte) : (blocksOf text).flatten.take text.length = text := by
  induction text using blocksOf.induct with
  | case1 => simp
  | case2 text nonempty ih =>
    rw [blocksOf_nonempty nonempty, List.flatten_cons]
    by_cases short : text.length ≤ 16
    · rw [List.take_append_of_le_length (by rw [length_fill (List.length_take_le _ _)]; exact short),
        List.take_of_length_le short, fill, List.take_left]
    · have whole : fill (text.take 16) = text.take 16 := by
        rw [fill, List.length_take, Nat.min_eq_left (by omega), Nat.sub_self, List.replicate_zero,
          List.append_nil]
      have len : (text.take 16).length = 16 := by
        rw [List.length_take]
        omega
      rw [whole, List.take_append, len, List.take_of_length_le (by omega), ← List.length_drop, ih,
        List.take_append_drop]

/-- The blocks of a text that begins with whole blocks. -/
theorem blocksOf_append (s t : List Byte) (whole : 16 ∣ s.length) :
    blocksOf (s ++ t) = blocksOf s ++ blocksOf t := by
  induction s using blocksOf.induct with
  | case1 => rw [blocksOf_nil, List.nil_append, List.nil_append]
  | case2 s nonempty ih =>
    have positive := List.length_pos_iff.mpr nonempty
    have long : 16 ≤ s.length := Nat.le_of_dvd positive whole
    rw [blocksOf_nonempty (List.append_ne_nil_of_left_ne_nil nonempty t), blocksOf_nonempty nonempty,
      List.take_append_of_le_length long, List.drop_append_of_le_length long,
      ih (by rw [List.length_drop]; omega), List.cons_append]

theorem length_blocksAt (mem : Mem) (m : Nat) : ∀ p, (blocksAt mem p m).length = m := by
  induction m with
  | zero => exact fun _ => rfl
  | succ m ih => exact fun p => congrArg (· + 1) (ih (p + 16))

theorem blocksAt_add (mem : Mem) (b a : Nat) :
    ∀ p, blocksAt mem p (a + b) = blocksAt mem p a ++ blocksAt mem (p + 16 * a) b := by
  induction a with
  | zero => exact fun p => congrArg (blocksAt mem p) (Nat.zero_add b)
  | succ a ih =>
    intro p
    rw [Nat.add_right_comm, blocksAt, ih, blocksAt, List.cons_append, Nat.mul_succ, Nat.add_assoc p,
      Nat.add_comm 16]

theorem blocksAt_sized (mem : Mem) (m : Nat) : ∀ p, ∀ b ∈ blocksAt mem p m, b.length = 16 := by
  induction m with
  | zero => exact fun _ _ member => absurd member List.not_mem_nil
  | succ m ih => exact fun p => List.forall_mem_cons.mpr ⟨length_load, ih (p + 16)⟩

theorem length_flatten {blocks : List (List Byte)} (sized : ∀ b ∈ blocks, b.length = 16) :
    blocks.flatten.length = 16 * blocks.length := by
  induction blocks with
  | nil => rfl
  | cons b blocks ih =>
    obtain ⟨first, others⟩ := List.forall_mem_cons.mp sized
    rw [List.flatten_cons, List.length_append, first, ih others, List.length_cons]
    omega

theorem blocksAt_congr {mem mem' : Mem} (m : Nat) : ∀ {p p' : Nat},
    (∀ i < 16 * m, mem (p + i) = mem' (p' + i)) → blocksAt mem p m = blocksAt mem' p' m := by
  induction m with
  | zero => exact fun _ => rfl
  | succ m ih =>
    intro p p' same
    rw [blocksAt, blocksAt, load_congr fun i inside => same i (by omega)]
    refine congrArg (_ :: ·) (ih fun i inside => ?_)
    rw [Nat.add_assoc, Nat.add_assoc]
    exact same (16 + i) (by omega)

/-- The blocks that have been stored. -/
theorem blocksAt_store (blocks : List (List Byte)) (sized : ∀ b ∈ blocks, b.length = 16) :
    ∀ (mem : Mem) (p : Nat), blocksAt (store mem p blocks.flatten) p blocks.length = blocks := by
  induction blocks with
  | nil => exact fun _ _ => rfl
  | cons b blocks ih =>
    intro mem p
    obtain ⟨first, others⟩ := List.forall_mem_cons.mp sized
    have front : load (store mem p (b ++ blocks.flatten)) p 16 = b := by
      rw [← store_store, load_store_apart (Or.inl (by omega)), ← first, load_store]
    rw [List.flatten_cons, List.length_cons, blocksAt, front, ← store_store, first, ih others]

theorem blocksOf_load (mem : Mem) (p len : Nat) (positive : len ≠ 0) :
    blocksOf (load mem p len) =
      fill (load mem p (min 16 len)) :: blocksOf (load mem (p + 16) (len - 16)) := by
  have nonempty : load mem p len ≠ [] := fun same => by
    have := congrArg List.length same
    rw [length_load] at this
    exact positive this
  rw [blocksOf_nonempty nonempty]
  by_cases short : len ≤ 16
  · rw [Nat.min_eq_right short, List.take_of_length_le (by rw [length_load]; exact short),
      List.drop_eq_nil_of_le (by rw [length_load]; exact short), Nat.sub_eq_zero_of_le short]
    rfl
  · have parts : load mem p len = load mem p 16 ++ load mem (p + 16) (len - 16) := by
      rw [← load_add]
      congr 1
      omega
    rw [parts, Nat.min_eq_left (by omega), List.take_left' length_load,
      List.drop_left' length_load]

theorem xorBytes_zeros (n : Nat) {s : List Byte} (len : s.length = n) :
    xorBytes (List.replicate n 0) s = s := by
  apply List.ext_getElem
  · rw [length_xorBytes, List.length_replicate]
    omega
  · intro i _ _
    simp [xorBytes]

/-- A part of a block, chained: the rest is the old block. -/
theorem xorBytes_fill (mem : Mem) {p iv n : Nat} (few : n ≤ 16) :
    xorBytes (load mem p n) (load mem iv n) ++ load mem (iv + n) (16 - n) =
      xorBytes (fill (load mem p n)) (load mem iv 16) := by
  have parts : load mem iv 16 = load mem iv n ++ load mem (iv + n) (16 - n) := by
    rw [← load_add]
    congr 1
    omega
  rw [parts, fill, xorBytes_append _ _ (by rw [length_load, length_load]), length_load,
    xorBytes_zeros _ length_load]

theorem fill_whole {b : List Byte} (sized : b.length = 16) : fill b = b := by
  rw [fill, sized, Nat.sub_self, List.replicate_zero, List.append_nil]

end Text

/-- The cipher that the chains are made with. -/
def cbc (enc dec : List Byte → List Byte) : BlockCipher (List Byte) where
  xor := xorBytes
  encrypt := enc
  decrypt := dec

theorem unchain_cons (enc dec : List Byte → List Byte) (iv b : List Byte)
    (rest : List (List Byte)) :
    (cbc enc dec).unchain iv (b :: rest) =
      xorBytes (dec b) iv :: (cbc enc dec).unchain b rest := rfl

theorem Build.unit_divides (build : Build) (inp out ivec : Nat) :
    build.unit inp out ivec ∣ 16 := by
  rw [Build.unit]
  split
  · exact ⟨16, rfl⟩
  · exact build.divides

section Encrypt

variable {enc : List Byte → List Byte} (dec : List Byte → List Byte)

/-- The text is in the place of the ciphertext or apart from it, and the block before them is apart
from the ciphertext. -/
structure Cursor.Encrypts (c : Cursor) : Prop where
  text : c.inp = c.out ∨ Apart c.inp c.len c.out (16 * blockCount c.len)
  iv : Apart c.iv 16 c.out (16 * blockCount c.len)

/-- The memory with one block of the ciphertext. -/
def Cursor.encrypted (enc : List Byte → List Byte) (c : Cursor) : Mem :=
  store c.mem c.out (enc (xorBytes (fill (load c.mem c.inp (min 16 c.len))) (load c.mem c.iv 16)))

def Cursor.next (c : Cursor) (mem : Mem) (iv : Nat) : Cursor :=
  { mem := mem, iv := iv, inp := c.inp + 16, out := c.out + 16, len := c.len - 16 }

/-- The ciphertext of what is before the cursor. -/
def Cursor.ciphertext (enc dec : List Byte → List Byte) (c : Cursor) : List (List Byte) :=
  (cbc enc dec).chain (load c.mem c.iv 16) (blocksOf (load c.mem c.inp c.len))

/-- The loops leave the ciphertext in the memory, with `iv` at its last block. -/
structure Cursor.Encrypted (enc dec : List Byte → List Byte) (c r : Cursor) : Prop where
  mem : r.mem = store c.mem c.out (c.ciphertext enc dec).flatten
  iv : load r.mem r.iv 16 = BlockCipher.final (load c.mem c.iv 16) (c.ciphertext enc dec)

theorem blockCount_step {len : Nat} (positive : len ≠ 0) :
    blockCount len = blockCount (len - 16) + 1 := by
  rw [blockCount, blockCount]
  omega

theorem Cursor.Encrypts.step {c : Cursor} (fits : c.Encrypts) (positive : c.len ≠ 0) (mem : Mem) :
    (c.next mem c.out).Encrypts := by
  have count := blockCount_step positive
  obtain ⟨text, _⟩ := fits
  unfold Apart at text
  refine ⟨?_, Or.inl (Nat.le_refl _)⟩
  rw [count] at text
  simp only [Cursor.next, Apart]
  omega

theorem Cursor.Encrypted.done {c r : Cursor} (ended : c.len = 0) (mem : r.mem = c.mem)
    (iv : r.iv = c.iv) : c.Encrypted enc dec r := by
  have nothing : c.ciphertext enc dec = [] := by
    rw [Cursor.ciphertext, ended, show load c.mem c.inp 0 = [] from rfl, blocksOf_nil]
    rfl
  refine ⟨?_, ?_⟩
  · rw [nothing, mem]
    exact store_nil.symm
  · rw [nothing, mem, iv]
    rfl

variable (sized : ∀ b : List Byte, b.length = 16 → (enc b).length = 16)

theorem length_chained (mem : Mem) (p iv : Nat) {n : Nat} (few : n ≤ 16) :
    (xorBytes (fill (load mem p n)) (load mem iv 16)).length = 16 := by
  rw [length_xorBytes, length_fill (by rw [length_load]; exact few), length_load, Nat.min_self]

include sized

theorem Cursor.Encrypted.cons {c r : Cursor} (fits : c.Encrypts) (positive : c.len ≠ 0)
    (rest : (c.next (c.encrypted enc) c.out).Encrypted enc dec r) : c.Encrypted enc dec r := by
  have count := blockCount_step positive
  obtain ⟨text, iv⟩ := fits
  unfold Apart at text
  rw [count] at text
  have len := sized _ (length_chained c.mem c.inp c.iv (Nat.min_le_left 16 c.len))
  have last : load (c.encrypted enc) c.out 16 = _ := load_stored len
  have unread : load (c.encrypted enc) (c.inp + 16) (c.len - 16) =
      load c.mem (c.inp + 16) (c.len - 16) := by
    by_cases short : c.len ≤ 16
    · rw [Nat.sub_eq_zero_of_le short]
      rfl
    · exact load_store_apart (by omega)
  have onward : (c.next (c.encrypted enc) c.out).ciphertext enc dec =
      (cbc enc dec).chain (enc (xorBytes (fill (load c.mem c.inp (min 16 c.len)))
        (load c.mem c.iv 16))) (blocksOf (load c.mem (c.inp + 16) (c.len - 16))) := by
    rw [← unread]
    exact congrArg ((cbc enc dec).chain · _) last
  have parts : c.ciphertext enc dec =
      enc (xorBytes (fill (load c.mem c.inp (min 16 c.len))) (load c.mem c.iv 16)) ::
        (c.next (c.encrypted enc) c.out).ciphertext enc dec := by
    rw [onward, Cursor.ciphertext, blocksOf_load _ _ _ positive]
    rfl
  obtain ⟨memory, final⟩ := rest
  refine ⟨?_, ?_⟩
  · rw [memory, parts, List.flatten_cons, ← store_store, len]
    rfl
  · rw [final, parts, BlockCipher.final_cons]
    exact congrArg (BlockCipher.final · _) last

theorem encryptBytes_step {c : Cursor} (fits : c.Encrypts) (positive : c.len ≠ 0) :
    (let n := min 16 c.len
    let mem := xorLoop 1 c.out c.inp c.iv n 0 c.mem
    let mem := copyLoop c.out c.iv (16 - n) n mem
    store mem c.out (enc (load mem c.out 16))) = c.encrypted enc := by
  have count := blockCount_step positive
  obtain ⟨text, iv⟩ := fits
  unfold Apart at text iv
  rw [count] at text iv
  have few : min 16 c.len ≤ 16 := Nat.min_le_left ..
  have len : (xorBytes (load c.mem c.inp (min 16 c.len)) (load c.mem c.iv (min 16 c.len))).length =
      min 16 c.len := by
    rw [length_xorBytes, length_load, length_load, Nat.min_self]
  have joined := store_store c.mem c.out
    (xorBytes (load c.mem c.inp (min 16 c.len)) (load c.mem c.iv (min 16 c.len)))
    (load c.mem (c.iv + min 16 c.len) (16 - min 16 c.len))
  have whole := length_chained c.mem c.inp c.iv few
  rw [len, xorBytes_fill _ few] at joined
  dsimp only
  rw [xorLoop_store 1 _ 0 c.mem (by unfold Apart; omega) (by unfold Apart; omega),
    copyLoop_store _ _ _ (by unfold Apart; omega), Nat.one_mul, Nat.add_zero, Nat.add_zero,
    Nat.add_zero, load_store_apart (by rw [len]; omega), joined, load_stored whole,
    store_again (by rw [whole, sized _ whole])]
  rfl

/-- `while (len)`, from any place of the loop on. -/
theorem encryptBytes_encrypted (c : Cursor) (fits : c.Encrypts) :
    c.Encrypted enc dec (encryptBytes enc c) := by
  induction len : c.len using Nat.strongRecOn generalizing c with
  | ind n ih =>
    rw [encryptBytes]
    split
    · exact Cursor.Encrypted.done dec ‹_› rfl rfl
    · rename_i positive
      have one := encryptBytes_step sized fits positive
      dsimp only at one ⊢
      rw [one]
      apply Cursor.Encrypted.cons dec sized fits positive
      split
      · exact Cursor.Encrypted.done dec (Nat.sub_eq_zero_of_le ‹_›) rfl rfl
      · exact ih (c.len - 16) (by omega) _ (fits.step positive _) rfl

theorem encryptWords_step {unit : Nat} (divides : unit ∣ 16) {c : Cursor} (fits : c.Encrypts)
    (full : 16 ≤ c.len) :
    (let mem := xorLoop unit c.out c.inp c.iv (16 / unit) 0 c.mem
    store mem c.out (enc (load mem c.out 16))) = c.encrypted enc := by
  have count := blockCount_step (Nat.ne_of_gt (Nat.lt_of_lt_of_le (Nat.succ_pos 15) full))
  obtain ⟨text, iv⟩ := fits
  unfold Apart at text iv
  rw [count] at text iv
  have whole := length_chained c.mem c.inp c.iv (Nat.min_le_left 16 c.len)
  rw [Cursor.encrypted]
  rw [Nat.min_eq_left full, fill_whole length_load] at whole ⊢
  dsimp only
  rw [xorLoop_store unit _ 0 c.mem (by rw [Nat.mul_div_cancel' divides]; unfold Apart; omega)
      (by rw [Nat.mul_div_cancel' divides]; unfold Apart; omega),
    Nat.mul_div_cancel' divides, Nat.add_zero, Nat.add_zero, Nat.add_zero, load_stored whole,
    store_again (by rw [whole, sized _ whole])]

/-- The loop that takes words, with the loop after it, from any place on. -/
theorem encryptWords_encrypted {unit : Nat} (divides : unit ∣ 16) (c : Cursor)
    (fits : c.Encrypts) : c.Encrypted enc dec (encryptBytes enc (encryptWords enc unit c)) := by
  induction len : c.len using Nat.strongRecOn generalizing c with
  | ind n ih =>
    rw [encryptWords]
    split
    · rename_i full
      have positive : c.len ≠ 0 := by omega
      have one := encryptWords_step sized divides fits full
      dsimp only at one ⊢
      rw [one]
      exact Cursor.Encrypted.cons dec sized fits positive
        (ih (c.len - 16) (by omega) _ (fits.step positive _) rfl)
    · exact encryptBytes_encrypted dec sized c fits

theorem cbc128Encrypt_store (build : Build) {inp out len ivec : Nat} (mem : Mem)
    (text : inp = out ∨ Apart inp len out (16 * blockCount len))
    (iv : Apart ivec 16 out (16 * blockCount len)) :
    cbc128Encrypt enc build inp out len ivec mem =
      store (store mem out
        ((cbc enc dec).chain (load mem ivec 16) (blocksOf (load mem inp len))).flatten) ivec
        (BlockCipher.final (load mem ivec 16)
          ((cbc enc dec).chain (load mem ivec 16) (blocksOf (load mem inp len)))) := by
  rw [cbc128Encrypt]
  let c : Cursor := { mem := mem, iv := ivec, inp := inp, out := out, len := len }
  have fits : c.Encrypts := ⟨text, iv⟩
  have loops : c.Encrypted enc dec (encryptBytes enc
      (if build.smallFootprint then c else encryptWords enc (build.unit inp out ivec) c)) := by
    split
    · exact encryptBytes_encrypted dec sized c fits
    · exact encryptWords_encrypted dec sized (build.unit_divides inp out ivec) c fits
  change store (encryptBytes enc _).mem ivec (load (encryptBytes enc _).mem _ 16) = _
  rw [loops.iv, loops.mem]
  rfl

end Encrypt

section Decrypt

variable {dec : List Byte → List Byte} (enc : List Byte → List Byte)

/-- The ciphertext is in the place of the text or apart from it, and `ivec` is apart from both. -/
structure Cursor.Decrypts (ivec : Nat) (c : Cursor) : Prop where
  text : c.inp = c.out ∨ Apart c.inp (16 * blockCount c.len) c.out c.len
  before : Apart ivec 16 c.inp (16 * blockCount c.len)
  after : Apart ivec 16 c.out c.len

/-- The memory with one block of the text. -/
def Cursor.decrypted (dec : List Byte → List Byte) (ivec : Nat) (c : Cursor) : Mem :=
  store (store c.mem c.out
    ((xorBytes (dec (load c.mem c.inp 16)) (load c.mem ivec 16)).take (min 16 c.len))) ivec
    (load c.mem c.inp 16)

theorem Cursor.Decrypts.step {ivec : Nat} {c : Cursor} (fits : c.Decrypts ivec)
    (mem : Mem) (iv : Nat) (more : (c.next mem iv).len ≠ 0) : (c.next mem iv).Decrypts ivec := by
  simp only [Cursor.next] at more
  have count := blockCount_step (by omega : c.len ≠ 0)
  obtain ⟨text, before, after⟩ := fits
  unfold Apart at text before after
  rw [count] at text before
  refine ⟨?_, ?_, ?_⟩
  all_goals
    simp only [Cursor.next, Apart]
    omega

theorem xorBytes_take (s t : List Byte) (n : Nat) :
    (xorBytes s t).take n = xorBytes (s.take n) (t.take n) :=
  List.take_zipWith

theorem take_load (mem : Mem) (p : Nat) {n m : Nat} (few : n ≤ m) :
    (load mem p m).take n = load mem p n := by
  obtain ⟨left, rfl⟩ := Nat.exists_eq_add_of_le few
  rw [load_add, List.take_left' length_load]

variable (sized : ∀ b : List Byte, b.length = 16 → (dec b).length = 16)

include sized

/-- What a loop over the units of a block does, where it covers `n` bytes of it. -/
theorem turnLoop_block {c : Cursor} {ivec : Nat} (fits : c.Decrypts ivec) (positive : c.len ≠ 0)
    {unit left n : Nat} (covers : unit * left = n) (few : n ≤ 16) (inside : n ≤ c.len) :
    turnLoop unit (dec (load c.mem c.inp 16)) c.inp c.out ivec left 0 c.mem =
      store (store c.mem c.out
        ((xorBytes (dec (load c.mem c.inp 16)) (load c.mem ivec 16)).take n)) ivec
        (load c.mem c.inp n) := by
  have count := blockCount_step positive
  obtain ⟨text, before, after⟩ := fits
  unfold Apart at text before after
  rw [count] at text before
  rw [turnLoop_store unit left 0 c.mem (by rw [sized _ length_load, covers]; omega)
      (by rw [covers]; unfold Apart; omega) (by rw [covers]; unfold Apart; omega)
      (by rw [covers]; unfold Apart; omega),
    covers, List.drop_zero, xorBytes_take, take_load _ _ few]
  rfl

theorem decryptBytes_step {c : Cursor} {ivec : Nat} (fits : c.Decrypts ivec)
    (positive : c.len ≠ 0) :
    decryptBytes dec ivec c = decryptBytes dec ivec (c.next (c.decrypted dec ivec) c.iv) := by
  have count := blockCount_step positive
  have loop := turnLoop_block sized fits positive (Nat.one_mul (min 16 c.len))
    (Nat.min_le_left ..) (Nat.min_le_right ..)
  obtain ⟨text, before, after⟩ := fits
  unfold Apart at text before after
  rw [count] at text before
  rw [decryptBytes, if_neg positive]
  dsimp only
  rw [loop]
  split
  · rename_i short
    have ended : (c.next (c.decrypted dec ivec) c.iv).len = 0 := Nat.sub_eq_zero_of_le short
    rw [decryptBytes, if_pos ended, Nat.min_eq_right short,
      copyLoop_store _ _ _ (by unfold Apart; omega),
      load_store_apart (by rw [length_load]; omega),
      load_store_apart (by rw [List.length_take]; omega)]
    have joined := store_store (store c.mem c.out
      ((xorBytes (dec (load c.mem c.inp 16)) (load c.mem ivec 16)).take c.len)) ivec
      (load c.mem c.inp c.len) (load c.mem (c.inp + c.len) (16 - c.len))
    rw [length_load, ← load_add, Nat.add_sub_cancel' short] at joined
    rw [joined, Cursor.next, Cursor.decrypted, Nat.min_eq_right short]
  · rename_i long
    rw [Cursor.next, Cursor.decrypted, Nat.min_eq_left (by omega)]

omit sized in
theorem final_sized {iv : List Byte} {blocks : List (List Byte)} (start : iv.length = 16)
    (all : ∀ b ∈ blocks, b.length = 16) : (BlockCipher.final iv blocks).length = 16 := by
  induction blocks generalizing iv with
  | nil => exact start
  | cons b blocks ih =>
    obtain ⟨first, others⟩ := List.forall_mem_cons.mp all
    rw [BlockCipher.final_cons]
    exact ih first others

theorem length_decrypted (mem : Mem) (p iv : Nat) :
    (xorBytes (dec (load mem p 16)) (load mem iv 16)).length = 16 := by
  rw [length_xorBytes, sized _ length_load, length_load, Nat.min_self]

/-- `while (len)`, from any place of the loop on. -/
theorem decryptBytes_store (c : Cursor) {ivec : Nat} (fits : c.len ≠ 0 → c.Decrypts ivec) :
    decryptBytes dec ivec c =
      store (store c.mem c.out (((cbc enc dec).unchain (load c.mem ivec 16)
        (blocksAt c.mem c.inp (blockCount c.len))).flatten.take c.len)) ivec
        (BlockCipher.final (load c.mem ivec 16) (blocksAt c.mem c.inp (blockCount c.len))) := by
  induction len : c.len using Nat.strongRecOn generalizing c with
  | ind n ih =>
    subst len
    by_cases positive : c.len = 0
    · rw [decryptBytes, if_pos positive, positive, List.take_zero, store_nil]
      exact store_load.symm
    · have count := blockCount_step positive
      have onward := (fits positive).step (c.decrypted dec ivec) c.iv
      rw [decryptBytes_step sized (fits positive) positive,
        ih (c.len - 16) (by omega) _ onward rfl]
      obtain ⟨text, before, after⟩ := fits positive
      unfold Apart at text before after
      rw [count] at text before
      have plain := length_decrypted sized c.mem c.inp ivec
      have chained : load (c.decrypted dec ivec) ivec 16 = load c.mem c.inp 16 :=
        load_stored length_load
      have unread : blocksAt (c.decrypted dec ivec) (c.inp + 16) (blockCount (c.len - 16)) =
          blocksAt c.mem (c.inp + 16) (blockCount (c.len - 16)) := by
        apply blocksAt_congr
        intro i inside
        have last : blockCount (c.len - 16) ≠ 0 := by omega
        unfold blockCount at last
        rw [Cursor.decrypted, store_outside (by rw [length_load]; omega),
          store_outside (by rw [List.length_take, plain]; omega)]
      have last : (BlockCipher.final (load c.mem c.inp 16)
          (blocksAt c.mem (c.inp + 16) (blockCount (c.len - 16)))).length = 16 :=
        final_sized length_load (blocksAt_sized _ _ _)
      simp only [Cursor.next]
      rw [chained, unread, count, blocksAt, unchain_cons, BlockCipher.final_cons,
        List.flatten_cons, Cursor.decrypted]
      by_cases short : c.len ≤ 16
      · rw [Nat.sub_eq_zero_of_le short, Nat.min_eq_right short, List.take_zero, store_nil,
          store_again (by rw [length_load]; rwa [Nat.sub_eq_zero_of_le short, eq_comm] at last),
          List.take_append_of_le_length (by rw [plain]; exact short)]
      · rw [store_comm (p := ivec) (by rw [length_load, List.length_take]; omega),
          store_again (by rw [length_load, last]), Nat.min_eq_left (by omega),
          List.take_of_length_le (Nat.le_of_eq plain), List.take_append, plain,
          List.take_of_length_le (i := c.len) (by rw [plain]; omega), ← store_store, plain]

/-- The loop that decrypts in place a word at a time changes nothing for the loop after it. -/
theorem decryptInPlace_bytes {unit : Nat} (divides : unit ∣ 16) {ivec : Nat} (c : Cursor)
    (fits : c.len ≠ 0 → c.Decrypts ivec) :
    decryptBytes dec ivec (decryptInPlace dec unit ivec c) = decryptBytes dec ivec c := by
  induction len : c.len using Nat.strongRecOn generalizing c with
  | ind n ih =>
    subst len
    rw [decryptInPlace]
    split
    · rename_i full
      have positive : c.len ≠ 0 := by omega
      have loop := turnLoop_block sized (fits positive) positive (Nat.mul_div_cancel' divides)
        (Nat.le_refl 16) full
      rw [decryptBytes_step sized (fits positive) positive,
        ← ih (c.len - 16) (by omega) _ ((fits positive).step _ _) rfl, Cursor.next,
        Cursor.decrypted, Nat.min_eq_left full]
      dsimp only
      rw [loop]
    · rfl

omit sized in
/-- The loop does not look at `iv`. -/
theorem decryptBytes_iv (c : Cursor) (ivec iv : Nat) :
    decryptBytes dec ivec { c with iv := iv } = decryptBytes dec ivec c := by
  induction len : c.len using Nat.strongRecOn generalizing c with
  | ind n ih =>
    subst len
    rw [decryptBytes, decryptBytes.eq_def dec ivec c]
    split
    · rfl
    · dsimp only
      split
      · rfl
      · exact ih (c.len - 16) (by omega)
          { c with
            mem := turnLoop 1 (dec (load c.mem c.inp 16)) c.inp c.out ivec (min 16 c.len) 0 c.mem
            inp := c.inp + 16
            out := c.out + 16
            len := c.len - 16 } rfl

/-- The cursor with the last block of the ciphertext in `ivec`. -/
def Cursor.held (ivec : Nat) (c : Cursor) : Cursor :=
  { c with mem := store c.mem ivec (load c.mem c.iv 16) }

theorem decryptApart_step {unit ivec : Nat} (divides : unit ∣ 16) {c : Cursor}
    (fits : c.Decrypts ivec) (full : 16 ≤ c.len) (moved : c.inp ≠ c.out)
    (chained : Apart c.iv 16 c.out c.len) :
    ((c.next (xorLoop unit c.out c.out c.iv (16 / unit) 0
      (store c.mem c.out (dec (load c.mem c.inp 16)))) c.inp).held ivec).mem =
        (c.held ivec).decrypted dec ivec := by
  have count := blockCount_step (by omega : c.len ≠ 0)
  have plain := sized _ (length_load : (load c.mem c.inp 16).length = 16)
  obtain ⟨text, before, after⟩ := fits
  unfold Apart at text before after chained
  rw [count] at text before
  have mixed : (xorBytes (dec (load c.mem c.inp 16)) (load c.mem c.iv 16)).length = 16 := by
    rw [length_xorBytes, plain, length_load, Nat.min_self]
  simp only [Cursor.held, Cursor.next, Cursor.decrypted]
  rw [xorLoop_store unit _ 0 _ (Or.inl rfl)
      (by rw [Nat.mul_div_cancel' divides]; unfold Apart; omega),
    Nat.mul_div_cancel' divides, Nat.add_zero, Nat.add_zero, load_stored plain,
    load_store_apart (by rw [plain]; omega), store_again (by rw [plain, mixed]),
    load_store_apart (by rw [mixed]; omega),
    load_store_apart (n := 16) (p := c.inp) (by rw [length_load]; omega), load_stored length_load,
    Nat.min_eq_left full, List.take_of_length_le (Nat.le_of_eq mixed),
    store_comm (p := ivec) (by rw [length_load, mixed]; omega),
    store_again (by rw [length_load, length_load])]

/-- The loop that decrypts from another place keeps in `iv` what the loop after it finds in
`ivec`. -/
theorem decryptApart_bytes {unit ivec : Nat} (divides : unit ∣ 16) (c : Cursor)
    (fits : c.len ≠ 0 → c.Decrypts ivec) (moved : c.inp ≠ c.out)
    (chained : c.len ≠ 0 → Apart c.iv 16 c.out c.len) :
    decryptBytes dec ivec ((decryptApart dec unit c).held ivec) =
      decryptBytes dec ivec (c.held ivec) := by
  induction len : c.len using Nat.strongRecOn generalizing c with
  | ind n ih =>
    subst len
    rw [decryptApart]
    split
    · rename_i full
      have positive : c.len ≠ 0 := by omega
      have one := decryptApart_step sized divides (fits positive) full moved (chained positive)
      obtain ⟨text, before, after⟩ := fits positive
      have apart := text.resolve_left moved
      rw [decryptBytes_step sized (c := c.held ivec) ⟨text, before, after⟩ positive, ← one]
      refine (ih (c.len - 16) (by omega) (c.next _ c.inp) ((fits positive).step _ _)
        (fun same => moved (Nat.add_right_cancel same)) (fun more => ?_) rfl).trans
        (decryptBytes_iv ((c.held ivec).next _ c.iv) ivec c.inp)
      unfold Apart at apart
      rw [blockCount_step positive] at apart
      simp only [Cursor.next, Apart] at more ⊢
      omega
    · rfl

theorem cbc128Decrypt_store (build : Build) {inp out len ivec : Nat} (mem : Mem)
    (text : inp = out ∨ Apart inp (16 * blockCount len) out len)
    (before : Apart ivec 16 inp (16 * blockCount len)) (after : Apart ivec 16 out len) :
    cbc128Decrypt dec build inp out len ivec mem =
      store (store mem out (((cbc enc dec).unchain (load mem ivec 16)
        (blocksAt mem inp (blockCount len))).flatten.take len)) ivec
        (BlockCipher.final (load mem ivec 16) (blocksAt mem inp (blockCount len))) := by
  let c : Cursor := { mem := mem, iv := ivec, inp := inp, out := out, len := len }
  have fits : c.len ≠ 0 → c.Decrypts ivec := fun _ => ⟨text, before, after⟩
  have divides := build.unit_divides inp out ivec
  have bytes := decryptBytes_store enc sized c fits
  have held : c.held ivec = c := congrArg (fun mem => { c with mem := mem }) store_load
  rw [cbc128Decrypt]
  dsimp only
  split
  · exact bytes
  · split
    · exact (decryptApart_bytes sized divides c fits ‹_› fun _ => after).trans
        ((congrArg _ held).trans bytes)
    · exact (decryptInPlace_bytes sized divides c fits).trans bytes

end Decrypt

end Ct.Openssl
