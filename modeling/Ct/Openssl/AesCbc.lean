import Ct.Openssl.AesInverse
import Ct.Openssl.Cbc128Runs

set_option autoImplicit false

namespace Ct.Openssl

open Ct.Lib Region

theorem length_putColumns (s : Columns) : (putColumns s).length = 16 := rfl

theorem length_aesEncrypt (block : List Byte) (key : AesKey) : (aesEncrypt block key).length = 16 :=
  length_putColumns _

theorem length_aesDecrypt (block : List Byte) (key : AesKey) : (aesDecrypt block key).length = 16 :=
  length_putColumns _

/-- The blocks of the text are in the place of those of the result or apart from them, and `ivec` is
apart from both. -/
structure Buffers (inp out len ivec : Nat) : Prop where
  text : inp = out ∨ Apart inp (16 * blockCount len) out (16 * blockCount len)
  before : Apart ivec 16 inp (16 * blockCount len)
  after : Apart ivec 16 out (16 * blockCount len)

theorem le_blocks (len : Nat) : len ≤ 16 * blockCount len := by
  rw [blockCount]
  omega

section Calls

variable {inp out len ivec : Nat}

theorem aesCbcEncrypt_encrypts (buffers : Buffers inp out len ivec) (build : Build) (key : AesKey)
    {enc : Int} (encrypts : enc ≠ 0) (dec : List Byte → List Byte) (mem : Mem) :
    aesCbcEncrypt build inp out len key ivec enc mem =
      store (store mem out ((cbc (aesEncrypt · key) dec).chain (load mem ivec 16)
        (blocksOf (load mem inp len))).flatten) ivec
        (BlockCipher.final (load mem ivec 16) ((cbc (aesEncrypt · key) dec).chain (load mem ivec 16)
          (blocksOf (load mem inp len)))) := by
  have few := le_blocks len
  obtain ⟨text, _, after⟩ := buffers
  rw [aesCbcEncrypt, if_pos encrypts]
  refine cbc128Encrypt_store dec (fun b _ => length_aesEncrypt b key) build mem (text.imp_right ?_)
    after
  unfold Apart
  omega

theorem aesCbcEncrypt_decrypts (buffers : Buffers inp out len ivec) (build : Build) (key : AesKey)
    (enc : List Byte → List Byte) (mem : Mem) :
    aesCbcEncrypt build inp out len key ivec 0 mem =
      store (store mem out (((cbc enc (aesDecrypt · key)).unchain (load mem ivec 16)
        (blocksAt mem inp (blockCount len))).flatten.take len)) ivec
        (BlockCipher.final (load mem ivec 16) (blocksAt mem inp (blockCount len))) := by
  have few := le_blocks len
  obtain ⟨text, before, after⟩ := buffers
  unfold Apart at text after
  rw [aesCbcEncrypt, if_neg (not_not_intro rfl)]
  exact cbc128Decrypt_store enc (fun b _ => length_aesDecrypt b key) build mem
    (by unfold Apart; omega) before (by unfold Apart; omega)

end Calls

section RoundTrip

theorem chain_sized {enc : List Byte → List Byte} (dec : List Byte → List Byte)
    (sized : ∀ b, (enc b).length = 16) (blocks : List (List Byte)) :
    ∀ iv, ∀ b ∈ (cbc enc dec).chain iv blocks, b.length = 16 := by
  induction blocks with
  | nil => exact fun _ _ member => absurd member List.not_mem_nil
  | cons b blocks ih => exact fun iv => List.forall_mem_cons.mpr ⟨sized _, ih _⟩

/-- The two structures of a key undo the chain that the one of them makes. -/
theorem aes_unchain {bits : Int} (valid : bits = 128 ∨ bits = 192 ∨ bits = 256)
    (userKey : List Byte) (key key' : AesKey) {iv : List Byte} (start : iv.length = 16)
    {blocks : List (List Byte)} (whole : ∀ b ∈ blocks, b.length = 16) :
    let cipher := cbc (aesEncrypt · (setEncryptKey userKey bits key).2)
      (aesDecrypt · (setDecryptKey userKey bits key').2)
    cipher.unchain iv (cipher.chain iv blocks) = blocks := by
  refine BlockCipher.unchain_chain _ (fun b => b.length = 16) ?_ ?_ ?_ ?_ blocks iv start
    whole
  · exact fun b sized => aesDecrypt_aesEncrypt valid userKey key key' sized
  · exact fun b iv sized sizedIv => (length_xorBytes b iv).trans (by rw [sized, sizedIv]; rfl)
  · exact fun b _ => length_aesEncrypt b _
  · exact fun b iv sized sizedIv => xorBytes_cancel (sized.trans sizedIv.symm)

/-- What has been encrypted is decrypted again, also when it is no whole number of blocks: from any
memory that holds the ciphertext somewhere, with the `ivec` that the encryption began with. Then
both sides hold the same `ivec` for what follows. -/
theorem aesCbcEncrypt_recovers {bits : Int} (valid : bits = 128 ∨ bits = 192 ∨ bits = 256)
    (userKey : List Byte) (key key' : AesKey) (build build' : Build) {enc : Int} (encrypts : enc ≠ 0)
    {len inp out ivec inp' out' ivec' : Nat} (there : Buffers inp out len ivec)
    (here : Buffers inp' out' len ivec') {mem sent got : Mem}
    (sends : sent =
      aesCbcEncrypt build inp out len (setEncryptKey userKey bits key).2 ivec enc mem)
    (arrived : ∀ i < 16 * blockCount len, got (inp' + i) = sent (out + i))
    (start : load got ivec' 16 = load mem ivec 16) :
    let back := aesCbcEncrypt build' inp' out' len (setDecryptKey userKey bits key').2 ivec' 0 got
    load back out' len = load mem inp len ∧ load back ivec' 16 = load sent ivec 16 := by
  subst sends
  have few := le_blocks len
  have text := length_blocksOf (load mem inp len)
  rw [length_load] at text
  have plain := aes_unchain valid userKey key key' (length_load : (load mem ivec 16).length = 16)
    (blocksOf_sized (load mem inp len))
  have encrypts' := aesCbcEncrypt_encrypts there build (setEncryptKey userKey bits key).2 encrypts
    (aesDecrypt · (setDecryptKey userKey bits key').2) mem
  have decrypts := aesCbcEncrypt_decrypts here build' (setDecryptKey userKey bits key').2
    (aesEncrypt · (setEncryptKey userKey bits key).2) got
  have sized := chain_sized (aesDecrypt · (setDecryptKey userKey bits key').2)
    (fun b => length_aesEncrypt b (setEncryptKey userKey bits key).2) (blocksOf (load mem inp len))
    (load mem ivec 16)
  set cipher := cbc (aesEncrypt · (setEncryptKey userKey bits key).2)
    (aesDecrypt · (setDecryptKey userKey bits key').2)
  have count : (cipher.chain (load mem ivec 16) (blocksOf (load mem inp len))).length =
      blockCount len := (BlockCipher.length_chain ..).trans text
  have long := length_flatten sized
  have last := final_sized (length_load : (load mem ivec 16).length = 16) sized
  rw [count] at long
  -- the blocks that arrived are those of the chain
  have blocks : blocksAt got inp' (blockCount len) =
      cipher.chain (load mem ivec 16) (blocksOf (load mem inp len)) := by
    have apart := there.after
    unfold Apart at apart
    have stored := blocksAt_store _ sized mem out
    rw [count] at stored
    rw [blocksAt_congr (blockCount len) arrived, encrypts']
    exact (blocksAt_congr _ fun i inside => store_outside (by rw [last]; omega)).trans stored
  have apart := here.after
  unfold Apart at apart
  dsimp only
  rw [decrypts, start, blocks, plain]
  have whole : ((blocksOf (load mem inp len)).flatten.take len) = load mem inp len := by
    have taken := take_blocksOf (load mem inp len)
    rwa [length_load] at taken
  refine ⟨?_, ?_⟩
  · rw [whole, load_store_apart (by rw [last]; omega), load_stored length_load]
  · rw [load_stored last, encrypts', load_stored last]

/-- A build with words of eight bytes. -/
def words : Build := ⟨false, false, 8, by decide⟩

theorem aesCbcEncrypt_recovers_partly :
    let key := blankKey
    let user := List.replicate 16 (0 : Byte)
    let mem : Mem := fun a => BitVec.ofNat 8 a
    let sent := aesCbcEncrypt words 0 100 20 (setEncryptKey user 128 key).2 200 1 mem
    let got := store sent 200 (load mem 200 16)
    let back := aesCbcEncrypt words 100 0 20 (setDecryptKey user 128 key).2 200 0 got
    ((128 : Int) = 128 ∨ (128 : Int) = 192 ∨ (128 : Int) = 256) ∧ (1 : Int) ≠ 0 ∧
    Buffers 0 100 20 200 ∧ Buffers 100 0 20 200 ∧
    (∀ i < 16 * blockCount 20, got (100 + i) = sent (100 + i)) ∧
    load got 200 16 = load mem 200 16 ∧
    load back 0 20 = load mem 0 20 ∧ load back 200 16 = load sent 200 16 := by
  intro key user mem sent got back
  have valid : (128 : Int) = 128 ∨ (128 : Int) = 192 ∨ (128 : Int) = 256 := Or.inl rfl
  have there : Buffers 0 100 20 200 := ⟨Or.inr (by decide), by decide, by decide⟩
  have here : Buffers 100 0 20 200 := ⟨Or.inr (by decide), by decide, by decide⟩
  have arrived : ∀ i < 16 * blockCount 20, got (100 + i) = sent (100 + i) := fun i inside =>
    store_outside (Or.inl (by simp only [blockCount] at inside; omega))
  have start : load got 200 16 = load mem 200 16 := load_stored length_load
  exact ⟨valid, by decide, there, here, arrived, start,
    aesCbcEncrypt_recovers valid user key key words words (by decide) there here rfl arrived start⟩

end RoundTrip

section Chunks

variable {inp out n m ivec : Nat}

theorem blockCount_whole (whole : 16 ∣ n) : blockCount (n + m) = n / 16 + blockCount m := by
  rw [blockCount, blockCount]
  omega

theorem Buffers.front (buffers : Buffers inp out (n + m) ivec) : Buffers inp out n ivec := by
  obtain ⟨text, before, after⟩ := buffers
  unfold Apart blockCount at text before after
  refine ⟨?_, ?_, ?_⟩
  all_goals
    unfold Apart blockCount
    omega

theorem Buffers.rest (buffers : Buffers inp out (n + m) ivec) (whole : 16 ∣ n) :
    Buffers (inp + n) (out + n) m ivec := by
  obtain ⟨text, before, after⟩ := buffers
  unfold Apart blockCount at text before after
  refine ⟨?_, ?_, ?_⟩
  all_goals
    unfold Apart blockCount
    omega

/-- What a first call has stored, for a second one that goes on behind it. -/
structure Between (inp out n m ivec : Nat) (mem : Mem) (first kept : List Byte) : Prop where
  held : load (store (store mem out first) ivec kept) ivec 16 = kept
  unread : ∀ i < 16 * blockCount m,
    store (store mem out first) ivec kept (inp + n + i) = mem (inp + n + i)
  joined : ∀ second last : List Byte, second.length ≤ 16 * blockCount m → last.length = 16 →
    store (store (store (store mem out first) ivec kept) (out + n) second) ivec last =
      store (store mem out (first ++ second)) ivec last

theorem Buffers.between (buffers : Buffers inp out (n + m) ivec) (whole : 16 ∣ n) (mem : Mem)
    {first kept : List Byte} (len : first.length = n) (sized : kept.length = 16) :
    Between inp out n m ivec mem first kept := by
  obtain ⟨text, before, after⟩ := buffers
  unfold Apart at text before after
  rw [blockCount_whole whole] at text before after
  refine ⟨load_stored sized, fun i inside => ?_, fun second last short sized' => ?_⟩
  · rw [store_outside (by rw [sized]; omega), store_outside (by rw [len]; omega)]
  · rw [← len]
    exact store_between (Or.inr (by rw [sized, len]; omega)) (sized.trans sized'.symm)

theorem encrypts_append (buffers : Buffers inp out (n + m) ivec) (whole : 16 ∣ n)
    (build build' build'' : Build) (key : AesKey) {enc : Int} (encrypts : enc ≠ 0) (mem : Mem) :
    aesCbcEncrypt build' (inp + n) (out + n) m key ivec enc
      (aesCbcEncrypt build inp out n key ivec enc mem) =
      aesCbcEncrypt build'' inp out (n + m) key ivec enc mem := by
  have chained := fun iv blocks => chain_sized id (fun b => length_aesEncrypt b key) blocks iv
  have len := length_flatten (chained (load mem ivec 16) (blocksOf (load mem inp n)))
  have held := final_sized (length_load : (load mem ivec 16).length = 16)
    (chained (load mem ivec 16) (blocksOf (load mem inp n)))
  have len' := fun iv => length_flatten (chained iv (blocksOf (load mem (inp + n) m)))
  have exact : 16 * blockCount n = n := by
    unfold blockCount
    omega
  rw [BlockCipher.length_chain, length_blocksOf, length_load, exact] at len
  simp only [BlockCipher.length_chain, length_blocksOf, length_load] at len'
  have between := buffers.between whole mem len held
  have few := le_blocks m
  have unread : load _ (inp + n) m = load mem (inp + n) m :=
    load_congr fun i inside => between.unread i (by omega)
  rw [aesCbcEncrypt_encrypts (buffers.rest whole) build' key encrypts id,
    aesCbcEncrypt_encrypts buffers.front build key encrypts id,
    aesCbcEncrypt_encrypts buffers build'' key encrypts id, between.held,
    unread, load_add, blocksOf_append _ _ (by rw [length_load]; exact whole), BlockCipher.chain_append,
    List.flatten_append, BlockCipher.final_append]
  exact between.joined _ _ (Nat.le_of_eq (len' _)) (final_sized held (chained _ _))

theorem unchain_sized (enc : List Byte → List Byte) {dec : List Byte → List Byte}
    (sized : ∀ b, (dec b).length = 16) (blocks : List (List Byte)) :
    ∀ iv : List Byte, iv.length = 16 → (∀ b ∈ blocks, b.length = 16) →
      ∀ b ∈ (cbc enc dec).unchain iv blocks, b.length = 16 := by
  induction blocks with
  | nil => exact fun _ _ _ _ member => absurd member List.not_mem_nil
  | cons b blocks ih =>
    intro iv start all
    obtain ⟨first, others⟩ := List.forall_mem_cons.mp all
    rw [unchain_cons]
    refine List.forall_mem_cons.mpr ⟨?_, ih b first others⟩
    rw [length_xorBytes, sized, start, Nat.min_self]

theorem decrypts_append (buffers : Buffers inp out (n + m) ivec) (whole : 16 ∣ n)
    (build build' build'' : Build) (key : AesKey) (mem : Mem) :
    aesCbcEncrypt build' (inp + n) (out + n) m key ivec 0
      (aesCbcEncrypt build inp out n key ivec 0 mem) =
      aesCbcEncrypt build'' inp out (n + m) key ivec 0 mem := by
  have blocks := blocksAt_sized mem (blockCount n) inp
  have plain := unchain_sized id (fun b => length_aesDecrypt b key) _ (load mem ivec 16) length_load
    blocks
  have len := length_flatten plain
  have held := final_sized (length_load : (load mem ivec 16).length = 16) blocks
  have exact : 16 * blockCount n = n := by
    unfold blockCount
    omega
  rw [BlockCipher.length_unchain, length_blocksAt, exact] at len
  have between := buffers.between whole mem len held
  have few := le_blocks m
  have count : blockCount (n + m) = blockCount n + blockCount m := by
    rw [blockCount_whole whole]
    omega
  have unread : blocksAt _ (inp + n) (blockCount m) = blocksAt mem (inp + n) (blockCount m) :=
    blocksAt_congr _ between.unread
  rw [aesCbcEncrypt_decrypts (buffers.rest whole) build' key id,
    aesCbcEncrypt_decrypts buffers.front build key id,
    aesCbcEncrypt_decrypts buffers build'' key id, List.take_of_length_le (Nat.le_of_eq len),
    between.held, unread, count, blocksAt_add, exact, BlockCipher.unchain_append,
    List.flatten_append, BlockCipher.final_append, List.take_append, len,
    List.take_of_length_le (i := n + m) (by omega), Nat.add_sub_cancel_left]
  exact between.joined _ _ (List.length_take_le _ _ |>.trans few) (final_sized held (blocksAt_sized mem _ _))

/-- A text that is passed in parts, each by a call for the part behind the one before. -/
def aesCbcCalls (key : AesKey) (ivec : Nat) (enc : Int) :
    List (Build × Nat) → Nat → Nat → Mem → Mem
  | [], _, _, mem => mem
  | (build, n) :: rest, inp, out, mem =>
    aesCbcCalls key ivec enc rest (inp + n) (out + n)
      (aesCbcEncrypt build inp out n key ivec enc mem)

/-- How much these parts are together. -/
def total (parts : List (Build × Nat)) : Nat := (parts.map (·.2)).sum

theorem aesCbcEncrypt_append (buffers : Buffers inp out (n + m) ivec) (whole : 16 ∣ n)
    (build build' build'' : Build) (key : AesKey) (enc : Int) (mem : Mem) :
    aesCbcEncrypt build' (inp + n) (out + n) m key ivec enc
      (aesCbcEncrypt build inp out n key ivec enc mem) =
      aesCbcEncrypt build'' inp out (n + m) key ivec enc mem := by
  by_cases encrypts : enc = 0
  · subst encrypts
    exact decrypts_append buffers whole build build' build'' key mem
  · exact encrypts_append buffers whole build build' build'' key encrypts mem

theorem aesCbcEncrypt_none (build : Build) (inp out ivec : Nat) (key : AesKey) (enc : Int)
    (mem : Mem) : aesCbcEncrypt build inp out 0 key ivec enc mem = mem := by
  have none : ¬16 ≤ 0 := by decide
  rw [aesCbcEncrypt, cbc128Encrypt, cbc128Decrypt, encryptWords, decryptApart, decryptInPlace]
  simp [none, encryptBytes, decryptBytes, store_load]

/-- The loops over words, over bytes, in place and from another place do the same. -/
theorem aesCbcEncrypt_build (buffers : Buffers inp out n ivec) (build build' : Build) (key : AesKey)
    (enc : Int) (mem : Mem) :
    aesCbcEncrypt build inp out n key ivec enc mem =
      aesCbcEncrypt build' inp out n key ivec enc mem := by
  by_cases encrypts : enc = 0
  · subst encrypts
    rw [aesCbcEncrypt_decrypts buffers build key id, aesCbcEncrypt_decrypts buffers build' key id]
  · rw [aesCbcEncrypt_encrypts buffers build key encrypts id,
      aesCbcEncrypt_encrypts buffers build' key encrypts id]

/-- However a text is cut into parts, all but the last of them whole numbers of blocks, and whichever
build each part is passed to, the memory is in the end as after one call of any build. -/
theorem aesCbcCalls_one (key : AesKey) (ivec : Nat) (enc : Int) (build : Build)
    (parts : List (Build × Nat)) (whole : ∀ part ∈ parts.dropLast, 16 ∣ part.2) :
    ∀ inp out, Buffers inp out (total parts) ivec → ∀ mem,
      aesCbcCalls key ivec enc parts inp out mem =
        aesCbcEncrypt build inp out (total parts) key ivec enc mem := by
  induction parts with
  | nil => exact fun inp out _ mem => (aesCbcEncrypt_none build inp out ivec key enc mem).symm
  | cons part parts ih =>
    intro inp out buffers mem
    obtain ⟨part, n⟩ := part
    cases parts with
    | nil => exact aesCbcEncrypt_build buffers part build key enc mem
    | cons next parts =>
      obtain ⟨first, others⟩ := List.forall_mem_cons.mp whole
      have sum : total ((part, n) :: next :: parts) = n + total (next :: parts) := rfl
      rw [sum] at buffers ⊢
      rw [aesCbcCalls, ih others _ _ (buffers.rest first),
        aesCbcEncrypt_append buffers first part build build]

theorem aesCbcCalls_one_thrice :
    (∀ part ∈ [(words, 32), (⟨true, false, 4, by decide⟩, 16), (words, 5)].dropLast, 16 ∣ part.2) ∧
    Buffers 0 100 53 200 ∧
    aesCbcCalls blankKey 200 1 [(words, 32), (⟨true, false, 4, by decide⟩, 16), (words, 5)] 0 100
      (BitVec.ofNat 8) = aesCbcEncrypt words 0 100 53 blankKey 200 1 (BitVec.ofNat 8) := by
  have whole : ∀ part ∈ [(words, 32), ((⟨true, false, 4, by decide⟩ : Build), 16),
      (words, 5)].dropLast, 16 ∣ part.2 := by decide
  have buffers : Buffers 0 100 53 200 := ⟨Or.inr (by decide), by decide, by decide⟩
  exact ⟨whole, buffers, aesCbcCalls_one blankKey 200 1 words _ whole 0 100 buffers _⟩

end Chunks

end Ct.Openssl
