set_option autoImplicit false

namespace Ct.Lib

/-- A cipher of blocks with its inverse, and an operation that chains the blocks. -/
structure BlockCipher (Block : Type) where
  xor : Block → Block → Block
  encrypt : Block → Block
  decrypt : Block → Block

namespace BlockCipher

variable {Block : Type} (cipher : BlockCipher Block)

/-- Each block is chained to the ciphertext of the block before it. -/
def chain : Block → List Block → List Block
  | _, [] => []
  | iv, block :: rest =>
    let out := cipher.encrypt (cipher.xor block iv)
    out :: chain out rest

def unchain : Block → List Block → List Block
  | _, [] => []
  | iv, block :: rest => cipher.xor (cipher.decrypt block) iv :: unchain block rest

/-- The last block of a text, or what has been chained to the first one. -/
def final (iv : Block) (blocks : List Block) : Block := blocks.getLast?.getD iv

@[simp] theorem final_nil (iv : Block) : final iv [] = iv := rfl

@[simp] theorem final_cons (iv block : Block) (rest : List Block) :
    final iv (block :: rest) = final block rest := by
  cases rest with
  | nil => rfl
  | cons next rest =>
    rw [final, List.getLast?_cons_cons, final, List.getLast?_cons]
    rfl

theorem final_append (iv : Block) (front rest : List Block) :
    final iv (front ++ rest) = final (final iv front) rest := by
  induction front generalizing iv with
  | nil => rfl
  | cons block front ih => rw [List.cons_append, final_cons, final_cons, ih]

@[simp] theorem length_chain (iv : Block) (blocks : List Block) :
    (cipher.chain iv blocks).length = blocks.length := by
  induction blocks generalizing iv with
  | nil => rfl
  | cons block rest ih => rw [chain, List.length_cons, ih, List.length_cons]

@[simp] theorem length_unchain (iv : Block) (blocks : List Block) :
    (cipher.unchain iv blocks).length = blocks.length := by
  induction blocks generalizing iv with
  | nil => rfl
  | cons block rest ih => rw [unchain, List.length_cons, ih, List.length_cons]

/-- Two texts, the second chained to the end of the first. -/
theorem chain_append (iv : Block) (front rest : List Block) :
    cipher.chain iv (front ++ rest) =
      cipher.chain iv front ++ cipher.chain (final iv (cipher.chain iv front)) rest := by
  induction front generalizing iv with
  | nil => rfl
  | cons block front ih => rw [List.cons_append, chain, ih, chain, final_cons, List.cons_append]

theorem unchain_append (iv : Block) (front rest : List Block) :
    cipher.unchain iv (front ++ rest) =
      cipher.unchain iv front ++ cipher.unchain (final iv front) rest := by
  induction front generalizing iv with
  | nil => rfl
  | cons block front ih => rw [List.cons_append, unchain, ih, unchain, final_cons, List.cons_append]

/-- Where the cipher has its inverse on the blocks of a kind, a text of them is recovered. -/
theorem unchain_chain (Whole : Block → Prop)
    (inverse : ∀ b, Whole b → cipher.decrypt (cipher.encrypt b) = b)
    (whole : ∀ b iv, Whole b → Whole iv → Whole (cipher.xor b iv))
    (encrypted : ∀ b, Whole b → Whole (cipher.encrypt b))
    (cancel : ∀ b iv, Whole b → Whole iv → cipher.xor (cipher.xor b iv) iv = b)
    (blocks : List Block) :
    ∀ iv, Whole iv → (∀ b ∈ blocks, Whole b) →
      cipher.unchain iv (cipher.chain iv blocks) = blocks := by
  induction blocks with
  | nil => exact fun _ _ _ => rfl
  | cons block rest ih =>
    intro iv wholeIv all
    obtain ⟨first, others⟩ := List.forall_mem_cons.mp all
    have mixed := whole block iv first wholeIv
    rw [chain, unchain, inverse _ mixed, cancel block iv first wholeIv,
      ih _ (encrypted _ mixed) others]

end BlockCipher

end Ct.Lib
