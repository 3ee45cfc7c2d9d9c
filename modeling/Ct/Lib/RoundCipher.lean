set_option autoImplicit false

namespace Ct.Lib

/-- The parts of a cipher that goes through rounds of a substitution, a mixing step that respects
the addition of keys, and this addition. -/
structure RoundCipher (State : Type) where
  xor : State → State → State
  sub : State → State
  unsub : State → State
  mix : State → State
  unmix : State → State
  xor_xor : ∀ s k, xor (xor s k) k = s
  unsub_sub : ∀ s, unsub (sub s) = s
  unmix_mix : ∀ s, unmix (mix s) = s
  unmix_xor : ∀ s k, unmix (xor s k) = xor (unmix s) (unmix k)

namespace RoundCipher

variable {State : Type} (cipher : RoundCipher State)

def round (s k : State) : State := cipher.xor (cipher.mix (cipher.sub s)) k

/-- A round in the opposite direction, with the parts in the same order. -/
def unround (s k : State) : State := cipher.xor (cipher.unmix (cipher.unsub s)) k

/-- The last round does not mix. -/
def encrypt (first : State) (middle : List State) (last block : State) : State :=
  cipher.xor (cipher.sub (middle.foldl cipher.round (cipher.xor block first))) last

def decrypt (first : State) (middle : List State) (last block : State) : State :=
  cipher.xor (cipher.unsub (middle.foldl cipher.unround (cipher.xor block first))) last

theorem unround_round (s k : State) :
    cipher.unround (cipher.sub (cipher.round s k)) (cipher.unmix k) = cipher.sub s := by
  rw [unround, cipher.unsub_sub, round, cipher.unmix_xor, cipher.unmix_mix, cipher.xor_xor]

/-- The rounds are undone with the keys in the opposite order, each of them unmixed. -/
theorem unrounds_rounds (keys : List State) (s : State) :
    (keys.map cipher.unmix).reverse.foldl cipher.unround
      (cipher.sub (keys.foldl cipher.round s)) = cipher.sub s := by
  induction keys generalizing s with
  | nil => rfl
  | cons k keys ih =>
    rw [List.map_cons, List.reverse_cons, List.foldl_append]
    change cipher.unround (List.foldl _ (cipher.sub (keys.foldl _ (cipher.round s k))) _) _ = _
    rw [ih]
    exact cipher.unround_round s k

theorem decrypt_encrypt (first last block : State) (middle : List State) :
    cipher.decrypt last (middle.map cipher.unmix).reverse first
      (cipher.encrypt first middle last block) = block := by
  rw [decrypt, encrypt, cipher.xor_xor, cipher.unrounds_rounds, cipher.unsub_sub, cipher.xor_xor]

end RoundCipher

end Ct.Lib
