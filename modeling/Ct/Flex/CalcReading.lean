import Ct.Flex.Calc

set_option autoImplicit false

namespace Ct.Flex.Calc

inductive Op
  | add
  | sub
  | mul
  | div
  deriving DecidableEq

def Op.token : Op → Token
  | .add => .add
  | .sub => .sub
  | .mul => .mul
  | .div => .div

/-- An operand as arithmetic reads it: a number, or operands with operators between them in a pair
of bars or parentheses. -/
inductive Operand
  | number (n : Int)
  | bars (first : Operand) (rest : List (Op × Operand))
  | parens (first : Operand) (rest : List (Op × Operand))

/-- Operands with operators between them. -/
@[ext]
structure Chain where
  first : Operand
  rest : List (Op × Operand)

mutual

def Operand.tokens : Operand → List Token
  | .number n => [.number n]
  | .bars first rest => .abs :: (first.tokens ++ (tailTokens rest ++ [.abs]))
  | .parens first rest => .lop :: (first.tokens ++ (tailTokens rest ++ [.rop]))

def tailTokens : List (Op × Operand) → List Token
  | [] => []
  | (op, a) :: rest => op.token :: (a.tokens ++ tailTokens rest)

end

def Chain.tokens (chain : Chain) : List Token := chain.first.tokens ++ tailTokens chain.rest

/-- Multiply and divide, from the left. What is left are the operands of `+` and `-`. -/
def products : Int → List (Op × Int) → Option (Int × List (Op × Int))
  | a, [] => some (a, [])
  | a, (.mul, b) :: rest => products (a * b) rest
  | a, (.div, b) :: rest => do
    let q ← divide a b
    products q rest
  | a, (.add, b) :: rest => do
    let (b, rest) ← products b rest
    pure (a, (.add, b) :: rest)
  | a, (.sub, b) :: rest => do
    let (b, rest) ← products b rest
    pure (a, (.sub, b) :: rest)

/-- Add and subtract, from the left. -/
def sums : Int → List (Op × Int) → Int
  | a, [] => a
  | a, (.sub, b) :: rest => sums (a - b) rest
  | a, (_, b) :: rest => sums (a + b) rest

/-- Multiplications and divisions come first, then additions and subtractions. -/
def conventional (a : Int) (rest : List (Op × Int)) : Option Int := do
  let (a, rest) ← products a rest
  pure (sums a rest)

mutual

def Operand.value : Operand → Option Int
  | .number n => some n
  | .bars first rest => do
    let a ← first.value
    let values ← tailValues rest
    let b ← conventional a values
    pure (b.natAbs : Int)
  | .parens first rest => do
    let a ← first.value
    let values ← tailValues rest
    conventional a values

def tailValues : List (Op × Operand) → Option (List (Op × Int))
  | [] => some []
  | (op, a) :: rest => do
    let b ← a.value
    let values ← tailValues rest
    pure ((op, b) :: values)

end

/-- The value of conventional arithmetic. -/
def Chain.value (chain : Chain) : Option Int := do
  let a ← chain.first.value
  let values ← tailValues chain.rest
  conventional a values

theorem Op.token_injective {op op' : Op} (same : op.token = op'.token) : op = op' := by
  cases op <;> cases op' <;> first | rfl | cases same

/-- No operator comes next: an expression ends here. -/
def Ends (after : List Token) : Prop := ∀ op : Op, after.head? ≠ some op.token

theorem ends_nil : Ends [] := fun _ same => by cases same

theorem ends_abs (after : List Token) : Ends (.abs :: after) := by
  intro op same
  cases op <;> cases same

theorem ends_rop (after : List Token) : Ends (.rop :: after) := by
  intro op same
  cases op <;> cases same

mutual

/-- Where an operand is due, a bar opens, and where one has been read, a bar closes: there is one
way to read an operand. -/
theorem Operand.tokens_unique : ∀ (a b : Operand) (after behind : List Token),
    a.tokens ++ after = b.tokens ++ behind → a = b ∧ after = behind
  | .number n, b, after, behind => by
    intro same
    cases b with
    | number m =>
      simp only [Operand.tokens, List.cons_append, List.nil_append, List.cons.injEq,
        Token.number.injEq] at same
      obtain ⟨rfl, rfl⟩ := same
      exact ⟨rfl, rfl⟩
    | bars first rest => simp [Operand.tokens] at same
    | parens first rest => simp [Operand.tokens] at same
  | .bars first rest, b, after, behind => by
    intro same
    cases b with
    | number m => simp [Operand.tokens] at same
    | bars first' rest' =>
      simp only [Operand.tokens, List.cons_append, List.append_assoc, List.cons.injEq,
        true_and] at same
      obtain ⟨rfl, tails⟩ := Operand.tokens_unique first first' _ _ same
      obtain ⟨rfl, closed⟩ := tailTokens_unique rest rest' _ _ (ends_abs _) (ends_abs _) tails
      exact ⟨rfl, (List.cons.inj closed).2⟩
    | parens first' rest' => simp [Operand.tokens] at same
  | .parens first rest, b, after, behind => by
    intro same
    cases b with
    | number m => simp [Operand.tokens] at same
    | bars first' rest' => simp [Operand.tokens] at same
    | parens first' rest' =>
      simp only [Operand.tokens, List.cons_append, List.append_assoc, List.cons.injEq,
        true_and] at same
      obtain ⟨rfl, tails⟩ := Operand.tokens_unique first first' _ _ same
      obtain ⟨rfl, closed⟩ := tailTokens_unique rest rest' _ _ (ends_rop _) (ends_rop _) tails
      exact ⟨rfl, (List.cons.inj closed).2⟩

theorem tailTokens_unique : ∀ (rest rest' : List (Op × Operand)) (after behind : List Token),
    Ends after → Ends behind → tailTokens rest ++ after = tailTokens rest' ++ behind →
      rest = rest' ∧ after = behind
  | [], [], after, behind => by
    intro _ _ same
    exact ⟨rfl, same⟩
  | [], (op, b) :: rest', after, behind => by
    intro ends _ same
    have head := congrArg List.head? same
    exact absurd head (ends op)
  | (op, a) :: rest, [], after, behind => by
    intro _ ends same
    have head := congrArg List.head? same
    exact absurd head.symm (ends op)
  | (op, a) :: rest, (op', b) :: rest', after, behind => by
    intro ends ends' same
    simp only [tailTokens, List.cons_append, List.append_assoc, List.cons.injEq] at same
    obtain ⟨ops, same⟩ := same
    obtain ⟨rfl, tails⟩ := Operand.tokens_unique a b _ _ same
    obtain ⟨rfl, closed⟩ := tailTokens_unique rest rest' _ _ ends ends' tails
    rw [Op.token_injective ops]
    exact ⟨rfl, closed⟩

end

/-- There is one way to read a text. -/
theorem Chain.tokens_unique {chain chain' : Chain} (same : chain.tokens = chain'.tokens) :
    chain = chain' := by
  obtain ⟨first, rest⟩ := chain
  obtain ⟨first', rest'⟩ := chain'
  obtain ⟨rfl, tails⟩ := Operand.tokens_unique first first' _ _ same
  rw [← List.append_nil (tailTokens rest), ← List.append_nil (tailTokens rest')] at tails
  obtain ⟨rfl, _⟩ := tailTokens_unique rest rest' [] [] ends_nil ends_nil tails
  rfl

end Ct.Flex.Calc
