import Ct.Flex.CalcReading

set_option autoImplicit false

namespace Ct.Flex.Calc

/-- An expression and a factor behind it. -/
def Chain.loose (chain : Chain) (op : Op) (factor : Chain) : Chain :=
  ⟨chain.first, chain.rest ++ (op, factor.first) :: factor.rest⟩

/-- A factor and a term behind it. -/
def Chain.tight (chain : Chain) (op : Op) (a : Operand) : Chain :=
  ⟨chain.first, chain.rest ++ [(op, a)]⟩

mutual

/-- The operands and operators of a derivation. -/
def Exp.chain : Exp → Chain
  | .factor f => f.chain
  | .add e f => e.chain.loose .add f.chain
  | .sub e f => e.chain.loose .sub f.chain

def Factor.chain : Factor → Chain
  | .term t => ⟨t.operand, []⟩
  | .mul f t => f.chain.tight .mul t.operand
  | .div f t => f.chain.tight .div t.operand

def Term.operand : Term → Operand
  | .number n => .number n
  | .abs e => .bars e.chain.first e.chain.rest
  | .paren e => .parens e.chain.first e.chain.rest

end

theorem tailTokens_append (front : List (Op × Operand)) (op : Op) (a : Operand)
    (rest : List (Op × Operand)) :
    tailTokens (front ++ (op, a) :: rest) =
      tailTokens front ++ op.token :: (a.tokens ++ tailTokens rest) := by
  induction front with
  | nil => rw [List.nil_append, tailTokens, tailTokens, List.nil_append]
  | cons part front ih =>
    obtain ⟨op', b⟩ := part
    rw [List.cons_append, tailTokens, tailTokens, ih, List.cons_append, List.append_assoc]

theorem Chain.tokens_loose (chain : Chain) (op : Op) (factor : Chain) :
    (chain.loose op factor).tokens = chain.tokens ++ op.token :: factor.tokens := by
  rw [tokens, loose, tailTokens_append, ← List.append_assoc]
  rfl

theorem Chain.tokens_tight (chain : Chain) (op : Op) (a : Operand) :
    (chain.tight op a).tokens = chain.tokens ++ op.token :: a.tokens := by
  rw [tokens, tight, tailTokens_append, ← List.append_assoc, tailTokens, List.append_nil]
  rfl

mutual

theorem Exp.tokens_chain : ∀ e : Exp, e.chain.tokens = e.tokens
  | .factor f => by
    rw [Exp.chain, Exp.tokens, f.tokens_chain]
  | .add e f => by
    rw [Exp.chain, Exp.tokens, Chain.tokens_loose, e.tokens_chain, f.tokens_chain, Op.token]
  | .sub e f => by
    rw [Exp.chain, Exp.tokens, Chain.tokens_loose, e.tokens_chain, f.tokens_chain, Op.token]

theorem Factor.tokens_chain : ∀ f : Factor, f.chain.tokens = f.tokens
  | .term t => by
    rw [Factor.chain, Factor.tokens, Chain.tokens, t.tokens_operand, tailTokens, List.append_nil]
  | .mul f t => by
    rw [Factor.chain, Factor.tokens, Chain.tokens_tight, f.tokens_chain, t.tokens_operand, Op.token]
  | .div f t => by
    rw [Factor.chain, Factor.tokens, Chain.tokens_tight, f.tokens_chain, t.tokens_operand, Op.token]

theorem Term.tokens_operand : ∀ t : Term, t.operand.tokens = t.tokens
  | .number n => by
    rw [Term.operand, Term.tokens, Operand.tokens]
  | .abs e => by
    rw [Term.operand, Term.tokens, Operand.tokens, ← e.tokens_chain, Chain.tokens,
      List.append_assoc]
  | .paren e => by
    rw [Term.operand, Term.tokens, Operand.tokens, ← e.tokens_chain, Chain.tokens,
      List.append_assoc]

end

/-- An operator that binds tighter. -/
def Op.Tight (op : Op) : Prop := op = .mul ∨ op = .div

theorem Factor.tight : ∀ (f : Factor), ∀ part ∈ f.chain.rest, part.1.Tight
  | .term t => fun part member => absurd member List.not_mem_nil
  | .mul f t => by
    intro part member
    rcases List.mem_append.mp member with before | last
    · exact f.tight part before
    · rw [List.mem_singleton.mp last]
      exact Or.inl rfl
  | .div f t => by
    intro part member
    rcases List.mem_append.mp member with before | last
    · exact f.tight part before
    · rw [List.mem_singleton.mp last]
      exact Or.inr rfl

/-- The last operator that does not bind tighter parts a text in one way. -/
theorem last_loose_unique {α : Type} {op op' : Op} {a a' : α} (loose : ¬ op.Tight)
    (loose' : ¬ op'.Tight) (front : List (Op × α)) :
    ∀ {front' rest rest' : List (Op × α)}, (∀ part ∈ rest, part.1.Tight) →
      (∀ part ∈ rest', part.1.Tight) → front ++ (op, a) :: rest = front' ++ (op', a') :: rest' →
      front = front' ∧ op = op' ∧ a = a' ∧ rest = rest' := by
  induction front with
  | nil =>
    intro front' rest rest' tight tight' same
    cases front' with
    | nil =>
      cases same
      exact ⟨rfl, rfl, rfl, rfl⟩
    | cons part front' =>
      simp only [List.nil_append, List.cons_append, List.cons.injEq] at same
      rw [same.2] at tight
      exact absurd (tight (op', a') (List.mem_append_right _ (List.mem_cons_self ..))) loose'
  | cons part front ih =>
    intro front' rest rest' tight tight' same
    cases front' with
    | nil =>
      simp only [List.nil_append, List.cons_append, List.cons.injEq] at same
      rw [← same.2] at tight'
      exact absurd (tight' (op, a) (List.mem_append_right _ (List.mem_cons_self ..))) loose
    | cons part' front' =>
      simp only [List.cons_append, List.cons.injEq] at same
      obtain ⟨rfl, others⟩ := same
      obtain ⟨rfl, rest⟩ := ih tight tight' others
      exact ⟨rfl, rest⟩

theorem Chain.loose_unique {c c' : Chain} {op op' : Op} {f f' : Factor} (loose : ¬ op.Tight)
    (loose' : ¬ op'.Tight) (same : c.loose op f.chain = c'.loose op' f'.chain) :
    c = c' ∧ op = op' ∧ f.chain = f'.chain := by
  obtain ⟨first, rest⟩ := c
  obtain ⟨first', rest'⟩ := c'
  simp only [Chain.loose, Chain.mk.injEq] at same
  obtain ⟨rfl, same⟩ := same
  obtain ⟨rfl, rfl, firsts, rests⟩ := last_loose_unique loose loose' rest f.tight f'.tight same
  refine ⟨rfl, rfl, ?_⟩
  rw [show f.chain = ⟨f.chain.first, f.chain.rest⟩ from rfl, firsts, rests]

theorem Factor.chain_ne_loose (f : Factor) (c : Chain) {op : Op} (loose : ¬ op.Tight)
    (factor : Chain) : f.chain ≠ c.loose op factor := by
  intro same
  apply loose
  apply f.tight (op, factor.first)
  rw [same]
  exact List.mem_append_right _ (List.mem_cons_self ..)

theorem Chain.tight_unique {c c' : Chain} {op op' : Op} {a a' : Operand}
    (same : c.tight op a = c'.tight op' a') : c = c' ∧ op = op' ∧ a = a' := by
  obtain ⟨first, rest⟩ := c
  obtain ⟨first', rest'⟩ := c'
  simp only [Chain.tight, Chain.mk.injEq] at same
  obtain ⟨rfl, same⟩ := same
  obtain ⟨rfl, last⟩ := List.append_inj' same rfl
  cases last
  exact ⟨rfl, rfl, rfl⟩

theorem Term.chain_ne_tight (t : Term) (c : Chain) (op : Op) (a : Operand) :
    (Factor.term t).chain ≠ c.tight op a := by
  intro same
  have rests := congrArg Chain.rest same
  exact absurd rests.symm (List.append_ne_nil_of_right_ne_nil _ (List.cons_ne_nil _ _))

theorem add_loose : ¬ Op.Tight .add := by simp [Op.Tight]

theorem sub_loose : ¬ Op.Tight .sub := by simp [Op.Tight]

mutual

/-- Operands and operators are derived in one way. -/
theorem Exp.chain_unique : ∀ e e' : Exp, e.chain = e'.chain → e = e'
  | .factor f, .factor f' => fun same => by
    rw [f.chain_unique f' same]
  | .factor f, .add e' f' => fun same => absurd same (f.chain_ne_loose e'.chain add_loose f'.chain)
  | .factor f, .sub e' f' => fun same => absurd same (f.chain_ne_loose e'.chain sub_loose f'.chain)
  | .add e f, .factor f' => fun same =>
    absurd same.symm (f'.chain_ne_loose e.chain add_loose f.chain)
  | .sub e f, .factor f' => fun same =>
    absurd same.symm (f'.chain_ne_loose e.chain sub_loose f.chain)
  | .add e f, .add e' f' => fun same => by
    obtain ⟨front, _, back⟩ := Chain.loose_unique add_loose add_loose same
    rw [e.chain_unique e' front, f.chain_unique f' back]
  | .sub e f, .sub e' f' => fun same => by
    obtain ⟨front, _, back⟩ := Chain.loose_unique sub_loose sub_loose same
    rw [e.chain_unique e' front, f.chain_unique f' back]
  | .add e f, .sub e' f' => fun same => by
    obtain ⟨_, ops, _⟩ := Chain.loose_unique add_loose sub_loose same
    cases ops
  | .sub e f, .add e' f' => fun same => by
    obtain ⟨_, ops, _⟩ := Chain.loose_unique sub_loose add_loose same
    cases ops

theorem Factor.chain_unique : ∀ f f' : Factor, f.chain = f'.chain → f = f'
  | .term t, .term t' => fun same => by
    rw [t.operand_unique t' (congrArg Chain.first same)]
  | .term t, .mul f' t' => fun same => absurd same (t.chain_ne_tight f'.chain .mul t'.operand)
  | .term t, .div f' t' => fun same => absurd same (t.chain_ne_tight f'.chain .div t'.operand)
  | .mul f t, .term t' => fun same => absurd same.symm (t'.chain_ne_tight f.chain .mul t.operand)
  | .div f t, .term t' => fun same => absurd same.symm (t'.chain_ne_tight f.chain .div t.operand)
  | .mul f t, .mul f' t' => fun same => by
    obtain ⟨front, _, back⟩ := Chain.tight_unique same
    rw [f.chain_unique f' front, t.operand_unique t' back]
  | .div f t, .div f' t' => fun same => by
    obtain ⟨front, _, back⟩ := Chain.tight_unique same
    rw [f.chain_unique f' front, t.operand_unique t' back]
  | .mul f t, .div f' t' => fun same => by
    obtain ⟨_, ops, _⟩ := Chain.tight_unique same
    cases ops
  | .div f t, .mul f' t' => fun same => by
    obtain ⟨_, ops, _⟩ := Chain.tight_unique same
    cases ops

theorem Term.operand_unique : ∀ t t' : Term, t.operand = t'.operand → t = t'
  | .number n, .number n' => fun same => by
    cases same
    rfl
  | .abs e, .abs e' => fun same => by
    rw [e.chain_unique e' (by simpa [Term.operand, Chain.ext_iff] using same)]
  | .paren e, .paren e' => fun same => by
    rw [e.chain_unique e' (by simpa [Term.operand, Chain.ext_iff] using same)]
  | .number n, .abs e' => fun same => by cases same
  | .number n, .paren e' => fun same => by cases same
  | .abs e, .number n' => fun same => by cases same
  | .abs e, .paren e' => fun same => by cases same
  | .paren e, .number n' => fun same => by cases same
  | .paren e, .abs e' => fun same => by cases same

end

/-- What is left of a chain after its multiplications and divisions. -/
def Chain.parts (chain : Chain) : Option (Int × List (Op × Int)) := do
  let a ← chain.first.value
  let values ← tailValues chain.rest
  products a values

theorem Chain.value_eq (chain : Chain) :
    chain.value = chain.parts.map fun part => sums part.1 part.2 := by
  rw [value, parts]
  cases chain.first.value with
  | none => rfl
  | some a =>
    cases tailValues chain.rest with
    | none => rfl
    | some values =>
      cases left : products a values with
      | none => simp [conventional, left]
      | some part => simp [conventional, left]

theorem products_loose {op : Op} (loose : ¬ op.Tight) (b : Int) (rest front : List (Op × Int)) :
    ∀ a, products a (front ++ (op, b) :: rest) = (do
      let (x, before) ← products a front
      let (y, behind) ← products b rest
      pure (x, before ++ (op, y) :: behind)) := by
  induction front with
  | nil =>
    intro a
    cases op with
    | add => rfl
    | sub => rfl
    | mul => exact absurd (Or.inl rfl) loose
    | div => exact absurd (Or.inr rfl) loose
  | cons part front ih =>
    intro a
    obtain ⟨op', c⟩ := part
    cases op' with
    | mul =>
      rw [List.cons_append, products, products, ih]
    | div =>
      rw [List.cons_append, products, products]
      cases divide a c with
      | none => rfl
      | some q => exact ih q
    | add =>
      rw [List.cons_append, products, products, ih]
      cases products c front with
      | none => rfl
      | some part =>
        cases products b rest with
        | none => rfl
        | some part' => rfl
    | sub =>
      rw [List.cons_append, products, products, ih]
      cases products c front with
      | none => rfl
      | some part =>
        cases products b rest with
        | none => rfl
        | some part' => rfl

/-- `op` on two numbers, where it binds tighter. -/
def Op.apply (op : Op) (a b : Int) : Option Int := if op = .div then divide a b else some (a * b)

/-- Operators that bind tighter leave one number. -/
theorem products_tight {op : Op} (tight : op.Tight) (b : Int) (front : List (Op × Int)) :
    ∀ a, (∀ part ∈ front, part.1.Tight) →
      products a (front ++ [(op, b)]) = (do
        let (x, before) ← products a front
        let y ← op.apply x b
        pure (y, before)) := by
  induction front with
  | nil =>
    intro a _
    rcases tight with rfl | rfl
    · rfl
    · rfl
  | cons part front ih =>
    intro a all
    obtain ⟨here, others⟩ := List.forall_mem_cons.mp all
    obtain ⟨op', c⟩ := part
    rcases here with rfl | rfl
    · rw [List.cons_append, products, products, ih _ others]
    · rw [List.cons_append, products, products]
      cases divide a c with
      | none => rfl
      | some q => exact ih q others

theorem tailValues_append (front : List (Op × Operand)) (op : Op) (a : Operand)
    (rest : List (Op × Operand)) :
    tailValues (front ++ (op, a) :: rest) = (do
      let before ← tailValues front
      let b ← a.value
      let behind ← tailValues rest
      pure (before ++ (op, b) :: behind)) := by
  induction front with
  | nil =>
    rw [List.nil_append, tailValues, tailValues]
    rfl
  | cons part front ih =>
    obtain ⟨op', c⟩ := part
    rw [List.cons_append, tailValues, tailValues, ih]
    cases c.value with
    | none => rfl
    | some x =>
      cases tailValues front with
      | none => rfl
      | some before =>
        cases a.value with
        | none => rfl
        | some y =>
          cases tailValues rest with
          | none => rfl
          | some behind => rfl

theorem tailValues_tight {rest : List (Op × Operand)} :
    ∀ {values : List (Op × Int)}, (∀ part ∈ rest, part.1.Tight) → tailValues rest = some values →
      ∀ part ∈ values, part.1.Tight := by
  induction rest with
  | nil =>
    intro values _ same part member
    cases same
    cases member
  | cons part rest ih =>
    intro values all same
    obtain ⟨here, others⟩ := List.forall_mem_cons.mp all
    obtain ⟨op, a⟩ := part
    obtain ⟨b, _, same⟩ := Option.bind_eq_some_iff.mp same
    obtain ⟨behind, rests, same⟩ := Option.bind_eq_some_iff.mp same
    cases same
    exact List.forall_mem_cons.mpr ⟨here, ih others rests⟩

theorem Chain.parts_loose {op : Op} (loose : ¬ op.Tight) (c factor : Chain) :
    (c.loose op factor).parts = (do
      let (x, before) ← c.parts
      let (y, behind) ← factor.parts
      pure (x, before ++ (op, y) :: behind)) := by
  rw [parts, parts, parts, Chain.loose, tailValues_append]
  cases c.first.value with
  | none => rfl
  | some a =>
    cases tailValues c.rest with
    | none => rfl
    | some before =>
      cases factor.first.value with
      | none => cases left : products a before <;> simp [left]
      | some b =>
        cases tailValues factor.rest with
        | none => cases left : products a before <;> simp [left]
        | some behind => exact products_loose loose b behind before a

theorem Chain.parts_tight {op : Op} (tight : op.Tight) {c : Chain}
    (all : ∀ part ∈ c.rest, part.1.Tight) (a : Operand) :
    (c.tight op a).parts = (do
      let (x, before) ← c.parts
      let b ← a.value
      let y ← op.apply x b
      pure (y, before)) := by
  rw [parts, parts, Chain.tight, tailValues_append]
  cases c.first.value with
  | none => rfl
  | some x =>
    cases values : tailValues c.rest with
    | none => rfl
    | some before =>
      cases a.value with
      | none => cases left : products x before <;> simp [left]
      | some b => exact products_tight tight b before x (tailValues_tight all values)

theorem sums_append (op : Op) (b : Int) (front : List (Op × Int)) :
    ∀ a, sums a (front ++ [(op, b)]) = if op = .sub then sums a front - b else sums a front + b := by
  induction front with
  | nil =>
    intro a
    cases op <;> rfl
  | cons part front ih =>
    intro a
    obtain ⟨op', c⟩ := part
    cases op' <;> exact ih _

mutual

theorem Exp.value_chain : ∀ e : Exp, e.chain.value = e.value
  | .factor f => by
    rw [Exp.chain, Exp.value, Chain.value_eq, f.parts_chain]
    cases f.value <;> rfl
  | .add e f => by
    rw [Exp.chain, Exp.value, Chain.value_eq, Chain.parts_loose add_loose, f.parts_chain,
      ← e.value_chain, Chain.value_eq]
    cases e.chain.parts with
    | none => rfl
    | some part =>
      cases f.value with
      | none => rfl
      | some b => exact congrArg some (sums_append .add b part.2 part.1)
  | .sub e f => by
    rw [Exp.chain, Exp.value, Chain.value_eq, Chain.parts_loose sub_loose, f.parts_chain,
      ← e.value_chain, Chain.value_eq]
    cases e.chain.parts with
    | none => rfl
    | some part =>
      cases f.value with
      | none => rfl
      | some b => exact congrArg some (sums_append .sub b part.2 part.1)

theorem Factor.parts_chain : ∀ f : Factor, f.chain.parts = f.value.map fun a => (a, [])
  | .term t => by
    rw [Factor.chain, Factor.value, ← t.value_operand, Chain.parts, tailValues]
    cases t.operand.value <;> rfl
  | .mul f t => by
    rw [Factor.chain, Factor.value, Chain.parts_tight (Or.inl rfl) f.tight, f.parts_chain,
      t.value_operand]
    cases f.value with
    | none => rfl
    | some a => cases t.value <;> rfl
  | .div f t => by
    rw [Factor.chain, Factor.value, Chain.parts_tight (Or.inr rfl) f.tight, f.parts_chain,
      t.value_operand]
    cases f.value with
    | none => rfl
    | some a =>
      cases t.value with
      | none => rfl
      | some b => cases divided : divide a b <;> simp [Op.apply, divided]

theorem Term.value_operand : ∀ t : Term, t.operand.value = t.value
  | .number n => by
    rw [Term.operand, Term.value, Operand.value]
  | .abs e => by
    have absolute : ∀ a : Int, (a.natAbs : Int) = if a > 0 then a else -a := by
      intro a
      omega
    simp only [Term.operand, Term.value, Operand.value, ← e.value_chain, Chain.value, absolute,
      bind_assoc]
  | .paren e => by
    rw [Term.operand, Term.value, Operand.value, ← e.value_chain, Chain.value]

end

/-- A token sequence has one derivation at most, and what the actions compute for it is the value of
the one chain of operands and operators that it spells. -/
theorem derivations_unique_conventional :
    Function.Injective Exp.tokens ∧
      ∀ e : Exp, ∃ chain : Chain, chain.tokens = e.tokens ∧
        (∀ other : Chain, other.tokens = e.tokens → other = chain) ∧ e.value = chain.value := by
  constructor
  · intro e e' same
    rw [← e.tokens_chain, ← e'.tokens_chain] at same
    exact e.chain_unique e' (Chain.tokens_unique same)
  · intro e
    refine ⟨e.chain, e.tokens_chain, ?_, e.value_chain.symm⟩
    intro other same
    rw [← e.tokens_chain] at same
    exact Chain.tokens_unique same

end Ct.Flex.Calc
