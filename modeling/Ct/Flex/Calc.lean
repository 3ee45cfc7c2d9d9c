set_option autoImplicit false

namespace Ct.Flex.Calc

/-- The tokens of an expression, with the value of a `NUMBER`. -/
inductive Token
  | number (n : Int)
  | add
  | sub
  | mul
  | div
  | lop
  | rop
  | abs
  deriving DecidableEq

mutual

/-- The derivations from `exp`. -/
inductive Exp
  | factor (f : Factor)
  | add (e : Exp) (f : Factor)
  | sub (e : Exp) (f : Factor)

/-- The derivations from `factor`. -/
inductive Factor
  | term (t : Term)
  | mul (f : Factor) (t : Term)
  | div (f : Factor) (t : Term)

/-- The derivations from `term`. -/
inductive Term
  | number (n : Int)
  | abs (e : Exp)
  | paren (e : Exp)

end

mutual

/-- What is derived. -/
def Exp.tokens : Exp → List Token
  | .factor f => f.tokens
  | .add e f => e.tokens ++ .add :: f.tokens
  | .sub e f => e.tokens ++ .sub :: f.tokens

def Factor.tokens : Factor → List Token
  | .term t => t.tokens
  | .mul f t => f.tokens ++ .mul :: t.tokens
  | .div f t => f.tokens ++ .div :: t.tokens

def Term.tokens : Term → List Token
  | .number n => [.number n]
  | .abs e => .abs :: (e.tokens ++ [.abs])
  | .paren e => .lop :: (e.tokens ++ [.rop])

end

/-- `$1 / $3`, which has no value for a divisor 0. -/
def divide (a b : Int) : Option Int := if b = 0 then none else some (a.tdiv b)

mutual

/-- What the actions compute. -/
def Exp.value : Exp → Option Int
  | .factor f => f.value
  | .add e f => do
    let a ← e.value
    let b ← f.value
    pure (a + b)
  | .sub e f => do
    let a ← e.value
    let b ← f.value
    pure (a - b)

def Factor.value : Factor → Option Int
  | .term t => t.value
  | .mul f t => do
    let a ← f.value
    let b ← t.value
    pure (a * b)
  | .div f t => do
    let a ← f.value
    let b ← t.value
    divide a b

def Term.value : Term → Option Int
  | .number n => some n
  | .abs e => do
    let a ← e.value
    pure (if a > 0 then a else -a)
  | .paren e => e.value

end

end Ct.Flex.Calc
