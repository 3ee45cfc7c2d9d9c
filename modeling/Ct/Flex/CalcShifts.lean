import Ct.Flex.CalcParser
import Mathlib.Data.List.Basic

set_option autoImplicit false

namespace Ct.Flex.Calc

open Ct.Lib

/-- A `term` is due: the stack does not end with an operand. -/
def TermDue : List Symbol → Prop
  | .exp _ :: _ | .factor _ :: _ => False
  | _ => True

/-- A `factor` is due. -/
def FactorDue : List Symbol → Prop
  | .mul :: _ | .div :: _ => False
  | stack => TermDue stack

/-- An `exp` is due: at the start of a line, or behind a parenthesis or a bar that opens. -/
def ExpDue : List Symbol → Prop
  | .add :: _ | .sub :: _ => False
  | stack => FactorDue stack

def feedAll (stack : List Symbol) (tokens : List Token) : Except Stop (List Symbol) :=
  tokens.foldlM feed stack

section Due

variable {stack : List Symbol}

theorem ExpDue.factor (due : ExpDue stack) : FactorDue stack := by
  cases stack with
  | nil => trivial
  | cons symbol stack =>
    cases symbol with
    | add => exact due.elim
    | sub => exact due.elim
    | _ => exact due

theorem FactorDue.term (due : FactorDue stack) : TermDue stack := by
  cases stack with
  | nil => trivial
  | cons symbol stack =>
    cases symbol with
    | mul => exact due.elim
    | div => exact due.elim
    | _ => exact due

/-- Where a term is due nothing is reduced, and the tokens with which a term starts are shifted. -/
theorem TermDue.shifts (due : TermDue stack) :
    reduceFactor stack = .ok stack ∧ (∀ n, shift stack (.number n) = reduceTerm n stack) ∧
      shift stack .lop = .ok (.lop :: stack) ∧ shift stack .abs = .ok (.abs :: stack) := by
  cases stack with
  | nil => exact ⟨rfl, fun _ => rfl, rfl, rfl⟩
  | cons symbol stack =>
    cases symbol with
    | exp v => exact due.elim
    | factor v => exact due.elim
    | _ => exact ⟨rfl, fun _ => rfl, rfl, rfl⟩

theorem FactorDue.reduceTerm (due : FactorDue stack) (v : Int) :
    reduceTerm v stack = .ok (.factor v :: stack) := by
  cases stack with
  | nil => rfl
  | cons symbol stack =>
    cases symbol with
    | mul => exact due.elim
    | div => exact due.elim
    | _ => rfl

theorem ExpDue.reduceFactor (due : ExpDue stack) (v : Int) :
    Calc.reduceFactor (.factor v :: stack) = .ok (.exp v :: stack) := by
  cases stack with
  | nil => rfl
  | cons symbol stack =>
    cases symbol with
    | add => exact due.elim
    | sub => exact due.elim
    | _ => rfl

end Due

/-- For a lookahead other than `MUL` and `DIV` the factor on the stack is reduced first. -/
theorem feed_other {t : Token} (notMul : t ≠ .mul) (notDiv : t ≠ .div) (plain : t.read = .ok t)
    (stack : List Symbol) : feed stack t = reduceFactor stack >>= fun stack => shift stack t := by
  rw [feed, plain]
  cases t with
  | mul => exact absurd rfl notMul
  | div => exact absurd rfl notDiv
  | _ => rfl

theorem feed_number (stack : List Symbol) (n : Int) :
    feed stack (.number n) =
      checked n >>= fun n => reduceFactor stack >>= fun stack => shift stack (.number n) := by
  rw [feed, Token.read]
  cases checked n with
  | error stop => rfl
  | ok n => rfl

theorem feedAll_append (stack : List Symbol) (front rest : List Token) :
    feedAll stack (front ++ rest) = feedAll stack front >>= fun stack => feedAll stack rest :=
  List.foldlM_append

theorem feedAll_cons (stack : List Symbol) (t : Token) (rest : List Token) :
    feedAll stack (t :: rest) = feed stack t >>= fun stack => feedAll stack rest :=
  List.foldlM_cons

theorem feedAll_singleton (stack : List Symbol) (t : Token) :
    feedAll stack [t] = feed stack t := by
  rw [feedAll_cons]
  exact bind_pure (feed stack t)

section Parts

variable {stack : List Symbol} {front back tokens : List Token}
  {first second value : Except Stop Int} (t : Token) (symbol : Symbol)

/-- A factor behind an expression and `ADD` or `SUB`. -/
theorem feedAll_loose (lookahead : ∀ st, feed st t = reduceFactor st >>= fun st => shift st t)
    (shifted : ∀ u, shift (.exp u :: stack) t = .ok (symbol :: .exp u :: stack))
    (left : feedAll stack front >>= reduceFactor = first >>= fun u => .ok (.exp u :: stack))
    (right : ∀ u, feedAll (symbol :: .exp u :: stack) back =
      second >>= fun v => .ok (.factor v :: symbol :: .exp u :: stack)) :
    feedAll stack (front ++ t :: back) >>= reduceFactor =
      first >>= fun u => second >>= fun v =>
        reduceFactor (.factor v :: symbol :: .exp u :: stack) := by
  calc
    _ = (feedAll stack front >>= reduceFactor) >>= fun st =>
        shift st t >>= fun st => feedAll st back >>= reduceFactor := by
      rw [feedAll_append, bind_assoc, bind_assoc]
      congr 1
      funext st
      rw [feedAll_cons, lookahead, bind_assoc, bind_assoc]
    _ = first >>= fun u => feedAll (symbol :: .exp u :: stack) back >>= reduceFactor := by
      rw [left, bind_assoc]
      congr 1
      funext u
      change (shift (.exp u :: stack) t >>= fun st => feedAll st back >>= reduceFactor) = _
      rw [shifted]
      rfl
    _ = _ := by
      congr 1
      funext u
      rw [right, bind_assoc]
      rfl

/-- A term behind a factor and `MUL` or `DIV`. -/
theorem feedAll_tight
    (shifted : ∀ u, feed (.factor u :: stack) t = .ok (symbol :: .factor u :: stack))
    (left : feedAll stack front = first >>= fun u => .ok (.factor u :: stack))
    (right : ∀ u, feedAll (symbol :: .factor u :: stack) back =
      second >>= fun v => reduceTerm v (symbol :: .factor u :: stack)) :
    feedAll stack (front ++ t :: back) =
      first >>= fun u => second >>= fun v => reduceTerm v (symbol :: .factor u :: stack) := by
  rw [feedAll_append, left, bind_assoc]
  congr 1
  funext u
  change feedAll (.factor u :: stack) (t :: back) = _
  rw [feedAll_cons, shifted]
  exact right u

/-- An expression between two bars or parentheses. -/
theorem feedAll_enclosed {t : Token} (close : Token) {symbol : Symbol}
    (opened : feed stack t = .ok (symbol :: stack))
    (lookahead : ∀ st, feed st close = reduceFactor st >>= fun st => shift st close)
    (inside : feedAll (symbol :: stack) tokens >>= reduceFactor =
      value >>= fun v => .ok (.exp v :: symbol :: stack)) :
    feedAll stack (t :: (tokens ++ [close])) =
      value >>= fun v => shift (.exp v :: symbol :: stack) close := by
  calc
    _ = (feedAll (symbol :: stack) tokens >>= reduceFactor) >>= fun st => shift st close := by
      rw [feedAll_cons, opened, bind_assoc]
      change feedAll (symbol :: stack) (tokens ++ [close]) = _
      rw [feedAll_append]
      congr 1
      funext st
      rw [feedAll_singleton, lookahead]
    _ = _ := by
      rw [inside, bind_assoc]
      rfl

end Parts

mutual

/-- The tokens of an expression leave its value on the stack, as soon as another token than `MUL`
and `DIV` follows. -/
theorem Exp.feedAll_tokens : ∀ (e : Exp) {stack : List Symbol}, ExpDue stack →
    feedAll stack e.tokens >>= reduceFactor = e.int >>= fun v => .ok (.exp v :: stack)
  | .factor f, stack => by
    intro due
    rw [Exp.tokens, f.feedAll_tokens due.factor, Exp.int, bind_assoc]
    congr 1
    funext v
    exact due.reduceFactor v
  | .add e f, stack => by
    intro due
    have added := feedAll_loose .add .add (feed_other (by decide) (by decide) rfl)
      (fun _ => rfl) (e.feedAll_tokens due)
      (fun u => f.feedAll_tokens trivial)
    rw [Exp.tokens, added, Exp.int, bind_assoc]
    congr 1
    funext u
    rw [bind_assoc]
    rfl
  | .sub e f, stack => by
    intro due
    have subtracted := feedAll_loose .sub .sub (feed_other (by decide) (by decide) rfl)
      (fun _ => rfl) (e.feedAll_tokens due)
      (fun u => f.feedAll_tokens trivial)
    rw [Exp.tokens, subtracted, Exp.int, bind_assoc]
    congr 1
    funext u
    rw [bind_assoc]
    rfl

theorem Factor.feedAll_tokens : ∀ (f : Factor) {stack : List Symbol}, FactorDue stack →
    feedAll stack f.tokens = f.int >>= fun v => .ok (.factor v :: stack)
  | .term t, stack => by
    intro due
    rw [Factor.tokens, t.feedAll_tokens due.term, Factor.int]
    congr 1
    funext v
    exact due.reduceTerm v
  | .mul f t, stack => by
    intro due
    have multiplied := feedAll_tight .mul .mul (fun _ => rfl)
      (f.feedAll_tokens due)
      (fun u => t.feedAll_tokens trivial)
    rw [Factor.tokens, multiplied, Factor.int, bind_assoc]
    congr 1
    funext u
    rw [bind_assoc]
    rfl
  | .div f t, stack => by
    intro due
    have divided := feedAll_tight .div .div (fun _ => rfl)
      (f.feedAll_tokens due)
      (fun u => t.feedAll_tokens trivial)
    rw [Factor.tokens, divided, Factor.int, bind_assoc]
    congr 1
    funext u
    rw [bind_assoc]
    rfl

theorem Term.feedAll_tokens : ∀ (t : Term) {stack : List Symbol}, TermDue stack →
    feedAll stack t.tokens = t.int >>= fun v => reduceTerm v stack
  | .number n, stack => by
    intro due
    obtain ⟨reduced, shifted, _⟩ := due.shifts
    rw [Term.tokens, feedAll_singleton, feed_number, Term.int]
    congr 1
    funext v
    rw [reduced]
    exact shifted v
  | .abs e, stack => by
    intro due
    obtain ⟨reduced, _, _, shifted⟩ := due.shifts
    have opened : feed stack .abs = .ok (.abs :: stack) := by
      rw [feed_other (by decide) (by decide) rfl, reduced]
      exact shifted
    have closed := feedAll_enclosed .abs opened
      (feed_other (by decide) (by decide) rfl)
      (e.feedAll_tokens trivial)
    rw [Term.tokens, closed, Term.int, bind_assoc]
    rfl
  | .paren e, stack => by
    intro due
    obtain ⟨reduced, _, shifted, _⟩ := due.shifts
    have opened : feed stack .lop = .ok (.lop :: stack) := by
      rw [feed_other (by decide) (by decide) rfl, reduced]
      exact shifted
    have closed := feedAll_enclosed .rop opened
      (feed_other (by decide) (by decide) rfl)
      (e.feedAll_tokens trivial)
    rw [Term.tokens, closed, Term.int]
    rfl

end

theorem checked_ok {v w : Int} (fits : checked v = .ok w) : v = w := by
  rw [checked] at fits
  split at fits
  · exact Except.ok.inj fits
  · cases fits

theorem quotient_ok {a b w : Int} (fits : quotient a b = .ok w) : divide a b = some w := by
  rw [quotient] at fits
  cases divided : divide a b with
  | none =>
    rw [divided] at fits
    cases fits
  | some q =>
    rw [divided] at fits
    rw [checked_ok fits]

mutual

/-- A value of type `int` is the value of the exact arithmetic. -/
theorem Exp.int_value : ∀ (e : Exp) {v : Int}, e.int = .ok v → e.value = some v
  | .factor f, v => fun ran => f.int_value ran
  | .add e f, v => by
    intro ran
    obtain ⟨a, left, ran⟩ := bind_ends ran
    obtain ⟨b, right, ran⟩ := bind_ends ran
    rw [Exp.value, e.int_value left, f.int_value right, ← checked_ok ran]
    rfl
  | .sub e f, v => by
    intro ran
    obtain ⟨a, left, ran⟩ := bind_ends ran
    obtain ⟨b, right, ran⟩ := bind_ends ran
    rw [Exp.value, e.int_value left, f.int_value right, ← checked_ok ran]
    rfl

theorem Factor.int_value : ∀ (f : Factor) {v : Int}, f.int = .ok v → f.value = some v
  | .term t, v => fun ran => t.int_value ran
  | .mul f t, v => by
    intro ran
    obtain ⟨a, left, ran⟩ := bind_ends ran
    obtain ⟨b, right, ran⟩ := bind_ends ran
    rw [Factor.value, f.int_value left, t.int_value right, ← checked_ok ran]
    rfl
  | .div f t, v => by
    intro ran
    obtain ⟨a, left, ran⟩ := bind_ends ran
    obtain ⟨b, right, ran⟩ := bind_ends ran
    rw [Factor.value, f.int_value left, t.int_value right]
    exact quotient_ok ran

theorem Term.int_value : ∀ (t : Term) {v : Int}, t.int = .ok v → t.value = some v
  | .number n, v => fun ran => congrArg some (checked_ok ran)
  | .abs e, v => by
    intro ran
    obtain ⟨a, inside, ran⟩ := bind_ends ran
    rw [Term.value, e.int_value inside, ← checked_ok ran]
    rfl
  | .paren e, v => fun ran => e.int_value ran

end

end Ct.Flex.Calc
