import Ct.Flex.CalcComments

set_option autoImplicit false

namespace Ct.Flex.Calc

open Ct.Lib

/-- What a symbol on the stack has been reduced from. -/
inductive Yields : Symbol → List Token → Prop
  | exp {e : Exp} {v : Int} (int : e.int = .ok v) : Yields (.exp v) e.tokens
  | factor {f : Factor} {v : Int} (int : f.int = .ok v) : Yields (.factor v) f.tokens
  | add : Yields .add [.add]
  | sub : Yields .sub [.sub]
  | mul : Yields .mul [.mul]
  | div : Yields .div [.div]
  | lop : Yields .lop [.lop]
  | abs : Yields .abs [.abs]

/-- The stack is what has been made of the tokens up to now. -/
inductive Reads : List Symbol → List Token → Prop
  | nil : Reads [] []
  | cons {symbol : Symbol} {stack : List Symbol} {part tokens : List Token}
      (top : Yields symbol part) (below : Reads stack tokens) :
      Reads (symbol :: stack) (tokens ++ part)

section Reads

variable {stack after : List Symbol} {tokens : List Token} {u v : Int}

theorem Reads.exp (reads : Reads (.exp v :: stack) tokens) :
    ∃ (e : Exp) (front : List Token), e.int = .ok v ∧ tokens = front ++ e.tokens ∧
      Reads stack front := by
  cases reads with
  | cons top below =>
    cases top with
    | exp int => exact ⟨_, _, int, rfl, below⟩

theorem Reads.factor (reads : Reads (.factor v :: stack) tokens) :
    ∃ (f : Factor) (front : List Token), f.int = .ok v ∧ tokens = front ++ f.tokens ∧
      Reads stack front := by
  cases reads with
  | cons top below =>
    cases top with
    | factor int => exact ⟨_, _, int, rfl, below⟩

/-- A symbol that stands for one token. -/
theorem Reads.token {symbol : Symbol} {t : Token} (only : ∀ part, Yields symbol part → part = [t])
    (reads : Reads (symbol :: stack) tokens) :
    ∃ front, tokens = front ++ [t] ∧ Reads stack front := by
  cases reads with
  | cons top below => exact ⟨_, by rw [only _ top], below⟩

theorem Reads.push {symbol : Symbol} {t : Token} (reads : Reads stack tokens)
    (yields : Yields symbol [t]) : Reads (symbol :: stack) (tokens ++ [t]) :=
  .cons yields reads

/-- A factor with an operator and a factor below it. -/
theorem Reads.tight {symbol : Symbol} {op : Token} {t : Term} (make : Factor → Term → Factor)
    {w : Except Stop Int} (only : ∀ part, Yields symbol part → part = [op])
    (made : ∀ f, (make f t).tokens = f.tokens ++ op :: t.tokens)
    (meaning : ∀ f, f.int = .ok u → (make f t).int = w)
    (reads : Reads (symbol :: .factor u :: stack) tokens)
    (ran : (w >>= fun w => pure (.factor w :: stack)) = .ok after) :
    Reads after (tokens ++ t.tokens) := by
  obtain ⟨front, rfl, operand⟩ := reads.token only
  obtain ⟨f, before, left, rfl, below⟩ := operand.factor
  obtain ⟨value, computed, pushed⟩ := bind_ends ran
  cases pushed
  rw [List.append_assoc, List.append_assoc, List.singleton_append, ← made]
  exact .cons (.factor ((meaning f left).trans computed)) below

/-- A factor with an operator and an expression below it. -/
theorem Reads.loose {symbol : Symbol} {op : Token} (make : Exp → Factor → Exp)
    {w : Except Stop Int} (only : ∀ part, Yields symbol part → part = [op])
    (made : ∀ e f, (make e f).tokens = e.tokens ++ op :: f.tokens)
    (meaning : ∀ e f, e.int = .ok u → f.int = .ok v → (make e f).int = w)
    (reads : Reads (.factor v :: symbol :: .exp u :: stack) tokens)
    (ran : (w >>= fun w => pure (.exp w :: stack)) = .ok after) : Reads after tokens := by
  obtain ⟨f, middle, right, rfl, operator⟩ := reads.factor
  obtain ⟨front, rfl, operand⟩ := operator.token only
  obtain ⟨e, before, left, rfl, below⟩ := operand.exp
  obtain ⟨value, computed, pushed⟩ := bind_ends ran
  cases pushed
  rw [List.append_assoc, List.append_assoc, List.singleton_append, ← made]
  exact .cons (.exp ((meaning e f left right).trans computed)) below

end Reads

section Complete

variable {front rest : List Lexeme} {e : Exp}

theorem Exp.run (same : front.filter (· ≠ .unknown) = e.tokens.map .token) {v : Int}
    (int : e.int = .ok v) :
    yyparse [] (front ++ .eol :: rest) =
      (errors front ++ .value v :: (yyparse [] rest).1, (yyparse [] rest).2) := by
  rcases e.pending with ⟨after, fed, reduced⟩ | ⟨stop, _, undefined⟩
  · rw [int] at reduced
    have ended : endLine after = .ok v := by
      rw [endLine, reduced]
      rfl
    rw [yyparse_tokens front _ same fed, yyparse, ended]
  · rw [int] at undefined
    cases undefined

theorem Exp.stops (same : front.filter (· ≠ .unknown) = e.tokens.map .token) {stop : Stop}
    (int : e.int = .error stop) : (yyparse [] (front ++ .eol :: rest)).2 = .stopped stop := by
  rcases e.pending with ⟨after, fed, reduced⟩ | ⟨stop', fed, undefined⟩
  · rw [int] at reduced
    have ended : endLine after = .error stop := by
      rw [endLine, reduced]
      rfl
    rw [yyparse_tokens front _ same fed, yyparse, ended]
  · rw [int] at undefined
    cases undefined
    exact yyparse_stops front _ same fed

end Complete

theorem checked_error {v : Int} {stop : Stop} (failed : checked v = .error stop) :
    stop = .undefined := by
  rw [checked] at failed
  split at failed
  · cases failed
  · cases failed
    rfl

theorem quotient_error {a b : Int} {stop : Stop} (failed : quotient a b = .error stop) :
    stop = .undefined := by
  rw [quotient] at failed
  split at failed
  · cases failed
    rfl
  · exact checked_error failed

/-- Where a computation with two operands fails. -/
theorem bind_error {α β : Type} {x : Except Stop α} {f : α → Except Stop β} {stop : Stop}
    (failed : x >>= f = .error stop) : x = .error stop ∨ ∃ a, x = .ok a ∧ f a = .error stop := by
  cases x with
  | error stop' =>
    cases failed
    exact Or.inl rfl
  | ok a => exact Or.inr ⟨a, rfl, failed⟩

mutual

theorem Exp.int_error : ∀ (e : Exp) {stop : Stop}, e.int = .error stop → stop = .undefined
  | .factor f, stop => fun failed => f.int_error failed
  | .add e f, stop => by
    intro failed
    rcases bind_error failed with left | ⟨a, _, failed⟩
    · exact e.int_error left
    · rcases bind_error failed with right | ⟨b, _, failed⟩
      · exact f.int_error right
      · exact checked_error failed
  | .sub e f, stop => by
    intro failed
    rcases bind_error failed with left | ⟨a, _, failed⟩
    · exact e.int_error left
    · rcases bind_error failed with right | ⟨b, _, failed⟩
      · exact f.int_error right
      · exact checked_error failed

theorem Factor.int_error : ∀ (f : Factor) {stop : Stop}, f.int = .error stop → stop = .undefined
  | .term t, stop => fun failed => t.int_error failed
  | .mul f t, stop => by
    intro failed
    rcases bind_error failed with left | ⟨a, _, failed⟩
    · exact f.int_error left
    · rcases bind_error failed with right | ⟨b, _, failed⟩
      · exact t.int_error right
      · exact checked_error failed
  | .div f t, stop => by
    intro failed
    rcases bind_error failed with left | ⟨a, _, failed⟩
    · exact f.int_error left
    · rcases bind_error failed with right | ⟨b, _, failed⟩
      · exact t.int_error right
      · exact quotient_error failed

theorem Term.int_error : ∀ (t : Term) {stop : Stop}, t.int = .error stop → stop = .undefined
  | .number n, stop => fun failed => checked_error failed
  | .abs e, stop => by
    intro failed
    rcases bind_error failed with inside | ⟨a, _, failed⟩
    · exact e.int_error inside
    · exact checked_error failed
  | .paren e, stop => fun failed => e.int_error failed

end

end Ct.Flex.Calc
