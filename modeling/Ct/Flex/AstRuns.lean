import Ct.Flex.Ast

set_option autoImplicit false

namespace Ct.Flex.AstCalc

open Ct.Lib

variable {d : Double}

inductive Tight
  | mul
  | div

inductive Loose
  | add
  | sub

def Tight.char : Tight → Char
  | .mul => '*'
  | .div => '/'

def Loose.char : Loose → Char
  | .add => '+'
  | .sub => '-'

def Tight.apply (op : Tight) : d.Carrier → d.Carrier → d.Carrier :=
  match op with
  | .mul => d.mul
  | .div => d.div

def Loose.apply (op : Loose) : d.Carrier → d.Carrier → d.Carrier :=
  match op with
  | .add => d.add
  | .sub => d.sub

/-- Numbers with `*` and `/` between them, from left to right. -/
inductive Factor (d : Double)
  | number (value : d.Carrier)
  | tight (f : Factor d) (op : Tight) (value : d.Carrier)

/-- Factors with `+` and `-` between them, from left to right. -/
inductive Exp (d : Double)
  | factor (f : Factor d)
  | loose (e : Exp d) (op : Loose) (f : Factor d)

def Factor.lexemes : Factor d → List (Lexeme d)
  | .number value => [.number value]
  | .tight f op value => f.lexemes ++ [.op op.char, .number value]

def Exp.lexemes : Exp d → List (Lexeme d)
  | .factor f => f.lexemes
  | .loose e op f => e.lexemes ++ .op op.char :: f.lexemes

/-- The value, computed without a tree. -/
def Factor.value : Factor d → d.Carrier
  | .number value => value
  | .tight f op value => op.apply f.value value

def Exp.value : Exp d → d.Carrier
  | .factor f => f.value
  | .loose e op f => op.apply e.value f.value

/-- A line: an expression, or nothing. -/
abbrev Line (d : Double) := Option (Exp d)

def Line.lexemes : Line d → List (Lexeme d)
  | none => [.eol]
  | some e => e.lexemes ++ [.eol]

def Line.output : Line d → CString
  | none => "> ".toList
  | some e => "= ".toList ++ d.g e.value ++ "\n\n> ".toList

/-- The tree that the parser builds. -/
def Factor.tree : Factor d → Ast d
  | .number value => newnum value
  | .tight f op value => newast op.char f.tree (newnum value)

def Exp.tree : Exp d → Ast d
  | .factor f => f.tree
  | .loose e op f => newast op.char e.tree f.tree

theorem Tight.calc_newast (op : Tight) {l r : Ast d} {a b : d.Carrier} (left : l.calc = some a)
    (right : r.calc = some b) : (newast op.char l r).calc = some (op.apply a b) := by
  rw [newast, Ast.calc, left, right]
  cases op
  · rfl
  · rfl

theorem Loose.calc_newast (op : Loose) {l r : Ast d} {a b : d.Carrier} (left : l.calc = some a)
    (right : r.calc = some b) : (newast op.char l r).calc = some (op.apply a b) := by
  rw [newast, Ast.calc, left, right]
  cases op
  · rfl
  · rfl

/-- The tree has the value that is computed without it; no node has an unknown type. -/
theorem Factor.calc_tree (f : Factor d) : f.tree.calc = some f.value := by
  induction f with
  | number value => rfl
  | tight f op value ih => exact op.calc_newast ih rfl

theorem Exp.calc_tree (e : Exp d) : e.tree.calc = some e.value := by
  induction e with
  | factor f => exact f.calc_tree
  | loose e op f ih => exact op.calc_newast ih f.calc_tree

/-- What stands before a factor: nothing, or an expression with its operator. -/
abbrev Left (d : Double) := Option (Exp d × Loose)

def Left.lexemes : Left d → List (Lexeme d)
  | none => []
  | some (e, op) => e.lexemes ++ [.op op.char]

def Left.stack : Left d → List (Symbol d)
  | none => []
  | some (e, op) => [.op op.char, .exp e.tree]

def Left.exp : Left d → Factor d → Exp d
  | none, f => .factor f
  | some (e, op), f => .loose e op f

theorem Left.exp_lexemes (left : Left d) (f : Factor d) :
    (left.exp f).lexemes = left.lexemes ++ f.lexemes := by
  rcases left with _ | ⟨e, op⟩
  · rfl
  · change e.lexemes ++ .op op.char :: f.lexemes = e.lexemes ++ [.op op.char] ++ f.lexemes
    rw [List.append_assoc, List.singleton_append]

/-- The states of the parser within a line: a factor is due, there is one, or a number is due
behind its operator. -/
inductive State (d : Double)
  | due (left : Left d)
  | factor (left : Left d) (f : Factor d)
  | tight (left : Left d) (f : Factor d) (op : Tight)

def State.stack : State d → List (Symbol d)
  | .due left => left.stack
  | .factor left f => .factor f.tree :: left.stack
  | .tight left f op => .op op.char :: .factor f.tree :: left.stack

/-- What has been read of the line. -/
def State.lexemes : State d → List (Lexeme d)
  | .due left => left.lexemes
  | .factor left f => left.lexemes ++ f.lexemes
  | .tight left f op => left.lexemes ++ f.lexemes ++ [.op op.char]

section Step

theorem reduceFactor_factor (left : Left d) (f : Factor d) :
    reduceFactor (State.factor left f).stack = [.exp (left.exp f).tree] := by
  rcases left with _ | ⟨e, op⟩
  · rfl
  · rfl

theorem feed_number_due (left : Left d) (value : d.Carrier) :
    feed left.stack (.number value) = some (State.factor left (.number value)).stack := by
  rcases left with _ | ⟨e, op⟩
  · rfl
  · rfl

theorem feed_number_factor (left : Left d) (f : Factor d) (value : d.Carrier) :
    feed (State.factor left f).stack (.number value) = none := by
  rw [feed, reduceFactor_factor]

theorem feed_number_tight (left : Left d) (f : Factor d) (op : Tight) (value : d.Carrier) :
    feed (State.tight left f op).stack (.number value) =
      some (State.factor left (.tight f op value)).stack := by
  rfl

theorem feed_tight_factor (left : Left d) (f : Factor d) (op : Tight) :
    feed (State.factor left f).stack (.op op.char) = some (State.tight left f op).stack := by
  cases op
  · rfl
  · rfl

theorem feed_loose_factor (left : Left d) (f : Factor d) (op : Loose) :
    feed (State.factor left f).stack (.op op.char) =
      some (State.due (some (left.exp f, op))).stack := by
  rcases left with _ | ⟨e, before⟩
  · cases op
    · rfl
    · rfl
  · cases op
    · rfl
    · rfl

/-- No operator is read where a number is due. -/
theorem feed_op_due (left : Left d) (c : Char) : feed left.stack (.op c) = none := by
  rcases left with _ | ⟨e, op⟩
  · simp [Left.stack, feed, reduceFactor]
  · simp [Left.stack, feed, reduceFactor]

theorem feed_op_tight (left : Left d) (f : Factor d) (op : Tight) (c : Char) :
    feed (State.tight left f op).stack (.op c) = none := by
  simp [State.stack, feed, reduceFactor]

/-- The parser goes from one of its states to another with each token that it takes. -/
theorem State.step (state : State d) {lexeme : Lexeme d}
    (token : (∃ value, lexeme = .number value) ∨ (∃ op : Tight, lexeme = .op op.char) ∨
      ∃ op : Loose, lexeme = .op op.char) :
    feed state.stack lexeme = none ∨
      ∃ next : State d, feed state.stack lexeme = some next.stack ∧
        next.lexemes = state.lexemes ++ [lexeme] := by
  rcases token with ⟨value, rfl⟩ | ⟨op, rfl⟩ | ⟨op, rfl⟩
  · cases state with
    | due left => exact Or.inr ⟨_, feed_number_due left value, rfl⟩
    | factor left f => exact Or.inl (feed_number_factor left f value)
    | tight left f op =>
      refine Or.inr ⟨_, feed_number_tight left f op value, ?_⟩
      simp [State.lexemes, Factor.lexemes]
  · cases state with
    | due left => exact Or.inl (feed_op_due left _)
    | factor left f => exact Or.inr ⟨_, feed_tight_factor left f op, rfl⟩
    | tight left f op' => exact Or.inl (feed_op_tight left f op' _)
  · cases state with
    | due left => exact Or.inl (feed_op_due left _)
    | factor left f =>
      refine Or.inr ⟨_, feed_loose_factor left f op, ?_⟩
      rw [State.lexemes, Left.lexemes, left.exp_lexemes]
      rfl
    | tight left f op' => exact Or.inl (feed_op_tight left f op' _)

end Step

section Lines

variable {stack after : List (Symbol d)} {lexeme : Lexeme d}

theorem yyparse_feed (fed : feed stack lexeme = some after) (rest : List (Lexeme d)) :
    yyparse stack (lexeme :: rest) = yyparse after rest := by
  cases lexeme with
  | number value => simp only [yyparse, fed]
  | op c => simp only [yyparse, fed]
  | eol => cases fed
  | unknown => cases fed

theorem yyparse_refused (refused : feed stack lexeme = none)
    (token : (∃ value, lexeme = .number value) ∨ ∃ c, lexeme = .op c) (rest : List (Lexeme d)) :
    yyparse stack (lexeme :: rest) = yyerror "syntax error".toList := by
  rcases token with ⟨value, rfl⟩ | ⟨c, rfl⟩
  · simp only [yyparse, refused]
  · simp only [yyparse, refused]

theorem Factor.run (f : Factor d) (left : Left d) (rest : List (Lexeme d)) :
    yyparse left.stack (f.lexemes ++ rest) = yyparse (State.factor left f).stack rest := by
  induction f generalizing rest with
  | number value => exact yyparse_feed (feed_number_due left value) rest
  | tight f op value ih =>
    rw [Factor.lexemes, List.append_assoc, ih]
    exact (yyparse_feed (feed_tight_factor left f op) _).trans
      (yyparse_feed (feed_number_tight left f op value) rest)

/-- The last factor of an expression is still on the stack when its end is read. -/
theorem Exp.run (e : Exp d) : ∃ left f, Left.exp left f = e ∧
    ∀ rest, yyparse [] (e.lexemes ++ rest) = yyparse (State.factor left f).stack rest := by
  induction e with
  | factor f => exact ⟨none, f, rfl, f.run none⟩
  | loose e op f ih =>
    obtain ⟨left, last, rfl, run⟩ := ih
    refine ⟨some (left.exp last, op), f, rfl, fun rest => ?_⟩
    rw [Exp.lexemes, List.append_assoc, run]
    exact (yyparse_feed (feed_loose_factor left last op) _).trans (f.run (some (left.exp last, op)) rest)

theorem Line.run (line : Line d) (rest : List (Lexeme d)) :
    yyparse [] (line.lexemes ++ rest) = printed line.output (yyparse [] rest) := by
  cases line with
  | none => rfl
  | some e =>
    obtain ⟨left, f, rfl, run⟩ := e.run
    rw [Line.lexemes, List.append_assoc, run]
    change yyparse _ (.eol :: rest) = _
    rw [yyparse, reduceFactor_factor]
    dsimp only
    rw [(left.exp f).calc_tree]
    rfl

/-- Only the four operators are read as such. -/
def Operators (text : List (Lexeme d)) : Prop :=
  ∀ c, .op c ∈ text → c = '+' ∨ c = '-' ∨ c = '*' ∨ c = '/'

theorem operator_cases {c : Char} (operator : c = '+' ∨ c = '-' ∨ c = '*' ∨ c = '/') :
    (∃ op : Tight, c = op.char) ∨ ∃ op : Loose, c = op.char := by
  rcases operator with rfl | rfl | rfl | rfl
  · exact Or.inr ⟨.add, rfl⟩
  · exact Or.inr ⟨.sub, rfl⟩
  · exact Or.inl ⟨.mul, rfl⟩
  · exact Or.inl ⟨.div, rfl⟩

def messages : List CString := ["syntax error".toList, ". error\n".toList]

/-- What the lexer has read, from a state within a line. -/
theorem State.cons_run (state : State d) {rest : List (Lexeme d)}
    (token : (∃ value, lexeme = .number value) ∨ (∃ op : Tight, lexeme = .op op.char) ∨
      ∃ op : Loose, lexeme = .op op.char) :
    yyparse state.stack (lexeme :: rest) = yyerror "syntax error".toList ∨
      ∃ next : State d, yyparse state.stack (lexeme :: rest) = yyparse next.stack rest ∧
        next.lexemes ++ rest = state.lexemes ++ lexeme :: rest := by
  rcases state.step token with refused | ⟨next, fed, read⟩
  · refine Or.inl (yyparse_refused refused ?_ rest)
    rcases token with number | ⟨op, rfl⟩ | ⟨op, rfl⟩
    · exact Or.inl number
    · exact Or.inr ⟨_, rfl⟩
    · exact Or.inr ⟨_, rfl⟩
  · refine Or.inr ⟨next, yyparse_feed fed rest, ?_⟩
    rw [read, List.append_assoc, List.singleton_append]

/-- The end of a line, in every state of the parser. -/
theorem State.eol_run (state : State d) (rest : List (Lexeme d)) :
    yyparse state.stack (.eol :: rest) = yyerror "syntax error".toList ∨
      ∃ line : Line d, state.lexemes ++ .eol :: rest = line.lexemes ++ rest := by
  cases state with
  | due left =>
    rcases left with _ | ⟨e, op⟩
    · exact Or.inr ⟨none, rfl⟩
    · exact Or.inl rfl
  | factor left f =>
    refine Or.inr ⟨some (left.exp f), ?_⟩
    rw [Line.lexemes, left.exp_lexemes, State.lexemes, List.append_assoc _ [_]]
    rfl
  | tight left f op => exact Or.inl rfl

/-- From a state within a line, the parser reads the rest of the line, or it aborts; it returns
where a line starts and nothing is left. -/
theorem State.run (rest : List (Lexeme d)) (operators : Operators rest) : ∀ state : State d,
    (∃ (line : Line d) (behind : List (Lexeme d)),
      state.lexemes ++ rest = line.lexemes ++ behind) ∨
    (state.lexemes ++ rest = [] ∧ yyparse state.stack rest = ([], .returned)) ∨
    ∃ message ∈ messages, yyparse state.stack rest = yyerror message := by
  induction rest with
  | nil =>
    intro state
    cases state with
    | due left =>
      rcases left with _ | ⟨e, op⟩
      · exact Or.inr (Or.inl ⟨rfl, rfl⟩)
      · exact Or.inr (Or.inr ⟨_, List.mem_cons_self .., rfl⟩)
    | factor left f => exact Or.inr (Or.inr ⟨_, List.mem_cons_self .., rfl⟩)
    | tight left f op => exact Or.inr (Or.inr ⟨_, List.mem_cons_self .., rfl⟩)
  | cons lexeme rest ih =>
    intro state
    have later := ih fun c member => operators c (List.mem_cons_of_mem _ member)
    have taken (token : (∃ value, lexeme = .number value) ∨
        (∃ op : Tight, lexeme = .op op.char) ∨ ∃ op : Loose, lexeme = .op op.char) :
        (∃ (line : Line d) (behind : List (Lexeme d)),
          state.lexemes ++ lexeme :: rest = line.lexemes ++ behind) ∨
        (state.lexemes ++ lexeme :: rest = [] ∧
          yyparse state.stack (lexeme :: rest) = ([], .returned)) ∨
        ∃ message ∈ messages, yyparse state.stack (lexeme :: rest) = yyerror message := by
      rcases state.cons_run token with refused | ⟨next, ran, read⟩
      · exact Or.inr (Or.inr ⟨_, List.mem_cons_self .., refused⟩)
      · rw [ran, ← read]
        exact later next
    cases lexeme with
    | number value => exact taken (Or.inl ⟨value, rfl⟩)
    | op c =>
      rcases operator_cases (operators c (List.mem_cons_self ..)) with ⟨op, rfl⟩ | ⟨op, rfl⟩
      · exact taken (Or.inr (Or.inl ⟨op, rfl⟩))
      · exact taken (Or.inr (Or.inr ⟨op, rfl⟩))
    | eol =>
      rcases state.eol_run rest with refused | ⟨line, read⟩
      · exact Or.inr (Or.inr ⟨_, List.mem_cons_self .., refused⟩)
      · exact Or.inl ⟨line, rest, read⟩
    | unknown =>
      refine Or.inr (Or.inr ⟨". error\n".toList, by simp [messages], ?_⟩)
      simp only [yyparse]

/-- The lines at the start of a text, and what follows behind them: no line. -/
structure Splits (text : List (Lexeme d)) (lines : List (Line d)) (rest : List (Lexeme d)) :
    Prop where
  parts : text = lines.flatMap Line.lexemes ++ rest
  last : ∀ (line : Line d) (behind : List (Lexeme d)), rest ≠ line.lexemes ++ behind

end Lines

end Ct.Flex.AstCalc
