import Ct.Flex.CalcLines
import Ct.Flex.CalcShifts

set_option autoImplicit false

namespace Ct.Flex.Calc

open Ct.Lib

/-- A line of the input: code that the grammar accepts as an expression, perhaps with a comment
behind it. -/
structure Line where
  code : CString
  exp : Exp
  comment : Option CString
  codePlain : '\n' ∉ code
  accepted : (lexemes (code ++ ['\n'])).filter (· ≠ .unknown) = exp.tokens.map .token ++ [.eol]
  commentPlain : ∀ text, comment = some text → '\n' ∉ text

def Line.text (line : Line) : CString :=
  match line.comment with
  | none => line.code ++ ['\n']
  | some text => line.code ++ '/' :: '/' :: (text ++ ['\n'])

def input (lines : List Line) : CString := lines.flatMap Line.text

/-- The line without its comment. -/
def Line.bare (line : Line) : Line :=
  { line with comment := none, commentPlain := fun _ same => by cases same }

def Event.value? : Event → Option Int
  | .error => none
  | .value v => some v

/-- With the comments the program prints what it prints without them: the value of each line, and
no syntax error. -/
def Transparent (lines : List Line) : Prop :=
  (main (input lines)).1 = (main (input (lines.map Line.bare))).1 ∧
  lines.mapM (fun line => line.exp.int) = .ok ((main (input lines)).1.filterMap Event.value?) ∧
  (main (input lines)).2 = .accepted

/-- A token with which an expression starts. -/
def Token.Starts : Token → Prop
  | .number _ | .lop | .abs => True
  | _ => False

mutual

theorem Exp.tokens_first : ∀ e : Exp, ∃ t rest, e.tokens = t :: rest ∧ t.Starts
  | .factor f => f.tokens_first
  | .add e f => by
    obtain ⟨t, rest, first, starts⟩ := e.tokens_first
    exact ⟨t, rest ++ .add :: f.tokens, by rw [Exp.tokens, first, List.cons_append], starts⟩
  | .sub e f => by
    obtain ⟨t, rest, first, starts⟩ := e.tokens_first
    exact ⟨t, rest ++ .sub :: f.tokens, by rw [Exp.tokens, first, List.cons_append], starts⟩

theorem Factor.tokens_first : ∀ f : Factor, ∃ t rest, f.tokens = t :: rest ∧ t.Starts
  | .term t => t.tokens_first
  | .mul f t => by
    obtain ⟨first, rest, same, starts⟩ := f.tokens_first
    exact ⟨first, rest ++ .mul :: t.tokens, by rw [Factor.tokens, same, List.cons_append], starts⟩
  | .div f t => by
    obtain ⟨first, rest, same, starts⟩ := f.tokens_first
    exact ⟨first, rest ++ .div :: t.tokens, by rw [Factor.tokens, same, List.cons_append], starts⟩

theorem Term.tokens_first : ∀ t : Term, ∃ first rest, t.tokens = first :: rest ∧ first.Starts
  | .number _ => ⟨_, _, rfl, trivial⟩
  | .abs _ => ⟨_, _, rfl, trivial⟩
  | .paren _ => ⟨_, _, rfl, trivial⟩

end

mutual

/-- An expression does not end with `DIV`. -/
theorem Exp.tokens_last : ∀ e : Exp, ∃ front t, e.tokens = front ++ [t] ∧ t ≠ .div
  | .factor f => f.tokens_last
  | .add e f => by
    obtain ⟨front, t, last, other⟩ := f.tokens_last
    exact ⟨e.tokens ++ .add :: front, t,
      by rw [Exp.tokens, last, List.append_assoc, List.cons_append], other⟩
  | .sub e f => by
    obtain ⟨front, t, last, other⟩ := f.tokens_last
    exact ⟨e.tokens ++ .sub :: front, t,
      by rw [Exp.tokens, last, List.append_assoc, List.cons_append], other⟩

theorem Factor.tokens_last : ∀ f : Factor, ∃ front t, f.tokens = front ++ [t] ∧ t ≠ .div
  | .term t => t.tokens_last
  | .mul f t => by
    obtain ⟨front, last, same, other⟩ := t.tokens_last
    exact ⟨f.tokens ++ .mul :: front, last,
      by rw [Factor.tokens, same, List.append_assoc, List.cons_append], other⟩
  | .div f t => by
    obtain ⟨front, last, same, other⟩ := t.tokens_last
    exact ⟨f.tokens ++ .div :: front, last,
      by rw [Factor.tokens, same, List.append_assoc, List.cons_append], other⟩

theorem Term.tokens_last : ∀ t : Term, ∃ front last, t.tokens = front ++ [last] ∧ last ≠ .div
  | .number n => ⟨[], _, rfl, by simp⟩
  | .abs e => ⟨.abs :: e.tokens, _, rfl, by simp⟩
  | .paren e => ⟨.lop :: e.tokens, _, rfl, by simp⟩

end

section Line

variable (line : Line)

theorem Line.appended :
    (∀ suffix, Stops suffix → (suffix.head? = some '/' → line.code.getLast? ≠ some '/') →
      lexemes (line.code ++ suffix) = lexemes line.code ++ lexemes suffix) ∧
    (line.code.getLast? = some '/' → (lexemes line.code).getLast? = some (.token .div)) := by
  apply lexemes_line line.code line.codePlain
  have member : Lexeme.eol ∈ (lexemes (line.code ++ ['\n'])).filter (· ≠ .unknown) := by
    rw [line.accepted]
    exact List.mem_append_right _ (List.mem_singleton.mpr rfl)
  exact List.mem_of_mem_filter member

theorem Line.lexemes_bare (rest : CString) :
    lexemes (line.code ++ '\n' :: rest) = lexemes line.code ++ .eol :: lexemes rest := by
  rw [line.appended.1 _ (stops_of_head (by decide) rest) (fun same => by cases same),
    lexemes_newline]

/-- Besides characters without a rule, the code has the tokens of its expression. -/
theorem Line.lexemes_code :
    (lexemes line.code).filter (· ≠ .unknown) = line.exp.tokens.map .token := by
  have accepted := line.accepted
  rw [line.lexemes_bare [], lexemes_nil, List.filter_append] at accepted
  exact List.append_cancel_right accepted

theorem Line.code_last : line.code.getLast? ≠ some '/' := by
  intro slash
  have division := line.appended.2 slash
  obtain ⟨front, parts⟩ := List.getLast?_eq_some_iff.mp division
  have tokens := line.lexemes_code
  obtain ⟨before, t, last, other⟩ := line.exp.tokens_last
  rw [parts, last, List.filter_append, List.map_append] at tokens
  have same := (List.append_inj' tokens rfl).2
  exact other (Lexeme.token.inj (List.cons.inj same).1).symm

/-- The comment takes the end of the line with it. -/
theorem Line.lexemes_commented {text : CString} (plain : '\n' ∉ text) (rest : CString) :
    lexemes (line.code ++ '/' :: '/' :: (text ++ '\n' :: rest)) =
      lexemes line.code ++ lexemes rest := by
  rw [line.appended.1 _ (stops_of_head (by decide) _) (fun _ => line.code_last),
    lexemes_comment plain]

end Line

section Runs

variable {stack after : List Symbol} {tokens : List Token}

/-- What the lexer prints between tokens. -/
def errors (front : List Lexeme) : List Event := List.replicate (front.count .unknown) .error

theorem errors_values (front : List Lexeme) : (errors front).filterMap Event.value? = [] := by
  rw [List.filterMap_eq_nil_iff]
  intro event member
  rw [List.eq_of_mem_replicate member, Event.value?]

/-- The next lexeme of a text with these tokens. -/
theorem next_token {lexeme : Lexeme} {front : List Lexeme}
    (same : (lexeme :: front).filter (· ≠ .unknown) = tokens.map .token) :
    (lexeme = .unknown ∧ front.filter (· ≠ .unknown) = tokens.map .token) ∨
      ∃ t later, lexeme = .token t ∧ tokens = t :: later ∧
        front.filter (· ≠ .unknown) = later.map .token := by
  by_cases unknown : lexeme = .unknown
  · rw [unknown, List.filter_cons_of_neg (by simp)] at same
    exact Or.inl ⟨unknown, same⟩
  · rw [List.filter_cons_of_pos (by simp [unknown])] at same
    obtain ⟨t, later, tokens, first, others⟩ := List.map_eq_cons_iff.mp same.symm
    exact Or.inr ⟨t, later, first.symm, tokens, others.symm⟩

theorem yyparse_tokens (front rest : List Lexeme) :
    ∀ {tokens : List Token} {stack : List Symbol}, front.filter (· ≠ .unknown) = tokens.map .token →
      feedAll stack tokens = .ok after →
      yyparse stack (front ++ rest) =
        (errors front ++ (yyparse after rest).1, (yyparse after rest).2) := by
  induction front with
  | nil =>
    intro tokens stack same fed
    obtain rfl : tokens = [] := List.map_eq_nil_iff.mp same.symm
    cases fed
    rfl
  | cons lexeme front ih =>
    intro tokens stack same fed
    rcases next_token same with ⟨rfl, others⟩ | ⟨t, later, rfl, rfl, others⟩
    · rw [List.cons_append, yyparse, ih others fed, errors, errors, List.count_cons_self,
        List.replicate_succ]
      rfl
    · rw [feedAll_cons] at fed
      obtain ⟨next, fed, behind⟩ := bind_ends fed
      rw [List.cons_append, yyparse, fed, errors, List.count_cons_of_ne (by simp)]
      exact ih others behind

theorem yyparse_stops (front rest : List Lexeme) :
    ∀ {tokens : List Token} {stack : List Symbol} {stop : Stop},
      front.filter (· ≠ .unknown) = tokens.map .token → feedAll stack tokens = .error stop →
      (yyparse stack (front ++ rest)).2 = .stopped stop := by
  induction front with
  | nil =>
    intro tokens stack stop same fed
    obtain rfl : tokens = [] := List.map_eq_nil_iff.mp same.symm
    cases fed
  | cons lexeme front ih =>
    intro tokens stack stop same fed
    rcases next_token same with ⟨rfl, others⟩ | ⟨t, later, rfl, rfl, others⟩
    · rw [List.cons_append, yyparse]
      exact ih others fed
    · rw [feedAll_cons] at fed
      rw [List.cons_append, yyparse]
      cases next : feed stack t with
      | error stop' =>
        rw [next] at fed
        cases fed
        rfl
      | ok after =>
        rw [next] at fed
        exact ih others fed

/-- Behind the tokens of an expression, its value is on the stack with the next reduction. -/
theorem Exp.pending (e : Exp) :
    (∃ after, feedAll [] e.tokens = .ok after ∧
      reduceFactor after = e.int >>= fun v => .ok [.exp v]) ∨
    ∃ stop, feedAll [] e.tokens = .error stop ∧ e.int = .error stop := by
  have whole : feedAll [] e.tokens >>= reduceFactor = e.int >>= fun v => .ok [.exp v] :=
    e.feedAll_tokens trivial
  cases fed : feedAll [] e.tokens with
  | error stop =>
    rw [fed] at whole
    refine Or.inr ⟨stop, rfl, ?_⟩
    cases int : e.int with
    | error stop' =>
      rw [int] at whole
      cases whole
      rfl
    | ok v =>
      rw [int] at whole
      cases whole
  | ok after =>
    rw [fed] at whole
    exact Or.inl ⟨after, rfl, whole⟩

theorem Line.run_bare (line : Line) (rest : List Lexeme) {v : Int} (int : line.exp.int = .ok v) :
    yyparse [] (lexemes line.code ++ .eol :: rest) =
      (errors (lexemes line.code) ++ .value v :: (yyparse [] rest).1, (yyparse [] rest).2) := by
  rcases line.exp.pending with ⟨after, fed, reduced⟩ | ⟨stop, _, undefined⟩
  · rw [int] at reduced
    have ended : endLine after = .ok v := by
      rw [endLine, reduced]
      rfl
    rw [yyparse_tokens _ _ line.lexemes_code fed, yyparse, ended]
  · rw [int] at undefined
    cases undefined

theorem Line.stops_bare (line : Line) (rest : List Lexeme) {stop : Stop}
    (int : line.exp.int = .error stop) :
    (yyparse [] (lexemes line.code ++ .eol :: rest)).2 = .stopped stop := by
  rcases line.exp.pending with ⟨after, fed, reduced⟩ | ⟨stop', fed, undefined⟩
  · rw [int] at reduced
    have ended : endLine after = .error stop := by
      rw [endLine, reduced]
      rfl
    rw [yyparse_tokens _ _ line.lexemes_code fed, yyparse, ended]
  · rw [int] at undefined
    cases undefined
    exact yyparse_stops _ _ line.lexemes_code fed

section Pending

variable {value : Except Stop Int}

/-- Behind a whole expression no other expression starts. -/
theorem Token.Starts.feed {t : Token} (starts : t.Starts)
    (pending : reduceFactor after = value >>= fun v => .ok [.exp v]) :
    ∃ stop, feed after t = .error stop := by
  have other : t.read = .ok t → t ≠ .mul → t ≠ .div →
      (∀ v, shift [.exp v] t = .error .syntaxError) → ∃ stop, Calc.feed after t = .error stop := by
    intro plain notMul notDiv refused
    rw [feed_other notMul notDiv plain, pending]
    cases value with
    | error stop => exact ⟨stop, rfl⟩
    | ok v => exact ⟨.syntaxError, refused v⟩
  cases t with
  | number n =>
    rw [feed_number, pending]
    cases checked n with
    | error stop => exact ⟨stop, rfl⟩
    | ok n =>
      cases value with
      | error stop => exact ⟨stop, rfl⟩
      | ok v => exact ⟨.syntaxError, rfl⟩
  | lop => exact other rfl (by decide) (by decide) fun _ => rfl
  | abs => exact other rfl (by decide) (by decide) fun _ => rfl
  | _ => exact starts.elim

theorem endInput_pending (pending : reduceFactor after = value >>= fun v => .ok [.exp v]) :
    endInput after ≠ .accepted := by
  rw [endInput, pending]
  cases value with
  | error stop => exact fun same => by cases same
  | ok v => exact fun same => by cases same

/-- An expression without the end of its line is not accepted, whatever lines follow. -/
theorem yyparse_pending (pending : reduceFactor after = value >>= fun v => .ok [.exp v])
    (behind : List Lexeme)
    (first : ∀ lexeme, (behind.filter (· ≠ .unknown)).head? = some lexeme →
      ∃ t, lexeme = .token t ∧ t.Starts) :
    (yyparse after behind).2 ≠ .accepted := by
  induction behind with
  | nil => exact endInput_pending pending
  | cons lexeme behind ih =>
    cases lexeme with
    | unknown =>
      rw [List.filter_cons_of_neg (by simp)] at first
      rw [yyparse]
      exact ih first
    | eol =>
      obtain ⟨t, same, _⟩ := first .eol rfl
      cases same
    | token t =>
      obtain ⟨u, same, starts⟩ := first (.token t) rfl
      cases same
      obtain ⟨stop, refused⟩ := starts.feed pending
      rw [yyparse, refused]
      exact fun same => by cases same

theorem Line.stops_commented (line : Line) (behind : List Lexeme)
    (first : ∀ lexeme, (behind.filter (· ≠ .unknown)).head? = some lexeme →
      ∃ t, lexeme = .token t ∧ t.Starts) :
    (yyparse [] (lexemes line.code ++ behind)).2 ≠ .accepted := by
  rcases line.exp.pending with ⟨after, fed, pending⟩ | ⟨stop, fed, _⟩
  · rw [yyparse_tokens _ _ line.lexemes_code fed]
    exact yyparse_pending pending behind first
  · rw [yyparse_stops _ _ line.lexemes_code fed]
    exact fun same => by cases same

end Pending

end Runs

section Input

variable {line : Line} {lines : List Line}

theorem lexemes_input_bare (bare : line.comment = none) :
    lexemes (input (line :: lines)) = lexemes line.code ++ .eol :: lexemes (input lines) := by
  rw [input, List.flatMap_cons, Line.text, bare, List.append_assoc]
  exact line.lexemes_bare (input lines)

theorem lexemes_input_commented {text : CString} (commented : line.comment = some text) :
    lexemes (input (line :: lines)) = lexemes line.code ++ lexemes (input lines) := by
  have plain := line.commentPlain text commented
  rw [input, List.flatMap_cons, Line.text, commented, List.append_assoc, List.cons_append,
    List.cons_append, List.append_assoc]
  exact line.lexemes_commented plain (input lines)

theorem input_first (lines : List Line) (lexeme : Lexeme)
    (first : ((lexemes (input lines)).filter (· ≠ .unknown)).head? = some lexeme) :
    ∃ t, lexeme = .token t ∧ t.Starts := by
  cases lines with
  | nil =>
    rw [input, List.flatMap_nil, lexemes_nil] at first
    cases first
  | cons line lines =>
    obtain ⟨more, parts⟩ : ∃ more, lexemes (input (line :: lines)) = lexemes line.code ++ more := by
      cases comment : line.comment with
      | none => exact ⟨_, lexemes_input_bare comment⟩
      | some text => exact ⟨_, lexemes_input_commented comment⟩
    obtain ⟨t, rest, tokens, starts⟩ := line.exp.tokens_first
    rw [parts, List.filter_append, line.lexemes_code, tokens] at first
    exact ⟨t, (Option.some_inj.mp first).symm, starts⟩

theorem accepted_bare (lines : List Line) (accepted : (main (input lines)).2 = .accepted) :
    ∀ line ∈ lines, line.comment = none ∧ ∃ v, line.exp.int = .ok v := by
  induction lines with
  | nil => exact fun line member => by cases member
  | cons line lines ih =>
    cases comment : line.comment with
    | some text =>
      rw [main, lexemes_input_commented comment] at accepted
      exact absurd accepted (line.stops_commented _ (input_first lines))
    | none =>
      rw [main, lexemes_input_bare comment] at accepted
      cases int : line.exp.int with
      | error stop =>
        rw [line.stops_bare _ int] at accepted
        cases accepted
      | ok v =>
        rw [line.run_bare _ int] at accepted
        exact List.forall_mem_cons.mpr ⟨⟨comment, v, int⟩, ih accepted⟩

theorem main_bare (lines : List Line) (bare : ∀ line ∈ lines, line.comment = none)
    (defined : ∀ line ∈ lines, ∃ v, line.exp.int = .ok v) :
    lines.mapM (fun line => line.exp.int) = .ok ((main (input lines)).1.filterMap Event.value?) ∧
      (main (input lines)).2 = .accepted := by
  induction lines with
  | nil =>
    rw [input, List.flatMap_nil, main, lexemes_nil]
    exact ⟨rfl, rfl⟩
  | cons line lines ih =>
    rw [List.forall_mem_cons] at bare defined
    obtain ⟨v, int⟩ := defined.1
    obtain ⟨values, accepted⟩ := ih bare.2 defined.2
    rw [main, lexemes_input_bare bare.1, line.run_bare _ int, List.filterMap_append,
      errors_values, List.mapM_cons, int, values]
    exact ⟨rfl, accepted⟩

theorem input_bare (lines : List Line) (bare : ∀ line ∈ lines, line.comment = none) :
    input (lines.map Line.bare) = input lines := by
  rw [input, List.flatMap_map, input]
  refine List.flatMap_congr fun line member => ?_
  rw [Line.text, Line.text, bare line member]
  rfl

/-- Comments change nothing only if there are none. -/
theorem transparent_iff (lines : List Line) :
    Transparent lines ↔
      (∀ line ∈ lines, line.comment = none) ∧ ∀ line ∈ lines, ∃ v, line.exp.int = .ok v := by
  constructor
  · intro transparent
    have bare := accepted_bare lines transparent.2.2
    exact ⟨fun line member => (bare line member).1, fun line member => (bare line member).2⟩
  · rintro ⟨bare, defined⟩
    obtain ⟨values, accepted⟩ := main_bare lines bare defined
    exact ⟨by rw [input_bare lines bare], values, accepted⟩

end Input

/-- `1 // one` -/
def commentedOne : Line where
  code := ['1', ' ']
  exp := .factor (.term (.number 1))
  comment := some [' ', 'o', 'n', 'e']
  codePlain := by decide
  accepted := by
    simp [lexemes_cons, lexemes_nil, longestMatch, rule, decimalValue, Exp.tokens, Factor.tokens,
      Term.tokens]
  commentPlain := by simp

/-- `2` -/
def two : Line where
  code := ['2']
  exp := .factor (.term (.number 2))
  comment := none
  codePlain := by decide
  accepted := by
    simp [lexemes_cons, lexemes_nil, longestMatch, rule, decimalValue, Exp.tokens, Factor.tokens,
      Term.tokens]
  commentPlain := by simp

/-- The two lines have the values `1` and `2`, but the first token of the second line is a syntax
error, and nothing is printed. -/
theorem comment_joins_lines :
    [commentedOne, two].mapM (fun line => line.exp.int) = .ok [1, 2] ∧
      main (input [commentedOne, two]) = ([], .stopped .syntaxError) ∧
      ¬ Transparent [commentedOne, two] := by
  refine ⟨rfl, ?_, fun transparent => ?_⟩
  · have lexed : lexemes (input [commentedOne, two]) =
        [.token (.number 1), .token (.number 2), .eol] := by
      have comment : commentedOne.comment = some [' ', 'o', 'n', 'e'] := rfl
      rw [lexemes_input_commented comment, lexemes_input_bare rfl]
      simp [commentedOne, two, input, lexemes_cons, lexemes_nil, longestMatch, rule, decimalValue]
    rw [main, lexed]
    rfl
  · have bare := accepted_bare _ transparent.2.2 commentedOne (List.mem_cons_self ..)
    cases bare.1

end Ct.Flex.Calc
