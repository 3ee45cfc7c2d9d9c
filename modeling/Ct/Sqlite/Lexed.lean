import Ct.Sqlite.Tokenize
import Mathlib.Data.List.Basic
import Mathlib.Tactic.SplitIfs

set_option autoImplicit false

namespace Ct.Sqlite

open Ct.Lib

theorem numberToken_pos {c : Char} {z : CString} (starts : c.isDigit = true ∨ c = '.') :
    0 < (numberToken (c :: z)).2 := by
  have moves : 0 < run Char.isDigit (c :: z) +
      fraction ((c :: z).drop (run Char.isDigit (c :: z))) := by
    rcases starts with digit | rfl
    · have : 0 < run Char.isDigit (c :: z) := by simp [run, digit]
      omega
    · have : run Char.isDigit ('.' :: z) = 0 := rfl
      rw [this]
      show 0 < 0 + (1 + _)
      omega
  unfold numberToken
  dsimp only
  split
  · dsimp only
    omega
  · dsimp only
    omega

theorem variableToken_pos (n : Nat) (z : CString) : 0 < (variableToken n z).2 := by
  fun_cases variableToken n z <;> simp

/-- What a token can be. -/
theorem getToken_cases {P : TokenType × Nat → Prop} {c : Char} {z : CString}
    (space : P (.space, 1 + run isSpace z))
    (number : c.isDigit ∨ (c = '.' ∧ 0 < run Char.isDigit z) → P (numberToken (c :: z)))
    (quoted : P (quotedToken c z)) (variable_ : P (variableToken 0 z))
    (parameter : P (.variable, 1 + run Char.isDigit z)) (minus : P (minusToken z))
    (slash : P (slashToken z)) (bracket : P (bracketToken z)) (ne : P (.ne, 2))
    (illegal : P (.illegal, 2))
    (operator : ∀ single pairs, operators.lookup c = some (single, pairs) →
      P (operatorToken single pairs z))
    (word : P (wordToken c z)) : P (getToken (c :: z)) := by
  rw [getToken]
  refine iteInduction (fun _ => space) fun _ => ?_
  refine iteInduction number fun _ => ?_
  refine iteInduction (fun _ => quoted) fun _ => ?_
  refine iteInduction (fun _ => variable_) fun _ => ?_
  refine iteInduction (fun _ => parameter) fun _ => ?_
  refine iteInduction (fun _ => minus) fun _ => ?_
  refine iteInduction (fun _ => slash) fun _ => ?_
  refine iteInduction (fun _ => bracket) fun _ => ?_
  refine iteInduction (fun _ => ?_) fun _ => ?_
  · by_cases equals : z.head? = some '='
    · rw [if_pos equals]
      exact ne
    · rw [if_neg equals]
      exact illegal
  · split
    · rename_i single pairs found
      exact operator single pairs found
    · exact word

/-- A token has a first character. -/
theorem getToken_pos (text : CString) : 0 < (getToken text).2 := by
  cases text with
  | nil => exact Nat.one_pos
  | cons c z =>
    apply getToken_cases (P := fun token => 0 < token.2)
    case space | parameter =>
      dsimp only
      omega
    case number => exact fun number => numberToken_pos (number.imp_right And.left)
    case quoted =>
      unfold quotedToken
      split <;> exact Nat.succ_pos _
    case variable_ => exact variableToken_pos 0 z
    case minus =>
      unfold minusToken
      split <;> dsimp only <;> omega
    case slash =>
      unfold slashToken
      split <;> dsimp only <;> omega
    case bracket =>
      unfold bracketToken
      dsimp only
      split <;> exact Nat.succ_pos _
    case ne | illegal => exact Nat.two_pos
    case operator =>
      intro single pairs found
      clear found
      fun_induction operatorToken single pairs z with
      | case1 => exact Nat.one_pos
      | case2 => exact Nat.two_pos
      | case3 _ _ _ _ _ ih => exact ih
    case word =>
      unfold wordToken blobToken
      dsimp only
      split_ifs <;> dsimp only <;> omega

/-- The text is read as these tokens, in any number of turns that is not below its length. -/
def Lexed (text : CString) (tokens : List Token) : Prop :=
  ∀ fuel, text.length ≤ fuel → tokenizeLoop fuel text = tokens

theorem Lexed.tokenize {text : CString} {tokens : List Token} (lexed : Lexed text tokens) :
    tokenize text = tokens :=
  lexed text.length (Nat.le_refl _)

theorem Lexed.nil : Lexed [] [] := by
  intro fuel _
  cases fuel <;> rfl

theorem Lexed.step {c : Char} {z : CString} {tokens : List Token}
    (after : Lexed ((c :: z).drop (getToken (c :: z)).2) tokens) :
    Lexed (c :: z)
      (kept (getToken (c :: z)).1 ((c :: z).take (getToken (c :: z)).2) ++ tokens) := by
  intro fuel enough
  have positive := getToken_pos (c :: z)
  cases fuel with
  | zero => simp at enough
  | succ fuel =>
    have shorter : ((c :: z).drop (getToken (c :: z)).2).length ≤ fuel := by
      simp only [List.length_drop, List.length_cons] at enough ⊢
      omega
    rw [tokenizeLoop, after fuel shorter]

theorem Lexed.token {piece rest : CString} {kind : TokenType} {tokens : List Token}
    (start : getToken (piece ++ rest) = (kind, piece.length)) (after : Lexed rest tokens) :
    Lexed (piece ++ rest) (kept kind piece ++ tokens) := by
  cases piece with
  | nil =>
    have positive := getToken_pos ([] ++ rest)
    rw [start] at positive
    exact absurd positive (Nat.lt_irrefl 0)
  | cons c piece =>
    have stepped := @Lexed.step c (piece ++ rest) tokens
    rw [← List.cons_append, start] at stepped
    dsimp only at stepped
    rw [List.take_left, List.drop_left] at stepped
    exact stepped after

/-- The first tokens of a text, and what follows them. -/
def firstTokens : Nat → CString → List Token × CString
  | 0, text => ([], text)
  | _ + 1, [] => ([], [])
  | k + 1, c :: z =>
    let token := getToken (c :: z)
    let more := firstTokens k ((c :: z).drop token.2)
    (kept token.1 ((c :: z).take token.2) ++ more.1, more.2)

theorem Lexed.first (k : Nat) {text : CString} {tokens : List Token}
    (after : Lexed (firstTokens k text).2 tokens) :
    Lexed text ((firstTokens k text).1 ++ tokens) := by
  induction k generalizing text with
  | zero => exact after
  | succ k ih =>
    cases text with
    | nil => exact after
    | cons c z =>
      rw [firstTokens, List.append_assoc]
      exact Lexed.step (ih after)

end Ct.Sqlite
