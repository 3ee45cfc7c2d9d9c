import Ct.Sqlite.Lexed
import Mathlib.Algebra.GroupWithZero.Nat

set_option autoImplicit false

namespace Ct.Sqlite

open Ct.Lib

theorem variableToken_string (n : Nat) (z : CString) : (variableToken n z).1 ≠ .string := by
  fun_induction variableToken n z <;> grind

theorem operatorToken_string {single : TokenType} {pairs : List (Char × TokenType)}
    (plain : single ≠ .string) (plains : ∀ pair ∈ pairs, pair.2 ≠ .string) (z : CString) :
    (operatorToken single pairs z).1 ≠ .string := by
  fun_induction operatorToken single pairs z with
  | case1 => exact plain
  | case2 => exact plains _ List.mem_cons_self
  | case3 z d kind pairs _ ih =>
    exact ih fun pair inside => plains pair (List.mem_cons_of_mem _ inside)

theorem operators_string {c : Char} {single : TokenType} {pairs : List (Char × TokenType)}
    (found : operators.lookup c = some (single, pairs)) :
    single ≠ .string ∧ ∀ pair ∈ pairs, pair.2 ≠ .string := by
  obtain ⟨front, behind, split, _⟩ := List.lookup_eq_some_iff.mp found
  have plain : ∀ entry ∈ operators, entry.2.1 ≠ .string ∧ ∀ pair ∈ entry.2.2, pair.2 ≠ .string := by
    decide
  exact plain (c, single, pairs) (by simp [split])

/-- Only a quote opens a string literal. -/
theorem getToken_string {c : Char} {z : CString} : (getToken (c :: z)).1 = .string → c = '\'' := by
  apply getToken_cases (P := fun token => token.1 = .string → c = '\'')
  case space | parameter | ne | illegal => exact nofun
  case number =>
    intro _
    unfold numberToken
    dsimp only
    split_ifs <;> exact nofun
  case quoted =>
    unfold quotedToken
    split
    · exact nofun
    · dsimp only
      split_ifs with quote
      · exact fun _ => quote
      · exact nofun
  case variable_ => exact fun string => absurd string (variableToken_string 0 z)
  case minus =>
    unfold minusToken
    split <;> exact nofun
  case slash =>
    unfold slashToken
    split <;> exact nofun
  case bracket =>
    unfold bracketToken
    dsimp only
    split <;> exact nofun
  case operator =>
    intro single pairs found string
    have plain := operators_string found
    exact absurd string (operatorToken_string plain.1 plain.2 z)
  case word =>
    unfold wordToken blobToken
    dsimp only
    split_ifs <;> exact nofun

/-- The quotes of a string literal: one at each end, and two for each that it stands for. -/
theorem closing_count {z : CString} {i : Nat} (found : closing '\'' z = some i) :
    (z.take (i + 1)).count '\'' = 1 + 2 * (dequoteLoop (z.take (i + 1))).count '\'' := by
  fun_induction closing '\'' z generalizing i with
  | case1 => simp at found
  | case2 =>
    obtain rfl := Option.some.inj found
    rfl
  | case3 c other => simp at found
  | case4 rest ih =>
    obtain ⟨j, inner, rfl⟩ := Option.map_eq_some_iff.mp found
    have counted := ih inner
    simp only [List.take_succ_cons, List.count_cons_self, dequoteLoop, if_true]
    omega
  | case5 d rest other =>
    obtain rfl := Option.some.inj found
    rfl
  | case6 c d rest other ih =>
    obtain ⟨j, inner, rfl⟩ := Option.map_eq_some_iff.mp found
    have counted := ih inner
    have ne : c ≠ '\'' := other
    simp only [List.take_succ_cons, dequoteLoop, if_neg other, List.count_cons_of_ne ne] at counted ⊢
    exact counted

/-- The quotes in a string token and in its value. -/
theorem string_count {c : Char} {z : CString} (string : (getToken (c :: z)).1 = .string) :
    let text := (c :: z).take (getToken (c :: z)).2
    text.count '\'' = 2 + 2 * (dequote text).count '\'' := by
  obtain rfl := getToken_string string
  have quoted : getToken ('\'' :: z) = quotedToken '\'' z := rfl
  rw [quoted] at string ⊢
  unfold quotedToken at string ⊢
  cases found : closing '\'' z with
  | none => simp [found] at string
  | some i =>
    have counted := closing_count found
    simp only [dequote, List.take_succ_cons, List.tail_cons, List.count_cons_self]
    omega

/-- The values of the string literals among the tokens. -/
def stringLiterals (tokens : List Token) : List CString :=
  (tokens.filter fun token => token.kind = .string).map fun token => dequote token.text

theorem stringLiterals_append (front behind : List Token) :
    stringLiterals (front ++ behind) = stringLiterals front ++ stringLiterals behind := by
  simp only [stringLiterals, List.filter_append, List.map_append]

/-- How many quotes the literals for these values have. -/
def quotesOf (values : List CString) : Nat :=
  (values.map fun v => 2 + 2 * v.count '\'').sum

theorem quotesOf_kept (c : Char) (z : CString) :
    let token := getToken (c :: z)
    quotesOf (stringLiterals (kept token.1 ((c :: z).take token.2))) ≤
      ((c :: z).take token.2).count '\'' := by
  dsimp only
  by_cases string : (getToken (c :: z)).1 = .string
  · have counted := string_count string
    dsimp only at counted
    simp [kept, string, stringLiterals, quotesOf, counted]
  · have silent : stringLiterals (kept (getToken (c :: z)).1
        ((c :: z).take (getToken (c :: z)).2)) = [] := by
      unfold kept stringLiterals
      split_ifs
      · rfl
      · simp [string]
    rw [silent]
    exact Nat.zero_le _

/-- No reading of a text yields literals that take more quotes than the text has. -/
theorem quotesOf_tokenizeLoop (fuel : Nat) (text : CString) :
    quotesOf (stringLiterals (tokenizeLoop fuel text)) ≤ text.count '\'' := by
  induction fuel generalizing text with
  | zero => cases text <;> exact Nat.zero_le _
  | succ fuel ih =>
    cases text with
    | nil => exact Nat.zero_le _
    | cons c z =>
      have here := quotesOf_kept c z
      have later := ih ((c :: z).drop (getToken (c :: z)).2)
      have split : (c :: z).count '\'' = ((c :: z).take (getToken (c :: z)).2).count '\'' +
          ((c :: z).drop (getToken (c :: z)).2).count '\'' := by
        rw [← List.count_append, List.take_append_drop]
      rw [tokenizeLoop, stringLiterals_append, quotesOf, List.map_append, List.sum_append, split]
      exact Nat.add_le_add here later

end Ct.Sqlite
