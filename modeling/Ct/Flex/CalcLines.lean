import Ct.Flex.CalcParser
import Mathlib.Data.List.Basic
import Mathlib.Data.List.TakeWhile

set_option autoImplicit false

namespace Ct.Flex.Calc

open Ct.Lib

theorem lexemes_nil : lexemes [] = [] := by rw [lexemes]

theorem lexemes_cons (c : Char) (rest : CString) :
    lexemes (c :: rest) = (longestMatch c rest).1.toList ++ lexemes (longestMatch c rest).2 := by
  rw [lexemes]

/-- No digit comes next, so that a number ends here. -/
def Stops (suffix : CString) : Prop := ∀ c, suffix.head? = some c → c.isDigit = false

theorem stops_of_head {c : Char} (other : c.isDigit = false) (rest : CString) :
    Stops (c :: rest) := by
  intro d first
  rwa [← Option.some_inj.mp first]

section Digits

variable {suffix : CString}

theorem takeWhile_stops (stops : Stops suffix) (code : CString) :
    (code ++ suffix).takeWhile Char.isDigit = code.takeWhile Char.isDigit := by
  induction code with
  | nil =>
    cases suffix with
    | nil => rfl
    | cons c rest => rw [List.nil_append, List.takeWhile_cons, stops c rfl]; rfl
  | cons c code ih =>
    rw [List.cons_append, List.takeWhile_cons, List.takeWhile_cons, ih]

theorem dropWhile_stops (stops : Stops suffix) (code : CString) :
    (code ++ suffix).dropWhile Char.isDigit = code.dropWhile Char.isDigit ++ suffix := by
  induction code with
  | nil =>
    cases suffix with
    | nil => rfl
    | cons c rest => rw [List.nil_append, List.dropWhile_cons, stops c rfl]; rfl
  | cons c code ih =>
    rw [List.cons_append, List.dropWhile_cons, List.dropWhile_cons, ih]
    split
    · rfl
    · rfl

end Digits

/-- A match that is no comment does not reach behind the code. -/
theorem longestMatch_append {c : Char} {code suffix : CString} (plain : '\n' ∉ code)
    (stops : Stops suffix) (single : c = '/' → (code ++ suffix).head? ≠ some '/') :
    longestMatch c (code ++ suffix) =
      ((longestMatch c code).1, (longestMatch c code).2 ++ suffix) := by
  have noComment : ¬ (c = '/' ∧ (code ++ suffix).head? = some '/' ∧ '\n' ∈ code ++ suffix) :=
    fun comment => single comment.1 comment.2.1
  have noComment' : ¬ (c = '/' ∧ code.head? = some '/' ∧ '\n' ∈ code) :=
    fun comment => plain comment.2.2
  rw [longestMatch, longestMatch, if_neg noComment, if_neg noComment', takeWhile_stops stops,
    dropWhile_stops stops]
  split
  · rfl
  · rfl

theorem longestMatch_suffix {c : Char} {code : CString} (plain : '\n' ∉ code) :
    (longestMatch c code).2 <:+ code := by
  rw [longestMatch]
  split
  · exact List.dropWhile_suffix _
  · split
    case isTrue comment => exact absurd comment.2.2 plain
    case isFalse => exact List.suffix_rfl

/-- A comment takes the end of its line with it. -/
theorem lexemes_comment {text : CString} (plain : '\n' ∉ text) (rest : CString) :
    lexemes ('/' :: '/' :: (text ++ '\n' :: rest)) = lexemes rest := by
  have ends : ((text ++ '\n' :: rest).dropWhile (· ≠ '\n')).tail = rest := by
    rw [List.dropWhile_append_of_pos, List.dropWhile_cons_of_neg (by simp), List.tail_cons]
    intro c member
    simpa using ne_of_mem_of_not_mem member plain
  have matched : longestMatch '/' ('/' :: (text ++ '\n' :: rest)) = (none, rest) := by
    rw [longestMatch, if_neg (by decide), if_pos (by simp), List.dropWhile_cons_of_pos (by simp),
      ends]
  rw [lexemes_cons, matched]
  rfl

theorem lexemes_newline (rest : CString) : lexemes ('\n' :: rest) = .eol :: lexemes rest := by
  have matched : longestMatch '\n' rest = (some .eol, rest) := by
    rw [longestMatch, if_neg (by decide), if_neg (by simp)]
    rfl
  rw [lexemes_cons, matched]
  rfl

theorem rule_eol {c : Char} (other : c ≠ '\n') : rule c ≠ some .eol := by
  rw [rule]
  repeat' split
  all_goals simp_all

theorem longestMatch_eol {c : Char} {rest : CString} (other : c ≠ '\n') :
    Lexeme.eol ∉ (longestMatch c rest).1.toList := by
  rw [longestMatch]
  split
  · simp
  · split
    · simp
    · simpa using rule_eol other

/-- A match that takes all of the code, up to a last slash, is that slash. -/
theorem longestMatch_slash {c : Char} {code : CString} (plain : '\n' ∉ code)
    (all : (longestMatch c code).2 = []) (last : (c :: code).getLast? = some '/') :
    (longestMatch c code).1 = some (.token .div) := by
  rw [longestMatch] at all ⊢
  split
  case isTrue digit =>
    rw [if_pos digit, List.dropWhile_eq_nil_iff] at all
    rcases List.mem_cons.mp (List.mem_of_getLast? last) with rfl | member
    · cases digit
    · cases all _ member
  case isFalse other =>
    rw [if_neg other, if_neg fun comment => plain comment.2.2] at all
    rw [if_neg fun comment => plain comment.2.2]
    obtain rfl : code = [] := all
    obtain rfl : c = '/' := Option.some_inj.mp last
    rfl

/-- As long as a comment does not take the end of the line with it, what stands behind the code
does not change its tokens, unless it makes a comment of the last character. -/
theorem lexemes_line (code : CString) (plain : '\n' ∉ code)
    (ended : .eol ∈ lexemes (code ++ ['\n'])) :
    (∀ suffix, Stops suffix → (suffix.head? = some '/' → code.getLast? ≠ some '/') →
      lexemes (code ++ suffix) = lexemes code ++ lexemes suffix) ∧
    (code.getLast? = some '/' → (lexemes code).getLast? = some (.token .div)) := by
  induction sized : code.length using Nat.strongRecOn generalizing code with
  | ind n ih =>
    cases code with
    | nil =>
      refine ⟨fun suffix _ _ => ?_, fun last => by cases last⟩
      rw [lexemes_nil, List.nil_append, List.nil_append]
    | cons c code =>
      rw [List.mem_cons, not_or] at plain
      have single : c = '/' → code.head? ≠ some '/' := by
        rintro rfl next
        obtain ⟨text, rfl⟩ := List.head?_eq_some_iff.mp next
        rw [List.mem_cons, not_or] at plain
        have comment := lexemes_comment plain.2.2 []
        rw [lexemes_nil] at comment
        exact List.not_mem_nil (comment ▸ ended)
      have step : ∀ suffix, Stops suffix →
          (suffix.head? = some '/' → (c :: code).getLast? ≠ some '/') →
          lexemes (c :: code ++ suffix) =
            (longestMatch c code).1.toList ++ lexemes ((longestMatch c code).2 ++ suffix) := by
        intro suffix stops border
        have whole := longestMatch_append (c := c) plain.2 stops ?_
        · rw [List.cons_append, lexemes_cons, whole]
        · intro slash
          cases code with
          | nil => exact fun next => border next (congrArg some slash)
          | cons d code => exact single slash
      have newline := step ['\n'] (stops_of_head (by decide) []) (fun same => by cases same)
      rw [newline, List.mem_append] at ended
      have rest := longestMatch_suffix (c := c) plain.2
      have shorter : (longestMatch c code).2.length < n := by
        have few := rest.length_le
        rw [← sized, List.length_cons]
        omega
      obtain ⟨appended, slash⟩ := ih _ shorter (longestMatch c code).2
        (fun member => plain.2 (rest.subset member))
        (ended.resolve_left (longestMatch_eol (Ne.symm plain.1))) rfl
      have alone := lexemes_cons c code
      have last : (longestMatch c code).2 ≠ [] →
          (longestMatch c code).2.getLast? = (c :: code).getLast? := by
        intro more
        obtain ⟨front, parts⟩ := rest
        conv_rhs => rw [← parts, ← List.cons_append]
        exact (List.getLast?_append_of_ne_nil _ more).symm
      constructor
      · intro suffix stops border
        rw [step suffix stops border, alone, List.append_assoc]
        congr 1
        refine appended suffix stops fun next => ?_
        by_cases more : (longestMatch c code).2 = []
        · rw [more]
          exact fun none => by cases none
        · rw [last more]
          exact border next
      · intro ends
        rw [alone]
        by_cases more : (longestMatch c code).2 = []
        · rw [longestMatch_slash plain.2 more ends, more, lexemes_nil]
          rfl
        · have division := slash ((last more).trans ends)
          rw [List.getLast?_append, division]
          rfl

end Ct.Flex.Calc
