import Ct.Lib.CString
import Mathlib.Data.List.Basic

set_option autoImplicit false

namespace Ct.Sqlite

open Ct.Lib

/-- The characters of a set up to its `]`: whether `c` is among them, and the pattern behind the
set. `prior` is the character a range can begin with. -/
def setLoop (c : Char) : Option Char → Bool → CString → Option (Bool × CString)
  | _, _, [] => none
  | _, seen, ']' :: pattern => some (seen, pattern)
  | some low, seen, '-' :: high :: pattern =>
    if high = ']' then some (seen || c == '-', pattern)
    else setLoop c none (seen || (low ≤ c && c ≤ high)) pattern
  | _, seen, member :: pattern => setLoop c (some member) (seen || c == member) pattern

/-- What `[` begins: whether the set matches `c`, and the pattern behind it. -/
def matchSet (c : Char) (pattern : CString) : Option (Bool × CString) :=
  match pattern with
  | '^' :: ']' :: pattern => (setLoop c none (c == ']') pattern).map fun (seen, rest) => (!seen, rest)
  | '^' :: pattern => (setLoop c none false pattern).map fun (seen, rest) => (!seen, rest)
  | ']' :: pattern => setLoop c none (c == ']') pattern
  | pattern => setLoop c none false pattern

/-- Some end of the text passes the test. -/
def anyTail (test : CString → Bool) : CString → Bool
  | [] => test []
  | c :: text => test (c :: text) || anyTail test text

/-- `patternCompare` with the wildcards of GLOB; a `*` stands for any characters. -/
def patternCompare : Nat → CString → CString → Bool
  | _, [], text => text.isEmpty
  | 0, _ :: _, _ => false
  | fuel + 1, '*' :: pattern, text => anyTail (patternCompare fuel pattern) text
  | _ + 1, _ :: _, [] => false
  | fuel + 1, p :: pattern, c :: text =>
    if p = '?' then patternCompare fuel pattern text
    else if p = '[' then
      match matchSet c pattern with
      | some (true, pattern) => patternCompare fuel pattern text
      | _ => false
    else c == p && patternCompare fuel pattern text

/-- `text GLOB pattern` -/
def glob (pattern text : CString) : Bool :=
  patternCompare pattern.length pattern text

example : glob "*, d[a-c]?e *".toList "id, date float".toList = true := by decide

section Words

variable {fuel : Nat} {pattern text word : CString}

theorem anyTail_iff (test : CString → Bool) (text : CString) :
    anyTail test text = true ↔ ∃ front tail, text = front ++ tail ∧ test tail = true := by
  induction text with
  | nil =>
    constructor
    · intro passes
      exact ⟨[], [], rfl, passes⟩
    · rintro ⟨front, tail, same, passes⟩
      rwa [(List.append_eq_nil_iff.mp same.symm).2] at passes
  | cons c text ih =>
    rw [anyTail, Bool.or_eq_true, ih]
    constructor
    · rintro (passes | ⟨front, tail, rfl, passes⟩)
      · exact ⟨[], c :: text, rfl, passes⟩
      · exact ⟨c :: front, tail, rfl, passes⟩
    · rintro ⟨front, tail, same, passes⟩
      cases front with
      | nil =>
        rw [List.nil_append] at same
        exact Or.inl (same ▸ passes)
      | cons d front => exact Or.inr ⟨front, tail, (List.cons.inj same).2, passes⟩

theorem patternCompare_nil (fuel : Nat) (text : CString) :
    patternCompare fuel [] text = text.isEmpty := by
  cases fuel with
  | zero => rfl
  | succ fuel => rfl

/-- At the end of a pattern `*` matches what is left. -/
theorem patternCompare_star (fuel : Nat) (text : CString) :
    patternCompare (fuel + 1) ['*'] text = true :=
  (anyTail_iff _ text).mpr ⟨text, [], (List.append_nil text).symm, patternCompare_nil fuel []⟩

theorem patternCompare_one (fuel : Nat) (c : Char) :
    patternCompare (fuel + 1) ('?' :: pattern) (c :: text) = patternCompare fuel pattern text := by
  rfl

/-- What is no wildcard matches itself. -/
theorem patternCompare_literal {p : Char} (star : p ≠ '*') (one : p ≠ '?') (bracket : p ≠ '[')
    (fuel : Nat) (text : CString) :
    patternCompare (fuel + 1) (p :: pattern) text = true ↔
      ∃ rest, text = p :: rest ∧ patternCompare fuel pattern rest = true := by
  cases text with
  | nil =>
    rw [patternCompare]
    · simp
    · exact star
  | cons c text =>
    rw [patternCompare, if_neg one, if_neg bracket, Bool.and_eq_true, beq_iff_eq]
    · constructor
      · rintro ⟨rfl, matched⟩
        exact ⟨text, rfl, matched⟩
      · rintro ⟨rest, same, matched⟩
        cases same
        exact ⟨rfl, matched⟩
    · exact star

/-- A word without brackets matches itself, whatever other wildcards are in it. -/
theorem patternCompare_self (bracket : '[' ∉ word)
    (more : patternCompare fuel pattern text = true) :
    patternCompare (word.length + fuel) (word ++ pattern) (word ++ text) = true := by
  induction word with
  | nil => rwa [List.nil_append, List.nil_append, List.length_nil, Nat.zero_add]
  | cons c word ih =>
    have kept := ih (List.not_mem_of_not_mem_cons bracket)
    rw [List.cons_append, List.cons_append, List.length_cons, Nat.add_right_comm]
    by_cases star : c = '*'
    · rw [star, patternCompare]
      exact (anyTail_iff _ _).mpr ⟨['*'], word ++ text, rfl, kept⟩
    · by_cases one : c = '?'
      · rwa [one, patternCompare_one]
      · rw [patternCompare_literal star one (List.ne_of_not_mem_cons bracket).symm]
        exact ⟨word ++ text, rfl, kept⟩

/-- A word without wildcards matches itself only. -/
theorem patternCompare_word (star : '*' ∉ word) (one : '?' ∉ word) (bracket : '[' ∉ word)
    (text : CString) :
    patternCompare (word.length + fuel) (word ++ pattern) text = true ↔
      ∃ rest, text = word ++ rest ∧ patternCompare fuel pattern rest = true := by
  induction word generalizing text with
  | nil => simp
  | cons c word ih =>
    rw [List.cons_append, List.length_cons, Nat.add_right_comm,
      patternCompare_literal (List.ne_of_not_mem_cons star).symm (List.ne_of_not_mem_cons one).symm
        (List.ne_of_not_mem_cons bracket).symm]
    constructor
    · rintro ⟨tail, rfl, matched⟩
      obtain ⟨rest, rfl, more⟩ := (ih (List.not_mem_of_not_mem_cons star)
        (List.not_mem_of_not_mem_cons one) (List.not_mem_of_not_mem_cons bracket) tail).mp matched
      exact ⟨rest, rfl, more⟩
    · rintro ⟨rest, rfl, matched⟩
      refine ⟨word ++ rest, rfl, ?_⟩
      exact (ih (List.not_mem_of_not_mem_cons star) (List.not_mem_of_not_mem_cons one)
        (List.not_mem_of_not_mem_cons bracket) _).mpr ⟨rest, rfl, matched⟩

theorem glob_around (word text : CString) :
    glob ('*' :: (word ++ ['*'])) text = true ↔ ∃ front tail, text = front ++ tail ∧
      patternCompare (word.length + 1) (word ++ ['*']) tail = true := by
  rw [glob, List.length_cons, List.length_append, List.length_singleton, patternCompare]
  exact anyTail_iff _ text

/-- `'*word*'` matches where the word is, if there are no brackets in it. -/
theorem glob_infix (bracket : '[' ∉ word) (front behind : CString) :
    glob ('*' :: (word ++ ['*'])) (front ++ (word ++ behind)) = true :=
  (glob_around _ _).mpr ⟨front, word ++ behind, rfl,
    patternCompare_self bracket (patternCompare_star 0 behind)⟩

/-- `'*word*'` matches only where the word is, if there are no wildcards in it. -/
theorem glob_iff_infix (star : '*' ∉ word) (one : '?' ∉ word) (bracket : '[' ∉ word)
    (text : CString) : glob ('*' :: (word ++ ['*'])) text = true ↔ word <:+: text := by
  rw [glob_around]
  constructor
  · rintro ⟨front, tail, rfl, matched⟩
    obtain ⟨rest, rfl, _⟩ := (patternCompare_word star one bracket tail).mp matched
    exact ⟨front, rest, List.append_assoc ..⟩
  · rintro ⟨front, rest, rfl⟩
    refine ⟨front, word ++ rest, List.append_assoc .., ?_⟩
    exact (patternCompare_word star one bracket _).mpr ⟨rest, rfl, patternCompare_star 0 rest⟩

end Words

end Ct.Sqlite
