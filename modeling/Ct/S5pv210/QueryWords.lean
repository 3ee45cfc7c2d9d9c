import Ct.S5pv210.Query
import Ct.Lib.Words

set_option autoImplicit false

namespace Ct.S5pv210.Main

open Ct.Lib

def IsWord (word : CString) : Prop :=
  word ≠ [] ∧ ∀ c ∈ word, isBlank c = false ∧ c ≠ '\x00'

theorem dark_inside {word : CString} (dark : ∀ c ∈ word, isBlank c = false ∧ c ≠ '\x00') :
    '\x00' ∉ word := fun member => (dark _ member).2 rfl

theorem IsWord.inside {word : CString} (isWord : IsWord word) : '\x00' ∉ word :=
  dark_inside isWord.2

/-- A line that starts with a word, with single blanks before the others. -/
structure Line where
  first : CString
  rest : List (Char × CString)
  first_word : IsWord first
  rest_words : ∀ part ∈ rest, isBlank part.1 = true ∧ IsWord part.2
  few : rest.length < shellMaxArguments

/-- A word, and the others with what is in front of them. -/
def joined (first : CString) (rest : List (Char × CString)) : List Char :=
  first ++ rest.flatMap fun part => part.1 :: part.2

def Line.text (line : Line) : CString := joined line.first line.rest

def Line.words (line : Line) : List CString := line.first :: line.rest.map Prod.snd

/-- The line after its blanks are overwritten. -/
def cut (first : CString) (rest : List (Char × CString)) : List Char :=
  joined first (rest.map fun part => ('\x00', part.2))

/-- The first word ends where the first blank was. -/
theorem cut_start (first tail : List Char) (rest : List (Char × CString)) :
    ∃ behind, cut first rest ++ '\x00' :: tail = first ++ '\x00' :: behind := by
  cases rest with
  | nil => exact ⟨tail, by simp [cut, joined]⟩
  | cons part rest => exact ⟨cut part.2 rest ++ '\x00' :: tail, by simp [cut, joined]⟩

section Words

variable (front tail : List Char) {word : List Char}

theorem wordEnd_word (plain : ∀ c ∈ word, isBlank c = false ∧ c ≠ '\x00') {stop : Char}
    (stops : isBlank stop = true ∨ stop = '\x00') :
    wordEnd (word ++ stop :: tail) = .ok word.length := by
  induction word with
  | nil => rcases stops with blank | rfl <;> simp [wordEnd, *]
  | cons c word ih =>
    obtain ⟨⟨dark, inside⟩, later⟩ := List.forall_mem_cons.mp plain
    simp [wordEnd, dark, inside, ih later, Except.map]

theorem stringAt_word (inside : '\x00' ∉ word) :
    stringAt (front ++ (word ++ '\x00' :: tail)) front.length = .ok word := by
  rw [stringAt, List.drop_left, if_pos (List.mem_append_right _ List.mem_cons_self),
    takeWhile_ne inside]

/-- Behind this text something begins that is not the end of the string. -/
theorem getElem?_start {stop : Char} (plain : ∀ c ∈ word, c ≠ '\x00')
    (full : word ≠ [] ∨ stop ≠ '\x00') :
    ∃ c, (front ++ (word ++ stop :: tail))[front.length]? = some c ∧ c ≠ '\x00' := by
  rw [List.getElem?_append_right (Nat.le_refl _), Nat.sub_self]
  cases word with
  | nil => exact ⟨stop, rfl, full.resolve_left fun none => none rfl⟩
  | cons c word => exact ⟨c, rfl, plain c List.mem_cons_self⟩

theorem parseLoop_end (fuel : Nat) (argv : List Nat) :
    parseLoop (fuel + 1) (front ++ '\x00' :: tail) argv front.length =
      .ok (front ++ '\x00' :: tail, argv) := by
  have stops := getElem?_front front '\x00' tail
  rw [parseLoop, stops]
  exact if_pos rfl

/-- One turn of the loop makes an argument of what is in front of a blank. -/
theorem parseLoop_run (plain : ∀ c ∈ word, isBlank c = false ∧ c ≠ '\x00') {stop : Char}
    (blank : isBlank stop = true) (fuel : Nat) (argv : List Nat) :
    parseLoop (fuel + 1) (front ++ (word ++ stop :: tail)) argv front.length =
      if argv.length < shellMaxArguments then
        parseLoop fuel (front ++ (word ++ '\x00' :: tail)) (argv ++ [front.length])
          (front.length + word.length + 1)
      else .error .outOfBounds := by
  have seen : stop ≠ '\x00' := by
    rintro rfl
    exact absurd blank (by decide)
  obtain ⟨c, start, dark⟩ := getElem?_start front tail (fun c member => (plain c member).2)
    (Or.inr seen)
  have ended := wordEnd_word tail plain (Or.inl blank)
  have behind := getElem?_behind front word stop tail
  rw [parseLoop, start]
  simp only [dark, if_false, List.drop_left, ended, bind, Except.bind, behind, Option.some_inj,
    seen, set_behind]

/-- The last word is an argument. -/
theorem parseLoop_last (isWord : IsWord word) (fuel : Nat) (argv : List Nat) :
    parseLoop (fuel + 2) (front ++ (word ++ '\x00' :: tail)) argv front.length =
      if argv.length < shellMaxArguments then
        .ok (front ++ (word ++ '\x00' :: tail), argv ++ [front.length])
      else .error .outOfBounds := by
  obtain ⟨c, start, dark⟩ := getElem?_start front tail (fun c member => (isWord.2 c member).2)
    (Or.inl isWord.1)
  have ended := wordEnd_word tail isWord.2 (Or.inr rfl)
  have behind := getElem?_behind front word '\x00' tail
  have stops := parseLoop_end (front ++ word) tail fuel (argv ++ [front.length])
  rw [List.append_assoc, List.length_append] at stops
  rw [parseLoop, start]
  simp only [dark, if_false, List.drop_left, ended, bind, Except.bind, behind, if_true, stops]

end Words

/-- The words of a line become the arguments. -/
theorem parseLoop_words (rest : List (Char × CString)) :
    ∀ (front tail : List Char) (argv : List Nat) (fuel : Nat) {first : CString}, IsWord first →
      (∀ part ∈ rest, isBlank part.1 = true ∧ IsWord part.2) →
      argv.length + rest.length < shellMaxArguments → rest.length + 1 < fuel →
      ∃ more, parseLoop fuel (front ++ (joined first rest ++ '\x00' :: tail)) argv front.length =
          .ok (front ++ (cut first rest ++ '\x00' :: tail), argv ++ more) ∧
        more.mapM (stringAt (front ++ (cut first rest ++ '\x00' :: tail))) =
          .ok (first :: rest.map Prod.snd) := by
  induction rest with
  | nil =>
    intro front tail argv fuel first isWord _ few enough
    obtain ⟨fuel, rfl⟩ : ∃ left, fuel = left + 2 := ⟨fuel - 2, by simp at enough; omega⟩
    have whole : joined first [] = first := List.append_nil first
    have last := parseLoop_last front tail isWord fuel argv
    rw [if_pos (show argv.length < shellMaxArguments from few)] at last
    refine ⟨[front.length], ?_, ?_⟩
    · rw [cut, List.map_nil, whole, last]
    · rw [cut, List.map_nil, whole, List.mapM_cons, stringAt_word front tail isWord.inside]
      rfl
  | cons part rest ih =>
    intro front tail argv fuel first isWord words few enough
    obtain ⟨⟨blank, next⟩, later⟩ := List.forall_mem_cons.mp words
    obtain ⟨fuel, rfl⟩ : ∃ left, fuel = left + 1 := ⟨fuel - 1, by omega⟩
    rw [List.length_cons] at few enough
    have split : joined first (part :: rest) ++ '\x00' :: tail =
        first ++ part.1 :: (joined part.2 rest ++ '\x00' :: tail) := by
      simp [joined]
    have split' : cut first (part :: rest) ++ '\x00' :: tail =
        first ++ '\x00' :: (cut part.2 rest ++ '\x00' :: tail) := by
      simp [cut, joined]
    obtain ⟨more, ran, strings⟩ := ih (front ++ (first ++ ['\x00'])) tail
      (argv ++ [front.length]) fuel next later (by simp; omega) (by omega)
    rw [append_cell, append_cell, length_cell] at ran
    rw [append_cell] at strings
    refine ⟨front.length :: more, ?_, ?_⟩
    · rw [split, split', parseLoop_run front _ isWord.2 blank,
        if_pos (show argv.length < shellMaxArguments by omega), ran, List.append_assoc,
        List.singleton_append]
    · rw [split', List.mapM_cons, stringAt_word front _ isWord.inside, strings]
      rfl

end Ct.S5pv210.Main
