import Mathlib.Data.List.TakeWhile
import Mathlib.Data.List.Chain

set_option autoImplicit false

namespace Ct.Lib

universe u

variable {α : Type u} {blank : α → Bool}

section Stop

variable (p : α → Bool) {front : List α} {stop : α}

theorem takeWhile_stop (all : ∀ x ∈ front, p x = true) (stops : p stop = false) (rest : List α) :
    (front ++ stop :: rest).takeWhile p = front := by
  rw [List.takeWhile_append_of_pos all, List.takeWhile_cons_of_neg (by simp [stops]),
    List.append_nil]

theorem dropWhile_stop (all : ∀ x ∈ front, p x = true) (stops : p stop = false) (rest : List α) :
    (front ++ stop :: rest).dropWhile p = stop :: rest := by
  rw [List.dropWhile_append_of_pos all, List.dropWhile_cons_of_neg (by simp [stops])]

/-- What is in front of the first `stop`. -/
theorem takeWhile_ne [DecidableEq α] (outside : stop ∉ front) (rest : List α) :
    (front ++ stop :: rest).takeWhile (· ≠ stop) = front := by
  apply takeWhile_stop
  · intro c member
    apply decide_eq_true
    rintro rfl
    exact outside member
  · exact decide_eq_false (not_not_intro rfl)

end Stop

/-- All maximal runs of elements that are not blank. -/
def wordsOf (blank : α → Bool) (text : List α) : List (List α) :=
  (text.splitOnP blank).filter fun piece => !piece.isEmpty

theorem wordsOf_nil : wordsOf blank ([] : List α) = [] := by
  simp [wordsOf]

theorem wordsOf_blank {c : α} (isBlank : blank c = true) (text : List α) :
    wordsOf blank (c :: text) = wordsOf blank text := by
  rw [wordsOf, List.splitOnP_cons_eq_if_modifyHead, if_pos isBlank]
  rfl

theorem wordsOf_word {word : List α} (plain : ∀ c ∈ word, blank c = false) (some : word ≠ []) :
    wordsOf blank word = [word] := by
  rw [wordsOf, List.splitOnP_eq_singleton plain]
  exact List.filter_cons_of_pos (by simpa using some)

/-- A word in front of a blank. -/
theorem wordsOf_append {word : List α} (plain : ∀ c ∈ word, blank c = false) (some : word ≠ [])
    {c : α} (isBlank : blank c = true) (text : List α) :
    wordsOf blank (word ++ c :: text) = word :: wordsOf blank text := by
  rw [wordsOf, List.splitOnP_append_cons_of_forall_mem plain c isBlank]
  exact List.filter_cons_of_pos (by simpa using some)

/-- At an element that is not blank the first word begins; what follows it is empty or begins with
a blank. -/
theorem wordsOf_start {c : α} (start : blank c = false) (rest : List α) :
    wordsOf blank (c :: rest) = (c :: rest).takeWhile (fun x => !blank x) ::
      wordsOf blank ((c :: rest).dropWhile fun x => !blank x).tail := by
  have plain : ∀ x ∈ (c :: rest).takeWhile (fun x => !blank x), blank x = false := by
    intro x member
    simpa using List.mem_takeWhile_imp member
  have some : (c :: rest).takeWhile (fun x => !blank x) ≠ [] := by
    rw [List.takeWhile_cons_of_pos (by simp [start])]
    exact List.cons_ne_nil _ _
  have parts := List.takeWhile_append_dropWhile (p := fun x => !blank x) (l := c :: rest)
  cases behind : (c :: rest).dropWhile (fun x => !blank x) with
  | nil =>
    rw [behind, List.append_nil] at parts
    rw [List.tail_nil, wordsOf_nil, ← wordsOf_word plain some, parts]
  | cons d tail =>
    have stops := List.head?_dropWhile_not (fun x => !blank x) (c :: rest)
    rw [behind] at parts stops
    rw [List.tail_cons, ← wordsOf_append plain some (by simpa using stops) tail, parts]

/-- A text is empty, or a last word, or a run without blanks in front of a blank and more text. -/
theorem runs_induction (blank : α → Bool) {motive : List α → Prop} (empty : motive [])
    (last : ∀ word, (∀ c ∈ word, blank c = false) → word ≠ [] → motive word)
    (more : ∀ word c text, (∀ c ∈ word, blank c = false) → blank c = true → motive text →
      motive (word ++ c :: text)) (text : List α) : motive text := by
  induction length : text.length using Nat.strongRecOn generalizing text with
  | _ n ih =>
    have parts := List.takeWhile_append_dropWhile (p := fun c => !blank c) (l := text)
    have plain : ∀ c ∈ text.takeWhile (fun c => !blank c), blank c = false := by
      intro c member
      simpa using List.mem_takeWhile_imp member
    cases behind : text.dropWhile (fun c => !blank c) with
    | nil =>
      rw [behind, List.append_nil] at parts
      rw [parts] at plain
      by_cases none : text = []
      · rwa [none]
      · exact last text plain none
    | cons c rest =>
      have stops := List.head?_dropWhile_not (fun c => !blank c) text
      rw [behind] at parts stops
      have shorter : rest.length < n := by
        rw [← length, ← parts, List.length_append, List.length_cons]
        omega
      rw [← parts]
      exact more _ c rest plain (by simpa using stops) (ih _ shorter rest rfl)

/-- The runs in front of the blanks, which may be empty, and what is behind the last blank. -/
def runsOf (blank : α → Bool) : List α → List (List α)
  | [] => []
  | c :: text =>
    if blank c then [] :: runsOf blank text
    else match runsOf blank text with
      | [] => [[c]]
      | run :: runs => (c :: run) :: runs

theorem runsOf_word {word : List α} (plain : ∀ c ∈ word, blank c = false) (some : word ≠ []) :
    runsOf blank word = [word] := by
  induction word with
  | nil => exact absurd rfl some
  | cons c word ih =>
    obtain ⟨dark, later⟩ := List.forall_mem_cons.mp plain
    rw [runsOf, dark, if_neg Bool.false_ne_true]
    by_cases none : word = []
    · rw [none]
      rfl
    · rw [ih later none]

theorem runsOf_append {word : List α} (plain : ∀ c ∈ word, blank c = false) {c : α}
    (isBlank : blank c = true) (text : List α) :
    runsOf blank (word ++ c :: text) = word :: runsOf blank text := by
  induction word with
  | nil => rw [List.nil_append, runsOf, if_pos isBlank]
  | cons d word ih =>
    obtain ⟨dark, later⟩ := List.forall_mem_cons.mp plain
    rw [List.cons_append, runsOf, dark, if_neg Bool.false_ne_true, ih later]

/-- The words are the runs that are not empty. -/
theorem wordsOf_eq_filter (text : List α) :
    wordsOf blank text = (runsOf blank text).filter fun run => !run.isEmpty := by
  induction text using runs_induction blank with
  | empty => exact wordsOf_nil
  | last word plain some =>
    rw [wordsOf_word plain some, runsOf_word plain some]
    simp [some]
  | more word c text plain isBlank ih =>
    rw [runsOf_append plain isBlank]
    by_cases none : word = []
    · rw [none, List.nil_append, wordsOf_blank isBlank, ih]
      rfl
    · rw [wordsOf_append plain none isBlank, ih]
      exact (List.filter_cons_of_pos (by simpa using none)).symm

/-- No blank begins the text or follows another. -/
def SingleBlanks (blank : α → Bool) (text : List α) : Prop :=
  (∀ c ∈ text.head?, blank c = false) ∧ text.IsChain fun a b => blank a = true → blank b = false

theorem nil_notMem_runsOf (text : List α) : [] ∉ runsOf blank text ↔ SingleBlanks blank text := by
  have chain : ∀ word : List α, (∀ c ∈ word, blank c = false) →
      word.IsChain fun a b => blank a = true → blank b = false := by
    intro word plain
    apply List.Pairwise.isChain
    apply List.pairwise_of_forall_mem_list
    intro a _ b member _
    exact plain b member
  induction text using runs_induction blank with
  | empty => simp [runsOf, SingleBlanks]
  | last word plain some =>
    apply iff_of_true
    · rw [runsOf_word plain some, List.mem_singleton]
      exact some.symm
    · exact ⟨fun c member => plain c (List.mem_of_mem_head? member), chain word plain⟩
  | more word c text plain isBlank ih =>
    have later : [] ∉ runsOf blank text ↔ SingleBlanks blank text := ih
    rw [runsOf_append plain isBlank, List.mem_cons, not_or, later, SingleBlanks, SingleBlanks]
    cases word with
    | nil => simp [isBlank]
    | cons d word =>
      have dark := plain d List.mem_cons_self
      have joint : ∀ x ∈ (d :: word).getLast?, ∀ y ∈ (c :: text).head?,
          blank x = true → blank y = false := by
        intro x member y _ light
        rw [plain x (List.mem_of_mem_getLast? member)] at light
        cases light
      rw [List.isChain_append, List.isChain_cons (x := c)]
      constructor
      · rintro ⟨-, start, rest⟩
        refine ⟨fun x member => ?_, chain _ plain, ⟨fun y member _ => start y member, rest⟩, joint⟩
        rwa [← Option.mem_some_iff.mp member]
      · rintro ⟨-, -, ⟨start, rest⟩, -⟩
        exact ⟨(List.cons_ne_nil d word).symm, fun y member => start y member isBlank, rest⟩

theorem runsOf_eq_wordsOf_iff (text : List α) :
    runsOf blank text = wordsOf blank text ↔ SingleBlanks blank text := by
  rw [← nil_notMem_runsOf, wordsOf_eq_filter, eq_comm, List.filter_eq_self]
  constructor
  · intro full member
    exact absurd (full [] member) (by simp)
  · intro none run member
    cases run with
    | nil => exact absurd member none
    | cons c run => rfl

end Ct.Lib
