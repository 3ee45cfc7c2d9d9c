import Mathlib.Data.List.TakeWhile

set_option autoImplicit false

namespace Ct.Lib

variable {α : Type}

/-- The maximal runs of elements with a property, in their order. -/
def maximalRuns (p : α → Bool) (text : List α) : List (List α) :=
  (text.splitOnP (!p ·)).filter (!·.isEmpty)

variable {p : α → Bool}

@[simp] theorem maximalRuns_nil : maximalRuns p [] = [] := rfl

theorem maximalRuns_append_other (front rest : List α) {a : α} (other : p a = false) :
    maximalRuns p (front ++ a :: rest) = maximalRuns p front ++ maximalRuns p rest := by
  rw [maximalRuns, List.splitOnP_append_cons front rest (by rw [other]; rfl), List.filter_append]
  rfl

theorem maximalRuns_cons_other {a : α} (other : p a = false) (rest : List α) :
    maximalRuns p (a :: rest) = maximalRuns p rest :=
  maximalRuns_append_other [] rest other

theorem maximalRuns_whole {run : List α} (nonempty : run ≠ []) (inside : ∀ a ∈ run, p a = true) :
    maximalRuns p run = [run] := by
  rw [maximalRuns, List.splitOnP_eq_singleton fun a member => by rw [inside a member]; rfl]
  simp [nonempty]

/-- A run ends at the end of the text and before an element without the property. -/
theorem maximalRuns_run {run rest : List α} (nonempty : run ≠ [])
    (inside : ∀ a ∈ run, p a = true) (ends : ∀ a, rest.head? = some a → p a = false) :
    maximalRuns p (run ++ rest) = run :: maximalRuns p rest := by
  cases rest with
  | nil => rw [List.append_nil, maximalRuns_whole nonempty inside, maximalRuns_nil]
  | cons a rest =>
    rw [maximalRuns_append_other run rest (ends a rfl), maximalRuns_whole nonempty inside,
      maximalRuns_cons_other (ends a rfl), List.singleton_append]

theorem head_dropWhile_other (p : α → Bool) (text : List α) (a : α)
    (first : (text.dropWhile p).head? = some a) : p a = false := by
  have := List.head?_dropWhile_not p text
  rw [first] at this
  simpa using this

theorem maximalRuns_cons {a : α} (inside : p a = true) (rest : List α) :
    maximalRuns p (a :: rest) =
      (a :: rest.takeWhile p) :: maximalRuns p (rest.dropWhile p) := by
  have run : ∀ b ∈ a :: rest.takeWhile p, p b = true :=
    List.forall_mem_cons.mpr ⟨inside, fun b member => List.mem_takeWhile_imp member⟩
  have parts := maximalRuns_run (List.cons_ne_nil _ _) run (head_dropWhile_other p rest)
  rwa [List.cons_append, List.takeWhile_append_dropWhile] at parts

end Ct.Lib
