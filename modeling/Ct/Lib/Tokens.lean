import Ct.Lib.Fault
import Mathlib.Data.List.TakeWhile

set_option autoImplicit false

namespace Ct.Lib

universe u

variable {α : Type u} [DecidableEq α]

/-- The first maximal run without `delim`, and what is left behind the delimiter that ends it. -/
def nextToken (delim : α) (text : List α) : Option (List α) × List α :=
  match text.dropWhile (· == delim) with
  | [] => (none, [])
  | c :: rest =>
    (some ((c :: rest).takeWhile (· != delim)), ((c :: rest).dropWhile (· != delim)).tail)

/-- `strtok_r`: `saveptr` is the text it points at, `none` before anything was stored there. -/
def strtokR (delim : α) (str saveptr : Option (List α)) :
    Except Fault (Option (List α) × List α) :=
  match str, saveptr with
  | some text, _ => .ok (nextToken delim text)
  | none, some saved => .ok (nextToken delim saved)
  | none, none => .error .uninitialised

/-- All runs without `delim`: the pieces between the delimiters that are not empty. -/
def tokens (delim : α) (text : List α) : List (List α) :=
  (text.splitOn delim).filter fun piece => !piece.isEmpty

/-- The next token of a string whose splitting has begun, used without a check. -/
def takeToken (delim : α) : StateT (List α) (Except Fault) (List α) := fun saved =>
  match nextToken delim saved with
  | (some token, rest) => .ok (token, rest)
  | (none, _) => .error .nullDeref

def takeTokens (delim : α) : Nat → StateT (List α) (Except Fault) (List (List α))
  | 0 => pure []
  | n + 1 => do
    let token ← takeToken delim
    let more ← takeTokens delim n
    pure (token :: more)

variable {delim : α} {text : List α}

theorem tokens_nil : tokens delim ([] : List α) = [] := by
  simp [tokens, List.splitOn_nil]

theorem tokens_ne_nil {token : List α} (member : token ∈ tokens delim text) : token ≠ [] := by
  rintro rfl
  simp [tokens] at member

theorem tokens_dropWhile (delim : α) (text : List α) :
    tokens delim (text.dropWhile (· == delim)) = tokens delim text := by
  induction text with
  | nil => rfl
  | cons c rest ih =>
    by_cases same : c = delim
    · subst same
      rw [List.dropWhile_cons_of_pos (by simp), ih]
      simp [tokens, List.splitOn_cons_eq_if_modifyHead]
    · rw [List.dropWhile_cons_of_neg (by simpa using same)]

theorem splitOn_eq_takeWhile (delim : α) (text : List α) :
    text.splitOn delim = text.takeWhile (· != delim) ::
      (if delim ∈ text then (text.dropWhile (· != delim)).tail.splitOn delim else []) := by
  induction text with
  | nil => simp [List.splitOn_nil]
  | cons c rest ih =>
    by_cases same : c = delim
    · subst same
      simp [List.splitOn_cons_eq_if_modifyHead]
    · have other : delim ≠ c := fun equal => same equal.symm
      rw [List.splitOn_cons_eq_if_modifyHead, ih]
      simp [same, other]

theorem nextToken_cases (delim : α) (text : List α) :
    (nextToken delim text = (none, []) ∧ tokens delim text = []) ∨
      ∃ token rest, nextToken delim text = (some token, rest) ∧
        tokens delim text = token :: tokens delim rest := by
  rw [← tokens_dropWhile delim text]
  unfold nextToken
  cases start : text.dropWhile (· == delim) with
  | nil => exact Or.inl ⟨rfl, tokens_nil⟩
  | cons c rest =>
    have other : c ≠ delim := by
      have first := List.head?_dropWhile_not (· == delim) text
      simpa [start] using first
    refine Or.inr ⟨_, _, rfl, ?_⟩
    simp only [tokens]
    rw [splitOn_eq_takeWhile, List.filter_cons_of_pos (by simp [other])]
    split
    · rfl
    · rename_i absent
      have all : (c :: rest).dropWhile (· != delim) = [] := by
        rw [List.dropWhile_eq_nil_iff]
        intro x member
        simpa using fun equal : x = delim => absent (equal ▸ member)
      rw [all]
      simp [List.splitOn_nil]

/-- Reading `n` tokens in a row delivers the first `n`, or faults where there are fewer. -/
theorem takeTokens_cases (delim : α) (n : Nat) :
    ∀ saved : List α,
      (∃ rest, takeTokens delim n saved = .ok ((tokens delim saved).take n, rest) ∧
        n ≤ (tokens delim saved).length ∧ tokens delim rest = (tokens delim saved).drop n) ∨
      (takeTokens delim n saved = .error .nullDeref ∧ (tokens delim saved).length < n) := by
  induction n with
  | zero =>
    intro saved
    exact Or.inl ⟨saved, rfl, Nat.zero_le _, rfl⟩
  | succ n ih =>
    intro saved
    rcases nextToken_cases delim saved with ⟨missed, none⟩ | ⟨token, rest, found, split⟩
    · refine Or.inr ⟨?_, by rw [none]; exact Nat.zero_lt_succ n⟩
      simp only [takeTokens, bind, StateT.bind, takeToken, missed, Except.bind]
    · rw [split]
      rcases ih rest with ⟨last, read, enough, left⟩ | ⟨failed, few⟩
      · refine Or.inl ⟨last, ?_, Nat.succ_le_succ enough, left⟩
        simp only [takeTokens, bind, StateT.bind, takeToken, found, read, Except.bind, pure_step,
          List.take_succ_cons]
      · refine Or.inr ⟨?_, Nat.succ_lt_succ few⟩
        simp only [takeTokens, bind, StateT.bind, takeToken, found, failed, Except.bind]

private theorem getElem?_filter_of_prefix {β : Type u} (p : β → Bool) (n : Nat) :
    ∀ (pieces : List β),
      (∀ i, i < n → ∃ piece, pieces[i]? = some piece ∧ p piece = true) →
      ∀ i, i < n → (pieces.filter p)[i]? = pieces[i]? := by
  induction n with
  | zero =>
    intro pieces _ i below
    exact absurd below (Nat.not_lt_zero i)
  | succ n ih =>
    intro pieces full i below
    obtain ⟨piece, first, holds⟩ := full 0 (Nat.zero_lt_succ n)
    cases pieces with
    | nil => cases first
    | cons head rest =>
      cases first
      rw [List.filter_cons_of_pos holds]
      cases i with
      | zero => rfl
      | succ i =>
        have tail := ih rest (fun j small => full (j + 1) (Nat.succ_lt_succ small)) i
          (Nat.lt_of_succ_lt_succ below)
        simpa only [List.getElem?_cons_succ] using tail

/-- As long as no piece is empty, the tokens are the pieces. -/
theorem tokens_getElem? {n : Nat}
    (full : ∀ i, i < n → ∃ piece, (text.splitOn delim)[i]? = some piece ∧ piece ≠ []) {i : Nat}
    (below : i < n) : (tokens delim text)[i]? = (text.splitOn delim)[i]? := by
  refine getElem?_filter_of_prefix _ n (text.splitOn delim) (fun j small => ?_) i below
  obtain ⟨piece, here, nonempty⟩ := full j small
  exact ⟨piece, here, by simpa using nonempty⟩

end Ct.Lib
