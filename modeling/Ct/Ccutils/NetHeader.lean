import Ct.Lib.CString
import Ct.Lib.Fault

set_option autoImplicit false

namespace Ct.Ccutils.Net

open Ct.Lib

/-- `*p` in a buffer that ends with its terminator. -/
def charAt (buffer : CString) (p : Nat) : Except Fault Char :=
  match buffer[p]? with
  | some c => .ok c
  | none => if p = buffer.length then .ok '\x00' else .error .outOfBounds

/-- `for(p = buffer; *p != 0; p++)` -/
def splitLoop (buffer : CString) : Nat → Nat → Except Fault (Option Nat)
  | 0, _ => .error .outOfFuel
  | fuel + 1, p => do
    let c ← charAt buffer p
    if c = '\x00' then return none
    if c ≠ '\r' then splitLoop buffer fuel (p + 1)
    else
      let c ← charAt buffer (p + 1)
      if c ≠ '\n' then splitLoop buffer fuel (p + 2)
      else
        let c ← charAt buffer (p + 2)
        if c ≠ '\r' then splitLoop buffer fuel (p + 3)
        else
          let c ← charAt buffer (p + 3)
          if c ≠ '\n' then splitLoop buffer fuel (p + 4) else return some (p + 4)

/-- A pointer into the buffer is its position. -/
def splitHttpResponseHeader (buffer : CString) : Except Fault (Option Nat) :=
  splitLoop buffer (buffer.length + 1) 0

/-- CR LF CR LF -/
def headerEnd : CString := ['\r', '\n', '\r', '\n']

/-- The first CR LF CR LF of the text begins at `k`. -/
structure First (text : CString) (k : Nat) : Prop where
  here : headerEnd <+: text.drop k
  before : ∀ j, j < k → ¬ headerEnd <+: text.drop j

/-- The result is the position behind the first CR LF CR LF, or null where there is none. -/
def Splits (text : CString) (result : Except Fault (Option Nat)) : Prop :=
  (∃ k, First text k ∧ result = .ok (some (k + 4))) ∨
    (∀ k, ¬ headerEnd <+: text.drop k) ∧ result = .ok none

/-- The number of CRs at the end of a text. -/
def crs (text : CString) : Nat := (text.reverse.takeWhile (· = '\r')).length

/-- An even number of CRs stands before the first CR LF CR LF, or, where there is none, at the end
of the text and before a LF at its end. -/
def EvenRuns (text : CString) : Prop :=
  (∀ k, First text k → crs (text.take k) % 2 = 0) ∧
    ((∀ k, ¬ headerEnd <+: text.drop k) →
      crs text % 2 = 0 ∧ ∀ line, text = line ++ ['\n'] → crs line % 2 = 0)

section Turns

variable {before rest : CString} {fuel : Nat}

theorem charAt_append (before rest : CString) (j : Nat) :
    charAt (before ++ rest) (before.length + j) = charAt rest j := by
  rw [charAt, charAt, List.getElem?_append_right (Nat.le_add_right _ _), Nat.add_sub_cancel_left,
    List.length_append]
  simp only [Nat.add_left_cancel_iff]

theorem charAt_first (before rest : CString) :
    charAt (before ++ rest) before.length = charAt rest 0 := charAt_append before rest 0

/-- What a turn of the loop passes over when it does not find the end of the header. -/
inductive Piece : CString → Prop
  | other (c : Char) (ordinary : c ≠ '\r') (inside : c ≠ '\x00') : Piece [c]
  | cr (c : Char) (breaks : c ≠ '\n') : Piece ['\r', c]
  | crLf (c : Char) (breaks : c ≠ '\r') : Piece ['\r', '\n', c]
  | crLfCr (c : Char) (breaks : c ≠ '\n') : Piece ['\r', '\n', '\r', c]

/-- A text that ends within a match. -/
inductive Dangling : CString → Prop
  | cr : Dangling ['\r']
  | crLf : Dangling ['\r', '\n']
  | crLfCr : Dangling ['\r', '\n', '\r']

theorem splitLoop_piece {piece : CString} (shape : Piece piece) :
    splitLoop (before ++ (piece ++ rest)) (fuel + 1) before.length =
      splitLoop (before ++ piece ++ rest) fuel (before ++ piece).length := by
  rw [List.append_assoc, List.length_append]
  have first := charAt_first before (piece ++ rest)
  have next := charAt_append before (piece ++ rest)
  cases shape with
  | other c ordinary inside =>
    have c0 : charAt ([c] ++ rest) 0 = .ok c := rfl
    simp only [splitLoop, first, c0, bind, Except.bind, inside, ordinary, if_false, ne_eq,
      not_false_eq_true, if_true]
    rfl
  | cr c breaks =>
    have c0 : charAt (['\r', c] ++ rest) 0 = .ok '\r' := rfl
    have c1 : charAt (['\r', c] ++ rest) 1 = .ok c := rfl
    simp only [splitLoop, first, next, c0, c1, bind, Except.bind, breaks, ne_eq,
      not_false_eq_true, if_true]
    rfl
  | crLf c breaks =>
    have c0 : charAt (['\r', '\n', c] ++ rest) 0 = .ok '\r' := rfl
    have c1 : charAt (['\r', '\n', c] ++ rest) 1 = .ok '\n' := rfl
    have c2 : charAt (['\r', '\n', c] ++ rest) 2 = .ok c := rfl
    simp only [splitLoop, first, next, c0, c1, c2, bind, Except.bind, breaks, ne_eq,
      not_false_eq_true, if_true]
    rfl
  | crLfCr c breaks =>
    have c0 : charAt (['\r', '\n', '\r', c] ++ rest) 0 = .ok '\r' := rfl
    have c1 : charAt (['\r', '\n', '\r', c] ++ rest) 1 = .ok '\n' := rfl
    have c2 : charAt (['\r', '\n', '\r', c] ++ rest) 2 = .ok '\r' := rfl
    have c3 : charAt (['\r', '\n', '\r', c] ++ rest) 3 = .ok c := rfl
    simp only [splitLoop, first, next, c0, c1, c2, c3, bind, Except.bind, breaks, ne_eq,
      not_false_eq_true, if_true]
    rfl

theorem splitLoop_found :
    splitLoop (before ++ (headerEnd ++ rest)) (fuel + 1) before.length =
      .ok (some (before.length + 4)) := by
  have first := charAt_first before (headerEnd ++ rest)
  have next := charAt_append before (headerEnd ++ rest)
  have c0 : charAt (headerEnd ++ rest) 0 = .ok '\r' := rfl
  have c1 : charAt (headerEnd ++ rest) 1 = .ok '\n' := rfl
  have c2 : charAt (headerEnd ++ rest) 2 = .ok '\r' := rfl
  have c3 : charAt (headerEnd ++ rest) 3 = .ok '\n' := rfl
  simp only [splitLoop, first, next, c0, c1, c2, c3, bind, Except.bind]
  rfl

/-- The terminator ends the match, and the loop steps over it. -/
theorem splitLoop_dangling {tail : CString} (shape : Dangling tail) :
    splitLoop (before ++ tail) (fuel + 2) before.length = .error .outOfBounds := by
  have first := charAt_first before tail
  have next := charAt_append before tail
  cases shape with
  | cr =>
    have c0 : charAt ['\r'] 0 = .ok '\r' := rfl
    have c1 : charAt ['\r'] 1 = .ok '\x00' := rfl
    have c2 : charAt ['\r'] 2 = .error .outOfBounds := rfl
    simp only [splitLoop, first, next, c0, c1, c2, bind, Except.bind]
    rfl
  | crLf =>
    have c0 : charAt ['\r', '\n'] 0 = .ok '\r' := rfl
    have c1 : charAt ['\r', '\n'] 1 = .ok '\n' := rfl
    have c2 : charAt ['\r', '\n'] 2 = .ok '\x00' := rfl
    have c3 : charAt ['\r', '\n'] 3 = .error .outOfBounds := rfl
    simp only [splitLoop, first, next, c0, c1, c2, c3, bind, Except.bind]
    rfl
  | crLfCr =>
    have c0 : charAt ['\r', '\n', '\r'] 0 = .ok '\r' := rfl
    have c1 : charAt ['\r', '\n', '\r'] 1 = .ok '\n' := rfl
    have c2 : charAt ['\r', '\n', '\r'] 2 = .ok '\r' := rfl
    have c3 : charAt ['\r', '\n', '\r'] 3 = .ok '\x00' := rfl
    have c4 : charAt ['\r', '\n', '\r'] 4 = .error .outOfBounds := rfl
    simp only [splitLoop, first, next, c0, c1, c2, c3, c4, bind, Except.bind]
    rfl

theorem splitLoop_nil : splitLoop before (fuel + 1) before.length = .ok none := by
  have here : charAt before before.length = .ok '\x00' := by
    rw [charAt, List.getElem?_eq_none (Nat.le_refl _)]
    exact if_pos rfl
  simp only [splitLoop, here, bind, Except.bind, if_true]
  rfl

/-- What the loop finds is behind where it stands. -/
theorem splitLoop_ge {buffer : CString} {fuel p q : Nat}
    (found : splitLoop buffer fuel p = .ok (some q)) : p + 4 ≤ q := by
  induction fuel generalizing p with
  | zero => cases found
  | succ fuel ih =>
    have later : ∀ {n}, splitLoop buffer fuel (p + n) = .ok (some q) → p + 4 ≤ q := by
      intro n found
      have behind := ih found
      omega
    obtain ⟨c, _, found⟩ := bind_ends found
    split at found
    · cases found
    split at found
    · exact later found
    obtain ⟨c, _, found⟩ := bind_ends found
    split at found
    · exact later found
    obtain ⟨c, _, found⟩ := bind_ends found
    split at found
    · exact later found
    obtain ⟨c, _, found⟩ := bind_ends found
    split at found
    · exact later found
    · cases found
      exact Nat.le_refl _

end Turns

section Heads

variable {text before rest passed : CString}

theorem crs_snoc (text : CString) (c : Char) :
    crs (text ++ [c]) = if c = '\r' then crs text + 1 else 0 := by
  rw [crs, List.reverse_append, List.reverse_singleton, List.singleton_append,
    List.takeWhile_cons]
  by_cases same : c = '\r'
  · simp only [same, decide_true, if_true, List.length_cons]
    rfl
  · simp only [same, decide_false, Bool.false_eq_true, if_false, List.length_nil]

/-- What has been passed over ends with an even number of CRs, also before a LF. -/
structure Settled (before : CString) : Prop where
  even : crs before % 2 = 0
  line : ∀ line, before = line ++ ['\n'] → crs line % 2 = 0

theorem Settled.snoc {c : Char} (even : crs (before ++ [c]) % 2 = 0)
    (line : c = '\n' → crs before % 2 = 0) : Settled (before ++ [c]) := by
  refine ⟨even, fun text same => ?_⟩
  obtain ⟨rfl, last⟩ := List.append_inj' same rfl
  exact line (List.cons.inj last).1

theorem Settled.piece (settled : Settled before) (shape : Piece passed) :
    Settled (before ++ passed) := by
  have even := settled.even
  cases shape with
  | other c ordinary inside =>
    apply Settled.snoc
    · rw [crs_snoc, if_neg ordinary]
    · exact fun _ => even
  | cr c breaks =>
    rw [show before ++ ['\r', c] = before ++ ['\r'] ++ [c] by rw [List.append_assoc]; rfl]
    apply Settled.snoc
    · rw [crs_snoc, crs_snoc, if_pos rfl]
      split
      · omega
      · rfl
    · exact fun last => absurd last breaks
  | crLf c breaks =>
    rw [show before ++ ['\r', '\n', c] = before ++ ['\r'] ++ ['\n'] ++ [c] by
      rw [List.append_assoc, List.append_assoc]; rfl]
    apply Settled.snoc
    · rw [crs_snoc, if_neg breaks]
    · intro _
      rw [crs_snoc, if_neg (by decide)]
  | crLfCr c breaks =>
    rw [show before ++ ['\r', '\n', '\r', c] = before ++ ['\r'] ++ ['\n'] ++ ['\r'] ++ [c] by
      rw [List.append_assoc, List.append_assoc, List.append_assoc]; rfl]
    apply Settled.snoc
    · rw [crs_snoc, crs_snoc, crs_snoc, if_pos rfl, if_neg (by decide : '\n' ≠ '\r')]
      split
      · rfl
      · rfl
    · exact fun last => absurd last breaks

/-- What a turn of the loop finds. -/
theorem turn_cases (ends : '\x00' ∉ rest) :
    rest = [] ∨ Dangling rest ∨ (∃ tail, rest = headerEnd ++ tail) ∨
      ∃ passed tail, Piece passed ∧ rest = passed ++ tail := by
  cases rest with
  | nil => exact Or.inl rfl
  | cons c0 rest =>
    refine Or.inr ?_
    have inside : c0 ≠ '\x00' := by
      rintro rfl
      exact ends (List.mem_cons_self ..)
    by_cases cr : c0 = '\r'
    · subst cr
      match rest with
      | [] => exact Or.inl .cr
      | c1 :: rest =>
        by_cases lf : c1 = '\n'
        · subst lf
          match rest with
          | [] => exact Or.inl .crLf
          | c2 :: rest =>
            by_cases cr' : c2 = '\r'
            · subst cr'
              match rest with
              | [] => exact Or.inl .crLfCr
              | c3 :: rest =>
                by_cases lf' : c3 = '\n'
                · subst lf'
                  exact Or.inr (Or.inl ⟨rest, rfl⟩)
                · exact Or.inr (Or.inr ⟨_, rest, .crLfCr c3 lf', rfl⟩)
            · exact Or.inr (Or.inr ⟨_, rest, .crLf c2 cr', rfl⟩)
        · exact Or.inr (Or.inr ⟨_, rest, .cr c1 lf, rfl⟩)
    · exact Or.inr (Or.inr ⟨_, rest, .other c0 cr inside, rfl⟩)

/-- No end of the header begins in the text so far. -/
def NotBefore (text : CString) (n : Nat) : Prop := ∀ j, j < n → ¬ headerEnd <+: text.drop j

/-- Within a piece only its last character can begin an end of the header. -/
theorem piece_begins {tail : CString} {j : Nat} (shape : Piece passed) (inside : j < passed.length)
    (here : headerEnd <+: (passed ++ tail).drop j) :
    passed = ['\r', '\r'] ∧ j = 1 ∨ passed = ['\r', '\n', '\r', '\r'] ∧ j = 3 := by
  obtain ⟨after, same⟩ := here
  cases shape with
  | other c ordinary =>
    obtain rfl : j = 0 := Nat.lt_one_iff.mp inside
    exact absurd (List.cons.inj same).1.symm ordinary
  | cr c breaks =>
    match j, inside with
    | 0, _ => exact absurd (List.cons.inj (List.cons.inj same).2).1.symm breaks
    | 1, _ => exact Or.inl ⟨by rw [(List.cons.inj same).1], rfl⟩
  | crLf c breaks =>
    match j, inside with
    | 0, _ =>
      exact absurd (List.cons.inj (List.cons.inj (List.cons.inj same).2).2).1.symm breaks
    | 1, _ => exact absurd (List.cons.inj same).1 (by decide)
    | 2, _ => exact absurd (List.cons.inj same).1.symm breaks
  | crLfCr c breaks =>
    match j, inside with
    | 0, _ =>
      have rest := (List.cons.inj (List.cons.inj (List.cons.inj same).2).2).2
      exact absurd (List.cons.inj rest).1.symm breaks
    | 1, _ => exact absurd (List.cons.inj same).1 (by decide)
    | 2, _ => exact absurd (List.cons.inj (List.cons.inj same).2).1.symm breaks
    | 3, _ => exact Or.inr ⟨by rw [(List.cons.inj same).1], rfl⟩

theorem First.unique {k k' : Nat} (first : First text k) (first' : First text k') : k = k' := by
  by_cases before : k < k'
  · exact absurd first.here (first'.before k before)
  · by_cases after : k' < k
    · exact absurd first'.here (first.before k' after)
    · omega

theorem drop_before (before rest : CString) (j : Nat) :
    (before ++ rest).drop (before.length + j) = rest.drop j := by
  rw [← List.drop_drop, List.drop_left]

theorem nowhere_of_short (none : NotBefore (before ++ rest) before.length) (short : rest.length < 4)
    (k : Nat) : ¬ headerEnd <+: (before ++ rest).drop k := by
  by_cases early : k < before.length
  · exact none k early
  · intro here
    obtain ⟨j, rfl⟩ : ∃ j, k = before.length + j := ⟨k - before.length, by omega⟩
    have room := here.length_le
    rw [drop_before, List.length_drop] at room
    have four : headerEnd.length = 4 := rfl
    omega

theorem Dangling.short (shape : Dangling rest) : rest.length < 4 := by
  cases shape with
  | cr => decide
  | crLf => decide
  | crLfCr => decide

theorem Dangling.odd (shape : Dangling rest) (even : crs before % 2 = 0) :
    ¬ (crs (before ++ rest) % 2 = 0 ∧
      ∀ line, before ++ rest = line ++ ['\n'] → crs line % 2 = 0) := by
  rintro ⟨last, line⟩
  cases shape with
  | cr =>
    rw [crs_snoc, if_pos rfl] at last
    omega
  | crLf =>
    have odd := line (before ++ ['\r']) (by rw [List.append_assoc]; rfl)
    rw [crs_snoc, if_pos rfl] at odd
    omega
  | crLfCr =>
    rw [show before ++ ['\r', '\n', '\r'] = before ++ ['\r'] ++ ['\n'] ++ ['\r'] by
      rw [List.append_assoc, List.append_assoc]; rfl, crs_snoc, if_pos rfl, crs_snoc,
      if_neg (by decide)] at last
    omega

/-- An end of the header that begins within a piece has an odd number of CRs before it, and the
loop steps into it. -/
theorem first_inside {tail : CString} {j : Nat} (settled : Settled before)
    (none : NotBefore (before ++ (passed ++ tail)) before.length) (shape : Piece passed)
    (inside : j < passed.length) (here : headerEnd <+: (passed ++ tail).drop j) :
    First (before ++ (passed ++ tail)) (before.length + j) ∧
      crs ((before ++ (passed ++ tail)).take (before.length + j)) % 2 = 1 := by
  have even := settled.even
  constructor
  · constructor
    · rwa [drop_before]
    · intro i early there
      by_cases before' : i < before.length
      · exact none i before' there
      · obtain ⟨i, rfl⟩ : ∃ i', i = before.length + i' := ⟨i - before.length, by omega⟩
        rw [drop_before] at there
        have same := piece_begins shape (by omega : i < passed.length) there
        have same' := piece_begins shape inside here
        rcases same with ⟨rfl, rfl⟩ | ⟨rfl, rfl⟩
        · rcases same' with ⟨_, rfl⟩ | ⟨other, _⟩
          · omega
          · exact absurd other (by decide)
        · rcases same' with ⟨other, _⟩ | ⟨_, rfl⟩
          · exact absurd other (by decide)
          · omega
  · rw [List.take_length_add_append]
    rcases piece_begins shape inside here with ⟨rfl, rfl⟩ | ⟨rfl, rfl⟩
    · rw [show (['\r', '\r'] ++ tail).take 1 = ['\r'] from rfl, crs_snoc, if_pos rfl]
      omega
    · rw [show (['\r', '\n', '\r', '\r'] ++ tail).take 3 = ['\r', '\n', '\r'] from rfl,
        show before ++ ['\r', '\n', '\r'] = before ++ ['\r'] ++ ['\n'] ++ ['\r'] by
          rw [List.append_assoc, List.append_assoc]; rfl, crs_snoc, if_pos rfl, crs_snoc,
        if_neg (by decide)]

end Heads

section Runs

variable {before : CString}

/-- From where the loop stands on, it splits the text right if and only if the runs of CRs are
even. -/
theorem splitLoop_splits (left : Nat) : ∀ {fuel : Nat} (before rest : CString),
    rest.length = left → left < fuel → '\x00' ∉ rest → Settled before →
      NotBefore (before ++ rest) before.length →
      (Splits (before ++ rest) (splitLoop (before ++ rest) fuel before.length) ↔
        EvenRuns (before ++ rest)) := by
  induction left using Nat.strongRecOn with
  | ind left ih =>
    intro fuel before rest length enough ends settled none
    obtain ⟨fuel, rfl⟩ : ∃ fuel', fuel = fuel' + 1 := ⟨fuel - 1, by omega⟩
    rcases turn_cases ends with rfl | shape | ⟨tail, rfl⟩ | ⟨passed, tail, shape, rfl⟩
    · have nowhere := nowhere_of_short none (by decide : ([] : CString).length < 4)
      rw [List.append_nil] at nowhere ⊢
      rw [splitLoop_nil]
      apply iff_of_true
      · exact Or.inr ⟨nowhere, rfl⟩
      · exact ⟨fun k first => absurd first.here (nowhere k), fun _ => ⟨settled.even, settled.line⟩⟩
    · have nowhere := nowhere_of_short none shape.short
      obtain ⟨fuel, rfl⟩ : ∃ fuel', fuel = fuel' + 1 := by
        refine ⟨fuel - 1, ?_⟩
        have some : 0 < rest.length := by
          cases shape with
          | cr => decide
          | crLf => decide
          | crLfCr => decide
        omega
      rw [splitLoop_dangling shape]
      apply iff_of_false
      · rintro (⟨k, _, same⟩ | ⟨_, same⟩)
        · cases same
        · cases same
      · exact fun runs => shape.odd settled.even (runs.2 nowhere)
    · have first : First (before ++ (headerEnd ++ tail)) before.length := by
        refine ⟨?_, none⟩
        rw [List.drop_left]
        exact List.prefix_append _ _
      rw [splitLoop_found]
      apply iff_of_true
      · exact Or.inl ⟨before.length, first, rfl⟩
      · refine ⟨fun k other => ?_, fun nowhere => absurd first.here (nowhere _)⟩
        rw [other.unique first, List.take_left]
        exact settled.even
    · rw [splitLoop_piece shape]
      by_cases inside : ∃ j, j < passed.length ∧ headerEnd <+: (passed ++ tail).drop j
      · obtain ⟨j, inside, here⟩ := inside
        obtain ⟨first, odd⟩ := first_inside settled none shape inside here
        apply iff_of_false
        · rintro (⟨k, other, same⟩ | ⟨nowhere, _⟩)
          · rw [other.unique first] at same
            have behind := splitLoop_ge same
            rw [List.length_append] at behind
            omega
          · exact nowhere _ first.here
        · intro runs
          rw [runs.1 _ first] at odd
          cases odd
      · have positive : 0 < passed.length := by
          cases shape with
          | other => exact Nat.zero_lt_one
          | cr => exact Nat.zero_lt_two
          | crLf => exact Nat.succ_pos _
          | crLfCr => exact Nat.succ_pos _
        rw [List.length_append] at length
        rw [← List.append_assoc] at none ⊢
        apply ih tail.length (by omega) _ _ rfl (by omega)
        · exact fun member => ends (List.mem_append_right _ member)
        · exact settled.piece shape
        · intro j early there
          by_cases before' : j < before.length
          · exact none j before' there
          · obtain ⟨i, rfl⟩ : ∃ i, j = before.length + i := ⟨j - before.length, by omega⟩
            rw [List.append_assoc, drop_before] at there
            rw [List.length_append] at early
            exact inside ⟨i, by omega, there⟩

/-- The function finds the end of the header exactly in the texts whose runs of CRs are even in
front of it. -/
theorem splitHttpResponseHeader_splits_iff (buffer : { text : CString // '\x00' ∉ text }) :
    Splits buffer.val (splitHttpResponseHeader buffer.val) ↔ EvenRuns buffer.val :=
  splitLoop_splits buffer.val.length [] buffer.val rfl (Nat.lt_succ_self _) buffer.property
    ⟨rfl, fun _ same => absurd (congrArg List.length same) (by simp)⟩
    fun j early => absurd early (Nat.not_lt_zero j)

/-- Of two CRs the second is passed over, so that the end of the header is missed; of one at the
end of the text the terminator is. -/
theorem splitHttpResponseHeader_misses :
    ¬ Splits ['x', '\r', '\r', '\n', '\r', '\n', 'y']
        (splitHttpResponseHeader ['x', '\r', '\r', '\n', '\r', '\n', 'y']) ∧
      splitHttpResponseHeader ['x', '\r'] = .error .outOfBounds := by
  refine ⟨?_, rfl⟩
  rw [show splitHttpResponseHeader ['x', '\r', '\r', '\n', '\r', '\n', 'y'] = .ok none from rfl]
  rintro (⟨k, _, same⟩ | ⟨nowhere, _⟩)
  · cases same
  · exact nowhere 2 ⟨['y'], rfl⟩

end Runs

end Ct.Ccutils.Net
