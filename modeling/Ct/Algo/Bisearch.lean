import Ct.Lib.Fault
import Ct.Lib.Memory
import Mathlib.Data.List.Basic
import Mathlib.Data.List.Induction

set_option autoImplicit false

namespace Ct.Algo

open Ct.Lib

def queueSize : Nat := 256

/-- `struct qs` -/
structure Qs where
  d : List Int
  n : Int
  deriving DecidableEq, Repr

/-- `d[i]` -/
def cell (d : List Int) (i : Int) : Except Fault Int :=
  if 0 ≤ i then
    match d[i.toNat]? with
    | none => .error .outOfBounds
    | some v => .ok v
  else .error .outOfBounds

/-- `d[i] = x` -/
def store (d : List Int) (i x : Int) : Except Fault (List Int) :=
  if 0 ≤ i ∧ i < d.length then .ok (d.set i.toNat x) else .error .outOfBounds

theorem mid_between {n m : Int} (some : n ≤ m) :
    n ≤ Int.tdiv (n + m) 2 ∧ Int.tdiv (n + m) 2 ≤ m := by
  have parts := Int.mul_tdiv_add_tmod (n + m) 2
  have small := Int.tmod_two_eq (n + m)
  omega

/-- The loop of `find`; what it prints is left out. -/
def findLoop (d : List Int) (x n m : Int) : Except Fault Int :=
  let i := Int.tdiv (n + m) 2
  if _inside : n ≤ m then
    match cell d i with
    | .error fault => .error fault
    | .ok v =>
      if x = v then .ok i
      else if v < x then findLoop d x (i + 1) m
      else findLoop d x n (i - 1)
  else .ok i
termination_by (m + 1 - n).toNat
decreasing_by
  all_goals
    have := mid_between ‹n ≤ m›
    omega

def find (q : Qs) (x : Int) : Except Fault Int := findLoop q.d x 0 (q.n - 1)

/-- `for(j = q->n; j > i; j--)`, with `j` counted down. -/
def shiftLoop (i : Int) : Nat → List Int → Except Fault (List Int)
  | 0, d => if i < 0 then .error .outOfBounds else .ok d
  | j + 1, d =>
    if i < (j + 1 : Nat) then do
      let v ← cell d j
      let d ← store d (j + 1 : Nat) v
      shiftLoop i j d
    else .ok d

/-- `insert`, with what it returns. -/
def insert (q : Qs) (x : Int) : Except Fault (Int × Qs) :=
  if (queueSize : Int) ≤ q.n then .ok (-1, q)
  else if q.n ≤ 0 then do
    let d ← store q.d 0 x
    .ok (0, ⟨d, 1⟩)
  else do
    let i ← find q x
    let v ← cell q.d i
    let i := if v < x then i + 1 else i
    let d ← shiftLoop i q.n.toNat q.d
    let d ← store d i x
    .ok (0, ⟨d, q.n + 1⟩)

/-- The calls of `insert`, with the values for which it returns 0. -/
def insertAll : List Int → Qs → Except Fault (Qs × List Int)
  | [], q => .ok (q, [])
  | x :: xs, q => do
    let (ret, q) ← insert q x
    let (q, values) ← insertAll xs q
    .ok (q, if ret = 0 then x :: values else values)

section Find

variable {items rest : List Int} {x n m : Int}

theorem cell_front {k : Nat} (inside : k < items.length) :
    cell (items ++ rest) k = .ok items[k] := by
  rw [cell, if_pos (Int.natCast_nonneg k), Int.toNat_natCast,
    List.getElem?_append_left inside, List.getElem?_eq_getElem inside]

/-- What the loop has ruled out: the values below `n` are less, those above `m` greater. -/
structure Between (items : List Int) (x n m : Int) : Prop where
  low : 0 ≤ n
  high : m < items.length
  crossed : n ≤ m + 1
  before : ∀ (j : Nat) (inside : j < items.length), (j : Int) < n → items[j] < x
  behind : ∀ (j : Nat) (inside : j < items.length), m < j → x < items[j]

/-- `p` is where `x` belongs: the values in front are less, and those from there on greater. -/
structure InsertionPoint (items : List Int) (x : Int) (p : Nat) : Prop where
  inside : p ≤ items.length
  before : ∀ (j : Nat) (inside : j < items.length), j < p → items[j] < x
  behind : ∀ (j : Nat) (inside : j < items.length), p ≤ j → x < items[j]

/-- Where `find` ends: on the value, or next to the point where it belongs. -/
inductive Found (items : List Int) (x i : Int) : Prop
  | here (k : Nat) (inside : k < items.length) (at_k : i = k) (same : items[k] = x)
  | beside (p : Nat) (point : InsertionPoint items x p) (next : i = p ∨ i + 1 = p)
      (occupied : items ≠ [] → 0 ≤ i ∧ i < items.length) (empty : items = [] → i = 0)

theorem sorted_le (sorted : items.Pairwise (· ≤ ·)) {i j : Nat} (before : i ≤ j)
    (inside : j < items.length) : items[i] ≤ items[j] := by
  rcases Nat.lt_or_eq_of_le before with less | rfl
  · exact List.pairwise_iff_getElem.mp sorted i j _ inside less
  · exact Int.le_refl _

/-- A value that is less rules out everything up to it. -/
theorem Between.up (between : Between items x n m) (sorted : items.Pairwise (· ≤ ·)) {k : Nat}
    (inside : k < items.length) (below : (k : Int) ≤ m) (less : items[k] < x) :
    Between items x (k + 1) m := by
  refine ⟨by omega, between.high, by omega, fun j inside' before => ?_, between.behind⟩
  have first := sorted_le sorted (show j ≤ k by omega) inside
  omega

theorem Between.down (between : Between items x n m) (sorted : items.Pairwise (· ≤ ·)) {k : Nat}
    (inside : k < items.length) (above : n ≤ k) (greater : x < items[k]) :
    Between items x n (k - 1) := by
  refine ⟨between.low, by omega, by omega, between.before, fun j inside' behind => ?_⟩
  have later := sorted_le sorted (show k ≤ j by omega) inside'
  omega

/-- Where the bounds cross is where the value belongs. -/
theorem Between.found (between : Between items x n m) (ended : ¬n ≤ m) :
    Found items x (Int.tdiv (n + m) 2) := by
  obtain ⟨low, high, crossed, before, behind⟩ := between
  have parts := Int.mul_tdiv_add_tmod (n + m) 2
  have place : Int.tdiv (n + m) 2 = n ∧ n = 0 ∨ Int.tdiv (n + m) 2 + 1 = n ∧ 0 < n := by
    by_cases first : m = -1
    · have start : n = 0 := by omega
      rw [first, start]
      decide
    · rw [Int.tdiv_eq_ediv_of_nonneg (by omega)]
      omega
  have point : InsertionPoint items x n.toNat := by
    refine ⟨by omega, fun j inside below => before j inside (by omega),
      fun j inside above => behind j inside (by omega)⟩
  generalize Int.tdiv (n + m) 2 = i at place
  refine .beside n.toNat point (by omega) (fun some => ?_) fun none => ?_
  · have size := List.length_pos_iff.mpr some
    omega
  · rw [none, List.length_nil] at high
    omega

/-- The induction is on the distance of the bounds. -/
theorem findLoop_found (sorted : items.Pairwise (· ≤ ·)) (n m : Int)
    (between : Between items x n m) :
    ∃ i, findLoop (items ++ rest) x n m = .ok i ∧ Found items x i := by
  induction distance : (m + 1 - n).toNat using Nat.strongRecOn generalizing n m with
  | ind left ih =>
    rw [findLoop]
    by_cases inside : n ≤ m
    · obtain ⟨above, below⟩ := mid_between inside
      have low := between.low
      have high := between.high
      obtain ⟨k, middle⟩ : ∃ k : Nat, Int.tdiv (n + m) 2 = k :=
        ⟨(Int.tdiv (n + m) 2).toNat, by omega⟩
      rw [middle] at above below
      have occupied : k < items.length := by omega
      rw [dif_pos inside, middle, cell_front occupied]
      dsimp only
      by_cases same : x = items[k]
      · rw [if_pos same]
        exact ⟨k, rfl, .here k occupied rfl same.symm⟩
      · rw [if_neg same]
        by_cases less : items[k] < x
        · rw [if_pos less]
          exact ih _ (by omega) _ _ (between.up sorted occupied below less) rfl
        · rw [if_neg less]
          exact ih _ (by omega) _ _ (between.down sorted occupied above (by omega)) rfl
    · rw [dif_neg inside]
      exact ⟨_, rfl, between.found inside⟩

end Find

section Insert

variable {items : List Int} {x : Int}

theorem cell_at (front : List Int) (v : Int) (rest : List Int) :
    cell (front ++ v :: rest) front.length = .ok v := by
  rw [cell, if_pos (Int.natCast_nonneg _), Int.toNat_natCast, getElem?_front]

theorem store_at (front : List Int) (o v : Int) (rest : List Int) :
    store (front ++ o :: rest) front.length v = .ok (front ++ v :: rest) := by
  have inside : (0 : Int) ≤ front.length ∧ (front.length : Int) < (front ++ o :: rest).length := by
    rw [List.length_append, List.length_cons]
    omega
  rw [store, if_pos inside, Int.toNat_natCast, set_front]

theorem shiftLoop_done {i : Int} (low : 0 ≤ i) {j : Nat} (done : (j : Int) ≤ i) (d : List Int) :
    shiftLoop i j d = .ok d := by
  cases j with
  | zero => rw [shiftLoop, if_neg (by omega)]
  | succ j => rw [shiftLoop, if_neg (by omega)]

/-- The cells from `i` on go one up, and what is behind the last one is lost. -/
theorem shiftLoop_moves (front back : List Int) :
    ∀ (o : Int) (rest : List Int), ∃ c,
      shiftLoop front.length (front.length + back.length) (front ++ (back ++ o :: rest)) =
        .ok (front ++ c :: (back ++ rest)) := by
  induction back using List.reverseRecOn with
  | nil =>
    intro o rest
    exact ⟨o, shiftLoop_done (Int.natCast_nonneg _) (Int.le_refl _) _⟩
  | append_singleton back b ih =>
    intro o rest
    obtain ⟨c, moved⟩ := ih b (b :: rest)
    refine ⟨c, ?_⟩
    have behind : (front.length : Int) < (front.length + back.length + 1 : Nat) := by omega
    have last := cell_at (front ++ back) b (o :: rest)
    have stored := store_at (front ++ back ++ [b]) o b rest
    rw [List.length_append] at last
    rw [List.length_append, List.length_append, List.length_singleton] at stored
    rw [List.length_append, List.length_singleton, ← Nat.add_assoc, shiftLoop, if_pos behind]
    simp only [List.append_assoc, List.cons_append, List.nil_append]
      at last stored moved ⊢
    rw [last]
    simp only [bind, Except.bind, stored, moved]

/-- The queue holds these values. -/
structure Holds (q : Qs) (items : List Int) : Prop where
  size : q.d.length = queueSize
  count : q.n = items.length
  front : items <+: q.d
  sorted : items.Pairwise (· ≤ ·)

theorem Holds.few {q : Qs} (holds : Holds q items) : items.length ≤ queueSize := by
  rw [← holds.size]
  exact holds.front.length_le

/-- A value goes in between those that are not greater and those that are not less. -/
theorem sorted_between {front back : List Int} (sorted : (front ++ back).Pairwise (· ≤ ·))
    (below : ∀ v ∈ front, v ≤ x) (above : ∀ v ∈ back, x ≤ v) :
    (front ++ x :: back).Pairwise (· ≤ ·) := by
  rw [List.pairwise_append] at sorted ⊢
  obtain ⟨first, second, across⟩ := sorted
  refine ⟨first, List.pairwise_cons.mpr ⟨above, second⟩, fun v member w member' => ?_⟩
  rcases List.mem_cons.mp member' with rfl | later
  · exact below v member
  · exact across v member w later

/-- Where a value may go in: what is in front is not greater, and what is behind not less. -/
structure Place (items : List Int) (x : Int) (front back : List Int) : Prop where
  parts : items = front ++ back
  below : ∀ v ∈ front, v ≤ x
  above : ∀ v ∈ back, x ≤ v

theorem place_at {k : Nat} (inside : k ≤ items.length)
    (before : ∀ (j : Nat) (inside : j < items.length), j < k → items[j] ≤ x)
    (behind : ∀ (j : Nat) (inside : j < items.length), k ≤ j → x ≤ items[j]) :
    ∃ front back, Place items x front back ∧ front.length = k := by
  refine ⟨items.take k, items.drop k, ⟨(List.take_append_drop k items).symm, ?_, ?_⟩, ?_⟩
  · intro v member
    obtain ⟨j, inside', rfl⟩ := List.mem_iff_getElem.mp member
    rw [List.length_take] at inside'
    rw [List.getElem_take]
    exact before j _ (by omega)
  · intro v member
    obtain ⟨j, inside', rfl⟩ := List.mem_iff_getElem.mp member
    rw [List.getElem_drop]
    exact behind (k + j) _ (Nat.le_add_right k j)
  · rw [List.length_take]
    omega

/-- The neighbour that `find` returns leads to the place, on either side. -/
theorem Found.place {i : Int} (found : Found items x i) (some : items ≠ [])
    (sorted : items.Pairwise (· ≤ ·)) :
    ∃ (k : Nat) (inside : k < items.length) (front back : List Int), i = k ∧
      Place items x front back ∧ (if items[k] < x then i + 1 else i) = front.length := by
  cases found with
  | here k inside at_k same =>
    obtain ⟨front, back, place, size⟩ := place_at (x := x) (Nat.le_of_lt inside)
      (fun j inside' before => by
        rw [← same]
        exact sorted_le sorted (Nat.le_of_lt before) inside)
      (fun j inside' behind => by
        rw [← same]
        exact sorted_le sorted behind inside')
    refine ⟨k, inside, front, back, at_k, place, ?_⟩
    rw [if_neg (by omega), at_k, size]
  | beside p point next occupied _ =>
    obtain ⟨low, high⟩ := occupied some
    obtain ⟨front, back, place, size⟩ := place_at point.inside
      (fun j inside' before => Int.le_of_lt (point.before j inside' before))
      (fun j inside' behind => Int.le_of_lt (point.behind j inside' behind))
    obtain ⟨k, rfl⟩ : ∃ k : Nat, i = k := ⟨i.toNat, by omega⟩
    have inside : k < items.length := by omega
    refine ⟨k, inside, front, back, rfl, place, ?_⟩
    rcases next with at_p | below_p
    · have greater := point.behind k inside (by omega)
      rw [if_neg (by omega)]
      omega
    · have less := point.before k inside (by omega)
      rw [if_pos less]
      omega

theorem Holds.find {q : Qs} (holds : Holds q items) (x : Int) :
    ∃ i, find q x = .ok i ∧ Found items x i := by
  obtain ⟨rest, memory⟩ := holds.front
  rw [Algo.find, ← memory, holds.count]
  apply findLoop_found holds.sorted
  refine ⟨by omega, by omega, by omega, fun j inside before => ?_, fun j inside behind => ?_⟩
  · omega
  · omega

theorem Holds.insert_full {q : Qs} (holds : Holds q items) (full : items.length = queueSize)
    (x : Int) : insert q x = .ok (-1, q) := by
  have large : (queueSize : Int) ≤ q.n := by
    have size := holds.count
    omega
  rw [insert, if_pos large]

/-- What is stored at its place is held in between what was there. -/
theorem Place.holds {front back : List Int} (place : Place items x front back)
    (sorted : items.Pairwise (· ≤ ·)) (rest : List Int)
    (size : (front ++ x :: back ++ rest).length = queueSize) :
    Holds ⟨front ++ x :: back ++ rest, items.length + 1⟩ (front ++ x :: back) where
  size := size
  count := by
    have parts := congrArg List.length place.parts
    rw [List.length_append] at parts
    show (items.length : Int) + 1 = (front ++ x :: back).length
    rw [List.length_append, List.length_cons]
    omega
  front := List.prefix_append _ _
  sorted := by
    rw [place.parts] at sorted
    exact sorted_between sorted place.below place.above

theorem Holds.insert_empty {q : Qs} (holds : Holds q []) (x : Int) :
    ∃ q', insert q x = .ok (0, q') ∧ Holds q' [x] := by
  obtain ⟨d, n⟩ := q
  have none : n = 0 := holds.count
  have size : d.length = queueSize := holds.size
  subst none
  cases d with
  | nil => exact absurd size (by decide)
  | cons o rest =>
    have place : Place [] x [] [] := ⟨rfl, by simp, by simp⟩
    refine ⟨⟨x :: rest, 1⟩, ?_, place.holds List.Pairwise.nil rest size⟩
    have stored : store (o :: rest) 0 x = .ok (x :: rest) := store_at [] o x rest
    have room : ¬(queueSize : Int) ≤ 0 := by decide
    rw [insert, if_neg room, if_pos (Int.le_refl 0)]
    simp only [bind, Except.bind, stored]

/-- A value goes into a queue with room at its place, and what is behind goes one up. -/
theorem Holds.insert_room {q : Qs} (holds : Holds q items) (room : items.length < queueSize)
    (x : Int) :
    ∃ q' items', insert q x = .ok (0, q') ∧ Holds q' items' ∧ items'.Perm (x :: items) := by
  by_cases none : items = []
  · subst none
    obtain ⟨q', stored, holds'⟩ := holds.insert_empty x
    exact ⟨q', [x], stored, holds', List.Perm.refl _⟩
  · obtain ⟨i, search, found⟩ := holds.find x
    obtain ⟨k, inside, front, back, rfl, place, next⟩ := found.place none holds.sorted
    obtain ⟨rest, memory⟩ := holds.front
    have size := holds.size
    have parts := place.parts
    have count := holds.count
    have at_k : cell q.d k = .ok items[k] := by
      rw [← memory]
      exact cell_front inside
    have length : items.length = front.length + back.length := by
      rw [parts, List.length_append]
    cases rest with
    | nil =>
      rw [← memory, List.append_nil] at size
      omega
    | cons o rest =>
      rw [parts, List.append_assoc] at memory
      obtain ⟨c, moved⟩ := shiftLoop_moves front back o rest
      have stored := store_at front c x (back ++ rest)
      have size' : (front ++ x :: back ++ rest).length = queueSize := by
        rw [← size, ← memory]
        simp only [List.length_append, List.length_cons]
        omega
      refine ⟨⟨front ++ x :: back ++ rest, items.length + 1⟩, front ++ x :: back, ?_,
        place.holds holds.sorted rest size', ?_⟩
      · have room' : ¬(queueSize : Int) ≤ q.n := by omega
        have some : ¬q.n ≤ 0 := by omega
        have steps : q.n.toNat = front.length + back.length := by omega
        rw [memory] at moved
        rw [insert, if_neg room', if_neg some, search]
        simp only [bind, Except.bind, at_k, next, steps, moved, stored]
        rw [count, List.append_assoc, List.cons_append]
      · rw [parts]
        exact List.perm_middle

end Insert

section Runs

variable {items : List Int}

theorem Holds.insert {q : Qs} (holds : Holds q items) (x : Int) :
    ∃ ret q' items', insert q x = .ok (ret, q') ∧ Holds q' items' ∧
      items'.Perm (if ret = 0 then x :: items else items) := by
  rcases Nat.lt_or_eq_of_le holds.few with room | full
  · obtain ⟨q', items', inserted, holds', same⟩ := holds.insert_room room x
    exact ⟨0, q', items', inserted, holds', same⟩
  · exact ⟨-1, q, items, holds.insert_full full x, holds, List.Perm.refl _⟩

theorem Holds.insertAll (xs : List Int) :
    ∀ {q : Qs} {items : List Int}, Holds q items →
      ∃ q' values items', insertAll xs q = .ok (q', values) ∧ Holds q' items' ∧
        items'.Perm (values ++ items) := by
  induction xs with
  | nil =>
    intro q items holds
    exact ⟨q, [], items, rfl, holds, List.Perm.refl _⟩
  | cons x xs ih =>
    intro q items holds
    obtain ⟨ret, q₁, items₁, first, holds₁, same₁⟩ := holds.insert x
    obtain ⟨q₂, values, items₂, later, holds₂, same₂⟩ := ih holds₁
    refine ⟨q₂, if ret = 0 then x :: values else values, items₂, ?_, holds₂, ?_⟩
    · simp only [Algo.insertAll, first, later, bind, Except.bind]
    · by_cases inserted : ret = 0
      · rw [if_pos inserted] at same₁ ⊢
        exact same₂.trans ((same₁.append_left values).trans List.perm_middle)
      · rw [if_neg inserted] at same₁ ⊢
        exact same₂.trans (same₁.append_left values)

/-- What is held is what the queue counts. -/
theorem Holds.counted {q : Qs} (holds : Holds q items) : items = q.d.take q.n.toNat := by
  rw [holds.count, Int.toNat_natCast]
  exact List.prefix_iff_eq_take.mp holds.front

theorem Found.present {x i : Int} {rest : List Int} (found : Found items x i)
    (present : x ∈ items) : cell (items ++ rest) i = .ok x := by
  cases found with
  | here k inside at_k same => rw [at_k, cell_front inside, same]
  | beside p point _ _ _ =>
    obtain ⟨j, inside, same⟩ := List.mem_iff_getElem.mp present
    rcases Nat.lt_or_ge j p with before | behind
    · have less := point.before j inside before
      omega
    · have greater := point.behind j inside behind
      omega

theorem Found.absent {x i : Int} (found : Found items x i) (absent : x ∉ items) :
    ∃ p, InsertionPoint items x p ∧ (i = p ∨ i + 1 = p) := by
  cases found with
  | here k inside _ same =>
    rw [← same] at absent
    exact absurd (List.getElem_mem inside) absent
  | beside p point next _ _ => exact ⟨p, point, next⟩

theorem Found.inside {x i : Int} (found : Found items x i) (some : items ≠ []) :
    0 ≤ i ∧ i < items.length := by
  cases found with
  | here k inside at_k _ => omega
  | beside _ _ _ occupied _ => exact occupied some

/-- However often `insert` is called, the queue is sorted and holds what was inserted, and `find`
ends on the value or next to where it belongs. -/
theorem queue_sorted (d : Vector Int queueSize) (xs : List Int) :
    ∃ q values, insertAll xs ⟨d.toList, 0⟩ = .ok (q, values) ∧
      q.n = values.length ∧
      (q.d.take q.n.toNat).Pairwise (· ≤ ·) ∧ (q.d.take q.n.toNat).Perm values ∧
      (∀ x, (q.n = queueSize → insert q x = .ok (-1, q)) ∧
        (q.n < queueSize → ∃ q', insert q x = .ok (0, q'))) ∧
      ∀ x, ∃ i, find q x = .ok i ∧ (values = [] → i = 0) ∧
        (values ≠ [] → 0 ≤ i ∧ i < q.n ∧ (x ∈ values → cell q.d i = .ok x) ∧
          (x ∉ values → ∃ p, InsertionPoint (q.d.take q.n.toNat) x p ∧ (i = p ∨ i + 1 = p))) := by
  have start : Holds ⟨d.toList, 0⟩ [] :=
    ⟨d.length_toList, rfl, List.nil_prefix, List.Pairwise.nil⟩
  obtain ⟨q, values, items, run, holds, same⟩ := Holds.insertAll xs start
  rw [List.append_nil] at same
  have count : q.n = values.length := by
    rw [holds.count, same.length_eq]
  have counted := holds.counted
  refine ⟨q, values, run, count, counted ▸ holds.sorted, counted ▸ same, fun x => ⟨?_, ?_⟩,
    fun x => ?_⟩
  · intro full
    have size := holds.count
    exact holds.insert_full (by omega) x
  · intro room
    have size := holds.count
    obtain ⟨q', _, inserted, _⟩ := holds.insert_room (by omega) x
    exact ⟨q', inserted⟩
  · obtain ⟨i, search, found⟩ := holds.find x
    obtain ⟨rest, memory⟩ := holds.front
    refine ⟨i, search, fun none => ?_, fun some => ?_⟩
    · subst none
      cases found with
      | here k inside _ _ =>
        rw [same.eq_nil] at inside
        exact absurd inside (Nat.not_lt_zero k)
      | beside _ _ _ _ empty => exact empty same.eq_nil
    · have occupied : items ≠ [] := fun none => by
        subst none
        exact some same.nil_eq.symm
      obtain ⟨low, high⟩ := found.inside occupied
      refine ⟨low, holds.count ▸ high, fun present => ?_, fun absent => ?_⟩
      · rw [← memory]
        exact found.present (same.mem_iff.mpr present)
      · rw [← counted]
        exact found.absent fun present => absent (same.mem_iff.mp present)

end Runs

end Ct.Algo
