import Ct.Lib.Fault

set_option autoImplicit false

namespace Ct.Lib

universe u

/-- What a link of a circular queue points at: the queue itself, one of its nodes, or no object. -/
inductive Link
  | null
  | head
  | node (i : Nat)
  | wild
  deriving DecidableEq, Repr

structure CircleqHead where
  first : Link
  last : Link
  deriving DecidableEq, Repr

structure CircleqEntry where
  next : Link
  prev : Link
  deriving DecidableEq, Repr

variable {σ : Type u}

/-- `for(e = first; e != head; e = e->next)`. The body says whether it breaks; the result carries
the link on which the loop ends. -/
def traverse (next : Nat → Except Fault Link) (body : Nat → σ → Except Fault (Bool × σ)) :
    Nat → Link → σ → Except Fault (Link × σ)
  | 0, _, _ => .error .outOfFuel
  | _ + 1, .head, state => .ok (.head, state)
  | _ + 1, .null, _ => .error .nullDeref
  | _ + 1, .wild, _ => .error .outOfBounds
  | fuel + 1, .node i, state =>
    match body i state with
    | .error fault => .error fault
    | .ok (true, state) => .ok (.node i, state)
    | .ok (false, state) =>
      match next i with
      | .error fault => .error fault
      | .ok link => traverse next body fuel link state

/-- The links from here on run through these nodes and end on the queue itself. -/
def Spine (next : Nat → Except Fault Link) : Link → List Nat → Prop
  | .head, [] => True
  | .node i, j :: rest => i = j ∧ ∃ link, next i = .ok link ∧ Spine next link rest
  | _, _ => False

theorem spine_nil {next : Nat → Except Fault Link} {first : Link} :
    Spine next first [] ↔ first = .head := by
  cases first <;> simp [Spine]

theorem spine_cons {next : Nat → Except Fault Link} {first : Link} {i : Nat} {rest : List Nat} :
    Spine next first (i :: rest) ↔
      first = .node i ∧ ∃ link, next i = .ok link ∧ Spine next link rest := by
  cases first with
  | node j =>
    simp only [Spine, Link.node.injEq]
    constructor
    · rintro ⟨rfl, below⟩
      exact ⟨rfl, below⟩
    · rintro ⟨rfl, below⟩
      exact ⟨rfl, below⟩
  | _ => simp [Spine]

theorem spine_linked {next : Nat → Except Fault Link} {ids : List Nat} :
    ∀ {first : Link}, Spine next first ids → ∀ i ∈ ids, ∃ link, next i = .ok link := by
  induction ids with
  | nil => exact fun _ i member => absurd member List.not_mem_nil
  | cons i rest ih =>
    intro first spine k member
    obtain ⟨_, link, linked, below⟩ := spine_cons.mp spine
    rcases List.mem_cons.mp member with rfl | later
    · exact ⟨link, linked⟩
    · exact ih below k later

/-- The links determine the nodes. -/
theorem spine_unique {next : Nat → Except Fault Link} (ids : List Nat) :
    ∀ {first : Link} {other : List Nat}, Spine next first ids → Spine next first other →
      ids = other := by
  induction ids with
  | nil =>
    intro first other spine spine'
    rw [spine_nil.mp spine] at spine'
    cases other with
    | nil => rfl
    | cons j rest => exact absurd (spine_cons.mp spine').1 (by simp)
  | cons i rest ih =>
    intro first other spine spine'
    obtain ⟨rfl, link, linked, below⟩ := spine_cons.mp spine
    cases other with
    | nil => exact absurd (spine_nil.mp spine') (by simp)
    | cons j others =>
      obtain ⟨same, link', linked', below'⟩ := spine_cons.mp spine'
      cases same
      rw [linked] at linked'
      cases linked'
      rw [ih below below']

/-- The loop over the nodes of a spine. -/
def visitAll (body : Nat → σ → Except Fault (Bool × σ)) :
    List Nat → σ → Except Fault (Link × σ)
  | [], state => .ok (.head, state)
  | i :: rest, state =>
    match body i state with
    | .error fault => .error fault
    | .ok (true, state) => .ok (.node i, state)
    | .ok (false, state) => visitAll body rest state

variable {next : Nat → Except Fault Link}

theorem traverse_spine (body : Nat → σ → Except Fault (Bool × σ)) (nodes : List Nat) :
    ∀ {first : Link} {fuel : Nat} (state : σ), Spine next first nodes → nodes.length < fuel →
      traverse next body fuel first state = visitAll body nodes state := by
  induction nodes with
  | nil =>
    intro first fuel state spine enough
    obtain ⟨left, rfl⟩ : ∃ left, fuel = left + 1 := ⟨fuel - 1, by simp at enough; omega⟩
    rw [spine_nil.mp spine]
    rfl
  | cons i rest ih =>
    intro first fuel state spine enough
    obtain ⟨left, rfl⟩ : ∃ left, fuel = left + 1 := ⟨fuel - 1, by simp at enough; omega⟩
    obtain ⟨rfl, link, linked, below⟩ := spine_cons.mp spine
    simp only [traverse, visitAll]
    rcases body i state with fault | ⟨stop, after⟩
    · rfl
    · cases stop with
      | true => rfl
      | false =>
        dsimp only
        rw [linked]
        exact ih after below (Nat.lt_of_succ_lt_succ enough)

/-- With less fuel the loop is cut off, but does nothing else than before. -/
theorem traverse_spine_cut (body : Nat → σ → Except Fault (Bool × σ)) (nodes : List Nat) :
    ∀ {first : Link} (fuel : Nat) (state : σ), Spine next first nodes →
      traverse next body fuel first state = .error .outOfFuel ∨
        traverse next body fuel first state = visitAll body nodes state := by
  induction nodes with
  | nil =>
    intro first fuel state spine
    cases fuel with
    | zero => exact Or.inl rfl
    | succ fuel => exact Or.inr (traverse_spine body [] state spine (Nat.succ_pos fuel))
  | cons i rest ih =>
    intro first fuel state spine
    cases fuel with
    | zero => exact Or.inl rfl
    | succ fuel =>
      obtain ⟨rfl, link, linked, below⟩ := spine_cons.mp spine
      simp only [traverse, visitAll]
      rcases body i state with fault | ⟨stop, after⟩
      · exact Or.inr rfl
      · cases stop with
        | true => exact Or.inr rfl
        | false =>
          dsimp only
          rw [linked]
          exact ih fuel after below

theorem traverse_null (next : Nat → Except Fault Link)
    (body : Nat → σ → Except Fault (Bool × σ)) (fuel : Nat) (state : σ) :
    ∃ fault, traverse next body fuel .null state = .error fault ∧ fault ≠ .outOfBounds := by
  cases fuel with
  | zero => exact ⟨_, rfl, by decide⟩
  | succ fuel => exact ⟨_, rfl, by decide⟩

/-- A search over the nodes: the body only tests. -/
def searchBody (test : Nat → Except Fault Bool) (i : Nat) (_ : Unit) : Except Fault (Bool × Unit) :=
  (test i).map fun stop => (stop, ())

theorem visitAll_found (test : Nat → Except Fault Bool) {before after : List Nat} {i : Nat}
    (missed : ∀ j ∈ before, test j = .ok false) (found : test i = .ok true) :
    visitAll (searchBody test) (before ++ i :: after) () = .ok (.node i, ()) := by
  induction before with
  | nil => simp only [List.nil_append, visitAll, searchBody, found, Except.map]
  | cons j rest ih =>
    simp only [List.cons_append, visitAll, searchBody, missed j (List.mem_cons_self ..), Except.map]
    exact ih fun k member => missed k (List.mem_cons_of_mem _ member)

/-- A search ends with a fault, on the first node that passes, or, when none does, on the queue
itself. -/
theorem visitAll_search (test : Nat → Except Fault Bool) (nodes : List Nat) :
    (∃ before i after fault, nodes = before ++ i :: after ∧
      (∀ j ∈ before, test j = .ok false) ∧ test i = .error fault ∧
      visitAll (searchBody test) nodes () = .error fault) ∨
    (∃ before i after, nodes = before ++ i :: after ∧
      (∀ j ∈ before, test j = .ok false) ∧ test i = .ok true ∧
      visitAll (searchBody test) nodes () = .ok (.node i, ())) ∨
    ((∀ j ∈ nodes, test j = .ok false) ∧
      visitAll (searchBody test) nodes () = .ok (.head, ())) := by
  induction nodes with
  | nil => exact Or.inr (Or.inr ⟨fun j member => absurd member List.not_mem_nil, rfl⟩)
  | cons i rest ih =>
    rcases tested : test i with fault | stop
    · refine Or.inl ⟨[], i, rest, fault, rfl, fun j member => absurd member List.not_mem_nil,
        tested, ?_⟩
      simp only [visitAll, searchBody, tested, Except.map]
    · cases stop with
      | true =>
        refine Or.inr (Or.inl ⟨[], i, rest, rfl, fun j member => absurd member List.not_mem_nil,
          tested, ?_⟩)
        simp only [visitAll, searchBody, tested, Except.map]
      | false =>
        have step : visitAll (searchBody test) (i :: rest) () =
            visitAll (searchBody test) rest () := by
          simp only [visitAll, searchBody, tested, Except.map]
        have passed : ∀ before : List Nat, (∀ j ∈ before, test j = .ok false) →
            ∀ j ∈ i :: before, test j = .ok false := by
          intro before all j member
          rcases List.mem_cons.mp member with rfl | later
          · exact tested
          · exact all j later
        rw [step]
        rcases ih with ⟨before, k, after, fault, rfl, all, failed, result⟩ |
          ⟨before, k, after, rfl, all, found, result⟩ | ⟨all, result⟩
        · exact Or.inl ⟨i :: before, k, after, fault, rfl, passed before all, failed, result⟩
        · exact Or.inr (Or.inl ⟨i :: before, k, after, rfl, passed before all, found, result⟩)
        · exact Or.inr (Or.inr ⟨passed rest all, result⟩)

/-- Fuel only decides whether the loop gets to its end. -/
theorem traverse_agree {body : Nat → σ → Except Fault (Bool × σ)} (fuel : Nat) :
    ∀ {other : Nat} {first : Link} {state : σ} {result result' : Link × σ},
      traverse next body fuel first state = .ok result →
      traverse next body other first state = .ok result' → result = result' := by
  induction fuel with
  | zero =>
    intro other first state result result' run
    cases run
  | succ fuel ih =>
    intro other first state result result' run run'
    cases other with
    | zero => cases run'
    | succ other =>
      cases first with
      | null => cases run
      | wild => cases run
      | head =>
        cases run
        cases run'
        rfl
      | node i =>
        simp only [traverse] at run run'
        rcases visited : body i state with fault | ⟨stop, after⟩
        · rw [visited] at run
          cases run
        · rw [visited] at run run'
          cases stop with
          | true =>
            cases run
            cases run'
            rfl
          | false =>
            dsimp only at run run'
            rcases linked : next i with fault | link
            · rw [linked] at run
              cases run
            · rw [linked] at run run'
              exact ih run run'

/-- A search ends on the queue itself or on a node that passes. -/
theorem traverse_search {test : Nat → Except Fault Bool} (fuel : Nat) :
    ∀ {first link : Link}, traverse next (searchBody test) fuel first () = .ok (link, ()) →
      link = .head ∨ ∃ i, link = .node i ∧ test i = .ok true := by
  induction fuel with
  | zero =>
    intro first link run
    cases run
  | succ fuel ih =>
    intro first link run
    cases first with
    | null => cases run
    | wild => cases run
    | head =>
      cases run
      exact Or.inl rfl
    | node i =>
      simp only [traverse, searchBody] at run
      rcases tested : test i with fault | stop
      · rw [tested] at run
        cases run
      · rw [tested] at run
        cases stop with
        | true =>
          cases run
          exact Or.inr ⟨i, rfl, tested⟩
        | false =>
          simp only [Except.map] at run
          rcases linked : next i with fault | below
          · rw [linked] at run
            cases run
          · rw [linked] at run
            exact ih run

end Ct.Lib
