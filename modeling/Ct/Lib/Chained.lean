import Mathlib.Data.List.Nodup
import Mathlib.Logic.Function.Basic

set_option autoImplicit false

namespace Ct.Lib

/-- The links from `p` on run through these nodes to the null pointer. -/
def Chained (next : Nat → Nat) : Nat → List Nat → Prop
  | p, [] => p = 0
  | p, q :: rest => p = q ∧ q ≠ 0 ∧ Chained next (next q) rest

/-- `for(p = first; p; p = next(p)) if(test(p)) break;`, with the node in front of the one that is
found; both are null where there is none. -/
def seek (next : Nat → Nat) (test : Nat → Bool) : Nat → Nat → Nat → Option (Nat × Nat)
  | 0, _, _ => none
  | fuel + 1, prev, p =>
    if p = 0 then some (prev, 0)
    else if test p then some (prev, p)
    else seek next test fuel p (next p)

variable {next next' : Nat → Nat} {p : Nat} {nodes : List Nat}

theorem chained_nil : Chained next p [] ↔ p = 0 := Iff.rfl

/-- Only the links of the nodes matter. -/
theorem Chained.congr (chain : Chained next p nodes) (same : ∀ q ∈ nodes, next' q = next q) :
    Chained next' p nodes := by
  induction nodes generalizing p with
  | nil => exact chain
  | cons q nodes ih =>
    obtain ⟨here, later⟩ := List.forall_mem_cons.mp same
    exact ⟨chain.1, chain.2.1, here.symm ▸ ih chain.2.2 later⟩

theorem Chained.update (chain : Chained next p nodes) {q : Nat} (other : q ∉ nodes) (v : Nat) :
    Chained (Function.update next q v) p nodes :=
  chain.congr fun r member => by
    rw [Function.update_of_ne fun same : r = q => other (same ▸ member)]

/-- The link of a node leads to the next one, and that of the last node is null. -/
theorem Chained.link (chain : Chained next p nodes) {q : Nat} (member : q ∈ nodes) :
    next q = 0 ∨ ∃ front back, nodes = front ++ q :: next q :: back := by
  induction nodes generalizing p with
  | nil => exact absurd member List.not_mem_nil
  | cons r nodes ih =>
    obtain ⟨-, -, rest⟩ := chain
    rcases List.mem_cons.mp member with rfl | later
    · cases nodes with
      | nil => exact Or.inl rest
      | cons t nodes => exact Or.inr ⟨[], nodes, by rw [rest.1, List.nil_append]⟩
    · rcases ih rest later with last | ⟨front, back, split⟩
      · exact Or.inl last
      · exact Or.inr ⟨r :: front, back, by rw [split, List.cons_append]⟩

/-- And the link of a node in front of another one leads there. -/
theorem Chained.link_eq {front back : List Nat} {q r : Nat}
    (chain : Chained next p (front ++ q :: r :: back)) : next q = r := by
  induction front generalizing p with
  | nil => exact chain.2.2.1
  | cons t front ih => exact ih chain.2.2

/-- A node is put in front. -/
theorem Chained.push (chain : Chained next p nodes) {q : Nat} (some : q ≠ 0) (other : q ∉ nodes) :
    Chained (Function.update next q p) q (q :: nodes) :=
  ⟨rfl, some, by rw [Function.update_self]; exact chain.update other p⟩

/-- A node is taken out behind another one. -/
theorem Chained.unlink {front back : List Nat} {prev q : Nat}
    (chain : Chained next p (front ++ prev :: q :: back))
    (single : (front ++ prev :: q :: back).Nodup) :
    Chained (Function.update next prev (next q)) p (front ++ prev :: back) := by
  induction front generalizing p with
  | nil =>
    obtain ⟨start, some, here, _, rest⟩ := chain
    have other : prev ∉ back := fun member =>
      (List.nodup_cons.mp single).1 (List.mem_cons_of_mem _ member)
    exact ⟨start, some, by rw [Function.update_self]; exact rest.update other _⟩
  | cons r front ih =>
    obtain ⟨start, some, rest⟩ := chain
    rw [List.cons_append, List.nodup_cons] at single
    have other : r ≠ prev := fun same =>
      single.1 (same ▸ List.mem_append_right _ (List.mem_cons_self ..))
    refine ⟨start, some, ?_⟩
    rw [Function.update_of_ne other]
    exact ih rest single.2

/-- The search finds the first node that passes the test. -/
theorem Chained.seek (chain : Chained next p nodes) (test : Nat → Bool) (prev : Nat) {fuel : Nat}
    (enough : nodes.length < fuel) :
    (∀ q ∈ nodes, test q = false) ∧ (∃ last, Lib.seek next test fuel prev p = some (last, 0)) ∨
      ∃ front q back, nodes = front ++ q :: back ∧ test q = true ∧ q ≠ 0 ∧
        (∀ r ∈ front, test r = false) ∧
        Lib.seek next test fuel prev p = some (front.getLast?.getD prev, q) := by
  induction nodes generalizing p prev fuel with
  | nil =>
    obtain ⟨fuel, rfl⟩ := Nat.exists_eq_add_of_lt enough
    refine Or.inl ⟨fun q member => absurd member List.not_mem_nil, prev, ?_⟩
    rw [Lib.seek, if_pos (chained_nil.mp chain)]
  | cons q nodes ih =>
    obtain ⟨rfl, some, rest⟩ := chain
    cases fuel with
    | zero => exact absurd enough (Nat.not_lt_zero _)
    | succ fuel =>
      rw [Lib.seek, if_neg some]
      cases passes : test p with
      | true =>
        exact Or.inr ⟨[], p, nodes, rfl, passes, some,
          fun r member => absurd member List.not_mem_nil, if_pos rfl⟩
      | false =>
        rw [if_neg Bool.false_ne_true]
        rcases ih rest p (Nat.lt_of_succ_lt_succ enough) with ⟨none, found⟩ | found
        · exact Or.inl ⟨List.forall_mem_cons.mpr ⟨passes, none⟩, found⟩
        · obtain ⟨front, q, back, rfl, passes', some', before, found⟩ := found
          refine Or.inr ⟨p :: front, q, back, rfl, passes', some',
            List.forall_mem_cons.mpr ⟨passes, before⟩, ?_⟩
          rw [found]
          cases front with
          | nil => rfl
          | cons r front => rfl

end Ct.Lib
