import Mathlib.Data.List.Chain
import Mathlib.Data.List.Nodup
import Mathlib.Logic.Function.Basic

set_option autoImplicit false

namespace Ct.Lib

universe u

variable {α : Type u}

/-- Every node links to the one behind it in the list. -/
def Leads (link : α → Option α) (nodes : List α) : Prop :=
  nodes.IsChain fun a b => link a = some b

/-- The links go round from `head` through these nodes back to `head`. -/
def Cycle (link : α → Option α) (head : α) (nodes : List α) : Prop :=
  Leads link (head :: (nodes ++ [head]))

/-- `for(l = link(head); l != head; l = link(l))`, with the nodes that it visits. -/
def walk [DecidableEq α] (link : α → Option α) (head : α) : Nat → Option α → Option (List α)
  | 0, _ => none
  | _ + 1, none => none
  | fuel + 1, some l =>
    if l = head then some [] else (walk link head fuel (link l)).map fun nodes => l :: nodes

section Leads

variable {link link' : α → Option α}

theorem leads_split {front back : List α} {p q : α} :
    Leads link (front ++ p :: q :: back) ↔
      Leads link (front ++ [p]) ∧ link p = some q ∧ Leads link (q :: back) :=
  List.isChain_append_cons_cons

/-- The link of the last node does not matter. -/
theorem Leads.congr {nodes : List α} (leads : Leads link nodes)
    (same : ∀ a ∈ nodes.dropLast, link' a = link a) : Leads link' nodes := by
  induction nodes with
  | nil => exact List.isChain_nil
  | cons a nodes ih =>
    cases nodes with
    | nil => exact List.isChain_singleton a
    | cons b nodes =>
      obtain ⟨first, rest⟩ := List.isChain_cons_cons.mp leads
      rw [List.dropLast_cons_cons] at same
      obtain ⟨here, later⟩ := List.forall_mem_cons.mp same
      exact List.isChain_cons_cons.mpr ⟨here.trans first, ih rest later⟩

theorem single_between {front back : List α} {p : α} (single : (front ++ [p] ++ back).Nodup) :
    p ∉ front ∧ p ∉ back := by
  rw [List.append_assoc, List.singleton_append, List.nodup_middle, List.nodup_cons,
    List.mem_append, not_or] at single
  exact single.1

end Leads

section Cycle

variable {link link' : α → Option α} {head : α}

theorem cycle_nil : Cycle link head [] ↔ link head = some head := List.isChain_pair

theorem Cycle.congr {nodes : List α} (cycle : Cycle link head nodes)
    (same : ∀ a ∈ head :: nodes, link' a = link a) : Cycle link' head nodes := by
  apply Leads.congr cycle
  rw [← List.cons_append, List.dropLast_concat]
  exact same

/-- A cycle, cut behind the last node `p` of its front. -/
theorem cycle_split {front : List α} (back : List α) {p : α}
    (last : (head :: front).getLast? = some p) :
    ∃ before q behind, head :: front = before ++ [p] ∧ back ++ [head] = q :: behind ∧
      ∀ link : α → Option α, Cycle link head (front ++ back) ↔
        Leads link (before ++ [p]) ∧ link p = some q ∧ Leads link (q :: behind) := by
  obtain ⟨before, cut⟩ := List.getLast?_eq_some_iff.mp last
  obtain ⟨q, behind, rest⟩ : ∃ q behind, back ++ [head] = q :: behind :=
    List.exists_cons_of_ne_nil (List.append_ne_nil_of_right_ne_nil _ (List.cons_ne_nil _ _))
  refine ⟨before, q, behind, cut, rest, fun link => ?_⟩
  rw [← leads_split, Cycle, List.append_assoc, ← List.cons_append, cut, rest, List.append_assoc,
    List.singleton_append]

theorem Cycle.link_last {front back : List α} {p : α} (cycle : Cycle link head (front ++ back))
    (last : (head :: front).getLast? = some p) : link p = (back ++ [head]).head? := by
  obtain ⟨before, q, behind, _, rest, iff⟩ := cycle_split back last
  rw [rest]
  exact ((iff link).mp cycle).2.1

variable [DecidableEq α]

/-- A node comes in behind `p`: its link is that of `p`, and `p` then links to it. -/
theorem Cycle.insert {front back : List α} {p x : α} (cycle : Cycle link head (front ++ back))
    (single : (head :: (front ++ back)).Nodup) (fresh : x ∉ head :: (front ++ back))
    (last : (head :: front).getLast? = some p) :
    Cycle (Function.update (Function.update link x (link p)) p (some x)) head
      (front ++ x :: back) := by
  obtain ⟨before, q, behind, cut, rest, iff⟩ := cycle_split back last
  obtain ⟨leads, linked, others⟩ := (iff link).mp cycle
  rw [← List.cons_append, cut] at single fresh
  have ends : (q :: behind).dropLast = back := by rw [← rest, List.dropLast_concat]
  have whole : head :: (front ++ x :: back ++ [head]) = before ++ p :: x :: q :: behind := by
    rw [List.append_assoc, ← List.cons_append, cut, List.cons_append, rest, List.append_assoc,
      List.singleton_append]
  simp only [List.mem_append, List.mem_singleton, not_or] at fresh
  obtain ⟨⟨notBefore, notP⟩, notBehind⟩ := fresh
  obtain ⟨pBefore, pBehind⟩ := single_between single
  rw [Cycle, whole, leads_split]
  refine ⟨leads.congr ?_, Function.update_self .., List.isChain_cons_cons.mpr ⟨?_, others.congr ?_⟩⟩
  · intro a member
    rw [List.dropLast_concat] at member
    rw [Function.update_of_ne (ne_of_mem_of_not_mem member pBefore),
      Function.update_of_ne (ne_of_mem_of_not_mem member notBefore)]
  · rw [Function.update_of_ne notP, Function.update_self, linked]
  · intro a member
    rw [ends] at member
    rw [Function.update_of_ne (ne_of_mem_of_not_mem member pBehind),
      Function.update_of_ne (ne_of_mem_of_not_mem member notBehind)]

/-- A node goes out from behind `p`: `p` then links to where it linked to. -/
theorem Cycle.erase {front back : List α} {p x : α} (cycle : Cycle link head (front ++ x :: back))
    (single : (head :: (front ++ x :: back)).Nodup) (last : (head :: front).getLast? = some p) :
    Cycle (Function.update link p (link x)) head (front ++ back) := by
  obtain ⟨before, q, behind, cut, rest, iff⟩ := cycle_split back last
  have whole : head :: (front ++ x :: back ++ [head]) = before ++ p :: x :: q :: behind := by
    rw [List.append_assoc, ← List.cons_append, cut, List.cons_append, rest, List.append_assoc,
      List.singleton_append]
  rw [Cycle, whole, leads_split] at cycle
  obtain ⟨leads, _, others⟩ := cycle
  obtain ⟨linked, others⟩ := List.isChain_cons_cons.mp others
  rw [← List.cons_append, cut] at single
  have ends : (q :: behind).dropLast = back := by rw [← rest, List.dropLast_concat]
  obtain ⟨pBefore, pBehind⟩ := single_between single
  rw [List.mem_cons, not_or] at pBehind
  refine (iff _).mpr ⟨leads.congr ?_, ?_, Leads.congr others ?_⟩
  · intro a member
    rw [List.dropLast_concat] at member
    rw [Function.update_of_ne (ne_of_mem_of_not_mem member pBefore)]
  · rw [Function.update_self, linked]
  · intro a member
    rw [ends] at member
    rw [Function.update_of_ne (ne_of_mem_of_not_mem member pBehind.2)]

theorem leads_walk (rest : List α) :
    ∀ {a : α} {fuel : Nat}, head ∉ rest → rest.length < fuel → Leads link (a :: (rest ++ [head])) →
      walk link head fuel (link a) = some rest := by
  induction rest with
  | nil =>
    intro a fuel _ enough leads
    obtain ⟨left, rfl⟩ := Nat.exists_eq_succ_of_ne_zero (Nat.ne_of_gt enough)
    rw [List.isChain_pair.mp leads, walk, if_pos rfl]
  | cons b rest ih =>
    intro a fuel outside enough leads
    obtain ⟨left, rfl⟩ := Nat.exists_eq_succ_of_ne_zero (Nat.ne_of_gt (Nat.zero_lt_of_lt enough))
    obtain ⟨linked, later⟩ := List.isChain_cons_cons.mp leads
    rw [List.mem_cons, not_or] at outside
    rw [linked, walk, if_neg (Ne.symm outside.1),
      ih outside.2 (Nat.lt_of_succ_lt_succ enough) later, Option.map_some]

/-- Following the links from the head visits the nodes and comes back to the head. -/
theorem Cycle.visits {nodes : List α} (cycle : Cycle link head nodes) (outside : head ∉ nodes)
    {fuel : Nat} (enough : nodes.length < fuel) :
    walk link head fuel (link head) = some nodes := leads_walk nodes outside enough cycle

end Cycle

end Ct.Lib
