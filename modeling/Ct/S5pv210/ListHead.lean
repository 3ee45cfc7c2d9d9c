import Ct.Lib.Cyclic
import Ct.Lib.Fault
import Mathlib.Data.List.Basic

set_option autoImplicit false

namespace Ct.S5pv210.ListHead

open Ct.Lib

variable {α : Type}

/-- The `struct list_head` of every node; `none` is a null pointer. -/
structure Heap (α : Type) where
  prev : α → Option α
  next : α → Option α

/-- The node that a pointer points at. -/
def deref : Option α → Except Fault α
  | none => .error .nullDeref
  | some node => .ok node

section Operations

variable [DecidableEq α]

/-- `node->prev = link` -/
def Heap.setPrev (h : Heap α) (node : α) (link : Option α) : Heap α :=
  { h with prev := Function.update h.prev node link }

/-- `node->next = link` -/
def Heap.setNext (h : Heap α) (node : α) (link : Option α) : Heap α :=
  { h with next := Function.update h.next node link }

theorem Heap.setPrev_self (h : Heap α) (node : α) : h.setPrev node (h.prev node) = h := by
  rw [Heap.setPrev, Function.update_eq_self]

theorem Heap.setNext_self (h : Heap α) (node : α) : h.setNext node (h.next node) = h := by
  rw [Heap.setNext, Function.update_eq_self]

/-- `INIT_LIST_HEAD` -/
def initListHead (h : Heap α) (head : α) : Heap α :=
  (h.setPrev head (some head)).setNext head (some head)

def listAdd (h : Heap α) (head list : α) : Except Fault (Heap α) := do
  let h := h.setPrev list (some head)
  let h := h.setNext list (h.next head)
  let first ← deref (h.next head)
  let h := h.setPrev first (some list)
  pure (h.setNext head (some list))

def listAddTail (h : Heap α) (head list : α) : Except Fault (Heap α) := do
  let h := h.setPrev list (h.prev head)
  let h := h.setNext list (some head)
  let last ← deref (h.prev head)
  let h := h.setNext last (some list)
  pure (h.setPrev head (some list))

def listDel (h : Heap α) (list : α) : Except Fault (α × Heap α) := do
  let before ← deref (h.prev list)
  let h := h.setNext before (h.next list)
  let behind ← deref (h.next list)
  let h := h.setPrev behind (h.prev list)
  let h := h.setPrev list none
  let h := h.setNext list none
  pure (list, h)

def listIsEmpty (h : Heap α) (head : α) : Bool := h.next head == some head

end Operations

/-- A call on the list of one head. -/
inductive Op (α : Type)
  | add (list : α)
  | addTail (list : α)
  | del (list : α)
  deriving DecidableEq

def Op.list : Op α → α
  | .add list | .addTail list | .del list => list

section Runs

variable [DecidableEq α]

def perform (head : α) (h : Heap α) : Op α → Except Fault (Heap α)
  | .add list => listAdd h head list
  | .addTail list => listAddTail h head list
  | .del list => (listDel h list).map Prod.snd

def performAll (head : α) : Heap α → List (Op α) → Except Fault (Heap α)
  | h, [] => .ok h
  | h, op :: ops => do
    let h ← perform head h op
    performAll head h ops

/-- The same operation on a sequence of nodes. -/
def Op.onSequence (nodes : List α) : Op α → List α
  | .add list => list :: nodes
  | .addTail list => nodes ++ [list]
  | .del list => nodes.erase list

def sequence (nodes : List α) (ops : List (Op α)) : List α := ops.foldl Op.onSequence nodes

/-- Only a node that is not linked is added, and only a linked one is deleted. -/
def Op.Legal (head : α) (nodes : List α) : Op α → Prop
  | .add list | .addTail list => list ∉ head :: nodes
  | .del list => list ∈ nodes

def Legal (head : α) : List α → List (Op α) → Prop
  | _, [] => True
  | nodes, op :: ops => op.Legal head nodes ∧ Legal head (op.onSequence nodes) ops

end Runs

/-- The head and these nodes are a circular doubly linked list. -/
structure Linked (h : Heap α) (head : α) (nodes : List α) : Prop where
  single : (head :: nodes).Nodup
  next : Cycle h.next head nodes
  prev : Cycle h.prev head nodes.reverse

section Linked

variable {h : Heap α} {head p q x : α} {front back nodes : List α}

theorem head?_reverse_concat (front : List α) (head : α) :
    (front.reverse ++ [head]).head? = (head :: front).getLast? := by
  rw [← List.reverse_cons, List.head?_reverse]

theorem head?_concat (back : List α) (head : α) :
    (back ++ [head]).head? = (head :: back.reverse).getLast? := by
  rw [← head?_reverse_concat, List.reverse_reverse]

/-- Two nodes with nothing between them: `p` is the last one of the front, `q` the first behind. -/
structure Between (head : α) (front back : List α) (p q : α) : Prop where
  last : (head :: front).getLast? = some p
  first : (head :: back.reverse).getLast? = some q

theorem between_exists (head : α) (front back : List α) : ∃ p q, Between head front back p q :=
  ⟨_, _, List.getLast?_eq_some_getLast (List.cons_ne_nil _ _),
    List.getLast?_eq_some_getLast (List.cons_ne_nil _ _)⟩

theorem Between.last_mem (between : Between head front back p q) : p ∈ head :: (front ++ back) := by
  have member := List.mem_of_getLast? between.last
  rw [← List.cons_append]
  exact List.mem_append_left _ member

theorem Between.first_mem (between : Between head front back p q) :
    q ∈ head :: (front ++ back) := by
  have member := List.mem_of_getLast? between.first
  rw [List.mem_cons, List.mem_reverse] at member
  rw [List.mem_cons, List.mem_append]
  exact member.imp_right Or.inr

theorem Linked.joined (linked : Linked h head (front ++ back))
    (between : Between head front back p q) : h.next p = some q ∧ h.prev q = some p := by
  have behind := linked.next.link_last between.last
  have reversed := linked.prev
  rw [List.reverse_append] at reversed
  have before := reversed.link_last between.first
  rw [head?_concat, between.first] at behind
  rw [head?_reverse_concat, between.last] at before
  exact ⟨behind, before⟩

/-- The neighbours of a node are those between which it goes out. -/
theorem Linked.neighbours (linked : Linked h head (front ++ x :: back))
    (between : Between head front back p q) :
    h.next p = some x ∧ h.prev x = some p ∧ h.next x = some q ∧ h.prev q = some x := by
  have inFront : Between head front (x :: back) p x := by
    refine ⟨between.last, ?_⟩
    rw [List.reverse_cons, ← List.cons_append, List.getLast?_concat]
  have inBack : Between head (front ++ [x]) back x q := by
    refine ⟨?_, between.first⟩
    rw [← List.cons_append, List.getLast?_concat]
  have joined := linked.joined inFront
  have linked' : Linked h head (front ++ [x] ++ back) := by
    rwa [List.append_assoc, List.singleton_append]
  have joined' := linked'.joined inBack
  exact ⟨joined.1, joined.2, joined'.1, joined'.2⟩

end Linked

end Ct.S5pv210.ListHead
