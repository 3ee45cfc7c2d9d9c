import Ct.Lib.Circleq
import Mathlib.Data.List.Basic

set_option autoImplicit false

namespace Ct.Lib

universe u v

/-- The member of a node that links it into a queue. -/
structure EntryField (ν : Type u) where
  entry : ν → CircleqEntry
  withEntry : ν → CircleqEntry → ν
  entry_withEntry : ∀ node links, entry (withEntry node links) = links

variable {ν : Type u}

/-- `node->field.cqe_next` -/
def EntryField.next (field : EntryField ν) (nodes : List ν) (i : Nat) : Except Fault Link :=
  match nodes[i]? with
  | none => .error .outOfBounds
  | some node => .ok (field.entry node).next

/-- `node->field.cqe_prev` -/
def EntryField.prev (field : EntryField ν) (nodes : List ν) (i : Nat) : Except Fault Link :=
  match nodes[i]? with
  | none => .error .outOfBounds
  | some node => .ok (field.entry node).prev

/-- `CIRCLEQ_INIT` -/
def circleqInit : CircleqHead := ⟨.head, .head⟩

/-- `CIRCLEQ_INSERT_TAIL` of a new node, which is the last of `nodes` from then on. -/
def circleqInsertTail (field : EntryField ν) (head : CircleqHead) (nodes : List ν) (elm : ν) :
    Except Fault (CircleqHead × List ν) :=
  let elm := field.withEntry elm ⟨.head, head.last⟩
  if head.first = .head then
    .ok (⟨.node nodes.length, .node nodes.length⟩, nodes ++ [elm])
  else
    match head.last with
    | .null => .error .nullDeref
    | .head => .error .outOfBounds
    | .wild => .error .outOfBounds
    | .node j =>
      match nodes[j]? with
      | none => .error .outOfBounds
      | some last =>
        let last := field.withEntry last ⟨.node nodes.length, (field.entry last).prev⟩
        .ok (⟨head.first, .node nodes.length⟩, nodes.set j last ++ [elm])

/-- The queue links these nodes, in this order, in both directions. -/
structure Queue (field : EntryField ν) (head : CircleqHead) (nodes : List ν) (ids : List Nat) :
    Prop where
  forward : Spine (field.next nodes) head.first ids
  backward : Spine (field.prev nodes) head.last ids.reverse
  distinct : ids.Nodup

section Spine

variable {next other : Nat → Except Fault Link}

theorem spine_congr (ids : List Nat) :
    ∀ {first : Link}, Spine next first ids → (∀ i ∈ ids, other i = next i) →
      Spine other first ids := by
  induction ids with
  | nil => exact fun spine _ => spine_nil.mpr (spine_nil.mp spine)
  | cons i rest ih =>
    intro first spine same
    obtain ⟨started, link, linked, below⟩ := spine_cons.mp spine
    exact spine_cons.mpr ⟨started, link, (same i (List.mem_cons_self ..)).trans linked,
      ih below fun k member => same k (List.mem_cons_of_mem _ member)⟩

/-- The last node is linked to a new one. -/
theorem spine_snoc {j fresh : Nat} (ids : List Nat) :
    ∀ {first : Link}, Spine next first (ids ++ [j]) → (∀ i ∈ ids, other i = next i) →
      other j = .ok (.node fresh) → other fresh = .ok .head →
      Spine other first (ids ++ [j] ++ [fresh]) := by
  induction ids with
  | nil =>
    intro first spine _ relinked ends
    obtain ⟨started, _⟩ := spine_cons.mp spine
    exact spine_cons.mpr ⟨started, _, relinked, rfl, _, ends, trivial⟩
  | cons i rest ih =>
    intro first spine same relinked ends
    obtain ⟨started, link, linked, below⟩ := spine_cons.mp spine
    exact spine_cons.mpr ⟨started, link, (same i (List.mem_cons_self ..)).trans linked,
      ih below (fun m member => same m (List.mem_cons_of_mem _ member)) relinked ends⟩

end Spine

variable {field : EntryField ν} {head : CircleqHead} {nodes : List ν} {ids : List Nat}

theorem Queue.init : Queue field circleqInit nodes [] := ⟨trivial, trivial, List.nodup_nil⟩

theorem Queue.inside (queue : Queue field head nodes ids) : ∀ i ∈ ids, i < nodes.length := by
  intro i member
  obtain ⟨link, linked⟩ := spine_linked queue.forward i member
  rcases Nat.lt_or_ge i nodes.length with below | outside
  · exact below
  · rw [EntryField.next, List.getElem?_eq_none outside] at linked
    cases linked

/-- The nodes after an insertion behind node `j`. -/
def relinked (field : EntryField ν) (nodes : List ν) (j : Nat) (last elm : ν) : List ν :=
  nodes.set j (field.withEntry last ⟨.node nodes.length, (field.entry last).prev⟩) ++
    [field.withEntry elm ⟨.head, .node j⟩]

theorem relinked_self {j : Nat} {last elm : ν} (here : nodes[j]? = some last) :
    (relinked field nodes j last elm)[j]? =
      some (field.withEntry last ⟨.node nodes.length, (field.entry last).prev⟩) := by
  have below : j < nodes.length := (List.getElem?_eq_some_iff.mp here).1
  rw [relinked, List.getElem?_append_left (by rw [List.length_set]; exact below),
    List.getElem?_set_self below]

theorem relinked_other {i j : Nat} {last elm : ν} (below : i < nodes.length) (other : i ≠ j) :
    (relinked field nodes j last elm)[i]? = nodes[i]? := by
  rw [relinked, List.getElem?_append_left (by rw [List.length_set]; exact below),
    List.getElem?_set_ne (Ne.symm other)]

theorem relinked_fresh {j : Nat} {last elm : ν} :
    (relinked field nodes j last elm)[nodes.length]? =
      some (field.withEntry elm ⟨.head, .node j⟩) := by
  rw [relinked, List.getElem?_append_right (Nat.le_of_eq (List.length_set ..)), List.length_set,
    Nat.sub_self]
  rfl

theorem relinked_view {β : Type v} {view : ν → β}
    (blind : ∀ node links, view (field.withEntry node links) = view node) {j : Nat} {last elm : ν}
    (here : nodes[j]? = some last) :
    (relinked field nodes j last elm).map view = nodes.map view ++ [view elm] := by
  rw [relinked, List.map_append, List.map_set, List.map_singleton, blind, blind]
  congr 1
  refine List.ext_getElem? fun i => ?_
  rw [List.getElem?_set]
  split
  · rename_i same
    rw [← same, List.getElem?_map, here, if_pos]
    · rfl
    · rw [List.length_map]
      exact (List.getElem?_eq_some_iff.mp here).1
  · rfl

theorem nodup_one (i : Nat) : [i].Nodup :=
  List.nodup_cons.mpr ⟨List.not_mem_nil, List.nodup_nil⟩

theorem Queue.insertTail_nil (queue : Queue field head nodes []) (elm : ν) :
    circleqInsertTail field head nodes elm = .ok (⟨.node nodes.length, .node nodes.length⟩,
        nodes ++ [field.withEntry elm ⟨.head, .head⟩]) ∧
      Queue field ⟨.node nodes.length, .node nodes.length⟩
        (nodes ++ [field.withEntry elm ⟨.head, .head⟩]) [nodes.length] := by
  have first : head.first = .head := spine_nil.mp queue.forward
  have last : head.last = .head := spine_nil.mp queue.backward
  have fresh : (nodes ++ [field.withEntry elm ⟨.head, .head⟩])[nodes.length]? =
      some (field.withEntry elm ⟨.head, .head⟩) := by
    rw [List.getElem?_append_right (Nat.le_refl _), Nat.sub_self]
    rfl
  refine ⟨?_, ⟨rfl, .head, ?_, trivial⟩, ⟨rfl, .head, ?_, trivial⟩, nodup_one _⟩
  · simp only [circleqInsertTail, first, last, ↓reduceIte]
  · rw [EntryField.next, fresh]
    simp only [field.entry_withEntry]
  · rw [EntryField.prev, fresh]
    simp only [field.entry_withEntry]

/-- A queue that is not empty ends on a node, and an insertion goes behind it. -/
theorem Queue.insertTail_snoc {before : List Nat} {j : Nat}
    (queue : Queue field head nodes (before ++ [j])) (elm : ν) :
    ∃ last, nodes[j]? = some last ∧ circleqInsertTail field head nodes elm =
        .ok (⟨head.first, .node nodes.length⟩, relinked field nodes j last elm) ∧
      Queue field ⟨head.first, .node nodes.length⟩ (relinked field nodes j last elm)
        (before ++ [j] ++ [nodes.length]) := by
  have inside := queue.inside
  have below : j < nodes.length := inside j (List.mem_append_right _ (List.mem_singleton_self j))
  have here : nodes[j]? = some nodes[j] := List.getElem?_eq_getElem below
  have started : head.first ≠ .head := by
    intro none
    have forward := queue.forward
    rw [none] at forward
    cases before with
    | nil => cases forward
    | cons i rest => cases forward
  have ended : head.last = .node j := by
    have backward := queue.backward
    rw [List.reverse_append] at backward
    exact (spine_cons.mp backward).1
  have unlike : ∀ i ∈ before, i ≠ j := by
    intro i member same
    exact (List.nodup_append.mp queue.distinct).2.2 i member j (List.mem_singleton_self j) same
  refine ⟨nodes[j], here, ?_, ?_, ?_, ?_⟩
  · simp only [circleqInsertTail, started, ↓reduceIte, ended, here, relinked]
  · refine spine_snoc before queue.forward (fun i member => ?_) ?_ ?_
    · rw [EntryField.next, EntryField.next,
        relinked_other (inside i (List.mem_append_left _ member)) (unlike i member)]
    · rw [EntryField.next, relinked_self here]
      simp only [field.entry_withEntry]
    · rw [EntryField.next, relinked_fresh]
      simp only [field.entry_withEntry]
  · rw [List.reverse_append]
    refine ⟨rfl, .node j, ?_, ?_⟩
    · rw [EntryField.prev, relinked_fresh]
      simp only [field.entry_withEntry]
    · have backward := queue.backward
      rw [ended] at backward
      refine spine_congr _ backward fun i member => ?_
      by_cases same : i = j
      · rw [same, EntryField.prev, EntryField.prev, relinked_self here, here]
        simp only [field.entry_withEntry]
      · rw [EntryField.prev, EntryField.prev,
          relinked_other (inside i (List.mem_reverse.mp member)) same]
  · refine List.nodup_append.mpr ⟨queue.distinct, nodup_one _, ?_⟩
    intro i member k fresh same
    have old := inside i member
    rw [same, List.mem_singleton.mp fresh] at old
    exact Nat.lt_irrefl _ old

/-- Insertion at the tail never fails on a queue, appends the new node to it, and changes nothing
but the links. -/
theorem Queue.insertTail (queue : Queue field head nodes ids) (elm : ν) :
    ∃ head' nodes', circleqInsertTail field head nodes elm = .ok (head', nodes') ∧
      Queue field head' nodes' (ids ++ [nodes.length]) ∧
      ∀ {β : Type v} (view : ν → β), (∀ node links, view (field.withEntry node links) = view node) →
        nodes'.map view = nodes.map view ++ [view elm] := by
  rcases List.eq_nil_or_concat' ids with rfl | ⟨before, j, rfl⟩
  · obtain ⟨inserted, longer⟩ := queue.insertTail_nil elm
    refine ⟨_, _, inserted, longer, fun view blind => ?_⟩
    rw [List.map_append, List.map_singleton, blind]
  · obtain ⟨last, here, inserted, longer⟩ := queue.insertTail_snoc elm
    exact ⟨_, _, inserted, longer, fun view blind => relinked_view blind here⟩

end Ct.Lib
