import Ct.S5pv210.ListHeadRuns
import Ct.S5pv210.RegistryList

set_option autoImplicit false

namespace Ct.S5pv210.Main

open Ct.Lib

variable {π : Type} {reg : Registry π} {requests : List (Request π)}

/-- The pointer that a link is; it is null or points at a node. -/
def pointer : Link → Option Link
  | .null => none
  | link => some link

/-- The `struct list_head` at a link. -/
def Registry.listHead (reg : Registry π) : Link → Option ListHead
  | .head => some reg.gcmdsHead
  | .node i => reg.gCmds[i]?.map ShellCommand.list
  | _ => none

/-- The registry as nodes with two links. -/
def Registry.heap (reg : Registry π) : ListHead.Heap Link where
  prev link := (reg.listHead link).bind fun node => pointer node.prev
  next link := (reg.listHead link).bind fun node => pointer node.next

/-- A store to the links of a slot. -/
def Registry.linkSlot (reg : Registry π) (i : Nat) (links : ListHead → ListHead) : Registry π :=
  { reg with gCmds := reg.gCmds.modify i fun sc => { sc with list := links sc.list } }

/-- A store to the head. -/
def Registry.linkHead (reg : Registry π) (links : ListHead) : Registry π :=
  { reg with gcmdsHead := links }

section Stores

variable {i : Nat} {sc : ShellCommand π}

/-- A store to one node. -/
theorem heap_store {after : Registry π} {node : Link} {links : ListHead}
    (stored : ∀ link, after.listHead link = if link = node then some links else reg.listHead link) :
    after.heap =
      (reg.heap.setPrev node (pointer links.prev)).setNext node (pointer links.next) := by
  have field : ∀ (f : ListHead → Option Link) (link : Link),
      (after.listHead link).bind f =
        Function.update (fun link => (reg.listHead link).bind f) node (f links) link := by
    intro f link
    rw [stored, Function.update_apply]
    split
    · rfl
    · rfl
  exact congrArg₂ ListHead.Heap.mk (funext (field fun links => pointer links.prev))
    (funext (field fun links => pointer links.next))

theorem heap_linkHead (reg : Registry π) (links : ListHead) :
    (reg.linkHead links).heap =
      (reg.heap.setPrev .head (pointer links.prev)).setNext .head (pointer links.next) := by
  apply heap_store
  intro link
  cases link with
  | head => rw [if_pos rfl]; rfl
  | _ => rw [if_neg (by simp)]; rfl

theorem heap_linkSlot (links : ListHead → ListHead) (here : reg.gCmds[i]? = some sc) :
    (reg.linkSlot i links).heap =
      (reg.heap.setPrev (.node i) (pointer (links sc.list).prev)).setNext (.node i)
        (pointer (links sc.list).next) := by
  apply heap_store
  intro link
  cases link with
  | node k =>
    rw [Registry.listHead, Registry.linkSlot, List.getElem?_modify]
    by_cases same : i = k
    · subst same
      rw [here, if_pos rfl]
      simp
    · have other : Link.node k ≠ .node i := fun equal => same (Link.node.inj equal).symm
      rw [if_neg other]
      simp [same, Registry.listHead]
  | _ => rw [if_neg (by simp)]; rfl

/-- A store to the other fields of a slot. -/
theorem heap_data (store : ShellCommand π → ShellCommand π)
    (keeps : ∀ sc, (store sc).list = sc.list) :
    Registry.heap { reg with gCmds := reg.gCmds.modify i store } = reg.heap := by
  have same : Registry.listHead { reg with gCmds := reg.gCmds.modify i store } = reg.listHead := by
    funext link
    cases link with
    | node k =>
      rw [Registry.listHead, Registry.listHead, List.getElem?_modify]
      cases reg.gCmds[k]? with
      | none => rfl
      | some sc =>
        show some (if i = k then store sc else sc).list = some sc.list
        split
        · rw [keeps]
        · rfl
    | _ => rfl
  rw [Registry.heap, same, Registry.heap]

/-- A store to the link `next` of a slot. -/
theorem heap_linkNext (link : Link) (here : reg.gCmds[i]? = some sc) :
    (reg.linkSlot i fun links => ⟨links.prev, link⟩).heap =
      reg.heap.setNext (.node i) (pointer link) := by
  have prev : pointer sc.list.prev = reg.heap.prev (.node i) := by
    show _ = (reg.gCmds[i]?.map ShellCommand.list).bind fun node => pointer node.prev
    rw [here]
    rfl
  rw [heap_linkSlot _ here, prev, ListHead.Heap.setPrev_self]

end Stores

/-- The call on the registry is the call on its nodes. -/
theorem listAddTail_heap {i : Nat} (inside : i < reg.gCmds.length)
    (valid : ∀ j, reg.gcmdsHead.prev = .node j → j < reg.gCmds.length) {after : Registry π}
    (ran : listAddTail reg i = .ok after) :
    ListHead.listAddTail reg.heap .head (.node i) = .ok after.heap := by
  obtain ⟨sc, here⟩ : ∃ sc, reg.gCmds[i]? = some sc := ⟨_, List.getElem?_eq_getElem inside⟩
  have last : reg.heap.prev .head = pointer reg.gcmdsHead.prev := rfl
  cases ends : reg.gcmdsHead.prev with
  | null =>
    rw [listAddTail, ends] at ran
    cases ran
  | wild =>
    rw [listAddTail, ends] at ran
    cases ran
  | head =>
    have linked : listAddTail reg i =
        .ok ((reg.linkSlot i fun _ => ⟨.head, .head⟩).linkHead ⟨.node i, .node i⟩) := by
      rw [listAddTail, ends]
      rfl
    rw [ends] at last
    rw [ListHead.listAddTail_splices (by simp) last, Except.ok.inj (ran.symm.trans linked),
      heap_linkHead, heap_linkSlot _ here]
    rfl
  | node j =>
    have linked : listAddTail reg i =
        .ok (((reg.linkSlot i fun _ => ⟨.node j, .head⟩).linkSlot j
          fun links => ⟨links.prev, .node i⟩).linkHead ⟨.node i, reg.gcmdsHead.next⟩) := by
      rw [listAddTail, ends]
      rfl
    obtain ⟨before, there⟩ :
        ∃ before, (reg.linkSlot i fun _ => ⟨.node j, .head⟩).gCmds[j]? = some before := by
      have inside' : j < (reg.linkSlot i fun _ => ⟨.node j, .head⟩).gCmds.length := by
        rw [Registry.linkSlot, List.length_modify]
        exact valid j ends
      exact ⟨_, List.getElem?_eq_getElem inside'⟩
    rw [ends] at last
    -- the head keeps its first node
    have same : (ListHead.spliced reg.heap (.node j) (.node i) .head).next .head =
        pointer reg.gcmdsHead.next := by
      simp only [ListHead.spliced, ListHead.Heap.setNext, ListHead.Heap.setPrev]
      rw [Function.update_of_ne (by simp), Function.update_of_ne (by simp)]
      rfl
    rw [ListHead.listAddTail_splices (by simp) last, Except.ok.inj (ran.symm.trans linked),
      heap_linkHead, heap_linkNext _ there, heap_linkSlot _ here,
      ← ListHead.Heap.setNext_self (ListHead.spliced _ _ _ _) .head, same]
    rfl

/-- The nodes of the slots up to `n`, in the order in which they are taken. -/
def slotNodes (n : Nat) : List Link := (List.range n).map .node

theorem slotNodes_succ (n : Nat) : slotNodes (n + 1) = slotNodes n ++ [.node n] := by
  rw [slotNodes, List.range_succ, List.map_append]
  rfl

theorem not_mem_slotNodes (n : Nat) : Link.node n ∉ Link.head :: slotNodes n := by
  intro member
  rcases List.mem_cons.mp member with same | inside
  · cases same
  · obtain ⟨i, below, same⟩ := List.mem_map.mp inside
    rw [List.mem_range] at below
    cases same
    exact Nat.lt_irrefl n below

theorem emptyRegistry_linked : ListHead.Linked (emptyRegistry : Registry π).heap .head [] where
  single := List.nodup_singleton _
  next := cycle_nil.mpr rfl
  prev := cycle_nil.mpr rfl

/-- The next command takes the next node, behind all others. -/
theorem Listed.linkedTail_linked (listed : Listed reg requests) (room : requests.length < cmdSlots)
    (request : Request π)
    (linked : ListHead.Linked reg.heap .head (slotNodes requests.length)) :
    ListHead.Linked (Main.linkedTail reg request requests.length).heap .head
      (slotNodes (requests.length + 1)) := by
  have valid : ∀ j, reg.gcmdsHead.prev = .node j → j < cmdSlots := by
    intro j ends
    cases many : requests.length with
    | zero =>
      rw [listed.first (List.length_eq_zero_iff.mp many)] at ends
      cases ends
    | succ n =>
      rw [listed.last n many] at ends
      cases ends
      omega
  have called := listAddTail_heap (by rwa [List.length_modify, listed.sized])
    (by rwa [List.length_modify, listed.sized]) (listed.addTail request)
  rw [heap_data (fun sc => { sc with
    cmd := some request.cmd, process := request.process, helpMsg := request.helpMsg })
    fun _ => rfl] at called
  obtain ⟨after, performed, longer, _⟩ :=
    linked.step (.addTail (.node requests.length)) (not_mem_slotNodes _)
  have same : after = (Main.linkedTail reg request requests.length).heap :=
    Except.ok.inj (performed.symm.trans called)
  rw [slotNodes_succ, ← same]
  exact longer

theorem registerAll_linked (rest : List (Request π)) :
    ∀ {reg : Registry π} {done : List (Request π)}
      {result : List Int × Registry π × List (Event π)}, Listed reg done →
      ListHead.Linked reg.heap .head (slotNodes done.length) → registerAll reg rest = .ok result →
      ListHead.Linked result.2.1.heap .head
        (slotNodes (min cmdSlots (done.length + rest.length))) := by
  induction rest with
  | nil =>
    intro reg done result listed linked ran
    cases ran
    rwa [List.length_nil, Nat.add_zero, Nat.min_eq_right listed.few]
  | cons request rest ih =>
    intro reg done result listed linked ran
    by_cases room : done.length < cmdSlots
    · obtain ⟨report, registered⟩ := listed.register room request
      rw [registerAll, registered] at ran
      obtain ⟨⟨rc, after, events⟩, called, ran⟩ := bind_ends ran
      obtain ⟨name, printed⟩ := (map_ends_iff _).mp ⟨_, called⟩
      rw [printed] at called
      cases called
      obtain ⟨⟨rcs, last, later⟩, ended, ran⟩ := bind_ends ran
      cases ran
      have longer := listed.linkedTail_linked room request linked
      rw [← List.length_singleton (a := request), ← List.length_append] at longer
      have kept := ih (listed.linkedTail room request) longer ended
      rwa [List.length_append, List.length_singleton, Nat.add_assoc, Nat.add_comm 1,
        ← List.length_cons] at kept
    · have full : done.length = cmdSlots := Nat.le_antisymm listed.few (Nat.le_of_not_lt room)
      obtain ⟨events, ended⟩ := registerAll_full (request :: rest) listed full
      rw [ended] at ran
      cases ran
      rw [full] at linked ⊢
      rwa [Nat.min_eq_left (Nat.le_add_right ..)]

/-- Whatever commands are registered, those that found a slot are a circular doubly linked list in
the order of the calls. -/
theorem registered_linked {result : List Int × Registry π × List (Event π)}
    (ran : registerAll emptyRegistry requests = .ok result) :
    ListHead.Linked result.2.1.heap .head (slotNodes (min cmdSlots requests.length)) := by
  have linked := registerAll_linked requests listed_empty emptyRegistry_linked ran
  rwa [List.length_nil, Nat.zero_add] at linked

end Ct.S5pv210.Main
