import Ct.S5pv210.ListHead

set_option autoImplicit false

namespace Ct.S5pv210.ListHead

open Ct.Lib

variable {α : Type} {h : Heap α} {head p q x : α} {front back nodes : List α}

/-- Only nodes of this list have changed. -/
def Keeps (h after : Heap α) (cells : List α) : Prop :=
  ∀ a ∉ cells, after.prev a = h.prev a ∧ after.next a = h.next a

theorem keeps_refl (h : Heap α) (cells : List α) : Keeps h h cells := fun _ _ => ⟨rfl, rfl⟩

variable [DecidableEq α]

theorem Keeps.setPrev {after : Heap α} {cells : List α} (keeps : Keeps h after cells) {node : α}
    (inside : node ∈ cells) (link : Option α) : Keeps h (after.setPrev node link) cells := by
  intro a outside
  have other := (ne_of_mem_of_not_mem inside outside).symm
  exact ⟨(Function.update_of_ne other ..).trans (keeps a outside).1, (keeps a outside).2⟩

theorem Keeps.setNext {after : Heap α} {cells : List α} (keeps : Keeps h after cells) {node : α}
    (inside : node ∈ cells) (link : Option α) : Keeps h (after.setNext node link) cells := by
  intro a outside
  have other := (ne_of_mem_of_not_mem inside outside).symm
  exact ⟨(keeps a outside).1, (Function.update_of_ne other ..).trans (keeps a outside).2⟩

/-- The four writes that bring `x` in between `p` and `q`. -/
def spliced (h : Heap α) (p x q : α) : Heap α :=
  (((h.setPrev x (some p)).setNext x (some q)).setPrev q (some x)).setNext p (some x)

/-- The four writes that take `x` out from between `p` and `q`. -/
def unspliced (h : Heap α) (p x q : α) : Heap α :=
  (((h.setNext p (some q)).setPrev q (some p)).setPrev x none).setNext x none

theorem Linked.splice (linked : Linked h head (front ++ back))
    (between : Between head front back p q) (fresh : x ∉ head :: (front ++ back)) :
    Linked (spliced h p x q) head (front ++ x :: back) := by
  obtain ⟨forth, back'⟩ := linked.joined between
  refine ⟨?_, ?_, ?_⟩
  · rw [← List.cons_append, List.nodup_middle, List.cons_append]
    exact List.nodup_cons.mpr ⟨fresh, linked.single⟩
  · have inserted := linked.next.insert linked.single fresh between.last
    rwa [forth] at inserted
  · have reversed := linked.prev
    have same : (front ++ back).reverse = back.reverse ++ front.reverse := List.reverse_append
    have single : (head :: (back.reverse ++ front.reverse)).Nodup := by
      rw [← same, List.nodup_cons, List.mem_reverse, List.nodup_reverse, ← List.nodup_cons]
      exact linked.single
    have outside : x ∉ head :: (back.reverse ++ front.reverse) := by
      rwa [← same, List.mem_cons, List.mem_reverse, ← List.mem_cons]
    rw [same] at reversed
    have inserted := reversed.insert single outside between.first
    rw [back'] at inserted
    rw [List.reverse_append, List.reverse_cons, List.append_assoc, List.singleton_append]
    exact inserted

theorem Linked.unsplice (linked : Linked h head (front ++ x :: back))
    (between : Between head front back p q) :
    Linked (unspliced h p x q) head (front ++ back) := by
  obtain ⟨_, joined', joined, _⟩ := linked.neighbours between
  have single := linked.single
  rw [← List.cons_append, List.nodup_middle, List.nodup_cons, List.cons_append] at single
  obtain ⟨outside, single⟩ := single
  have reversed := linked.prev
  have same : (front ++ x :: back).reverse = back.reverse ++ x :: front.reverse := by
    rw [List.reverse_append, List.reverse_cons, List.append_assoc, List.singleton_append]
  have single' : (head :: (back.reverse ++ x :: front.reverse)).Nodup := by
    rw [← same, List.nodup_cons, List.mem_reverse, List.nodup_reverse, ← List.nodup_cons]
    exact linked.single
  rw [same] at reversed
  have forth := linked.next.erase linked.single between.last
  have back' := reversed.erase single' between.first
  rw [joined] at forth
  rw [joined', ← List.reverse_append] at back'
  refine ⟨single, forth.congr ?_, back'.congr ?_⟩
  · intro a member
    exact Function.update_of_ne (ne_of_mem_of_not_mem member outside) ..
  · intro a member
    rw [List.mem_cons, List.mem_reverse, ← List.mem_cons] at member
    exact Function.update_of_ne (ne_of_mem_of_not_mem member outside) ..

theorem listAdd_splices (other : head ≠ x) (first : h.next head = some q) :
    listAdd h head x = .ok (spliced h head x q) := by
  simp only [listAdd, Heap.setPrev, Heap.setNext, Function.update_of_ne other, first, deref,
    bind, Except.bind, pure, Except.pure, spliced]

theorem listAddTail_splices (other : head ≠ x) (last : h.prev head = some p) :
    listAddTail h head x = .ok (spliced h p x head) := by
  simp only [listAddTail, Heap.setPrev, Heap.setNext, Function.update_of_ne other, last, deref,
    bind, Except.bind, pure, Except.pure, spliced]

theorem listDel_unsplices (linked : Linked h head (front ++ x :: back))
    (between : Between head front back p q) :
    listDel h x = .ok (x, unspliced h p x q) := by
  obtain ⟨_, before, behind, _⟩ := linked.neighbours between
  have single := linked.single
  rw [← List.cons_append, List.nodup_middle, List.nodup_cons, List.cons_append] at single
  have other : x ≠ p := (ne_of_mem_of_not_mem between.last_mem single.1).symm
  simp only [listDel, Heap.setPrev, Heap.setNext, Function.update_of_ne other, before, behind,
    deref, bind, Except.bind, pure, Except.pure, unspliced]

/-- Both links of the node are null pointers. -/
def Cleared (h : Heap α) (x : α) : Prop := h.prev x = none ∧ h.next x = none

theorem unspliced_cleared (h : Heap α) (p x q : α) : Cleared (unspliced h p x q) x :=
  ⟨Function.update_self .., Function.update_self ..⟩

/-- What one operation does to the list and to the other nodes. -/
theorem Linked.step (linked : Linked h head nodes) (op : Op α) (legal : op.Legal head nodes) :
    ∃ after, perform head h op = .ok after ∧ Linked after head (op.onSequence nodes) ∧
      Keeps h after (op.list :: head :: nodes) ∧ (op = .del op.list → Cleared after op.list) := by
  cases op with
  | add x =>
    obtain ⟨p, q, between⟩ := between_exists head [] nodes
    obtain rfl : head = p := Option.some_inj.mp between.last
    have whole : Linked h head ([] ++ nodes) := linked
    have other : head ≠ x := (List.ne_of_not_mem_cons legal).symm
    refine ⟨spliced h head x q, listAdd_splices other (whole.joined between).1,
      whole.splice between legal, ?_, fun same => by cases same⟩
    have qIn : q ∈ x :: head :: nodes := List.mem_cons_of_mem _ between.first_mem
    have headIn : head ∈ x :: head :: nodes := List.mem_cons_of_mem _ (List.mem_cons_self ..)
    have xIn : x ∈ x :: head :: nodes := List.mem_cons_self ..
    exact ((((keeps_refl h _).setPrev xIn _).setNext xIn _).setPrev qIn _).setNext headIn _
  | addTail x =>
    obtain ⟨p, q, between⟩ := between_exists head nodes []
    obtain rfl : head = q := Option.some_inj.mp between.first
    have whole := linked
    rw [← List.append_nil nodes] at whole
    have fresh : x ∉ head :: (nodes ++ []) := by
      rw [List.append_nil]
      exact legal
    have other : head ≠ x := (List.ne_of_not_mem_cons legal).symm
    refine ⟨spliced h p x head, listAddTail_splices other (whole.joined between).2,
      whole.splice between fresh, ?_, fun same => by cases same⟩
    have pIn : p ∈ x :: head :: nodes := by
      have member := between.last_mem
      rw [List.append_nil] at member
      exact List.mem_cons_of_mem _ member
    have headIn : head ∈ x :: head :: nodes := List.mem_cons_of_mem _ (List.mem_cons_self ..)
    have xIn : x ∈ x :: head :: nodes := List.mem_cons_self ..
    exact ((((keeps_refl h _).setPrev xIn _).setNext xIn _).setPrev headIn _).setNext pIn _
  | del x =>
    obtain ⟨front, back, rfl, notFront⟩ := List.eq_append_cons_of_mem legal
    obtain ⟨p, q, between⟩ := between_exists head front back
    have erased : (front ++ x :: back).erase x = front ++ back := by
      rw [List.erase_append_right _ notFront, List.erase_cons_head]
    refine ⟨unspliced h p x q, ?_, ?_, ?_, fun _ => unspliced_cleared h p x q⟩
    · rw [perform, listDel_unsplices linked between]
      rfl
    · rw [Op.onSequence, erased]
      exact linked.unsplice between
    · have inside : ∀ {a}, a ∈ head :: (front ++ back) → a ∈ x :: head :: (front ++ x :: back) := by
        intro a member
        simp only [List.mem_cons, List.mem_append] at member ⊢
        tauto
      have xIn : x ∈ x :: head :: (front ++ x :: back) := List.mem_cons_self ..
      exact ((((keeps_refl h _).setNext (inside between.last_mem) _).setPrev
        (inside between.first_mem) _).setPrev xIn _).setNext xIn _

/-- A node other than the one of the operation stays in the sequence. -/
theorem mem_onSequence {op : Op α} (other : x ≠ op.list) (member : x ∈ nodes) :
    x ∈ op.onSequence nodes := by
  cases op with
  | add list => exact List.mem_cons_of_mem _ member
  | addTail list => exact List.mem_append_left _ member
  | del list => exact (List.mem_erase_of_ne other).mpr member

theorem list_mem_onSequence (op : Op α) (nodes : List α) :
    op.list ∈ op.onSequence nodes ∨ op = .del op.list := by
  cases op with
  | add list => exact Or.inl (List.mem_cons_self ..)
  | addTail list => exact Or.inl (List.mem_append_right _ (List.mem_singleton.mpr rfl))
  | del list => exact Or.inr rfl

/-- The nodes that these operations delete and that are not linked have null pointers. -/
def ClearsDeleted (h : Heap α) (head : α) (nodes : List α) (ops : List (Op α)) : Prop :=
  ∀ x, .del x ∈ ops → x ≠ head ∧ (x ∉ nodes → Cleared h x)

theorem ClearsDeleted.step {ops : List (Op α)} (clears : ClearsDeleted h head nodes ops)
    (linked : Linked h head nodes) {op : Op α} (legal : op.Legal head nodes) {after : Heap α}
    (keeps : Keeps h after (op.list :: head :: nodes))
    (deleted : op = .del op.list → Cleared after op.list) :
    ClearsDeleted after head (op.onSequence nodes) (ops ++ [op]) := by
  intro x member
  by_cases same : x = op.list
  · subst same
    constructor
    · rcases List.mem_append.mp member with before | now
      · exact (clears _ before).1
      · -- the node is linked, so that it is not the head
        rw [← List.mem_singleton.mp now] at legal
        exact ne_of_mem_of_not_mem legal (List.nodup_cons.mp linked.single).1
    · intro outside
      exact deleted ((list_mem_onSequence op nodes).resolve_left outside)
  · rcases List.mem_append.mp member with before | now
    · obtain ⟨notHead, cleared⟩ := clears x before
      refine ⟨notHead, fun outside => ?_⟩
      have absent : x ∉ nodes := fun inside => outside (mem_onSequence same inside)
      have kept := keeps x (by simp [same, notHead, absent])
      exact ⟨kept.1.trans (cleared absent).1, kept.2.trans (cleared absent).2⟩
    · exact absurd (congrArg Op.list (List.mem_singleton.mp now)) same

theorem performAll_linked (ops : List (Op α)) :
    ∀ {h : Heap α} {nodes : List α} {done : List (Op α)}, Linked h head nodes →
      ClearsDeleted h head nodes done → Legal head nodes ops →
      ∃ after, performAll head h ops = .ok after ∧ Linked after head (sequence nodes ops) ∧
        ClearsDeleted after head (sequence nodes ops) (done ++ ops) := by
  induction ops with
  | nil =>
    intro h nodes done linked clears _
    refine ⟨h, rfl, linked, ?_⟩
    rwa [List.append_nil]
  | cons op ops ih =>
    intro h nodes done linked clears legal
    obtain ⟨next, performed, linked', keeps, deleted⟩ := linked.step op legal.1
    obtain ⟨after, ran, kept⟩ := ih linked' (clears.step linked legal.1 keeps deleted) legal.2
    rw [List.append_assoc, List.singleton_append] at kept
    refine ⟨after, ?_, kept⟩
    rw [performAll, performed]
    exact ran

theorem initListHead_linked (h : Heap α) (head : α) : Linked (initListHead h head) head [] where
  single := List.nodup_singleton head
  next := cycle_nil.mpr (Function.update_self ..)
  prev := cycle_nil.mpr (Function.update_self ..)

theorem Linked.isEmpty_iff (linked : Linked h head nodes) :
    listIsEmpty h head = true ↔ nodes = [] := by
  rw [listIsEmpty, beq_iff_eq]
  cases nodes with
  | nil => exact iff_of_true (cycle_nil.mp linked.next) rfl
  | cons a nodes =>
    have first : h.next head = some a := (List.isChain_cons_cons.mp linked.next).1
    have other := List.ne_of_not_mem_cons (List.nodup_cons.mp linked.single).1
    rw [first, Option.some_inj]
    exact iff_of_false other.symm (List.cons_ne_nil a nodes)

/-- Whatever is added and deleted, the list stays circular and doubly linked, and both of its
directions visit the nodes of the sequence that the operations make. -/
theorem sequence_linked (start : Heap α) (head : α) (ops : List (Op α)) (legal : Legal head [] ops) :
    ∃ h, performAll head (initListHead start head) ops = .ok h ∧
      Linked h head (sequence [] ops) ∧
      (∀ fuel, (sequence [] ops).length < fuel →
        walk h.next head fuel (h.next head) = some (sequence [] ops) ∧
        walk h.prev head fuel (h.prev head) = some (sequence [] ops).reverse) ∧
      (sequence [] ops).Nodup ∧
      (listIsEmpty h head = true ↔ sequence [] ops = []) ∧
      ∀ x, .del x ∈ ops → x ∉ sequence [] ops → h.prev x = none ∧ h.next x = none := by
  have clears : ClearsDeleted (initListHead start head) head [] [] := by
    intro x member
    cases member
  obtain ⟨h, ran, linked, cleared⟩ := performAll_linked ops (initListHead_linked start head) clears
    legal
  obtain ⟨outside, single⟩ := List.nodup_cons.mp linked.single
  refine ⟨h, ran, linked, ?_, single, linked.isEmpty_iff, fun x member => (cleared x member).2⟩
  intro fuel enough
  refine ⟨linked.next.visits outside enough, linked.prev.visits ?_ ?_⟩
  · rwa [List.mem_reverse]
  · rwa [List.length_reverse]

/-- The head is 0: one node in front, one behind, and the first goes out again. -/
theorem sequence_linked_three :
    ∃ h, performAll 0 (initListHead ⟨fun _ => none, fun _ => none⟩ 0)
        [.add 1, .addTail 2, .add 3, .del 1] = .ok h ∧ Linked h 0 [3, 2] := by
  obtain ⟨h, ran, linked, _⟩ := sequence_linked (⟨fun _ => none, fun _ => none⟩ : Heap Nat) 0
    [.add 1, .addTail 2, .add 3, .del 1] (by simp [Legal, Op.Legal, Op.onSequence])
  exact ⟨h, ran, linked⟩

end Ct.S5pv210.ListHead
