import Ct.S5pv210.Registry

set_option autoImplicit false

namespace Ct.S5pv210.Main

open Ct.Lib

variable {π : Type}

/-- What a slot holds besides its links. -/
def ShellCommand.data (sc : ShellCommand π) : Option CString × Option π × Option CString :=
  (sc.cmd, sc.process, sc.helpMsg)

/-- What the slot of a request holds, or a slot that was never taken. -/
def slotData : Option (Request π) → Option CString × Option π × Option CString
  | some request => (some request.cmd, request.process, request.helpMsg)
  | none => (none, none, none)

/-- The list has one node for each of these requests, in this order, and the other slots are
free. -/
structure Listed (reg : Registry π) (requests : List (Request π)) : Prop where
  few : requests.length ≤ cmdSlots
  sized : reg.gCmds.length = cmdSlots
  holds : ∀ (i : Nat) (sc : ShellCommand π), reg.gCmds[i]? = some sc → sc.data = slotData requests[i]?
  linked : Spine reg.next reg.gcmdsHead.next (List.range requests.length)
  first : requests = [] → reg.gcmdsHead.prev = .head
  last : ∀ n, requests.length = n + 1 → reg.gcmdsHead.prev = .node n

theorem listed_empty : Listed (emptyRegistry : Registry π) [] := by
  refine ⟨Nat.zero_le _, List.length_replicate, ?_, trivial, fun _ => rfl, ?_⟩
  · intro i sc here
    rw [emptyRegistry, List.getElem?_replicate] at here
    split at here
    · cases here
      rfl
    · cases here
  · intro n more
    cases more

section Register

variable {reg : Registry π} {requests : List (Request π)}

theorem Listed.slot (listed : Listed reg requests) {i : Nat} (inside : i < cmdSlots) :
    ∃ sc, reg.gCmds[i]? = some sc ∧ sc.data = slotData requests[i]? := by
  rw [← listed.sized] at inside
  have here := List.getElem?_eq_getElem inside
  exact ⟨_, here, listed.holds i _ here⟩

theorem Listed.slot_of_request (listed : Listed reg requests) {i : Nat} {request : Request π}
    (asked : requests[i]? = some request) :
    ∃ sc, reg.gCmds[i]? = some sc ∧ sc.cmd = some request.cmd ∧ sc.process = request.process ∧
      sc.helpMsg = request.helpMsg := by
  have inside := (List.getElem?_eq_some_iff.mp asked).1
  obtain ⟨sc, here, data⟩ := listed.slot (Nat.lt_of_lt_of_le inside listed.few)
  rw [asked] at data
  simp only [ShellCommand.data, slotData, Prod.mk.injEq] at data
  exact ⟨sc, here, data⟩

theorem Listed.free (listed : Listed reg requests) {i : Nat} {sc : ShellCommand π}
    (here : reg.gCmds[i]? = some sc) : sc.cmd.isNone = true ↔ requests.length ≤ i := by
  have data := listed.holds i sc here
  rcases asked : requests[i]? with _ | request
  · rw [asked] at data
    simp only [ShellCommand.data, slotData, Prod.mk.injEq] at data
    simpa [data.1] using asked
  · have inside := (List.getElem?_eq_some_iff.mp asked).1
    rw [asked] at data
    simp only [ShellCommand.data, slotData, Prod.mk.injEq] at data
    simpa [data.1] using inside

/-- The slots are taken in their order. -/
theorem Listed.scMalloc_some (listed : Listed reg requests) (room : requests.length < cmdSlots) :
    scMalloc reg = some requests.length := by
  have inside : requests.length < reg.gCmds.length := by
    rw [listed.sized]
    exact room
  apply List.findIdx?_eq_some_iff_getElem.mpr
  refine ⟨inside, (listed.free (List.getElem?_eq_getElem inside)).mpr (Nat.le_refl _), ?_⟩
  intro j before
  have earlier : j < reg.gCmds.length := by omega
  rw [listed.free (List.getElem?_eq_getElem earlier)]
  omega

theorem Listed.scMalloc_none (listed : Listed reg requests) (full : requests.length = cmdSlots) :
    scMalloc reg = none := by
  apply List.findIdx?_eq_none_iff.mpr
  intro sc member
  obtain ⟨i, here⟩ := List.mem_iff_getElem?.mp member
  have inside := (List.getElem?_eq_some_iff.mp here).1
  rw [listed.sized] at inside
  apply Bool.eq_false_iff.mpr
  rw [ne_eq, listed.free here]
  omega

/-- The registry after the slot `i` is filled and linked behind all others. -/
def linkedTail (reg : Registry π) (request : Request π) (i : Nat) : Registry π where
  gcmdsHead := ⟨.node i, if i = 0 then .node i else reg.gcmdsHead.next⟩
  gCmds := reg.gCmds.mapIdx fun k sc =>
    if k = i then ⟨⟨reg.gcmdsHead.prev, .head⟩, some request.cmd, request.process, request.helpMsg⟩
    else if k + 1 = i then { sc with list := ⟨sc.list.prev, .node i⟩ }
    else sc

theorem Listed.addTail (listed : Listed reg requests) (request : Request π) :
    listAddTail { reg with gCmds := reg.gCmds.modify requests.length fun sc =>
        { sc with cmd := some request.cmd, process := request.process,
                  helpMsg := request.helpMsg } } requests.length =
      .ok (linkedTail reg request requests.length) := by
  cases many : requests.length with
  | zero =>
    have ends := listed.first (List.length_eq_zero_iff.mp many)
    simp only [listAddTail, ends, linkedTail, if_true]
    congr 2
    apply List.ext_getElem?
    intro k
    simp only [List.getElem?_modify, List.getElem?_mapIdx]
    cases reg.gCmds[k]? with
    | none => rfl
    | some sc =>
      by_cases here : k = 0
      · simp [here]
      · simp [here, Ne.symm here]
  | succ n =>
    have ends := listed.last n many
    simp only [listAddTail, ends, linkedTail, Nat.succ_ne_zero, if_false]
    congr 2
    apply List.ext_getElem?
    intro k
    simp only [List.getElem?_modify, List.getElem?_mapIdx]
    cases reg.gCmds[k]? with
    | none => rfl
    | some sc =>
      by_cases here : k = n + 1
      · simp [here]
      · by_cases before : k = n
        · simp [before]
        · simp [here, Ne.symm here, before, Ne.symm before]

theorem linkedTail_slot {m k : Nat} {sc : ShellCommand π} (request : Request π)
    (here : reg.gCmds[k]? = some sc) :
    (linkedTail reg request m).gCmds[k]? = some (
      if k = m then
        ⟨⟨reg.gcmdsHead.prev, .head⟩, some request.cmd, request.process, request.helpMsg⟩
      else if k + 1 = m then { sc with list := ⟨sc.list.prev, .node m⟩ }
      else sc) := by
  rw [linkedTail, List.getElem?_mapIdx, here, Option.map_some]

theorem Listed.linkedTail_spine (listed : Listed reg requests)
    (room : requests.length < cmdSlots) (request : Request π) :
    Spine (linkedTail reg request requests.length).next
      (linkedTail reg request requests.length).gcmdsHead.next
      (List.range (requests.length + 1)) := by
  have fresh : (linkedTail reg request requests.length).next requests.length = .ok .head := by
    obtain ⟨sc, here, _⟩ := listed.slot room
    rw [Registry.next, linkedTail_slot request here, if_pos rfl]
  have linked := listed.linked
  cases many : requests.length with
  | zero =>
    rw [many] at fresh
    exact ⟨rfl, .head, fresh, trivial⟩
  | succ n =>
    rw [many] at fresh linked room
    rw [List.range_succ] at linked
    rw [List.range_succ, List.range_succ]
    apply spine_snoc (List.range n) linked
    · intro i member
      rw [List.mem_range] at member
      obtain ⟨sc, here, _⟩ := listed.slot (i := i) (by omega)
      rw [Registry.next, Registry.next, linkedTail_slot request here, here, if_neg (by omega),
        if_neg (by omega)]
    · obtain ⟨sc, here, _⟩ := listed.slot (i := n) (by omega)
      rw [Registry.next, linkedTail_slot request here, if_neg (by omega), if_pos rfl]
    · exact fresh

theorem Listed.linkedTail (listed : Listed reg requests) (room : requests.length < cmdSlots)
    (request : Request π) :
    Listed (linkedTail reg request requests.length) (requests ++ [request]) := by
  refine ⟨?_, ?_, ?_, ?_, ?_, ?_⟩
  · rw [List.length_append, List.length_singleton]
    exact room
  · rw [Main.linkedTail, List.length_mapIdx, listed.sized]
  · intro k sc here
    rcases old : reg.gCmds[k]? with _ | before
    · rw [Main.linkedTail, List.getElem?_mapIdx, old] at here
      cases here
    · have data := listed.holds k before old
      rw [linkedTail_slot request old, Option.some_inj] at here
      subst here
      by_cases fresh : k = requests.length
      · subst fresh
        rw [if_pos rfl, List.getElem?_concat_length]
        rfl
      · have same : (requests ++ [request])[k]? = requests[k]? := by
          by_cases below : k < requests.length
          · exact List.getElem?_append_left below
          · have beyond : (requests ++ [request]).length ≤ k := by
              rw [List.length_append, List.length_singleton]
              omega
            rw [List.getElem?_eq_none beyond, List.getElem?_eq_none (by omega)]
        rw [if_neg fresh, same, ← data]
        split
        · rfl
        · rfl
  · rw [List.length_append, List.length_singleton]
    exact listed.linkedTail_spine room request
  · intro none
    exact absurd none (List.append_ne_nil_of_right_ne_nil _ (List.cons_ne_nil _ _))
  · intro n many
    rw [List.length_append, List.length_singleton, Nat.add_right_cancel_iff] at many
    rw [Main.linkedTail, many]

theorem Listed.register (listed : Listed reg requests) (room : requests.length < cmdSlots)
    (request : Request π) :
    ∃ report : CString → CString,
      registerShellCommandQuick reg (some request.cmd) request.process request.helpMsg =
        (printfString request.cmd).map fun name =>
          (0, Main.linkedTail reg request requests.length, [.sent (report name)]) := by
  have format : "main: register command %s\n".toList =
      "main: register command ".toList ++ '%' :: 's' :: ['\n'] := by decide
  have printed := printf_string (show '%' ∉ "main: register command ".toList by decide)
    (show '%' ∉ ['\n'] by decide) request.cmd
  refine ⟨fun name => shown "main: register command ".toList ++ (name ++ shown ['\n']), ?_⟩
  simp only [registerShellCommandQuick, listed.scMalloc_some room, format, printed,
    registerShellCommand, listed.addTail]
  cases printfString request.cmd with
  | error fault => rfl
  | ok name => rfl

/-- A call that finds no free slot changes nothing. -/
theorem Listed.register_full (listed : Listed reg requests) (full : requests.length = cmdSlots)
    (request : Request π) :
    ∃ text, registerShellCommandQuick reg (some request.cmd) request.process request.helpMsg =
      .ok (-1, reg, [.sent text]) := by
  have printed : printf "main: sc_malloc failed\n".toList [] =
      .ok (shown "main: sc_malloc failed\n".toList) := formatLoop_plain (by decide)
  refine ⟨shown "main: sc_malloc failed\n".toList, ?_⟩
  simp only [registerShellCommandQuick, listed.scMalloc_none full, printed]
  rfl

end Register

theorem registerAll_full (rest : List (Request π)) {reg : Registry π} {requests : List (Request π)}
    (listed : Listed reg requests) (full : requests.length = cmdSlots) :
    ∃ events, registerAll reg rest = .ok (List.replicate rest.length (-1), reg, events) := by
  induction rest with
  | nil => exact ⟨[], rfl⟩
  | cons request rest ih =>
    obtain ⟨text, registered⟩ := listed.register_full full request
    obtain ⟨events, ended⟩ := ih
    refine ⟨.sent text :: events, ?_⟩
    simp only [registerAll, registered, bind, Except.bind, ended]
    rfl

/-- The names that are printed are formats without arguments. -/
def NamesPlain (requests : List (Request π)) : Prop :=
  ∀ request ∈ requests, takesArgument request.cmd = false

/-- Calls list their commands until there is no slot left; the others return -1 and change
nothing. -/
theorem registerAll_ends (rest : List (Request π)) :
    ∀ {reg : Registry π} {done : List (Request π)}, Listed reg done →
      NamesPlain (rest.take (cmdSlots - done.length)) →
      ∃ after events before, registerAll reg rest =
          .ok (List.replicate (rest.take (cmdSlots - done.length)).length 0 ++
            List.replicate (rest.drop (cmdSlots - done.length)).length (-1), after, events) ∧
        registerAll reg (rest.take (cmdSlots - done.length)) =
          .ok (List.replicate (rest.take (cmdSlots - done.length)).length 0, after, before) ∧
        Listed after (done ++ rest.take (cmdSlots - done.length)) := by
  induction rest with
  | nil =>
    intro reg done listed _
    refine ⟨reg, [], [], by simp [registerAll], by simp [registerAll], ?_⟩
    rwa [List.take_nil, List.append_nil]
  | cons request rest ih =>
    intro reg done listed plain
    by_cases room : done.length < cmdSlots
    · obtain ⟨left, more⟩ : ∃ left, cmdSlots - done.length = left + 1 :=
        ⟨cmdSlots - done.length - 1, by omega⟩
      have fewer : cmdSlots - (done ++ [request]).length = left := by
        rw [List.length_append, List.length_singleton]
        omega
      rw [more, List.take_succ_cons] at plain
      have longer := ih (listed.linkedTail room request)
      rw [fewer] at longer
      obtain ⟨after, events, before, ended, taken, kept⟩ :=
        longer fun later member => plain later (List.mem_cons_of_mem _ member)
      obtain ⟨report, registered⟩ := listed.register room request
      obtain ⟨name, printed⟩ := (printfString_iff _).mpr (plain request (List.mem_cons_self ..))
      rw [printed] at registered
      rw [more, List.take_succ_cons, List.drop_succ_cons]
      refine ⟨after, .sent (report name) :: events, .sent (report name) :: before, ?_, ?_, ?_⟩
      · simp only [registerAll, registered, Except.map, bind, Except.bind, ended]
        rfl
      · simp only [registerAll, registered, Except.map, bind, Except.bind, taken]
        rfl
      · rwa [List.append_assoc, List.singleton_append] at kept
    · have full : done.length = cmdSlots := Nat.le_antisymm listed.few (Nat.le_of_not_lt room)
      obtain ⟨events, ended⟩ := registerAll_full (request :: rest) listed full
      rw [full, Nat.sub_self]
      exact ⟨reg, events, [], ended, rfl, by rwa [List.take_zero, List.append_nil]⟩

/-- Calls that all return have printed the names of the listed commands. -/
theorem registerAll_plain (rest : List (Request π)) :
    ∀ {reg : Registry π} {done : List (Request π)} {result : List Int × Registry π × List (Event π)},
      Listed reg done → registerAll reg rest = .ok result →
      NamesPlain (rest.take (cmdSlots - done.length)) := by
  induction rest with
  | nil =>
    intro reg done result _ _ request member
    rw [List.take_nil] at member
    cases member
  | cons request rest ih =>
    intro reg done result listed ran
    by_cases room : done.length < cmdSlots
    · obtain ⟨left, more⟩ : ∃ left, cmdSlots - done.length = left + 1 :=
        ⟨cmdSlots - done.length - 1, by omega⟩
      have fewer : cmdSlots - (done ++ [request]).length = left := by
        rw [List.length_append, List.length_singleton]
        omega
      obtain ⟨report, registered⟩ := listed.register room request
      rw [registerAll, registered] at ran
      obtain ⟨⟨rc, after, events⟩, called, ran⟩ := bind_ends ran
      obtain ⟨name, printed⟩ := (map_ends_iff _).mp ⟨_, called⟩
      rw [printed] at called
      cases called
      obtain ⟨⟨rcs, last, later⟩, ended, _⟩ := bind_ends ran
      have longer := ih (listed.linkedTail room request) ended
      rw [fewer] at longer
      rw [more, List.take_succ_cons]
      intro other member
      rcases List.mem_cons.mp member with rfl | later
      · exact (printfString_iff _).mp ⟨name, printed⟩
      · exact longer other later
    · rw [show cmdSlots - done.length = 0 by omega, List.take_zero]
      exact fun other member => absurd member List.not_mem_nil

end Ct.S5pv210.Main
