import Ct.S5pv210.RegistryList

set_option autoImplicit false

namespace Ct.S5pv210.Main

open Ct.Lib

variable {π : Type} {reg : Registry π} {requests : List (Request π)}

/-- The nodes on which a traversal stands. -/
def visited (events : List (Event π)) : List Nat :=
  events.filterMap fun
    | .visits i => some i
    | _ => none

/-- The line of a command in `do_help`. -/
def helpLine (request : Request π) : Except Fault CString :=
  printf " %s - %s\n".toList [.string (some request.cmd), .string request.helpMsg]

/-- Name and message are formats without arguments, and there is a message. -/
def HelpPlain (request : Request π) : Prop :=
  takesArgument request.cmd = false ∧
    ∃ msg, request.helpMsg = some msg ∧ takesArgument msg = false

theorem helpLine_iff (request : Request π) :
    (∃ text, helpLine request = .ok text) ↔ HelpPlain request := by
  have format : " %s - %s\n".toList =
      " ".toList ++ '%' :: 's' :: (" - ".toList ++ '%' :: 's' :: ['\n']) := by decide
  rw [helpLine, HelpPlain, printf, format, formatLoop_text (by decide), map_ends_iff,
    formatLoop_string_iff, formatLoop_text (by decide), map_ends_iff, formatLoop_string_iff,
    formatLoop_plain (by decide)]
  simp

/-- A traversal has a turn for every node and for its end. -/
theorem Listed.enough (listed : Listed reg requests) :
    (List.range requests.length).length < cmdSlots + 1 := by
  rw [List.length_range]
  exact Nat.lt_succ_of_le listed.few

theorem Listed.helpBody (listed : Listed reg requests) {i : Nat} {request : Request π}
    (asked : requests[i]? = some request) (count : Nat) (events : List (Event π)) :
    helpBody reg i (count, events) = (helpLine request).map fun text =>
      (false, (count + 1, events ++ [.visits i, .sent text])) := by
  obtain ⟨sc, here, cmd, process, msg⟩ := listed.slot_of_request asked
  simp only [Main.helpBody, here, cmd, msg, helpLine]
  cases printf " %s - %s\n".toList [.string (some request.cmd), .string request.helpMsg] with
  | error fault => rfl
  | ok text => rfl

theorem Listed.help_visits (listed : Listed reg requests) (ids : List Nat) :
    ∀ (count : Nat) (events : List (Event π)),
      (∀ i ∈ ids, ∃ request, requests[i]? = some request ∧ HelpPlain request) →
      ∃ more, visitAll (Main.helpBody reg) ids (count, events) =
        .ok (.head, count + ids.length, events ++ more) ∧ visited more = ids := by
  induction ids with
  | nil => exact fun _ _ _ => ⟨[], by rw [List.append_nil]; rfl, rfl⟩
  | cons i rest ih =>
    intro count events plain
    obtain ⟨request, asked, clear⟩ := plain i (List.mem_cons_self ..)
    obtain ⟨text, line⟩ := (helpLine_iff request).mpr clear
    obtain ⟨more, ran, seen⟩ := ih (count + 1) (events ++ [.visits i, .sent text])
      fun k member => plain k (List.mem_cons_of_mem _ member)
    refine ⟨.visits i :: .sent text :: more, ?_, ?_⟩
    · simp only [visitAll, listed.helpBody asked, line, Except.map, ran, List.length_cons]
      rw [List.append_assoc, Nat.add_assoc, Nat.add_comm 1]
      rfl
    · rw [← seen]
      rfl

theorem Listed.help_plain (listed : Listed reg requests) (ids : List Nat) :
    ∀ {state : Nat × List (Event π)} {result : Link × Nat × List (Event π)},
      (∀ i ∈ ids, i < requests.length) → visitAll (Main.helpBody reg) ids state = .ok result →
      ∀ i ∈ ids, ∃ request, requests[i]? = some request ∧ HelpPlain request := by
  induction ids with
  | nil => exact fun _ _ i member => absurd member List.not_mem_nil
  | cons i rest ih =>
    intro state result inside ran
    obtain ⟨request, asked⟩ : ∃ request, requests[i]? = some request :=
      ⟨_, List.getElem?_eq_getElem (inside i (List.mem_cons_self ..))⟩
    have body := listed.helpBody asked state.1 state.2
    have clear := helpLine_iff request
    cases line : helpLine request with
    | error fault =>
      rw [line] at body
      simp only [visitAll, body, Except.map] at ran
      cases ran
    | ok text =>
      rw [line] at body clear
      simp only [visitAll, body, Except.map] at ran
      intro k member
      rcases List.mem_cons.mp member with rfl | later
      · exact ⟨request, asked, clear.mp ⟨text, rfl⟩⟩
      · exact ih (fun j member => inside j (List.mem_cons_of_mem _ member)) ran k later

/-- `do_help` stands on every listed command once, and returns where all texts are plain. -/
theorem Listed.doHelp_ends (listed : Listed reg requests)
    (plain : ∀ request ∈ requests, HelpPlain request) :
    ∃ events, doHelp reg = .ok (0, events) ∧ visited events = List.range requests.length := by
  have total : ∀ count, ∃ text, printf "  total %x commands\n".toList [.word count] = .ok text := by
    intro count
    have format : "  total %x commands\n".toList =
        "  total ".toList ++ '%' :: 'x' :: " commands\n".toList := by decide
    rw [printf, format, formatLoop_text (by decide), map_ends_iff, formatLoop_hex, map_ends_iff]
    exact ⟨_, formatLoop_plain (by decide)⟩
  have spine := traverse_spine (Main.helpBody reg) _ (0, []) listed.linked listed.enough
  obtain ⟨more, ran, seen⟩ := listed.help_visits (List.range requests.length) 0 []
    fun i member => by
      have asked := List.getElem?_eq_getElem (List.mem_range.mp member)
      exact ⟨_, asked, plain _ (List.mem_of_getElem? asked)⟩
  obtain ⟨text, printed⟩ := total (BitVec.ofNat 32 (0 + (List.range requests.length).length))
  refine ⟨more ++ [.sent text], ?_, ?_⟩
  · simp only [doHelp, spine, ran, bind, Except.bind, printed]
    rfl
  · rw [visited, List.filterMap_append]
    exact (List.append_nil _).trans seen

theorem Listed.plain_of_doHelp (listed : Listed reg requests) {result : Int × List (Event π)}
    (ran : doHelp reg = .ok result) : ∀ request ∈ requests, HelpPlain request := by
  obtain ⟨⟨link, count, events⟩, walked, _⟩ := bind_ends ran
  rw [traverse_spine (Main.helpBody reg) _ (0, []) listed.linked listed.enough] at walked
  intro request member
  obtain ⟨i, asked⟩ := List.mem_iff_getElem?.mp member
  have inside := (List.getElem?_eq_some_iff.mp asked).1
  obtain ⟨same, asked', plain⟩ := listed.help_plain _ (fun k => List.mem_range.mp) walked i
    (List.mem_range.mpr inside)
  rw [asked, Option.some_inj] at asked'
  rwa [asked']

end Ct.S5pv210.Main
