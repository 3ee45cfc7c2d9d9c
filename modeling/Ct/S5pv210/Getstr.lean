import Ct.Lib.CString
import Ct.Lib.Memory

set_option autoImplicit false

namespace Ct.S5pv210.Main

open Ct.Lib

/-- The loop of `uart_getstr` with echo, over the characters that the port receives, with those
behind the line and the texts that are sent. -/
def uartGetstr : List Char → List Char → Nat → Except Fault (List Char × List Char × List CString)
  | [], _, _ => .error .outOfFuel
  | c :: input, buffer, i =>
    if i < buffer.length then
      if c = '\r' then .ok ((buffer.set i c).set i '\x00', input, [['\r', '\n']])
      else if c = '\x7f' then
        if i = 0 then uartGetstr input (buffer.set i c) 0
        else (uartGetstr input (buffer.set i c) (i - 1)).map fun (buffer, rest, sent) =>
          (buffer, rest, ['\x08', ' ', '\x08'] :: sent)
      else (uartGetstr input (buffer.set i c) (i + 1)).map fun (buffer, rest, sent) =>
        (buffer, rest, [c] :: sent)
    else .error .outOfBounds

/-- The line after one more key. -/
def edit (line : List Char) (c : Char) : List Char :=
  if c = '\x7f' then line.dropLast else line ++ [c]

/-- The line that these keys leave. -/
def edited (typed : List Char) : List Char := typed.foldl edit []

/-- Where nothing is corrected, the line is what is typed. -/
theorem foldl_edit_plain (typed : List Char) :
    ∀ {line : List Char}, '\x7f' ∉ typed → typed.foldl edit line = line ++ typed := by
  induction typed with
  | nil => exact fun _ => (List.append_nil _).symm
  | cons c typed ih =>
    intro line plain
    rw [List.mem_cons, not_or] at plain
    rw [List.foldl_cons, ih plain.2, edit, if_neg (Ne.symm plain.1), List.append_assoc,
      List.singleton_append]

theorem foldl_edit_length (typed : List Char) :
    ∀ line : List Char, (typed.foldl edit line).length ≤ line.length + typed.length := by
  induction typed with
  | nil => exact fun _ => Nat.le_refl _
  | cons c typed ih =>
    intro line
    have step : (edit line c).length ≤ line.length + 1 := by
      rw [edit]
      split
      · rw [List.length_dropLast]
        omega
      · exact Nat.le_of_eq List.length_append
    have rest := ih (edit line c)
    rw [List.foldl_cons, List.length_cons]
    omega

/-- From this line on, the keys and the end of the line all find a place in the buffer. -/
def FitsFrom (size : Nat) (line typed : List Char) : Prop :=
  ∀ before, before <+: typed → (before.foldl edit line).length < size

theorem fitsFrom_nil {size : Nat} {line : List Char} :
    FitsFrom size line [] ↔ line.length < size := by
  constructor
  · intro fits
    exact fits [] (List.prefix_refl [])
  · intro fits before inside
    rw [List.prefix_nil.mp inside]
    exact fits

theorem fitsFrom_cons {size : Nat} {line : List Char} {c : Char} {typed : List Char} :
    FitsFrom size line (c :: typed) ↔
      line.length < size ∧ FitsFrom size (edit line c) typed := by
  constructor
  · intro fits
    refine ⟨fits [] (List.nil_prefix), fun before inside => ?_⟩
    exact fits (c :: before) (List.cons_prefix_cons.mpr ⟨rfl, inside⟩)
  · rintro ⟨here, later⟩ before inside
    cases before with
    | nil => exact here
    | cons d before =>
      obtain ⟨rfl, shorter⟩ := List.cons_prefix_cons.mp inside
      exact later before shorter

theorem prefix_edit {line buffer : List Char} (start : line <+: buffer)
    (room : line.length < buffer.length) (c : Char) : edit line c <+: buffer.set line.length c := by
  have stored := prefix_set start room c
  rw [edit]
  split
  · exact ((List.dropLast_prefix line).trans (List.prefix_append line [c])).trans stored
  · exact stored

/-- The text of the message that no command was found starts with these. -/
def quoted (text : CString) : Bool := text.take 2 == [' ', '\'']

theorem fitsFrom_of_length {size : Nat} {line typed : List Char}
    (short : line.length + typed.length < size) : FitsFrom size line typed := by
  intro before inside
  have few := foldl_edit_length before line
  have fewer := inside.length_le
  omega

/-- What the port sends for one key. -/
def echoOf (line : List Char) (c : Char) : List CString :=
  if c = '\x7f' then if line.length = 0 then [] else [['\x08', ' ', '\x08']]
  else [[c]]

/-- What it sends for these keys and the end of the line. -/
def echoed : List Char → List Char → List CString
  | _, [] => [['\r', '\n']]
  | line, c :: typed => echoOf line c ++ echoed (edit line c) typed

theorem quoted_echoed (typed : List Char) :
    ∀ line : List Char, ∀ text ∈ echoed line typed, quoted text = false := by
  induction typed with
  | nil =>
    intro line text member
    rw [List.mem_singleton.mp member]
    rfl
  | cons c typed ih =>
    intro line text member
    rcases List.mem_append.mp member with first | later
    · rw [echoOf] at first
      split at first
      · split at first
        · exact absurd first List.not_mem_nil
        · rw [List.mem_singleton.mp first]
          rfl
      · rw [List.mem_singleton.mp first]
        simp [quoted]
    · exact ih (edit line c) text later

/-- What one key does. -/
theorem uartGetstr_key {line buffer : List Char} {c : Char} (other : c ≠ '\r')
    (room : line.length < buffer.length) (input : List Char) :
    uartGetstr (c :: input) buffer line.length =
      (uartGetstr input (buffer.set line.length c) (edit line c).length).map
        fun (buffer, rest, sent) => (buffer, rest, echoOf line c ++ sent) := by
  rw [uartGetstr, if_pos room, if_neg other, echoOf, edit]
  by_cases back : c = '\x7f'
  · rw [if_pos back, if_pos back, if_pos back, List.length_dropLast]
    by_cases empty : line.length = 0
    · rw [if_pos empty, if_pos empty, empty]
      cases uartGetstr input (buffer.set 0 c) 0 with
      | error fault => rfl
      | ok result => rfl
    · rw [if_neg empty, if_neg empty]
      rfl
  · rw [if_neg back, if_neg back, if_neg back, List.length_append]
    rfl

/-- Keys that fit leave their line in the buffer. -/
theorem uartGetstr_ends (typed more : List Char) :
    ∀ {line buffer : List Char}, '\r' ∉ typed → line <+: buffer →
      FitsFrom buffer.length line typed →
      ∃ after, uartGetstr (typed ++ '\r' :: more) buffer line.length =
          .ok (after, more, echoed line typed) ∧
        typed.foldl edit line ++ ['\x00'] <+: after ∧ after.length = buffer.length := by
  induction typed with
  | nil =>
    intro line buffer _ start fits
    have room := fitsFrom_nil.mp fits
    refine ⟨_, by rw [List.nil_append, uartGetstr, if_pos room, if_pos rfl]; rfl, ?_, ?_⟩
    · rw [List.set_set]
      exact prefix_set start room _
    · rw [List.length_set, List.length_set]
  | cons c typed ih =>
    intro line buffer once start fits
    rw [List.mem_cons, not_or] at once
    obtain ⟨room, later⟩ := fitsFrom_cons.mp fits
    have stored : (buffer.set line.length c).length = buffer.length := List.length_set
    rw [← stored] at later
    obtain ⟨after, ran, kept, same⟩ := ih once.2 (prefix_edit start room c) later
    refine ⟨after, ?_, kept, same.trans stored⟩
    rw [List.cons_append, uartGetstr_key (Ne.symm once.1) room, ran]
    rfl

theorem fits_of_uartGetstr (typed more : List Char) :
    ∀ {line buffer : List Char} {result : List Char × List Char × List CString}, '\r' ∉ typed →
      uartGetstr (typed ++ '\r' :: more) buffer line.length = .ok result →
      FitsFrom buffer.length line typed := by
  induction typed with
  | nil =>
    intro line buffer result _ ran
    by_cases room : line.length < buffer.length
    · exact fitsFrom_nil.mpr room
    · rw [List.nil_append, uartGetstr, if_neg room] at ran
      cases ran
  | cons c typed ih =>
    intro line buffer result once ran
    rw [List.mem_cons, not_or] at once
    by_cases room : line.length < buffer.length
    · rw [List.cons_append, uartGetstr_key (Ne.symm once.1) room] at ran
      obtain ⟨rest, ended⟩ := (map_ends_iff _).mp ⟨_, ran⟩
      have later := ih once.2 ended
      rw [List.length_set] at later
      exact fitsFrom_cons.mpr ⟨room, later⟩
    · rw [List.cons_append, uartGetstr, if_neg room] at ran
      cases ran

end Ct.S5pv210.Main
