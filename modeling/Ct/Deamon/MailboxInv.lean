import Ct.Deamon.Mailbox
import Ct.Lib.Memory

set_option autoImplicit false

namespace Ct.Deamon

open Ct.Lib

/-- The longest text that the line of the loop has room for. -/
def textMax : Nat := 29

/-- The messages in the log. -/
def messages (log : List LogLine) : List CString :=
  log.filterMap fun
    | .message text => some text
    | .loopping _ _ => none

/-- A client that has claimed the mailbox and not yet published. -/
def ClientPc.Inside : ClientPc → Prop
  | .copy _ => True
  | .publish => True
  | _ => False

/-- The daemon stands outside of the handling of a message. -/
def DeamonPc.Calm : DeamonPc → Prop
  | .loop => True
  | .check => True
  | .lookState => True
  | .lookData _ _ => True
  | .logLook _ _ => True
  | _ => False

/-- The line of the loop is short enough. -/
def DeamonPc.Fits : DeamonPc → Prop
  | .lookData state text => state ≤ 2 ∧ text.length ≤ textMax
  | .logLook state text => state ≤ 2 ∧ text.length ≤ textMax
  | _ => True

/-- The memory starts with the text and its end. -/
def Whole (text : CString) (data : List Char) : Prop := text ++ ['\x00'] <+: data

/-- What a client has stored of its text. -/
def Filled (text : CString) (data : List Char) : ClientPc → Prop
  | .copy k => k ≤ text.length ∧ text.take k <+: data
  | .publish => Whole text data
  | _ => False

section Texts

variable (argv1 : Nat → Argument)

/-- The texts of these clients. -/
def texts (order : List Nat) : List CString := order.map fun i => (argv1 i).val

/-- The decisions that these texts ask for. -/
def asked (order : List Nat) : List Bool := (texts argv1 order).map fun text => text = deamonExit

/-- The memory holds the text of the last client that has published. -/
structure Mail (s : State) (order before : List Nat) (i : Nat) : Prop where
  order_eq : order = before ++ [i]
  nobody : ∀ j, ¬ (s.clients j).Inside
  short : (argv1 i).val.length ≤ textMax
  whole : Whole (argv1 i).val s.data
  decided : s.decisions = asked argv1 before

/-- Who has the mailbox, with the clients in the order in which they have published. -/
inductive Stage (s : State) (order : List Nat) : Prop
  | free (state : s.state = 0) (deamon : s.deamon.Calm ∨ s.deamon = .left)
      (nobody : ∀ i, ¬ (s.clients i).Inside) (logged : messages s.log = texts argv1 order)
      (decided : s.decisions = asked argv1 order)
  | filling (i : Nat) (state : s.state = 2) (deamon : s.deamon.Calm) (on : s.thisRunning ≠ 0)
      (alone : ∀ j, (s.clients j).Inside ↔ j = i) (short : (argv1 i).val.length ≤ textMax)
      (filled : Filled (argv1 i).val s.data (s.clients i))
      (logged : messages s.log = texts argv1 order) (decided : s.decisions = asked argv1 order)
  | full (before : List Nat) (i : Nat) (mail : Mail argv1 s order before i) (state : s.state = 1)
      (deamon : s.deamon.Calm ∨ s.deamon = .take) (on : s.thisRunning ≠ 0)
      (logged : messages s.log = texts argv1 before)
  | taken (before : List Nat) (i : Nat) (mail : Mail argv1 s order before i) (state : s.state = 2)
      (deamon : (∃ text, s.deamon = .read text ∧ text <+: (argv1 i).val) ∨
        s.deamon = .log (argv1 i).val)
      (logged : messages s.log = texts argv1 before)
  | noted (before : List Nat) (i : Nat) (mail : Mail argv1 s order before i)
      (deamon : s.deamon = .release ∧ s.state = 2 ∨ ∃ k, s.deamon = .compare k ∧ s.state = 0 ∧
        k ≤ (argv1 i).val.length ∧ (argv1 i).val.take k <+: deamonExit)
      (logged : messages s.log = texts argv1 order)

/-- What holds between the accesses: a text fits, and behind the longest one there are zeros. -/
structure Inv (s : State) (order : List Nat) : Prop where
  sized : s.data.length = dataSize
  tail : ∀ k, textMax ≤ k → k < dataSize → s.data[k]? = some '\x00'
  nodup : order.Nodup
  finished : ∀ i, i ∈ order ↔ s.clients i = .finished
  counts : 0 ≤ s.thisRunning
  look : s.deamon.Fits
  stage : Stage argv1 s order

end Texts

section Lines

theorem message_length (text : CString) : (LogLine.message text).text.length = text.length + 6 := by
  have front : "shm: ".toList.length = 5 := by decide
  change ("shm: ".toList ++ text ++ ['\n']).length = _
  rw [List.length_append, List.length_append, front, List.length_singleton, Nat.add_comm 5]

theorem loopping_length {state : Nat} (low : state ≤ 2) (text : CString) :
    (LogLine.loopping state text).text.length = text.length + 34 := by
  have count : 23 + 1 + 9 + text.length + 1 = text.length + 34 := by omega
  have digit : (intText state).length = 1 := by
    obtain rfl | rfl | rfl : state = 0 ∨ state = 1 ∨ state = 2 := by omega
    · decide
    · decide
    · decide
  have front : "loopping : shm state = ".toList.length = 23 := by decide
  have middle : ", data = ".toList.length = 9 := by decide
  change ("loopping : shm state = ".toList ++ intText state ++ ", data = ".toList ++ text ++
    ['\n']).length = _
  rw [List.length_append, List.length_append, List.length_append, List.length_append, front, middle,
    digit, List.length_singleton, count]

/-- A character of a text in the memory, or its end. -/
theorem whole_getElem? {text front : CString} {data : List Char} (whole : Whole text data)
    (start : front <+: text) :
    (front = text ∧ data[front.length]? = some '\x00') ∨
      ∃ c, c ∈ text ∧ data[front.length]? = some c ∧ front ++ [c] <+: text := by
  obtain ⟨rest, rfl⟩ := whole
  obtain ⟨more, rfl⟩ := start
  cases more with
  | nil =>
    refine Or.inl ⟨(List.append_nil front).symm, ?_⟩
    rw [List.append_nil, List.append_assoc, List.getElem?_append_right (Nat.le_refl _),
      Nat.sub_self]
    rfl
  | cons c more =>
    refine Or.inr ⟨c, List.mem_append_right _ (List.mem_cons_self ..), ?_, more, ?_⟩
    · rw [List.append_assoc, List.append_assoc, List.getElem?_append_right (Nat.le_refl _),
        Nat.sub_self]
      rfl
    · rw [List.append_assoc, List.singleton_append]

end Lines

theorem started_inv (argv1 : Nat → Argument) : Inv argv1 started [] where
  sized := List.length_replicate
  tail := by
    intro k _ inside
    exact List.getElem?_replicate_of_lt inside
  nodup := List.nodup_nil
  finished := by
    intro i
    simp [started]
  counts := by decide
  look := trivial
  stage := .free rfl (Or.inl trivial) (fun _ inside => inside) rfl rfl

end Ct.Deamon
