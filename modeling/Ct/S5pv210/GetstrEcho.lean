import Ct.S5pv210.QueryWords

set_option autoImplicit false

namespace Ct.S5pv210.Main

open Ct.Lib

/-- The loop of `uart_getstr` as it counts: the body changes the `int i` and the header adds one. A
result has the buffer, the characters behind the line and those that are sent. -/
def getstrLoop (echo : Bool) :
    List Char → List Char → Int → Except Fault (List Char × List Char × CString)
  | [], _, _ => .error .outOfFuel
  | c :: input, buffer, i =>
    if 0 ≤ i ∧ i < buffer.length then
      if c = '\r' then
        .ok ((buffer.set i.toNat c).set i.toNat '\x00', input, if echo then ['\r', '\n'] else [])
      else if c = '\x7f' then
        if i = 0 then getstrLoop echo input (buffer.set i.toNat c) (i - 1 + 1)
        else do
          let erased ← if echo then printf "\x08 \x08".toList [] else pure []
          let (buffer, rest, sent) ← getstrLoop echo input (buffer.set i.toNat c) (i - 2 + 1)
          pure (buffer, rest, erased ++ sent)
      else do
        let (buffer, rest, sent) ← getstrLoop echo input (buffer.set i.toNat c) (i + 1)
        pure (buffer, rest, (if echo then [c] else []) ++ sent)
    else .error .outOfBounds

/-- `getstr(buffer)`: with echo. -/
def getstr (input buffer : List Char) : Except Fault (List Char × List Char × CString) :=
  getstrLoop true input buffer 0

/-- The index counts the characters of the line. -/
theorem getstrLoop_echo (input : List Char) :
    ∀ (buffer : List Char) (i : Nat), getstrLoop true input buffer i =
      (uartGetstr input buffer i).map fun (buffer, rest, sent) => (buffer, rest, sent.flatten) := by
  induction input with
  | nil => exact fun _ _ => rfl
  | cons c input ih =>
    intro buffer i
    rw [getstrLoop, uartGetstr]
    by_cases room : i < buffer.length
    · rw [if_pos ⟨Int.natCast_nonneg i, Int.ofNat_lt.mpr room⟩, if_pos room, Int.toNat_natCast]
      by_cases last : c = '\r'
      · rw [if_pos last, if_pos last]
        rfl
      rw [if_neg last, if_neg last]
      by_cases back : c = '\x7f'
      · rw [if_pos back, if_pos back]
        by_cases empty : i = 0
        · rw [if_pos (by omega), if_pos empty, empty]
          exact ih (buffer.set 0 c) 0
        · have before : (i : Int) - 2 + 1 = ((i - 1 : Nat) : Int) := by omega
          have erased : printf "\x08 \x08".toList [] =
              .ok ['\x08', ' ', '\x08'] := rfl
          rw [if_neg (by omega), if_neg empty, if_pos rfl, erased, before, ih]
          cases uartGetstr input (buffer.set i c) (i - 1) with
          | error fault => rfl
          | ok result => rfl
      · have next : (i : Int) + 1 = ((i + 1 : Nat) : Int) := rfl
        rw [if_neg back, if_neg back, next, ih]
        cases uartGetstr input (buffer.set i c) (i + 1) with
        | error fault => rfl
        | ok result => rfl
    · rw [if_neg room, if_neg (by omega)]
      rfl

/-- What a terminal shows: the line of the cursor is behind the others. -/
structure Screen where
  lines : List CString
  line : CString

/-- A terminal that erases the last character for "\b \b" and starts a line for "\r\n". -/
def display : Screen → CString → Screen
  | screen, [] => screen
  | screen, '\x08' :: ' ' :: '\x08' :: sent =>
    display { screen with line := screen.line.dropLast } sent
  | screen, '\r' :: '\n' :: sent => display ⟨screen.lines ++ [screen.line], []⟩ sent
  | screen, c :: sent => display { screen with line := screen.line ++ [c] } sent

/-- A printable character or the key that corrects. -/
def IsKey (c : Char) : Prop := (' ' ≤ c ∧ c ≤ '~') ∨ c = '\x7f'

instance (c : Char) : Decidable (IsKey c) := inferInstanceAs (Decidable (_ ∨ _))

section Keys

variable {c : Char}

theorem IsKey.ne (key : IsKey c) {d : Char} (other : ¬ IsKey d) : c ≠ d := by
  rintro rfl
  exact other key

theorem display_char (screen : Screen) (back : c ≠ '\x08') (start : c ≠ '\r') (sent : CString) :
    display screen (c :: sent) = display { screen with line := screen.line ++ [c] } sent := by
  rw [display]
  · rintro sent rfl
    exact absurd rfl back
  · rintro sent rfl
    exact absurd rfl start

end Keys

/-- One key changes the line on the screen as it changes the line. -/
theorem display_echoOf {c : Char} (key : IsKey c) (lines : List CString)
    (front line sent : CString) :
    display ⟨lines, front ++ line⟩ ((echoOf line c).flatten ++ sent) =
      display ⟨lines, front ++ edit line c⟩ sent := by
  rw [echoOf, edit]
  by_cases back : c = '\x7f'
  · rw [if_pos back, if_pos back]
    by_cases empty : line.length = 0
    · rw [if_pos empty, List.length_eq_zero_iff.mp empty]
      rfl
    · rw [if_neg empty]
      change display ⟨lines, (front ++ line).dropLast⟩ sent = _
      rw [List.dropLast_append_of_ne_nil]
      exact fun none => empty (List.length_eq_zero_iff.mpr none)
  · rw [if_neg back, if_neg back]
    change display ⟨lines, front ++ line⟩ (c :: sent) = _
    rw [display_char _ (key.ne (by decide)) (key.ne (by decide)), List.append_assoc]

/-- The screen has the line that the keys leave, and a new line. -/
theorem display_echoed (typed : List Char) (keys : ∀ c ∈ typed, IsKey c) (lines : List CString)
    (front : CString) :
    ∀ line : CString, display ⟨lines, front ++ line⟩ (echoed line typed).flatten =
      ⟨lines ++ [front ++ typed.foldl edit line], []⟩ := by
  induction typed with
  | nil => exact fun _ => rfl
  | cons c typed ih =>
    intro line
    obtain ⟨key, later⟩ := List.forall_mem_cons.mp keys
    rw [echoed, List.flatten_append, display_echoOf key, ih later, List.foldl_cons]

theorem edit_subset (line : List Char) (c : Char) : edit line c ⊆ c :: line := by
  intro d member
  rw [edit] at member
  split at member
  · exact List.mem_cons_of_mem _ (List.dropLast_subset line member)
  · rw [List.mem_append, List.mem_singleton] at member
    exact List.mem_cons.mpr member.symm

theorem foldl_edit_subset (typed : List Char) :
    ∀ line : List Char, typed.foldl edit line ⊆ line ++ typed := by
  induction typed with
  | nil => exact fun line => (List.append_nil line).symm ▸ List.Subset.refl line
  | cons c typed ih =>
    intro line d member
    have inside := ih (edit line c) member
    rw [List.mem_append] at inside ⊢
    rcases inside with before | later
    · rcases List.mem_cons.mp (edit_subset line c before) with rfl | old
      · exact Or.inr List.mem_cons_self
      · exact Or.inl old
    · exact Or.inr (List.mem_cons_of_mem _ later)

/-- Printable characters and corrections leave their line in the buffer and on the screen, where it
stands behind what was in the line of the cursor. -/
theorem getstr_edits {typed : List Char} (keys : ∀ c ∈ typed, IsKey c) (more : List Char)
    {buffer : List Char}
    (fits : ∀ before, before <+: typed → (edited before).length < buffer.length)
    (screen : Screen) :
    ∃ after sent, getstr (typed ++ '\r' :: more) buffer = .ok (after, more, sent) ∧
      after.length = buffer.length ∧ stringAt after 0 = .ok (edited typed) ∧
      display screen sent = ⟨screen.lines ++ [screen.line ++ edited typed], []⟩ := by
  have once : '\r' ∉ typed := fun member => absurd (keys _ member) (by decide)
  have plain : '\x00' ∉ edited typed := fun member =>
    absurd (keys _ (foldl_edit_subset typed [] member)) (by decide)
  obtain ⟨after, ran, ⟨tail, kept⟩, same⟩ := uartGetstr_ends typed more once List.nil_prefix fits
  have echo := getstrLoop_echo (typed ++ '\r' :: more) buffer 0
  have shows := display_echoed typed keys screen.lines screen.line []
  rw [List.append_nil] at shows
  rw [List.length_nil] at ran
  rw [ran] at echo
  refine ⟨after, (echoed [] typed).flatten, echo, same, ?_, shows⟩
  rw [List.append_assoc, List.singleton_append] at kept
  rw [← kept]
  exact stringAt_word [] tail plain

/-- A correction of the empty line, and one behind a character. -/
theorem getstr_edits_help : ∃ after sent,
    getstr ("\x7fhx\x7felp".toList ++ '\r' :: []) (List.replicate 16 'x') = .ok (after, [], sent) ∧
      after.length = 16 ∧ stringAt after 0 = .ok "help".toList ∧
      display ⟨[], "> ".toList⟩ sent = ⟨["> help".toList], []⟩ := by
  have all : ("\x7fhx\x7felp".toList.all fun c => decide (IsKey c)) = true := by decide
  exact getstr_edits (fun c member => of_decide_eq_true (List.all_eq_true.mp all c member)) []
    (fitsFrom_of_length (by decide)) ⟨[], "> ".toList⟩

end Ct.S5pv210.Main
