import Ct.Dealfile.DoBiquad
import Ct.Lib.Memory
import Ct.Lib.Words

set_option autoImplicit false

namespace Ct.Dealfile

open Ct.Lib

section Cells

/-- The buffer starts with this line and a terminator. -/
def Holds (line : CString) (buffer : Buffer) : Prop := line.map some ++ [some '\x00'] <+: buffer

theorem storeChar_at (front : Buffer) (old : Option Char) (c : Char) (rest : Buffer) :
    storeChar (front ++ old :: rest) front.length c = .ok (front ++ some c :: rest) := by
  have inside : (0 : Int) ≤ front.length ∧
      (front.length : Int) < (front ++ old :: rest).length := by
    rw [List.length_append, List.length_cons]
    omega
  rw [storeChar, if_pos inside, Int.toNat_natCast, set_front]

theorem loadChar_at (front : Buffer) (c : Char) (rest : Buffer) :
    loadChar (front ++ some c :: rest) front.length = .ok c := by
  rw [loadChar, if_pos (Int.natCast_nonneg _), Int.toNat_natCast, getElem?_front]

theorem copyLine_text (text tmp : List Char) :
    ∀ (front : Buffer) {old : Buffer} (rest : Buffer), '\n' ∉ text → old.length = text.length →
      copyLine (text ++ tmp) front.length (front ++ (old ++ rest)) =
        copyLine tmp (front.length + text.length) (front ++ (text.map some ++ rest)) := by
  induction text with
  | nil =>
    intro front old rest _ same
    rw [List.eq_nil_of_length_eq_zero same]
    rfl
  | cons c text ih =>
    intro front old rest plain same
    obtain ⟨other, plain⟩ := List.ne_and_not_mem_of_not_mem_cons plain
    cases old with
    | nil => cases same
    | cons o old =>
      have later := ih (front ++ [some c]) rest plain (Nat.succ.inj same)
      rw [List.length_append, List.length_singleton, List.append_assoc, List.append_assoc] at later
      rw [List.cons_append, List.cons_append, copyLine, storeChar_at]
      show (if c = '\n' then _ else copyLine (text ++ tmp) (front.length + 1) _) = _
      rw [if_neg (Ne.symm other)]
      show copyLine (text ++ tmp) (front.length + 1) (front ++ ([some c] ++ (old ++ rest))) = _
      rw [later, List.length_cons, Nat.add_assoc, Nat.add_comm 1]
      rfl

theorem copyLine_feed (front : Buffer) (old : Option Char) (rest : Buffer) (more : List Char) :
    copyLine ('\n' :: more) front.length (front ++ old :: rest) =
      .ok (front.length, front ++ some '\x00' :: rest) := by
  simp only [copyLine, storeChar_at, bind, Except.bind, if_true]

/-- The loop copies a chunk without a line feed. -/
theorem copyLine_chunk {text : List Char} (plain : '\n' ∉ text) {buffer : Buffer}
    (fits : text.length ≤ buffer.length) :
    ∃ rest, copyLine text 0 buffer = .ok (text.length, text.map some ++ rest) ∧
      text.length + rest.length = buffer.length := by
  obtain ⟨old, rest, rfl, same⟩ : ∃ old rest, buffer = old ++ rest ∧ old.length = text.length :=
    ⟨buffer.take text.length, buffer.drop text.length, (List.take_append_drop _ _).symm,
      List.length_take_of_le fits⟩
  have copied := copyLine_text text [] [] rest plain same
  rw [List.append_nil, List.length_nil, Nat.zero_add, List.nil_append, List.nil_append] at copied
  refine ⟨rest, copied, ?_⟩
  rw [List.length_append, same]

/-- The loop copies up to the line feed and puts a terminator in its place. -/
theorem copyLine_line {text : List Char} (plain : '\n' ∉ text) {buffer : Buffer}
    (fits : text.length < buffer.length) (more : List Char) :
    ∃ rest, copyLine (text ++ '\n' :: more) 0 buffer =
        .ok (text.length, text.map some ++ some '\x00' :: rest) ∧
      text.length + 1 + rest.length = buffer.length := by
  obtain ⟨old, o, rest, rfl, same⟩ :
      ∃ old o rest, buffer = old ++ o :: rest ∧ old.length = text.length :=
    ⟨buffer.take text.length, buffer[text.length], buffer.drop (text.length + 1),
      by rw [← List.drop_eq_getElem_cons fits, List.take_append_drop],
      List.length_take_of_le (Nat.le_of_lt fits)⟩
  have copied := copyLine_text text ('\n' :: more) [] (o :: rest) plain same
  have ended := copyLine_feed (text.map some) o rest more
  rw [List.length_map] at ended
  rw [List.length_nil, Nat.zero_add, List.nil_append, List.nil_append, ended] at copied
  refine ⟨rest, copied, ?_⟩
  rw [List.length_append, List.length_cons, same, Nat.add_assoc, Nat.add_comm 1]

/-- A line without the carriage return at its end. -/
def chopCr (text : List Char) : CString := if text.getLast? = some '\r' then text.dropLast else text

/-- What a call of `readline` returns and leaves, when it yields `line` and goes on to `next`. -/
def Yields (line : CString) (next : Nat) (result : Except Fault (Int × Buffer × Int)) : Prop :=
  if next < 2 ^ 31 then
    ∃ buffer, result = .ok (line.length, buffer, next) ∧ Holds line buffer ∧
      buffer.length = bufferSize
  else result = .error .conversion

variable {content : List Char} {buffer : Buffer} {position : Nat}

theorem readline_end (start : position < 2 ^ 31) (ended : content.length ≤ position) :
    readline content buffer position = .ok (-1, buffer, position) := by
  have same : toSize position = position := toSize_of_range (by omega) (by omega)
  rw [readline, same, if_pos ended]

theorem readline_reads (start : position < 2 ^ 31) {rest : List Char}
    (here : content.drop position = rest) (some : rest ≠ []) {result : Except Fault (Nat × Buffer)}
    (copied : copyLine (rest.take 1024) 0 buffer = result) :
    readline content buffer position = (do
      let (i, buffer) ← result
      let last ← loadChar buffer ((i : Int) - 1)
      let split : Int := if last = '\r' then 2 else 1
      let split := if i = (rest.take 1024).length then 0 else split
      let (i, buffer) ←
        if i = (rest.take 1024).length ∨ last = '\r' then do
          let buffer ← storeChar buffer ((i : Int) - 1) '\x00'
          pure ((i : Int) - 1, buffer)
        else pure ((i : Int), buffer)
      let next := (position : Int) + (i + split)
      if next < 2 ^ 31 then .ok (i, buffer, next) else .error .conversion) := by
  have same : toSize position = position := toSize_of_range (by omega) (by omega)
  have more : ¬content.length ≤ position := by
    intro ended
    rw [List.drop_eq_nil_of_le ended] at here
    exact some here.symm
  rw [readline, same, if_neg more, Int.toNat_natCast, here]
  simp only [copied]

/-- A line feed in front: the byte before the buffer is read. -/
theorem readline_blank (start : position < 2 ^ 31) {more : List Char}
    (here : content.drop position = '\n' :: more) (size : buffer.length = bufferSize) :
    readline content buffer position = .error .outOfBounds := by
  have fits : ([] : List Char).length < buffer.length := by
    rw [size]
    decide
  obtain ⟨rest, copied, _⟩ := copyLine_line List.not_mem_nil fits (more.take 1023)
  rw [readline_reads start here (List.cons_ne_nil _ _) copied]
  rfl

/-- At the end of the chunk and behind a carriage return, the last character is taken back. -/
theorem readline_cut (start : position < 2 ^ 31) {rest : List Char}
    (here : content.drop position = rest) (some' : rest ≠ []) {front behind : Buffer} {last : Char}
    (copied : copyLine (rest.take 1024) 0 buffer =
      .ok (front.length + 1, front ++ some last :: behind))
    (cut : front.length + 1 = (rest.take 1024).length ∨ last = '\r') :
    readline content buffer position =
      let next := position +
        (front.length + if front.length + 1 = (rest.take 1024).length then 0 else 2)
      if next < 2 ^ 31 then .ok (front.length, front ++ some '\x00' :: behind, next)
      else .error .conversion := by
  have before : ((front.length + 1 : Nat) : Int) - 1 = front.length := by omega
  rw [readline_reads start here some' copied]
  simp only [bind, Except.bind, before, loadChar_at, if_pos cut, storeChar_at, pure, Except.pure]
  by_cases whole : front.length + 1 = (rest.take 1024).length
  · rw [if_pos whole, if_pos whole]
    exact if_congr (by omega) rfl rfl
  · rw [if_neg whole, if_neg whole, if_pos (cut.resolve_left whole)]
    exact if_congr (by omega) rfl rfl

theorem readline_keep (start : position < 2 ^ 31) {rest : List Char}
    (here : content.drop position = rest) (some' : rest ≠ []) {front behind : Buffer} {last : Char}
    (copied : copyLine (rest.take 1024) 0 buffer =
      .ok (front.length + 1, front ++ some last :: behind))
    (more : front.length + 1 ≠ (rest.take 1024).length) (plain : last ≠ '\r') :
    readline content buffer position =
      let next := position + (front.length + 1 + 1)
      if next < 2 ^ 31 then .ok ((front.length + 1 : Nat), front ++ some last :: behind, next)
      else .error .conversion := by
  have before : ((front.length + 1 : Nat) : Int) - 1 = front.length := by omega
  rw [readline_reads start here some' copied]
  simp only [bind, Except.bind, before, loadChar_at, if_neg (not_or.mpr ⟨more, plain⟩), pure,
    Except.pure]
  rw [if_neg more, if_neg plain]
  exact if_congr (by omega) rfl rfl

theorem yields_of_eq {line : CString} {next : Nat} {result : Except Fault (Int × Buffer × Int)}
    {after : Buffer} (same : result = if next < 2 ^ 31 then .ok (line.length, after, next)
      else .error .conversion) (holds : Holds line after) (size : after.length = bufferSize) :
    Yields line next result := by
  unfold Yields
  by_cases small : next < 2 ^ 31
  · rw [if_pos small] at same ⊢
    exact ⟨after, same, holds, size⟩
  · rw [if_neg small] at same ⊢
    exact same

theorem chopCr_snoc (front : List Char) (last : Char) :
    chopCr (front ++ [last]) = if last = '\r' then front else front ++ [last] := by
  unfold chopCr
  rw [List.getLast?_concat, List.dropLast_concat]
  exact if_congr (by simp) rfl rfl

/-- A line and its terminator are read in one call. -/
theorem readline_line (start : position < 2 ^ 31) {front more : List Char} {last : Char}
    (plain : '\n' ∉ front ++ [last]) (short : front.length + 1 < 1024)
    (here : content.drop position = front ++ [last] ++ '\n' :: more)
    (size : buffer.length = bufferSize) :
    Yields (chopCr (front ++ [last])) (position + (front.length + 2))
      (readline content buffer position) := by
  have length : (front ++ [last]).length = front.length + 1 := by
    rw [List.length_append, List.length_singleton]
  have fits : (front ++ [last]).length < buffer.length := by
    rw [size, length]
    exact Nat.lt_trans short (by decide)
  have chunk : (front ++ [last] ++ '\n' :: more).take 1024 =
      front ++ [last] ++ '\n' :: more.take (1022 - front.length) := by
    have left : 1024 - (front ++ [last]).length = 1022 - front.length + 1 := by omega
    rw [List.take_append, List.take_of_length_le (by omega), left, List.take_succ_cons]
  obtain ⟨behind, copied, room⟩ := copyLine_line plain fits (more.take (1022 - front.length))
  have copied' : copyLine ((front ++ [last] ++ '\n' :: more).take 1024) 0 buffer =
      .ok ((front.map some).length + 1,
        front.map some ++ some last :: some '\x00' :: behind) := by
    rw [chunk, copied, length, List.length_map, List.map_append, List.append_assoc]
    rfl
  have longer : (front.map some).length + 1 ≠
      ((front ++ [last] ++ '\n' :: more).take 1024).length := by
    rw [chunk, List.length_map, List.length_append, length, List.length_cons]
    omega
  have rest : front ++ [last] ++ '\n' :: more ≠ [] :=
    List.append_ne_nil_of_right_ne_nil _ (List.cons_ne_nil _ _)
  have whole : front.length + 1 + (1 + behind.length) = bufferSize := by omega
  rw [chopCr_snoc]
  by_cases cr : last = '\r'
  · rw [if_pos cr]
    have read := readline_cut start here rest copied' (.inr cr)
    rw [if_neg longer, List.length_map] at read
    apply yields_of_eq read
    · exact ⟨some '\x00' :: behind, by rw [List.append_assoc]; rfl⟩
    · rw [List.length_append, List.length_map, List.length_cons, List.length_cons]
      omega
  · rw [if_neg cr]
    have read := readline_keep start here rest copied' longer cr
    rw [List.length_map, ← length] at read
    have next : position + (front.length + 2) = position + ((front ++ [last]).length + 1) := by
      rw [length]
    rw [next]
    apply yields_of_eq read
    · exact ⟨behind, by rw [List.map_append, List.append_assoc, List.append_assoc]; rfl⟩
    · rw [List.length_append, List.length_map, List.length_cons, List.length_cons]
      omega

/-- A chunk without a line feed: its last character is left for the next call. -/
theorem readline_chunk (start : position < 2 ^ 31) {front more : List Char} {last : Char}
    (plain : '\n' ∉ front ++ [last])
    (whole : (front ++ [last] ++ more).take 1024 = front ++ [last])
    (here : content.drop position = front ++ [last] ++ more) (size : buffer.length = bufferSize) :
    Yields front (position + front.length) (readline content buffer position) := by
  have length : (front ++ [last]).length = front.length + 1 := by
    rw [List.length_append, List.length_singleton]
  have short : front.length + 1 ≤ 1024 := by
    have few := List.length_take_le 1024 (front ++ [last] ++ more)
    rw [whole, length] at few
    exact few
  have fits : (front ++ [last]).length ≤ buffer.length := by
    rw [size, length]
    exact Nat.le_trans short (by decide)
  obtain ⟨behind, copied, room⟩ := copyLine_chunk plain fits
  have copied' : copyLine ((front ++ [last] ++ more).take 1024) 0 buffer =
      .ok ((front.map some).length + 1, front.map some ++ some last :: behind) := by
    rw [whole, copied, length, List.length_map, List.map_append, List.append_assoc]
    rfl
  have ends : (front.map some).length + 1 = ((front ++ [last] ++ more).take 1024).length := by
    rw [whole, length, List.length_map]
  have rest : front ++ [last] ++ more ≠ [] := by
    rw [List.append_assoc]
    exact List.append_ne_nil_of_right_ne_nil _ (List.cons_ne_nil _ _)
  have read := readline_cut start here rest copied' (.inl ends)
  rw [if_pos ends, List.length_map] at read
  apply yields_of_eq read
  · exact ⟨behind, by rw [List.append_assoc]; rfl⟩
  · rw [List.length_append, List.length_map, List.length_cons]
    omega

end Cells

end Ct.Dealfile
