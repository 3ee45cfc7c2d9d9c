import Ct.Dealfile.Readline
import Mathlib.Data.List.Basic
import Mathlib.Data.List.Forall2

set_option autoImplicit false

namespace Ct.Dealfile

open Ct.Lib

section Lines

/-- The lines of a file without their line feeds, or carriage returns and line feeds. -/
def linesOf : List Char → List CString
  | [] => []
  | c :: text =>
    if c = '\n' then [] :: linesOf text
    -- a carriage return in front of a line feed is part of the terminator
    else if c = '\r' ∧ text.head? = some '\n' then linesOf text
    else
      match linesOf text with
      | [] => [[c]]
      | line :: lines => (c :: line) :: lines

theorem linesOf_word {text : List Char} (plain : '\n' ∉ text) (some : text ≠ []) :
    linesOf text = [text] := by
  induction text with
  | nil => exact absurd rfl some
  | cons c text ih =>
    obtain ⟨other, plain⟩ := List.ne_and_not_mem_of_not_mem_cons plain
    have inside : ¬(c = '\r' ∧ text.head? = Option.some '\n') := by
      rintro ⟨_, first⟩
      exact plain (List.mem_of_head? first)
    rw [linesOf, if_neg (Ne.symm other), if_neg inside]
    by_cases none : text = []
    · rw [none]
      rfl
    · rw [ih plain none]

/-- A line feed ends a line. -/
theorem linesOf_line {text : List Char} (plain : '\n' ∉ text) (more : List Char) :
    linesOf (text ++ '\n' :: more) = chopCr text :: linesOf more := by
  induction text with
  | nil => rfl
  | cons c text ih =>
    obtain ⟨other, plain⟩ := List.ne_and_not_mem_of_not_mem_cons plain
    rw [List.cons_append, linesOf, if_neg (Ne.symm other), ih plain]
    cases text with
    | nil =>
      by_cases cr : c = '\r'
      · rw [if_pos ⟨cr, rfl⟩, cr]
        rfl
      · rw [if_neg fun both => cr both.1]
        have kept : chopCr [c] = [c] := (chopCr_snoc [] c).trans (if_neg cr)
        rw [kept]
        rfl
    | cons d text =>
      have inside : ¬(c = '\r' ∧ (d :: text ++ '\n' :: more).head? = some '\n') := by
        rintro ⟨_, first⟩
        exact (List.ne_of_not_mem_cons plain) (Option.some.inj first).symm
      have kept : chopCr (c :: d :: text) = c :: chopCr (d :: text) := by
        unfold chopCr
        rw [List.getLast?_cons_cons, List.dropLast_cons_cons]
        split_ifs <;> rfl
      rw [if_neg inside, kept]

/-- Text in front adds at most a line. -/
theorem linesOf_front {front : List Char} (plain : '\n' ∉ front) (rest : List Char) :
    (linesOf (front ++ rest)).length ≤ (linesOf rest).length + 1 := by
  induction front with
  | nil => exact Nat.le_succ _
  | cons c front ih =>
    obtain ⟨other, plain⟩ := List.ne_and_not_mem_of_not_mem_cons plain
    have later := ih plain
    rw [List.cons_append, linesOf, if_neg (Ne.symm other)]
    split_ifs
    · exact later
    · cases lines : linesOf (front ++ rest) with
      | nil => exact Nat.succ_le_succ (Nat.zero_le _)
      | cons line lines' =>
        rw [lines] at later
        exact later

/-- What a call of `readline` finds. -/
theorem chunk_cases {rest : List Char} (some : rest ≠ []) :
    (∃ more, rest = '\n' :: more) ∨
      (∃ front last more, rest = front ++ [last] ++ '\n' :: more ∧ '\n' ∉ front ++ [last] ∧
        front.length + 1 < 1024) ∨
      ∃ front last more, rest = front ++ [last] ++ more ∧ '\n' ∉ front ++ [last] ∧
        (front ++ [last] ++ more).take 1024 = front ++ [last] := by
  have parts := List.take_append_drop 1024 rest
  have few := List.length_take_le 1024 rest
  by_cases member : '\n' ∈ rest.take 1024
  · obtain ⟨text, tail, chunk, plain⟩ := List.eq_append_cons_of_mem member
    rw [chunk, List.length_append, List.length_cons] at few
    rw [chunk, List.append_assoc, List.cons_append] at parts
    rcases List.eq_nil_or_concat' text with rfl | ⟨front, last, rfl⟩
    · exact .inl ⟨_, parts.symm⟩
    · rw [List.length_append, List.length_singleton] at few
      exact .inr (.inl ⟨front, last, _, parts.symm, plain, by omega⟩)
  · have occupied : rest.take 1024 ≠ [] := by
      intro none
      rcases List.take_eq_nil_iff.mp none with zero | none
      · exact absurd zero (by decide)
      · exact some none
    rcases List.eq_nil_or_concat' (rest.take 1024) with none | ⟨front, last, chunk⟩
    · exact absurd none occupied
    · rw [chunk] at parts member
      refine .inr (.inr ⟨front, last, rest.drop 1024, parts.symm, member, ?_⟩)
      rw [parts, chunk]

end Lines

section Loops

/-- The buffers that the loop of `load_eqdata` hands to its body. -/
def turns (content : List Char) : Nat → Buffer → Int → Except Fault (List Buffer)
  | 0, _, _ => .error .outOfFuel
  | fuel + 1, buffer, position => do
    let (ret, buffer, position) ← readline content buffer position
    if 0 < ret then
      let later ← turns content fuel buffer position
      .ok (buffer :: later)
    else .ok [buffer]

variable {content : List Char} {buffer after : Buffer} {position next : Int} {fuel : Nat}

/-- The loop is its body over the buffers handed to it. -/
theorem loadLoop_iff {σ : Type} (body : Buffer → σ → Except Fault σ) (final : σ) :
    ∀ (fuel : Nat) (buffer : Buffer) (position : Int) (state : σ),
      loadLoop body content fuel buffer position state = .ok final ↔
        ∃ seen, turns content fuel buffer position = .ok seen ∧
          seen.foldlM (fun state buffer => body buffer state) state = .ok final := by
  intro fuel
  induction fuel with
  | zero =>
    intro buffer position state
    exact iff_of_false (fun ended => by cases ended) fun ⟨_, ended, _⟩ => by cases ended
  | succ fuel ih =>
    intro buffer position state
    rw [loadLoop, turns]
    rcases readline content buffer position with fault | ⟨ret, after, next⟩
    · exact iff_of_false (fun ended => by cases ended) fun ⟨_, ended, _⟩ => by cases ended
    · show (body after state >>= fun state =>
          if 0 < ret then loadLoop body content fuel after next state else .ok state) = .ok final ↔
        ∃ seen, (if 0 < ret then turns content fuel after next >>= fun later => .ok (after :: later)
          else .ok [after]) = .ok seen ∧ _
      by_cases more : 0 < ret
      · simp only [if_pos more]
        constructor
        · intro ran
          obtain ⟨between, done, ran⟩ := bind_ends ran
          obtain ⟨later, handed, folded⟩ := (ih after next between).mp ran
          refine ⟨after :: later, by rw [handed]; rfl, ?_⟩
          rw [List.foldlM_cons, done]
          exact folded
        · rintro ⟨seen, handed, folded⟩
          obtain ⟨later, rest, same⟩ := bind_ends handed
          cases same
          obtain ⟨between, done, folded⟩ := bind_ends folded
          have done : body after state = .ok between := done
          rw [done]
          exact (ih after next between).mpr ⟨later, rest, folded⟩
      · simp only [if_neg more]
        constructor
        · intro ran
          obtain ⟨between, done, ended⟩ := bind_ends ran
          cases ended
          refine ⟨[after], rfl, ?_⟩
          rw [List.foldlM_cons, done]
          rfl
        · rintro ⟨seen, handed, folded⟩
          cases handed
          obtain ⟨between, done, ended⟩ := bind_ends folded
          have done : body after state = .ok between := done
          cases ended
          rw [done]
          rfl

theorem readLines_step {n : Nat} (read : readline content buffer position = .ok (n, after, next)) :
    readLines content (fuel + 1) buffer position =
      (readLines content fuel after next).map (((n : Int), after) :: ·) := by
  have some : (n : Int) ≠ -1 := by omega
  rw [readLines, read]
  simp only [bind, Except.bind, if_neg some]
  cases readLines content fuel after next with
  | error fault => rfl
  | ok later => rfl

theorem readLines_end (read : readline content buffer position = .ok (-1, after, next)) :
    readLines content (fuel + 1) buffer position = .ok [] := by
  rw [readLines, read]
  rfl

theorem readLines_fault {fault : Fault} (read : readline content buffer position = .error fault) :
    readLines content (fuel + 1) buffer position = .error fault := by
  rw [readLines, read]
  rfl

theorem turns_step {n : Nat} (read : readline content buffer position = .ok (n, after, next)) :
    turns content (fuel + 1) buffer position =
      if n = 0 then .ok [after] else (turns content fuel after next).map (after :: ·) := by
  rw [turns, read]
  by_cases none : n = 0
  · have done : ¬(0 : Int) < n := by omega
    simp only [bind, Except.bind, if_neg done, if_pos none]
  · have more : (0 : Int) < n := by omega
    simp only [bind, Except.bind, if_pos more, if_neg none]
    cases turns content fuel after next with
    | error fault => rfl
    | ok later => rfl

theorem turns_end (read : readline content buffer position = .ok (-1, after, next)) :
    turns content (fuel + 1) buffer position = .ok [after] := by
  rw [turns, read]
  rfl

end Loops

section Law

/-- What a call of `readline` returns and leaves is this line. -/
def IsLine (line : CString) (turn : Int × Buffer) : Prop :=
  turn.1 = line.length ∧ Holds line turn.2

/-- The calls of `readline` end and yield the lines. -/
def ReadsAll (content : List Char) (buffer : Vector (Option Char) bufferSize) : Prop :=
  ∃ fuel turns, readLines content fuel buffer.toList 0 = .ok turns ∧
    List.Forall₂ IsLine (linesOf content) turns

/-- The loop of `load_eqdata` ends, and the first buffers that it hands to its body hold the
lines. -/
def LoadsAll (content : List Char) : Prop :=
  ∃ fuel front back,
    loadLoop (fun buffer seen => .ok (seen ++ [buffer])) content fuel uninitialised 0 [] =
      .ok (front ++ back) ∧ List.Forall₂ Holds (linesOf content) front

/-- The text in front of each line feed. -/
def texts (content : List Char) : List (List Char) := runsOf (· == '\n') content

/-- The files that are read line by line: they end with a line feed, and no line feed is the first
character of its line or behind the first 1024. -/
structure Tidy (content : List Char) : Prop where
  ends : content = [] ∨ content.getLast? = some '\n'
  fit : ∀ text ∈ texts content, text ≠ [] ∧ text.length < 1024

theorem texts_line {text : List Char} (plain : '\n' ∉ text) (more : List Char) :
    texts (text ++ '\n' :: more) = text :: texts more := by
  apply runsOf_append
  · intro c member
    exact beq_eq_false_iff_ne.mpr fun same => plain (same ▸ member)
  · rfl

theorem tidy_line_iff {text : List Char} (plain : '\n' ∉ text) (more : List Char) :
    Tidy (text ++ '\n' :: more) ↔ (text ≠ [] ∧ text.length < 1024) ∧ Tidy more := by
  have ends : (text ++ '\n' :: more = [] ∨ (text ++ '\n' :: more).getLast? = some '\n') ↔
      more = [] ∨ more.getLast? = some '\n' := by
    cases more with
    | nil => simp
    | cons c more => simp [List.getLast?_append]
  constructor
  · rintro ⟨last, fit⟩
    rw [texts_line plain] at fit
    refine ⟨fit text List.mem_cons_self, ends.mp last, fun t member => ?_⟩
    exact fit t (List.mem_cons_of_mem _ member)
  · rintro ⟨here, last, fit⟩
    refine ⟨ends.mpr last, ?_⟩
    rw [texts_line plain]
    intro t member
    rcases List.mem_cons.mp member with rfl | later
    · exact here
    · exact fit t later

/-- A file is empty, or a last line without a line feed, or a line and the rest. -/
theorem lines_induction {motive : List Char → Prop} (empty : motive [])
    (last : ∀ text, '\n' ∉ text → text ≠ [] → motive text)
    (line : ∀ text more, '\n' ∉ text → motive more → motive (text ++ '\n' :: more))
    (content : List Char) : motive content := by
  have outside : ∀ text : List Char, (∀ c ∈ text, (c == '\n') = false) → '\n' ∉ text :=
    fun text plain member => absurd (plain '\n' member) (by decide)
  induction content using runs_induction (fun c => c == '\n') with
  | empty => exact empty
  | last text plain some => exact last text (outside text plain) some
  | more text c more plain feed ih =>
    cases beq_iff_eq.mp feed
    exact line text more (outside text plain) ih

variable {content rest : List Char} {position : Nat}

theorem line_length (front more : List Char) (last : Char) :
    (front ++ [last] ++ '\n' :: more).length = front.length + 2 + more.length := by
  simp only [List.length_append, List.length_cons, List.length_nil]
  omega

theorem drop_line {front more : List Char} {last : Char}
    (here : content.drop position = front ++ [last] ++ '\n' :: more) :
    content.drop (position + (front.length + 2)) = more := by
  have whole : front ++ [last] ++ '\n' :: more = (front ++ [last, '\n']) ++ more := by simp
  have length : front.length + 2 = (front ++ [last, '\n']).length := by simp
  rw [← List.drop_drop, here, whole, length, List.drop_left]

theorem drop_chunk {front more : List Char} {last : Char}
    (here : content.drop position = front ++ [last] ++ more) :
    content.drop (position + front.length) = last :: more := by
  rw [← List.drop_drop, here, List.append_assoc, List.drop_left]
  rfl

/-- A tidy file is gone through line by line: what holds behind the last line and is carried from
what is behind a line to the line in front of it holds at the start. -/
theorem tidy_induction {motive : List CString → Nat → Buffer → Prop}
    (ended : ∀ (position : Nat) (buffer : Buffer),
      readline content buffer position = .ok (-1, buffer, position) → motive [] position buffer)
    (line : ∀ (position next : Nat) (buffer after : Buffer) (line : CString)
      (lines : List CString), readline content buffer position = .ok (line.length, after, next) →
      Holds line after → motive lines next after → motive (line :: lines) position buffer)
    (rest : List Char) :
    Tidy rest → ∀ (position : Nat) (buffer : Buffer), content.drop position = rest →
      position + rest.length < 2 ^ 31 → buffer.length = bufferSize →
      motive (linesOf rest) position buffer := by
  induction rest using lines_induction with
  | empty =>
    intro _ position buffer here small _
    exact ended position buffer (readline_end small (List.drop_eq_nil_iff.mp here))
  | last text plain some =>
    intro tidy
    rcases tidy.ends with none | feed
    · exact absurd none some
    · exact absurd (List.mem_of_getLast? feed) plain
  | line text more plain ih =>
    intro tidy position buffer here small size
    obtain ⟨⟨some, short⟩, later⟩ := (tidy_line_iff plain more).mp tidy
    rcases List.eq_nil_or_concat' text with none | ⟨front, last, rfl⟩
    · exact absurd none some
    · rw [line_length] at small
      rw [List.length_append, List.length_singleton] at short
      have yields := readline_line (by omega) plain short here size
      rw [Yields, if_pos (by omega)] at yields
      obtain ⟨after, read, holds, size'⟩ := yields
      rw [linesOf_line plain]
      apply line position _ buffer after _ _ read holds
      exact ih later _ after (drop_line here) (by omega) size'

/-- Tidy lines are read one by one. -/
theorem reads_of_tidy (rest : List Char) :
    Tidy rest → ∀ (position : Nat) (buffer : Buffer), content.drop position = rest →
      position + rest.length < 2 ^ 31 → buffer.length = bufferSize →
      ∃ fuel turns, readLines content fuel buffer position = .ok turns ∧
        List.Forall₂ IsLine (linesOf rest) turns := by
  apply tidy_induction (motive := fun lines position buffer => ∃ fuel turns,
    readLines content fuel buffer (position : Nat) = .ok turns ∧ List.Forall₂ IsLine lines turns)
  · intro position buffer read
    exact ⟨1, [], readLines_end read, List.Forall₂.nil⟩
  · rintro position next buffer after line lines read holds ⟨fuel, turns, ran, same⟩
    refine ⟨fuel + 1, (line.length, after) :: turns, ?_, List.Forall₂.cons ⟨rfl, holds⟩ same⟩
    rw [readLines_step read, ran]
    rfl

/-- A run of calls that ends has made its first one. -/
theorem readLines_inv {line : CString} {next fuel : Nat} {buffer : Buffer}
    {turns : List (Int × Buffer)} (yields : Yields line next (readline content buffer position))
    (ran : readLines content (fuel + 1) buffer position = .ok turns) :
    next < 2 ^ 31 ∧ ∃ after later, after.length = bufferSize ∧
      readLines content fuel after next = .ok later ∧
      turns = ((line.length : Int), after) :: later := by
  by_cases small : next < 2 ^ 31
  · rw [Yields, if_pos small] at yields
    obtain ⟨after, read, _, size⟩ := yields
    rw [readLines_step read] at ran
    obtain ⟨later, rest, rfl⟩ := map_ends ran
    exact ⟨small, after, later, size, rest, rfl⟩
  · rw [Yields, if_neg small] at yields
    rw [readLines_fault yields] at ran
    cases ran

/-- Whatever the calls yield, they yield at least as much as there are lines. -/
theorem readLines_count (fuel : Nat) :
    ∀ {position : Nat} {rest : List Char} {buffer : Buffer} {turns : List (Int × Buffer)},
      content.drop position = rest → position < 2 ^ 31 → buffer.length = bufferSize →
      readLines content fuel buffer position = .ok turns →
      (linesOf rest).length ≤ turns.length := by
  induction fuel with
  | zero =>
    intro position rest buffer turns _ _ _ ran
    cases ran
  | succ fuel ih =>
    intro position rest buffer turns here start size ran
    -- the lines of what one call leaves are bounded by what the later calls yield
    have next : ∀ {line : CString} {after : Nat} {tail : List Char},
        Yields line after (readline content buffer position) → content.drop after = tail →
        (linesOf tail).length + 1 ≤ turns.length := by
      intro line after tail yields there
      obtain ⟨small, buffer', later, size', rest', rfl⟩ := readLines_inv yields ran
      exact Nat.succ_le_succ (ih there small size' rest')
    by_cases none : rest = []
    · rw [none]
      exact Nat.zero_le _
    · rcases chunk_cases none with ⟨more, rfl⟩ | ⟨front, last, more, rfl, plain, short⟩ |
        ⟨front, last, more, rfl, plain, whole⟩
      · rw [readLines_fault (readline_blank start here size)] at ran
        cases ran
      · rw [linesOf_line plain]
        exact next (readline_line start plain short here size) (drop_line here)
      · have outside : '\n' ∉ front := fun member => plain (List.mem_append_left _ member)
        have count := linesOf_front outside (last :: more)
        have yielded := next (readline_chunk start plain whole here size) (drop_chunk here)
        rw [List.append_assoc]
        exact Nat.le_trans count yielded

/-- What is read line by line is tidy: a last line without a line feed loses its last character, and
a line that is too long for the chunk is read in two. -/
theorem tidy_of_reads (rest : List Char) :
    (∀ line ∈ linesOf rest, line.length < 1024) →
    ∀ {fuel position : Nat} {buffer : Buffer} {turns : List (Int × Buffer)},
      content.drop position = rest → position < 2 ^ 31 → buffer.length = bufferSize →
      readLines content fuel buffer position = .ok turns →
      List.Forall₂ IsLine (linesOf rest) turns → Tidy rest ∧ position + rest.length < 2 ^ 31 := by
  induction rest using lines_induction with
  | empty =>
    intro _ fuel position buffer turns _ start _ _ _
    exact ⟨⟨.inl rfl, fun text member => by cases member⟩, start⟩
  | last text plain some =>
    intro short fuel position buffer turns here start size ran lines
    rw [linesOf_word plain some] at short lines
    have few := short text (List.mem_singleton_self _)
    rcases List.eq_nil_or_concat' text with none | ⟨front, last, rfl⟩
    · exact absurd none some
    · cases fuel with
      | zero => cases ran
      | succ fuel =>
        have whole : (front ++ [last] ++ []).take 1024 = front ++ [last] := by
          rw [List.append_nil]
          exact List.take_of_length_le (Nat.le_of_lt few)
        rw [← List.append_nil (front ++ [last])] at here
        obtain ⟨_, after, later, _, _, rfl⟩ :=
          readLines_inv (readline_chunk start plain whole here size) ran
        obtain ⟨same, _⟩ := (List.forall₂_cons.mp lines).1
        rw [List.length_append, List.length_singleton] at same
        omega
  | line text more plain ih =>
    intro short fuel position buffer turns here start size ran lines
    rw [linesOf_line plain] at short lines
    have few := short (chopCr text) List.mem_cons_self
    cases fuel with
    | zero => cases ran
    | succ fuel =>
      rcases List.eq_nil_or_concat' text with rfl | ⟨front, last, rfl⟩
      · rw [readLines_fault (readline_blank start here size)] at ran
        cases ran
      · rw [line_length]
        by_cases fits : front.length + 1 < 1024
        · obtain ⟨small, after, later, size', rest, rfl⟩ :=
            readLines_inv (readline_line start plain fits here size) ran
          obtain ⟨tidy, bound⟩ := ih (fun line member => short line (List.mem_cons_of_mem _ member))
            (drop_line here) small size' rest (List.forall₂_cons.mp lines).2
          refine ⟨(tidy_line_iff plain more).mpr ⟨⟨List.concat_ne_nil last front, ?_⟩, tidy⟩, ?_⟩
          · rw [List.length_append, List.length_singleton]
            exact fits
          · omega
        · -- only a carriage return is behind the chunk, and it is read as one more line
          exfalso
          have cr : last = '\r' := by
            by_contra other
            rw [chopCr_snoc, if_neg other, List.length_append, List.length_singleton] at few
            exact fits few
          subst cr
          rw [chopCr_snoc, if_pos rfl] at few
          have whole : (front ++ ['\r'] ++ '\n' :: more).take 1024 = front ++ ['\r'] := by
            apply List.take_left'
            rw [List.length_append, List.length_singleton]
            omega
          obtain ⟨small, after, later, size', rest, rfl⟩ :=
            readLines_inv (readline_chunk start plain whole here size) ran
          have count := readLines_count fuel (drop_chunk here) small size' rest
          have again : linesOf ('\r' :: '\n' :: more) = [] :: linesOf more :=
            linesOf_line (show '\n' ∉ ['\r'] by decide) more
          have same := lines.length_eq
          rw [again, List.length_cons] at count
          rw [List.length_cons, List.length_cons] at same
          omega

/-- The buffers of the loop start with the lines. -/
def Hands (content : List Char) (buffer : Buffer) (position : Nat) (lines : List CString) : Prop :=
  ∃ fuel front back, turns content fuel buffer position = .ok (front ++ back) ∧
    List.Forall₂ Holds lines front

theorem loadsAll_iff : LoadsAll content ↔ Hands content uninitialised 0 (linesOf content) := by
  have recorded : ∀ (handed seen : List Buffer),
      handed.foldlM (fun seen buffer =>
        (.ok (seen ++ [buffer]) : Except Fault (List Buffer))) seen = .ok (seen ++ handed) := by
    intro handed
    induction handed with
    | nil =>
      intro seen
      rw [List.append_nil]
      rfl
    | cons buffer handed ih =>
      intro seen
      exact (ih (seen ++ [buffer])).trans (by rw [List.append_assoc]; rfl)
  rw [LoadsAll, Hands]
  refine exists_congr fun fuel => exists_congr fun front => exists_congr fun back => ?_
  refine and_congr_left fun _ => ?_
  rw [loadLoop_iff]
  constructor
  · rintro ⟨handed, ran, folded⟩
    rw [recorded, List.nil_append] at folded
    rw [← Except.ok.inj folded]
    exact ran
  · intro ran
    exact ⟨_, ran, recorded _ _⟩

theorem hands_step {buffer after : Buffer} {next : Nat} {line : CString} {lines : List CString}
    (read : readline content buffer position = .ok (line.length, after, next))
    (holds : Holds line after) :
    Hands content buffer position (line :: lines) ↔
      if line = [] then lines = [] else Hands content after next lines := by
  constructor
  · rintro ⟨fuel, front, back, ran, same⟩
    obtain ⟨first, front, _, behind, rfl⟩ := List.forall₂_cons_left_iff.mp same
    cases fuel with
    | zero => cases ran
    | succ fuel =>
      rw [turns_step read] at ran
      by_cases none : line = []
      · rw [if_pos none]
        rw [if_pos (List.length_eq_zero_iff.mpr none)] at ran
        have alone := (List.cons.inj (Except.ok.inj ran)).2
        rw [(List.append_eq_nil_iff.mp alone.symm).1] at behind
        exact List.forall₂_nil_right_iff.mp behind
      · rw [if_neg none]
        rw [if_neg (mt List.length_eq_zero_iff.mp none)] at ran
        obtain ⟨later, rest, whole⟩ := map_ends ran
        rw [(List.cons.inj whole).2] at rest
        exact ⟨fuel, front, back, rest, behind⟩
  · intro rest
    by_cases none : line = []
    · rw [if_pos none] at rest
      subst rest
      refine ⟨1, [after], [], ?_, List.Forall₂.cons holds List.Forall₂.nil⟩
      rw [turns_step read, if_pos (List.length_eq_zero_iff.mpr none)]
      rfl
    · rw [if_neg none] at rest
      obtain ⟨fuel, front, back, ran, behind⟩ := rest
      refine ⟨fuel + 1, after :: front, back, ?_, List.Forall₂.cons holds behind⟩
      rw [turns_step read, if_neg (mt List.length_eq_zero_iff.mp none), ran]
      rfl

/-- An empty line ends the loop, so only the last line may be one. -/
theorem hands_iff (rest : List Char) :
    Tidy rest → ∀ (position : Nat) (buffer : Buffer), content.drop position = rest →
      position + rest.length < 2 ^ 31 → buffer.length = bufferSize →
      (Hands content buffer position (linesOf rest) ↔
        ∀ line ∈ (linesOf rest).dropLast, line ≠ []) := by
  apply tidy_induction (motive := fun lines position buffer =>
    Hands content buffer position lines ↔ ∀ line ∈ lines.dropLast, line ≠ [])
  · intro position buffer read
    refine iff_of_true ⟨1, [], [buffer], turns_end read, List.Forall₂.nil⟩ fun line member => ?_
    cases member
  · intro position next buffer after line lines read holds behind
    rw [hands_step read holds]
    by_cases none : line = []
    · rw [if_pos none]
      cases lines with
      | nil => exact iff_of_true rfl fun l member => by cases member
      | cons second lines =>
        rw [List.dropLast_cons_cons]
        exact iff_of_false (List.cons_ne_nil _ _) fun all => all line List.mem_cons_self none
    · rw [if_neg none]
      refine behind.trans ?_
      cases lines with
      | nil => exact Iff.rfl
      | cons second lines =>
        rw [List.dropLast_cons_cons, List.forall_mem_cons]
        exact (and_iff_right none).symm

/-- The calls read a file line by line, and the loop goes over all its lines, exactly when the file
is tidy, smaller than 2 GiB, and without an empty line in front of the last one. -/
theorem lines_read_iff (content : List Char)
    (short : ∀ line ∈ linesOf content, line.length < 1024)
    (buffer : Vector (Option Char) bufferSize) :
    ReadsAll content buffer ∧ LoadsAll content ↔
      Tidy content ∧ content.length < 2 ^ 31 ∧ ∀ line ∈ (linesOf content).dropLast, line ≠ [] := by
  have size : uninitialised.length = bufferSize := List.length_replicate
  have start : content.drop 0 = content := rfl
  rw [loadsAll_iff]
  constructor
  · rintro ⟨⟨fuel, turns, ran, lines⟩, hands⟩
    obtain ⟨tidy, small⟩ := tidy_of_reads content short start (show 0 < 2 ^ 31 by decide)
      buffer.length_toList ran lines
    rw [Nat.zero_add] at small
    exact ⟨tidy, small, (hands_iff content tidy 0 uninitialised start (by omega) size).mp hands⟩
  · rintro ⟨tidy, small, some⟩
    exact ⟨reads_of_tidy content tidy 0 buffer.toList start (by omega) buffer.length_toList,
      (hands_iff content tidy 0 uninitialised start (by omega) size).mpr some⟩

theorem two_lines_read :
    (∀ line ∈ linesOf "80hz\r\n10db\n".toList, line.length < 1024) ∧
      ReadsAll "80hz\r\n10db\n".toList (Vector.replicate bufferSize none) ∧
      LoadsAll "80hz\r\n10db\n".toList :=
  ⟨by decide, (lines_read_iff "80hz\r\n10db\n".toList (by decide) _).mpr
    ⟨⟨.inr (by decide), by decide⟩, by decide, by decide⟩⟩

/-- A last line without a line feed is not read to its end. -/
theorem open_line_lost :
    ¬∀ content : List Char, (∀ line ∈ linesOf content, line.length < 1024) →
      ∀ buffer : Vector (Option Char) bufferSize, ReadsAll content buffer ∧ LoadsAll content := by
  intro all
  have short : ∀ line ∈ linesOf "80hz".toList, line.length < 1024 := by decide
  obtain ⟨⟨fuel, turns, ran, lines⟩, _⟩ :=
    all "80hz".toList short (Vector.replicate bufferSize none)
  obtain ⟨tidy, _⟩ := tidy_of_reads "80hz".toList short (show "80hz".toList.drop 0 = _ from rfl)
    (show 0 < 2 ^ 31 by decide) Vector.length_toList ran lines
  exact absurd tidy.ends (by decide)

end Law

end Ct.Dealfile
