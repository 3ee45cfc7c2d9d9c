import Ct.S5pv210.Dispatch

set_option autoImplicit false

namespace Ct.S5pv210.Main

open Ct.Lib

section Runs

variable {word : CString}

/-- What is free of blanks in a line is free of terminators. -/
theorem plain_of_line {back : CString} (plain : ∀ c ∈ word, isBlank c = false)
    (inside : '\x00' ∉ word ++ back) : ∀ c ∈ word, isBlank c = false ∧ c ≠ '\x00' := by
  intro c member
  refine ⟨plain c member, ?_⟩
  rintro rfl
  exact inside (List.mem_append_left _ member)

/-- The runs between the blanks become the arguments, the empty ones too. -/
theorem parseLoop_runs (tail : List Char) (line : CString) :
    ∀ (front : List Char) (argv : List Nat) (fuel : Nat), '\x00' ∉ line → line.length < fuel →
      argv.length + (runsOf isBlank line).length ≤ shellMaxArguments →
      ∃ after more, parseLoop fuel (front ++ (line ++ '\x00' :: tail)) argv front.length =
          .ok (front ++ after, argv ++ more) ∧
        more.mapM (stringAt (front ++ after)) = .ok (runsOf isBlank line) := by
  induction line using runs_induction isBlank with
  | empty =>
    intro front argv fuel _ enough _
    obtain ⟨fuel, rfl⟩ : ∃ left, fuel = left + 1 := ⟨fuel - 1, by simp at enough; omega⟩
    refine ⟨'\x00' :: tail, [], ?_, rfl⟩
    rw [List.nil_append, parseLoop_end, List.append_nil]
  | last word plain full =>
    intro front argv fuel inside enough few
    have length := List.length_pos_iff.mpr full
    obtain ⟨fuel, rfl⟩ : ∃ left, fuel = left + 2 := ⟨fuel - 2, by omega⟩
    rw [← List.append_nil word] at inside
    have dark := plain_of_line plain inside
    rw [runsOf_word plain full, List.length_singleton] at few
    refine ⟨word ++ '\x00' :: tail, [front.length], ?_, ?_⟩
    · rw [parseLoop_last front tail ⟨full, dark⟩, if_pos (by omega)]
    · rw [runsOf_word plain full, List.mapM_cons, stringAt_word front tail (dark_inside dark)]
      rfl
  | more word c text plain blank ih =>
    intro front argv fuel inside enough few
    rw [List.length_append, List.length_cons] at enough
    obtain ⟨fuel, rfl⟩ : ∃ left, fuel = left + 1 := ⟨fuel - 1, by omega⟩
    have dark := plain_of_line plain inside
    have inside' : '\x00' ∉ text := fun member =>
      inside (List.mem_append_right _ (List.mem_cons_of_mem _ member))
    rw [runsOf_append plain blank, List.length_cons] at few
    obtain ⟨after, more, ran, strings⟩ := ih (front ++ (word ++ ['\x00'])) (argv ++ [front.length])
      fuel inside' (by omega) (by simp; omega)
    rw [append_cell, append_cell, length_cell] at ran
    rw [append_cell] at strings
    refine ⟨word ++ '\x00' :: after, front.length :: more, ?_, ?_⟩
    · rw [List.append_assoc, List.cons_append, parseLoop_run front _ dark blank, if_pos (by omega),
        ran, List.append_assoc, List.singleton_append]
    · rw [runsOf_append plain blank, List.mapM_cons, stringAt_word front _ (dark_inside dark),
        strings]
      rfl

/-- Where there are more runs than places, one is stored behind the end of `argv`. -/
theorem parseLoop_outside (tail : List Char) (line : CString) :
    ∀ (front : List Char) (argv : List Nat) (fuel : Nat), '\x00' ∉ line → line.length < fuel →
      argv.length ≤ shellMaxArguments →
      shellMaxArguments < argv.length + (runsOf isBlank line).length →
      parseLoop fuel (front ++ (line ++ '\x00' :: tail)) argv front.length =
        .error .outOfBounds := by
  induction line using runs_induction isBlank with
  | empty =>
    intro front argv fuel _ _ few many
    rw [runsOf, List.length_nil] at many
    omega
  | last word plain full =>
    intro front argv fuel inside enough few many
    have length := List.length_pos_iff.mpr full
    obtain ⟨fuel, rfl⟩ : ∃ left, fuel = left + 2 := ⟨fuel - 2, by omega⟩
    rw [← List.append_nil word] at inside
    rw [runsOf_word plain full, List.length_singleton] at many
    rw [parseLoop_last front tail ⟨full, plain_of_line plain inside⟩, if_neg (by omega)]
  | more word c text plain blank ih =>
    intro front argv fuel inside enough few many
    rw [List.length_append, List.length_cons] at enough
    obtain ⟨fuel, rfl⟩ : ∃ left, fuel = left + 1 := ⟨fuel - 1, by omega⟩
    have inside' : '\x00' ∉ text := fun member =>
      inside (List.mem_append_right _ (List.mem_cons_of_mem _ member))
    rw [runsOf_append plain blank, List.length_cons] at many
    rw [List.append_assoc, List.cons_append,
      parseLoop_run front _ (plain_of_line plain inside) blank]
    by_cases room : argv.length < shellMaxArguments
    · have ran := ih (front ++ (word ++ ['\x00'])) (argv ++ [front.length]) fuel inside' (by omega)
        (by simp; omega) (by simp; omega)
      rw [append_cell, length_cell] at ran
      rw [if_pos room, ran]
    · rw [if_neg room]

end Runs

/-- What the parser stores of a line, and what it prints. -/
theorem shellParseArguments_ends_iff (line : Text) (tail : List Char) (args : List CString) :
    (∃ after argv sent, shellParseArguments (line.val ++ '\x00' :: tail) = .ok (after, argv, sent) ∧
        argv.mapM (stringAt after) = .ok args ∧ argv.length ≤ shellMaxArguments) ↔
      args = runsOf isBlank line.val ∧ args.length ≤ shellMaxArguments ∧
        ∀ arg ∈ args, takesArgument arg = false := by
  obtain ⟨line, inside⟩ := line
  dsimp only
  have enough : line.length < (line ++ '\x00' :: tail).length + 1 := by
    rw [List.length_append]
    omega
  by_cases few : (runsOf isBlank line).length ≤ shellMaxArguments
  · obtain ⟨after, argv, parsed, strings⟩ := parseLoop_runs tail line [] []
      ((line ++ '\x00' :: tail).length + 1) inside enough (by rwa [List.length_nil, Nat.zero_add])
    rw [List.nil_append, List.nil_append, List.nil_append, List.length_nil] at parsed
    rw [List.nil_append] at strings
    have count := mapM_length strings
    have listed := printArgv_iff after argv (j := 0) strings
    constructor
    · rintro ⟨after', argv', sent, ran, strings', -⟩
      obtain ⟨⟨str, argv''⟩, parsed', ran⟩ := bind_ends ran
      rw [parsed] at parsed'
      cases parsed'
      obtain ⟨text, _, ran⟩ := bind_ends ran
      obtain ⟨sent, printed, ran⟩ := bind_ends ran
      cases ran
      rw [strings] at strings'
      cases strings'
      exact ⟨rfl, few, listed.mp ⟨sent, printed⟩⟩
    · rintro ⟨rfl, -, plain⟩
      obtain ⟨text, argc, _⟩ := argcLine (BitVec.ofNat 32 argv.length)
      obtain ⟨sent, printed⟩ := listed.mpr plain
      refine ⟨after, argv, text :: sent, ?_, strings, by rwa [← count]⟩
      simp only [shellParseArguments, parsed, bind, Except.bind, argc, printed]
      rfl
  · have outside := parseLoop_outside tail line [] [] ((line ++ '\x00' :: tail).length + 1) inside
      enough (Nat.zero_le _) (by rw [List.length_nil, Nat.zero_add]; omega)
    rw [List.nil_append, List.length_nil] at outside
    apply iff_of_false
    · rintro ⟨after, argv, sent, ran, -, -⟩
      obtain ⟨_, parsed, _⟩ := bind_ends ran
      rw [outside] at parsed
      cases parsed
    · rintro ⟨rfl, fits, -⟩
      exact few fits

/-- The arguments are the words of the line, and there is room for them. -/
def TakesWords (line : Text) (tail : List Char) : Prop :=
  ∃ after argv sent, shellParseArguments (line.val ++ '\x00' :: tail) = .ok (after, argv, sent) ∧
    argv.mapM (stringAt after) = .ok (wordsOf isBlank line.val) ∧ argv.length ≤ shellMaxArguments

/-- The arguments are the words exactly if there are at most ten, no blank begins the line or
follows another, and no word is a format that takes an argument. -/
theorem takesWords_iff (line : Text) (tail : List Char) :
    TakesWords line tail ↔ SingleBlanks isBlank line.val ∧
      (wordsOf isBlank line.val).length ≤ shellMaxArguments ∧
      ∀ word ∈ wordsOf isBlank line.val, takesArgument word = false := by
  rw [TakesWords, shellParseArguments_ends_iff, eq_comm, runsOf_eq_wordsOf_iff]

/-- A line that is typed without corrections comes into the buffer. -/
theorem uartGetstr_line (line : Text) (once : '\r' ∉ line.val) (plain : '\x7f' ∉ line.val)
    (short : line.val.length < bufferSize) (buffer : Vector Char bufferSize) (more : List Char) :
    ∃ tail sent, uartGetstr (line.val ++ '\r' :: more) buffer.toList 0 =
      .ok (line.val ++ '\x00' :: tail, more, sent) := by
  have fits : FitsFrom buffer.toList.length [] line.val := by
    apply fitsFrom_of_length
    rwa [buffer.length_toList, List.length_nil, Nat.zero_add]
  obtain ⟨after, got, ⟨tail, stored⟩, _⟩ := uartGetstr_ends line.val more once List.nil_prefix fits
  rw [foldl_edit_plain line.val plain, List.nil_append, List.append_assoc,
    List.singleton_append] at stored
  rw [← stored] at got
  exact ⟨tail, echoed [] line.val, got⟩

/-- Two blanks between two words. -/
def twoBlanks : Text := ⟨"help  me".toList, by decide⟩

def elevenWords : Text := ⟨"a b c d e f g h i j k".toList, by decide⟩

theorem typed_lines_misread :
    (∃ tail sent, uartGetstr (twoBlanks.val ++ '\r' :: [])
        (Vector.replicate bufferSize 'x').toList 0 =
          .ok (twoBlanks.val ++ '\x00' :: tail, [], sent) ∧
      ¬ TakesWords twoBlanks tail) ∧
    ∃ tail sent, uartGetstr (elevenWords.val ++ '\r' :: [])
        (Vector.replicate bufferSize 'x').toList 0 =
          .ok (elevenWords.val ++ '\x00' :: tail, [], sent) ∧
      ¬ TakesWords elevenWords tail := by
  constructor
  · obtain ⟨tail, sent, got⟩ := uartGetstr_line twoBlanks (by decide) (by decide) (by decide)
      (Vector.replicate bufferSize 'x') []
    refine ⟨tail, sent, got, ?_⟩
    rw [TakesWords, shellParseArguments_ends_iff, eq_comm, runsOf_eq_wordsOf_iff]
    rintro ⟨single, _⟩
    rw [← nil_notMem_runsOf] at single
    exact single (by decide)
  · obtain ⟨tail, sent, got⟩ := uartGetstr_line elevenWords (by decide) (by decide) (by decide)
      (Vector.replicate bufferSize 'x') []
    refine ⟨tail, sent, got, ?_⟩
    rw [TakesWords, shellParseArguments_ends_iff]
    rintro ⟨-, few, -⟩
    revert few
    decide

end Ct.S5pv210.Main
