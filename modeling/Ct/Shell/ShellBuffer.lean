import Ct.Shell.ShellLines
import Ct.Lib.Memory

set_option autoImplicit false

namespace Ct.Shell

open Ct.Lib

/-- `while(' ' != *cur && '\t' != *cur && '\0' != *cur) cur++` -/
def wordEnd (cmdin : List Char) : Nat → Nat → Except Fault Nat
  | 0, _ => .error .outOfFuel
  | fuel + 1, cur =>
    match cmdin[cur]? with
    | none => .error .outOfBounds
    | some c => if isBlank c || c == '\x00' then .ok cur else wordEnd cmdin fuel (cur + 1)

/-- The string at this position. -/
def stringAt (cmdin : List Char) (s : Nat) : Except Fault CString :=
  if '\x00' ∈ cmdin.drop s then .ok ((cmdin.drop s).takeWhile (· ≠ '\x00')) else .error .outOfBounds

/-- `while('\0' != *s)`, with the line it is left with and the position of `s`. -/
def splitCmdlineLoop : Nat → Shell → List Char → Nat → Except Fault (Shell × List Char × Nat)
  | 0, _, _, _ => .error .outOfFuel
  | fuel + 1, sh, cmdin, s =>
    match cmdin[s]? with
    | none => .error .outOfBounds
    | some c =>
      if c = '\x00' then .ok (sh, cmdin, s)
      else if isBlank c then splitCmdlineLoop fuel sh cmdin (s + 1)
      else do
        let cur ← wordEnd cmdin (cmdin.length + 1) s
        if cmdin[cur]? = some '\x00' then return (sh, cmdin, s)
        let cmdin := cmdin.set cur '\x00'
        let sh ← storeArg sh (← stringAt cmdin s)
        splitCmdlineLoop fuel sh cmdin (cur + 1)

/-- `shell_split_cmdline` in the memory of the line, where it puts a terminator behind each word. -/
def splitCmdline (sh : Shell) (cmdin : List Char) : Except Fault (Shell × List Char) := do
  let (sh, cmdin, s) ← splitCmdlineLoop (cmdin.length + 1) { sh with argc := 0 } cmdin 0
  match cmdin[s]? with
  | none => .error .outOfBounds
  | some c =>
    if c ≠ '\x00' then
      let sh ← storeArg sh (← stringAt cmdin s)
      return (sh, cmdin)
    else return (sh, cmdin)

section Memory

variable {front word tail : List Char}

/-- The inner loop ends behind the word. -/
theorem wordEnd_word (dark : ∀ c ∈ word, isBlank c = false ∧ c ≠ '\x00') (stop : Char)
    (stops : (isBlank stop || stop == '\x00') = true) (front tail : List Char) {fuel : Nat}
    (enough : word.length < fuel) :
    wordEnd (front ++ (word ++ stop :: tail)) fuel front.length =
      .ok (front.length + word.length) := by
  induction word generalizing front fuel with
  | nil =>
    obtain ⟨fuel, rfl⟩ : ∃ left, fuel = left + 1 := ⟨fuel - 1, by simp at enough; omega⟩
    rw [List.nil_append, wordEnd, getElem?_front]
    exact if_pos stops
  | cons c word ih =>
    obtain ⟨⟨plain, inside⟩, later⟩ := List.forall_mem_cons.mp dark
    rw [List.length_cons] at enough
    obtain ⟨fuel, rfl⟩ : ∃ left, fuel = left + 1 := ⟨fuel - 1, by omega⟩
    have next := ih later (front ++ [c]) (by omega : word.length < fuel)
    rw [List.append_assoc, List.singleton_append, List.length_append, List.length_singleton] at next
    rw [List.cons_append, wordEnd, getElem?_front, List.length_cons]
    simp only [plain, Bool.false_or, beq_iff_eq, inside, if_false, next]
    congr 1
    omega

theorem stringAt_word (inside : '\x00' ∉ word) (front tail : List Char) :
    stringAt (front ++ (word ++ '\x00' :: tail)) front.length = .ok word := by
  rw [stringAt, List.drop_left, if_pos (List.mem_append_right _ List.mem_cons_self),
    takeWhile_ne inside]

end Memory

section Refines

variable {sh : Shell} {text tail : List Char}

/-- In memory the loop does what it does on the text that is left. -/
theorem splitCmdlineLoop_refines (tail : List Char) (fuel : Nat) :
    ∀ (sh : Shell) (front : List Char) {text : CString}, '\x00' ∉ text →
      (∃ fault, splitLoop fuel sh text = .error fault ∧
        splitCmdlineLoop fuel sh (front ++ (text ++ '\x00' :: tail)) front.length = .error fault) ∨
      ∃ after left front', splitLoop fuel sh text = .ok (after, left) ∧ '\x00' ∉ left ∧
        splitCmdlineLoop fuel sh (front ++ (text ++ '\x00' :: tail)) front.length =
          .ok (after, front' ++ (left ++ '\x00' :: tail), front'.length) := by
  induction fuel with
  | zero => exact fun sh front text _ => Or.inl ⟨.outOfFuel, rfl, rfl⟩
  | succ fuel ih =>
    intro sh front text inside
    cases text with
    | nil =>
      refine Or.inr ⟨sh, [], front, rfl, List.not_mem_nil, ?_⟩
      rw [List.nil_append, splitCmdlineLoop, getElem?_front]
      exact if_pos rfl
    | cons c rest =>
      have seen : c ≠ '\x00' := (List.ne_of_not_mem_cons inside).symm
      have here := getElem?_front front c (rest ++ '\x00' :: tail)
      rw [List.cons_append]
      by_cases blank : isBlank c = true
      · have step := ih sh (front ++ [c]) (List.not_mem_of_not_mem_cons inside)
        rw [List.append_assoc, List.singleton_append, List.length_append,
          List.length_singleton] at step
        rw [splitLoop, if_pos blank, splitCmdlineLoop, here]
        simp only [seen, if_false, blank, if_true]
        exact step
      have plain : isBlank c = false := Bool.eq_false_iff.mpr blank
      have dark : ∀ x ∈ (c :: rest).takeWhile (fun x => !isBlank x),
          isBlank x = false ∧ x ≠ '\x00' := by
        intro x member
        refine ⟨by simpa using List.mem_takeWhile_imp member, ?_⟩
        rintro rfl
        exact inside ((List.takeWhile_prefix _).subset member)
      have parts := List.takeWhile_append_dropWhile (p := fun x => !isBlank x) (l := c :: rest)
      have room : ((c :: rest).takeWhile fun x => !isBlank x).length <
          (front ++ (c :: (rest ++ '\x00' :: tail))).length + 1 := by
        have within := (List.takeWhile_prefix (fun x => !isBlank x) (l := c :: rest)).length_le
        rw [List.length_append, List.length_cons, List.length_append]
        rw [List.length_cons] at within
        omega
      rw [splitLoop, if_neg blank]
      cases behind : (c :: rest).dropWhile (fun x => !isBlank x) with
      | nil =>
        -- the word ends with the line
        rw [behind, List.append_nil] at parts
        rw [parts] at dark room
        have ends := wordEnd_word dark '\x00' (by decide) front tail room
        have last := getElem?_front (front ++ (c :: rest)) '\x00' tail
        rw [List.append_assoc, List.length_append] at last
        rw [List.cons_append] at ends last
        refine Or.inr ⟨sh, c :: rest, front, rfl, inside, ?_⟩
        rw [splitCmdlineLoop, here]
        simp only [seen, if_false, plain, Bool.false_eq_true, bind, Except.bind, ends, last,
          if_true]
        rfl
      | cons d text =>
        have stops : isBlank d = true := by
          have head := List.head?_dropWhile_not (fun x => !isBlank x) (c :: rest)
          rw [behind] at head
          simpa using head
        rw [behind] at parts
        generalize (c :: rest).takeWhile (fun x => !isBlank x) = word at parts dark room ⊢
        have inside' : '\x00' ∉ text := by
          intro member
          rw [← parts] at inside
          exact inside (List.mem_append_right _ (List.mem_cons_of_mem _ member))
        have unseen : '\x00' ∉ word := fun member => (dark _ member).2 rfl
        have cell : d ≠ '\x00' := by
          rintro rfl
          exact absurd stops (by decide)
        have regroup : c :: (rest ++ '\x00' :: tail) = word ++ d :: (text ++ '\x00' :: tail) := by
          rw [← List.cons_append, ← parts, List.append_assoc, List.cons_append]
        have ends := wordEnd_word dark d (by rw [stops, Bool.true_or]) front
          (text ++ '\x00' :: tail) (regroup ▸ room)
        have last := getElem?_front (front ++ word) d (text ++ '\x00' :: tail)
        rw [List.append_assoc, List.length_append] at last
        have string := stringAt_word unseen front (text ++ '\x00' :: tail)
        rw [regroup] at here ⊢
        have run : splitCmdlineLoop (fuel + 1) sh (front ++ (word ++ d :: (text ++ '\x00' :: tail)))
            front.length = (storeArg sh word).bind fun sh => splitCmdlineLoop fuel sh
              (front ++ (word ++ '\x00' :: (text ++ '\x00' :: tail)))
              (front.length + word.length + 1) := by
          rw [splitCmdlineLoop, here]
          simp only [seen, if_false, plain, Bool.false_eq_true, bind, Except.bind, ends, last,
            Option.some_inj, cell, set_behind, string]
        rw [run]
        cases storeArg sh word with
        | error fault => exact Or.inl ⟨fault, rfl, rfl⟩
        | ok next =>
          have step := ih next (front ++ (word ++ ['\x00'])) inside'
          rw [append_cell, length_cell] at step
          exact step

/-- Splitting a line in its memory stores its words. -/
theorem splitCmdline_words (sh : Shell) (inside : '\x00' ∉ text) (tail : List Char) :
    (splitCmdline sh (text ++ '\x00' :: tail)).map Prod.fst =
      storeArgs { sh with argc := 0 } (words text) := by
  have enough : text.length < (text ++ '\x00' :: tail).length + 1 := by
    rw [List.length_append]
    omega
  rw [← splitLoop_words enough]
  have refines := splitCmdlineLoop_refines tail ((text ++ '\x00' :: tail).length + 1)
    { sh with argc := 0 } [] inside
  rw [List.nil_append, List.length_nil] at refines
  rcases refines with ⟨fault, loop, run⟩ | ⟨after, left, front, loop, inside', run⟩
  · rw [splitCmdline, run, loop]
    rfl
  · rw [splitCmdline, run, loop]
    cases left with
    | nil =>
      have last := getElem?_front front '\x00' tail
      simp only [bind, Except.bind, List.nil_append, last]
      rfl
    | cons c left =>
      have seen : c ≠ '\x00' := (List.ne_of_not_mem_cons inside').symm
      have here := getElem?_front front c (left ++ '\x00' :: tail)
      have string := stringAt_word inside' front tail
      rw [List.cons_append] at string
      simp only [bind, Except.bind, List.cons_append, here, ne_eq, seen, not_false_eq_true, if_true,
        string]
      have stored : storeLast after (c :: left) = storeArg after (c :: left) :=
        if_pos (List.cons_ne_nil c left)
      rw [stored]
      cases storeArg after (c :: left) with
      | error fault => rfl
      | ok next => rfl

end Refines

section Lines

variable {sh : Shell} {args : List CString}

/-- Storing words stays inside of `shell_t` exactly when there is room for each of them. -/
theorem storeArgs_ends_iff (room : sh.argc ≤ cmdMaxNum) :
    (∃ after, storeArgs sh args = .ok after) ↔
      sh.argc + args.length ≤ cmdMaxNum ∧ ∀ arg ∈ args, arg.length < cmdMaxLen := by
  constructor
  · intro stored
    induction args generalizing sh with
    | nil => exact ⟨room, fun arg member => absurd member List.not_mem_nil⟩
    | cons arg args ih =>
      obtain ⟨after, stored⟩ := stored
      rw [storeArgs, storeArg] at stored
      split at stored
      · cases stored
      · rename_i next here
        split at here
        · rename_i inside
          split at here
          · rename_i short
            cases here
            obtain ⟨few, shorts⟩ := ih (by dsimp only; omega) ⟨after, stored⟩
            refine ⟨?_, List.forall_mem_cons.mpr ⟨short, shorts⟩⟩
            rw [List.length_cons]
            dsimp only at few
            omega
          · cases here
        · cases here
  · rintro ⟨few, short⟩
    obtain ⟨after, run, _⟩ := storeArgs_fits few short
    exact ⟨after, run⟩

/-- The words of a line become the arguments, in their order, if there are not too many and none
is too long. -/
theorem splitCmdline_arguments (sh : Shell) (line : Text) (tail : List Char)
    (number : (words line.val).length ≤ cmdMaxNum)
    (short : ∀ word ∈ words line.val, word.length < cmdMaxLen) :
    ∃ after cmdin, splitCmdline sh (line.val ++ '\x00' :: tail) = .ok (after, cmdin) ∧
      after.argc = (words line.val).length ∧
      ∀ i, i < after.argc → after.argv[i]? = (words line.val)[i]? := by
  have few : ({ sh with argc := 0 } : Shell).argc + (words line.val).length ≤ cmdMaxNum := by
    dsimp only
    rwa [Nat.zero_add]
  obtain ⟨after, stored, count, argv⟩ := storeArgs_fits few short
  have split := splitCmdline_words sh line.property tail
  rw [stored] at split
  cases run : splitCmdline sh (line.val ++ '\x00' :: tail) with
  | error fault =>
    rw [run] at split
    cases split
  | ok result =>
    obtain ⟨after', cmdin⟩ := result
    rw [run] at split
    have same : after' = after := Except.ok.inj split
    subst same
    have argc : after'.argc = (words line.val).length := count.trans (Nat.zero_add _)
    refine ⟨after', cmdin, rfl, argc, fun i below => ?_⟩
    rw [argc] at below
    have inside : i < cmdMaxNum := Nat.lt_of_lt_of_le below number
    rw [getElem?_pos after'.argv i inside, argv i inside, if_neg (Nat.not_lt_zero i), Nat.sub_zero,
      List.getElem?_eq_getElem below]
    rfl

/-- Two words between blanks of both kinds. -/
theorem splitCmdline_arguments_two : ∃ after cmdin,
    splitCmdline clearShell ("\t fc  name \t".toList ++ '\x00' :: []) = .ok (after, cmdin) ∧
      after.argc = 2 ∧ after.argv[0]? = some "fc".toList ∧ after.argv[1]? = some "name".toList := by
  have two : words "\t fc  name \t".toList = ["fc".toList, "name".toList] := by decide
  obtain ⟨after, cmdin, run, argc, argv⟩ := splitCmdline_arguments clearShell
    ⟨"\t fc  name \t".toList, by decide⟩ [] (by decide) (by decide)
  rw [two] at argc argv
  exact ⟨after, cmdin, run, argc, argv 0 (by rw [argc]; decide), argv 1 (by rw [argc]; decide)⟩

/-- `while((*pcmd++ = getc(stdin)) != '\n')`, with what `stdin` has left. -/
def readLoop : List Char → List Char → Nat → Except Fault (List Char × Nat × List Char)
  | [], _, _ => .error .outOfBounds
  | c :: stdin, cmdin, pcmd =>
    if pcmd < cmdin.length then
      if c ≠ '\n' then readLoop stdin (cmdin.set pcmd c) (pcmd + 1)
      else .ok (cmdin.set pcmd c, pcmd + 1, stdin)
    else .error .outOfBounds

/-- The body of the loop in `main` up to the router; at the end of `stdin` it stores behind
`cmdin`. -/
def readAndSplit (sh : Shell) (stdin : List Char) (cmdin : Vector Char cmdinSize) :
    Except Fault (Shell × List Char) := do
  let (cmdin, pcmd, _) ← readLoop stdin cmdin.toList 0
  splitCmdline sh (cmdin.set (pcmd - 1) '\x00')

/-- A line for which `cmdin` has room, without its end. -/
abbrev Typed := { line : List Char // '\n' ∉ line ∧ line.length < cmdinSize }

/-- The characters of a line go to the start of `cmdin`. -/
theorem readLoop_line (more : List Char) {line : List Char} (plain : '\n' ∉ line) :
    ∀ (front : List Char) {old : List Char}, line.length < old.length →
      ∃ tail, readLoop (line ++ '\n' :: more) (front ++ old) front.length =
        .ok (front ++ (line ++ '\n' :: tail), front.length + line.length + 1, more) := by
  induction line with
  | nil =>
    intro front old room
    cases old with
    | nil => exact absurd room (Nat.lt_irrefl _)
    | cons o old =>
      have inside : front.length < (front ++ o :: old).length := by simp
      have stored := set_front front old o '\n'
      refine ⟨old, ?_⟩
      rw [List.nil_append, List.nil_append, readLoop, if_pos inside, if_neg (by simp), stored]
      rfl
  | cons c line ih =>
    intro front old room
    cases old with
    | nil => exact absurd room (Nat.not_lt_zero _)
    | cons o old =>
      have inside : front.length < (front ++ o :: old).length := by simp
      have stored := set_front front old o c
      have other : c ≠ '\n' := (List.ne_of_not_mem_cons plain).symm
      obtain ⟨tail, run⟩ := ih (List.not_mem_of_not_mem_cons plain) (front ++ [c])
        (Nat.lt_of_succ_lt_succ room)
      rw [List.append_assoc, List.append_assoc, List.singleton_append, List.singleton_append,
        List.length_append, List.length_singleton] at run
      refine ⟨tail, ?_⟩
      rw [List.cons_append, readLoop, if_pos inside, if_pos other, stored, run, List.length_cons,
        List.cons_append, Nat.add_assoc front.length, Nat.add_comm 1]

/-- A line up to its first terminator. -/
theorem exists_text (line tail : List Char) : ∃ tail', line ++ '\x00' :: tail =
    line.takeWhile (· ≠ '\x00') ++ '\x00' :: tail' := by
  have parts := List.takeWhile_append_dropWhile (p := fun c => decide (c ≠ '\x00')) (l := line)
  cases behind : line.dropWhile fun c => decide (c ≠ '\x00') with
  | nil =>
    rw [behind, List.append_nil] at parts
    exact ⟨tail, by rw [parts]⟩
  | cons d rest =>
    have stops := List.head?_dropWhile_not (fun c => decide (c ≠ '\x00')) line
    rw [behind] at parts stops
    have ends : d = '\x00' := by simpa using stops
    refine ⟨rest ++ '\x00' :: tail, ?_⟩
    rw [ends] at parts
    rw [← List.cons_append, ← List.append_assoc, parts]

theorem takeWhile_text (line : List Char) : '\x00' ∉ line.takeWhile (· ≠ '\x00') := by
  intro member
  have inside := List.mem_takeWhile_imp member
  simp at inside

/-- What a line that `main` reads leaves in the shell: its words up to a terminator that is
typed. -/
theorem readAndSplit_words (sh : Shell) (line : Typed) (more : List Char)
    (cmdin : Vector Char cmdinSize) :
    (readAndSplit sh (line.val ++ '\n' :: more) cmdin).map Prod.fst =
      storeArgs { sh with argc := 0 } (words (line.val.takeWhile (· ≠ '\x00'))) := by
  obtain ⟨line, plain, room⟩ := line
  dsimp only
  have space : line.length < cmdin.toList.length := by
    rw [Vector.length_toList]
    exact room
  obtain ⟨tail, read⟩ := readLoop_line more plain [] space
  obtain ⟨tail', same⟩ := exists_text line tail
  have closed := set_behind [] line tail '\n' '\x00'
  rw [List.length_nil, Nat.zero_add, List.nil_append, List.nil_append, same] at closed
  have run : readAndSplit sh (line ++ '\n' :: more) cmdin =
      splitCmdline sh (line.takeWhile (· ≠ '\x00') ++ '\x00' :: tail') := by
    rw [List.nil_append, List.length_nil, Nat.zero_add, List.nil_append] at read
    simp only [readAndSplit, read, bind, Except.bind, Nat.add_sub_cancel, closed]
  rw [run, splitCmdline_words sh (takeWhile_text line)]

/-- Reading and splitting a line stays inside of `shell_t` exactly if the line has at most 16
words, each of less than 64 characters. -/
theorem readAndSplit_ends_iff (sh : Shell) (line : Typed) (more : List Char)
    (cmdin : Vector Char cmdinSize) :
    (∃ after, readAndSplit sh (line.val ++ '\n' :: more) cmdin = .ok after) ↔
      (words (line.val.takeWhile (· ≠ '\x00'))).length ≤ cmdMaxNum ∧
        ∀ word ∈ words (line.val.takeWhile (· ≠ '\x00')), word.length < cmdMaxLen := by
  have few : ({ sh with argc := 0 } : Shell).argc ≤ cmdMaxNum := Nat.zero_le _
  rw [← map_ends_iff Prod.fst, readAndSplit_words, storeArgs_ends_iff few, Nat.zero_add]

/-- 17 words. -/
def manyWords : Typed := ⟨(List.replicate 17 ['a', ' ']).flatten, by decide⟩

/-- A word of 64 characters. -/
def longWord : Typed := ⟨List.replicate 64 'a', by decide⟩

theorem readAndSplit_outside :
    (¬ ∃ after, readAndSplit clearShell (manyWords.val ++ '\n' :: [])
        (Vector.replicate cmdinSize '\x00') = .ok after) ∧
      ¬ ∃ after, readAndSplit clearShell (longWord.val ++ '\n' :: [])
        (Vector.replicate cmdinSize '\x00') = .ok after := by
  have few : ({ clearShell with argc := 0 } : Shell).argc ≤ cmdMaxNum := Nat.zero_le _
  constructor
  · rw [← map_ends_iff Prod.fst, readAndSplit_words, storeArgs_ends_iff few]
    rintro ⟨number, _⟩
    revert number
    decide
  · rw [← map_ends_iff Prod.fst, readAndSplit_words, storeArgs_ends_iff few]
    rintro ⟨_, short⟩
    have whole : longWord.val.takeWhile (· ≠ '\x00') = longWord.val := by decide
    have plain : ∀ c ∈ longWord.val, isBlank c = false := by
      intro c member
      rw [List.eq_of_mem_replicate member]
      rfl
    have one : words longWord.val = [longWord.val] := wordsOf_word plain (by decide)
    rw [whole, one] at short
    have length := short longWord.val (List.mem_singleton_self _)
    revert length
    decide

end Lines

end Ct.Shell
