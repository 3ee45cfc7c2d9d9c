import Ct.Lib.Words
import Ct.Shell.Shell
import Mathlib.Data.List.Basic

set_option autoImplicit false

namespace Ct.Shell

open Ct.Lib

/-- The words of a line. -/
def words (line : CString) : List CString :=
  wordsOf isBlank line

variable {sh after : Shell} {line : CString} {args : List CString}

/-- Words stored one after the other. -/
def storeArgs (sh : Shell) : List CString → Except Fault Shell
  | [] => .ok sh
  | s :: args =>
    match storeArg sh s with
    | .error fault => .error fault
    | .ok sh => storeArgs sh args

/-- The loop and the step behind it store the words of the text. -/
theorem splitLoop_words {fuel : Nat} (enough : line.length < fuel) (sh : Shell) :
    (splitLoop fuel sh line).bind (fun left => storeLast left.1 left.2) =
      storeArgs sh (words line) := by
  induction fuel generalizing line sh with
  | zero => exact absurd enough (Nat.not_lt_zero _)
  | succ fuel ih =>
    cases line with
    | nil =>
      rw [words, wordsOf_nil]
      rfl
    | cons c rest =>
      rw [List.length_cons] at enough
      rw [splitLoop, words]
      by_cases blank : isBlank c = true
      · rw [if_pos blank, wordsOf_blank blank]
        exact ih (by omega) sh
      · rw [if_neg blank, wordsOf_start (Bool.eq_false_iff.mpr blank), storeArgs]
        have parts := List.takeWhile_append_dropWhile (p := fun c => !isBlank c) (l := c :: rest)
        cases behind : (c :: rest).dropWhile (fun c => !isBlank c) with
        | nil =>
          -- the word ends with the line, and is stored behind the loop
          rw [behind, List.append_nil] at parts
          rw [parts, List.tail_nil, wordsOf_nil]
          dsimp only [Except.bind, storeLast]
          rw [if_pos (List.cons_ne_nil c rest)]
          cases storeArg sh (c :: rest) with
          | error fault => rfl
          | ok sh => rfl
        | cons d text =>
          have shorter : text.length < fuel := by
            have length := congrArg List.length parts
            rw [behind, List.length_append, List.length_cons, List.length_cons] at length
            omega
          dsimp only [List.tail_cons]
          cases storeArg sh ((c :: rest).takeWhile fun c => !isBlank c) with
          | error fault => rfl
          | ok sh => exact ih shorter sh

theorem shellSplitCmdline_words (sh : Shell) (line : CString) :
    shellSplitCmdline sh line = storeArgs { sh with argc := 0 } (words line) := by
  rw [← splitLoop_words (Nat.lt_succ_self line.length), shellSplitCmdline]
  cases splitLoop (line.length + 1) { sh with argc := 0 } line with
  | error fault => rfl
  | ok left => rfl

/-- What fits into `argv` is there afterwards, behind what was there, and the rest is as before. -/
theorem storeArgs_fits (few : sh.argc + args.length ≤ cmdMaxNum)
    (short : ∀ arg ∈ args, arg.length < cmdMaxLen) :
    ∃ after, storeArgs sh args = .ok after ∧ after.argc = sh.argc + args.length ∧
      ∀ i (inside : i < cmdMaxNum), after.argv[i] =
        if i < sh.argc then sh.argv[i] else args[i - sh.argc]?.getD sh.argv[i] := by
  induction args generalizing sh with
  | nil =>
    refine ⟨sh, rfl, rfl, fun i inside => ?_⟩
    split
    · rfl
    · rfl
  | cons arg args ih =>
    rw [List.length_cons] at few
    have inside : sh.argc < cmdMaxNum := by omega
    have stored : storeArg sh arg = .ok ⟨sh.argc + 1, sh.argv.set sh.argc arg⟩ := by
      rw [storeArg, dif_pos inside, if_pos (short arg List.mem_cons_self)]
    have fewer : (⟨sh.argc + 1, sh.argv.set sh.argc arg⟩ : Shell).argc + args.length ≤ cmdMaxNum := by
      dsimp only
      omega
    obtain ⟨after, run, count, argv⟩ := ih fewer
      (fun other member => short other (List.mem_cons_of_mem arg member))
    refine ⟨after, ?_, ?_, fun i below => ?_⟩
    · rw [storeArgs, stored]
      exact run
    · rw [count, List.length_cons]
      dsimp only
      omega
    · rw [argv i below]
      dsimp only
      by_cases before : i < sh.argc
      · rw [if_pos (by omega), if_pos before, Vector.getElem_set_ne _ _ (by omega)]
      · rw [if_neg before]
        by_cases here : i = sh.argc
        · subst here
          rw [if_pos (by omega), Vector.getElem_set_self, Nat.sub_self]
          rfl
        · have further : i - sh.argc = i - (sh.argc + 1) + 1 := by omega
          rw [if_neg (by omega), Vector.getElem_set_ne _ _ (by omega), further,
            List.getElem?_cons_succ]

/-- A line that stays inside `cmdin` and `shell_t`. -/
structure Fits (line : CString) : Prop where
  length : line.length < cmdinSize
  number : (words line).length ≤ cmdMaxNum
  short : ∀ word ∈ words line, word.length < cmdMaxLen

/-- Splitting a line stores its words from `argv[0]` on, and leaves what is behind them. -/
theorem shellSplitCmdline_fits (fits : Fits line) (sh : Shell) :
    ∃ after, shellSplitCmdline sh line = .ok after ∧ after.argc = (words line).length ∧
      ∀ i (inside : i < cmdMaxNum), after.argv[i] = (words line)[i]?.getD sh.argv[i] := by
  have few : ({ sh with argc := 0 } : Shell).argc + (words line).length ≤ cmdMaxNum := by
    dsimp only
    rw [Nat.zero_add]
    exact fits.number
  obtain ⟨after, run, count, argv⟩ := storeArgs_fits few fits.short
  refine ⟨after, (shellSplitCmdline_words sh line).trans run, ?_, fun i inside => ?_⟩
  · rw [count]
    exact Nat.zero_add _
  · rw [argv i inside]
    exact if_neg (Nat.not_lt_zero i)

/-- The name that the router sees after a line. -/
def nameAfter (left line : CString) : CString :=
  (words line).head?.getD left

theorem shellLine_fits (fits : Fits line) (sh : Shell) :
    ∃ after, shellLine sh line = .ok (after, commandNamed (nameAfter sh.argv[0] line)) ∧
      after.argv[0] = nameAfter sh.argv[0] line := by
  obtain ⟨after, run, -, argv⟩ := shellSplitCmdline_fits fits sh
  have first : after.argv[0] = nameAfter sh.argv[0] line := by
    rw [argv 0 (by decide), nameAfter, List.head?_eq_getElem?]
  refine ⟨after, ?_, first⟩
  rw [shellLine, run, ← first]
  rfl

/-- What earlier lines leave in `argv[0]`: the first word of the last of them that has one. -/
def nameLeft (garbage : CString) (earlier : List CString) : CString :=
  earlier.foldl nameAfter garbage

theorem session_cons {lines : List CString} {cmd : Option Cmd}
    (split : shellLine sh line = .ok (after, cmd)) :
    session sh (line :: lines) = if cmd = some .quit then .ok none else session after lines := by
  rw [session, split]
  cases cmd with
  | none => rfl
  | some cmd => cases cmd <;> rfl

/-- A session over lines that fit has no fault. -/
theorem session_fits {lines : List CString} (fits : ∀ line ∈ lines, Fits line) (sh : Shell) :
    ∃ left, session sh lines = .ok left := by
  induction lines generalizing sh with
  | nil => exact ⟨some sh, rfl⟩
  | cons line lines ih =>
    obtain ⟨after, run, -⟩ := shellLine_fits (fits line List.mem_cons_self) sh
    rw [session_cons run]
    split
    · exact ⟨none, rfl⟩
    · exact ih (fun other member => fits other (List.mem_cons_of_mem line member)) after

theorem session_name {lines : List CString} (fits : ∀ line ∈ lines, Fits line)
    (reached : session sh lines = .ok (some after)) :
    after.argv[0] = nameLeft sh.argv[0] lines := by
  induction lines generalizing sh with
  | nil =>
    cases reached
    rfl
  | cons line lines ih =>
    obtain ⟨next, run, first⟩ := shellLine_fits (fits line List.mem_cons_self) sh
    rw [session_cons run] at reached
    split at reached
    · cases reached
    · rw [ih (fun other member => fits other (List.mem_cons_of_mem line member)) reached, first]
      rfl

/-- The command of a line by itself. -/
def lineCommand (line : CString) : Option Cmd :=
  (words line).head?.bind commandNamed

/-- Behind any lines that keep the shell running, a line runs the command of its own words exactly
when it has a word, or the name that these lines have left in `argv[0]` is that of no command. -/
theorem line_acts_alone_iff (sh : Shell) (earlier : List CString) (line : CString)
    (fits : ∀ other ∈ earlier ++ [line], Fits other) (before : Shell)
    (reached : session sh earlier = .ok (some before)) :
    (∃ after, shellLine before line = .ok (after, lineCommand line)) ↔
      words line ≠ [] ∨ commandNamed (nameLeft sh.argv[0] earlier) = none := by
  have inside := fun other member => fits other (List.mem_append_left _ member)
  obtain ⟨after, run, -⟩ :=
    shellLine_fits (fits line (List.mem_append_right _ (List.mem_singleton_self line))) before
  rw [session_name inside reached] at run
  cases named : words line with
  | nil =>
    have own : lineCommand line = none := by rw [lineCommand, named]; rfl
    have left : nameAfter (nameLeft sh.argv[0] earlier) line = nameLeft sh.argv[0] earlier := by
      rw [nameAfter, named]
      rfl
    rw [own]
    rw [left] at run
    constructor
    · rintro ⟨other, ran⟩
      rw [run] at ran
      exact Or.inr (congrArg Prod.snd (Except.ok.inj ran))
    · rintro (some | none)
      · exact absurd rfl some
      · exact ⟨after, by rw [run, none]⟩
  | cons word more =>
    have own : lineCommand line = commandNamed (nameAfter (nameLeft sh.argv[0] earlier) line) := by
      rw [lineCommand, nameAfter, named]
      rfl
    rw [own]
    exact iff_of_true ⟨after, run⟩ (Or.inl (List.cons_ne_nil word more))

/-- A shell in whose memory every string is empty. -/
def clearShell : Shell :=
  ⟨0, Vector.replicate cmdMaxNum []⟩

theorem fits_fl : Fits "fl".toList :=
  ⟨by decide, by decide, by decide⟩

theorem fits_help : Fits " help\tme".toList :=
  ⟨by decide, by decide, by decide⟩

theorem line_acts_alone_help : ∃ before, session clearShell ["fl".toList] = .ok (some before) ∧
    ∃ after, shellLine before " help\tme".toList = .ok (after, some .help) := by
  have reached : ∃ before, session clearShell ["fl".toList] = .ok (some before) := ⟨_, rfl⟩
  obtain ⟨before, reached⟩ := reached
  have fits : ∀ other ∈ ["fl".toList] ++ [" help\tme".toList], Fits other := by
    intro other member
    rcases List.mem_pair.mp member with rfl | rfl
    · exact fits_fl
    · exact fits_help
  exact ⟨before, reached, (line_acts_alone_iff clearShell ["fl".toList] " help\tme".toList fits
    before reached).mpr (Or.inl (by decide))⟩

/-- Behind `fl` an empty line runs `fl` again. -/
theorem empty_line_repeats : ∃ before, session clearShell ["fl".toList] = .ok (some before) ∧
    (∃ after, shellLine before [] = .ok (after, some .fieldList)) ∧
    ¬ ∃ after, shellLine before [] = .ok (after, lineCommand []) := by
  refine ⟨_, rfl, ⟨_, rfl⟩, ?_⟩
  rintro ⟨after, ran⟩
  have same : some Cmd.fieldList = lineCommand [] := congrArg Prod.snd (Except.ok.inj ran)
  revert same
  decide

end Ct.Shell
