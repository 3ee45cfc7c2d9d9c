import Ct.Flex.SymbolRuns
import Ct.Lib.Format
import Ct.Lib.MaximalRuns

set_option autoImplicit false

namespace Ct.Flex

open Ct.Lib

/-- `[a-z_]`, in a lexer that does not distinguish the cases. -/
def isNameChar (c : Char) : Bool := c.isAlpha || c = '_'

/-- `yylex`: the calls of `addref`, with `yylineno`. -/
def yylex (yylineno : Nat) : CString → List Call
  | [] => []
  | c :: rest =>
    if isNameChar c then
      ⟨c :: rest.takeWhile isNameChar, yylineno, 0⟩ :: yylex yylineno (rest.dropWhile isNameChar)
    else yylex (if c = '\n' then yylineno + 1 else yylineno) rest
termination_by text => text.length
decreasing_by
  · exact Nat.lt_succ_of_le (List.dropWhile_sublist _).length_le
  · exact Nat.lt_succ_self _

/-- The line that is printed for a slot, if it is taken. -/
def slotText (symbol : Symbol) : CString :=
  match symbol.name with
  | none => []
  | some name =>
    name ++ ": ".toList ++ symbol.list.flatMap (fun ref => intText ref.lineno ++ [' ']) ++ ['\n']

/-- `prthashtab`, which goes from the last slot to the first. -/
def prthashtab (symtab : List Symbol) : CString :=
  "print hash table:\n".toList ++ symtab.reverse.flatMap slotText

/-- What `main` prints for a file, unless it aborts. -/
def main (heap : Nat → Heap) (file : CString) : Except Stop CString := do
  let symtab ← (run heap 0 emptySymtab (yylex 1 file)).2
  pure (prthashtab symtab)

/-- The words of a file with the numbers of their lines. -/
def wordsFrom (lineno : Nat) (file : CString) : List (CString × Nat) :=
  ((file.splitOn '\n').zipIdx lineno).flatMap fun (line, i) =>
    (maximalRuns isNameChar line).map (·, i)

section Words

variable {lineno : Nat} {rest : CString}

theorem wordsFrom_newline : wordsFrom lineno ('\n' :: rest) = wordsFrom (lineno + 1) rest := by
  rw [wordsFrom, List.splitOn_eq_splitOnP, List.splitOnP_cons_eq_if_modifyHead,
    if_pos (beq_self_eq_true _), List.zipIdx_cons, List.flatMap_cons]
  rfl

/-- Characters before a text lengthen its first line. -/
theorem splitOn_append {front : CString} (plain : '\n' ∉ front) {line : CString}
    {lines : List CString} (parts : rest.splitOn '\n' = line :: lines) :
    (front ++ rest).splitOn '\n' = (front ++ line) :: lines := by
  induction front with
  | nil => exact parts
  | cons c front ih =>
    rw [List.mem_cons, not_or] at plain
    have other : (c == '\n') = false := beq_false_of_ne fun same => plain.1 same.symm
    rw [List.cons_append, List.splitOn_eq_splitOnP, List.splitOnP_cons_eq_if_modifyHead, other,
      if_neg Bool.false_ne_true, ← List.splitOn_eq_splitOnP, ih plain.2]
    rfl

theorem splitOn_head {line : CString} {lines : List CString} {c : Char}
    (parts : rest.splitOn '\n' = line :: lines) (first : line.head? = some c) :
    rest.head? = some c := by
  cases rest with
  | nil =>
    cases parts
    cases first
  | cons d rest =>
    rw [List.splitOn_eq_splitOnP, List.splitOnP_cons_eq_if_modifyHead] at parts
    split at parts
    · cases parts
      cases first
    · cases tail : rest.splitOnP (· == '\n') with
      | nil => exact absurd tail (List.splitOnP_ne_nil _ _)
      | cons line' lines' =>
        rw [tail] at parts
        cases parts
        exact first

/-- Characters at the start of a file. -/
theorem wordsFrom_append (front : CString) (runs : List CString) (plain : '\n' ∉ front)
    (same : ∀ line, (∀ c, line.head? = some c → rest.head? = some c) →
      maximalRuns isNameChar (front ++ line) = runs ++ maximalRuns isNameChar line) :
    wordsFrom lineno (front ++ rest) = runs.map (·, lineno) ++ wordsFrom lineno rest := by
  obtain ⟨line, lines, parts⟩ := List.exists_cons_of_ne_nil (List.splitOn_ne_nil '\n' rest)
  rw [wordsFrom, splitOn_append plain parts, wordsFrom, parts, List.zipIdx_cons, List.zipIdx_cons,
    List.flatMap_cons, List.flatMap_cons]
  change (maximalRuns isNameChar (front ++ line)).map _ ++ _ = _
  rw [same line fun c first => splitOn_head parts first, List.map_append, List.append_assoc]

end Words

/-- The lexer passes the words of the file, with their lines. -/
theorem yylex_words (lineno : Nat) (file : CString) :
    (yylex lineno file).map (fun call => (call.name, call.lineno)) =
      (wordsFrom lineno file).map (fun word => (word.1, (word.2 : Int))) := by
  induction lineno, file using yylex.induct with
  | case1 lineno => simp [yylex, wordsFrom]
  | case2 lineno c rest inside ih =>
    have run : ∀ d ∈ c :: rest.takeWhile isNameChar, isNameChar d = true :=
      List.forall_mem_cons.mpr ⟨inside, fun d member => List.mem_takeWhile_imp member⟩
    have plain : '\n' ∉ c :: rest.takeWhile isNameChar := fun member => by
      cases run _ member
    have whole : c :: rest =
        (c :: rest.takeWhile isNameChar) ++ rest.dropWhile isNameChar := by
      rw [List.cons_append, List.takeWhile_append_dropWhile]
    have words : wordsFrom lineno (c :: rest) =
        [(c :: rest.takeWhile isNameChar, lineno)] ++
          wordsFrom lineno (rest.dropWhile isNameChar) := by
      rw [whole]
      exact wordsFrom_append _ [_] plain fun line first =>
        maximalRuns_run (List.cons_ne_nil _ _) run fun d head =>
          head_dropWhile_other _ _ d (first d head)
    rw [yylex, if_pos inside, words, List.map_cons, ih]
    rfl
  | case3 lineno c rest outside ih =>
    have other : isNameChar c = false := by simpa using outside
    rw [yylex, if_neg outside]
    by_cases newline : c = '\n'
    · subst newline
      rw [wordsFrom_newline]
      exact ih
    · have words : wordsFrom lineno (c :: rest) = wordsFrom lineno rest :=
        wordsFrom_append [c] [] (by simpa using Ne.symm newline)
          fun line _ => maximalRuns_cons_other other line
      rw [dif_neg newline] at ih
      rw [if_neg newline, words]
      exact ih

/-- The lines on which a word stands, the last one first. -/
def linesOf (word : CString) (file : CString) : List Nat :=
  (((wordsFrom 1 file).filter (·.1 = word)).map Prod.snd).reverse

/-- The line of the table for a word. -/
def rowText (file word : CString) : CString :=
  word ++ ": ".toList ++ (linesOf word file).flatMap (fun n => intText (Int.ofNat n) ++ [' ']) ++
    ['\n']

theorem refsOf_lines (word file : CString) :
    (refsOf word (yylex 1 file)).map Ref.lineno = (linesOf word file).map Int.ofNat := by
  have same := congrArg (fun words => (words.filter fun w => w.1 = word).map Prod.snd)
    (yylex_words 1 file)
  simp only [List.filter_map, List.map_map] at same
  rw [refsOf, linesOf, List.map_reverse, List.map_map, List.map_reverse, List.map_map]
  exact congrArg List.reverse same

theorem slotText_row {symbol : Symbol} {word file : CString} (named : symbol.name = some word)
    (refs : symbol.list = refsOf word (yylex 1 file)) : slotText symbol = rowText file word := by
  have lines : symbol.list.flatMap (fun ref => intText ref.lineno ++ [' ']) =
      (linesOf word file).flatMap fun n => intText (Int.ofNat n) ++ [' '] := by
    rw [← List.flatMap_map Int.ofNat (fun n => intText n ++ [' ']), ← refsOf_lines, ← refs,
      List.flatMap_map]
  rw [slotText, named, rowText]
  dsimp only
  rw [lines]

/-- The slots hold the words, each once. -/
theorem Concordance.nodup {calls : List Call} {symtab : List Symbol}
    (inv : Concordance calls symtab) : (symtab.filterMap Symbol.name).Nodup := by
  rw [List.Nodup, List.pairwise_filterMap, List.pairwise_iff_getElem]
  intro i j inside inside' before name taken name' taken' same
  subst same
  have slot : nameAt symtab i = some name := by
    rw [nameAt, List.getElem?_eq_getElem inside]
    exact taken
  have slot' : nameAt symtab j = some name := by
    rw [nameAt, List.getElem?_eq_getElem inside']
    exact taken'
  obtain ⟨k, reached, rfl⟩ := inv.reached slot
  obtain ⟨m, reached', rfl⟩ := inv.reached slot'
  rw [reached.unique reached'] at before
  exact absurd before (Nat.lt_irrefl _)

/-- What is printed for the slots, when each list is that of its word. -/
theorem slots_rows (file : CString) (symtab : List Symbol)
    (refs : ∀ symbol ∈ symtab, ∀ name, symbol.name = some name →
      symbol.list = refsOf name (yylex 1 file)) :
    symtab.flatMap slotText = (symtab.filterMap Symbol.name).flatMap (rowText file) := by
  induction symtab with
  | nil => rfl
  | cons symbol symtab ih =>
    obtain ⟨first, others⟩ := List.forall_mem_cons.mp refs
    rw [List.flatMap_cons, ih others]
    cases named : symbol.name with
    | none => rw [List.filterMap_cons_none named, slotText, named, List.nil_append]
    | some name =>
      rw [List.filterMap_cons_some named, List.flatMap_cons, slotText_row named (first name named)]

theorem Concordance.prthashtab {file : CString} {symtab : List Symbol}
    (inv : Concordance (yylex 1 file) symtab) :
    prthashtab symtab = "print hash table:\n".toList ++
      (symtab.filterMap Symbol.name).reverse.flatMap (rowText file) := by
  have rows := slots_rows file symtab.reverse fun symbol member name named => by
    obtain ⟨i, here⟩ := List.mem_iff_getElem?.mp (List.mem_reverse.mp member)
    have taken : nameAt symtab i = some name := by
      rw [nameAt, here]
      exact named
    rw [← inv.refs taken, listAt, here]
    rfl
  exact congrArg _ (rows.trans (by rw [List.filterMap_reverse]))

end Ct.Flex
