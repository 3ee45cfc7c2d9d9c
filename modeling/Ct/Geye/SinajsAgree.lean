import Ct.Geye.SinajsFields
import Ct.Lib.Words
import Mathlib.Algebra.GroupWithZero.Nat

set_option autoImplicit false

namespace Ct.Geye

open Ct.Lib

variable {φ ι : Type} [Zero φ] [Zero ι]

/-- `var hq_str_` -/
def varHqStr : CString := ['v', 'a', 'r', ' ', 'h', 'q', '_', 's', 't', 'r', '_']

/-- `var hq_str_sh601668="prop1,prop2,...";` and what else may follow the closing quote. -/
def hqLine (code : CString) (fs : List CString) (rest : CString) : CString :=
  varHqStr ++ (code ++ '=' :: '"' :: ([','].intercalate fs ++ '"' :: rest))

/-- The parts of a line as the server writes it: a code that is one word, and at least `n`
non-empty fields. -/
structure WellFormed (n : Nat) (code : CString) (fs : List CString) : Prop where
  code_ne_nil : code ≠ []
  code_chars : ∀ c ∈ code, isSpace c = false ∧ c ≠ '=' ∧ c ≠ '"'
  code_fits : code.length < stkCodeSz
  many : n ≤ fs.length
  field_ne_nil : ∀ f ∈ fs, f ≠ []
  field_chars : ∀ f ∈ fs, ',' ∉ f ∧ '"' ∉ f

variable {n : Nat} {code rest : CString} {fs : List CString}

theorem intercalate_chars (fs : List CString) (noQuote : ∀ f ∈ fs, '"' ∉ f) :
    '"' ∉ [','].intercalate fs := by
  induction fs with
  | nil => simp
  | cons f rest ih =>
    have first := noQuote f (List.mem_cons_self ..)
    have later := ih fun g member => noQuote g (List.mem_cons_of_mem _ member)
    cases rest with
    | nil => simpa using first
    | cons g rest =>
      rw [List.intercalate_cons_cons]
      simp only [List.mem_append, List.mem_singleton, not_or]
      exact ⟨⟨first, by decide⟩, later⟩

/-- The format takes a single word behind its literal part as the code. -/
theorem scanCode_word (nonempty : code ≠ []) (word : ∀ c ∈ code, isSpace c = false) :
    scanCode (varHqStr ++ code) = some code := by
  have literal : scanLiteral ['v', 'a', 'r'] (varHqStr ++ code) =
      some ([' ', 'h', 'q', '_', 's', 't', 'r', '_'] ++ code) := rfl
  have spaced : scanLiteral ['h', 'q', '_', 's', 't', 'r', '_']
      (([' ', 'h', 'q', '_', 's', 't', 'r', '_'] ++ code).dropWhile isSpace) = some code := rfl
  have whole : code.takeWhile (fun c => !isSpace c) = code := by
    rw [List.takeWhile_eq_self_iff]
    intro c member
    simp [word c member]
  cases code with
  | nil => exact absurd rfl nonempty
  | cons c tail =>
    have first := word c (List.mem_cons_self ..)
    have start : (c :: tail).dropWhile isSpace = c :: tail :=
      List.dropWhile_cons_of_neg (by simp [first])
    simp only [scanCode, literal, spaced, start, whole]

section Line

variable (formed : WellFormed n code fs) (rest : CString)

/-- The part of the line in front of the first quote. -/
def hqVariable (code : CString) : CString := (varHqStr ++ code) ++ ['=']

theorem hqLine_eq (code : CString) (fs : List CString) :
    hqLine code fs rest = hqVariable code ++ '"' :: ([','].intercalate fs ++ '"' :: rest) := by
  simp only [hqLine, hqVariable, List.append_assoc, List.singleton_append]

theorem hqLine_start (code : CString) (fs : List CString) :
    (hqLine code fs rest).dropWhile (· == '"') = hqLine code fs rest := by
  rfl

include formed

theorem code_plain : ∀ c ∈ varHqStr ++ code, c ≠ '=' ∧ c ≠ '"' := by
  have literal : ∀ c ∈ varHqStr, c ≠ '=' ∧ c ≠ '"' := by simp [varHqStr]
  intro c member
  rcases List.mem_append.mp member with first | inside
  · exact literal c first
  · exact (formed.code_chars c inside).2

theorem variable_plain : ∀ c ∈ hqVariable code, (c != '"') = true := by
  intro c member
  rcases List.mem_append.mp member with inside | last
  · simpa using (code_plain formed c inside).2
  · rw [List.mem_singleton.mp last]
    decide

theorem lineCode_hqLine : lineCode (hqLine code fs rest) = some code := by
  rw [lineCode, hqLine_start, hqLine_eq, takeWhile_stop _ (variable_plain formed) (by simp),
    hqVariable, takeWhile_stop _ (fun c member => by simpa using (code_plain formed c member).1)
      (by simp)]
  exact scanCode_word formed.code_ne_nil fun c member => (formed.code_chars c member).1

theorem quoted_hqLine : quoted (hqLine code fs rest) = [','].intercalate fs := by
  have value : ∀ c ∈ [','].intercalate fs, (c != '"') = true := by
    intro c member
    have noQuote := intercalate_chars fs fun f inside => (formed.field_chars f inside).2
    simpa using fun quote : c = '"' => noQuote (quote ▸ member)
  rw [quoted, behind, hqLine_start, hqLine_eq, dropWhile_stop _ (variable_plain formed) (by simp),
    List.tail_cons, takeWhile_stop _ value (by simp)]

theorem fields_hqLine (some_ : fs ≠ []) : fields (hqLine code fs rest) = fs := by
  rw [fields, quoted_hqLine formed]
  exact List.splitOn_intercalate ',' (fun f member => (formed.field_chars f member).1) some_

theorem filled_hqLine (some_ : fs ≠ []) : filled n (hqLine code fs rest) := by
  intro i below
  rw [fields_hqLine formed rest some_]
  have inside : i < fs.length := Nat.lt_of_lt_of_le below formed.many
  exact ⟨fs[i], List.getElem?_eq_getElem inside, formed.field_ne_nil _ (List.getElem_mem inside)⟩

end Line

theorem stockLine_hqLine (formed : WellFormed 32 code fs) (dates : datesFit fs) (rest : CString) :
    StockLine (hqLine code fs rest) := by
  have some_ : fs ≠ [] := List.ne_nil_of_length_pos (by have := formed.many; omega)
  refine ⟨?_, fun found code_eq => ?_⟩
  · rw [hasVariable, hqLine_start]
    exact List.cons_ne_nil _ _
  · rw [lineCode_hqLine formed] at code_eq
    cases code_eq
    refine ⟨formed.code_fits, filled_hqLine formed rest some_, ?_⟩
    rwa [fields_hqLine formed rest some_]

theorem sinajsStockDecode_hqLine (formed : WellFormed 32 code fs) (dates : datesFit fs)
    (rest : CString) (conv : Conv φ ι) (sjs : StkDat φ ι) :
    sinajsStockDecode conv (some (hqLine code fs rest)) sjs =
      .ok (0, StkDat.ofFields conv code fun i => fs.getD i []) := by
  have some_ : fs ≠ [] := List.ne_nil_of_length_pos (by have := formed.many; omega)
  rw [sinajsStockDecode_eq]
  obtain ⟨ts, decoded, same⟩ := decodeLine_of_stockLine
    (fun code fs => StkDat.ofFields conv code fun i => fs.getD i []) StkDat.zero
    (stockLine_hqLine formed dates rest) (lineCode_hqLine formed rest)
  rw [fields_hqLine formed rest some_] at same
  rw [decoded, StkDat.ofFields_congr same]

theorem sinajsDecode_hqLine (formed : WellFormed 32 code fs) (dates : datesFit fs)
    (rest : CString) (conv : Conv φ ι) (sj : Sinajs φ ι) :
    sinajsDecode conv (some (hqLine code fs rest)) sj =
      .ok (0, Sinajs.ofFields conv code fun i => fs.getD i []) := by
  have some_ : fs ≠ [] := List.ne_nil_of_length_pos (by have := formed.many; omega)
  rw [sinajsDecode_eq]
  obtain ⟨ts, decoded, same⟩ := decodeLine_of_stockLine
    (fun code fs => Sinajs.ofFields conv code fun i => fs.getD i []) Sinajs.zero
    (stockLine_hqLine formed dates rest) (lineCode_hqLine formed rest)
  rw [fields_hqLine formed rest some_] at same
  rw [decoded, Sinajs.ofFields_congr same]

/-- Both decoders store the fields of a line at their places, and what `sinajs_apply_data` shows
of the older record agrees with the newer one. -/
theorem decoders_agree (conv : Conv φ ι) (code : CString) (fs : List CString) (rest : CString)
    (formed : WellFormed 32 code fs) (dates : datesFit fs) (sjs : StkDat φ ι) (sj : Sinajs φ ι)
    (stocks : List (Option (Sinajs φ ι))) (i : Nat) :
    ∃ stock sinajs,
      sinajsStockDecode conv (some (hqLine code fs rest)) sjs = .ok (0, stock) ∧
      stock = StkDat.ofFields conv code (fun i => fs.getD i []) ∧
      sinajsDecode conv (some (hqLine code fs rest)) sj = .ok (0, sinajs) ∧
      sinajs = Sinajs.ofFields conv code (fun i => fs.getD i []) ∧
      (stocks[i]? = some (some sinajs) → ∃ shown,
        (sinajsApplyData stocks)[i]? = some (some shown) ∧ shown.common.name = stock.name ∧
        shown.common.price = stock.price ∧ shown.common.preClose = stock.preClose) := by
  refine ⟨_, _, sinajsStockDecode_hqLine formed dates rest conv sjs, rfl,
    sinajsDecode_hqLine formed dates rest conv sj, rfl, fun pulled => ?_⟩
  simp only [sinajsApplyData, List.getElem?_map, pulled, Option.map_some]
  exact ⟨_, rfl, rfl, rfl, rfl⟩

/-- A line with 32 fields `1`. -/
theorem decoders_agree_ones :
    ∃ (stock : StkDat Nat Nat) (sinajs : Sinajs Nat Nat),
      sinajsStockDecode ⟨List.length, List.length, List.length, id⟩
        (some (hqLine ['X'] (List.replicate 32 ['1']) [';'])) StkDat.zero = .ok (0, stock) ∧
      sinajsDecode ⟨List.length, List.length, List.length, id⟩
        (some (hqLine ['X'] (List.replicate 32 ['1']) [';'])) Sinajs.zero = .ok (0, sinajs) ∧
      stock.name = ['1'] ∧ sinajs.common.name = ['1'] ∧ stock.ap = sinajs.ap := by
  obtain ⟨stock, sinajs, decoded, stored, decodedOld, storedOld, _⟩ := decoders_agree
    ⟨List.length, List.length, List.length, id⟩ ['X'] (List.replicate 32 ['1']) [';']
    ⟨by decide, by simp [isSpace], by decide, by decide, by decide, by decide⟩
    ⟨by decide, by decide⟩
    (StkDat.zero : StkDat Nat Nat) (Sinajs.zero : Sinajs Nat Nat) [] 0
  exact ⟨stock, sinajs, decoded, decodedOld, by rw [stored]; rfl, by rw [storedOld]; rfl,
    by rw [stored, storedOld]; rfl⟩

end Ct.Geye
