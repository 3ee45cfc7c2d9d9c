import Ct.Geye.SinajsAgree
import Mathlib.Tactic.IntervalCases

set_option autoImplicit false

namespace Ct.Geye

open Ct.Lib

variable {φ ι : Type} [Zero φ] [Zero ι]

/-- The index record of a line whose value has the fields `f 0`, `f 1`, and so on. -/
def IdxDat.ofFields (conv : Conv φ ι) (code : CString) (f : Nat → CString) : IdxDat φ ι where
  code := code
  name := conv.convertCharset (f 0)
  index := conv.atof (f 1)
  diff := conv.atof (f 2)
  roc := conv.atof (f 3)
  volume := conv.atol (f 4)
  amount := conv.atol (f 5)

/-- What `sinajs_index_decode` stores of the tokens it finds: a missing one leaves a zero. -/
def indexRecord (conv : Conv φ ι) (code : CString) (ts : List CString) : IdxDat φ ι where
  code := code
  name := conv.convertCharset (ts.getD 0 [])
  index := (ts[1]?.map conv.atof).getD 0
  diff := (ts[2]?.map conv.atof).getD 0
  roc := (ts[3]?.map conv.atof).getD 0
  volume := (ts[4]?.map conv.atol).getD 0
  amount := (ts[5]?.map conv.atol).getD 0

theorem cstrToken_spec {β : Type} (func : CString → β) (var : β) (sptr2 : CString) :
    ∃ rest, cstrToken func var sptr2 = .ok (((tokens ',' sptr2).head?.map func).getD var, rest) ∧
      tokens ',' rest = (tokens ',' sptr2).tail := by
  unfold cstrToken
  rcases nextToken_cases ',' sptr2 with ⟨missed, none⟩ | ⟨token, rest, found, split⟩
  · refine ⟨[], ?_, by rw [none, tokens_nil]; rfl⟩
    simp only [strtokR, missed, none]
    rfl
  · refine ⟨rest, ?_, by rw [split]; rfl⟩
    simp only [strtokR, found, split]
    rfl

theorem indexProps_spec (conv : Conv φ ι) (code name sptr2 : CString) :
    ∃ rest, indexProps conv
        { IdxDat.zero with code := code, name := conv.convertCharset name } sptr2 =
      .ok (indexRecord conv code (name :: tokens ',' sptr2), rest) := by
  obtain ⟨rest1, index, left1⟩ := cstrToken_spec conv.atof (0 : φ) sptr2
  obtain ⟨rest2, diff, left2⟩ := cstrToken_spec conv.atof (0 : φ) rest1
  obtain ⟨rest3, roc, left3⟩ := cstrToken_spec conv.atof (0 : φ) rest2
  obtain ⟨rest4, volume, left4⟩ := cstrToken_spec conv.atol (0 : ι) rest3
  obtain ⟨rest5, amount, _⟩ := cstrToken_spec conv.atol (0 : ι) rest4
  rw [left1] at diff
  rw [left2, left1] at roc
  rw [left3, left2, left1] at volume
  rw [left4, left3, left2, left1] at amount
  refine ⟨rest5, ?_⟩
  simp only [indexProps, IdxDat.zero, bind, StateT.bind, Except.bind, index, diff, roc, volume,
    amount, pure_step, indexRecord]
  simp only [List.head?_eq_getElem?, List.getElem?_tail]
  rfl

/-- The lines on which `sinajs_index_decode` does what it is for. -/
def IndexLine (line : CString) : Prop :=
  hasVariable line ∧ ∀ code, lineCode line = some code →
    code.length < stkCodeSz ∧ filled 6 line

theorem sinajsIndexDecode_cases (conv : Conv φ ι) (line : CString) (index : IdxDat φ ι) :
    (sinajsIndexDecode conv (some line) index = .ok (-1, IdxDat.zero) ∧ hasVariable line ∧
      lineCode line = none) ∨
    (∃ code ts, sinajsIndexDecode conv (some line) index = .ok (0, indexRecord conv code ts) ∧
      hasVariable line ∧ lineCode line = some code ∧ code.length < stkCodeSz ∧
      (∀ t ∈ ts, t ≠ []) ∧ ts ≠ [] ∧ (quoted line ≠ [] → ts = tokens ',' (quoted line))) ∨
    ∃ fault, sinajsIndexDecode conv (some line) index = .error fault ∧ ¬ IndexLine line := by
  simp only [sinajsIndexDecode]
  rcases decodeVariable_cases line with
    ⟨failed, noVariable⟩ | ⟨noCode, variable_, code_eq⟩ |
    ⟨code, decoded, variable_, code_eq, short⟩ | ⟨code, failed, code_eq, long⟩
  · rw [failed]
    exact Or.inr (Or.inr ⟨_, rfl, fun good => noVariable good.1⟩)
  · rw [noCode]
    exact Or.inl ⟨rfl, variable_, code_eq⟩
  · rw [decoded]
    dsimp only
    rcases decodeName_cases (behind line) with
      ⟨fault, failed, none⟩ | ⟨name, sptr2, named, nonempty, split⟩
    · rw [failed]
      refine Or.inr (Or.inr ⟨fault, rfl, fun good => ?_⟩)
      have enough := filled_length (good.2 code code_eq).2
      rw [quoted, none] at enough
      cases enough
    · rw [named]
      dsimp only
      obtain ⟨rest, read⟩ := indexProps_spec conv code name sptr2
      rw [read]
      refine Or.inr (Or.inl ⟨code, name :: tokens ',' sptr2, rfl, variable_, code_eq, short, ?_,
        List.cons_ne_nil _ _, fun value => (split.resolve_right value).symm⟩)
      intro t member
      rcases List.mem_cons.mp member with rfl | later
      · exact nonempty
      · exact tokens_ne_nil later
  · rw [failed]
    exact Or.inr (Or.inr ⟨_, rfl, fun good => long (good.2 code code_eq).1⟩)

/-- `sinajs_stock_decode` returns a negative value, or every field is the conversion of its own
position of the quoted value, whatever the conversions are. -/
def StockTotal (line : CString) : Prop :=
  ∀ (φ ι : Type) [Zero φ] [Zero ι] (conv : Conv φ ι) (sjs : StkDat φ ι), ∃ rc out,
    sinajsStockDecode conv (some line) sjs = .ok (rc, out) ∧
    (rc < 0 ∨ rc = 0 ∧ 32 ≤ (fields line).length ∧
      out = StkDat.ofFields conv out.code fun i => (fields line).getD i [])

/-- The same of `sinajs_index_decode`. -/
def IndexTotal (line : CString) : Prop :=
  ∀ (φ ι : Type) [Zero φ] [Zero ι] (conv : Conv φ ι) (index : IdxDat φ ι), ∃ rc out,
    sinajsIndexDecode conv (some line) index = .ok (rc, out) ∧
    (rc < 0 ∨ rc = 0 ∧ 6 ≤ (fields line).length ∧
      out = IdxDat.ofFields conv out.code fun i => (fields line).getD i [])

/-- Conversions that keep the text, so that a record shows where its fields come from; a float or
an integer that was never stored shows as `none`. -/
def textConv : Conv (Option CString) (Option CString) := ⟨some, some, some, id⟩

local instance : Zero (Option CString) := ⟨none⟩

theorem StkDat.ofFields_injective {code other : CString} {f g : Nat → CString}
    (same : StkDat.ofFields textConv code f = StkDat.ofFields textConv other g) {i : Nat}
    (below : i < 32) : f i = g i := by
  simp only [StkDat.ofFields, textConv, map_range_five, StkDat.mk.injEq, List.cons.injEq, id,
    Option.some.injEq, Nat.reduceMul, Nat.reduceAdd] at same
  interval_cases i <;> simp only [same]

theorem getElem?_eq_getD {fs : List CString} {i : Nat} (inside : i < fs.length) :
    fs[i]? = some (fs.getD i []) := by
  rw [List.getD_eq_getElem?_getD, List.getElem?_eq_getElem inside, Option.getD_some]

theorem stockTotal_iff (line : CString) : StockTotal line ↔ StockLine line := by
  constructor
  · intro total
    obtain ⟨rc, out, decoded, result⟩ :=
      total (Option CString) (Option CString) textConv StkDat.zero
    rw [sinajsStockDecode_eq] at decoded
    rcases decodeLine_cases (fun code fs => StkDat.ofFields textConv code fun i => fs.getD i [])
        StkDat.zero line with
      ⟨_, variable_, none⟩ | ⟨code, ts, stored, variable_, code_eq, short, length, nonempty, fit, _⟩ |
      ⟨fault, failed, _⟩
    · refine ⟨variable_, fun code code_eq => ?_⟩
      rw [none] at code_eq
      cases code_eq
    · rw [stored] at decoded
      cases decoded
      obtain ⟨_, enough, same⟩ := result.resolve_left (by decide)
      have position : ∀ i, i < 32 → ts.getD i [] = (fields line).getD i [] :=
        fun i below => StkDat.ofFields_injective same below
      have here : ∀ i, i < 32 → ts[i]? = (fields line)[i]? := by
        intro i below
        rw [getElem?_eq_getD (by omega), getElem?_eq_getD (by omega), position i below]
      refine ⟨variable_, fun other other_eq => ?_⟩
      rw [code_eq] at other_eq
      cases other_eq
      refine ⟨short, fun i below => ?_, (datesFit_congr here).mp fit⟩
      rw [← here i below]
      have inside : i < ts.length := by omega
      exact ⟨ts[i], List.getElem?_eq_getElem inside, nonempty _ (List.getElem_mem inside)⟩
    · rw [failed] at decoded
      cases decoded
  · intro good φ ι _ _ conv sjs
    rw [sinajsStockDecode_eq]
    cases code_eq : lineCode line with
    | none =>
      rcases decodeLine_cases (fun code fs => StkDat.ofFields conv code fun i => fs.getD i [])
          StkDat.zero line with ⟨decoded, _⟩ | ⟨code, _, _, _, found, _⟩ | ⟨_, _, bad⟩
      · exact ⟨-1, _, decoded, Or.inl (by decide)⟩
      · rw [code_eq] at found
        cases found
      · exact absurd good bad
    | some code =>
      obtain ⟨ts, decoded, same⟩ := decodeLine_of_stockLine
        (fun code fs => StkDat.ofFields conv code fun i => fs.getD i []) StkDat.zero good code_eq
      refine ⟨0, _, decoded, Or.inr ⟨rfl, ?_, StkDat.ofFields_congr same⟩⟩
      obtain ⟨field, last, _⟩ := (good.2 code code_eq).2.1 31 (by decide)
      exact (List.getElem?_eq_some_iff.mp last).1

theorem indexRecord_of_fields {conv : Conv φ ι} {code : CString} {ts fs : List CString}
    (same : ∀ i, i < 6 → ts[i]? = some (fs.getD i [])) :
    indexRecord conv code ts = IdxDat.ofFields conv code fun i => fs.getD i [] := by
  have name : ts.getD 0 [] = fs.getD 0 [] := by
    rw [List.getD_eq_getElem?_getD, same 0 (by decide), Option.getD_some]
  simp (disch := decide) only [indexRecord, IdxDat.ofFields, name, same, Option.map_some,
    Option.getD_some]

theorem stored_text {token : Option CString} {text : CString}
    (stored : (token.map some).getD (0 : Option CString) = some text) : token = some text := by
  cases token with
  | none => cases stored
  | some found => exact stored

theorem fields_of_indexRecord {code other : CString} {ts fs : List CString} (nonempty : ts ≠ [])
    (same : indexRecord textConv code ts =
      IdxDat.ofFields textConv other fun i => fs.getD i []) {i : Nat} (below : i < 6) :
    ts[i]? = some (fs.getD i []) := by
  simp only [indexRecord, IdxDat.ofFields, textConv, IdxDat.mk.injEq, id] at same
  obtain ⟨_, name, index, diff, roc, volume, amount⟩ := same
  have first : ts[0]? = some (fs.getD 0 []) := by
    rw [← name]
    exact getElem?_eq_getD (List.length_pos_iff.mpr nonempty)
  interval_cases i
  · exact first
  · exact stored_text index
  · exact stored_text diff
  · exact stored_text roc
  · exact stored_text volume
  · exact stored_text amount

theorem indexTotal_iff (line : CString) : IndexTotal line ↔ IndexLine line := by
  constructor
  · intro total
    obtain ⟨rc, out, decoded, result⟩ :=
      total (Option CString) (Option CString) textConv IdxDat.zero
    rcases sinajsIndexDecode_cases textConv line IdxDat.zero with
      ⟨_, variable_, none⟩ | ⟨code, ts, stored, variable_, code_eq, short, nonempty, some_, _⟩ |
      ⟨fault, failed, _⟩
    · refine ⟨variable_, fun code code_eq => ?_⟩
      rw [none] at code_eq
      cases code_eq
    · rw [stored] at decoded
      cases decoded
      obtain ⟨_, enough, same⟩ := result.resolve_left (by decide)
      refine ⟨variable_, fun other other_eq => ?_⟩
      rw [code_eq] at other_eq
      cases other_eq
      refine ⟨short, fun i below => ?_⟩
      have here := fields_of_indexRecord some_ same below
      refine ⟨_, getElem?_eq_getD (by omega), nonempty _ (List.mem_of_getElem? here)⟩
    · rw [failed] at decoded
      cases decoded
  · intro good φ ι _ _ conv index
    rcases sinajsIndexDecode_cases conv line index with
      ⟨decoded, _⟩ | ⟨code, ts, decoded, _, code_eq, _, _, _, value⟩ | ⟨_, _, bad⟩
    · exact ⟨-1, _, decoded, Or.inl (by decide)⟩
    · have full := (good.2 code code_eq).2
      have enough : 6 ≤ (fields line).length := by
        obtain ⟨field, last, _⟩ := full 5 (by decide)
        exact (List.getElem?_eq_some_iff.mp last).1
      refine ⟨0, _, decoded, Or.inr ⟨rfl, enough, indexRecord_of_fields fun i below => ?_⟩⟩
      rw [value (filled_quoted full), filled_tokens full below]
      exact getElem?_eq_getD (by omega)
    · exact absurd good bad

/-- Exactly on these lines each decoder is total: on every other one it uses a token that is not
there, continues from an unset `saveptr`, writes past an array, or stores a shifted field. -/
theorem decoders_total_iff (line : CString) :
    (StockTotal line ↔ StockLine line) ∧ (IndexTotal line ↔ IndexLine line) :=
  ⟨stockTotal_iff line, indexTotal_iff line⟩

/-- `var hq_str_X="";`: the stock decoder uses the second token although the value has none, the
index decoder takes the `;` behind the quotes for the name. -/
theorem empty_value_not_total :
    sinajsStockDecode textConv (some (hqLine ['X'] [] [';'])) StkDat.zero = .error .nullDeref ∧
    ¬ StockTotal (hqLine ['X'] [] [';']) ∧
    (∃ out, sinajsIndexDecode textConv (some (hqLine ['X'] [] [';'])) IdxDat.zero = .ok (0, out) ∧
      out.name = [';']) ∧
    ¬ IndexTotal (hqLine ['X'] [] [';']) := by
  have failed : sinajsStockDecode textConv (some (hqLine ['X'] [] [';'])) StkDat.zero =
      .error .nullDeref := by rfl
  refine ⟨failed, fun total => ?_, ⟨_, by rfl, by rfl⟩, fun total => ?_⟩
  · obtain ⟨rc, out, decoded, _⟩ := total (Option CString) (Option CString) textConv StkDat.zero
    rw [failed] at decoded
    cases decoded
  · have filled_ := ((indexTotal_iff _).mp total).2 ['X'] (by rfl)
    obtain ⟨field, first, nonempty⟩ := filled_.2 0 (by decide)
    have value : (fields (hqLine ['X'] [] [';']))[0]? = some [] := by rfl
    rw [value] at first
    cases first
    exact nonempty rfl

end Ct.Geye
