import Ct.Geye.Sinajs

set_option autoImplicit false

namespace Ct.Geye

open Ct.Lib

variable {φ ι : Type} [Zero φ] [Zero ι]

/-- The record of a line whose value has the fields `f 0`, `f 1`, and so on. -/
def StkDat.ofFields (conv : Conv φ ι) (code : CString) (f : Nat → CString) : StkDat φ ι where
  exchange := []
  code := code
  name := conv.convertCharset (f 0)
  open_ := conv.atof (f 1)
  preClose := conv.atof (f 2)
  price := conv.atof (f 3)
  high := conv.atof (f 4)
  low := conv.atof (f 5)
  bid := conv.atof (f 6)
  ask := conv.atof (f 7)
  volume := conv.atol (f 8)
  amount := conv.atol (f 9)
  bv := (List.range 5).map fun i => conv.atoi (f (10 + 2 * i))
  bp := (List.range 5).map fun i => conv.atof (f (11 + 2 * i))
  av := (List.range 5).map fun i => conv.atoi (f (20 + 2 * i))
  ap := (List.range 5).map fun i => conv.atof (f (21 + 2 * i))
  date := f 30
  time := f 31

def Sinajs.ofFields (conv : Conv φ ι) (code : CString) (f : Nat → CString) : Sinajs φ ι where
  common := { StkDat.zero with name := conv.convertCharset (f 0) }
  code := code
  open_ := conv.atof (f 1)
  preClose := conv.atof (f 2)
  price := conv.atof (f 3)
  high := conv.atof (f 4)
  low := conv.atof (f 5)
  bid := conv.atof (f 6)
  ask := conv.atof (f 7)
  volume := conv.atol (f 8)
  amount := conv.atol (f 9)
  bv := (List.range 5).map fun i => conv.atoi (f (10 + 2 * i))
  bp := (List.range 5).map fun i => conv.atof (f (11 + 2 * i))
  av := (List.range 5).map fun i => conv.atoi (f (20 + 2 * i))
  ap := (List.range 5).map fun i => conv.atof (f (21 + 2 * i))
  date := f 30
  time := f 31

/-- The tokens both stock decoders read behind the name, as far as they can be stored. -/
def readProps : StateT CString (Except Fault) (List CString) := do
  let fs ← takeTokens ',' 30
  let _ ← strcpy stkDataSz (fs.getD 29 [])
  let last ← nextField
  let _ ← strcpy stkTimeSz last
  pure (fs ++ [last])

theorem strcpy_bind {β : Type} (size : Nat) (token : CString)
    (next : CString → StateT CString (Except Fault) β) :
    strcpy size token >>= next = strcpy size token >>= fun _ => next token := by
  unfold strcpy
  split
  · rfl
  · rfl

theorem stockProps_eq (conv : Conv φ ι) (code name : CString) :
    stockProps conv { StkDat.zero with code := code, name := conv.convertCharset name } = (do
      let fs ← readProps
      pure (StkDat.ofFields conv code fun i => (name :: fs).getD i [])) := by
  simp only [stockProps, stockBids, stockAsks, readProps, takeTokens, bind_assoc, pure_bind,
    strcpy_bind]
  rfl

theorem sinajsProps_eq (conv : Conv φ ι) (code name : CString) :
    sinajsProps conv
        { Sinajs.zero with
          common := { StkDat.zero with name := conv.convertCharset name }
          code := code } = (do
      let fs ← readProps
      pure (Sinajs.ofFields conv code fun i => (name :: fs).getD i [])) := by
  simp only [sinajsProps, sinajsBids, sinajsAsks, readProps, takeTokens, bind_assoc, pure_bind,
    strcpy_bind]
  rfl

/-- What both stock decoders do with a line, up to where the fields are stored. -/
def decodeLine {ρ : Type} (record : CString → List CString → ρ) (zero : ρ) (line : CString) :
    Except Fault (Int × ρ) :=
  match decodeVariable line with
  | .error fault => .error fault
  | .ok none => .ok (-1, zero)
  | .ok (some (code, sptr1)) =>
    match decodeName sptr1 with
    | .error fault => .error fault
    | .ok (name, sptr2) =>
      match readProps sptr2 with
      | .error fault => .error fault
      | .ok (fs, _) => .ok (0, record code (name :: fs))

theorem sinajsStockDecode_eq (conv : Conv φ ι) (line : CString) (sjs : StkDat φ ι) :
    sinajsStockDecode conv (some line) sjs =
      decodeLine (fun code fs => StkDat.ofFields conv code fun i => fs.getD i []) StkDat.zero
        line := by
  simp only [sinajsStockDecode, decodeLine, stockProps_eq, bind, StateT.bind, pure_step, Except.bind]
  rcases decodeVariable line with fault | found
  · rfl
  · rcases found with _ | ⟨code, sptr1⟩
    · rfl
    · dsimp only
      rcases decodeName sptr1 with fault | ⟨name, sptr2⟩
      · rfl
      · dsimp only
        cases readProps sptr2 with
        | error fault => rfl
        | ok fs => rfl

theorem sinajsDecode_eq (conv : Conv φ ι) (line : CString) (sj : Sinajs φ ι) :
    sinajsDecode conv (some line) sj =
      decodeLine (fun code fs => Sinajs.ofFields conv code fun i => fs.getD i []) Sinajs.zero
        line := by
  simp only [sinajsDecode, decodeLine, sinajsProps_eq, bind, StateT.bind, pure_step, Except.bind]
  rcases decodeVariable line with fault | found
  · rfl
  · rcases found with _ | ⟨code, sptr1⟩
    · rfl
    · dsimp only
      rcases decodeName sptr1 with fault | ⟨name, sptr2⟩
      · rfl
      · dsimp only
        cases readProps sptr2 with
        | error fault => rfl
        | ok fs => rfl

/-- The line has a part in front of its first quote that `strtok_r` can deliver. -/
def hasVariable (line : CString) : Prop := line.dropWhile (· == '"') ≠ []

/-- The code in that part, if it is one the decoders accept. -/
def lineCode (line : CString) : Option CString :=
  scanCode (((line.dropWhile (· == '"')).takeWhile (· != '"')).takeWhile (· != '='))

/-- The text behind the quote that ends that part. -/
def behind (line : CString) : CString :=
  ((line.dropWhile (· == '"')).dropWhile (· != '"')).tail

/-- The quoted value, and its comma-separated positions. -/
def quoted (line : CString) : CString := (behind line).takeWhile (· != '"')

def fields (line : CString) : List CString := (quoted line).splitOn ','

theorem decodeVariable_cases (line : CString) :
    (decodeVariable line = .error .nullDeref ∧ ¬ hasVariable line) ∨
    (decodeVariable line = .ok none ∧ hasVariable line ∧ lineCode line = none) ∨
    (∃ code, decodeVariable line = .ok (some (code, behind line)) ∧ hasVariable line ∧
      lineCode line = some code ∧ code.length < stkCodeSz) ∨
    ∃ code, decodeVariable line = .error .outOfBounds ∧ lineCode line = some code ∧
      ¬ code.length < stkCodeSz := by
  unfold decodeVariable nextToken hasVariable lineCode behind
  cases start : line.dropWhile (· == '"') with
  | nil => exact Or.inl ⟨rfl, fun nonempty => nonempty rfl⟩
  | cons c rest =>
    dsimp only
    cases scan : scanCode (((c :: rest).takeWhile (· != '"')).takeWhile (· != '=')) with
    | none => exact Or.inr (Or.inl ⟨rfl, List.cons_ne_nil c rest, rfl⟩)
    | some code =>
      by_cases short : code.length < stkCodeSz
      · refine Or.inr (Or.inr (Or.inl ⟨code, ?_, List.cons_ne_nil c rest, rfl, short⟩))
        simp only [short, ↓reduceIte]
      · refine Or.inr (Or.inr (Or.inr ⟨code, ?_, rfl, short⟩))
        simp only [short, ↓reduceIte]

/-- The first token of the value, where there is one. A value that is empty between its quotes
makes `strtok_r` look behind them. -/
theorem decodeName_cases (sptr1 : CString) :
    (∃ fault, decodeName sptr1 = .error fault ∧
      tokens ',' (sptr1.takeWhile (· != '"')) = []) ∨
    ∃ name sptr2, decodeName sptr1 = .ok (name, sptr2) ∧ name ≠ [] ∧
      (tokens ',' (sptr1.takeWhile (· != '"')) = name :: tokens ',' sptr2 ∨
        sptr1.takeWhile (· != '"') = []) := by
  unfold decodeName
  rcases nextToken_cases '"' sptr1 with ⟨missed, _⟩ | ⟨value, rest, found, _⟩
  · -- `sptr2` is not set when it is used
    refine Or.inl ⟨.uninitialised, by simp only [strtokR, missed], ?_⟩
    have none : sptr1.dropWhile (· == '"') = [] := by
      unfold nextToken at missed
      cases start : sptr1.dropWhile (· == '"') with
      | nil => rfl
      | cons c rest =>
        rw [start] at missed
        cases missed
    cases sptr1 with
    | nil => exact tokens_nil
    | cons c rest =>
      have quote : c = '"' := by simpa using List.dropWhile_eq_nil_iff.mp none c (by simp)
      simp [quote, tokens_nil]
  · have same : sptr1.takeWhile (· != '"') = value ∨ sptr1.takeWhile (· != '"') = [] := by
      cases sptr1 with
      | nil => exact Or.inr rfl
      | cons c tail =>
        by_cases quote : c = '"'
        · exact Or.inr (by simp [quote])
        · refine Or.inl ?_
          have plain : (c :: tail).dropWhile (· == '"') = c :: tail := by simp [quote]
          rw [nextToken, plain] at found
          cases found
          rfl
    simp only [strtokR, found]
    rcases nextToken_cases ',' value with ⟨missed, none⟩ | ⟨name, sptr2, first, split⟩
    · refine Or.inl ⟨.nullDeref, by simp only [missed], ?_⟩
      rcases same with same | same
      · rw [same, none]
      · rw [same, tokens_nil]
    · refine Or.inr ⟨name, sptr2, by simp only [first], ?_, ?_⟩
      · exact tokens_ne_nil (split ▸ List.mem_cons_self ..)
      · refine same.imp (fun same => ?_) id
        rw [same, split]

theorem strcpy_of_short {size : Nat} {token : CString} (saved : CString) (short : token.length < size) :
    strcpy size token saved = .ok (token, saved) := by
  simp only [strcpy, short, ↓reduceIte]
  rfl

theorem strcpy_of_long {size : Nat} {token : CString} (saved : CString) (long : ¬ token.length < size) :
    strcpy size token saved = .error .outOfBounds := by
  simp only [strcpy, long, ↓reduceIte]
  rfl

/-- The date and the time fit the arrays they are copied to. -/
def datesFit (fs : List CString) : Prop :=
  (fs.getD 30 []).length < stkDataSz ∧ (fs.getD 31 []).length < stkTimeSz

theorem datesFit_congr {fs gs : List CString} (same : ∀ i, i < 32 → fs[i]? = gs[i]?) :
    datesFit fs ↔ datesFit gs := by
  simp only [datesFit, List.getD_eq_getElem?_getD, same 30 (by decide), same 31 (by decide)]

/-- A date or time that is missing fits. -/
theorem datesFit_of_few {fs : List CString} (few : fs.length ≤ 30) : datesFit fs := by
  have date : fs[30]? = none := List.getElem?_eq_none few
  have time : fs[31]? = none := List.getElem?_eq_none (by omega)
  rw [datesFit, List.getD_eq_getElem?_getD, List.getD_eq_getElem?_getD, date, time]
  decide

theorem readProps_cases (name saved : CString) :
    (∃ rest, readProps saved = .ok ((tokens ',' saved).take 31, rest) ∧
      31 ≤ (tokens ',' saved).length ∧ datesFit (name :: tokens ',' saved)) ∨
    ∃ fault, readProps saved = .error fault ∧
      ¬ (31 ≤ (tokens ',' saved).length ∧ datesFit (name :: tokens ',' saved)) ∧
      (fault = .outOfBounds ↔ ¬ datesFit (name :: tokens ',' saved)) := by
  rcases takeTokens_cases ',' 30 saved with
    ⟨rest, read, enough, left⟩ | ⟨failed, few⟩
  · have date : ((tokens ',' saved).take 30).getD 29 [] = (tokens ',' saved).getD 29 [] := by
      simp only [List.getD_eq_getElem?_getD, List.getElem?_take]
      rfl
    by_cases short : ((tokens ',' saved).getD 29 []).length < stkDataSz
    · have stored := strcpy_of_short rest short
      rcases nextToken_cases ',' rest with ⟨missed, none⟩ | ⟨last, rest', found, split⟩
      · rw [none] at left
        have none_left := List.drop_eq_nil_iff.mp left.symm
        have absent : (tokens ',' saved).getD 30 [] = [] := by
          rw [List.getD_eq_getElem?_getD, List.getElem?_eq_none none_left]
          rfl
        have fit : datesFit (name :: tokens ',' saved) := by
          refine ⟨short, ?_⟩
          change ((tokens ',' saved).getD 30 []).length < stkTimeSz
          rw [absent]
          decide
        refine Or.inr ⟨.nullDeref, ?_, fun fits => by omega, ?_⟩
        · simp only [readProps, bind, StateT.bind, read, Except.bind, date, stored, takeToken,
            missed]
        · simp only [fit, not_true_eq_false, reduceCtorEq]
      · rw [split] at left
        have here : (tokens ',' saved)[30]? = some last := by
          rw [← List.head?_drop, ← left]
          rfl
        have time : (tokens ',' saved).getD 30 [] = last := by
          rw [List.getD_eq_getElem?_getD, here]
          rfl
        have more : 31 ≤ (tokens ',' saved).length := (List.getElem?_eq_some_iff.mp here).1
        by_cases fits : last.length < stkTimeSz
        · refine Or.inl ⟨rest', ?_, more, short, time ▸ fits⟩
          have storedTime := strcpy_of_short rest' fits
          rw [List.take_add_one, here]
          simp only [readProps, bind, StateT.bind, read, Except.bind, date, stored, takeToken,
            found, storedTime]
          rfl
        · have unfit : ¬ datesFit (name :: tokens ',' saved) := fun all => fits (time ▸ all.2)
          refine Or.inr ⟨.outOfBounds, ?_, fun all => unfit all.2, iff_of_true rfl unfit⟩
          have storedTime := strcpy_of_long rest' fits
          simp only [readProps, bind, StateT.bind, read, Except.bind, date, stored, takeToken,
            found, storedTime]
    · have unfit : ¬ datesFit (name :: tokens ',' saved) := fun all => short all.1
      refine Or.inr ⟨.outOfBounds, ?_, fun all => unfit all.2, iff_of_true rfl unfit⟩
      have stored := strcpy_of_long rest short
      simp only [readProps, bind, StateT.bind, read, Except.bind, date, stored]
  · have fit : datesFit (name :: tokens ',' saved) := datesFit_of_few (Nat.succ_le_of_lt few)
    refine Or.inr ⟨.nullDeref, ?_, fun fits => by omega, ?_⟩
    · simp only [readProps, bind, StateT.bind, failed, Except.bind]
    · simp only [fit, not_true_eq_false, reduceCtorEq]

/-- The first `n` positions of the value exist and are not empty. -/
def filled (n : Nat) (line : CString) : Prop :=
  ∀ i, i < n → ∃ field, (fields line)[i]? = some field ∧ field ≠ []

theorem filled_tokens {n : Nat} {line : CString} (full : filled n line) {i : Nat} (below : i < n) :
    (tokens ',' (quoted line))[i]? = (fields line)[i]? :=
  tokens_getElem? full below

theorem filled_length {n : Nat} {line : CString} (full : filled n line) :
    n ≤ (tokens ',' (quoted line)).length := by
  by_cases positive : 0 < n
  · obtain ⟨field, here, _⟩ := full (n - 1) (by omega)
    rw [← filled_tokens full (by omega)] at here
    have below := (List.getElem?_eq_some_iff.mp here).1
    omega
  · omega

theorem filled_quoted {n : Nat} {line : CString} (full : filled (n + 1) line) :
    quoted line ≠ [] := by
  intro empty
  have enough := filled_length full
  rw [empty, tokens_nil] at enough
  cases enough

/-- The lines on which the stock decoders do what they are for. -/
def StockLine (line : CString) : Prop :=
  hasVariable line ∧ ∀ code, lineCode line = some code →
    code.length < stkCodeSz ∧ filled 32 line ∧ datesFit (fields line)

theorem decodeLine_cases {ρ : Type} (record : CString → List CString → ρ) (zero : ρ)
    (line : CString) :
    (decodeLine record zero line = .ok (-1, zero) ∧ hasVariable line ∧ lineCode line = none) ∨
    (∃ code ts, decodeLine record zero line = .ok (0, record code ts) ∧ hasVariable line ∧
      lineCode line = some code ∧ code.length < stkCodeSz ∧ ts.length = 32 ∧
      (∀ t ∈ ts, t ≠ []) ∧ datesFit ts ∧
      (quoted line ≠ [] → ts = (tokens ',' (quoted line)).take 32)) ∨
    ∃ fault, decodeLine record zero line = .error fault ∧ ¬ StockLine line := by
  unfold decodeLine
  rcases decodeVariable_cases line with
    ⟨failed, noVariable⟩ | ⟨noCode, variable_, code_eq⟩ |
    ⟨code, decoded, variable_, code_eq, short⟩ | ⟨code, failed, code_eq, long⟩
  · rw [failed]
    exact Or.inr (Or.inr ⟨_, rfl, fun good => noVariable good.1⟩)
  · rw [noCode]
    exact Or.inl ⟨rfl, variable_, code_eq⟩
  · rw [decoded]
    dsimp only
    rcases decodeName_cases (behind line) with
      ⟨fault, failed, none⟩ | ⟨name, sptr2, named, nonempty, split⟩
    · rw [failed]
      refine Or.inr (Or.inr ⟨fault, rfl, fun good => ?_⟩)
      have enough := filled_length (good.2 code code_eq).2.1
      rw [quoted, none] at enough
      cases enough
    · rw [named]
      dsimp only
      rcases readProps_cases name sptr2 with ⟨rest, read, enough, fit⟩ | ⟨fault, failed, unfit, _⟩
      · rw [read]
        refine Or.inr (Or.inl ⟨code, name :: (tokens ',' sptr2).take 31, rfl, variable_, code_eq,
          short, ?_, ?_, ?_, ?_⟩)
        · simp only [List.length_cons, List.length_take]
          omega
        · intro t member
          rcases List.mem_cons.mp member with rfl | later
          · exact nonempty
          · exact tokens_ne_nil (List.mem_of_mem_take later)
        · refine (datesFit_congr fun i below => ?_).mp fit
          cases i with
          | zero => rfl
          | succ i =>
            simp only [List.getElem?_cons_succ]
            rw [List.getElem?_take_of_lt (Nat.lt_of_succ_lt_succ below)]
        · intro value
          rw [quoted] at value ⊢
          rw [split.resolve_right value]
          rfl
      · rw [failed]
        refine Or.inr (Or.inr ⟨fault, rfl, fun good => unfit ?_⟩)
        obtain ⟨_, full, fit⟩ := good.2 code code_eq
        have enough := filled_length full
        have value : tokens ',' (quoted line) = name :: tokens ',' sptr2 :=
          split.resolve_right (filled_quoted full)
        rw [value] at enough
        refine ⟨Nat.le_of_succ_le_succ enough, ?_⟩
        rw [← value]
        exact (datesFit_congr fun i below => filled_tokens full below).mpr fit
  · rw [failed]
    refine Or.inr (Or.inr ⟨_, rfl, fun good => long (good.2 code code_eq).1⟩)

/-- On such a line the decoders store the fields of the value. -/
theorem decodeLine_of_stockLine {ρ : Type} (record : CString → List CString → ρ) (zero : ρ)
    {line code : CString} (good : StockLine line) (code_eq : lineCode line = some code) :
    ∃ ts, decodeLine record zero line = .ok (0, record code ts) ∧
      ∀ i, i < 32 → ts.getD i [] = (fields line).getD i [] := by
  obtain ⟨_, full, _⟩ := good.2 code code_eq
  rcases decodeLine_cases record zero line with
    ⟨_, _, none⟩ | ⟨found, ts, decoded, _, found_eq, _, _, _, _, value⟩ | ⟨_, _, bad⟩
  · rw [code_eq] at none
    cases none
  · rw [code_eq] at found_eq
    cases found_eq
    refine ⟨ts, decoded, fun i below => ?_⟩
    rw [value (filled_quoted full), List.getD_eq_getElem?_getD, List.getElem?_take_of_lt below,
      filled_tokens full below, List.getD_eq_getElem?_getD]
  · exact absurd good bad

theorem map_range_five {α : Type} (f : Nat → α) :
    (List.range 5).map f = [f 0, f 1, f 2, f 3, f 4] := rfl

omit [Zero φ] [Zero ι] in
theorem StkDat.ofFields_congr {conv : Conv φ ι} {code : CString} {f g : Nat → CString}
    (same : ∀ i, i < 32 → f i = g i) :
    StkDat.ofFields conv code f = StkDat.ofFields conv code g := by
  simp (disch := decide) only [StkDat.ofFields, map_range_five, same]

theorem Sinajs.ofFields_congr {conv : Conv φ ι} {code : CString} {f g : Nat → CString}
    (same : ∀ i, i < 32 → f i = g i) :
    Sinajs.ofFields conv code f = Sinajs.ofFields conv code g := by
  simp (disch := decide) only [Sinajs.ofFields, map_range_five, same]

end Ct.Geye
