import Ct.Geye.SinajsRefresh

set_option autoImplicit false

namespace Ct.Geye

open Ct.Lib
open Ct.Ccutils.Net

variable {φ ι : Type}

/-- The text that the decoders split at the commas: the value, or what follows an empty one. -/
def valueText (sptr1 : CString) : CString :=
  (sptr1.dropWhile (· == '"')).takeWhile (· != '"')

/-- The fields as `strtok_r` delivers them, the name first. -/
def readFields (line : CString) : List CString := tokens ',' (valueText (behind line))

/-- The code, the date or the time of the line does not fit the array it is stored in. -/
def Overflows (line : CString) : Prop :=
  ∃ code, lineCode line = some code ∧
    ¬ (code.length < stkCodeSz ∧ datesFit (readFields line))

/-- The line has everything that the stock decoder reads. -/
def DecodesTo (line code : CString) : Prop :=
  lineCode line = some code ∧ code.length < stkCodeSz ∧
    32 ≤ (readFields line).length ∧ datesFit (readFields line)

/-- A key in front of the stock with this code, or any key where no stock has it, does not fit
`local[20]`. -/
def SearchOverflows (keys : List CString) (code : CString) : Prop :=
  ∃ key ∈ keys.takeWhile (· != code), localSize ≤ key.length

/-- No line that the loop gets to overflows an array. `lost` says that a line has been stored over
the list head: the next search does not return. -/
def LinesStay (keys : List CString) : Bool → List CString → Prop
  | _, [] => True
  | lost, line :: rest =>
    ¬ Overflows line ∧ ∀ code, DecodesTo line code → lost = false →
      ¬ SearchOverflows keys code ∧ LinesStay keys (decide (code ∉ keys)) rest

theorem decodeName_reads (sptr1 : CString) :
    (∃ fault, decodeName sptr1 = .error fault ∧ fault ≠ .outOfBounds ∧
      tokens ',' (valueText sptr1) = []) ∨
    ∃ name sptr2, decodeName sptr1 = .ok (name, sptr2) ∧
      tokens ',' (valueText sptr1) = name :: tokens ',' sptr2 := by
  cases start : sptr1.dropWhile (· == '"') with
  | nil =>
    have missed : nextToken '"' sptr1 = (none, []) := by simp only [nextToken, start]
    refine Or.inl ⟨.uninitialised, ?_, by decide, ?_⟩
    · simp only [decodeName, strtokR, missed]
    · rw [valueText, start]
      exact tokens_nil
  | cons c rest =>
    have value : (nextToken '"' sptr1).1 = some (valueText sptr1) := by
      simp only [nextToken, valueText, start]
    rcases nextToken_cases ',' (valueText sptr1) with
      ⟨missed, none⟩ | ⟨name, sptr2, found, split⟩
    · refine Or.inl ⟨.nullDeref, ?_, by decide, none⟩
      simp only [decodeName, strtokR, value, missed]
    · refine Or.inr ⟨name, sptr2, ?_, split⟩
      simp only [decodeName, strtokR, value, found]

/-- What becomes of a line, in terms of the fields that `strtok_r` delivers. -/
theorem decodeLine_outcome {ρ : Type} (record : CString → List CString → ρ) (zero : ρ)
    (line : CString) :
    (∃ fault, decodeLine record zero line = .error fault ∧ (fault = .outOfBounds ↔ Overflows line) ∧
      ∀ code, ¬ DecodesTo line code) ∨
    (decodeLine record zero line = .ok (-1, zero) ∧ ¬ Overflows line ∧
      ∀ code, ¬ DecodesTo line code) ∨
    ∃ code ts, decodeLine record zero line = .ok (0, record code ts) ∧ ¬ Overflows line ∧
      DecodesTo line code := by
  unfold decodeLine
  rcases decodeVariable_cases line with
    ⟨failed, noVariable⟩ | ⟨noCode, _, code_eq⟩ | ⟨code, decoded, _, code_eq, short⟩ |
    ⟨code, failed, code_eq, long⟩
  · have none : lineCode line = none := by
      have empty : line.dropWhile (· == '"') = [] := not_not.mp noVariable
      rw [lineCode, empty]
      rfl
    rw [failed]
    refine Or.inl ⟨_, rfl, ?_, fun code decodes => ?_⟩
    · simp [Overflows, none]
    · rw [decodes.1] at none
      cases none
  · rw [noCode]
    refine Or.inr (Or.inl ⟨rfl, ?_, fun code decodes => ?_⟩)
    · simp [Overflows, code_eq]
    · rw [decodes.1] at code_eq
      cases code_eq
  · have overflows : Overflows line ↔ ¬ datesFit (readFields line) := by
      simp [Overflows, code_eq, short]
    rw [decoded]
    dsimp only
    rcases decodeName_reads (behind line) with
      ⟨fault, failed, inside, none⟩ | ⟨name, sptr2, named, split⟩
    · rw [failed]
      have few : readFields line = [] := none
      refine Or.inl ⟨fault, rfl, ?_, fun code decodes => ?_⟩
      · have fit : datesFit (readFields line) := datesFit_of_few (by simp [few])
        simp only [overflows, fit, inside, not_true_eq_false]
      · have enough := decodes.2.2.1
        rw [few] at enough
        cases enough
    · have read : readFields line = name :: tokens ',' sptr2 := split
      rw [named]
      dsimp only
      rcases readProps_cases name sptr2 with ⟨rest, props, enough, fit⟩ | ⟨fault, failed, unfit, why⟩
      · rw [props]
        rw [← read] at fit
        have many : 32 ≤ (readFields line).length := by
          rw [read]
          exact Nat.succ_le_succ enough
        exact Or.inr (Or.inr ⟨code, _, rfl, fun bad => overflows.mp bad fit,
          code_eq, short, many, fit⟩)
      · rw [failed]
        rw [← read] at unfit why
        refine Or.inl ⟨fault, rfl, why.trans overflows.symm, fun code decodes => unfit ⟨?_, ?_⟩⟩
        · have many := decodes.2.2.1
          rw [read] at many
          exact Nat.le_of_succ_le_succ many
        · exact decodes.2.2.2
  · rw [failed]
    refine Or.inl ⟨_, rfl, ?_, fun other decodes => ?_⟩
    · simp [Overflows, code_eq, long]
    · obtain ⟨other_eq, short, _⟩ := decodes
      rw [code_eq] at other_eq
      cases other_eq
      exact long short

section Search

variable {ge : GoldenEye2 φ ι} {nodes : List Nat} {fuel : Nat}

theorem stockTest_overflows {stocks : List (GeStock φ ι)} {code : CString} {i : Nat}
    {stock : GeStock φ ι} {fault : Fault} (here : stocks[i]? = some stock)
    (tested : stockTest stocks code i = .error fault) :
    fault = .outOfBounds ∧ localSize ≤ (keyOf stocks i).length := by
  rw [stockTest, here] at tested
  dsimp only at tested
  split at tested
  · cases tested
  · rename_i long
    cases tested
    rw [keyOf_eq here]
    exact ⟨rfl, Nat.le_of_not_lt long⟩

/-- Keys that a search has passed are short and belong to other codes. -/
theorem passed_keys {stocks : List (GeStock φ ι)} {code : CString} {before : List Nat}
    (missed : ∀ j ∈ before, stockTest stocks code j = .ok false) :
    ∀ key ∈ before.map (keyOf stocks), (key != code) = true ∧ key.length < localSize := by
  intro key member
  obtain ⟨j, inside, rfl⟩ := List.mem_map.mp member
  obtain ⟨stock, here, short, other⟩ := stockTest_ok (missed j inside)
  rw [keyOf_eq here]
  exact ⟨by rw [bne, other]; rfl, short⟩

/-- The search in terms of the keys of the list. -/
theorem stockAttach_outcome {sdata : StkDat φ ι} (short : sdata.code.length < localSize)
    (stored : ∀ i ∈ nodes, ∃ stock, ge.stocks[i]? = some stock)
    (ran : traverse (stockNext ge.stocks) (searchBody (stockTest ge.stocks sdata.code)) fuel
        ge.stockList.first () =
      visitAll (searchBody (stockTest ge.stocks sdata.code)) nodes ()) :
    (stockAttach fuel ge sdata = .error .outOfBounds ∧
      SearchOverflows (nodes.map (keyOf ge.stocks)) sdata.code) ∨
    ¬ SearchOverflows (nodes.map (keyOf ge.stocks)) sdata.code ∧
      ((sdata.code ∈ nodes.map (keyOf ge.stocks) ∧
        ∃ i stock, ge.stocks[i]? = some stock ∧ stockAttach fuel ge sdata =
          .ok { ge with stocks := ge.stocks.set i { stock with data := sdata } }) ∨
      (sdata.code ∉ nodes.map (keyOf ge.stocks) ∧
        stockAttach fuel ge sdata = .ok (storeAtHead ge sdata))) := by
  rw [stockAttach, ran]
  rcases visitAll_search (stockTest ge.stocks sdata.code) nodes with
    ⟨before, i, after, fault, rfl, missed, tested, failed⟩ |
    ⟨before, i, after, rfl, missed, tested, found⟩ | ⟨missed, ended⟩
  · obtain ⟨stock, here⟩ := stored i (List.mem_append_right _ (List.mem_cons_self ..))
    obtain ⟨rfl, long⟩ := stockTest_overflows here tested
    refine Or.inl ⟨by rw [failed], keyOf ge.stocks i, ?_, long⟩
    have other : (keyOf ge.stocks i != sdata.code) = true := by
      rw [bne_iff_ne]
      intro same
      rw [same] at long
      omega
    rw [List.map_append, List.map_cons,
      List.takeWhile_append_of_pos fun key member => (passed_keys missed key member).1,
      List.takeWhile_cons, if_pos other]
    exact List.mem_append_right _ (List.mem_cons_self ..)
  · obtain ⟨stock, here, _, same⟩ := stockTest_ok tested
    have key : keyOf ge.stocks i = sdata.code := by
      rw [keyOf_eq here]
      exact eq_of_beq same
    have passed : (((before ++ i :: after).map (keyOf ge.stocks)).takeWhile (· != sdata.code)) =
        before.map (keyOf ge.stocks) := by
      rw [List.map_append, List.map_cons, key]
      exact takeWhile_stop _ (fun other member => (passed_keys missed other member).1)
        (by simp) _
    refine Or.inr ⟨?_, Or.inl ⟨?_, i, stock, here, ?_⟩⟩
    · rintro ⟨other, member, long⟩
      rw [passed] at member
      have fits := (passed_keys missed other member).2
      omega
    · rw [← key]
      exact List.mem_map_of_mem (List.mem_append_right _ (List.mem_cons_self ..))
    · rw [found]
      simp only [here]
  · refine Or.inr ⟨?_, Or.inr ⟨fun member => ?_, ?_⟩⟩
    · rintro ⟨other, member, long⟩
      have fits := (passed_keys missed other ((List.takeWhile_sublist _).subset member)).2
      omega
    · have other := (passed_keys missed sdata.code member).1
      simp at other
    · rw [ended]

/-- What the loop over the lines keeps: it sees these keys until the list is lost. -/
structure Sees (ge : GoldenEye2 φ ι) (nodes : List Nat) (keys : List CString) (lost : Bool) :
    Prop where
  spine : lost = false → Spine (stockNext ge.stocks) ge.stockList.first nodes
  keys_eq : lost = false → nodes.map (keyOf ge.stocks) = keys
  head : lost = true → ge.stockList.first = .null

theorem Sees.set {keys : List CString} (sees : Sees ge nodes keys false) {i : Nat}
    {stock : GeStock φ ι} (here : ge.stocks[i]? = some stock) (data : StkDat φ ι) :
    Sees { ge with stocks := ge.stocks.set i { stock with data := data } } nodes keys false where
  spine := by
    intro _
    rw [stockNext_set here]
    exact sees.spine rfl
  keys_eq := by
    intro _
    rw [keyOf_set here]
    exact sees.keys_eq rfl
  head := fun absurd => by cases absurd

theorem Sees.storeAtHead {sdata : StkDat φ ι} (blank : sdata.exchange = []) (keys : List CString) :
    Sees (storeAtHead ge sdata) nodes keys true where
  spine := fun absurd => by cases absurd
  keys_eq := fun absurd => by cases absurd
  head := by
    intro _
    change linkOfBytes (arrayBytes stkExSz sdata.exchange) = .null
    rw [blank]
    rfl

end Search

section Lines

variable [Zero φ] [Zero ι] {conv : Conv φ ι} {nodes : List Nat} {keys : List CString}

theorem stockLines_step (conv : Conv φ ι) (fuel turns : Nat) (ge : GoldenEye2 φ ι)
    {text left line : CString} (found : nextToken '\n' text = (some line, left)) :
    (Overflows line ∧ stockLines conv fuel (turns + 1) text ge = .error .outOfBounds) ∨
    (¬ Overflows line ∧ (∀ code, ¬ DecodesTo line code) ∧
      stockLines conv fuel (turns + 1) text ge ≠ .error .outOfBounds) ∨
    ∃ sdata : StkDat φ ι, ¬ Overflows line ∧ DecodesTo line sdata.code ∧ sdata.exchange = [] ∧
      stockLines conv fuel (turns + 1) text ge =
        (stockAttach fuel ge sdata).bind fun ge => stockLines conv fuel turns left ge := by
  have record : sinajsStockDecode conv (some line) StkDat.zero = _ := sinajsStockDecode_eq conv line _
  rcases decodeLine_outcome
      (fun code fs => StkDat.ofFields conv code fun i => fs.getD i []) StkDat.zero line with
    ⟨fault, failed, why, none⟩ | ⟨negative, safe, none⟩ | ⟨code, ts, stored, safe, decodes⟩
  · rw [failed] at record
    by_cases bad : Overflows line
    · refine Or.inl ⟨bad, ?_⟩
      simp only [stockLines, found, record, why.mpr bad]
    · refine Or.inr (Or.inl ⟨bad, none, ?_⟩)
      simp only [stockLines, found, record]
      intro same
      cases same
      exact bad (why.mp rfl)
  · rw [negative] at record
    refine Or.inr (Or.inl ⟨safe, none, ?_⟩)
    simp [stockLines, found, record]
  · rw [stored] at record
    refine Or.inr (Or.inr
      ⟨StkDat.ofFields conv code fun i => ts.getD i [], safe, decodes, rfl, ?_⟩)
    cases attached : stockAttach fuel ge (StkDat.ofFields conv code fun i => ts.getD i []) with
    | error fault =>
      simp only [stockLines, found, record, attached, Int.lt_irrefl, ↓reduceIte, Except.bind]
    | ok next =>
      simp only [stockLines, found, record, attached, Int.lt_irrefl, ↓reduceIte, Except.bind]

/-- Lines that stay inside the arrays keep the loop inside them, whatever the fuel. -/
theorem stockLines_stay (turns : Nat) :
    ∀ {ge : GoldenEye2 φ ι} {text : CString} {lost : Bool} (fuel : Nat), Sees ge nodes keys lost →
      LinesStay keys lost (tokens '\n' text) →
      stockLines conv fuel turns text ge ≠ .error .outOfBounds := by
  induction turns with
  | zero =>
    intro ge text lost fuel _ _ run
    cases run
  | succ turns ih =>
    intro ge text lost fuel sees stay
    rcases nextToken_cases '\n' text with ⟨missed, _⟩ | ⟨line, left, found, split⟩
    · simp [stockLines, missed]
    · rw [split] at stay
      obtain ⟨safe, further⟩ := stay
      rcases stockLines_step conv fuel turns ge found with
        ⟨bad, _⟩ | ⟨_, _, inside⟩ | ⟨sdata, _, decodes, blank, step⟩
      · exact absurd bad safe
      · exact inside
      · rw [step]
        have short : sdata.code.length < localSize := Nat.lt_trans decodes.2.1 (by decide)
        cases lost with
        | true =>
          obtain ⟨fault, failed, inside⟩ := stockAttach_null fuel (sees.head rfl) sdata
          rw [failed]
          exact fun same => inside (Except.error.inj same)
        | false =>
          obtain ⟨fits, later⟩ := further _ decodes rfl
          have spine := sees.spine rfl
          rw [← sees.keys_eq rfl] at fits later
          rcases traverse_spine_cut (searchBody (stockTest ge.stocks sdata.code)) nodes fuel ()
            spine with cut | ran
          · have failed : stockAttach fuel ge sdata = .error .outOfFuel := by rw [stockAttach, cut]
            rw [failed]
            exact fun same => by cases same
          · rcases stockAttach_outcome short (spine_mem spine) ran with
              ⟨_, bad⟩ | ⟨_, ⟨member, i, stock, here, attached⟩ | ⟨unknown, attached⟩⟩
            · exact absurd bad fits
            · rw [attached]
              rw [decide_eq_false (not_not.mpr member)] at later
              rw [sees.keys_eq rfl] at later
              exact ih fuel (sees.set here sdata) later
            · rw [attached]
              rw [decide_eq_true unknown, sees.keys_eq rfl] at later
              exact ih fuel (Sees.storeAtHead blank _) later

/-- With enough fuel the loop gets to the first line that does not stay inside. -/
theorem stockLines_leave (turns : Nat) :
    ∀ {ge : GoldenEye2 φ ι} {text : CString} {lost : Bool} {fuel : Nat}, Sees ge nodes keys lost →
      nodes.length < fuel → (tokens '\n' text).length < turns →
      ¬ LinesStay keys lost (tokens '\n' text) →
      stockLines conv fuel turns text ge = .error .outOfBounds := by
  induction turns with
  | zero =>
    intro ge text lost fuel _ _ few
    cases few
  | succ turns ih =>
    intro ge text lost fuel sees enough more leave
    rcases nextToken_cases '\n' text with ⟨_, none⟩ | ⟨line, left, found, split⟩
    · rw [none] at leave
      exact absurd trivial leave
    · rw [split] at leave more
      rcases stockLines_step conv fuel turns ge found with
        ⟨_, step⟩ | ⟨safe, stops, _⟩ | ⟨sdata, safe, decodes, blank, step⟩
      · exact step
      · exact absurd ⟨safe, fun code decodes => absurd decodes (stops code)⟩ leave
      · have short : sdata.code.length < localSize := Nat.lt_trans decodes.2.1 (by decide)
        have only : ∀ code, DecodesTo line code → code = sdata.code := by
          intro code other
          have same := other.1.symm.trans decodes.1
          exact Option.some.inj same
        have stands : lost = false := by
          by_contra gone
          exact leave ⟨safe, fun _ _ stands => absurd stands gone⟩
        subst stands
        have spine := sees.spine rfl
        have ran := traverse_spine (searchBody (stockTest ge.stocks sdata.code)) nodes () spine
          enough
        have fewer : (tokens '\n' left).length < turns := Nat.lt_of_succ_lt_succ more
        have further : SearchOverflows keys sdata.code ∨
            ¬ LinesStay keys (decide (sdata.code ∉ keys)) (tokens '\n' left) := by
          by_contra both
          rw [not_or, not_not] at both
          refine leave ⟨safe, fun code other _ => ?_⟩
          rw [only code other]
          exact both
        rw [step]
        rw [← sees.keys_eq rfl] at further
        rcases stockAttach_outcome short (spine_mem spine) ran with
          ⟨attached, _⟩ | ⟨fits, ⟨member, i, stock, here, attached⟩ | ⟨unknown, attached⟩⟩
        · rw [attached]
          rfl
        · rw [attached]
          have later := further.resolve_left fits
          rw [decide_eq_false (not_not.mpr member), sees.keys_eq rfl] at later
          exact ih (sees.set here sdata) enough fewer later
        · rw [attached]
          have later := further.resolve_left fits
          rw [decide_eq_true unknown, sees.keys_eq rfl] at later
          exact ih (Sees.storeAtHead blank _) enough fewer later

end Lines

section Refresh

variable [Zero φ] [Zero ι] {curl : Transfer} {buffer : List Char}
  {ge : GoldenEye2 φ ι} {nodes : List Nat}

/-- The size of `buffer` in `sinajs_pull_stock_data`. -/
def bufferSize : Nat := 4096

/-- Every chunk fits the buffer, and so does the 0 behind the size that is returned. A size that
is no `int` ends the run before. -/
structure ReceivesInside (curl : Transfer) : Prop where
  chunks : curl.handle = true → ∀ chunk ∈ curl.chunks, chunk.length ≤ bufferSize
  size : curl.handle = true →
    curl.sizeDownload.getD 0 < bufferSize ∨ 2 ^ 31 ≤ curl.sizeDownload.getD 0

/-- The text that the loop over the lines starts on. -/
def arrivedText (curl : Transfer) (buffer : List Char) : CString :=
  if curl.handle = true ∧ curl.sizeDownload.getD 0 < 2 ^ 31 then
    ((overwritten curl.chunks buffer).take (curl.sizeDownload.getD 0)).takeWhile (· != '\x00')
  else []

/-- Nothing is written outside the arrays of a refresh. -/
structure StaysInside (curl : Transfer) (buffer : List Char) (ge : GoldenEye2 φ ι)
    (nodes : List Nat) : Prop where
  url : (stockUrl ge.stocks nodes).length < slistSize
  receives : ReceivesInside curl
  lines : LinesStay (nodes.map (keyOf ge.stocks)) false (tokens '\n' (arrivedText curl buffer))

theorem terminate_take {filled : List Char} {size : Nat} (room : size < filled.length) :
    terminate filled size = .ok ((filled.take size).takeWhile (· != '\x00')) := by
  have cut := terminate_received (filled.take size) (filled.drop size)
  have behind : filled.drop size ≠ [] := by
    rw [ne_eq, List.drop_eq_nil_iff]
    omega
  rw [List.take_append_drop, List.length_take, Nat.min_eq_left (Nat.le_of_lt room),
    if_neg behind] at cut
  exact cut

/-- What `http_get` and the terminating 0 make of the buffer. -/
theorem httpGet_terminate (curl : Transfer) (full : buffer.length = bufferSize) (url : CString) :
    (¬ ReceivesInside curl ∧ (httpGet (some url) curl buffer = .error .outOfBounds ∨
      ∃ rc filled, httpGet (some url) curl buffer = .ok (rc, filled) ∧ ¬ rc < 0 ∧
        terminate filled rc = .error .outOfBounds)) ∨
    (ReceivesInside curl ∧ arrivedText curl buffer = [] ∧
      httpGet (some url) curl buffer = .error .conversion) ∨
    ∃ rc filled, ReceivesInside curl ∧ httpGet (some url) curl buffer = .ok (rc, filled) ∧
      ¬ rc < 0 ∧ terminate filled rc = .ok (arrivedText curl buffer) := by
  by_cases handle : curl.handle = true
  · by_cases fit : ∀ chunk ∈ curl.chunks, chunk.length ≤ buffer.length
    · have filled : (overwritten curl.chunks buffer).length = bufferSize := by
        rw [overwritten_length fit, full]
      rw [full] at fit
      have written : performWrites curl.chunks buffer = .ok (overwritten curl.chunks buffer) := by
        rw [performWrites_eq, full, if_pos fit]
      by_cases whole : curl.sizeDownload.getD 0 < 2 ^ 31
      · have got : httpGet (some url) curl buffer =
            .ok ((curl.sizeDownload.getD 0 : Int), overwritten curl.chunks buffer) := by
          simp only [httpGet, handle, ↓reduceIte, written, returnSize, whole]
        by_cases room : curl.sizeDownload.getD 0 < bufferSize
        · refine Or.inr (Or.inr ⟨_, _, ⟨fun _ => fit, fun _ => Or.inl room⟩, got, by omega, ?_⟩)
          rw [terminate_take (by rw [filled]; exact room), arrivedText, if_pos ⟨handle, whole⟩]
        · refine Or.inl ⟨fun inside => ?_, Or.inr ⟨_, _, got, by omega, ?_⟩⟩
          · rcases inside.size handle with small | large
            · exact room small
            · omega
          · rw [terminate, if_neg]
            rw [filled, Int.toNat_natCast]
            exact room
      · refine Or.inr (Or.inl ⟨⟨fun _ => fit, fun _ => Or.inr (by omega)⟩, ?_, ?_⟩)
        · rw [arrivedText, if_neg fun both => whole both.2]
        · simp only [httpGet, handle, ↓reduceIte, written, returnSize, whole]
    · refine Or.inl ⟨fun inside => fit ?_, Or.inl ?_⟩
      · rw [full]
        exact inside.chunks handle
      · simp only [httpGet, handle, ↓reduceIte, performWrites_eq, fit]
  · have got : httpGet (some url) curl buffer = .ok (0, buffer) := by
      simp only [httpGet, handle, Bool.false_eq_true, ↓reduceIte]
    refine Or.inr (Or.inr ⟨0, buffer, ⟨fun absurd => ?_, fun absurd => ?_⟩, got, by decide, ?_⟩)
    · exact (handle absurd).elim
    · exact (handle absurd).elim
    · have room : 0 < buffer.length := by
        rw [full]
        decide
      have ended := terminate_take room
      rw [arrivedText, if_neg fun both => handle both.1]
      exact ended

/-- Once the URL fits, the run is what `http_get` delivers and the loop over its lines. -/
theorem sinajsPullStockData_url (conv : Conv φ ι)
    (spine : Spine (stockNext ge.stocks) ge.stockList.first nodes)
    (fuel : Nat) {after : Except Fault (Int × GoldenEye2 φ ι)}
    (rest : after = if (stockUrl ge.stocks nodes).length < slistSize then
        (httpGet (some (stockUrl ge.stocks nodes)) curl buffer).bind fun got =>
          if got.1 < 0 then .ok (-1, ge)
          else (terminate got.2 got.1).bind fun text => stockLines conv fuel fuel text ge
      else .error .outOfBounds) :
    (sinajsPullStockData conv curl buffer fuel ge = .error .outOfFuel ∨
      sinajsPullStockData conv curl buffer fuel ge = after) ∧
    (nodes.length < fuel → sinajsPullStockData conv curl buffer fuel ge = after) := by
  have start : slistUrl.length < slistSize := by decide
  have whole : traverse (stockNext ge.stocks) (slistBody ge.stocks) fuel ge.stockList.first
        slistUrl = visitAll (slistBody ge.stocks) nodes slistUrl →
      sinajsPullStockData conv curl buffer fuel ge = after := by
    intro ran
    rw [rest, sinajsPullStockData, ran, visitAll_slist nodes start (spine_mem spine), stockUrl]
    by_cases fits : (slistUrl ++ (nodes.map (slistEntry ge.stocks)).flatten).length < slistSize
    · rw [if_pos fits, if_pos fits]
      dsimp only
      rcases httpGet (some (slistUrl ++ (nodes.map (slistEntry ge.stocks)).flatten)) curl buffer with
        fault | ⟨rc, filled⟩
      · rfl
      · dsimp only [Except.bind]
        cases terminate filled rc with
        | error fault => rfl
        | ok text => rfl
    · rw [if_neg fits, if_neg fits]
  constructor
  · rcases traverse_spine_cut (slistBody ge.stocks) nodes fuel slistUrl spine with cut | ran
    · exact Or.inl (by rw [sinajsPullStockData, cut])
    · exact Or.inr (whole ran)
  · intro enough
    exact whole (traverse_spine (slistBody ge.stocks) nodes slistUrl spine enough)

theorem stays_inside_of_condition (conv : Conv φ ι) (full : buffer.length = bufferSize)
    (spine : Spine (stockNext ge.stocks) ge.stockList.first nodes)
    (stays : StaysInside curl buffer ge nodes) (fuel : Nat) :
    sinajsPullStockData conv curl buffer fuel ge ≠ .error .outOfBounds := by
  rcases (sinajsPullStockData_url conv spine fuel rfl).1 with cut | run
  · rw [cut]
    exact fun same => by cases same
  · rw [run, if_pos stays.url]
    rcases httpGet_terminate curl full (stockUrl ge.stocks nodes) with
      ⟨outside, _⟩ | ⟨_, _, got⟩ | ⟨rc, filled, _, got, natural, ended⟩
    · exact absurd stays.receives outside
    · rw [got]
      exact fun same => by cases same
    · rw [got]
      dsimp only [Except.bind]
      rw [if_neg natural, ended]
      exact stockLines_stay fuel fuel
        ⟨fun _ => spine, fun _ => rfl, fun absurd => by cases absurd⟩ stays.lines

theorem condition_of_stays_inside (conv : Conv φ ι) (full : buffer.length = bufferSize)
    (spine : Spine (stockNext ge.stocks) ge.stockList.first nodes)
    (runs : ∀ fuel, sinajsPullStockData conv curl buffer fuel ge ≠ .error .outOfBounds) :
    StaysInside curl buffer ge nodes := by
  -- fuel for the list and for every line of the response
  have run := runs (nodes.length + (tokens '\n' (arrivedText curl buffer)).length + 1)
  rw [(sinajsPullStockData_url conv spine _ rfl).2 (by omega)] at run
  have url : (stockUrl ge.stocks nodes).length < slistSize := by
    by_contra long
    rw [if_neg long] at run
    exact run rfl
  rw [if_pos url] at run
  rcases httpGet_terminate curl full (stockUrl ge.stocks nodes) with
    ⟨_, got | ⟨rc, filled, got, natural, ended⟩⟩ | ⟨receives, nothing, _⟩ |
    ⟨rc, filled, receives, got, natural, ended⟩
  · rw [got] at run
    exact absurd rfl run
  · rw [got] at run
    dsimp only [Except.bind] at run
    rw [if_neg natural, ended] at run
    exact absurd rfl run
  · refine ⟨url, receives, ?_⟩
    rw [nothing, tokens_nil]
    trivial
  · refine ⟨url, receives, ?_⟩
    rw [got] at run
    dsimp only [Except.bind] at run
    rw [if_neg natural, ended] at run
    by_contra leave
    exact run (stockLines_leave _
      ⟨fun _ => spine, fun _ => rfl, fun absurd => by cases absurd⟩ (by omega) (by omega) leave)

/-- A refresh stays inside its arrays exactly when the URL, the chunks and the returned size fit
them, and no line that is reached has a code, a date or a time that does not, or comes after a key
that does not fit `local[20]`. -/
theorem refresh_stays_inside_iff (conv : Conv φ ι) (ge : GoldenEye2 φ ι) (nodes : List Nat)
    (spine : Spine (stockNext ge.stocks) ge.stockList.first nodes) (curl : Transfer)
    (buffer : List Char) (full : buffer.length = bufferSize) :
    (∀ fuel, sinajsPullStockData conv curl buffer fuel ge ≠ .error .outOfBounds) ↔
      StaysInside curl buffer ge nodes :=
  ⟨condition_of_stays_inside conv full spine, stays_inside_of_condition conv full spine⟩

/-- The quote of the stock `sh1` has that code and everything that the decoder reads. -/
theorem quoteOfOne_decodes : DecodesTo quoteOfOne.text ['s', 'h', '1'] :=
  ⟨by decide, by decide, by decide, by decide, by decide⟩

theorem quoteOfOne_arrives :
    tokens '\n' (arrivedText (delivers [quoteOfOne.text]) (List.replicate bufferSize '?')) =
      [quoteOfOne.text] := by rfl

theorem refresh_stays_inside_one :
    StaysInside (delivers [quoteOfOne.text]) (List.replicate bufferSize '?') oneStock [0] ∧
    ∀ fuel, sinajsPullStockData lengths (delivers [quoteOfOne.text])
      (List.replicate bufferSize '?') fuel oneStock ≠ .error .outOfBounds := by
  have stays : StaysInside (delivers [quoteOfOne.text]) (List.replicate bufferSize '?') oneStock
      [0] :=
    { url := by decide
      receives := ⟨fun _ => by decide, fun _ => by decide⟩
      lines := by
        rw [quoteOfOne_arrives]
        refine ⟨?_, fun code _ _ => ⟨?_, trivial⟩⟩
        · rintro ⟨code, named, bad⟩
          have same := named.symm.trans quoteOfOne_decodes.1
          rw [Option.some.inj same] at bad
          exact bad ⟨quoteOfOne_decodes.2.1, quoteOfOne_decodes.2.2.2⟩
        · rintro ⟨key, member, long⟩
          have short : ∀ key ∈ [0].map (keyOf oneStock.stocks), key.length < localSize := by decide
          have fits := short key ((List.takeWhile_sublist _).subset member)
          omega }
  exact ⟨stays, (refresh_stays_inside_iff lengths oneStock [0] oneStock_listed.spine
    (delivers [quoteOfOne.text]) (List.replicate bufferSize '?') List.length_replicate).mpr stays⟩

/-- A list with a single stock whose exchange and code fill their arrays. -/
def longStock : GoldenEye2 Nat Nat :=
  { oneStock with
    stocks := [⟨StkDat.zero, List.replicate 15 '1', List.replicate 7 's', [], 0, ⟨1, 1, 0, 0, 0, 0, 0⟩,
      ⟨.head, .head⟩⟩] }

/-- Its key does not fit `local[20]`: any quote makes the refresh write outside. -/
theorem long_key_overflows :
    Spine (stockNext longStock.stocks) longStock.stockList.first [0] ∧
    (∀ stock ∈ longStock.stocks, stock.exchange.length < stkExSz ∧
      stock.code.length < stkCodeSz) ∧
    ¬ ∀ fuel, sinajsPullStockData lengths (delivers [quoteOfOne.text])
      (List.replicate bufferSize '?') fuel longStock ≠ .error .outOfBounds := by
  have spine : Spine (stockNext longStock.stocks) longStock.stockList.first [0] :=
    ⟨rfl, .head, rfl, trivial⟩
  refine ⟨spine, by simp [longStock, stkExSz, stkCodeSz], fun runs => ?_⟩
  have stays := (condition_of_stays_inside lengths List.length_replicate spine runs).lines
  rw [quoteOfOne_arrives] at stays
  exact (stays.2 _ quoteOfOne_decodes rfl).1
    ⟨_, List.mem_singleton_self _, by decide⟩

end Refresh

end Ct.Geye
