import Ct.Geye.SinajsAgree
import Ct.Geye.SinajsPull
import Mathlib.Data.List.Nodup

set_option autoImplicit false

namespace Ct.Geye

open Ct.Lib
open Ct.Ccutils.Net

variable {φ ι : Type}

/-- A well-formed quote line. -/
structure QuoteLine where
  code : CString
  fs : List CString
  rest : CString
  formed : WellFormed 32 code fs
  dates : datesFit fs

def QuoteLine.text (line : QuoteLine) : CString := hqLine line.code line.fs line.rest

/-- The data of the line. -/
def QuoteLine.record (line : QuoteLine) (conv : Conv φ ι) : StkDat φ ι :=
  StkDat.ofFields conv line.code fun i => line.fs.getD i []

def GeStock.key (stock : GeStock φ ι) : CString := stock.exchange ++ stock.code

def keyOf (stocks : List (GeStock φ ι)) (i : Nat) : CString :=
  match stocks[i]? with
  | none => []
  | some stock => stock.key

/-- The nodes of the stock list in order, with pairwise distinct keys. -/
structure StockList (ge : GoldenEye2 φ ι) (nodes : List Nat) : Prop where
  spine : Spine (stockNext ge.stocks) ge.stockList.first nodes
  distinct : (nodes.map (keyOf ge.stocks)).Nodup

/-- The search for this code arrives at a listed stock: no key in front of it overflows
`local[20]`. -/
def Reaches (stocks : List (GeStock φ ι)) (nodes : List Nat) (code : CString) : Prop :=
  ∃ before i after, nodes = before ++ i :: after ∧
    (∀ j ∈ before, (keyOf stocks j).length < localSize) ∧ keyOf stocks i = code

/-- The last of the lines with this code. -/
def lastLine (lines : List QuoteLine) (key : CString) : Option QuoteLine :=
  (lines.filter fun line => line.code = key).getLast?

/-- What a refresh is for: every listed stock whose key occurs gets the data of its last line. -/
def refresh (conv : Conv φ ι) (nodes : List Nat) (lines : List QuoteLine)
    (stocks : List (GeStock φ ι)) : List (GeStock φ ι) :=
  stocks.mapIdx fun i stock =>
    if i ∈ nodes then
      match lastLine lines stock.key with
      | some line => { stock with data := line.record conv }
      | none => stock
    else stock

section Nodes

variable {stocks : List (GeStock φ ι)} {nodes : List Nat}

theorem spine_mem {first : Link} (spine : Spine (stockNext stocks) first nodes) :
    ∀ i ∈ nodes, ∃ stock, stocks[i]? = some stock := by
  intro i member
  obtain ⟨link, linked⟩ := spine_linked spine i member
  cases here : stocks[i]? with
  | none =>
    rw [stockNext, here] at linked
    cases linked
  | some stock => exact ⟨stock, rfl⟩

theorem keyOf_eq {i : Nat} {stock : GeStock φ ι} (here : stocks[i]? = some stock) :
    keyOf stocks i = stock.key := by
  simp only [keyOf, here]

theorem stockNext_set {i : Nat} {stock : GeStock φ ι} (here : stocks[i]? = some stock)
    (data : StkDat φ ι) :
    stockNext (stocks.set i { stock with data := data }) = stockNext stocks := by
  funext j
  by_cases same : i = j
  · subst same
    have inside := (List.getElem?_eq_some_iff.mp here).1
    simp only [stockNext, List.getElem?_set_self inside, here]
  · simp only [stockNext, List.getElem?_set_ne same]

theorem keyOf_set {i : Nat} {stock : GeStock φ ι} (here : stocks[i]? = some stock)
    (data : StkDat φ ι) :
    keyOf (stocks.set i { stock with data := data }) = keyOf stocks := by
  funext j
  by_cases same : i = j
  · subst same
    have inside := (List.getElem?_eq_some_iff.mp here).1
    simp only [keyOf, List.getElem?_set_self inside, here]
    rfl
  · simp only [keyOf, List.getElem?_set_ne same]

/-- What the test of one stock looked at when it did not fault. -/
theorem stockTest_ok {code : CString} {i : Nat} {hit : Bool}
    (tested : stockTest stocks code i = .ok hit) :
    ∃ stock, stocks[i]? = some stock ∧ stock.key.length < localSize ∧ (stock.key == code) = hit := by
  cases here : stocks[i]? with
  | none =>
    rw [stockTest, here] at tested
    cases tested
  | some stock =>
    by_cases fits : stock.key.length < localSize
    · have tests : stockTest stocks code i = .ok (stock.key == code) := by
        rw [stockTest, here]
        exact if_pos fits
      rw [tests] at tested
      exact ⟨stock, rfl, fits, Except.ok.inj tested⟩
    · have faults : stockTest stocks code i = .error .outOfBounds := by
        rw [stockTest, here]
        exact if_neg fits
      rw [faults] at tested
      cases tested

/-- Keys in front of a listed stock are not its key. -/
theorem stockTest_before {before after : List Nat} {i : Nat}
    (distinct : ((before ++ i :: after).map (keyOf stocks)).Nodup)
    (stored : ∀ j ∈ before, ∃ stock, stocks[j]? = some stock)
    (fit : ∀ j ∈ before, (keyOf stocks j).length < localSize) :
    ∀ j ∈ before, stockTest stocks (keyOf stocks i) j = .ok false := by
  intro j member
  obtain ⟨stock, here⟩ := stored j member
  have small := fit j member
  have apart : keyOf stocks j ≠ keyOf stocks i := by
    intro equal
    rw [List.map_append, List.map_cons] at distinct
    have disjoint := (List.nodup_append'.mp distinct).2.2
    refine disjoint (List.mem_map_of_mem member) ?_
    rw [equal]
    exact List.mem_cons_self ..
  rw [keyOf_eq here] at small apart
  have differ : (stock.exchange ++ stock.code == keyOf stocks i) = false :=
    beq_eq_false_iff_ne.mpr apart
  rw [stockTest, here]
  simp only [show (stock.exchange ++ stock.code).length < localSize from small, ↓reduceIte, differ]

end Nodes

variable {ge : GoldenEye2 φ ι} {nodes : List Nat} {fuel : Nat}

/-- A code that the search reaches: the data of the stock is replaced. -/
theorem stockAttach_reaches (listed : StockList ge nodes) (enough : nodes.length < fuel)
    {sdata : StkDat φ ι} (short : sdata.code.length < localSize)
    (reaches : Reaches ge.stocks nodes sdata.code) :
    ∃ i stock, i ∈ nodes ∧ ge.stocks[i]? = some stock ∧ stock.key = sdata.code ∧
      stockAttach fuel ge sdata =
        .ok { ge with stocks := ge.stocks.set i { stock with data := sdata } } := by
  obtain ⟨before, i, after, rfl, fit, key⟩ := reaches
  have stored := spine_mem listed.spine
  have member : i ∈ before ++ i :: after := List.mem_append_right _ (List.mem_cons_self ..)
  obtain ⟨stock, here⟩ := stored i member
  have stockKey : stock.key = sdata.code := by
    rw [← keyOf_eq here, key]
  have missed := stockTest_before listed.distinct
    (fun j inside => stored j (List.mem_append_left _ inside)) fit
  rw [key] at missed
  have found : stockTest ge.stocks sdata.code i = .ok true := by
    have same : stock.exchange ++ stock.code = sdata.code := stockKey
    simp only [stockTest, here, same, short, ↓reduceIte, beq_self_eq_true]
  refine ⟨i, stock, member, here, stockKey, ?_⟩
  rw [stockAttach, traverse_spine _ _ () listed.spine enough, visitAll_found _ missed found]
  simp only [here]

/-- A code that the search does not reach is stored over the list head, unless the search faults. -/
theorem stockAttach_misses (listed : StockList ge nodes) (enough : nodes.length < fuel)
    {sdata : StkDat φ ι} (misses : ¬ Reaches ge.stocks nodes sdata.code) :
    (∃ fault, stockAttach fuel ge sdata = .error fault) ∨
      stockAttach fuel ge sdata = .ok (storeAtHead ge sdata) := by
  rw [stockAttach, traverse_spine _ _ () listed.spine enough]
  rcases visitAll_search (stockTest ge.stocks sdata.code) nodes with
    ⟨_, _, _, fault, _, _, _, failed⟩ | ⟨before, i, after, rfl, missed, found, _⟩ | ⟨_, ended⟩
  · rw [failed]
    exact Or.inl ⟨fault, rfl⟩
  · refine absurd ⟨before, i, after, rfl, fun j member => ?_, ?_⟩ misses
    · obtain ⟨stock, here, fits, _⟩ := stockTest_ok (missed j member)
      rw [keyOf_eq here]
      exact fits
    · obtain ⟨stock, here, _, same⟩ := stockTest_ok found
      rw [keyOf_eq here]
      exact eq_of_beq same
  · rw [ended]
    exact Or.inr rfl

theorem stockAttach_null (fuel : Nat) (first : ge.stockList.first = .null) (sdata : StkDat φ ι) :
    ∃ fault, stockAttach fuel ge sdata = .error fault ∧ fault ≠ .outOfBounds := by
  obtain ⟨fault, failed, inside⟩ := traverse_null (stockNext ge.stocks)
    (searchBody (stockTest ge.stocks sdata.code)) fuel ()
  refine ⟨fault, ?_, inside⟩
  rw [stockAttach, first, failed]

theorem StockList.set (listed : StockList ge nodes) {i : Nat} {stock : GeStock φ ι}
    (here : ge.stocks[i]? = some stock) (data : StkDat φ ι) :
    StockList { ge with stocks := ge.stocks.set i { stock with data := data } } nodes where
  spine := by
    rw [stockNext_set here]
    exact listed.spine
  distinct := by
    rw [keyOf_set here]
    exact listed.distinct

theorem StockList.first_ne_null (listed : StockList ge nodes) : ge.stockList.first ≠ .null := by
  intro null
  have spine := listed.spine
  rw [null] at spine
  cases nodes with
  | nil => cases spine
  | cons i rest => cases spine

theorem QuoteLine.short (line : QuoteLine) (conv : Conv φ ι) :
    (line.record conv).code.length < localSize :=
  Nat.lt_trans line.formed.code_fits (by decide)

variable [Zero φ] [Zero ι] {conv : Conv φ ι}

theorem sinajsStockDecode_line (line : QuoteLine) (sjs : StkDat φ ι) :
    sinajsStockDecode conv (some line.text) sjs = .ok (0, line.record conv) :=
  sinajsStockDecode_hqLine line.formed line.dates line.rest conv sjs

/-- One line of a response made of quote lines. -/
theorem stockLines_cons (conv : Conv φ ι) (fuel : Nat) (ge : GoldenEye2 φ ι) {text : CString}
    {line : QuoteLine} {rest : List QuoteLine}
    (made : tokens '\n' text = (line :: rest).map QuoteLine.text) (turns : Nat) :
    ∃ left, tokens '\n' left = rest.map QuoteLine.text ∧
      stockLines conv fuel (turns + 1) text ge =
        match stockAttach fuel ge (line.record conv) with
        | .error fault => .error fault
        | .ok ge => stockLines conv fuel turns left ge := by
  rcases nextToken_cases '\n' text with ⟨_, none⟩ | ⟨token, left, found, split⟩
  · rw [none] at made
    cases made
  · rw [split, List.map_cons, List.cons.injEq] at made
    obtain ⟨rfl, more⟩ := made
    refine ⟨left, more, ?_⟩
    cases attached : stockAttach fuel ge (line.record conv) with
    | error fault =>
      simp only [stockLines, found, sinajsStockDecode_line, attached, Int.lt_irrefl, ↓reduceIte]
    | ok next =>
      simp only [stockLines, found, sinajsStockDecode_line, attached, Int.lt_irrefl, ↓reduceIte]

theorem stockLines_nil {text : CString} (made : tokens '\n' text = []) (turns : Nat) :
    stockLines conv fuel (turns + 1) text ge = .ok (0, ge) := by
  rcases nextToken_cases '\n' text with ⟨missed, _⟩ | ⟨token, left, _, split⟩
  · simp only [stockLines, missed]
  · rw [made] at split
    cases split

/-- After a store over the head, the list is lost for the rest of the run. -/
theorem stockLines_null {lines : List QuoteLine} {text : CString}
    (made : tokens '\n' text = lines.map QuoteLine.text) (first : ge.stockList.first = .null)
    {turns : Nat} {final : GoldenEye2 φ ι}
    (run : stockLines conv fuel turns text ge = .ok (0, final)) :
    final.stockList.first = .null := by
  cases turns with
  | zero => cases run
  | succ turns =>
    cases lines with
    | nil =>
      rw [stockLines_nil made] at run
      cases run
      exact first
    | cons line rest =>
      obtain ⟨left, _, step⟩ := stockLines_cons conv fuel ge made turns
      obtain ⟨fault, failed, _⟩ := stockAttach_null fuel first (line.record conv)
      rw [step, failed] at run
      cases run

/-- A run that leaves the head alone has reached the code of every line. -/
theorem stockLines_reaches (lines : List QuoteLine) :
    ∀ {ge : GoldenEye2 φ ι} {text : CString} {turns : Nat} {final : GoldenEye2 φ ι},
      StockList ge nodes → nodes.length < fuel →
      tokens '\n' text = lines.map QuoteLine.text →
      stockLines conv fuel turns text ge = .ok (0, final) →
      final.stockList = ge.stockList →
      ∀ line ∈ lines, Reaches ge.stocks nodes line.code := by
  induction lines with
  | nil =>
    intro ge text turns final _ _ _ _ _ line member
    cases member
  | cons line rest ih =>
    intro ge text turns final listed enough made run kept
    cases turns with
    | zero => cases run
    | succ turns =>
      obtain ⟨left, remaining, step⟩ :=
        stockLines_cons conv fuel ge made turns
      rw [step] at run
      by_cases reaches : Reaches ge.stocks nodes line.code
      · obtain ⟨i, stock, member, here, key, attached⟩ := stockAttach_reaches listed enough
          (line.short conv) reaches
        rw [attached] at run
        have later := ih (listed.set here (line.record conv)) enough remaining run kept
        intro other inside
        rcases List.mem_cons.mp inside with rfl | behind
        · exact reaches
        · have found := later other behind
          rw [Reaches] at found ⊢
          rwa [keyOf_set here] at found
      · rcases stockAttach_misses listed enough (show ¬ Reaches _ _ (line.record conv).code from reaches)
          with
          ⟨fault, failed⟩ | stored
        · rw [failed] at run
          cases run
        · rw [stored] at run
          have lost : (storeAtHead ge (line.record conv)).stockList.first = .null := rfl
          have null := stockLines_null remaining lost run
          rw [kept] at null
          exact absurd null listed.first_ne_null

end Ct.Geye
