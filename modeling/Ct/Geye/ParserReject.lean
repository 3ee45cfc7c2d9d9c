import Ct.Geye.ParserLoad

set_option autoImplicit false

namespace Ct.Geye

open Ct.Lib
open Ct.Ccutils.Xml

variable {φ ι : Type}

/-- Every required attribute is present. -/
def Complete (required : List CString) (node : XmlElement) : Prop :=
  ∀ name ∈ required, (xmlGetProp node name).isSome

def stockRequired : List CString := ["code".toList, "exchange".toList, "abcode".toList]

def indexRequired : List CString := ["exchange".toList, "code".toList]

/-- The loader returns; it appends the entry of a complete element and turns an incomplete one
away with a negative value. -/
def Handles (complete : Prop) (unchanged appended : GoldenEye2 φ ι → Prop)
    (run : Except Fault (Int × GoldenEye2 φ ι)) : Prop :=
  ∃ rc after, run = .ok (rc, after) ∧ (complete → appended after) ∧
    (¬ complete → rc < 0 ∧ unchanged after)

/-- Where an element that is given a block is either loaded with 0 or breaks the run off, the
complete ones that fit are handled, and the incomplete ones only for want of memory. -/
theorem handles_iff {allocated complete fits : Prop} {unchanged appended : GoldenEye2 φ ι → Prop}
    {run : Except Fault (Int × GoldenEye2 φ ι)} {ge : GoldenEye2 φ ι}
    (refused : ¬ allocated → run = .ok (-enomem, ge)) (kept : unchanged ge)
    (fresh : ¬ appended ge)
    (outcome : allocated → (∃ after, run = .ok (0, after) ∧ (appended after ↔ fits)) ∨
      (¬ fits ∧ ∀ result, run ≠ .ok result)) :
    Handles complete unchanged appended run ↔
      (allocated ∧ complete ∧ fits) ∨ (¬ allocated ∧ ¬ complete) := by
  by_cases memory : allocated
  · constructor
    · intro ⟨rc, after, ran, whole, rejected⟩
      rcases outcome memory with ⟨loaded, same, grown⟩ | ⟨_, broken⟩
      · rw [same] at ran
        cases ran
        -- the run ends with 0, so the element has to be complete
        have present : complete := by
          apply Classical.byContradiction
          intro incomplete
          exact absurd (rejected incomplete).1 (by decide)
        exact Or.inl ⟨memory, present, grown.mp (whole present)⟩
      · exact absurd ran (broken _)
    · rintro (⟨_, present, fit⟩ | ⟨none, _⟩)
      · rcases outcome memory with ⟨loaded, same, grown⟩ | ⟨long, _⟩
        · exact ⟨0, loaded, same, fun _ => grown.mpr fit, fun absent => absurd present absent⟩
        · exact absurd fit long
      · exact absurd memory none
  · have ran := refused memory
    constructor
    · intro ⟨rc, after, same, whole, _⟩
      rw [ran] at same
      cases same
      exact Or.inr ⟨memory, fun present => fresh (whole present)⟩
    · rintro (⟨some, _⟩ | ⟨_, absent⟩)
      · exact absurd some memory
      · exact ⟨-enomem, ge, ran, fun present => absurd present absent,
          fun _ => ⟨by decide, kept⟩⟩

section Listed

variable {ν β : Type} {field : EntryField ν} {view : ν → β} {head : CircleqHead}
  {nodes : List ν}

/-- A queue holds one list of entries only. -/
theorem Listed.unique {count count' : Int} {entries entries' : List β}
    (listed : Listed field view head count nodes entries)
    (listed' : Listed field view head count' nodes entries') : entries = entries' := by
  obtain ⟨_, ids, queue, shown⟩ := listed
  obtain ⟨_, ids', queue', shown'⟩ := listed'
  rw [spine_unique ids queue.forward queue'.forward, shown'] at shown
  exact ((List.map_inj_right fun _ _ => Option.some.inj).mp shown).symm

end Listed

variable [Zero ι]

/-- The list of stocks is as it was. -/
def StocksKept (ge after : GoldenEye2 φ ι) : Prop :=
  after.stockList = ge.stockList ∧ after.stocks = ge.stocks ∧ after.stockCount = ge.stockCount

def IndicesKept (ge after : GoldenEye2 φ ι) : Prop :=
  after.indexList = ge.indexList ∧ after.indices = ge.indices ∧ after.indexCount = ge.indexCount

/-- The list of indices holds these entries. -/
def IndicesListed (ge : GoldenEye2 φ ι) (entries : List (CString × Int × Int × ι)) : Prop :=
  Listed indexField GeIndex.info ge.indexList ge.indexCount ge.indices entries

/-- The values of an index: exchange and code in full. -/
def indexValues (conv : Conv φ ι) (node : XmlElement) : CString × Int × Int × ι :=
  (propText node "exchange".toList none ++ propText node "code".toList none,
    cxmlGetPropBool node "enable".toList 0, cxmlGetPropBool node "visible".toList 0,
    cxmlGetPropInteger conv.atoi node "base".toList 0)

theorem stockFits_of_loaded {conv : Conv φ ι} {block : GeStock φ ι} {node : XmlElement}
    (named : node.name = "stock".toList) {ge : GoldenEye2 φ ι} {result : Int × GoldenEye2 φ ι}
    (loaded : parserLoadStock conv (some block) node ge = .ok result) : StockFits node := by
  rw [parserLoadStock, if_neg (not_not.mpr named)] at loaded
  dsimp only at loaded
  obtain ⟨_, code, loaded⟩ := bind_ends loaded
  obtain ⟨_, exchange, loaded⟩ := bind_ends loaded
  obtain ⟨_, abcode, loaded⟩ := bind_ends loaded
  obtain ⟨_, avg, loaded⟩ := bind_ends loaded
  obtain ⟨_, min, loaded⟩ := bind_ends loaded
  obtain ⟨_, aim, loaded⟩ := bind_ends loaded
  obtain ⟨_, profit, loaded⟩ := bind_ends loaded
  obtain ⟨_, loss, loaded⟩ := bind_ends loaded
  refine ⟨fits_of_cxmlGetPropString (by decide) code,
    fits_of_cxmlGetPropString (by decide) exchange,
    fits_of_cxmlGetPropString (by decide) abcode, ?_⟩
  simp only [priceNames, List.forall_mem_cons, List.not_mem_nil, false_implies, implies_true,
    and_true]
  exact ⟨fits_of_cxmlGetPropString (by decide) avg, fits_of_cxmlGetPropString (by decide) min,
    fits_of_cxmlGetPropString (by decide) aim, fits_of_cxmlGetPropString (by decide) profit,
    fits_of_cxmlGetPropString (by decide) loss⟩

theorem indexFits_of_loaded {conv : Conv φ ι} {block : GeIndex φ ι} {node : XmlElement}
    (named : node.name = "index".toList) {ge : GoldenEye2 φ ι} {result : Int × GoldenEye2 φ ι}
    (loaded : parserLoadIndex conv (some block) node ge = .ok result) : IndexFits node := by
  rw [parserLoadIndex, if_neg (not_not.mpr named)] at loaded
  dsimp only at loaded
  obtain ⟨_, exchange, loaded⟩ := bind_ends loaded
  obtain ⟨_, code, loaded⟩ := bind_ends loaded
  exact ⟨fits_of_cxmlGetPropString (by decide) exchange, fits_of_cxmlGetPropString (by decide) code⟩

theorem not_listed_twice {ν β : Type} {field : EntryField ν} {view : ν → β} {head : CircleqHead}
    {count count' : Int} {nodes : List ν} {entries : List β} {entry : β}
    (listed : Listed field view head count nodes entries) :
    ¬ Listed field view head count' nodes (entries ++ [entry]) := by
  intro longer
  have same := congrArg List.length (listed.unique longer)
  simp only [List.length_append, List.length_singleton] at same
  omega

theorem parserLoadStock_handles_iff (conv : Conv φ ι) (block : Option (GeStock φ ι))
    {node : XmlElement} (named : node.name = "stock".toList) {ge : GoldenEye2 φ ι}
    {entries : List (CString × CString × CString × ι × GeStkcfg φ)}
    (listed : StocksBuilt ge entries) :
    Handles (Complete stockRequired node) (StocksKept ge)
        (fun after => StocksBuilt after (entries ++ [stockInfo conv node]))
        (parserLoadStock conv block node ge) ↔
      (block.isSome ∧ Complete stockRequired node ∧ StockFits node) ∨
        (¬ block.isSome ∧ ¬ Complete stockRequired node) := by
  apply handles_iff
  · intro none
    rw [Option.not_isSome_iff_eq_none.mp none, parserLoadStock, if_neg (not_not.mpr named)]
  · exact ⟨rfl, rfl, rfl⟩
  · exact not_listed_twice listed
  · intro allocated
    obtain ⟨block, rfl⟩ := Option.isSome_iff_exists.mp allocated
    by_cases fits : StockFits node
    · obtain ⟨stockList, stocks, loaded, longer⟩ :=
        parserLoadStock_inserts conv named fits block listed
      exact Or.inl ⟨_, loaded, iff_of_true longer fits⟩
    · exact Or.inr ⟨fits, fun _ loaded => fits (stockFits_of_loaded named loaded)⟩

/-- Exchange and code of an index fit its code array together. -/
def IndexWhole (node : XmlElement) : Prop :=
  (propText node "exchange".toList none ++ propText node "code".toList none).length < geCodeSize

omit [Zero ι] in
theorem IndexWhole.fits {node : XmlElement} (whole : IndexWhole node) : IndexFits node := by
  unfold IndexWhole at whole
  rw [List.length_append] at whole
  have sizes : geCodeSize ≤ stkCodeSz := by decide
  exact ⟨by omega, by omega⟩

theorem indexInfo_eq_iff (conv : Conv φ ι) {node : XmlElement} :
    indexInfo conv node = indexValues conv node ↔ IndexWhole node := by
  have whole : ∀ text : CString, text.take (geCodeSize - 1) = text ↔ text.length < geCodeSize := by
    intro text
    have room : 0 < geCodeSize := by decide
    constructor
    · intro same
      have short := congrArg List.length same
      rw [List.length_take] at short
      omega
    · intro short
      exact List.take_of_length_le (by omega)
  simp only [indexInfo, indexValues, Prod.mk.injEq, and_true]
  exact whole _

theorem parserLoadIndex_handles_iff (conv : Conv φ ι) (block : Option (GeIndex φ ι))
    {node : XmlElement} (named : node.name = "index".toList) {ge : GoldenEye2 φ ι}
    {entries : List (CString × Int × Int × ι)} (listed : IndicesListed ge entries) :
    Handles (Complete indexRequired node) (IndicesKept ge)
        (fun after => IndicesListed after (entries ++ [indexValues conv node]))
        (parserLoadIndex conv block node ge) ↔
      (block.isSome ∧ Complete indexRequired node ∧ IndexWhole node) ∨
        (¬ block.isSome ∧ ¬ Complete indexRequired node) := by
  apply handles_iff
  · intro none
    rw [Option.not_isSome_iff_eq_none.mp none, parserLoadIndex, if_neg (not_not.mpr named)]
  · exact ⟨rfl, rfl, rfl⟩
  · exact not_listed_twice listed
  · intro allocated
    obtain ⟨block, rfl⟩ := Option.isSome_iff_exists.mp allocated
    by_cases fits : IndexFits node
    · obtain ⟨indexList, indices, loaded, longer⟩ :=
        parserLoadIndex_inserts conv named fits block listed
      refine Or.inl ⟨_, loaded, ?_⟩
      rw [← indexInfo_eq_iff conv]
      constructor
      · intro grown
        have same := Listed.unique longer grown
        exact (List.append_inj same rfl).2 |> List.singleton_inj.mp
      · intro same
        rw [← same]
        exact longer
    · exact Or.inr ⟨fun whole => fits whole.fits,
        fun _ loaded => fits (indexFits_of_loaded named loaded)⟩

/-- Missing attributes are read as empty texts, so an incomplete element is appended like any
other; only want of memory turns one away. -/
theorem incomplete_rejected_iff (conv : Conv φ ι) (ge : GoldenEye2 φ ι)
    (stocks : List (CString × CString × CString × ι × GeStkcfg φ))
    (indices : List (CString × Int × Int × ι)) (stocksListed : StocksBuilt ge stocks)
    (indicesListed : IndicesListed ge indices) (node : XmlElement) :
    (∀ block, node.name = "stock".toList →
      (Handles (Complete stockRequired node) (StocksKept ge)
          (fun after => StocksBuilt after (stocks ++ [stockInfo conv node]))
          (parserLoadStock conv block node ge) ↔
        (block.isSome ∧ Complete stockRequired node ∧ StockFits node) ∨
          (¬ block.isSome ∧ ¬ Complete stockRequired node))) ∧
    (∀ block, node.name = "index".toList →
      (Handles (Complete indexRequired node) (IndicesKept ge)
          (fun after => IndicesListed after (indices ++ [indexValues conv node]))
          (parserLoadIndex conv block node ge) ↔
        (block.isSome ∧ Complete indexRequired node ∧ IndexWhole node) ∨
          (¬ block.isSome ∧ ¬ Complete indexRequired node))) :=
  ⟨fun block named => parserLoadStock_handles_iff conv block named stocksListed,
    fun block named => parserLoadIndex_handles_iff conv block named indicesListed⟩

/-- A state with both lists empty. -/
def noEntries : GoldenEye2 Nat Nat where
  pullStockData := true
  pullIndexData := true
  stockCount := 0
  stockList := circleqInit
  indexCount := 0
  indexList := circleqInit
  stocks := []
  indices := []

/-- A stock without an exchange. -/
def stockWithoutExchange : XmlElement where
  name := "stock".toList
  attributes := [("code".toList, "600000".toList), ("abcode".toList, "A".toList)]

def stockBlock : GeStock Nat Nat :=
  ⟨StkDat.zero, [], [], [], 0, ⟨0, 0, 0, 0, 0, 0, 0⟩, ⟨.null, .null⟩⟩

theorem complete_stock_appended :
    Handles (Complete stockRequired stockElement) (StocksKept noEntries)
      (fun after => StocksBuilt after [stockInfo lengths stockElement])
      (parserLoadStock lengths (some stockBlock) stockElement noEntries) :=
  ((incomplete_rejected_iff lengths noEntries [] [] Listed.init Listed.init stockElement).1
    (some stockBlock) rfl).mpr
    (Or.inl ⟨rfl, by unfold Complete; decide, ⟨by decide, by decide, by decide, by decide⟩⟩)

/-- The stock without an exchange is appended with 0. -/
theorem incomplete_stock_appended :
    ¬ Complete stockRequired stockWithoutExchange ∧ StocksBuilt noEntries [] ∧
    (∃ after, parserLoadStock lengths (some stockBlock) stockWithoutExchange noEntries =
      .ok (0, after) ∧ after.stockCount = 1) ∧
    ¬ Handles (Complete stockRequired stockWithoutExchange) (StocksKept noEntries)
      (fun after => StocksBuilt after [stockInfo lengths stockWithoutExchange])
      (parserLoadStock lengths (some stockBlock) stockWithoutExchange noEntries) := by
  have incomplete : ¬ Complete stockRequired stockWithoutExchange := by
    unfold Complete
    decide
  refine ⟨incomplete, Listed.init, ⟨_, by rfl, by rfl⟩, ?_⟩
  intro ⟨rc, after, ran, _, rejected⟩
  have zero : rc = 0 := (Prod.mk.inj (Except.ok.inj ran)).1.symm
  have negative := (rejected incomplete).1
  omega

end Ct.Geye
