import Ct.Geye.Parser
import Ct.Geye.SinajsRefresh

set_option autoImplicit false

namespace Ct.Geye

open Ct.Lib
open Ct.Ccutils.Xml

section Loop

variable {σ β : Type} {f : Nat → XmlElement → σ → Except Fault (Int × σ)}

theorem parserLoadXobjects_done {nodeTab : List XmlElement} {i : Int} (done : nodeTab.length ≤ i)
    (param : σ) : parserLoadXobjects nodeTab f i param = .ok param := by
  rw [parserLoadXobjects, if_neg (by omega)]

/-- A start in front of the table reads outside it. -/
theorem parserLoadXobjects_negative {nodeTab : List XmlElement} {i : Int} (negative : i < 0)
    (some : nodeTab ≠ []) (param : σ) :
    parserLoadXobjects nodeTab f i param = .error .outOfBounds := by
  have room : 0 < nodeTab.length := List.length_pos_iff.mpr some
  rw [parserLoadXobjects, if_pos (by omega), nodeAt, if_pos negative]

theorem parserLoadXobjects_step {nodeTab rest : List XmlElement} {node : XmlElement} {k : Nat}
    (here : nodeTab.drop k = node :: rest) {param after : σ} {rc : Int}
    (called : f k node param = .ok (rc, after)) :
    parserLoadXobjects nodeTab f k param = parserLoadXobjects nodeTab f (k + 1 : Nat) after := by
  have at_k : nodeTab[k]? = some node := by
    rw [← List.head?_drop, here]
    rfl
  have below : k < nodeTab.length := (List.getElem?_eq_some_iff.mp at_k).1
  have natural : ¬ (k : Int) < 0 := by omega
  rw [parserLoadXobjects, if_pos (by omega), nodeAt, if_neg natural, Int.toNat_natCast, at_k]
  dsimp only
  rw [called]
  rfl

/-- Each call appends the entry of its element to what the loop has built. -/
theorem parserLoadXobjects_grows {Built : σ → List β → Prop} {info : XmlElement → β}
    {nodeTab : List XmlElement}
    (step : ∀ k node param entries, node ∈ nodeTab → Built param entries →
      ∃ rc after, f k node param = .ok (rc, after) ∧ Built after (entries ++ [info node]))
    (left : List XmlElement) :
    ∀ {k : Nat} {param : σ} {entries : List β}, nodeTab.drop k = left → Built param entries →
      ∃ after, parserLoadXobjects nodeTab f k param = .ok after ∧
        Built after (entries ++ left.map info) := by
  induction left with
  | nil =>
    intro k param entries ended built
    have done : nodeTab.length ≤ k := List.drop_eq_nil_iff.mp ended
    refine ⟨param, parserLoadXobjects_done (by omega) param, ?_⟩
    rw [List.map_nil, List.append_nil]
    exact built
  | cons node rest ih =>
    intro k param entries here built
    have member : node ∈ nodeTab := by
      refine (List.drop_sublist k nodeTab).subset ?_
      rw [here]
      exact List.mem_cons_self ..
    obtain ⟨rc, next, called, grown⟩ := step k node param entries member built
    have behind : nodeTab.drop (k + 1) = rest := by
      rw [← List.tail_drop, here]
      rfl
    obtain ⟨after, ran, final⟩ := ih behind grown
    refine ⟨after, ?_, ?_⟩
    · rw [parserLoadXobjects_step here called]
      exact ran
    · rw [List.map_cons, List.append_cons]
      exact final

/-- Where the loop starts inside the table, it builds the entries from there on. -/
theorem loadObject_grows (Built : σ → List β → Prop) {info : XmlElement → β} {doc : XmlDoc}
    {name : CString}
    (step : ∀ k node param entries, node ∈ selected doc name → Built param entries →
      ∃ rc after, f k node param = .ok (rc, after) ∧ Built after (entries ++ [info node]))
    {i : Int} (start : selected doc name = [] ∨ 0 ≤ i) {param : σ} (built : Built param []) :
    ∃ after, loadObject (getXpathObject doc name) f i param = .ok after ∧
      Built after (((selected doc name).drop i.toNat).map info) := by
  by_cases none : selected doc name = []
  · refine ⟨param, ?_, ?_⟩
    · rw [getXpathObject, none]
      rfl
    · rw [none, List.drop_nil]
      exact built
  · have natural : (i.toNat : Int) = i := Int.toNat_of_nonneg (start.resolve_left none)
    obtain ⟨after, ran, final⟩ := parserLoadXobjects_grows step _ rfl built
    refine ⟨after, ?_, final⟩
    rw [getXpathObject, if_neg (mt List.isEmpty_iff.mp none), ← natural]
    exact ran

theorem loadObject_negative {doc : XmlDoc} {name : CString} (some : selected doc name ≠ [])
    {i : Int} (negative : i < 0) (param : σ) :
    loadObject (getXpathObject doc name) f i param = .error .outOfBounds := by
  rw [getXpathObject, if_neg (mt List.isEmpty_iff.mp some)]
  exact parserLoadXobjects_negative negative some param

end Loop

section Listed

variable {ν β : Type}

/-- The queue holds these entries in this order, and the counter is their number. -/
def Listed (field : EntryField ν) (view : ν → β) (head : CircleqHead) (count : Int)
    (nodes : List ν) (entries : List β) : Prop :=
  count = entries.length ∧ ∃ ids, Queue field head nodes ids ∧
    ids.map (fun i => (nodes.map view)[i]?) = entries.map some

theorem Listed.init {field : EntryField ν} {view : ν → β} {nodes : List ν} :
    Listed field view circleqInit 0 nodes [] :=
  ⟨rfl, [], Queue.init, rfl⟩

theorem Listed.insertTail {field : EntryField ν} {view : ν → β}
    (blind : ∀ node links, view (field.withEntry node links) = view node) {head : CircleqHead}
    {count : Int} {nodes : List ν} {entries : List β}
    (listed : Listed field view head count nodes entries) (elm : ν) :
    ∃ head' nodes', circleqInsertTail field head nodes elm = .ok (head', nodes') ∧
      Listed field view head' (count + 1) nodes' (entries ++ [view elm]) := by
  obtain ⟨counted, ids, queue, shown⟩ := listed
  obtain ⟨head', nodes', inserted, longer, viewed⟩ := queue.insertTail elm
  refine ⟨head', nodes', inserted, ?_, ids ++ [nodes.length], longer, ?_⟩
  · rw [List.length_append, List.length_singleton, counted]
    rfl
  · rw [viewed view blind, List.map_append, List.map_append, List.map_singleton,
      List.map_singleton]
    congr 1
    · rw [← shown]
      refine List.map_congr_left fun i member => ?_
      rw [List.getElem?_append_left]
      rw [List.length_map]
      exact queue.inside i member
    · rw [← List.length_map view, List.getElem?_append_right (Nat.le_refl _), Nat.sub_self]
      rfl

/-- A walk along the queue that only counts gets to its end. -/
theorem Listed.walk {field : EntryField ν} {view : ν → β} {head : CircleqHead} {count : Int}
    {nodes : List ν} {entries : List β} (listed : Listed field view head count nodes entries)
    (start fuel : Nat) (enough : entries.length < fuel) :
    ∃ link stop, traverse (field.next nodes) (fun _ i => .ok (false, i + 1)) fuel head.first
      start = .ok (link, stop) := by
  obtain ⟨_, ids, queue, shown⟩ := listed
  have same : ids.length = entries.length := by
    have lengths := congrArg List.length shown
    rw [List.length_map, List.length_map] at lengths
    exact lengths
  rw [traverse_spine _ ids start queue.forward (by omega)]
  clear same shown queue enough
  induction ids generalizing start with
  | nil => exact ⟨_, _, rfl⟩
  | cons i rest ih => exact ih (start + 1)

end Listed

variable {φ ι : Type} [Zero ι]

/-- What the configuration says about a stock. -/
def GeStock.info (stock : GeStock φ ι) : CString × CString × CString × ι × GeStkcfg φ :=
  (stock.code, stock.exchange, stock.abcode, stock.num, stock.cfg)

/-- What the configuration says about an index. -/
def GeIndex.info (index : GeIndex φ ι) : CString × Int × Int × ι :=
  (index.data.code, index.enable, index.visible, index.base)

def priceNames : List CString :=
  ["avg_price".toList, "min_price".toList, "aim_price".toList, "stop_profit".toList,
    "stop_loss".toList]

def stockInfo (conv : Conv φ ι) (node : XmlElement) :
    CString × CString × CString × ι × GeStkcfg φ :=
  (propText node "code".toList none, propText node "exchange".toList none,
    propText node "abcode".toList none, cxmlGetPropInteger conv.atoi node "num".toList 0,
    { enable := cxmlGetPropBool node "enable".toList 0
      visible := cxmlGetPropBool node "visible".toList 0
      minPrice := conv.atof (propText node "min_price".toList (some ['0']))
      aimPrice := conv.atof (propText node "aim_price".toList (some ['0']))
      avgPrice := conv.atof (propText node "avg_price".toList (some ['0']))
      stopProfit := conv.atof (propText node "stop_profit".toList (some ['0']))
      stopLoss := conv.atof (propText node "stop_loss".toList (some ['0'])) })

/-- An index is known by exchange and code together, cut to the size of its array. -/
def indexInfo (conv : Conv φ ι) (node : XmlElement) : CString × Int × Int × ι :=
  ((propText node "exchange".toList none ++ propText node "code".toList none).take (geCodeSize - 1),
    cxmlGetPropBool node "enable".toList 0, cxmlGetPropBool node "visible".toList 0,
    cxmlGetPropInteger conv.atoi node "base".toList 0)

/-- The attributes of a stock fit the arrays that they are copied to. -/
structure StockFits (node : XmlElement) : Prop where
  code : (propText node "code".toList none).length < stkCodeSz
  exchange : (propText node "exchange".toList none).length < stkExSz
  abcode : (propText node "abcode".toList none).length < geAbcodeSz
  prices : ∀ name ∈ priceNames, (propText node name (some ['0'])).length < propbufSize

structure IndexFits (node : XmlElement) : Prop where
  exchange : (propText node "exchange".toList none).length < stkCodeSz
  code : (propText node "code".toList none).length < geCodeSize

theorem parserLoadStock_inserts (conv : Conv φ ι) {node : XmlElement} (named : node.name = "stock".toList)
    (fits : StockFits node) (block : GeStock φ ι) {ge : GoldenEye2 φ ι}
    {entries : List (CString × CString × CString × ι × GeStkcfg φ)}
    (listed : Listed stockField GeStock.info ge.stockList ge.stockCount ge.stocks entries) :
    ∃ stockList stocks, parserLoadStock conv (some block) node ge =
        .ok (0, { ge with
          stockList := stockList, stocks := stocks, stockCount := ge.stockCount + 1 }) ∧
      Listed stockField GeStock.info stockList (ge.stockCount + 1) stocks
        (entries ++ [stockInfo conv node]) := by
  obtain ⟨stockList, stocks, inserted, longer⟩ := listed.insertTail (fun _ _ => rfl)
    { block with
      code := propText node "code".toList none
      exchange := propText node "exchange".toList none
      abcode := propText node "abcode".toList none
      num := cxmlGetPropInteger conv.atoi node "num".toList 0
      cfg := (stockInfo conv node).2.2.2.2 }
  refine ⟨stockList, stocks, ?_, longer⟩
  have price : ∀ name ∈ priceNames,
      cxmlGetPropString node name (some ['0']) propbufSize =
        .ok (propText node name (some ['0'])) :=
    fun name member => cxmlGetPropString_fits (fits.prices name member)
  simp only [priceNames, List.forall_mem_cons, List.not_mem_nil, false_implies, implies_true,
    and_true] at price
  obtain ⟨avg, min, aim, profit, loss⟩ := price
  rw [parserLoadStock, if_neg (not_not.mpr named)]
  simp only [cxmlGetPropString_fits fits.code, cxmlGetPropString_fits fits.exchange,
    cxmlGetPropString_fits fits.abcode, avg, min, aim, profit, loss, bind, Except.bind]
  have same := inserted
  simp only [stockInfo] at same
  rw [same]
  rfl

theorem strncat_room {dst : CString} (src : CString) {size : Nat} (short : dst.length < size) :
    strncat dst src (size - dst.length - 1) = (dst ++ src).take (size - 1) := by
  have room : size - 1 - dst.length = size - dst.length - 1 := by omega
  rw [strncat, List.take_append, List.take_of_length_le (by omega : dst.length ≤ size - 1), room]

theorem parserLoadIndex_inserts (conv : Conv φ ι) {node : XmlElement} (named : node.name = "index".toList)
    (fits : IndexFits node) (block : GeIndex φ ι) {ge : GoldenEye2 φ ι}
    {entries : List (CString × Int × Int × ι)}
    (listed : Listed indexField GeIndex.info ge.indexList ge.indexCount ge.indices entries) :
    ∃ indexList indices, parserLoadIndex conv (some block) node ge =
        .ok (0, { ge with
          indexList := indexList, indices := indices, indexCount := ge.indexCount + 1 }) ∧
      Listed indexField GeIndex.info indexList (ge.indexCount + 1) indices
        (entries ++ [indexInfo conv node]) := by
  obtain ⟨indexList, indices, inserted, longer⟩ := listed.insertTail (fun _ _ => rfl)
    { block with
      data := { block.data with code := (indexInfo conv node).1 }
      enable := cxmlGetPropBool node "enable".toList 0
      visible := cxmlGetPropBool node "visible".toList 0
      base := cxmlGetPropInteger conv.atoi node "base".toList 0 }
  refine ⟨indexList, indices, ?_, longer⟩
  have cut : strncat (propText node "exchange".toList none) (propText node "code".toList none)
      (geCodeSize - (propText node "exchange".toList none).length - 1) =
        (indexInfo conv node).1 := strncat_room _ fits.exchange
  rw [parserLoadIndex, if_neg (not_not.mpr named)]
  simp only [cxmlGetPropString_fits fits.exchange, cxmlGetPropString_fits fits.code, cut, inserted,
    bind, Except.bind]
  rfl

/-- The elements of the document fit, and every `malloc` of the run succeeds. -/
structure Loadable (doc : XmlDoc) (garbage : Garbage φ ι) : Prop where
  stocks : ∀ node ∈ selected doc "stock".toList, StockFits node
  indices : ∀ node ∈ selected doc "index".toList, IndexFits node
  stockBlocks : ∀ k, (garbage.stockBlock k).isSome
  indexBlocks : ∀ k, (garbage.indexBlock k).isSome

/-- The run ends with a value that is not negative, and each list has one entry per element in
document order. -/
def LoadsAll (conv : Conv φ ι) (doc : XmlDoc) (garbage : Garbage φ ι) (ge : GoldenEye2 φ ι) :
    Prop :=
  ∃ rc final, 0 ≤ rc ∧
    (∃ enough, ∀ fuel, enough ≤ fuel →
      parserLoadXml conv (some doc) garbage fuel ge = .ok (rc, final)) ∧
    Listed stockField GeStock.info final.stockList final.stockCount final.stocks
      ((selected doc "stock".toList).map (stockInfo conv)) ∧
    Listed indexField GeIndex.info final.indexList final.indexCount final.indices
      ((selected doc "index".toList).map (indexInfo conv))

theorem selected_name {doc : XmlDoc} {name : CString} {node : XmlElement}
    (member : node ∈ selected doc name) : node.name = name := by
  unfold selected at member
  split at member
  · exact eq_of_beq (List.mem_filter.mp member).2
  · cases member

section Run

variable {doc : XmlDoc} {garbage : Garbage φ ι}

/-- The stock list holds these entries. -/
def StocksBuilt (ge : GoldenEye2 φ ι)
    (entries : List (CString × CString × CString × ι × GeStkcfg φ)) : Prop :=
  Listed stockField GeStock.info ge.stockList ge.stockCount ge.stocks entries

/-- The index list holds these entries, and the stocks are as they were in `half`. -/
def IndicesBuilt (half ge : GoldenEye2 φ ι) (entries : List (CString × Int × Int × ι)) : Prop :=
  Listed indexField GeIndex.info ge.indexList ge.indexCount ge.indices entries ∧
    ge.stockList = half.stockList ∧ ge.stockCount = half.stockCount ∧ ge.stocks = half.stocks

theorem stocks_load (conv : Conv φ ι) (loadable : Loadable doc garbage)
    (start : selected doc "stock".toList = [] ∨ 0 ≤ garbage.stockStart) (ge : GoldenEye2 φ ι) :
    ∃ after, loadObject (getXpathObject doc "stock".toList)
        (fun i => parserLoadStock conv (garbage.stockBlock i)) garbage.stockStart
        { ge with stockCount := 0, stockList := circleqInit } = .ok after ∧
      StocksBuilt after
        (((selected doc "stock".toList).drop garbage.stockStart.toNat).map (stockInfo conv)) := by
  refine loadObject_grows StocksBuilt (fun k node param entries member listed => ?_) start
    Listed.init
  obtain ⟨block, allocated⟩ := Option.isSome_iff_exists.mp (loadable.stockBlocks k)
  obtain ⟨stockList, stocks, inserted, longer⟩ := parserLoadStock_inserts conv
    (selected_name member) (loadable.stocks node member) block listed
  rw [allocated]
  exact ⟨0, _, inserted, longer⟩

theorem indices_load (conv : Conv φ ι) (loadable : Loadable doc garbage)
    (start : selected doc "index".toList = [] ∨ 0 ≤ garbage.indexStart) (half : GoldenEye2 φ ι) :
    ∃ after, loadObject (getXpathObject doc "index".toList)
        (fun i => parserLoadIndex conv (garbage.indexBlock i)) garbage.indexStart
        { half with indexCount := 0, indexList := circleqInit } = .ok after ∧
      IndicesBuilt half after
        (((selected doc "index".toList).drop garbage.indexStart.toNat).map (indexInfo conv)) := by
  refine loadObject_grows (IndicesBuilt half) (fun k node param entries member built => ?_) start
    ⟨Listed.init, rfl, rfl, rfl⟩
  obtain ⟨block, allocated⟩ := Option.isSome_iff_exists.mp (loadable.indexBlocks k)
  obtain ⟨listed, same⟩ := built
  obtain ⟨indexList, indices, inserted, longer⟩ := parserLoadIndex_inserts conv
    (selected_name member) (loadable.indices node member) block listed
  rw [allocated]
  exact ⟨0, _, inserted, longer, same⟩

omit [Zero ι] in
theorem stockField_next (stocks : List (GeStock φ ι)) : stockField.next stocks = stockNext stocks := by
  funext i
  unfold EntryField.next stockNext
  cases stocks[i]? with
  | none => rfl
  | some stock => rfl

omit [Zero ι] in
theorem indexField_next (indices : List (GeIndex φ ι)) :
    indexField.next indices = indexNext indices := by
  funext i
  unfold EntryField.next indexNext
  cases indices[i]? with
  | none => rfl
  | some index => rfl

omit [Zero ι] in
theorem parserPrintXml_ends {ge : GoldenEye2 φ ι}
    {stockEntries : List (CString × CString × CString × ι × GeStkcfg φ)}
    {indexEntries : List (CString × Int × Int × ι)}
    (stocks : Listed stockField GeStock.info ge.stockList ge.stockCount ge.stocks stockEntries)
    (indices : Listed indexField GeIndex.info ge.indexList ge.indexCount ge.indices indexEntries)
    {fuel : Nat} (enough : stockEntries.length + indexEntries.length < fuel) :
    parserPrintXml fuel ge = .ok () := by
  obtain ⟨_, _, first⟩ := stocks.walk 0 fuel (by omega)
  obtain ⟨_, _, second⟩ := indices.walk 0 fuel (by omega)
  rw [stockField_next] at first
  rw [indexField_next] at second
  rw [parserPrintXml, first]
  dsimp only
  rw [second]

/-- Where neither loop starts in front of its table, the lists hold what follows the start. -/
theorem parserLoadXml_lists (conv : Conv φ ι) (ge : GoldenEye2 φ ι) (loadable : Loadable doc garbage)
    (stockStart : selected doc "stock".toList = [] ∨ 0 ≤ garbage.stockStart)
    (indexStart : selected doc "index".toList = [] ∨ 0 ≤ garbage.indexStart) :
    ∃ final enough, (∀ fuel, enough ≤ fuel →
        parserLoadXml conv (some doc) garbage fuel ge = .ok (garbage.rc, final)) ∧
      Listed stockField GeStock.info final.stockList final.stockCount final.stocks
        (((selected doc "stock".toList).drop garbage.stockStart.toNat).map (stockInfo conv)) ∧
      Listed indexField GeIndex.info final.indexList final.indexCount final.indices
        (((selected doc "index".toList).drop garbage.indexStart.toNat).map (indexInfo conv)) := by
  obtain ⟨half, first, stocks⟩ := stocks_load conv loadable stockStart ge
  obtain ⟨final, second, indices, head, count, nodes⟩ :=
    indices_load conv loadable indexStart half
  rw [StocksBuilt, ← head, ← count, ← nodes] at stocks
  refine ⟨final, (selected doc "stock".toList).length + (selected doc "index".toList).length + 1,
    fun fuel enough => ?_, stocks, indices⟩
  unfold parserLoadXml
  simp only [first, second, bind, Except.bind]
  rw [parserPrintXml_ends stocks indices]
  · rfl
  · rw [List.length_map, List.length_map, List.length_drop, List.length_drop]
    omega

/-- A loop that starts in front of its table reads outside it. -/
theorem parserLoadXml_negative (conv : Conv φ ι) (ge : GoldenEye2 φ ι) (loadable : Loadable doc garbage)
    (outside : ¬ ((selected doc "stock".toList = [] ∨ 0 ≤ garbage.stockStart) ∧
      (selected doc "index".toList = [] ∨ 0 ≤ garbage.indexStart))) (fuel : Nat) :
    parserLoadXml conv (some doc) garbage fuel ge = .error .outOfBounds := by
  unfold parserLoadXml
  by_cases stockStart : selected doc "stock".toList = [] ∨ 0 ≤ garbage.stockStart
  · obtain ⟨half, first, _⟩ := stocks_load conv loadable stockStart ge
    have indexStart := not_or.mp fun inside => outside ⟨stockStart, inside⟩
    simp only [first, loadObject_negative indexStart.1 (Int.not_le.mp indexStart.2), bind,
      Except.bind]
  · rw [not_or] at stockStart
    simp only [loadObject_negative stockStart.1 (Int.not_le.mp stockStart.2), bind, Except.bind]

theorem drop_of_start {α : Type} {xs : List α} {i : Int} (start : xs = [] ∨ i = 0) :
    xs.drop i.toNat = xs := by
  rcases start with rfl | rfl
  · exact List.drop_nil
  · rfl

theorem drop_eq_self_iff {α : Type} {xs : List α} {i : Int} (start : xs = [] ∨ 0 ≤ i) :
    (xs.drop i.toNat).length = xs.length ↔ xs = [] ∨ i = 0 := by
  rw [List.length_drop]
  constructor
  · intro same
    by_cases none : xs = []
    · exact Or.inl none
    · have some : 0 < xs.length := List.length_pos_iff.mpr none
      have natural := start.resolve_left none
      exact Or.inr (by omega)
  · rintro (rfl | rfl)
    · exact Nat.zero_sub _
    · exact Nat.sub_zero _

/-- The run is determined: the lists are as long as the node sets only where nothing was skipped. -/
theorem LoadsAll.lengths {conv : Conv φ ι} {ge : GoldenEye2 φ ι} (loadable : Loadable doc garbage)
    (stockStart : selected doc "stock".toList = [] ∨ 0 ≤ garbage.stockStart)
    (indexStart : selected doc "index".toList = [] ∨ 0 ≤ garbage.indexStart)
    (loads : LoadsAll conv doc garbage ge) :
    ((selected doc "stock".toList).drop garbage.stockStart.toNat).length =
        (selected doc "stock".toList).length ∧
      ((selected doc "index".toList).drop garbage.indexStart.toNat).length =
        (selected doc "index".toList).length ∧ 0 ≤ garbage.rc := by
  obtain ⟨rc, final, natural, ⟨enough, runs⟩, stocks, indices⟩ := loads
  obtain ⟨other, enough', runs', stocks', indices'⟩ :=
    parserLoadXml_lists conv ge loadable stockStart indexStart
  have run := (runs (enough + enough') (by omega)).symm.trans
    (runs' (enough + enough') (by omega))
  injection run with same
  injection same with same_rc same_final
  subst same_rc
  subst same_final
  have stockCount := stocks'.1.symm.trans stocks.1
  have indexCount := indices'.1.symm.trans indices.1
  rw [List.length_map, List.length_map, Int.natCast_inj] at stockCount indexCount
  exact ⟨stockCount, indexCount, natural⟩

/-- The configuration is loaded exactly when either loop finds 0 in its variable, or no elements,
and the value in the place of the missing return value is not negative. -/
theorem parser_load_xml_loads_all_iff (conv : Conv φ ι) (doc : XmlDoc) (garbage : Garbage φ ι)
    (ge : GoldenEye2 φ ι) (loadable : Loadable doc garbage) :
    LoadsAll conv doc garbage ge ↔
      (selected doc "stock".toList = [] ∨ garbage.stockStart = 0) ∧
        (selected doc "index".toList = [] ∨ garbage.indexStart = 0) ∧ 0 ≤ garbage.rc := by
  constructor
  · intro loads
    by_cases inside : (selected doc "stock".toList = [] ∨ 0 ≤ garbage.stockStart) ∧
        (selected doc "index".toList = [] ∨ 0 ≤ garbage.indexStart)
    · obtain ⟨stocks, indices, natural⟩ := loads.lengths loadable inside.1 inside.2
      exact ⟨(drop_eq_self_iff inside.1).mp stocks, (drop_eq_self_iff inside.2).mp indices,
        natural⟩
    · obtain ⟨rc, final, _, ⟨enough, runs⟩, _⟩ := loads
      have run := runs enough (Nat.le_refl _)
      rw [parserLoadXml_negative conv ge loadable inside] at run
      cases run
  · rintro ⟨stockStart, indexStart, natural⟩
    obtain ⟨final, enough, runs, stocks, indices⟩ := parserLoadXml_lists conv ge
      loadable (stockStart.imp_right fun zero => by omega)
      (indexStart.imp_right fun zero => by omega)
    rw [drop_of_start stockStart] at stocks
    rw [drop_of_start indexStart] at indices
    exact ⟨garbage.rc, final, natural, ⟨enough, runs⟩, stocks, indices⟩

end Run

/-- A stock with all its attributes. -/
def stockElement : XmlElement where
  name := "stock".toList
  attributes :=
    [("code".toList, "600000".toList), ("exchange".toList, "sh".toList),
      ("abcode".toList, "A".toList), ("enable".toList, "true".toList),
      ("visible".toList, "true".toList), ("num".toList, "100".toList),
      ("avg_price".toList, "9.5".toList), ("min_price".toList, "9".toList),
      ("aim_price".toList, "10".toList), ("stop_profit".toList, "11".toList),
      ("stop_loss".toList, "8".toList)]

/-- A document with this stock and no index. -/
def oneStockDoc : XmlDoc where
  root := "root".toList
  children := [stockElement]

/-- Memory in which the first `i` happens to hold this value and every other variable 0. -/
def stackWith (start : Int) : Garbage Nat Nat where
  stockStart := start
  indexStart := 0
  stockBlock _ := some ⟨StkDat.zero, [], [], [], 0, ⟨0, 0, 0, 0, 0, 0, 0⟩, ⟨.null, .null⟩⟩
  indexBlock _ := some ⟨IdxDat.zero, 0, 0, 0, ⟨.null, .null⟩⟩
  rc := 0

theorem oneStockDoc_stocks : selected oneStockDoc "stock".toList = [stockElement] := by rfl

theorem oneStockDoc_indices : selected oneStockDoc "index".toList = [] := by rfl

theorem oneStockDoc_loadable (start : Int) : Loadable oneStockDoc (stackWith start) where
  stocks := by
    intro node member
    rw [oneStockDoc_stocks] at member
    rw [List.mem_singleton.mp member]
    exact ⟨by decide, by decide, by decide, by decide⟩
  indices := by
    intro node member
    rw [oneStockDoc_indices] at member
    cases member
  stockBlocks := fun _ => rfl
  indexBlocks := fun _ => rfl

theorem parser_load_xml_loads_one : LoadsAll lengths oneStockDoc (stackWith 0) oneStock :=
  (parser_load_xml_loads_all_iff lengths oneStockDoc (stackWith 0) oneStock
    (oneStockDoc_loadable 0)).mpr ⟨Or.inr rfl, Or.inl oneStockDoc_indices, by decide⟩

/-- Where `i` happens to hold 1, the only stock of the document is skipped. -/
theorem uninitialised_start_skips :
    Loadable oneStockDoc (stackWith 1) ∧ ¬ LoadsAll lengths oneStockDoc (stackWith 1) oneStock := by
  refine ⟨oneStockDoc_loadable 1, ?_⟩
  intro loads
  have stocks := (loads.lengths (oneStockDoc_loadable 1) (Or.inr (by decide))
    (Or.inl oneStockDoc_indices)).1
  rw [oneStockDoc_stocks] at stocks
  cases stocks

end Ct.Geye
