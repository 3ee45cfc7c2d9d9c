import Ct.Ccutils.NetChunks
import Ct.Geye.SinajsLines

set_option autoImplicit false

namespace Ct.Geye

open Ct.Lib
open Ct.Ccutils.Net

variable {φ ι : Type} {ge : GoldenEye2 φ ι} {nodes : List Nat} {fuel : Nat}

section Url

variable {stocks : List (GeStock φ ι)}

/-- What one stock adds to the URL. -/
def slistEntry (stocks : List (GeStock φ ι)) (i : Nat) : CString :=
  match stocks[i]? with
  | none => []
  | some stock =>
    if stock.cfg.enable ≠ 0 then stock.exchange ++ stock.code ++ [','] else []

/-- The URL for the enabled stocks of the list. -/
def stockUrl (stocks : List (GeStock φ ι)) (nodes : List Nat) : CString :=
  slistUrl ++ (nodes.map (slistEntry stocks)).flatten

theorem slistBody_eq {i : Nat} {stock : GeStock φ ι} (here : stocks[i]? = some stock)
    {slist : CString} (room : slist.length < slistSize) :
    slistBody stocks i slist =
      if (slist ++ slistEntry stocks i).length < slistSize then
        .ok (false, slist ++ slistEntry stocks i)
      else .error .outOfBounds := by
  simp only [slistBody, slistEntry, here]
  by_cases enabled : stock.cfg.enable = 0
  · simp only [enabled, ne_eq, not_true_eq_false, ↓reduceIte, List.append_nil, room]
  · simp only [enabled, ne_eq, not_false_eq_true, ↓reduceIte, ← List.append_assoc]
    by_cases first : (slist ++ stock.exchange).length < slistSize
    · by_cases second : (slist ++ stock.exchange ++ stock.code).length < slistSize
      · by_cases third : (slist ++ stock.exchange ++ stock.code ++ [',']).length < slistSize
        · simp only [strcat, first, second, third, ↓reduceIte, bind, Except.bind, pure, Except.pure]
        · simp only [strcat, first, second, third, ↓reduceIte, bind, Except.bind]
      · have third : ¬ (slist ++ stock.exchange ++ stock.code ++ [',']).length < slistSize := by
          rw [List.length_append]
          omega
        simp only [strcat, first, second, third, ↓reduceIte, bind, Except.bind]
    · have third : ¬ (slist ++ stock.exchange ++ stock.code ++ [',']).length < slistSize := by
        rw [List.length_append, List.length_append]
        omega
      simp only [strcat, first, third, ↓reduceIte, bind, Except.bind]

/-- The URL is built exactly when it fits `slist`. -/
theorem visitAll_slist (nodes : List Nat) :
    ∀ {slist : CString}, slist.length < slistSize →
      (∀ i ∈ nodes, ∃ stock, stocks[i]? = some stock) →
      visitAll (slistBody stocks) nodes slist =
        if (slist ++ (nodes.map (slistEntry stocks)).flatten).length < slistSize then
          .ok (.head, slist ++ (nodes.map (slistEntry stocks)).flatten)
        else .error .outOfBounds := by
  induction nodes with
  | nil =>
    intro slist room _
    simp only [visitAll, List.map_nil, List.flatten_nil, List.append_nil, room, ↓reduceIte]
  | cons i rest ih =>
    intro slist room stored
    obtain ⟨stock, here⟩ := stored i (List.mem_cons_self ..)
    simp only [visitAll, slistBody_eq here room, List.map_cons, List.flatten_cons,
      ← List.append_assoc]
    by_cases more : (slist ++ slistEntry stocks i).length < slistSize
    · simp only [more, ↓reduceIte]
      exact ih more fun j member => stored j (List.mem_cons_of_mem _ member)
    · have full : ¬ (slist ++ slistEntry stocks i ++
          (rest.map (slistEntry stocks)).flatten).length < slistSize := by
        rw [List.length_append]
        omega
      simp only [more, full, ↓reduceIte]

end Url

variable [Zero φ] [Zero ι] {conv : Conv φ ι}

/-- The string in the buffer after `buffer[rc] = 0`. -/
theorem terminate_received (response rest : List Char) :
    terminate (response ++ rest) response.length =
      if rest = [] then .error .outOfBounds
      else .ok (response.takeWhile (· != '\x00')) := by
  have cut : ∀ tail, (response ++ '\x00' :: tail).takeWhile (· != '\x00') =
      response.takeWhile (· != '\x00') := by
    intro tail
    induction response with
    | nil => rfl
    | cons c more ih =>
      by_cases zero : c = '\x00'
      · simp [zero]
      · rw [List.cons_append, List.takeWhile_cons_of_pos (by simpa using zero),
          List.takeWhile_cons_of_pos (by simpa using zero), ih]
  cases rest with
  | nil => simp [terminate]
  | cons c tail => simp [terminate, cut]

/-- A run with this response returns 0, gives every listed stock whose key occurs the data of its
last line, and changes nothing else. -/
def Refreshes (conv : Conv φ ι) (curl : Transfer) (buffer : List Char) (ge : GoldenEye2 φ ι)
    (nodes : List Nat) (lines : List QuoteLine) : Prop :=
  ∃ enough, ∀ fuel, enough ≤ fuel →
    sinajsPullStockData conv curl buffer fuel ge =
      .ok (0, { ge with stocks := refresh conv nodes lines ge.stocks })

/-- The lines that a string holds. -/
def MadeOf (text : CString) (lines : List QuoteLine) : Prop :=
  tokens '\n' text = lines.map QuoteLine.text

/-- Given what `http_get` has put in the buffer, the run is the loop over its lines. -/
theorem sinajsPullStockData_eq (listed : StockList ge nodes) (enough : nodes.length < fuel)
    {curl : Transfer} {buffer response rest : List Char}
    (received : ∀ url, httpGet (some url) curl buffer = .ok (response.length, response ++ rest)) :
    sinajsPullStockData conv curl buffer fuel ge =
      if (stockUrl ge.stocks nodes).length < slistSize ∧ rest ≠ [] then
        stockLines conv fuel fuel (response.takeWhile (· != '\x00')) ge
      else .error .outOfBounds := by
  have start : slistUrl.length < slistSize := by decide
  have natural : ¬ (response.length : Int) < 0 := by omega
  rw [sinajsPullStockData, traverse_spine _ _ slistUrl listed.spine enough,
    visitAll_slist nodes start (spine_mem listed.spine)]
  by_cases fits : (stockUrl ge.stocks nodes).length < slistSize
  · have fits' := fits
    rw [stockUrl] at fits'
    simp only [fits', fits, ↓reduceIte, received, natural, terminate_received, true_and]
    by_cases full : rest = []
    · simp only [full, ↓reduceIte, ne_eq, not_true_eq_false]
    · simp only [full, ↓reduceIte, ne_eq, not_false_eq_true]
  · have fits' := fits
    rw [stockUrl] at fits'
    simp only [fits', fits, ↓reduceIte, false_and]

theorem Refreshes.condition (listed : StockList ge nodes) {lines : List QuoteLine}
    {curl : Transfer} {buffer response rest : List Char}
    (received : ∀ url, httpGet (some url) curl buffer = .ok (response.length, response ++ rest))
    (made : MadeOf (response.takeWhile (· != '\x00')) lines)
    (refreshes : Refreshes conv curl buffer ge nodes lines) :
    (stockUrl ge.stocks nodes).length < slistSize ∧ rest ≠ [] ∧
      ∀ line ∈ lines, Reaches ge.stocks nodes line.code := by
  obtain ⟨enough, runs⟩ := refreshes
  have room : nodes.length < enough + (nodes.length + 1) := by omega
  have run := runs (enough + (nodes.length + 1)) (by omega)
  rw [sinajsPullStockData_eq listed room received] at run
  split at run
  · rename_i fits
    exact ⟨fits.1, fits.2, stockLines_reaches lines listed room made run rfl⟩
  · cases run

/-- A list with the single stock `sh1`. -/
def oneStock : GoldenEye2 Nat Nat where
  pullStockData := true
  pullIndexData := true
  stockCount := 1
  stockList := ⟨.node 0, .node 0⟩
  indexCount := 0
  indexList := ⟨.head, .head⟩
  stocks := [⟨StkDat.zero, ['1'], ['s', 'h'], [], 0, ⟨1, 1, 0, 0, 0, 0, 0⟩, ⟨.head, .head⟩⟩]
  indices := []

/-- A quote of the stock `sh1`. -/
def quoteOfOne : QuoteLine where
  code := ['s', 'h', '1']
  fs := List.replicate 32 ['1']
  rest := [';']
  formed := ⟨by decide, by simp [isSpace], by decide, by decide, by decide, by decide⟩
  dates := ⟨by decide, by decide⟩

theorem oneStock_listed : StockList oneStock [0] where
  spine := ⟨rfl, .head, rfl, trivial⟩
  distinct := by decide

def lengths : Conv Nat Nat := ⟨List.length, List.length, List.length, id⟩

end Ct.Geye
