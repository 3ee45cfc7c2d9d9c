import Ct.Geye.Market
import Ct.Geye.SinajsRefresh

set_option autoImplicit false

namespace Ct.Geye

open Ct.Lib
open Ct.Ccutils.Net

variable {φ ι : Type} [Zero φ] [Zero ι]

/-- The call returns, and a negative value. -/
def Negative {β : Type} (result : Except Fault (Int × β)) : Prop :=
  ∃ rc out, result = .ok (rc, out) ∧ rc < 0

/-- `curl_easy_init` or `curl_easy_perform` fails, the latter before or after some chunks. -/
def TransferFails (curl : Transfer) : Prop := curl.handle = false ∨ curl.performed = false

/-- The text of the response, where one arrives in the buffer. -/
def received (url : CString) (curl : Transfer) (buffer : List Char) : Option CString :=
  match httpGet (some url) curl buffer with
  | .error _ => none
  | .ok (rc, buffer) => (terminate buffer rc).toOption

/-- A line of the index response does not decode, or its index is not in the list. -/
def IndexLineFails (conv : Conv φ ι) (ge : GoldenEye2 φ ι) (line : CString) : Prop :=
  Negative (sinajsIndexDecode conv (some line) IdxDat.zero) ∨
    ∃ index, sinajsIndexDecode conv (some line) IdxDat.zero = .ok (0, index) ∧
      ∃ fuel, Negative (sinajsIndexAttachV2 fuel ge index)

/-- The index half of a refresh fails: its transfer or one of its lines. -/
def IndexFails (conv : Conv φ ι) (net : Net) (ge : GoldenEye2 φ ι) : Prop :=
  TransferFails net.indexCurl ∨
    ∃ text line, received indexUrl net.indexCurl net.indexBuffer = some text ∧
      line ∈ tokens '\n' text ∧ IndexLineFails conv ge line

/-- The stock half fails: its transfer, or the decoding of a line. -/
def StockFails (conv : Conv φ ι) (net : Net) : Prop :=
  TransferFails net.stockCurl ∨
    ∃ url text line, received url net.stockCurl net.stockBuffer = some text ∧
      line ∈ tokens '\n' text ∧ Negative (sinajsStockDecode conv (some line) StkDat.zero)

/-- One of the pulls that the refresh makes fails. -/
def Fails (conv : Conv φ ι) (net : Net) (ge : GoldenEye2 φ ι) : Prop :=
  (ge.pullIndexData = true ∧ IndexFails conv net ge) ∨
    (ge.pullStockData = true ∧ StockFails conv net)

/-- The failure is reported at every level, and nothing uses the data. -/
structure Reported (conv : Conv φ ι) (net : Net) (running : Bool) (ge : GoldenEye2 φ ι)
    (fuel : Nat) : Prop where
  httpIndex : ge.pullIndexData = true → TransferFails net.indexCurl →
    Negative (httpGet (some indexUrl) net.indexCurl net.indexBuffer)
  httpStock : ge.pullStockData = true → TransferFails net.stockCurl →
    ∀ url, Negative (httpGet (some url) net.stockCurl net.stockBuffer)
  pullIndex : ge.pullIndexData = true → IndexFails conv net ge →
    Negative (sinajsPullIndexDataV2 conv net.indexCurl net.indexBuffer fuel ge)
  pullStock : ge.pullStockData = true → StockFails conv net →
    ∀ rc after, indexHalf conv net fuel ge = .ok (rc, after) →
      Negative (sinajsPullStockData conv net.stockCurl net.stockBuffer fuel after)
  event : Negative (eventNetdataUpdate conv net fuel ge)
  market : ∃ rc final, marketNetdataUpdate conv net fuel ge = .ok (rc, final, []) ∧ rc < 0
  request : ∃ again final, marketNetRequest conv net fuel running ge = .ok (again, final, [])

section IndexList

omit [Zero φ] [Zero ι]

variable {ge after : GoldenEye2 φ ι} {index other : IdxDat φ ι} {fuel : Nat}

/-- The index list looks the same to every search. -/
structure SameIndices (ge after : GoldenEye2 φ ι) : Prop where
  head : after.indexList = ge.indexList
  next : indexNext after.indices = indexNext ge.indices
  test : ∀ code, indexTest after.indices code = indexTest ge.indices code

/-- Only a search that ends on the list head is reported. -/
theorem attach_negative_iff (fuel : Nat) (ge : GoldenEye2 φ ι) (index : IdxDat φ ι) :
    Negative (sinajsIndexAttachV2 fuel ge index) ↔
      traverse (indexNext ge.indices) (searchBody (indexTest ge.indices index.code)) fuel
        ge.indexList.first () = .ok (.head, ()) := by
  unfold sinajsIndexAttachV2
  constructor
  · rintro ⟨rc, out, run, negative⟩
    rcases searched : traverse (indexNext ge.indices)
        (searchBody (indexTest ge.indices index.code)) fuel ge.indexList.first () with
      fault | ⟨link, _⟩
    · rw [searched] at run
      cases run
    · rcases traverse_search fuel searched with rfl | ⟨i, rfl, _⟩
      · rfl
      · rw [searched] at run
        dsimp only at run
        split at run
        · cases run
        · cases run
          exact absurd negative (Int.lt_irrefl 0)
  · intro searched
    rw [searched]
    exact ⟨-enodata, ge, rfl, by decide⟩

/-- An index that is missing is reported by every search that gets to its end. -/
theorem attach_negative {other : Nat} {rc : Int}
    (missing : Negative (sinajsIndexAttachV2 other ge index))
    (run : sinajsIndexAttachV2 fuel ge index = .ok (rc, after)) : rc < 0 := by
  rw [attach_negative_iff] at missing
  unfold sinajsIndexAttachV2 at run
  rcases searched : traverse (indexNext ge.indices)
      (searchBody (indexTest ge.indices index.code)) fuel ge.indexList.first () with
    fault | result
  · rw [searched] at run
    cases run
  · rw [searched, traverse_agree fuel searched missing] at run
    cases run
    decide

theorem SameIndices.negative (same : SameIndices ge after) (index : IdxDat φ ι) (fuel : Nat) :
    Negative (sinajsIndexAttachV2 fuel after index) ↔
      Negative (sinajsIndexAttachV2 fuel ge index) := by
  rw [attach_negative_iff, attach_negative_iff, same.head, same.next, same.test]

/-- Attaching replaces the data of a node by data with the same code. -/
theorem sinajsIndexAttachV2_same {rc : Int}
    (run : sinajsIndexAttachV2 fuel ge index = .ok (rc, after)) : SameIndices ge after := by
  unfold sinajsIndexAttachV2 at run
  rcases searched : traverse (indexNext ge.indices)
      (searchBody (indexTest ge.indices index.code)) fuel ge.indexList.first () with
    fault | ⟨link, _⟩
  · rw [searched] at run
    cases run
  · rw [searched] at run
    rcases traverse_search fuel searched with rfl | ⟨i, rfl, passed⟩
    · cases run
      exact ⟨rfl, rfl, fun _ => rfl⟩
    · dsimp only at run
      rcases here : ge.indices[i]? with _ | gi
      · rw [here] at run
        cases run
      · rw [here] at run
        cases run
        have inside := (List.getElem?_eq_some_iff.mp here).1
        have code : gi.data.code = index.code := by
          simp only [indexTest, here] at passed
          exact eq_of_beq (Except.ok.inj passed)
        refine ⟨rfl, ?_, fun wanted => ?_⟩
        · funext j
          by_cases same : i = j
          · subst same
            simp only [indexNext, List.getElem?_set_self inside, here]
          · simp only [indexNext, List.getElem?_set_ne same]
        · funext j
          by_cases same : i = j
          · subst same
            simp only [indexTest, List.getElem?_set_self inside, here, code]
          · simp only [indexTest, List.getElem?_set_ne same]

end IndexList

section Lines

variable {conv : Conv φ ι} {fuel turns : Nat} {text token rest : CString}
  {ge final : GoldenEye2 φ ι} {rc : Int}

/-- One turn of the loop over the index lines that returns: it reports a failure, or goes on. -/
theorem indexLines_turn (found : nextToken '\n' text = (some token, rest))
    (run : indexLines conv fuel (turns + 1) text ge = .ok (rc, final)) :
    rc < 0 ∨ ∃ rc' index rc'' after,
      sinajsIndexDecode conv (some token) IdxDat.zero = .ok (rc', index) ∧ ¬ rc' < 0 ∧
      sinajsIndexAttachV2 fuel ge index = .ok (rc'', after) ∧ ¬ rc'' < 0 ∧
      indexLines conv fuel turns rest after = .ok (rc, final) := by
  simp only [indexLines, found] at run
  split at run
  case h_1 => cases run
  case h_2 rc' index decoded =>
    split at run
    case isTrue =>
      cases run
      exact Or.inl (by decide)
    case isFalse good =>
      split at run
      case h_1 => cases run
      case h_2 rc'' after attached =>
        split at run
        case isTrue bad =>
          cases run
          exact Or.inl bad
        case isFalse good' =>
          exact Or.inr ⟨rc', index, rc'', after, decoded, good, attached, good', run⟩

theorem stockLines_turn (found : nextToken '\n' text = (some token, rest))
    (run : stockLines conv fuel (turns + 1) text ge = .ok (rc, final)) :
    rc < 0 ∨ ∃ rc' sdata after,
      sinajsStockDecode conv (some token) StkDat.zero = .ok (rc', sdata) ∧ ¬ rc' < 0 ∧
      stockAttach fuel ge sdata = .ok after ∧
      stockLines conv fuel turns rest after = .ok (rc, final) := by
  simp only [stockLines, found] at run
  split at run
  case h_1 => cases run
  case h_2 rc' sdata decoded =>
    split at run
    case isTrue =>
      cases run
      exact Or.inl (by decide)
    case isFalse good =>
      split at run
      case h_1 => cases run
      case h_2 after attached => exact Or.inr ⟨rc', sdata, after, decoded, good, attached, run⟩

end Lines

/-- The loop over the index lines reports a line that fails. -/
theorem indexLines_reports {conv : Conv φ ι} {fuel : Nat} {line : CString} (turns : Nat) :
    ∀ {text : CString} {ge final : GoldenEye2 φ ι} {rc : Int},
      indexLines conv fuel turns text ge = .ok (rc, final) → line ∈ tokens '\n' text →
      IndexLineFails conv ge line → rc < 0 := by
  induction turns with
  | zero =>
    intro text ge final rc run
    cases run
  | succ turns ih =>
    intro text ge final rc run member fails
    rcases nextToken_cases '\n' text with ⟨_, none⟩ | ⟨token, rest, found, split⟩
    · rw [none] at member
      cases member
    · rcases indexLines_turn found run with
        reported | ⟨rc', index, rc'', after, decoded, good, attached, good', run⟩
      · exact reported
      · have same := sinajsIndexAttachV2_same attached
        rw [split] at member
        rcases List.mem_cons.mp member with rfl | later
        · rcases fails with ⟨_, _, decodes, negative⟩ | ⟨found, decodes, other, negative⟩
          · rw [decoded] at decodes
            cases decodes
            exact absurd negative good
          · rw [decoded] at decodes
            cases decodes
            exact absurd (attach_negative negative attached) good'
        · refine ih run later ?_
          rcases fails with negative | ⟨found, decodes, other, negative⟩
          · exact Or.inl negative
          · exact Or.inr ⟨found, decodes, other, (same.negative found other).mpr negative⟩

/-- The loop over the stock lines reports a line that does not decode. -/
theorem stockLines_reports {conv : Conv φ ι} {fuel : Nat} {line : CString} (turns : Nat) :
    ∀ {text : CString} {ge final : GoldenEye2 φ ι} {rc : Int},
      stockLines conv fuel turns text ge = .ok (rc, final) → line ∈ tokens '\n' text →
      Negative (sinajsStockDecode conv (some line) StkDat.zero) → rc < 0 := by
  induction turns with
  | zero =>
    intro text ge final rc run
    cases run
  | succ turns ih =>
    intro text ge final rc run member fails
    rcases nextToken_cases '\n' text with ⟨_, none⟩ | ⟨token, rest, found, split⟩
    · rw [none] at member
      cases member
    · rcases stockLines_turn found run with
        reported | ⟨rc', sdata, after, decoded, good, attached, run⟩
      · exact reported
      · rw [split] at member
        rcases List.mem_cons.mp member with rfl | later
        · obtain ⟨_, _, decodes, negative⟩ := fails
          rw [decoded] at decodes
          cases decodes
          exact absurd negative good
        · exact ih run later fails

/-- The loop over the lines starts on the received text. -/
theorem terminate_of_received {curl : Transfer} {buffer filled : List Char} {size : Int}
    {url other text : CString} (got : httpGet (some other) curl buffer = .ok (size, filled))
    (arrived : received url curl buffer = some text) : terminate filled size = .ok text := by
  -- `http_get` does the same for every URL
  have same : httpGet (some url) curl buffer = .ok (size, filled) := got
  rw [received, same] at arrived
  dsimp only at arrived
  cases ended : terminate filled size with
  | error fault =>
    rw [ended] at arrived
    cases arrived
  | ok whole =>
    rw [ended] at arrived
    cases arrived
    rfl

/-- `sinajs_pull_index_data_v2` reports a line of the received text that fails. -/
theorem sinajsPullIndexDataV2_reports {conv : Conv φ ι} {curl : Transfer} {buffer : List Char}
    {fuel : Nat} {ge final : GoldenEye2 φ ι} {rc : Int} {text line : CString}
    (run : sinajsPullIndexDataV2 conv curl buffer fuel ge = .ok (rc, final))
    (arrived : received indexUrl curl buffer = some text) (member : line ∈ tokens '\n' text)
    (fails : IndexLineFails conv ge line) : rc < 0 := by
  unfold sinajsPullIndexDataV2 at run
  rcases got : httpGet (some indexUrl) curl buffer with fault | ⟨size, filled⟩
  · rw [got] at run
    cases run
  · rw [got] at run
    dsimp only at run
    by_cases bad : size < 0
    · rw [if_pos bad] at run
      cases run
      decide
    · rw [if_neg bad, terminate_of_received got arrived] at run
      exact indexLines_reports fuel run member fails

/-- `sinajs_pull_stock_data` reports a line of the received text that does not decode. -/
theorem sinajsPullStockData_reports {conv : Conv φ ι} {curl : Transfer} {buffer : List Char}
    {fuel : Nat} {ge final : GoldenEye2 φ ι} {rc : Int} {url text line : CString}
    (run : sinajsPullStockData conv curl buffer fuel ge = .ok (rc, final))
    (arrived : received url curl buffer = some text) (member : line ∈ tokens '\n' text)
    (fails : Negative (sinajsStockDecode conv (some line) StkDat.zero)) : rc < 0 := by
  unfold sinajsPullStockData at run
  split at run
  · cases run
  · rename_i slist _
    rcases got : httpGet (some slist) curl buffer with fault | ⟨size, filled⟩
    · rw [got] at run
      cases run
    · rw [got] at run
      dsimp only at run
      by_cases bad : size < 0
      · rw [if_pos bad] at run
        cases run
        decide
      · rw [if_neg bad, terminate_of_received got arrived] at run
        exact stockLines_reports fuel run member fails

/-- The pull results do not reach the caller. -/
theorem eventNetdataUpdate_zero {conv : Conv φ ι} {net : Net} {fuel : Nat}
    {ge final : GoldenEye2 φ ι} {rc : Int}
    (run : eventNetdataUpdate conv net fuel ge = .ok (rc, final)) : rc = 0 := by
  unfold eventNetdataUpdate at run
  split at run
  · cases run
  · split at run
    · cases run
    · cases run
      rfl

/-- With a URL, `http_get` returns the size it was told, or 0: never a negative value. -/
theorem httpGet_natural {url : CString} {curl : Transfer} {buffer new : List Char} {rc : Int}
    (run : httpGet (some url) curl buffer = .ok (rc, new)) : 0 ≤ rc := by
  simp only [httpGet] at run
  split at run
  · split at run
    · cases run
    · split at run
      · cases run
      · rename_i stored
        cases run
        unfold returnSize at stored
        split at stored
        · cases stored
          exact Int.natCast_nonneg _
        · cases stored
  · cases run
    exact Int.le_refl 0

/-- Failures are reported exactly where there are none: `event_netdata_update` returns 0 whatever
the pulls return. -/
theorem errors_propagate_iff (conv : Conv φ ι) (net : Net) (running : Bool)
    (ge : GoldenEye2 φ ι) :
    (Fails conv net ge →
      ∃ enough, ∀ fuel, enough ≤ fuel → Reported conv net running ge fuel) ↔
      ¬ Fails conv net ge := by
  constructor
  · intro propagates fails
    obtain ⟨enough, reported⟩ := propagates fails
    obtain ⟨rc, final, run, negative⟩ := (reported enough (Nat.le_refl _)).event
    rw [eventNetdataUpdate_zero run] at negative
    exact absurd negative (Int.lt_irrefl 0)
  · exact fun works fails => absurd fails works

/-- No handle for either transfer: nothing is refreshed, and everything runs as if it were. -/
theorem failed_init_not_reported :
    Fails lengths ⟨⟨false, [], false, none⟩, ['?'], ⟨false, [], false, none⟩, ['?']⟩ oneStock ∧
    marketNetRequest lengths ⟨⟨false, [], false, none⟩, ['?'], ⟨false, [], false, none⟩, ['?']⟩ 2
        true oneStock =
      .ok (true, oneStock, [.calcRealtimeInfoV2, .calcPrintInfo, .marketDisplayUpdate]) ∧
    ¬ ∃ enough, ∀ fuel, enough ≤ fuel → Reported lengths
      ⟨⟨false, [], false, none⟩, ['?'], ⟨false, [], false, none⟩, ['?']⟩ true oneStock fuel := by
  refine ⟨Or.inl ⟨rfl, Or.inl (Or.inl rfl)⟩, by rfl, ?_⟩
  rintro ⟨enough, reported⟩
  obtain ⟨rc, final, run, negative⟩ := (reported enough (Nat.le_refl _)).event
  rw [eventNetdataUpdate_zero run] at negative
  exact absurd negative (Int.lt_irrefl 0)

end Ct.Geye
