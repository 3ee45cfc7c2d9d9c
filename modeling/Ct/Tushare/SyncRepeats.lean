import Ct.Tushare.SyncStarts

set_option autoImplicit false

namespace Ct.Tushare

open Ct.Lib

/-- The rows behind `ts.get_hist_data`, for the stocks and for the index `sh`, newest first. -/
structure Remote where
  rows : CString → List Row
  newestFirst : ∀ code, (rows code).Pairwise fun newer older => older.date < newer.date

def Remote.since (remote : Remote) (code : CString) (start : Date) : List Row :=
  (remote.rows code).filter fun row => start ≤ row.date

/-- All rows from the start on. -/
def Remote.getHistData (remote : Remote) : GetHistData := fun code start =>
  .frame (remote.since code start)

/-- The later remote data has newer rows in front. -/
def Remote.Extended (remote later : Remote) : Prop :=
  ∀ code, remote.rows code <:+ later.rows code

/-- A call of `sync`: the stocks that `ts.get_stock_basics` lists, the start, and the date 30 days
ago. -/
structure Call where
  allstocks : List Code
  distinct : allstocks.Nodup
  start : Date
  monthAgo : Date

def Call.lastValidDate (call : Call) (remote : Remote) : Option Date :=
  (getLastValidDate remote.getHistData call.monthAgo).getD none

def Call.run (call : Call) (remote : Remote) (db : Mydb) : Outcome :=
  sync remote.getHistData (call.lastValidDate remote) call.allstocks call.start db

/-- The start of the request that brought the first rows of a table. -/
def firstStarts (first : Code → Option Date) (db : Mydb) (outcome : Outcome) (code : Code) :
    Option Date :=
  if db.rowsOf code = [] ∧ outcome.db.rowsOf code ≠ [] then
    (outcome.requests.find? fun request => request.1 = code).map Prod.snd
  else first code

/-- A database that complete runs have produced, with the first start date of each table and the
remote data of the last run. -/
inductive Produced : Mydb → (Code → Option Date) → Remote → Prop
  | empty (remote : Remote) : Produced (fun _ => none) (fun _ => none) remote
  | run {db : Mydb} {first : Code → Option Date} {remote later : Remote} (call : Call)
      (before : Produced db first remote) (extended : remote.Extended later)
      (completed : (call.run later db).completed = true) :
      Produced (call.run later db).db (firstStarts first db (call.run later db)) later

/-- Each table holds the remote rows from its first start date on, up to some date. -/
structure Kept (db : Mydb) (first : Code → Option Date) (remote : Remote) : Prop where
  history : db.History
  empty : ∀ code, first code = none → db.rowsOf code = []
  stored : ∀ code start, first code = some start → db.rowsOf code ≠ [] ∧
    ∃ newer kept, remote.rows code.val = newer ++ kept ∧
      db.rowsOf code = (kept.filter fun row => start ≤ row.date).reverse

variable {db : Mydb} {first : Code → Option Date} {remote later : Remote} {call : Call} {code : Code}

theorem lastDate_eq_some_iff {stored : List Row} {last : Date} :
    lastDate stored = some last ↔
      (∃ row ∈ stored, row.date = last) ∧ ∀ row ∈ stored, row.date ≤ last := by
  constructor
  · intro found
    obtain ⟨row, chosen, rfl⟩ := Option.map_eq_some_iff.mp found
    exact ⟨⟨row, (firstDesc_greatest chosen).1, rfl⟩, (firstDesc_greatest chosen).2⟩
  · rintro ⟨⟨row, member, rfl⟩, newest⟩
    cases found : firstDesc Row.date stored with
    | none =>
      rw [firstDesc_eq_none_iff.mp found] at member
      cases member
    | some chosen =>
      rw [lastDate, found, Option.map_some]
      obtain ⟨inside, greatest⟩ := firstDesc_greatest found
      exact congrArg some (le_antisymm (newest chosen inside) (greatest row member))

theorem Kept.extend (kept : Kept db first remote) (extended : remote.Extended later) :
    Kept db first later where
  history := kept.history
  empty := kept.empty
  stored code start started := by
    obtain ⟨filled, newer, older, split, rows⟩ := kept.stored code start started
    obtain ⟨more, all⟩ := extended code.val
    refine ⟨filled, more ++ newer, older, ?_, rows⟩
    rw [← all, split, List.append_assoc]

theorem Kept.within (kept : Kept db first remote) {row : Row} (member : row ∈ db.rowsOf code) :
    row ∈ remote.rows code.val := by
  cases started : first code with
  | none =>
    rw [kept.empty code started] at member
    cases member
  | some start =>
    obtain ⟨-, newer, older, split, rows⟩ := kept.stored code start started
    rw [rows, List.mem_reverse] at member
    rw [split]
    exact List.mem_append_right newer (List.mem_of_mem_filter member)

/-- The request from the last stored date brings the row of that date again. -/
theorem Kept.refetch (kept : Kept db first remote) (filled : db.rowsOf code ≠ []) (caller : Date) :
    fetched remote.getHistData code (db.rowsOf code) (ownStart caller (db.rowsOf code)) = none := by
  obtain ⟨last, found⟩ := Option.ne_none_iff_exists'.mp (mt lastDate_eq_none_iff.mp filled)
  obtain ⟨⟨row, member, rfl⟩, -⟩ := lastDate_eq_some_iff.mp found
  have again : row ∈ remote.since code.val row.date :=
    List.mem_filter.mpr ⟨kept.within member, by simp⟩
  have refused : ¬ Accepts (db.rowsOf code) (remote.since code.val row.date) := by
    intro accepted
    exact (List.nodup_append.mp accepted).2.2 _ (List.mem_map_of_mem member) _
      (List.mem_map_of_mem again) rfl
  rw [ownStart, found]
  exact if_neg refused

theorem Remote.since_nodup (remote : Remote) (code : CString) (start : Date) :
    ((remote.since code start).map Row.date).Nodup := by
  apply List.pairwise_map.mpr
  exact ((remote.newestFirst code).filter _).imp fun newer same => (ne_of_gt newer) same

theorem fetched_nil (remote : Remote) (code : Code) (start : Date) :
    fetched remote.getHistData code [] start = some (remote.since code.val start).reverse :=
  if_pos (remote.since_nodup code.val start)

section Run

variable (kept : Kept db first remote)

include kept

theorem Kept.own (call : Call) : Own remote.getHistData (call.lastValidDate remote) call.start
    call.allstocks db (call.run remote db) := by
  apply syncLoop_own kept.history call.distinct (Or.inl rfl)
  intro code member strays
  have filled : db.rowsOf code ≠ [] := fun empty => strays.2.1 (ownStart_nil call.start empty)
  have raised := strays.2.2
  rw [kept.refetch filled call.start] at raised
  cases raised

theorem Kept.ownRows_filled (filled : db.rowsOf code ≠ []) :
    ownRows remote.getHistData (call.lastValidDate remote) call.start code (db.rowsOf code) =
      if lastDate (db.rowsOf code) = call.lastValidDate remote then some (db.rowsOf code)
      else none := by
  have dated : lastDate (db.rowsOf code) ≠ none := mt lastDate_eq_none_iff.mp filled
  rw [ownRows, kept.refetch filled call.start]
  exact if_congr (and_iff_right dated) rfl rfl

omit kept in
theorem ownRows_nil (remote : Remote) (call : Call) (code : Code) :
    ownRows remote.getHistData (call.lastValidDate remote) call.start code [] =
      some (remote.since code.val call.start).reverse := by
  rw [ownRows, if_neg (stale_of_nil rfl), ownStart_nil _ rfl, fetched_nil]

/-- The run completes exactly when the stocks that have rows are up to date. -/
theorem Kept.completed_iff : (call.run remote db).completed = true ↔
    ∀ code ∈ call.allstocks, db.rowsOf code ≠ [] →
      lastDate (db.rowsOf code) = call.lastValidDate remote := by
  rw [(kept.own call).completed]
  refine forall₂_congr fun code member => ?_
  by_cases empty : db.rowsOf code = []
  · rw [empty, ownRows_nil]
    exact iff_of_true rfl fun filled => absurd rfl filled
  · rw [kept.ownRows_filled empty, Option.isSome_ite]
    exact ⟨fun upToDate _ => upToDate, fun upToDate => upToDate empty⟩

variable (completed : (call.run remote db).completed = true)

include completed

/-- A table with rows is left alone. -/
theorem Kept.run_filled (filled : db.rowsOf code ≠ []) :
    (call.run remote db).db.rowsOf code = db.rowsOf code := by
  by_cases member : code ∈ call.allstocks
  · have rows := (kept.own call).rows completed code member
    rw [kept.ownRows_filled filled, if_pos (kept.completed_iff.mp completed code member filled)]
      at rows
    exact (Option.some.inj rows).symm
  · exact (kept.own call).others code member

/-- A listed table without rows gets those from the start on. -/
theorem Kept.run_empty (empty : db.rowsOf code = []) (member : code ∈ call.allstocks) :
    (call.run remote db).db.rowsOf code = (remote.since code.val call.start).reverse := by
  have rows := (kept.own call).rows completed code member
  rw [empty, ownRows_nil] at rows
  exact (Option.some.inj rows).symm

/-- The first start date of a table that gets its first rows is that of this run. -/
theorem Kept.firstStarts_new (empty : db.rowsOf code = [])
    (filled : (call.run remote db).db.rowsOf code ≠ []) :
    code ∈ call.allstocks ∧ firstStarts first db (call.run remote db) code = some call.start := by
  have member : code ∈ call.allstocks := by
    by_contra outside
    exact filled (((kept.own call).others code outside).trans empty)
  refine ⟨member, ?_⟩
  obtain ⟨request, asked, found⟩ := (kept.own call).requested completed code member
    (by rw [empty]; exact stale_of_nil rfl)
  rw [firstStarts, if_pos ⟨empty, filled⟩]
  cases search : (call.run remote db).requests.find? fun request => request.1 = code with
  | none =>
    have missed := List.find?_eq_none.mp search request asked
    exact absurd (decide_eq_true found) missed
  | some one =>
    have chosen := List.find?_some search
    have same : one.1 = code := of_decide_eq_true chosen
    rw [Option.map_some, (kept.own call).starts one (List.mem_of_find?_eq_some search), same, empty,
      ownStart_nil _ rfl]

theorem Kept.run : Kept (call.run remote db).db (firstStarts first db (call.run remote db)) remote
    where
  history := (kept.own call).history
  empty code none := by
    by_contra filled
    by_cases before : db.rowsOf code = []
    · rw [(kept.firstStarts_new completed before filled).2] at none
      cases none
    · rw [firstStarts, if_neg fun both => before both.1] at none
      exact before (kept.empty code none)
  stored code start started := by
    by_cases before : db.rowsOf code = []
    · have filled : (call.run remote db).db.rowsOf code ≠ [] := by
        intro empty
        rw [firstStarts, if_neg fun both => both.2 empty] at started
        exact (kept.stored code start started).1 before
      obtain ⟨member, new⟩ := kept.firstStarts_new completed before filled
      rw [started] at new
      cases new
      exact ⟨filled, [], _, rfl, kept.run_empty completed before member⟩
    · rw [firstStarts, if_neg fun both => before both.1] at started
      rw [kept.run_filled completed before]
      exact kept.stored code start started

end Run

theorem Produced.kept (produced : Produced db first remote) : Kept db first remote := by
  induction produced with
  | empty remote =>
    refine ⟨fun code table there => ?_, fun _ _ => rfl, fun code start started => ?_⟩
    · cases there
    · cases started
  | run call before extended completed ih => exact (ih.extend extended).run completed

end Ct.Tushare
