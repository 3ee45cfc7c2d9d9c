import Ct.Tushare.SyncSteps
import Mathlib.Data.List.Perm.Basic

set_option autoImplicit false

namespace Ct.Tushare

open Ct.Lib

variable {getHistData : GetHistData} {lastValidDate : Option Date} {start caller : Date}
  {db : Mydb} {code : Code} {codes : List Code}

/-- `%s up-to-date` -/
abbrev UpToDate (lastValidDate : Option Date) (stored : List Row) : Prop :=
  lastDate stored ≠ none ∧ lastDate stored = lastValidDate

/-- The start for a stock with these rows: its own last date, or the caller's. -/
def ownStart (caller : Date) (stored : List Row) : Date :=
  (lastDate stored).getD caller

section Loop

variable (history : db.History)

include history

/-- What the loop sees of a stock once its table is there. -/
theorem seen_rows : getLastUpdateDate (db.setRows code (db.rowsOf code)) code =
    lastDate (db.rowsOf code) := by
  rw [getLastUpdateDate_eq (history.setRows code (history.unique code)), rowsOf_setRows]

theorem syncLoop_upToDate (upToDate : UpToDate lastValidDate (db.rowsOf code)) :
    syncLoop getHistData lastValidDate (code :: codes) start db =
      syncLoop getHistData lastValidDate codes start (db.setRows code (db.rowsOf code)) := by
  rw [syncLoop, checkTableAndCreat_eq history code]
  simp only [seen_rows history]
  rw [if_pos upToDate]

theorem syncLoop_raises (stale : ¬ UpToDate lastValidDate (db.rowsOf code))
    (refused : fetched getHistData code (db.rowsOf code) (ownStart start (db.rowsOf code)) = none) :
    syncLoop getHistData lastValidDate (code :: codes) start db =
      ⟨db.setRows code (db.rowsOf code), [(code, ownStart start (db.rowsOf code))], false⟩ := by
  rw [syncLoop, checkTableAndCreat_eq history code]
  simp only [seen_rows history]
  rw [if_neg stale, pull_eq _ _ _ _ (history.unique code), ← ownStart, refused]
  rfl

/-- The date that is requested becomes the start for the stocks behind. -/
theorem syncLoop_stores (stale : ¬ UpToDate lastValidDate (db.rowsOf code)) {rows : List Row}
    (got : fetched getHistData code (db.rowsOf code) (ownStart start (db.rowsOf code)) =
      some rows) {outcome : Outcome}
    (rest : syncLoop getHistData lastValidDate codes (ownStart start (db.rowsOf code))
      (db.setRows code rows) = outcome) :
    syncLoop getHistData lastValidDate (code :: codes) start db =
      { outcome with
        requests := (code, ownStart start (db.rowsOf code)) :: outcome.requests } := by
  rw [syncLoop, checkTableAndCreat_eq history code]
  simp only [seen_rows history]
  rw [if_neg stale, pull_eq _ _ _ _ (history.unique code), ← ownStart, got, Option.map_some,
    ← rest]

end Loop

/-- What the rows of a stock become by its own start. -/
def ownRows (getHistData : GetHistData) (lastValidDate : Option Date) (caller : Date) (code : Code)
    (stored : List Row) : Option (List Row) :=
  if UpToDate lastValidDate stored then some stored
  else fetched getHistData code stored (ownStart caller stored)

/-- The stock is requested from a date of its own, and this raises no exception. -/
def Strays (getHistData : GetHistData) (lastValidDate : Option Date) (caller : Date) (code : Code)
    (stored : List Row) : Prop :=
  ¬ UpToDate lastValidDate stored ∧ ownStart caller stored ≠ caller ∧
    (fetched getHistData code stored (ownStart caller stored)).isSome = true

/-- A run over these stocks in which each of them is handled from its own start. -/
structure Own (getHistData : GetHistData) (lastValidDate : Option Date) (caller : Date)
    (codes : List Code) (db : Mydb) (outcome : Outcome) : Prop where
  listed : ∀ request ∈ outcome.requests, request.1 ∈ codes
  starts : ∀ request ∈ outcome.requests, request.2 = ownStart caller (db.rowsOf request.1)
  completed : outcome.completed = true ↔
    ∀ code ∈ codes, (ownRows getHistData lastValidDate caller code (db.rowsOf code)).isSome = true
  others : ∀ code ∉ codes, outcome.db.rowsOf code = db.rowsOf code
  rows : outcome.completed = true → ∀ code ∈ codes,
    ownRows getHistData lastValidDate caller code (db.rowsOf code) =
      some (outcome.db.rowsOf code)
  requested : outcome.completed = true → ∀ code ∈ codes,
    ¬ UpToDate lastValidDate (db.rowsOf code) → ∃ request ∈ outcome.requests, request.1 = code
  history : outcome.db.History

theorem Own.nil (history : db.History) :
    Own getHistData lastValidDate caller [] db ⟨db, [], true⟩ where
  listed request member := by cases member
  starts request member := by cases member
  completed := iff_of_true rfl fun code member => by cases member
  others code outside := rfl
  rows done code member := by cases member
  requested done code member := by cases member
  history := history

/-- One stock in front of such a run. -/
theorem Own.cons (asked : List (Code × Date)) {stored : List Row} {outcome : Outcome}
    (own : Own getHistData lastValidDate caller codes (db.setRows code stored) outcome)
    (fresh : code ∉ codes)
    (here : ownRows getHistData lastValidDate caller code (db.rowsOf code) = some stored)
    (started : ∀ request ∈ asked, request = (code, ownStart caller (db.rowsOf code)))
    (needed : ¬ UpToDate lastValidDate (db.rowsOf code) → asked ≠ []) :
    Own getHistData lastValidDate caller (code :: codes) db
      { outcome with requests := asked ++ outcome.requests } := by
  have apart {other : Code} (member : other ∈ codes) : other ≠ code :=
    fun same => fresh (same ▸ member)
  have same {other : Code} (member : other ∈ codes) :
      (db.setRows code stored).rowsOf other = db.rowsOf other :=
    rowsOf_setRows_of_ne (apart member) stored
  refine ⟨?_, ?_, ?_, ?_, ?_, ?_, own.history⟩
  · intro request member
    rcases List.mem_append.mp member with first | rest
    · rw [started request first]
      exact List.mem_cons_self
    · exact List.mem_cons_of_mem code (own.listed request rest)
  · intro request member
    rcases List.mem_append.mp member with first | rest
    · rw [started request first]
    · rw [own.starts request rest, same (own.listed request rest)]
  · rw [List.forall_mem_cons, here]
    refine own.completed.trans ⟨fun all => ⟨rfl, fun other member => ?_⟩, fun all other member => ?_⟩
    · rw [← same member]
      exact all other member
    · rw [same member]
      exact all.2 other member
  · intro other outside
    rw [List.mem_cons, not_or] at outside
    exact (own.others other outside.2).trans (rowsOf_setRows_of_ne outside.1 stored)
  · intro done other member
    rcases List.mem_cons.mp member with rfl | rest
    · rw [here, own.others other fresh, rowsOf_setRows]
    · rw [← same rest]
      exact own.rows done other rest
  · intro done other member stale
    rcases List.mem_cons.mp member with rfl | rest
    · obtain ⟨request, first⟩ := List.exists_mem_of_ne_nil asked (needed stale)
      exact ⟨request, List.mem_append_left _ first, by rw [started request first]⟩
    · rw [← same rest] at stale
      obtain ⟨request, asked, found⟩ := own.requested done other rest stale
      exact ⟨request, List.mem_append_right _ asked, found⟩

/-- One stock whose request ends the run. -/
theorem Own.stop (history : db.History) {requests : List (Code × Date)}
    (refused : ownRows getHistData lastValidDate caller code (db.rowsOf code) = none)
    (started : requests = [(code, ownStart caller (db.rowsOf code))]) :
    Own getHistData lastValidDate caller (code :: codes) db
      ⟨db.setRows code (db.rowsOf code), requests, false⟩ := by
  subst started
  refine ⟨?_, ?_, ?_, ?_, ?_, ?_, history.setRows code (history.unique code)⟩
  · intro request member
    rw [List.mem_singleton.mp member]
    exact List.mem_cons_self
  · intro request member
    rw [List.mem_singleton.mp member]
  · refine ⟨fun done => ?_, fun all => ?_⟩
    · cases done
    · have some := all code List.mem_cons_self
      rw [refused] at some
      cases some
  · intro other outside
    exact rowsOf_setRows_of_ne (List.ne_of_not_mem_cons outside) _
  · intro done
    cases done
  · intro done
    cases done

theorem ownStart_nil (caller : Date) {stored : List Row} (empty : stored = []) :
    ownStart caller stored = caller := by
  rw [ownStart, lastDate_eq_none_iff.mpr empty]
  rfl

theorem ownStart_of_ne_nil {stored : List Row} (some : stored ≠ []) (start caller : Date) :
    ownStart start stored = ownStart caller stored := by
  obtain ⟨last, found⟩ := Option.ne_none_iff_exists'.mp (mt lastDate_eq_none_iff.mp some)
  rw [ownStart, ownStart, found]
  rfl

/-- As long as `start` has not been replaced, or no stock without rows is left, each stock is
handled from its own start. -/
theorem syncLoop_own (history : db.History) (distinct : codes.Nodup)
    (kept : start = caller ∨ ∀ code ∈ codes, db.rowsOf code ≠ [])
    (settled : ∀ code ∈ codes,
      Strays getHistData lastValidDate caller code (db.rowsOf code) →
        ∀ other ∈ codes, db.rowsOf other ≠ []) :
    Own getHistData lastValidDate caller codes db
      (syncLoop getHistData lastValidDate codes start db) := by
  induction codes generalizing start db with
  | nil => exact Own.nil history
  | cons code codes ih =>
    obtain ⟨fresh, distinct⟩ := List.nodup_cons.mp distinct
    have same (stored : List Row) {other : Code} (member : other ∈ codes) :
        (db.setRows code stored).rowsOf other = db.rowsOf other :=
      rowsOf_setRows_of_ne (fun equal => fresh (by rw [← equal]; exact member)) stored
    have own : ownStart start (db.rowsOf code) = ownStart caller (db.rowsOf code) := by
      rcases kept with rfl | kept
      · rfl
      · exact ownStart_of_ne_nil (kept code List.mem_cons_self) start caller
    -- the run over the stocks behind this one
    have rest {stored : List Row} {start : Date} (unique : (stored.map Row.date).Nodup)
        (kept : start = caller ∨ ∀ other ∈ codes, db.rowsOf other ≠ []) :
        Own getHistData lastValidDate caller codes (db.setRows code stored)
          (syncLoop getHistData lastValidDate codes start (db.setRows code stored)) := by
      apply ih (history.setRows code unique) distinct
      · exact kept.imp_right fun kept other member => by
          rw [same stored member]
          exact kept other member
      · intro other member strays another inside
        rw [same stored member] at strays
        rw [same stored inside]
        exact settled other (List.mem_cons_of_mem code member) strays another
          (List.mem_cons_of_mem code inside)
    by_cases upToDate : UpToDate lastValidDate (db.rowsOf code)
    · rw [syncLoop_upToDate history upToDate]
      have behind := rest (history.unique code) (kept.imp_right fun kept other member =>
        kept other (List.mem_cons_of_mem code member))
      exact Own.cons [] behind fresh (if_pos upToDate) (fun request member => by cases member)
        (absurd upToDate)
    · cases got : fetched getHistData code (db.rowsOf code)
        (ownStart caller (db.rowsOf code)) with
      | none =>
        rw [syncLoop_raises history upToDate (own ▸ got), own]
        exact Own.stop history ((if_neg upToDate).trans got) rfl
      | some rows =>
        rw [syncLoop_stores history upToDate (own ▸ got) rfl, own]
        have kept : ownStart caller (db.rowsOf code) = caller ∨
            ∀ other ∈ codes, db.rowsOf other ≠ [] := by
          by_cases moved : ownStart caller (db.rowsOf code) = caller
          · exact Or.inl moved
          · have strays : Strays getHistData lastValidDate caller code (db.rowsOf code) :=
              ⟨upToDate, moved, by rw [got]; rfl⟩
            exact Or.inr fun other member => settled code List.mem_cons_self strays other
              (List.mem_cons_of_mem code member)
        exact Own.cons [_] (rest (fetched_unique got) kept) fresh ((if_neg upToDate).trans got)
          (fun request member => List.mem_singleton.mp member) (fun _ => List.cons_ne_nil _ _)

theorem stale_of_nil {stored : List Row} (empty : stored = []) :
    ¬ UpToDate lastValidDate stored :=
  fun upToDate => upToDate.1 (lastDate_eq_none_iff.mpr empty)

def quote (date : String) : Row := ⟨date.toList, Vector.replicate 14 "1.000000".toList⟩

end Ct.Tushare
