import Ct.Dealfile.ReadlineRuns

set_option autoImplicit false

namespace Ct.Dealfile

open Ct.Lib

section Headers

/-- What the header lines so far have set: the frequency, the decibel value as an index, and how
many data lines have been stored behind the latter. -/
structure Header where
  h : Option Nat
  d : Option Nat
  k : Nat
  deriving DecidableEq, Repr

/-- The kinds of lines, whatever their lengths. -/
def kindOf (s : CString) : StringType :=
  if "address".toList <+: s then .data
  else if "hz".toList <:+ s then .hz
  else if "db".toList <:+ s then .db
  else .none

/-- An index of the decibel values from -10 to 10. -/
def slotOf (d : Int) : Option Nat := if 0 ≤ d ∧ d < 21 then some d.toNat else none

namespace Header

/-- A data line has its place. -/
def Ready (header : Header) : Prop := header.h.isSome ∧ header.d.isSome ∧ header.k < 7

instance (header : Header) : Decidable header.Ready := inferInstanceAs (Decidable (_ ∧ _))

/-- The header behind a line. -/
def next (header : Header) (s : CString) : Header :=
  match kindOf s with
  | .hz => { header with h := freqDesc.findIdx? (· == s) }
  | .db => { header with d := (dbToIndex s).bind slotOf, k := 0 }
  | .data => if header.Ready then { header with k := header.k + 1 } else header
  | .none => header

/-- The places that a line fills. -/
def places (header : Header) (s : CString) : List Place :=
  match kindOf s with
  | .hz =>
    match freqDesc.findIdx? (· == s) with
    | some h => [.count h]
    | none => []
  | .db | .none => []
  | .data =>
    match header.h, header.d with
    | some h, some d => if header.k < 7 then [.addr h d header.k, .val h d header.k] else []
    | _, _ => []

/-- The lines that fill their places in the table and no others: frequencies of the table, and data
lines behind a frequency and a decibel value, at most seven of them. Lines of other kinds need two
characters. -/
def Takes (header : Header) (s : CString) : Prop :=
  match kindOf s with
  | .hz => s ∈ freqDesc
  | .db => True
  | .data => header.Ready
  | .none => 2 ≤ s.length

end Header

/-- Before the first line. -/
def noHeader : Header := ⟨none, none, 0⟩

/-- The places that the lines fill, one line after the other. -/
def expected : Header → List CString → List Place
  | _, [] => []
  | header, s :: rest => header.places s ++ expected (header.next s) rest

/-- Every line has its places in the table. -/
def Tame : Header → List CString → Prop
  | _, [] => True
  | header, s :: rest => header.Takes s ∧ Tame (header.next s) rest

/-- The variables of `load_eqdata` are what the headers say. -/
structure Tracks (header : Header) (load : Load) : Prop where
  hz : load.currentHz = (header.h.getD 0 : Nat)
  known : ∀ h, header.h = some h → h < fEnd
  db : header.d = (load.di.bind fun _ => load.currentDb).bind slotOf
  index : ∀ k, load.di = some k → k = header.k

theorem tracks_start : Tracks noHeader loadStart where
  hz := rfl
  known := fun h set => by cases set
  db := rfl
  index := fun k set => by cases set

theorem stringCheck_eq (s : CString) :
    stringCheck s =
      if kindOf s = .data ∨ 2 ≤ s.length then .ok (kindOf s) else .error .outOfBounds := by
  have hz : "hz".toList <:+ s ↔ s.drop (s.length - 2) = "hz".toList :=
    List.suffix_iff_eq_drop.trans eq_comm
  have db : "db".toList <:+ s ↔ s.drop (s.length - 2) = "db".toList :=
    List.suffix_iff_eq_drop.trans eq_comm
  rw [stringCheck, kindOf]
  by_cases data : "address".toList <+: s
  · rw [if_pos (List.isPrefixOf_iff_prefix.mpr data), if_pos data, if_pos (.inl rfl)]
  · rw [if_neg (mt List.isPrefixOf_iff_prefix.mp data), if_neg data]
    have other : (if "hz".toList <:+ s then StringType.hz
        else if "db".toList <:+ s then .db else .none) ≠ .data := by
      split_ifs <;> decide
    by_cases short : s.length < 2
    · rw [if_pos short, if_neg (not_or.mpr ⟨other, Nat.not_le.mpr short⟩)]
    · rw [if_neg short, if_pos (Or.inr (Nat.not_lt.mp short) : _ = StringType.data ∨ _)]
      by_cases isHz : "hz".toList <:+ s
      · rw [if_pos isHz, if_pos (hz.mp isHz)]
      · rw [if_neg isHz, if_neg (mt hz.mpr isHz)]
        by_cases isDb : "db".toList <:+ s
        · rw [if_pos isDb, if_pos (db.mp isDb)]
        · rw [if_neg isDb, if_neg (mt db.mpr isDb)]

end Headers

section Strings

variable {s : CString} {load load' : Load} {header : Header}

theorem kindOf_long (hz : kindOf s = .hz ∨ kindOf s = .db) : 2 ≤ s.length := by
  unfold kindOf at hz
  split_ifs at hz with data isHz isDb
  · exact absurd hz (by decide)
  · exact isHz.length_le
  · exact isDb.length_le
  · exact absurd hz (by decide)

theorem storeAt_ok {stores after : Stores} {place : Place} {value : Option Int}
    (stored : storeAt stores place value = .ok after) : after = stores ++ [(place, value)] := by
  unfold storeAt at stored
  split_ifs at stored
  exact (Except.ok.inj stored).symm

/-- The stores of a line that `kindOf` tells. -/
def storeCount : StringType → Nat
  | .hz => 1
  | .data => 2
  | .db | .none => 0

theorem loadString_hz (kind : kindOf s = .hz) :
    loadString s load = (do
      let stores ← storeAt load.stores (.count (freqToIndex s)) hzDataCount[(freqToIndex s).toNat]?
      .ok { load with currentHz := freqToIndex s, stores := stores }) := by
  rw [loadString, stringCheck_eq, if_pos (Or.inr (kindOf_long (.inl kind))), kind]
  rfl

theorem loadString_db (kind : kindOf s = .db) :
    loadString s load = .ok { load with currentDb := dbToIndex s, di := some 0 } := by
  rw [loadString, stringCheck_eq, if_pos (Or.inr (kindOf_long (.inr kind))), kind]
  rfl

theorem loadString_none (kind : kindOf s = .none) :
    loadString s load = if 2 ≤ s.length then .ok load else .error .outOfBounds := by
  have other : kindOf s ≠ .data := by
    rw [kind]
    decide
  rw [loadString, stringCheck_eq]
  by_cases long : 2 ≤ s.length
  · rw [if_pos (Or.inr long), if_pos long, kind]
    rfl
  · rw [if_neg (not_or.mpr ⟨other, long⟩), if_neg long]
    rfl

/-- A data line stores two words, or runs into a fault. -/
theorem loadString_data (load : Load) (kind : kindOf s = .data) :
    ∃ address value, loadString s load =
      match load.currentDb, load.di with
      | some d, some k => do
        let stores ← storeAt load.stores (.addr load.currentHz d k) address
        let stores ← storeAt stores (.val load.currentHz d k) value
        .ok { load with di := some (k + 1), address := address, value := value, stores := stores }
      | _, _ => .error .uninitialised := by
  rw [loadString, stringCheck_eq, if_pos (Or.inl kind), kind]
  exact ⟨_, _, rfl⟩

/-- What a line stores is decided by its kind. -/
theorem loadString_count (ran : loadString s load = .ok load') :
    load'.stores.length = load.stores.length + storeCount (kindOf s) := by
  cases kind : kindOf s with
  | hz =>
    rw [loadString_hz kind] at ran
    obtain ⟨stores, stored, ran⟩ := bind_ends ran
    cases ran
    rw [storeAt_ok stored, List.length_append]
    rfl
  | db =>
    rw [loadString_db kind] at ran
    cases ran
    rfl
  | none =>
    rw [loadString_none kind] at ran
    split_ifs at ran
    cases ran
    rfl
  | data =>
    obtain ⟨address, value, same⟩ := loadString_data load kind
    rw [same] at ran
    split at ran
    · obtain ⟨first, stored, ran⟩ := bind_ends ran
      obtain ⟨second, stored', ran⟩ := bind_ends ran
      cases ran
      rw [storeAt_ok stored', storeAt_ok stored, List.length_append, List.length_append]
      rfl
    · cases ran

theorem places_count : (header.places s).length ≤ storeCount (kindOf s) := by
  unfold Header.places
  cases kindOf s with
  | hz =>
    dsimp only
    split <;> simp [storeCount]
  | db => exact Nat.le_refl 0
  | none => exact Nat.le_refl 0
  | data =>
    dsimp only
    split
    · split_ifs <;> simp [storeCount]
    · simp

/-- A line that has no place in the table stores outside of it. -/
theorem untaken_stores (ran : loadString s load = .ok load') (untaken : ¬header.Takes s) :
    header.places s = [] ∧ 0 < storeCount (kindOf s) := by
  unfold Header.Takes at untaken
  unfold Header.places
  cases kind : kindOf s with
  | hz =>
    rw [kind] at untaken
    have unknown : freqDesc.findIdx? (· == s) = none := by
      rw [List.findIdx?_eq_none_iff]
      intro freq member
      exact beq_eq_false_iff_ne.mpr fun same => untaken (same ▸ member)
    dsimp only
    rw [unknown]
    exact ⟨rfl, Nat.one_pos⟩
  | db =>
    rw [kind] at untaken
    exact absurd trivial untaken
  | none =>
    rw [kind] at untaken
    rw [loadString_none kind, if_neg untaken] at ran
    cases ran
  | data =>
    rw [kind] at untaken
    refine ⟨?_, Nat.two_pos⟩
    dsimp only
    split
    · rename_i h d hasH hasD
      rw [if_neg]
      intro few
      exact untaken ⟨by rw [hasH]; rfl, by rw [hasD]; rfl, few⟩
    · rfl

theorem storeAt_inside {stores : Stores} {place : Place} (inside : place.Inside)
    (value : Option Int) : storeAt stores place value = .ok (stores ++ [(place, value)]) := by
  rw [storeAt, if_pos inside]

/-- What a line does that has its places: it fills them, and the variables follow the headers. -/
def Follows (header : Header) (s : CString) (load : Load) : Prop :=
  ∃ load', loadString s load = .ok load' ∧
    load'.stores.map Prod.fst = load.stores.map Prod.fst ++ header.places s ∧
    Tracks (header.next s) load'

theorem follows_hz (tracks : Tracks header load) (kind : kindOf s = .hz) (known : s ∈ freqDesc) :
    Follows header s load := by
  have some : (freqDesc.findIdx? (· == s)).isSome := by
    rw [List.findIdx?_isSome, List.any_eq_true]
    exact ⟨s, known, beq_self_eq_true s⟩
  obtain ⟨h, found⟩ := Option.isSome_iff_exists.mp some
  have few : h < fEnd := (List.findIdx?_eq_some_iff_findIdx_eq.mp found).1
  have index : freqToIndex s = h := by
    rw [freqToIndex, found]
  have inside : (Place.count h).Inside := ⟨Int.natCast_nonneg h, by omega⟩
  have places : header.places s = [.count h] := by
    rw [Header.places, kind]
    dsimp only
    rw [found]
  have next : header.next s = { header with h := Option.some h } := by
    rw [Header.next, kind]
    dsimp only
    rw [found]
  refine ⟨{ load with
    currentHz := h
    stores := load.stores ++ [(.count h, hzDataCount[(h : Int).toNat]?)] }, ?_, ?_, ?_⟩
  · rw [loadString_hz kind, index, storeAt_inside inside]
    rfl
  · rw [places, List.map_append]
    rfl
  · rw [next]
    refine ⟨rfl, fun h' same => ?_, tracks.db, tracks.index⟩
    cases same
    exact few

theorem follows_db (tracks : Tracks header load) (kind : kindOf s = .db) :
    Follows header s load := by
  have next : header.next s = { header with d := (dbToIndex s).bind slotOf, k := 0 } := by
    rw [Header.next, kind]
  have places : header.places s = [] := by
    rw [Header.places, kind]
  refine ⟨_, loadString_db kind, ?_, ?_⟩
  · rw [places, List.append_nil]
  · rw [next]
    exact ⟨tracks.hz, tracks.known, rfl, fun k set => (Option.some.inj set).symm⟩

theorem follows_none (tracks : Tracks header load) (kind : kindOf s = .none)
    (long : 2 ≤ s.length) : Follows header s load := by
  have next : header.next s = header := by
    rw [Header.next, kind]
  have places : header.places s = [] := by
    rw [Header.places, kind]
  refine ⟨load, ?_, ?_, ?_⟩
  · rw [loadString_none kind, if_pos long]
  · rw [places, List.append_nil]
  · rw [next]
    exact tracks

theorem slotOf_some {d : Int} {slot : Nat} (found : slotOf d = some slot) :
    d = slot ∧ slot < 21 := by
  unfold slotOf at found
  split_ifs at found with inside
  have same := Option.some.inj found
  omega

/-- The indices of a data line are those that the headers have set. -/
theorem follows_data (tracks : Tracks header load) (kind : kindOf s = .data)
    (ready : header.Ready) : Follows header s load := by
  obtain ⟨hasH, hasD, few⟩ := ready
  obtain ⟨h, isH⟩ := Option.isSome_iff_exists.mp hasH
  obtain ⟨d, isD⟩ := Option.isSome_iff_exists.mp hasD
  have hz := tracks.hz
  have db := tracks.db
  rw [isH] at hz
  rw [isD] at db
  obtain ⟨code, both, slot⟩ := Option.bind_eq_some_iff.mp db.symm
  obtain ⟨k, counted, current⟩ := Option.bind_eq_some_iff.mp both
  obtain ⟨rfl, high⟩ := slotOf_some slot
  have index := tracks.index k counted
  have known := tracks.known h isH
  have places : header.places s = [.addr h d k, .val h d k] := by
    rw [Header.places, kind, isH, isD]
    dsimp only
    rw [if_pos few, index]
  have next : header.next s = { header with k := header.k + 1 } := by
    rw [Header.next, kind]
    exact if_pos ⟨hasH, hasD, few⟩
  have insideAddr : (Place.addr h d k).Inside := by
    refine ⟨⟨?_, ?_⟩, ⟨?_, ?_⟩, ?_, ?_⟩ <;> omega
  have insideVal : (Place.val h d k).Inside := insideAddr
  obtain ⟨address, value, same⟩ := loadString_data load kind
  rw [current, counted, hz] at same
  dsimp only [Option.getD_some] at same
  rw [storeAt_inside insideAddr] at same
  refine ⟨{ load with
    currentHz := h
    currentDb := some d
    di := some (k + 1)
    address := address
    value := value
    stores := load.stores ++ [(.addr h d k, address)] ++ [(.val h d k, value)] }, ?_, ?_, ?_⟩
  · rw [same]
    simp only [bind, Except.bind, storeAt_inside insideVal]
  · rw [places, List.map_append, List.map_append, List.append_assoc]
    rfl
  · rw [next]
    refine ⟨?_, tracks.known, ?_, fun k' set => ?_⟩
    · show (h : Int) = (header.h.getD 0 : Nat)
      rw [isH]
      rfl
    · show header.d = slotOf d
      rw [isD, slot]
    · rw [← Option.some.inj set, index]
      rfl

/-- The step. -/
theorem follows_of_takes (tracks : Tracks header load) (takes : header.Takes s) :
    Follows header s load := by
  unfold Header.Takes at takes
  cases kind : kindOf s with
  | hz =>
    rw [kind] at takes
    exact follows_hz tracks kind takes
  | db => exact follows_db tracks kind
  | data =>
    rw [kind] at takes
    exact follows_data tracks kind takes
  | none =>
    rw [kind] at takes
    exact follows_none tracks kind takes

/-- The lines one after the other. -/
def loadStrings (lines : List CString) (load : Load) : Except Fault Load :=
  lines.foldlM (fun load s => loadString s load) load

theorem loadStrings_cons (s : CString) (lines : List CString) (load : Load) :
    loadStrings (s :: lines) load = loadString s load >>= loadStrings lines := rfl

/-- The code stores at least as much as it should. -/
theorem loadStrings_count (lines : List CString) :
    ∀ (header : Header) {load final : Load}, loadStrings lines load = .ok final →
      load.stores.length + (expected header lines).length ≤ final.stores.length := by
  induction lines with
  | nil =>
    intro header load final ran
    cases ran
    exact Nat.le_refl _
  | cons s lines ih =>
    intro header load final ran
    obtain ⟨between, first, ran⟩ := bind_ends ran
    have here := loadString_count first
    have few : (header.places s).length ≤ storeCount (kindOf s) := places_count
    have later := ih (header.next s) ran
    rw [expected, List.length_append]
    omega

/-- Over all the lines: the stores are those that the headers allow exactly when every line has its
places. -/
theorem loadStrings_iff (lines : List CString) :
    ∀ {header : Header} {load : Load}, Tracks header load →
      ((∃ final, loadStrings lines load = .ok final ∧
        final.stores.map Prod.fst = load.stores.map Prod.fst ++ expected header lines) ↔
        Tame header lines) := by
  induction lines with
  | nil =>
    intro header load _
    exact iff_of_true ⟨load, rfl, (List.append_nil _).symm⟩ trivial
  | cons s lines ih =>
    intro header load tracks
    rw [loadStrings_cons, expected, Tame]
    by_cases takes : header.Takes s
    · obtain ⟨load', first, stores, tracks'⟩ := follows_of_takes tracks takes
      rw [and_iff_right takes, ← ih tracks', first, stores, List.append_assoc]
      rfl
    · refine iff_of_false (fun right => ?_) fun tame => takes tame.1
      obtain ⟨final, ran, same⟩ := right
      obtain ⟨load', first, ran⟩ := bind_ends ran
      obtain ⟨none, more⟩ := untaken_stores first takes
      have here := loadString_count first
      have later := loadStrings_count lines (header.next s) ran
      have length := congrArg List.length same
      rw [none, List.nil_append, List.length_append, List.length_map, List.length_map] at length
      omega

end Strings

end Ct.Dealfile
