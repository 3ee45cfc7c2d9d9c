import Ct.Dealfile.LoadEqdata

set_option autoImplicit false

namespace Ct.Dealfile

open Ct.Lib

section Entries

/-- What the calls of `readline` make of a file: its lines, cut behind 1023 characters; a last line
without a line feed loses its last character to an empty one. -/
def entries (content : List Char) : List CString :=
  if _none : content = [] then []
  else if '\n' ∈ content.take 1024 then
    chopCr (content.takeWhile (· ≠ '\n')) :: entries (content.dropWhile (· ≠ '\n')).tail
  else if _last : content.tail = [] then [[]]
  else (content.take 1024).dropLast :: entries (content.drop ((content.take 1024).length - 1))
termination_by content.length
decreasing_by
  all_goals
    have some := List.length_pos_iff.mpr ‹¬content = []›
  · have less := (List.dropWhile_suffix (l := content) (· ≠ '\n')).length_le
    rw [List.length_tail]
    omega
  · have two := List.length_pos_iff.mpr ‹¬content.tail = []›
    rw [List.length_tail] at two
    rw [List.length_drop, List.length_take]
    omega

theorem entries_nil : entries [] = [] := by
  rw [entries, dif_pos rfl]

theorem entries_line {text : List Char} (plain : '\n' ∉ text) (short : text.length < 1024)
    (more : List Char) : entries (text ++ '\n' :: more) = chopCr text :: entries more := by
  have feed : '\n' ∈ (text ++ '\n' :: more).take 1024 := by
    have left : 1024 - text.length = 1023 - text.length + 1 := by omega
    rw [List.take_append, left, List.take_succ_cons]
    exact List.mem_append_right _ List.mem_cons_self
  have outside : ∀ c ∈ text, decide (c ≠ '\n') = true := by
    intro c member
    apply decide_eq_true
    rintro rfl
    exact plain member
  rw [entries, dif_neg (List.append_ne_nil_of_right_ne_nil _ (List.cons_ne_nil _ _)), if_pos feed,
    takeWhile_stop _ outside (by decide), dropWhile_stop _ outside (by decide), List.tail_cons]

theorem entries_last {c : Char} (other : c ≠ '\n') : entries [c] = [[]] := by
  have plain : '\n' ∉ [c].take 1024 := fun member => other (List.mem_singleton.mp member).symm
  rw [entries, dif_neg (List.cons_ne_nil _ _), if_neg plain,
    dif_pos (show [c].tail = [] from rfl)]

theorem entries_chunk {front more : List Char} {last : Char} (plain : '\n' ∉ front ++ [last])
    (whole : (front ++ [last] ++ more).take 1024 = front ++ [last]) (some : front ≠ []) :
    entries (front ++ [last] ++ more) = front :: entries (last :: more) := by
  have outside : '\n' ∉ (front ++ [last] ++ more).take 1024 := by
    rw [whole]
    exact plain
  have two : (front ++ [last] ++ more).tail ≠ [] := by
    obtain ⟨c, front, rfl⟩ := List.exists_cons_of_ne_nil some
    simp
  have length : (front ++ [last]).length - 1 = front.length := by
    rw [List.length_append, List.length_singleton, Nat.add_sub_cancel]
  rw [entries, dif_neg (by simp), if_neg outside, dif_neg two, whole, List.dropLast_concat, length,
    List.append_assoc, List.drop_left]
  rfl

end Entries

section Turns

/-- The string that starts with this line in a buffer. -/
def cut (line : CString) : CString := line.takeWhile (· ≠ '\x00')

/-- The lines that the loop goes over: when there is none left, the last one again. -/
def handed (previous : CString) (lines : List CString) : List CString :=
  lines ++ [lines.getLastD previous]

theorem handed_cons (previous line : CString) (lines : List CString) :
    handed previous (line :: lines) = line :: handed line lines := by
  rw [handed, handed, List.getLastD_cons, List.cons_append]

theorem cstring_holds {line : CString} {buffer : Buffer} (holds : Holds line buffer) :
    cstring buffer = .ok (cut line) := by
  obtain ⟨rest, rfl⟩ := holds
  induction line with
  | nil => rfl
  | cons c line ih =>
    show cstring (some c :: (line.map some ++ [some '\x00'] ++ rest)) = .ok (cut (c :: line))
    rw [cstring, cut]
    by_cases ended : c = '\x00'
    · rw [if_pos ended, List.takeWhile_cons_of_neg (by simp [ended])]
    · rw [if_neg ended, ih, List.takeWhile_cons_of_pos (by simp [ended])]
      rfl

theorem loadTurn_holds {line : CString} {buffer : Buffer} (holds : Holds line buffer)
    (load : Load) : loadTurn buffer load = loadString (cut line) load := by
  rw [loadTurn, cstring_holds holds]
  rfl

/-- An empty line is too short for `string_check`. -/
theorem loadString_empty (load : Load) : loadString (cut []) load = .error .outOfBounds := rfl

variable {content rest : List Char} {buffer : Buffer} {position next : Nat} {line : CString}
  {load final : Load}

theorem loadLoop_step {after : Buffer} {next : Int} {n fuel : Nat}
    (read : readline content buffer position = .ok (n, after, next)) (holds : Holds line after) :
    loadLoop loadTurn content (fuel + 1) buffer position load =
      loadString (cut line) load >>= fun load =>
        if n = 0 then .ok load else loadLoop loadTurn content fuel after next load := by
  rw [loadLoop, read]
  show (loadTurn after load >>= fun load =>
    if 0 < (n : Int) then loadLoop loadTurn content fuel after next load else .ok load) = _
  rw [loadTurn_holds holds]
  by_cases none : n = 0
  · have done : ¬(0 : Int) < n := by omega
    simp only [if_neg done, if_pos none]
  · have more : (0 : Int) < n := by omega
    simp only [if_pos more, if_neg none]

/-- The loop ends here with this result, with enough fuel. -/
def Ends (content : List Char) (buffer : Buffer) (position : Nat) (load final : Load) : Prop :=
  ∃ fuel, loadLoop loadTurn content fuel buffer position load = .ok final

theorem ends_fault {fault : Fault} (read : readline content buffer position = .error fault) :
    ¬Ends content buffer position load final := by
  rintro ⟨fuel, ran⟩
  cases fuel with
  | zero => cases ran
  | succ fuel =>
    rw [loadLoop, read] at ran
    cases ran

theorem ends_empty (yields : Yields [] next (readline content buffer position)) :
    ¬Ends content buffer position load final := by
  by_cases small : next < 2 ^ 31
  · rw [Yields, if_pos small] at yields
    obtain ⟨after, read, holds, _⟩ := yields
    rintro ⟨fuel, ran⟩
    cases fuel with
    | zero => cases ran
    | succ fuel =>
      rw [loadLoop_step read holds, loadString_empty] at ran
      cases ran
  · rw [Yields, if_neg small] at yields
    exact ends_fault yields

/-- A line is loaded, and the loop goes on behind it. -/
theorem ends_line (yields : Yields line next (readline content buffer position))
    (some : line ≠ []) {Later : Load → Prop}
    (later : ∀ after load, next < 2 ^ 31 → after.length = bufferSize → Holds line after →
      (Ends content after next load final ↔ Later load)) :
    Ends content buffer position load final ↔
      next < 2 ^ 31 ∧ ∃ between, loadString (cut line) load = .ok between ∧ Later between := by
  have length : line.length ≠ 0 := mt List.length_eq_zero_iff.mp some
  by_cases small : next < 2 ^ 31
  · rw [Yields, if_pos small] at yields
    obtain ⟨after, read, holds, size⟩ := yields
    rw [and_iff_right small]
    constructor
    · rintro ⟨fuel, ran⟩
      cases fuel with
      | zero => cases ran
      | succ fuel =>
        rw [loadLoop_step read holds] at ran
        obtain ⟨between, first, ran⟩ := bind_ends ran
        rw [if_neg length] at ran
        exact ⟨between, first, (later after between small size holds).mp ⟨fuel, ran⟩⟩
    · rintro ⟨between, first, rest⟩
      obtain ⟨fuel, ran⟩ := (later after between small size holds).mpr rest
      refine ⟨fuel + 1, ?_⟩
      rw [loadLoop_step read holds, bind_ends_iff]
      refine ⟨between, first, ?_⟩
      rw [if_neg length]
      exact ran
  · rw [Yields, if_neg small] at yields
    exact iff_of_false (ends_fault yields) fun right => small right.1

/-- A line that is handed over, and the rest. -/
theorem ends_step {shape : List CString} {length : Nat}
    (yields : Yields line next (readline content buffer position)) (whole : next ≤ length)
    (later : ∀ after load, next < 2 ^ 31 → after.length = bufferSize → Holds line after →
      (Ends content after next load final ↔
        length < 2 ^ 31 ∧ loadStrings ((handed line shape).map cut) load = .ok final))
    (previous : CString) :
    Ends content buffer position load final ↔
      length < 2 ^ 31 ∧
        loadStrings ((handed previous (line :: shape)).map cut) load = .ok final := by
  rw [handed_cons, List.map_cons, loadStrings_cons]
  by_cases none : line = []
  · subst none
    rw [loadString_empty]
    refine iff_of_false (ends_empty yields) fun right => ?_
    cases right.2
  · rw [ends_line yields none later, bind_ends_iff]
    constructor
    · rintro ⟨_, between, first, small, ran⟩
      exact ⟨small, between, first, ran⟩
    · rintro ⟨small, between, first, ran⟩
      exact ⟨by omega, between, first, small, ran⟩

/-- The loop is the loading of the lines one after the other, in a file that `position` can go
through. The induction is on what is left of the file. -/
theorem ends_iff (rest : List Char) :
    ∀ {position : Nat} {buffer : Buffer} (previous : CString) {load : Load},
      content.drop position = rest → position < 2 ^ 31 → buffer.length = bufferSize →
      (rest = [] → Holds previous buffer) →
      (Ends content buffer position load final ↔
        position + rest.length < 2 ^ 31 ∧
          loadStrings ((handed previous (entries rest)).map cut) load = .ok final) := by
  induction left : rest.length using Nat.strongRecOn generalizing rest with
  | ind left' ih =>
    subst left
    intro position buffer previous load here start size held
    by_cases none : rest = []
    · subst none
      have read : readline content buffer position = _ :=
        readline_end start (List.drop_eq_nil_iff.mp here)
      have alone : (handed previous (entries [])).map cut = [cut previous] := by
        rw [entries_nil]
        rfl
      rw [alone, List.length_nil, Nat.add_zero, and_iff_right start, loadStrings_cons,
        ← loadTurn_holds (held rfl)]
      constructor
      · rintro ⟨fuel, ran⟩
        cases fuel with
        | zero => cases ran
        | succ fuel =>
          rw [loadLoop, read] at ran
          exact ran
      · intro ran
        refine ⟨1, ?_⟩
        rw [loadLoop, read]
        exact ran
    · rcases chunk_cases none with ⟨more, rfl⟩ | ⟨front, last, more, rfl, plain, short⟩ |
        ⟨front, last, more, rfl, plain, whole⟩
      · have blank : entries ('\n' :: more) = [] :: entries more :=
          entries_line List.not_mem_nil (by decide) more
        rw [blank, handed_cons, List.map_cons, loadStrings_cons, loadString_empty]
        refine iff_of_false (ends_fault (readline_blank start here size)) fun right => ?_
        cases right.2
      · have length : (front ++ [last]).length < 1024 := by
          rw [List.length_append, List.length_singleton]
          exact short
        have size' := line_length front more last
        rw [entries_line plain length]
        apply ends_step (readline_line start plain short here size) (by omega)
        intro after load small room holds
        rw [ih more.length (by omega) more rfl _ (drop_line here) small room fun _ => holds, size']
        exact and_congr_left fun _ => by omega
      · have yields := readline_chunk start plain whole here size
        have length : (front ++ [last] ++ more).length = front.length + (1 + more.length) := by
          rw [List.length_append, List.length_append, List.length_singleton, Nat.add_assoc]
        by_cases some : front = []
        · subst some
          have alone : more = [] := by
            cases more with
            | nil => rfl
            | cons c more => cases (List.cons.inj whole).2
          subst alone
          have other : last ≠ '\n' := fun same => plain (List.mem_singleton.mpr same.symm)
          show _ ↔ _ ∧ loadStrings ((handed previous (entries [last])).map cut) load = .ok final
          rw [entries_last other, handed_cons, List.map_cons, loadStrings_cons, loadString_empty]
          refine iff_of_false (ends_empty yields) fun right => ?_
          cases right.2
        · rw [entries_chunk plain whole some]
          have positive := List.length_pos_iff.mpr some
          apply ends_step yields (by omega)
          intro after load small room holds
          have fewer : (last :: more).length < (front ++ [last] ++ more).length := by
            rw [length, List.length_cons]
            omega
          have held' : last :: more = [] → Holds front after :=
            fun none => absurd none (List.cons_ne_nil _ _)
          refine (ih _ fewer (last :: more) rfl front (drop_chunk here) small room held').trans ?_
          rw [length, List.length_cons]
          exact and_congr_left fun _ => by omega

end Turns

section Table

/-- The strings of a file that the loader goes over: its lines and the last one again. -/
def stringsOf (content : List Char) : List CString := (handed [] (entries content)).map cut

/-- The loader ends, its stores are in the table, and they are those that the headers in front of
them allow. -/
def StaysInTable (content : List Char) : Prop :=
  ∃ fuel stores, loadEqdata fuel (some content) = .ok (0, stores) ∧
    (∀ store ∈ stores, store.1.Inside) ∧
    stores.map Prod.fst = expected noHeader (stringsOf content)

theorem loadEqdata_iff {content : List Char} {fuel : Nat} {stores : Stores} :
    loadEqdata fuel (some content) = .ok (0, stores) ↔
      ∃ final, loadLoop loadTurn content fuel uninitialised 0 loadStart = .ok final ∧
        final.stores = stores := by
  rw [loadEqdata, bind_ends_iff]
  refine exists_congr fun final => and_congr_right fun _ => ?_
  constructor
  · intro same
    exact congrArg Prod.snd (Except.ok.inj same)
  · rintro rfl
    rfl

/-- The indices that the headers set are in the table. -/
structure Header.Valid (header : Header) : Prop where
  h : ∀ h, header.h = some h → h < fEnd
  d : ∀ d, header.d = some d → d < 21

theorem Header.Valid.next {header : Header} (valid : header.Valid) (s : CString) :
    (header.next s).Valid := by
  unfold Header.next
  cases kindOf s with
  | hz =>
    exact ⟨fun h found => (List.findIdx?_eq_some_iff_findIdx_eq.mp found).1, valid.d⟩
  | db =>
    refine ⟨valid.h, fun d found => ?_⟩
    obtain ⟨code, _, slot⟩ := Option.bind_eq_some_iff.mp found
    exact (slotOf_some slot).2
  | none => exact valid
  | data =>
    dsimp only
    split_ifs
    · exact ⟨valid.h, valid.d⟩
    · exact valid

theorem Header.Valid.places {header : Header} (valid : header.Valid) (s : CString) :
    ∀ place ∈ header.places s, place.Inside := by
  unfold Header.places
  intro place member
  cases kind : kindOf s with
  | hz =>
    rw [kind] at member
    dsimp only at member
    split at member
    · rename_i h found
      cases List.mem_singleton.mp member
      have few : h < fEnd := (List.findIdx?_eq_some_iff_findIdx_eq.mp found).1
      exact ⟨Int.natCast_nonneg h, by omega⟩
    · cases member
  | db =>
    rw [kind] at member
    cases member
  | none =>
    rw [kind] at member
    cases member
  | data =>
    rw [kind] at member
    dsimp only at member
    split at member
    · rename_i h d isH isD
      have fewH := valid.h h isH
      have fewD := valid.d d isD
      split_ifs at member with few
      · have inside : (Place.addr h d header.k).Inside := by
          refine ⟨⟨?_, ?_⟩, ⟨?_, ?_⟩, ?_, ?_⟩ <;> omega
        rcases List.mem_cons.mp member with rfl | member
        · exact inside
        · cases List.mem_singleton.mp member
          exact inside
      · cases member
    · cases member

/-- What the headers allow is in the table. -/
theorem expected_inside (lines : List CString) :
    ∀ {header : Header}, header.Valid → ∀ place ∈ expected header lines, place.Inside := by
  induction lines with
  | nil =>
    intro header _ place member
    cases member
  | cons s lines ih =>
    intro header valid place member
    rcases List.mem_append.mp member with here | later
    · exact valid.places s place here
    · exact ih (valid.next s) place later

theorem noHeader_valid : noHeader.Valid where
  h := fun h set => by cases set
  d := fun d set => by cases set

theorem ends_nothing (final : Load) : ¬Ends [] uninitialised 0 loadStart final := by
  rintro ⟨fuel, ran⟩
  cases fuel with
  | zero => cases ran
  | succ fuel => cases ran

variable {content : List Char}

/-- The whole run, from the uninitialised buffer. -/
theorem ends_start_iff (some : content ≠ []) (final : Load) :
    Ends content uninitialised 0 loadStart final ↔
      content.length < 2 ^ 31 ∧ loadStrings (stringsOf content) loadStart = .ok final := by
  have size : uninitialised.length = bufferSize := List.length_replicate
  rw [← Nat.zero_add content.length]
  exact ends_iff content [] (show content.drop 0 = content from rfl)
    (show 0 < 2 ^ 31 by decide) size fun none => absurd none some

theorem tame_of_stays (stays : StaysInTable content) :
    content ≠ [] ∧ content.length < 2 ^ 31 ∧ Tame noHeader (stringsOf content) := by
  obtain ⟨fuel, stores, ran, _, same⟩ := stays
  obtain ⟨final, ended, rfl⟩ := loadEqdata_iff.mp ran
  have some : content ≠ [] := by
    rintro rfl
    exact ends_nothing final ⟨fuel, ended⟩
  obtain ⟨small, loaded⟩ := (ends_start_iff some final).mp ⟨fuel, ended⟩
  exact ⟨some, small, (loadStrings_iff _ tracks_start).mp ⟨final, loaded, same⟩⟩

/-- The loader stays in its table exactly when the file is neither empty nor too large and every
line, the last one twice, has its places. -/
theorem stays_in_table_iff (content : List Char) :
    StaysInTable content ↔
      content ≠ [] ∧ content.length < 2 ^ 31 ∧ Tame noHeader (stringsOf content) := by
  constructor
  · exact tame_of_stays
  · rintro ⟨some, small, tame⟩
    obtain ⟨final, loaded, same⟩ := (loadStrings_iff _ tracks_start).mpr tame
    obtain ⟨fuel, ended⟩ := (ends_start_iff some final).mpr ⟨small, loaded⟩
    refine ⟨fuel, final.stores, loadEqdata_iff.mpr ⟨final, ended, rfl⟩, ?_, same⟩
    intro store member
    apply expected_inside (stringsOf content) noHeader_valid
    have mapped := List.mem_map_of_mem (f := Prod.fst) member
    rw [same] at mapped
    exact mapped

/-- An unknown frequency stores in front of the table. -/
theorem unknown_frequency_stored : ¬∀ content : List Char, StaysInTable content := by
  intro all
  obtain ⟨_, _, tame⟩ := tame_of_stays (all "90hz\n".toList)
  have first : entries "90hz\n".toList = "90hz".toList :: entries [] :=
    entries_line (show '\n' ∉ "90hz".toList by decide) (by decide) []
  rw [stringsOf, first, handed_cons, List.map_cons] at tame
  have kind : kindOf (cut "90hz".toList) = .hz := by decide
  have takes := tame.1
  rw [Header.Takes, kind] at takes
  exact absurd takes (by decide)

end Table

end Ct.Dealfile
