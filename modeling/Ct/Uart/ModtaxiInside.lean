import Ct.Uart.ModtaxiFrames
import Mathlib.Tactic.SplitIfs
import Mathlib.Data.List.Basic

set_option autoImplicit false

namespace Ct.Uart

open Ct.Lib

section Streams

/-- A read that delivers a byte other than this one. -/
def passing (stop : UInt8) : Option UInt8 → Bool
  | some b => b != stop
  | none => false

/-- How many reads in a row deliver a byte other than `stop`. -/
def runLength (stop : UInt8) (reads : Reads) : Nat := (reads.takeWhile (passing stop)).length

/-- The read behind the first byte of a frame, which is the first `0xee` or the last of `left`
bytes; there is none where a read fails first. -/
def frameStart (left : Nat) (reads : Reads) : Option Nat :=
  let noise := runLength 0xee (reads.take left)
  if noise = left then some left
  else if reads[noise]? = some (some 0xee) then some (noise + 1)
  else none

theorem runLength_byte {stop b : UInt8} (other : b ≠ stop) (reads : Reads) :
    runLength stop (some b :: reads) = runLength stop reads + 1 := by
  have passes : passing stop (some b) = true := bne_iff_ne.mpr other
  rw [runLength, List.takeWhile_cons_of_pos passes, List.length_cons, runLength]

theorem runLength_stop (stop : UInt8) (reads : Reads) :
    runLength stop (some stop :: reads) = 0 := by
  have stops : ¬passing stop (some stop) = true := fun passes => bne_iff_ne.mp passes rfl
  rw [runLength, List.takeWhile_cons_of_neg stops, List.length_nil]

/-- Reads are bytes other than `stop` and what is behind the last of them in a row. -/
theorem run_split (stop : UInt8) (reads : Reads) :
    ∃ (body : Bytes) (tail : Reads), reads = body.map some ++ tail ∧ stop ∉ body ∧
      (∀ b, tail.head? = some (some b) → b = stop) ∧ body.length = runLength stop reads := by
  induction reads with
  | nil => exact ⟨[], [], rfl, List.not_mem_nil, fun b first => (by cases first), rfl⟩
  | cons first reads ih =>
    cases first with
    | none =>
      exact ⟨[], none :: reads, rfl, List.not_mem_nil, fun b first => (by cases first), rfl⟩
    | some b =>
      by_cases same : b = stop
      · subst same
        refine ⟨[], some b :: reads, rfl, List.not_mem_nil, fun c first => ?_, ?_⟩
        · exact (Option.some.inj (Option.some.inj first)).symm
        · rw [runLength_stop]
          rfl
      · obtain ⟨body, tail, rfl, outside, ends, size⟩ := ih
        refine ⟨b :: body, tail, rfl, ?_, ends, ?_⟩
        · exact List.not_mem_cons_of_ne_of_not_mem (Ne.symm same) outside
        · rw [runLength_byte same, List.length_cons, size]

theorem frameStart_byte {left : Nat} {b : UInt8} (other : b ≠ 0xee) (reads : Reads) :
    frameStart (left + 1) (some b :: reads) = (frameStart left reads).map (· + 1) := by
  rw [frameStart, frameStart, List.take_succ_cons, runLength_byte other,
    List.getElem?_cons_succ]
  by_cases whole : runLength 0xee (reads.take left) = left
  · rw [if_pos (by rw [whole]), if_pos whole]
    rfl
  · rw [if_neg (by omega), if_neg whole]
    by_cases found : reads[runLength 0xee (reads.take left)]? = some (some 0xee)
    · rw [if_pos found, if_pos found]
      rfl
    · rw [if_neg found, if_neg found]
      rfl

/-- Where the search ends, and the value that `c` then has. -/
theorem searchEe_cases (left : Nat) :
    ∀ {c : UInt8} {reads : Reads}, c ≠ 0xee →
      (frameStart left reads = none ∧ ∃ rest, searchEe left c reads = (none, rest)) ∨
        ∃ start last, frameStart left reads = some start ∧
          searchEe left c reads = (some last, reads.drop start) ∧
          (some c :: reads)[start]? = some (some last) := by
  induction left with
  | zero =>
    intro c reads _
    exact .inr ⟨0, c, rfl, rfl, rfl⟩
  | succ left ih =>
    intro c reads other
    cases reads with
    | nil => exact .inl ⟨rfl, [], if_neg other⟩
    | cons first reads =>
      cases first with
      | none => exact .inl ⟨rfl, reads, if_neg other⟩
      | some b =>
        rw [searchEe_byte other]
        by_cases same : b = 0xee
        · subst same
          refine .inr ⟨1, 0xee, ?_, searchEe_stop left reads, rfl⟩
          rw [frameStart, List.take_succ_cons, runLength_stop]
          rfl
        · rw [frameStart_byte same]
          rcases ih same with ⟨silent, fails⟩ | ⟨start, last, found, ended, value⟩
          · refine .inl ⟨?_, fails⟩
            rw [silent]
            rfl
          · refine .inr ⟨start + 1, last, ?_, ended, value⟩
            rw [found]
            rfl

end Streams

section Receive

variable {mem : Bytes} {base : Nat}

theorem store_outside {addr : Nat} (outside : mem.length ≤ addr) (b : UInt8) :
    store mem addr b = .error .outOfBounds := by
  rw [store, if_neg (Nat.not_lt.mpr outside)]

/-- Where they do not fit, a store goes behind the end. -/
theorem recvBytes_overruns (body : Bytes) (tail : Reads) :
    ∀ {mem : Bytes} {i : Nat} {c : UInt8}, 0xcc ∉ body → base + i ≤ mem.length →
      mem.length ≤ base + i + body.length →
      recvBytes base i c mem (body.map some ++ tail) = .error .outOfBounds := by
  induction body with
  | nil =>
    intro mem i c _ _ full
    have outside : mem.length ≤ base + i := full
    rw [List.map_nil, List.nil_append]
    rcases tail with _ | ⟨_ | b, rest⟩
    · rw [recvBytes_fails i c mem (fun b rest same => List.cons_ne_nil _ _ same.symm),
        store_outside outside]
      rfl
    · rw [recvBytes_fails i c mem (fun b rest same => by cases same), store_outside outside]
      rfl
    · rw [recvBytes_byte, store_outside outside]
      rfl
  | cons b more ih =>
    intro mem i c plain start full
    obtain ⟨other, plain⟩ := List.ne_and_not_mem_of_not_mem_cons plain
    rw [List.length_cons] at full
    change recvBytes base i c mem (some b :: (more.map some ++ tail)) = _
    rw [recvBytes_byte]
    rcases Nat.eq_or_lt_of_le start with edge | inside
    · rw [store_outside (Nat.le_of_eq edge.symm)]
      rfl
    · have same : (overwrite mem (base + i) [b]).length = mem.length := by
        apply overwrite_length
        rw [List.length_singleton]
        omega
      rw [store_fits inside]
      show (if b = 0xcc then _ else recvBytes base (i + 1) b _ (more.map some ++ tail)) = _
      rw [if_neg (Ne.symm other)]
      exact ih plain (by rw [same]; omega) (by rw [same]; omega)

/-- What a call stores: the first byte, the bytes up to the read that ends it, and one more. -/
structure Stores (reads : Reads) (start : Nat) (body : Bytes) (last : UInt8) : Prop where
  size : body.length = runLength 0xcc (reads.drop start)
  plain : 0xcc ∉ body
  last_iff : last = 0xcc ↔ reads[start + body.length]? = some (some 0xcc) ∨
    reads[start + body.length - 1]? = some (some 0xcc)

theorem frameStart_pos {left start : Nat} (positive : 0 < left) {reads : Reads}
    (found : frameStart left reads = some start) : 0 < start := by
  unfold frameStart at found
  dsimp only at found
  split_ifs at found with whole first
  · cases found
    exact positive
  · cases found
    exact Nat.succ_pos _

/-- The byte stored last is `0xcc` where the frame ends with it, or where the byte in front of the
read that fails is one. -/
theorem closing_iff {reads tail : Reads} {start : Nat} {c : UInt8} {body : Bytes}
    (split : reads.drop start = body.map some ++ tail) (plain : 0xcc ∉ body)
    (positive : 0 < start) (value : reads[start - 1]? = some (some c)) :
    closing c body tail = 0xcc ↔ reads[start + body.length]? = some (some 0xcc) ∨
      reads[start + body.length - 1]? = some (some 0xcc) := by
  have behind : reads[start + body.length]? = tail.head? := by
    rw [← List.getElem?_drop, split, List.getElem?_append_right (Nat.le_of_eq (List.length_map ..)),
      List.length_map, Nat.sub_self, List.head?_eq_getElem?]
  rw [behind, closing]
  by_cases ended : tail.head? = some (some 0xcc)
  · rw [if_pos ended]
    exact iff_of_true rfl (.inl ended)
  · rw [if_neg ended, or_iff_right ended]
    rcases List.eq_nil_or_concat' body with rfl | ⟨front, last, rfl⟩
    · rw [List.getLastD_nil, List.length_nil, Nat.add_zero, value]
      exact ⟨congrArg fun c => some (some c), fun same => Option.some.inj (Option.some.inj same)⟩
    · have other : last ≠ 0xcc := by
        rintro rfl
        exact plain (List.mem_append_right front (List.mem_singleton_self _))
      have place : start + (front ++ [last]).length - 1 = start + front.length := by
        rw [List.length_append, List.length_singleton]
        omega
      have there : reads[start + front.length]? = some (some last) := by
        rw [← List.getElem?_drop, split, List.map_append, List.append_assoc,
          List.getElem?_append_right (Nat.le_of_eq (List.length_map ..)), List.length_map,
          Nat.sub_self]
        rfl
      rw [List.getLastD_concat, place, there]
      refine iff_of_false other fun same => other ?_
      exact Option.some.inj (Option.some.inj same)

/-- A call without a frame stores nothing; any other call stores what it receives, however long
that is. -/
theorem recvEecc_cases (reads : Reads) :
    (frameStart 128 reads = none ∧
        ∃ rest, ∀ base mem, recvEecc base mem reads = .ok (-1, mem, rest)) ∨
      ∃ start body last rest, frameStart 128 reads = some start ∧
        Stores reads start body last ∧
        ∀ (base : Nat) (mem : Bytes), base < mem.length →
          recvEecc base mem reads =
            if base + body.length + 2 ≤ mem.length then
              .ok ((body.length + 2 : Nat), overwrite mem base (0xee :: (body ++ [last])), rest)
            else .error .outOfBounds := by
  have other : (0 : UInt8) ≠ 0xee := by decide
  rcases searchEe_cases 128 other with ⟨silent, rest, fails⟩ | ⟨start, c, found, ended, value⟩
  · refine .inl ⟨silent, rest, fun base mem => ?_⟩
    rw [recvEecc, fails]
  · obtain ⟨body, tail, split, plain, ends, size⟩ := run_split 0xcc (reads.drop start)
    refine .inr ⟨start, body, closing c body tail, tail.tail, found, ⟨size, plain, ?_⟩,
      fun base mem inside => ?_⟩
    · have positive := frameStart_pos (by decide) found
      obtain ⟨before, rfl⟩ : ∃ before, start = before + 1 := ⟨start - 1, by omega⟩
      exact closing_iff split plain positive value
    · have same : (overwrite mem base [0xee]).length = mem.length := by
        apply overwrite_length
        rw [List.length_singleton]
        omega
      rw [recvEecc, ended]
      dsimp only
      rw [store_fits inside, split]
      dsimp only
      by_cases room : base + body.length + 2 ≤ mem.length
      · have joined : overwrite (overwrite mem base [0xee]) (base + 1)
            (body ++ [closing c body tail]) =
            overwrite mem base (0xee :: (body ++ [closing c body tail])) := by
          apply overwrite_overwrite
          rw [List.length_singleton]
          omega
        rw [recvBytes_fits body tail ends plain (by rw [same]; omega), if_pos room, joined]
        congr 3
        omega
      · rw [recvBytes_overruns body tail plain (by rw [same]; omega) (by rw [same]; omega),
          if_neg room]

end Receive

section Check

variable {mem : Bytes} {i : Nat}

theorem checkFrame_runs_out {bytes : Bytes} (plain : 0xcc ∉ bytes) :
    ∀ sum, checkFrame sum bytes = .error .outOfBounds := by
  induction bytes with
  | nil => exact fun _ => rfl
  | cons b rest ih =>
    intro sum
    obtain ⟨other, plain⟩ := List.ne_and_not_mem_of_not_mem_cons plain
    cases rest with
    | nil => rw [checkFrame, if_neg (Ne.symm other)]
    | cons next rest =>
      have different : next ≠ 0xcc := Ne.symm (List.ne_of_not_mem_cons plain)
      rw [checkFrame_more (Ne.symm other) different]
      exact ih plain _

/-- The check stays in its bytes when `0xcc` is one of them. -/
theorem checkFrame_inside_iff (sum : UInt8) (bytes : Bytes) :
    (∃ hit, checkFrame sum bytes = .ok hit) ↔ 0xcc ∈ bytes := by
  constructor
  · rintro ⟨hit, ran⟩
    by_cases member : 0xcc ∈ bytes
    · exact member
    · rw [checkFrame_runs_out member] at ran
      cases ran
  · intro member
    obtain ⟨body, rest, rfl, plain⟩ := List.eq_append_cons_of_mem member
    exact ⟨_, checkFrame_ends body sum rest plain⟩

/-- `data[i]` is checked in a memory that ends with it. -/
def ChecksInside (mem : Bytes) (i : Nat) : Prop :=
  ∃ hit after, calcsumEntry (mem.take (descSize * i + descSize)) i = .ok (hit, after)

/-- There is a `0xcc` from offset `start` on in front of `data[i].valid`. -/
def Closed (mem : Bytes) (i start : Nat) : Prop :=
  ∃ o, start ≤ o ∧ o < validOffset ∧ mem[descSize * i + o]? = some 0xcc

theorem checksInside_iff (room : descSize * i + descSize ≤ mem.length) :
    ChecksInside mem i ↔ Closed mem i 1 := by
  have cut : (mem.take (descSize * i + descSize)).length = descSize * i + descSize := by
    rw [List.length_take, Nat.min_eq_left room]
  have size : ((mem.take (descSize * i + descSize)).drop (descSize * i)).length = descSize := by
    rw [List.length_drop, cut, Nat.add_sub_cancel_left]
  have flag : descSize = validOffset + 4 := rfl
  have fits : validOffset + [(0 : UInt8), 0, 0, 0].length ≤
      ((mem.take (descSize * i + descSize)).drop (descSize * i)).length := by
    rw [size]
    exact Nat.le_refl _
  have same : ChecksInside mem i ↔
      ∃ hit, rechecks ((mem.take (descSize * i + descSize)).drop (descSize * i)) = .ok hit := by
    rw [ChecksInside, calcsumEntry_eq (Nat.le_of_eq cut.symm)]
    rw [← map_ends_iff fun hit => (hit, flagged (mem.take (descSize * i + descSize)) i hit)]
    constructor
    · rintro ⟨hit, after, ran⟩
      exact ⟨(hit, after), ran⟩
    · rintro ⟨⟨hit, after⟩, ran⟩
      exact ⟨hit, after, ran⟩
  rw [same, rechecks, checkFrame_inside_iff, List.mem_iff_getElem?]
  constructor
  · rintro ⟨o, there⟩
    rw [List.getElem?_drop, overwrite_getElem? fits] at there
    by_cases inFlag : validOffset ≤ 1 + o ∧ 1 + o < validOffset + [(0 : UInt8), 0, 0, 0].length
    · rw [if_pos inFlag] at there
      have zero := List.mem_of_getElem? there
      exact absurd zero (by decide)
    · rw [if_neg inFlag, List.getElem?_drop] at there
      have few : descSize * i + (1 + o) < descSize * i + descSize := by
        rw [← cut]
        exact (List.getElem?_eq_some_iff.mp there).1
      rw [List.getElem?_take_of_lt few] at there
      refine ⟨1 + o, Nat.le_add_right 1 o, ?_, there⟩
      rw [List.length_cons, List.length_cons, List.length_cons, List.length_singleton] at inFlag
      omega
  · rintro ⟨o, low, high, there⟩
    obtain ⟨before, rfl⟩ : ∃ before, o = 1 + before := ⟨o - 1, by omega⟩
    refine ⟨before, ?_⟩
    rw [List.getElem?_drop, overwrite_getElem? fits, if_neg (by omega), List.getElem?_drop,
      List.getElem?_take_of_lt (by omega)]
    exact there

end Check

section Inside

/-- `data[i]` is filled in a memory that ends at its `valid`. -/
def FillsInside (mem : Bytes) (i : Nat) (reads : Reads) : Prop :=
  ∃ ret after rest,
    recvEecc (descSize * i) (mem.take (descSize * i + validOffset)) reads = .ok (ret, after, rest)

/-- `recv_eecc` stores nothing at `valid` or behind, so that the flag and the other frames are as
they were, and `calcsum` then reads nothing behind the descriptor. -/
def StaysInside (mem : Bytes) (i : Nat) (reads : Reads) : Prop :=
  FillsInside mem i reads ∧
    ∃ ret after rest, recvEecc (descSize * i) mem reads = .ok (ret, after, rest) ∧
      SameBefore (descSize * i) mem after ∧
      after.drop (descSize * i + validOffset) = mem.drop (descSize * i + validOffset) ∧
      ChecksInside after i

/-- The reads end the frame in the descriptor: there are at most 30 bytes without `0xcc` in a row
behind the first one, and `0xcc` comes next, comes last where a read fails, or is still in the
descriptor from before. -/
def EndsInside (mem : Bytes) (i : Nat) (reads : Reads) : Prop :=
  match frameStart 128 reads with
  | none => Closed mem i 1
  | some start =>
    let count := runLength 0xcc (reads.drop start)
    count + 2 ≤ validOffset ∧ (reads[start + count]? = some (some 0xcc) ∨
      reads[start + count - 1]? = some (some 0xcc) ∨ Closed mem i (count + 2))

variable {mem : Bytes} {i : Nat} {reads : Reads}

/-- What is stored ends the frame, or what is behind it in the descriptor does. -/
theorem closed_stored_iff {body : Bytes} {last : UInt8} (plain : 0xcc ∉ body)
    (fits : body.length + 2 ≤ validOffset) (room : descSize * i + descSize ≤ mem.length) :
    Closed (overwrite mem (descSize * i) (0xee :: (body ++ [last]))) i 1 ↔
      last = 0xcc ∨ Closed mem i (body.length + 2) := by
  have flag : descSize = validOffset + 4 := rfl
  have size : (0xee :: (body ++ [last])).length = body.length + 2 := by
    rw [List.length_cons, List.length_append, List.length_singleton]
  have inside : descSize * i + (0xee :: (body ++ [last])).length ≤ mem.length := by
    rw [size]
    omega
  constructor
  · rintro ⟨o, low, high, there⟩
    rw [overwrite_getElem? inside, size] at there
    by_cases new : o < body.length + 2
    · rw [if_pos (by omega), Nat.add_sub_cancel_left] at there
      obtain ⟨before, rfl⟩ : ∃ before, o = before + 1 := ⟨o - 1, by omega⟩
      rw [List.getElem?_cons_succ] at there
      rcases List.mem_append.mp (List.mem_of_getElem? there) with earlier | ended
      · exact absurd earlier plain
      · exact .inl (List.mem_singleton.mp ended).symm
    · rw [if_neg (by omega)] at there
      exact .inr ⟨o, by omega, high, there⟩
  · rintro (rfl | ⟨o, low, high, there⟩)
    · refine ⟨body.length + 1, by omega, by omega, ?_⟩
      rw [overwrite_getElem? inside, size, if_pos (by omega), Nat.add_sub_cancel_left,
        List.getElem?_cons_succ]
      exact List.getElem?_concat_length
    · refine ⟨o, by omega, high, ?_⟩
      rw [overwrite_getElem? inside, size, if_neg (by omega)]
      exact there

/-- The receiver stays in its descriptor exactly when the reads end the frame there. -/
theorem stays_inside_iff (mem : Bytes) (i : Nat) (room : descSize * (i + 1) ≤ mem.length)
    (reads : Reads) : StaysInside mem i reads ↔ EndsInside mem i reads := by
  have flag : descSize = validOffset + 4 := rfl
  have here : descSize * i + descSize ≤ mem.length := room
  have cut : (mem.take (descSize * i + validOffset)).length = descSize * i + validOffset := by
    rw [List.length_take]
    omega
  rw [StaysInside, FillsInside, EndsInside]
  rcases recvEecc_cases reads with ⟨silent, rest, quiet⟩ |
    ⟨start, body, last, rest, found, stores, ran⟩
  · rw [silent]
    show _ ↔ Closed mem i 1
    rw [← checksInside_iff here]
    constructor
    · rintro ⟨_, ret, after, rest', same, _, _, checks⟩
      rw [quiet] at same
      cases same
      exact checks
    · intro checks
      exact ⟨⟨_, _, _, quiet _ _⟩, _, _, _, quiet _ _, ⟨rfl, rfl⟩, rfl, checks⟩
  · rw [found]
    show _ ↔ runLength 0xcc (reads.drop start) + 2 ≤ validOffset ∧ _
    rw [← stores.size, ← or_assoc, ← stores.last_iff]
    have inside : descSize * i < (mem.take (descSize * i + validOffset)).length := by
      rw [cut]
      exact Nat.lt_add_of_pos_right (by decide)
    rw [ran _ _ inside, ran _ mem (by omega), cut]
    by_cases fits : body.length + 2 ≤ validOffset
    · have whole : descSize * i + body.length + 2 ≤ mem.length := by omega
      have size : (0xee :: (body ++ [last])).length = body.length + 2 := by
        rw [List.length_cons, List.length_append, List.length_singleton]
      have same : (overwrite mem (descSize * i) (0xee :: (body ++ [last]))).length =
          mem.length := by
        apply overwrite_length
        rw [size]
        omega
      have checks := checksInside_iff (i := i) (same ▸ here)
      rw [closed_stored_iff stores.plain fits here] at checks
      rw [if_pos whole, if_pos (by omega), ← checks, and_iff_right fits]
      constructor
      · rintro ⟨_, ret, after, rest', ended, _, _, inside'⟩
        cases ended
        exact inside'
      · intro inside'
        refine ⟨⟨_, _, _, rfl⟩, _, _, _, rfl, ⟨same, ?_⟩, ?_, inside'⟩
        · have front : ((overwrite mem (descSize * i) (0xee :: (body ++ [last]))).drop 0).take
              (descSize * i) = (mem.drop 0).take (descSize * i) :=
            overwrite_drop_take (by omega) (by omega)
          exact front
        · exact overwrite_drop (by omega) (by omega)
    · rw [if_neg (show ¬descSize * i + body.length + 2 ≤ descSize * i + validOffset by omega)]
      refine iff_of_false (fun stays => ?_) fun ends => fits ends.1
      obtain ⟨⟨_, _, _, ended⟩, _⟩ := stays
      cases ended

theorem short_frame_stays :
    descSize * (0 + 1) ≤ (List.replicate 108 (0 : UInt8)).length ∧
      StaysInside (List.replicate 108 0) 0 [some 0xee, some 0x01, some 0xef, some 0xcc] :=
  ⟨by decide, (stays_inside_iff (List.replicate 108 0) 0 (by decide) _).mpr
    ⟨by decide, .inl rfl⟩⟩

/-- A frame of 33 bytes runs over the flag. -/
theorem long_frame_overruns :
    ¬∀ (mem : Bytes) (i : Nat), descSize * (i + 1) ≤ mem.length → ∀ reads : Reads,
      StaysInside mem i reads := by
  intro all
  obtain ⟨⟨ret, after, rest, ran⟩, _⟩ := all (List.replicate 108 0) 0 (by decide)
    (some 0xee :: List.replicate 31 (some 0x01) ++ [some 0xcc])
  cases ran

end Inside

end Ct.Uart
