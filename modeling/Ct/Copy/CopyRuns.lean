import Ct.Copy.Copy
import Ct.Lib.Padding
import Mathlib.Data.List.Chain

set_option autoImplicit false

namespace Ct.Copy

open Ct.Lib

/-- What the file of a segment holds. -/
def content (calls : Calls) (segment : Segment) : List UInt8 :=
  (calls.openIn (filename segment.number)).getD []

/-- The sectors between two segments. -/
def gap (a b : Segment) : Nat := b.start.toNat - (a.start.toNat + a.count.toNat)

def zeros (sectors : Nat) : List UInt8 := List.replicate (512 * sectors) 0

/-- The segments ascend and do not overlap. -/
def Ordered (map : List Segment) : Prop :=
  map.IsChain fun a b => a.start.toNat + a.count.toNat ≤ b.start.toNat

instance (map : List Segment) : Decidable (Ordered map) :=
  inferInstanceAs (Decidable (List.IsChain _ map))

example : Ordered systemMap := by decide

/-- Every segment has a file of its size, `system_all.img` holds `old`, and no call fails. -/
structure Sound (calls : Calls) (map : List Segment) (old : List UInt8) : Prop where
  image : calls.openOut = some old
  files : ∀ segment ∈ map, ∃ file, calls.openIn (filename segment.number) = some file ∧
    file.length = 512 * segment.count.toNat
  reads : ∀ name pos, calls.readFails name pos = false
  writes : ∀ offset, calls.writeFails offset = false

/-- What is written behind the segment `a`, in the order of the loop. -/
def writtenBehind (calls : Calls) : Segment → List Segment → List UInt8
  | _, [] => []
  | a, b :: rest => content calls b ++ (zeros (gap a b) ++ writtenBehind calls b rest)

/-- All that `main` writes. -/
def writtenImage (calls : Calls) (first : Segment) (rest : List Segment) : List UInt8 :=
  content calls first ++ writtenBehind calls first rest

/-- `written` has been written, and what the file held behind it is still there. -/
structure Wrote (old written : List UInt8) (out : Output) : Prop where
  image : out.image = written ++ old.drop written.length
  offset : out.offset = written.length

/-- The two sums count what has been written. -/
def Tallied (written : List UInt8) (out : Output) : Prop :=
  out.filledSize + out.emptySize = BitVec.ofNat 64 written.length

section Runs

variable {calls : Calls} {old written : List UInt8} {out : Output}

theorem Wrote.write (wrote : Wrote old written out)
    (writes : ∀ offset, calls.writeFails offset = false) (bytes : List UInt8) :
    ∃ after, writeOut calls bytes out = some after ∧ Wrote old (written ++ bytes) after ∧
      after.filledSize = out.filledSize ∧ after.emptySize = out.emptySize := by
  have succeeds : ¬ calls.writeFails out.offset = true := by simp [writes]
  refine ⟨_, if_neg succeeds, ⟨?_, ?_⟩, rfl, rfl⟩
  · show overwrite out.image out.offset bytes = _
    rw [wrote.image, wrote.offset, overwrite, List.take_left, ← List.drop_drop, List.drop_left,
      List.drop_drop, List.length_append]
  · show out.offset + bytes.length = _
    rw [wrote.offset, List.length_append]

/-- A whole sector of the file takes the place of what is in the buffer. -/
theorem readIn_sector (file : List UInt8) (pos : Nat) {buffer : List UInt8}
    (sector : pos + 512 ≤ file.length) (sized : buffer.length = 512) : readIn file pos buffer = (file.drop pos).take 512 := by
  have full : ((file.drop pos).take 512).length = 512 := by
    rw [List.length_take, List.length_drop]
    omega
  rw [readIn, full, List.drop_eq_nil_of_le (Nat.le_of_eq sized), List.append_nil]

theorem copyLoop_copies (reads : ∀ name pos, calls.readFails name pos = false)
    (writes : ∀ offset, calls.writeFails offset = false) (name : CString) (file : List UInt8)
    (left : Nat) :
    ∀ {pos : Nat} {buffer written : List UInt8} (count : BitVec 64) {out : Output},
      file.length = pos + 512 * left → buffer.length = 512 → Wrote old written out →
      ∃ buffer' after, copyLoop calls name file left pos buffer count out =
          .ok (buffer', count + BitVec.ofNat 64 (512 * left), after) ∧
        buffer'.length = 512 ∧ Wrote old (written ++ file.drop pos) after ∧
        after.filledSize = out.filledSize ∧ after.emptySize = out.emptySize := by
  induction left with
  | zero =>
    intro pos buffer written count out exact sized wrote
    refine ⟨buffer, out, ?_, sized, ?_, rfl, rfl⟩
    · rw [copyLoop, Nat.mul_zero, BitVec.add_zero]
    · rwa [List.drop_eq_nil_of_le (by omega), List.append_nil]
  | succ left ih =>
    intro pos buffer written count out exact sized wrote
    have succeeds : ¬ calls.readFails name pos = true := by simp [reads]
    have read := readIn_sector file pos (by omega) sized
    have full : ((file.drop pos).take 512).length = 512 := by
      rw [List.length_take, List.length_drop]
      omega
    obtain ⟨next, wrote', stored, filled, empty⟩ := wrote.write writes ((file.drop pos).take 512)
    have rest : file.length = pos + 512 + 512 * left := by omega
    have moved : min (pos + 512) file.length = pos + 512 := by omega
    obtain ⟨buffer', after, ran, sized', done, filled', empty'⟩ :=
      ih (count + BitVec.ofNat 64 512) rest full stored
    refine ⟨buffer', after, ?_, sized', ?_, filled'.trans filled, empty'.trans empty⟩
    · simp only [copyLoop, if_neg succeeds, read, wrote', moved, full]
      rw [ran, Nat.mul_succ, Nat.add_comm (512 * left), BitVec.ofNat_add, BitVec.add_assoc]
    · rwa [List.append_assoc, ← List.drop_drop, List.take_append_drop] at done

theorem zeroLoop_pads (writes : ∀ offset, calls.writeFails offset = false) (left : Nat) :
    ∀ {written : List UInt8} (count : BitVec 64) {out : Output}, Wrote old written out →
      ∃ after, zeroLoop calls left count out =
          .ok (count + BitVec.ofNat 64 (512 * left), after) ∧
        Wrote old (written ++ zeros left) after ∧
        after.filledSize = out.filledSize ∧ after.emptySize = out.emptySize := by
  induction left with
  | zero =>
    intro written count out wrote
    refine ⟨out, ?_, ?_, rfl, rfl⟩
    · rw [zeroLoop, Nat.mul_zero, BitVec.add_zero]
    · rwa [zeros, Nat.mul_zero, List.replicate_zero, List.append_nil]
  | succ left ih =>
    intro written count out wrote
    obtain ⟨next, wrote', stored, filled, empty⟩ := wrote.write writes (List.replicate 512 0)
    obtain ⟨after, ran, done, filled', empty'⟩ := ih (count + 512) stored
    refine ⟨after, ?_, ?_, filled'.trans filled, empty'.trans empty⟩
    · simp only [zeroLoop, wrote']
      rw [ran, Nat.mul_succ, Nat.add_comm (512 * left), BitVec.ofNat_add, BitVec.add_assoc]
      rfl
    · rwa [List.append_assoc, zeros, List.replicate_append_replicate, Nat.add_comm,
        ← Nat.mul_succ] at done

/-- The gap that the code computes from its unsigned numbers. -/
theorem gap_toNat {a b : Segment} (apart : a.start.toNat + a.count.toNat ≤ b.start.toNat) :
    (b.start - a.start - a.count).toNat = gap a b := by
  have high := b.start.isLt
  rw [BitVec.toNat_sub_of_le, BitVec.toNat_sub_of_le, gap]
  · omega
  · rw [BitVec.le_def]
    omega
  · rw [BitVec.le_def, BitVec.toNat_sub_of_le]
    · omega
    · rw [BitVec.le_def]
      omega

/-- One segment: its sectors are written behind what is there. -/
theorem copyLoop_segment {map : List Segment} (sound : Sound calls map old) {segment : Segment}
    (member : segment ∈ map) {buffer : List UInt8} (sized : buffer.length = 512)
    (wrote : Wrote old written out) :
    ∃ file buffer' count after, calls.openIn (filename segment.number) = some file ∧
      copyLoop calls (filename segment.number) file segment.count.toNat 0 buffer 0 out =
        .ok (buffer', count, after) ∧
      buffer'.length = 512 ∧ Wrote old (written ++ content calls segment) after ∧
      count = BitVec.ofNat 64 (content calls segment).length ∧
      after.filledSize = out.filledSize ∧ after.emptySize = out.emptySize := by
  obtain ⟨file, opened, exact⟩ := sound.files segment member
  have whole : content calls segment = file.drop 0 := by
    rw [content, opened]
    rfl
  have sectors : file.length = 0 + 512 * segment.count.toNat := by omega
  obtain ⟨buffer', after, ran, sized', done, sums⟩ :=
    copyLoop_copies sound.reads sound.writes (filename segment.number) file segment.count.toNat
      0 sectors sized wrote
  rw [← whole] at done
  refine ⟨file, buffer', _, after, opened, ran, sized', done, ?_, sums⟩
  rw [whole, List.drop_zero, exact]
  exact BitVec.zero_add _

theorem segmentLoop_writes {map : List Segment} (sound : Sound calls map old)
    (rest : List Segment) :
    ∀ {a : Segment} {buffer written : List UInt8} {out : Output}, (∀ segment ∈ rest, segment ∈ map) →
      Ordered (a :: rest) → buffer.length = 512 → Wrote old written out → Tallied written out →
      ∃ after, segmentLoop calls (some a) rest buffer out = .ok after ∧
        Wrote old (written ++ writtenBehind calls a rest) after ∧
        Tallied (written ++ writtenBehind calls a rest) after := by
  induction rest with
  | nil =>
    intro a buffer written out _ _ _ wrote tallied
    refine ⟨out, rfl, ?_⟩
    rw [writtenBehind, List.append_nil]
    exact ⟨wrote, tallied⟩
  | cons b rest ih =>
    intro a buffer written out members ordered sized wrote tallied
    obtain ⟨here, later⟩ := List.forall_mem_cons.mp members
    obtain ⟨apart, ordered⟩ := List.isChain_cons_cons.mp ordered
    obtain ⟨file, buffer', count, next, opened, copied, sized', wrote', counted, filled, empty⟩ :=
      copyLoop_segment sound here sized wrote
    have wrote'' : Wrote old (written ++ content calls b)
        { next with filledSize := next.filledSize + count } := ⟨wrote'.image, wrote'.offset⟩
    obtain ⟨padded, ran, stored, filled', empty'⟩ :=
      zeroLoop_pads sound.writes (gap a b) 0 wrote''
    have tallied' : Tallied (written ++ content calls b ++ zeros (gap a b))
        { padded with emptySize := padded.emptySize + (0 + BitVec.ofNat 64 (512 * gap a b)) } := by
      rw [Tallied, List.length_append, List.length_append, BitVec.ofNat_add, BitVec.ofNat_add,
        ← tallied, ← counted, zeros, List.length_replicate]
      show padded.filledSize + (padded.emptySize + (0#64 + _)) = _
      rw [filled', empty', BitVec.zero_add]
      show next.filledSize + count + (next.emptySize + _) = _
      rw [filled, empty]
      ac_rfl
    have stored' : Wrote old (written ++ content calls b ++ zeros (gap a b))
        { padded with emptySize := padded.emptySize + (0 + BitVec.ofNat 64 (512 * gap a b)) } :=
      ⟨stored.image, stored.offset⟩
    obtain ⟨after, ended, done⟩ := ih later ordered sized' stored' tallied'
    refine ⟨after, ?_, ?_⟩
    · simp only [segmentLoop, opened, copied, bind, Except.bind, gap_toNat apart, ran]
      exact ended
    · rwa [List.append_assoc, List.append_assoc] at done

theorem main_writes {first : Segment} {rest : List Segment} (sound : Sound calls (first :: rest) old)
    (ordered : Ordered (first :: rest)) :
    main calls first rest =
      ⟨0, some (writtenImage calls first rest ++ old.drop (writtenImage calls first rest).length),
        some ⟨BitVec.ofNat 64 (writtenImage calls first rest).length, endToStart first rest⟩⟩ := by
  have start : Wrote old [] ⟨old, 0, 0, 0⟩ := ⟨rfl, rfl⟩
  obtain ⟨file, buffer, count, next, opened, copied, sized, wrote, counted, filled, empty⟩ :=
    copyLoop_segment sound (List.mem_cons_self ..) (List.length_replicate (a := (0 : UInt8))) start
  have tallied : Tallied (content calls first)
      { next with filledSize := next.filledSize + count } := by
    show next.filledSize + count + next.emptySize = _
    rw [filled, empty, counted]
    exact (BitVec.add_zero _).trans (BitVec.zero_add _)
  have stored : Wrote old (content calls first)
      { next with filledSize := next.filledSize + count } := ⟨wrote.image, wrote.offset⟩
  obtain ⟨after, ended, done, tallied'⟩ := segmentLoop_writes sound rest
    (fun segment member => List.mem_cons_of_mem _ member) ordered sized stored tallied
  have ran : segmentLoop calls none (first :: rest) (List.replicate 512 0) ⟨old, 0, 0, 0⟩ =
      .ok after := by
    simp only [segmentLoop, opened, copied, bind, Except.bind]
    exact ended
  have sums : after.filledSize + after.emptySize = _ := tallied'
  simp only [main, sound.image, ran, done.image, sums]
  rfl

end Runs

end Ct.Copy
