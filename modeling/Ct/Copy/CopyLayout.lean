import Ct.Copy.CopyRuns

set_option autoImplicit false

namespace Ct.Copy

open Ct.Lib

/-- The byte at which a sector of the disk stands in the image. -/
def place (first : Segment) (sector : Nat) : Nat := 512 * (sector - first.start.toNat)

/-- The last sector, and one. -/
def lastSector (first : Segment) (rest : List Segment) : Nat :=
  let last := (first :: rest).getLast (List.cons_ne_nil first rest)
  last.start.toNat + last.count.toNat

/-- Each segment stands at its sector, the gaps between them are zero, and the image ends with the
last segment. -/
structure Assembled (calls : Calls) (first : Segment) (rest : List Segment) (image : List UInt8) :
    Prop where
  segments : ∀ segment ∈ first :: rest,
    content calls segment <+: image.drop (place first segment.start.toNat)
  gaps : (first :: rest).IsChain fun a b =>
    zeros (gap a b) <+: image.drop (place first (a.start.toNat + a.count.toNat))
  length : image.length = place first (lastSector first rest)

/-- What stands behind the segment `a` where all are in their places. -/
def layoutBehind (calls : Calls) : Segment → List Segment → List UInt8
  | _, [] => []
  | a, b :: rest => zeros (gap a b) ++ (content calls b ++ layoutBehind calls b rest)

/-- The image with all segments in their places. -/
def layout (calls : Calls) (first : Segment) (rest : List Segment) : List UInt8 :=
  content calls first ++ layoutBehind calls first rest

/-- The files have the sizes of their segments. -/
def Exact (calls : Calls) (map : List Segment) : Prop :=
  ∀ segment ∈ map, (content calls segment).length = 512 * segment.count.toNat

section Layout

variable {calls : Calls} {first a b : Segment} {rest : List Segment} {image : List UInt8}

theorem Sound.exact {map : List Segment} {old : List UInt8} (sound : Sound calls map old) :
    Exact calls map := by
  intro segment member
  obtain ⟨file, opened, exact⟩ := sound.files segment member
  rw [content, opened]
  exact exact

theorem length_zeros (sectors : Nat) : (zeros sectors).length = 512 * sectors :=
  List.length_replicate

theorem lastSector_cons (a b : Segment) (rest : List Segment) :
    lastSector a (b :: rest) = lastSector b rest := by
  rw [lastSector, lastSector, List.getLast_cons_cons]

theorem start_le_lastSector (rest : List Segment) :
    ∀ {a : Segment}, Ordered (a :: rest) → a.start.toNat + a.count.toNat ≤ lastSector a rest := by
  induction rest with
  | nil => exact fun _ => Nat.le_refl _
  | cons b rest ih =>
    intro a ordered
    obtain ⟨apart, ordered⟩ := List.isChain_cons_cons.mp ordered
    have later := ih ordered
    rw [lastSector_cons]
    omega

/-- A place counted from the next segment. -/
theorem place_next (apart : a.start.toNat + a.count.toNat ≤ b.start.toNat) {sector : Nat}
    (behind : b.start.toNat ≤ sector) :
    place a sector = 512 * a.count.toNat + 512 * gap a b + place b sector := by
  rw [place, place, gap]
  omega

theorem length_layout (rest : List Segment) :
    ∀ {a : Segment}, Ordered (a :: rest) → Exact calls (a :: rest) →
      (layout calls a rest).length = place a (lastSector a rest) := by
  induction rest with
  | nil =>
    intro a _ exact
    rw [layout, layoutBehind, List.append_nil, exact a (List.mem_cons_self ..), place]
    show _ = 512 * (a.start.toNat + a.count.toNat - a.start.toNat)
    rw [Nat.add_sub_cancel_left]
  | cons b rest ih =>
    intro a ordered exact
    obtain ⟨apart, ordered⟩ := List.isChain_cons_cons.mp ordered
    obtain ⟨here, later⟩ := List.forall_mem_cons.mp exact
    have last := start_le_lastSector rest ordered
    have behind := ih ordered later
    rw [layout] at behind
    rw [lastSector_cons, place_next apart (by omega), ← behind, layout, layoutBehind,
      List.length_append, List.length_append, here, length_zeros, Nat.add_assoc]

theorem start_le (rest : List Segment) :
    ∀ {a : Segment}, Ordered (a :: rest) → ∀ segment ∈ a :: rest,
      a.start.toNat ≤ segment.start.toNat := by
  induction rest with
  | nil =>
    intro a _ segment member
    rw [List.mem_singleton.mp member]
  | cons b rest ih =>
    intro a ordered segment member
    obtain ⟨apart, ordered⟩ := List.isChain_cons_cons.mp ordered
    rcases List.mem_cons.mp member with rfl | later
    · exact Nat.le_refl _
    · have behind := ih ordered segment later
      omega

theorem place_self (a : Segment) : place a a.start.toNat = 0 := by
  rw [place, Nat.sub_self, Nat.mul_zero]

theorem place_end (a : Segment) : place a (a.start.toNat + a.count.toNat) = 512 * a.count.toNat := by
  rw [place, Nat.add_sub_cancel_left]

/-- The segments and the gaps are in their places where the layout stands at the front. -/
theorem layout_prefix_iff (rest : List Segment) :
    ∀ {a : Segment} {image : List UInt8}, Ordered (a :: rest) → Exact calls (a :: rest) →
      (layout calls a rest <+: image ↔
        (∀ segment ∈ a :: rest, content calls segment <+: image.drop (place a segment.start.toNat)) ∧
        (a :: rest).IsChain fun x y =>
          zeros (gap x y) <+: image.drop (place a (x.start.toNat + x.count.toNat))) := by
  induction rest with
  | nil =>
    intro a image _ _
    rw [layout, layoutBehind, List.append_nil, List.forall_mem_singleton, place_self, List.drop_zero]
    exact (and_iff_left (List.isChain_singleton a)).symm
  | cons b rest ih =>
    intro a image ordered exact
    obtain ⟨apart, ordered⟩ := List.isChain_cons_cons.mp ordered
    obtain ⟨here, later⟩ := List.forall_mem_cons.mp exact
    have front := start_le rest ordered
    have moved : ∀ sector, b.start.toNat ≤ sector →
        ((image.drop (512 * a.count.toNat)).drop (512 * gap a b)).drop (place b sector) =
          image.drop (place a sector) := by
      intro sector behind
      rw [List.drop_drop, List.drop_drop, place_next apart behind, Nat.add_assoc]
    rw [layout, layoutBehind, append_prefix_iff, append_prefix_iff, here, length_zeros,
      ← layout, ih ordered later, List.forall_mem_cons (l := b :: rest), List.isChain_cons_cons,
      place_self, List.drop_zero, place_end, and_assoc, and_left_comm (a := zeros _ <+: _)]
    refine and_congr_right fun _ => and_congr ?_ (and_congr_right fun _ => ?_)
    · exact forall₂_congr fun segment member => by rw [moved _ (front segment member)]
    · refine List.IsChain.iff_of_mem_imp fun x y member _ => ?_
      have behind := front x member
      rw [moved _ (by omega)]

theorem assembled_iff (ordered : Ordered (a :: rest)) (exact : Exact calls (a :: rest)) :
    Assembled calls a rest image ↔ image = layout calls a rest := by
  have sized := length_layout rest ordered exact
  constructor
  · intro assembled
    have front := (layout_prefix_iff rest ordered exact).mpr ⟨assembled.segments, assembled.gaps⟩
    exact (front.eq_of_length (sized.trans assembled.length.symm)).symm
  · rintro rfl
    obtain ⟨segments, gaps⟩ := (layout_prefix_iff rest ordered exact).mp List.prefix_rfl
    exact ⟨segments, gaps, sized⟩

/-- The padding in front of `b` could as well stand behind it. -/
def Unmoved (calls : Calls) (a b : Segment) : Prop :=
  a.start.toNat + a.count.toNat = b.start.toNat ∨ ∀ byte ∈ content calls b, byte = 0

theorem unmoved_iff (apart : a.start.toNat + a.count.toNat ≤ b.start.toNat) :
    content calls b ++ zeros (gap a b) = zeros (gap a b) ++ content calls b ↔
      Unmoved calls a b := by
  have none : 512 * gap a b = 0 ↔ a.start.toNat + a.count.toNat = b.start.toNat := by
    rw [gap]
    omega
  rw [zeros, append_replicate_comm, none, Unmoved]

theorem length_writtenBehind (rest : List Segment) :
    ∀ a : Segment, (writtenBehind calls a rest).length = (layoutBehind calls a rest).length := by
  induction rest with
  | nil => exact fun _ => rfl
  | cons b rest ih =>
    intro a
    rw [writtenBehind, layoutBehind, List.length_append, List.length_append, List.length_append,
      List.length_append, ih b, Nat.add_left_comm]

theorem writtenBehind_iff (rest : List Segment) :
    ∀ {a : Segment}, Ordered (a :: rest) →
      (writtenBehind calls a rest = layoutBehind calls a rest ↔
        (a :: rest).IsChain (Unmoved calls)) := by
  induction rest with
  | nil =>
    intro a _
    exact iff_of_true rfl (List.isChain_singleton a)
  | cons b rest ih =>
    intro a ordered
    obtain ⟨apart, ordered⟩ := List.isChain_cons_cons.mp ordered
    have sized : (content calls b ++ zeros (gap a b)).length =
        (zeros (gap a b) ++ content calls b).length := by
      rw [List.length_append, List.length_append, Nat.add_comm]
    rw [writtenBehind, layoutBehind, ← List.append_assoc, ← List.append_assoc,
      List.append_eq_append_iff_of_size_eq_left sized, unmoved_iff apart, ih ordered,
      List.isChain_cons_cons]

theorem length_writtenImage (ordered : Ordered (a :: rest)) (exact : Exact calls (a :: rest)) :
    (writtenImage calls a rest).length = place a (lastSector a rest) := by
  rw [← length_layout rest ordered exact, writtenImage, layout, List.length_append,
    List.length_append, length_writtenBehind]

/-- What the file held before must not reach behind the image. -/
theorem written_assembled_iff {old : List UInt8} (ordered : Ordered (a :: rest))
    (exact : Exact calls (a :: rest)) :
    Assembled calls a rest
        (writtenImage calls a rest ++ old.drop (writtenImage calls a rest).length) ↔
      old.length ≤ place a (lastSector a rest) ∧ (a :: rest).IsChain (Unmoved calls) := by
  have sized : (writtenImage calls a rest).length = (layout calls a rest).length := by
    rw [length_writtenImage ordered exact, length_layout rest ordered exact]
  have whole : writtenImage calls a rest ++ old.drop (writtenImage calls a rest).length =
      layout calls a rest ↔ writtenImage calls a rest = layout calls a rest ∧
        old.drop (writtenImage calls a rest).length = [] := by
    conv_lhs => rhs; rw [← List.append_nil (layout calls a rest)]
    exact List.append_eq_append_iff_of_size_eq_left sized
  rw [assembled_iff ordered exact, whole, List.drop_eq_nil_iff, length_writtenImage ordered exact,
    writtenImage, layout, List.append_cancel_left_eq, writtenBehind_iff rest ordered, and_comm]

/-- The two sizes that `main` prints agree, wherever the segments stand. -/
theorem sizes_agree {old : List UInt8} (sound : Sound calls (a :: rest) old)
    (ordered : Ordered (a :: rest)) :
    ∃ sizes, (main calls a rest).sizes = some sizes ∧ sizes.allWrite = sizes.endToStart := by
  have low := start_le rest ordered _ (List.getLast_mem (List.cons_ne_nil a rest))
  rw [main_writes sound ordered]
  refine ⟨_, rfl, BitVec.eq_of_toNat_eq ?_⟩
  rw [length_writtenImage ordered sound.exact, place, lastSector, endToStart, BitVec.toNat_ofNat,
    BitVec.toNat_mul, BitVec.toNat_add, BitVec.toNat_sub_of_le (BitVec.le_def.mpr low)]
  show _ = _ * 512 % 2 ^ 64
  rw [Nat.mod_mul_mod, Nat.mul_comm 512, Nat.sub_add_comm low]

end Layout

/-- Every file is there, one sector of this byte. -/
def uniform (byte : UInt8) : Calls where
  openOut := some []
  openIn := fun _ => some (List.replicate 512 byte)
  readFails := fun _ _ => false
  writeFails := fun _ => false

theorem uniform_sound (byte : UInt8) {map : List Segment}
    (single : ∀ segment ∈ map, segment.count = 1) : Sound (uniform byte) map [] where
  image := rfl
  files := by
    intro segment member
    refine ⟨_, rfl, ?_⟩
    rw [List.length_replicate, single segment member]
    rfl
  reads := fun _ _ => rfl
  writes := fun _ => rfl

/-- One sector behind a gap of one sector is written in front of it. -/
theorem second_segment_misplaced :
    ¬ ∀ (calls : Calls) (old : List UInt8) (first : Segment) (rest : List Segment),
      Sound calls (first :: rest) old → Ordered (first :: rest) →
      ∃ image sizes, main calls first rest = ⟨0, some image, sizes⟩ ∧
        Assembled calls first rest image := by
  intro assembles
  have sound : Sound (uniform 1) [⟨1, 0, 1⟩, ⟨2, 2, 1⟩] [] := uniform_sound 1 (by decide)
  have ordered : Ordered [⟨1, 0, 1⟩, ⟨2, 2, 1⟩] := by decide
  obtain ⟨image, sizes, ran, assembled⟩ := assembles (uniform 1) [] _ _ sound ordered
  rw [main_writes sound ordered] at ran
  cases ran
  have chain := ((written_assembled_iff ordered sound.exact).mp assembled).2
  rcases (List.isChain_cons_cons.mp chain).1 with adjacent | zero
  · exact absurd adjacent (by decide)
  · exact absurd (zero 1 (List.mem_replicate.mpr ⟨by decide, rfl⟩)) (by decide)

/-- The image is right where it is not shorter than what the file held before, and where each
segment behind a gap is zero itself. -/
theorem assembles_iff {calls : Calls} {old : List UInt8} {first : Segment} {rest : List Segment}
    (sound : Sound calls (first :: rest) old) (ordered : Ordered (first :: rest)) :
    (∃ image sizes, main calls first rest = ⟨0, some image, sizes⟩ ∧
        Assembled calls first rest image) ↔
      old.length ≤ place first (lastSector first rest) ∧
        (first :: rest).IsChain (Unmoved calls) := by
  rw [← written_assembled_iff ordered sound.exact, main_writes sound ordered]
  constructor
  · rintro ⟨image, sizes, same, assembled⟩
    cases same
    exact assembled
  · exact fun assembled => ⟨_, _, rfl, assembled⟩

theorem assembles_adjacent :
    ∃ image sizes, main (uniform 1) ⟨1, 0, 1⟩ [⟨2, 1, 1⟩] = ⟨0, some image, sizes⟩ ∧
      Assembled (uniform 1) ⟨1, 0, 1⟩ [⟨2, 1, 1⟩] image := by
  apply (assembles_iff (uniform_sound 1 (by decide)) (by decide)).mpr
  exact ⟨Nat.zero_le _, List.isChain_pair.mpr (Or.inl (by decide))⟩

end Ct.Copy
