import Ct.Ccutils.Net

set_option autoImplicit false

namespace Ct.Ccutils.Net

open Ct.Lib

/-- A transfer that succeeds with these chunks. -/
def delivers (chunks : List (List Char)) : Transfer where
  handle := true
  chunks := chunks
  performed := true
  sizeDownload := some chunks.flatten.length

theorem performWrites_cons (chunk : List Char) (rest : List (List Char)) (stream : List Char) :
    performWrites (chunk :: rest) stream =
      match memcpy stream chunk with
      | .error fault => .error fault
      | .ok stream => performWrites rest stream := by
  simp only [performWrites, ccHttpGetBuffer]
  cases memcpy stream chunk with
  | error fault => rfl
  | ok stream => rfl

/-- What the buffer holds in the end: each chunk is copied over its start. -/
def overwritten : List (List Char) → List Char → List Char
  | [], stream => stream
  | chunk :: rest, stream => overwritten rest (chunk ++ stream.drop chunk.length)

theorem overwritten_length {chunks : List (List Char)} :
    ∀ {stream : List Char}, (∀ chunk ∈ chunks, chunk.length ≤ stream.length) →
      (overwritten chunks stream).length = stream.length := by
  induction chunks with
  | nil => exact fun _ => rfl
  | cons chunk rest ih =>
    intro stream fit
    have first : chunk.length ≤ stream.length := fit chunk (List.mem_cons_self ..)
    have same : (chunk ++ stream.drop chunk.length).length = stream.length := by
      rw [List.length_append, List.length_drop]
      omega
    rw [overwritten, ih, same]
    intro later member
    rw [same]
    exact fit later (List.mem_cons_of_mem _ member)

/-- The write callback does not know the size of the buffer. -/
theorem performWrites_eq (chunks : List (List Char)) :
    ∀ stream : List Char, performWrites chunks stream =
      if ∀ chunk ∈ chunks, chunk.length ≤ stream.length then .ok (overwritten chunks stream)
      else .error .outOfBounds := by
  induction chunks with
  | nil =>
    intro stream
    rw [if_pos fun chunk member => absurd member List.not_mem_nil]
    rfl
  | cons chunk rest ih =>
    intro stream
    rw [performWrites_cons]
    by_cases first : chunk.length ≤ stream.length
    · have same : (chunk ++ stream.drop chunk.length).length = stream.length := by
        rw [List.length_append, List.length_drop]
        omega
      rw [memcpy_fits first]
      dsimp only
      rw [ih, same]
      simp only [List.mem_cons, forall_eq_or_imp, first, true_and, overwritten]
    · rw [memcpy, if_neg first, if_neg fun all => first (all chunk (List.mem_cons_self ..))]

/-- Empty chunks do not show. -/
theorem performWrites_filter (chunks : List (List Char)) :
    ∀ stream, performWrites chunks stream =
      performWrites (chunks.filter fun chunk => !chunk.isEmpty) stream := by
  induction chunks with
  | nil => exact fun _ => rfl
  | cons chunk rest ih =>
    intro stream
    cases chunk with
    | nil =>
      rw [performWrites_cons, memcpy_nil]
      exact ih stream
    | cons c tail =>
      rw [List.filter_cons_of_pos rfl, performWrites_cons, performWrites_cons]
      cases memcpy stream (c :: tail) with
      | error fault => rfl
      | ok next => exact ih next

theorem flatten_filter (chunks : List (List Char)) :
    (chunks.filter fun chunk => !chunk.isEmpty).flatten = chunks.flatten := by
  induction chunks with
  | nil => rfl
  | cons chunk rest ih =>
    cases chunk with
    | nil => exact ih
    | cons c tail =>
      rw [List.filter_cons_of_pos rfl, List.flatten_cons, List.flatten_cons, ih]

/-- Behind the longest chunk the buffer keeps what it held: every chunk is copied to its start. -/
theorem performWrites_outside {chunks : List (List Char)} :
    ∀ {stream new : List Char}, performWrites chunks stream = .ok new →
      ∀ i, (∀ chunk ∈ chunks, chunk.length ≤ i) → new[i]? = stream[i]? := by
  induction chunks with
  | nil =>
    intro stream new written i _
    cases written
    rfl
  | cons chunk rest ih =>
    intro stream new written i outside
    rw [performWrites_cons] at written
    cases copied : memcpy stream chunk with
    | error fault =>
      rw [copied] at written
      cases written
    | ok next =>
      rw [copied] at written
      rw [ih written i fun later member => outside later (List.mem_cons_of_mem _ member)]
      exact memcpy_outside copied (outside chunk (List.mem_cons_self ..))

/-- Whatever the caller's buffer holds, it ends up with the whole body at its start, and the
length of the body is returned. -/
def WholeBody (chunks : List (List Char)) : Prop :=
  ∀ (url : CString) (buffer : List Char), chunks.flatten.length ≤ buffer.length →
    httpGet (some url) (delivers chunks) buffer =
      .ok (chunks.flatten.length, chunks.flatten ++ buffer.drop chunks.flatten.length)

theorem httpGet_delivers (url : CString) (chunks : List (List Char)) (buffer : List Char) :
    httpGet (some url) (delivers chunks) buffer =
      match performWrites chunks buffer with
      | .error fault => .error fault
      | .ok buffer =>
        match returnSize chunks.flatten.length with
        | .error fault => .error fault
        | .ok rc => .ok (rc, buffer) := rfl

/-- A character other than this one. -/
def otherThan (c : Char) : Char := if c = 'a' then 'b' else 'a'

theorem otherThan_ne (c : Char) : otherThan c ≠ c := by
  unfold otherThan
  split
  · rename_i same
    rw [same]
    decide
  · rename_i other
    exact fun same => other same.symm

/-- The chunks that are not empty. -/
def kept (chunks : List (List Char)) : List (List Char) := chunks.filter fun chunk => !chunk.isEmpty

theorem length_lt_flatten {pieces : List (List Char)} (nonempty : ∀ piece ∈ pieces, piece ≠ [])
    (two : 2 ≤ pieces.length) {piece : List Char} (member : piece ∈ pieces) :
    piece.length < pieces.flatten.length := by
  cases pieces with
  | nil => cases member
  | cons first rest =>
    rw [List.flatten_cons, List.length_append]
    rcases List.mem_cons.mp member with rfl | later
    · cases rest with
      | nil => simp at two
      | cons second rest =>
        have positive := List.length_pos_iff.mpr (nonempty second (by simp))
        rw [List.flatten_cons, List.length_append]
        omega
    · have positive := List.length_pos_iff.mpr (nonempty first (by simp))
      have within := (List.sublist_flatten_of_mem later).length_le
      omega

theorem wholeBody_of_one {chunks : List (List Char)} (one : (kept chunks).length ≤ 1)
    (fits : chunks.flatten.length < 2 ^ 31) : WholeBody chunks := by
  intro url buffer room
  have size : returnSize chunks.flatten.length = .ok (chunks.flatten.length : Int) := if_pos fits
  have written : performWrites chunks buffer =
      .ok (chunks.flatten ++ buffer.drop chunks.flatten.length) := by
    rw [performWrites_filter, ← flatten_filter chunks]
    rw [← flatten_filter chunks] at room
    change performWrites (kept chunks) buffer =
      .ok ((kept chunks).flatten ++ buffer.drop (kept chunks).flatten.length)
    change (kept chunks).flatten.length ≤ buffer.length at room
    match pieces : kept chunks with
    | [] => rfl
    | [chunk] =>
      rw [pieces, List.flatten_singleton] at room
      rw [List.flatten_singleton, performWrites_cons, memcpy_fits room]
      rfl
    | _ :: _ :: _ =>
      rw [pieces] at one
      simp at one
  rw [httpGet_delivers, written, size]

theorem WholeBody.size {chunks : List (List Char)} (whole : WholeBody chunks) :
    chunks.flatten.length < 2 ^ 31 := by
  have result := whole [] chunks.flatten (Nat.le_refl _)
  rw [httpGet_delivers] at result
  refine Nat.lt_of_not_le fun large => ?_
  have size : returnSize chunks.flatten.length = .error .conversion :=
    if_neg (Nat.not_lt.mpr large)
  rw [size] at result
  cases written : performWrites chunks chunks.flatten with
  | error fault =>
    rw [written] at result
    cases result
  | ok buffer =>
    rw [written] at result
    cases result

theorem WholeBody.one {chunks : List (List Char)} (whole : WholeBody chunks) :
    (kept chunks).length ≤ 1 := by
  refine Nat.le_of_not_lt fun two => ?_
  have nonempty : ∀ piece ∈ kept chunks, piece ≠ [] := by
    rintro piece member rfl
    simp [kept] at member
  have short : ∀ chunk ∈ chunks, chunk.length < chunks.flatten.length := by
    intro chunk member
    rw [← flatten_filter chunks]
    cases chunk with
    | nil =>
      obtain ⟨piece, inside⟩ := List.exists_mem_of_length_pos (Nat.lt_of_succ_lt two)
      exact Nat.zero_lt_of_lt (length_lt_flatten nonempty two inside)
    | cons c tail =>
      exact length_lt_flatten nonempty two (List.mem_filter.mpr ⟨member, rfl⟩)
  have some_ : chunks.flatten ≠ [] := by
    obtain ⟨piece, inside⟩ := List.exists_mem_of_length_pos (Nat.lt_of_succ_lt two)
    have longer := short piece (List.mem_filter.mp inside).1
    exact List.ne_nil_of_length_pos (Nat.zero_lt_of_lt longer)
  -- the last place of the body is behind every chunk, so it keeps what the buffer held
  let last := chunks.flatten.getLast some_
  let buffer := List.replicate chunks.flatten.length (otherThan last)
  have result := whole [] buffer (Nat.le_of_eq List.length_replicate.symm)
  rw [httpGet_delivers, show returnSize chunks.flatten.length = .ok _ from if_pos whole.size]
    at result
  cases written : performWrites chunks buffer with
  | error fault =>
    rw [written] at result
    cases result
  | ok new =>
    rw [written] at result
    have same := congrArg Prod.snd (Except.ok.inj result)
    have outside := performWrites_outside written (chunks.flatten.length - 1)
      fun chunk member => Nat.le_sub_one_of_lt (short chunk member)
    have inside : chunks.flatten.length - 1 < chunks.flatten.length :=
      Nat.sub_one_lt (Nat.ne_of_gt (List.length_pos_iff.mpr some_))
    rw [show new = chunks.flatten ++ buffer.drop chunks.flatten.length from same,
      List.getElem?_append_left inside, ← List.getLast?_eq_getElem?,
      List.getLast?_eq_some_getLast some_, List.getElem?_replicate_of_lt inside] at outside
    exact otherThan_ne last (Option.some.inj outside).symm

/-- `http_get` leaves the whole body in the buffer exactly when it comes in one piece, and its
length is an `int`. -/
theorem http_get_whole_body_iff (chunks : List (List Char)) :
    WholeBody chunks ↔ (kept chunks).length ≤ 1 ∧ chunks.flatten.length < 2 ^ 31 :=
  ⟨fun whole => ⟨whole.one, whole.size⟩, fun fits => wholeBody_of_one fits.1 fits.2⟩

/-- The body `ab` in two chunks and in one. -/
theorem two_chunks_overwrite :
    httpGet (some []) (delivers [['a'], ['b']]) ['?', '?', '?'] = .ok (2, ['b', '?', '?']) ∧
    httpGet (some []) (delivers [['a', 'b']]) ['?', '?', '?'] = .ok (2, ['a', 'b', '?']) ∧
    ¬ WholeBody [['a'], ['b']] := by
  have split : httpGet (some []) (delivers [['a'], ['b']]) ['?', '?', '?'] =
      .ok (2, ['b', '?', '?']) := by rfl
  refine ⟨split, by rfl, fun whole => ?_⟩
  have result := whole [] ['?', '?', '?'] (by decide)
  rw [split] at result
  have left := congrArg Prod.snd (Except.ok.inj result)
  revert left
  decide

end Ct.Ccutils.Net
