import Ct.Uart.ModtaxiCheck

set_option autoImplicit false

namespace Ct.Uart

open Ct.Lib

section Receive

variable {mem : Bytes} {base : Nat}

/-- The reads of a call that deliver a frame: fewer than 128 bytes without `0xee`, that byte, and
what follows up to the first `0xcc`. -/
def Framed (reads : Reads) (body : Bytes) (rest : Reads) : Prop :=
  ∃ noise : Bytes, noise.length < 128 ∧ 0xee ∉ noise ∧ 0xcc ∉ body ∧
    reads = (noise ++ stored body).map some ++ rest

/-- The reads of a call whose search comes to a read that fails. -/
def Silent (reads : Reads) : Prop :=
  ∃ (noise : Bytes) (tail : Reads), noise.length < 128 ∧ 0xee ∉ noise ∧
    reads = noise.map some ++ tail ∧ ∀ b, tail.head? ≠ some (some b)

theorem searchEe_byte {left : Nat} {c : UInt8} (other : c ≠ 0xee) (b : UInt8) (rest : Reads) :
    searchEe (left + 1) c (some b :: rest) = searchEe left b rest := by
  rw [searchEe, if_neg other]

theorem searchEe_stop (left : Nat) (rest : Reads) :
    searchEe left 0xee rest = (some 0xee, rest) := by
  cases left with
  | zero => rfl
  | succ left => exact if_pos rfl

/-- The search passes over noise that it still has reads for. -/
theorem searchEe_noise (noise : Bytes) (left : Nat) (rest : Reads) :
    ∀ {c : UInt8}, c ≠ 0xee → 0xee ∉ noise →
      ∃ last, last ≠ 0xee ∧
        searchEe (noise.length + left) c (noise.map some ++ rest) = searchEe left last rest := by
  induction noise with
  | nil =>
    intro c other _
    exact ⟨c, other, by rw [List.length_nil, Nat.zero_add]; rfl⟩
  | cons b noise ih =>
    intro c other quiet
    obtain ⟨different, quiet⟩ := List.ne_and_not_mem_of_not_mem_cons quiet
    obtain ⟨last, unlike, passed⟩ := ih (Ne.symm different) quiet
    refine ⟨last, unlike, ?_⟩
    rw [List.length_cons, Nat.succ_add_eq_add_succ, Nat.add_succ, List.map_cons, List.cons_append,
      searchEe_byte other]
    exact passed

theorem searchEe_found {noise : Bytes} (short : noise.length < 128) (quiet : 0xee ∉ noise)
    (rest : Reads) :
    searchEe 128 0 (noise.map some ++ some 0xee :: rest) = (some 0xee, rest) := by
  obtain ⟨left, enough⟩ : ∃ left, 128 = noise.length + (left + 1) :=
    ⟨127 - noise.length, by omega⟩
  obtain ⟨last, other, passed⟩ := searchEe_noise noise (left + 1) (some 0xee :: rest)
    (by decide : (0 : UInt8) ≠ 0xee) quiet
  rw [enough, passed, searchEe_byte other, searchEe_stop]

theorem store_fits {addr : Nat} (inside : addr < mem.length) (b : UInt8) :
    store mem addr b = .ok (overwrite mem addr [b]) := by
  rw [store, if_pos inside, set_eq_overwrite b inside]

theorem recvBytes_byte (i : Nat) (c b : UInt8) (mem : Bytes) (rest : Reads) :
    recvBytes base i c mem (some b :: rest) = (store mem (base + i) b).bind fun mem =>
      if b = 0xcc then .ok ((i : Int) + 1, mem, rest)
      else recvBytes base (i + 1) b mem rest := by
  rw [recvBytes]
  cases store mem (base + i) b with
  | error fault => rfl
  | ok mem => rfl

theorem recvBytes_fails (i : Nat) (c : UInt8) (mem : Bytes) {reads : Reads}
    (fails : ∀ b rest, reads ≠ some b :: rest) :
    recvBytes base i c mem reads =
      (store mem (base + i) c).bind fun mem => .ok ((i : Int) + 1, mem, reads.tail) := by
  rw [recvBytes]
  · cases store mem (base + i) c with
    | error fault => rfl
    | ok mem => rfl
  · exact fails

/-- The byte stored last: the one that ends the frame, or the last one again. -/
def closing (c : UInt8) (body : Bytes) (tail : Reads) : UInt8 :=
  if tail.head? = some (some 0xcc) then 0xcc else body.getLastD c

/-- The second loop where the bytes fit, with what it stores. -/
theorem recvBytes_fits (body : Bytes) (tail : Reads)
    (ends : ∀ b, tail.head? = some (some b) → b = 0xcc) :
    ∀ {mem : Bytes} {i : Nat} {c : UInt8}, 0xcc ∉ body → base + i + body.length < mem.length →
      recvBytes base i c mem (body.map some ++ tail) =
        .ok ((i + body.length + 1 : Nat),
          overwrite mem (base + i) (body ++ [closing c body tail]), tail.tail) := by
  induction body with
  | nil =>
    intro mem i c _ room
    rw [List.map_nil, List.nil_append, List.nil_append]
    have inside : base + i < mem.length := room
    rcases tail with _ | ⟨first, rest⟩
    · rw [recvBytes_fails i c mem (fun b rest same => List.cons_ne_nil _ _ same.symm),
        store_fits inside]
      rfl
    · cases first with
      | none =>
        rw [recvBytes_fails i c mem (fun b rest same => by cases same), store_fits inside]
        rfl
      | some b =>
        cases ends b rfl
        rw [recvBytes_byte, store_fits inside]
        rfl
  | cons b more ih =>
    intro mem i c plain room
    obtain ⟨other, plain⟩ := List.ne_and_not_mem_of_not_mem_cons plain
    rw [List.length_cons] at room
    have inside : base + i < mem.length := by omega
    have same : (overwrite mem (base + i) [b]).length = mem.length := by
      apply overwrite_length
      rw [List.length_singleton]
      omega
    have later : recvBytes base (i + 1) b (overwrite mem (base + i) [b])
        (more.map some ++ tail) = _ := ih plain (by rw [same]; omega)
    have joined : overwrite (overwrite mem (base + i) [b]) (base + (i + 1))
        (more ++ [closing b more tail]) =
        overwrite mem (base + i) (b :: more ++ [closing b more tail]) := by
      apply overwrite_overwrite
      rw [List.length_singleton]
      omega
    have last : closing c (b :: more) tail = closing b more tail := by
      rw [closing, closing, List.getLastD_cons]
    change recvBytes base i c mem (some b :: (more.map some ++ tail)) = _
    rw [recvBytes_byte, store_fits inside]
    show (if b = 0xcc then _ else recvBytes base (i + 1) b _ (more.map some ++ tail)) = _
    rw [if_neg (Ne.symm other), later, joined, last, List.length_cons]
    congr 3
    omega

/-- A frame that ends with its `0xcc`. -/
theorem recvBytes_body (body : Bytes) (rest : Reads) {mem : Bytes} {i : Nat} {c : UInt8}
    (plain : 0xcc ∉ body) (room : base + i + body.length + 1 ≤ mem.length) :
    recvBytes base i c mem ((body ++ [0xcc]).map some ++ rest) =
      .ok ((i + body.length + 1 : Nat), overwrite mem (base + i) (body ++ [0xcc]), rest) := by
  have split : (body ++ [0xcc]).map some ++ rest = body.map some ++ some 0xcc :: rest := by
    rw [List.map_append, List.append_assoc]
    rfl
  have last : closing c body (some 0xcc :: rest) = 0xcc := if_pos rfl
  rw [split, recvBytes_fits body (some 0xcc :: rest) (fun b first => ?_) plain room, last,
    List.tail_cons]
  exact (Option.some.inj (Option.some.inj first)).symm

/-- A frame that fits is stored as it has been received. -/
theorem recvEecc_framed {body : Bytes} {reads rest : Reads} (framed : Framed reads body rest)
    (room : base + body.length + 2 ≤ mem.length) :
    recvEecc base mem reads =
      .ok ((body.length + 2 : Nat), overwrite mem base (stored body), rest) := by
  obtain ⟨noise, short, quiet, plain, rfl⟩ := framed
  have inside : base < mem.length := by omega
  have same : (overwrite mem base [0xee]).length = mem.length := by
    apply overwrite_length
    rw [List.length_singleton]
    omega
  have split : (noise ++ stored body).map some ++ rest =
      noise.map some ++ some 0xee :: ((body ++ [0xcc]).map some ++ rest) := by
    rw [List.map_append, List.append_assoc]
    rfl
  have joined : overwrite (overwrite mem base [0xee]) (base + 1) (body ++ [0xcc]) =
      overwrite mem base (stored body) := by
    apply overwrite_overwrite
    rw [List.length_singleton]
    omega
  rw [recvEecc, split, searchEe_found short quiet]
  dsimp only
  rw [store_fits inside]
  dsimp only
  rw [recvBytes_body body rest plain (by rw [same]; omega), joined]
  congr 3
  omega

/-- The memory in front of an address is as it was. -/
def SameBefore (base : Nat) (mem mem' : Bytes) : Prop :=
  mem'.length = mem.length ∧ mem'.take base = mem.take base

theorem store_before {mem' : Bytes} {i : Nat} {b : UInt8}
    (done : store mem (base + i) b = .ok mem') : SameBefore base mem mem' := by
  unfold store at done
  split at done
  · cases done
    exact ⟨List.length_set .., List.take_set_of_le (Nat.le_add_right base i)⟩
  · cases done

theorem SameBefore.trans {mem₁ mem₂ mem₃ : Bytes} (first : SameBefore base mem₁ mem₂)
    (second : SameBefore base mem₂ mem₃) : SameBefore base mem₁ mem₃ :=
  ⟨second.1.trans first.1, second.2.trans first.2⟩

theorem SameBefore.mono {low : Nat} {mem' : Bytes} (same : SameBefore base mem mem')
    (below : low ≤ base) : SameBefore low mem mem' := by
  refine ⟨same.1, ?_⟩
  have cut := congrArg (List.take low) same.2
  rw [List.take_take, List.take_take, Nat.min_eq_left below] at cut
  exact cut

/-- A step that stores a byte and then keeps the memory before. -/
theorem store_bind_before {i : Nat} {b : UInt8} {mem' : Bytes} {ret : Int} {rest : Reads}
    {next : Bytes → Except Fault (Int × Bytes × Reads)}
    (run : (store mem (base + i) b).bind next = .ok (ret, mem', rest))
    (keeps : ∀ mem, next mem = .ok (ret, mem', rest) → SameBefore base mem mem') :
    SameBefore base mem mem' := by
  cases done : store mem (base + i) b with
  | error fault =>
    rw [done] at run
    cases run
  | ok after =>
    rw [done] at run
    exact (store_before done).trans (keeps after run)

theorem recvBytes_fails_before {reads rest : Reads} (fails : ∀ b rest, reads ≠ some b :: rest)
    {i : Nat} {c : UInt8} {mem' : Bytes} {ret : Int}
    (run : recvBytes base i c mem reads = .ok (ret, mem', rest)) : SameBefore base mem mem' := by
  rw [recvBytes_fails i c mem fails] at run
  refine store_bind_before run fun after same => ?_
  cases same
  exact ⟨rfl, rfl⟩

theorem recvBytes_before (reads : Reads) :
    ∀ {mem mem' : Bytes} {i : Nat} {c : UInt8} {ret : Int} {rest : Reads},
      recvBytes base i c mem reads = .ok (ret, mem', rest) → SameBefore base mem mem' := by
  induction reads with
  | nil =>
    intro mem mem' i c ret rest run
    exact recvBytes_fails_before (fun b rest same => List.cons_ne_nil _ _ same.symm) run
  | cons first reads ih =>
    cases first with
    | none =>
      intro mem mem' i c ret rest run
      refine recvBytes_fails_before (fun b rest same => ?_) run
      cases same
    | some b =>
      intro mem mem' i c ret rest run
      rw [recvBytes_byte] at run
      refine store_bind_before run fun after same => ?_
      by_cases ended : b = 0xcc
      · rw [if_pos ended] at same
        cases same
        exact ⟨rfl, rfl⟩
      · rw [if_neg ended] at same
        exact ih same

/-- `recv_eecc` never stores in front of its buffer. -/
theorem recvEecc_before {reads rest : Reads} {ret : Int} {mem' : Bytes}
    (run : recvEecc base mem reads = .ok (ret, mem', rest)) : SameBefore base mem mem' := by
  unfold recvEecc at run
  rcases searched : searchEe 128 0 reads with ⟨found, left⟩
  rw [searched] at run
  cases found with
  | none =>
    cases run
    exact ⟨rfl, rfl⟩
  | some c =>
    dsimp only at run
    cases done : store mem base 0xee with
    | error fault =>
      rw [done] at run
      cases run
    | ok next =>
      rw [done] at run
      have start : store mem (base + 0) 0xee = .ok next := done
      exact (store_before start).trans (recvBytes_before left run)

theorem readFrames_before (left : Nat) :
    ∀ {i : Nat} {ret ret' : Int} {mem mem' : Bytes} {reads rest : Reads},
      readFrames left i ret mem reads = .ok (ret', mem', rest) →
      SameBefore (descSize * i) mem mem' := by
  induction left with
  | zero =>
    intro i ret ret' mem mem' reads rest run
    cases run
    exact ⟨rfl, rfl⟩
  | succ left ih =>
    intro i ret ret' mem mem' reads rest run
    rw [readFrames] at run
    by_cases failed : ret < 0
    · rw [if_pos failed] at run
      cases run
      exact ⟨rfl, rfl⟩
    · rw [if_neg failed] at run
      rcases got : recvEecc (descSize * i) mem reads with fault | ⟨ret, next, more⟩
      · rw [got] at run
        cases run
      · rw [got] at run
        exact (recvEecc_before got).trans
          ((ih run).mono (Nat.mul_le_mul_left _ (Nat.le_succ i)))

theorem stored_length (body : Bytes) : (stored body).length = body.length + 2 := by
  rw [stored, List.length_cons, List.length_append, List.length_singleton]

/-- What has been stored in a descriptor is there when the next ones have been received. -/
theorem descBytes_before {mem' : Bytes} {i : Nat} (same : SameBefore (descSize * (i + 1)) mem mem') :
    descBytes mem' i = descBytes mem i := by
  have cut := same.mono (Nat.add_le_add_left (by decide : validOffset ≤ descSize) (descSize * i))
  rw [descBytes, descBytes, List.take_drop, List.take_drop, cut.2]

theorem stored_room {body : Bytes} {i : Nat} (fits : body.length + 2 ≤ validOffset)
    (room : descSize * i + descSize ≤ mem.length) :
    (overwrite mem (descSize * i) (stored body)).length = mem.length := by
  apply overwrite_length
  have small : validOffset ≤ descSize := by decide
  rw [stored_length]
  omega

theorem stored_descBytes {body : Bytes} {i : Nat} (fits : body.length + 2 ≤ validOffset)
    (room : descSize * i + descSize ≤ mem.length) :
    stored body <+: descBytes (overwrite mem (descSize * i) (stored body)) i := by
  have inside : descSize * i ≤ mem.length := Nat.le_trans (Nat.le_add_right _ _) room
  have whole : (stored body).length ≤ validOffset := by
    rw [stored_length]
    exact fits
  rw [descBytes, overwrite_drop_self inside, List.take_append, List.take_of_length_le whole]
  exact List.prefix_append _ _

/-- A turn of the loop that receives a frame. -/
theorem readFrames_framed {body : Bytes} {reads rest : Reads} (framed : Framed reads body rest)
    (fits : body.length + 2 ≤ validOffset) {i : Nat}
    (room : descSize * i + descSize ≤ mem.length) {ret : Int} (natural : ¬ ret < 0) (left : Nat) :
    readFrames (left + 1) i ret mem reads = readFrames left (i + 1) (body.length + 2 : Nat)
      (overwrite mem (descSize * i) (stored body)) rest := by
  have inside : descSize * i + body.length + 2 ≤ mem.length := by
    have small : validOffset ≤ descSize := by decide
    omega
  rw [readFrames, if_neg natural, recvEecc_framed framed inside]

end Receive

end Ct.Uart
