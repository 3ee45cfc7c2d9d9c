import Ct.Uart.ModtaxiFrames

set_option autoImplicit false

namespace Ct.Uart

open Ct.Lib

/-- A frame on the line that fits a descriptor, with the noise in front of it. -/
structure Sent where
  noise : Bytes
  payload : Bytes
  short : noise.length < 128
  quiet : 0xee ∉ noise
  some : payload ≠ []
  plain : 0xcc ∉ payload
  fits : payload.length + 3 ≤ validOffset

/-- The reads that deliver these frames without a timeout, and then `rest`. -/
def wire : List Sent → Reads → Reads
  | [], rest => rest
  | sent :: more, rest => (sent.noise ++ frame sent.payload).map Option.some ++ wire more rest

theorem frame_eq_stored (payload : Bytes) : frame payload = stored (payload ++ [checksum payload]) := by
  rw [frame, stored, List.append_assoc]
  rfl

theorem wire_framed {sent : Sent} (other : checksum sent.payload ≠ 0xcc) (more : List Sent)
    (rest : Reads) :
    Framed (wire (sent :: more) rest) (sent.payload ++ [checksum sent.payload])
      (wire more rest) := by
  refine ⟨sent.noise, sent.short, sent.quiet, fun member => ?_, ?_⟩
  · rcases List.mem_append.mp member with inside | last
    · exact sent.plain inside
    · exact other (List.mem_singleton.mp last).symm
  · rw [wire, frame_eq_stored]

/-- A checksum of that value ends the frame, and the real end is left for the next call. -/
theorem wire_cut {sent : Sent} (same : checksum sent.payload = 0xcc) (more : List Sent)
    (rest : Reads) :
    Framed (wire (sent :: more) rest) sent.payload (Option.some 0xcc :: wire more rest) := by
  refine ⟨sent.noise, sent.short, sent.quiet, sent.plain, ?_⟩
  have split : sent.noise ++ frame sent.payload = sent.noise ++ stored sent.payload ++ [0xcc] := by
    rw [frame, stored, same, List.append_assoc]
    simp only [List.cons_append, List.append_assoc, List.nil_append]
  rw [wire, split, List.map_append, List.append_assoc]
  rfl

/-- Frames whose checksum is not `0xcc` are all stored. -/
theorem readFrames_sent (sents : List Sent) (rest : Reads) :
    ∀ {i : Nat} {ret : Int} {mem : Bytes}, ¬ ret < 0 →
      descSize * (i + sents.length) ≤ mem.length →
      (∀ sent ∈ sents, checksum sent.payload ≠ 0xcc) →
      ∃ ret' mem', readFrames sents.length i ret mem (wire sents rest) = .ok (ret', mem', rest) ∧
        mem'.length = mem.length ∧
        ∀ k sent, sents[k]? = some sent → frame sent.payload <+: descBytes mem' (i + k) := by
  induction sents with
  | nil =>
    intro i ret mem _ _ _
    refine ⟨ret, mem, rfl, rfl, fun k sent here => ?_⟩
    rw [List.getElem?_nil] at here
    cases here
  | cons sent more ih =>
    intro i ret mem natural room other
    obtain ⟨here, later⟩ := desc_room room
    have fits : (sent.payload ++ [checksum sent.payload]).length + 2 ≤ validOffset := by
      rw [List.length_append, List.length_singleton]
      exact sent.fits
    have kept : (overwrite mem (descSize * i)
        (stored (sent.payload ++ [checksum sent.payload]))).length = mem.length :=
      stored_room fits here
    have framed := wire_framed (other sent (List.mem_cons_self ..)) more rest
    have positive : ¬ (((sent.payload ++ [checksum sent.payload]).length + 2 : Nat) : Int) < 0 := by
      omega
    rw [← kept] at later
    obtain ⟨ret', mem', ran, length, frames⟩ := ih positive later fun next member =>
      other next (List.mem_cons_of_mem _ member)
    refine ⟨ret', mem', ?_, length.trans kept, fun k next at_k => ?_⟩
    · rw [List.length_cons, readFrames_framed framed fits here natural]
      exact ran
    · cases k with
      | zero =>
        cases at_k
        rw [Nat.add_zero, descBytes_before (readFrames_before _ ran), frame_eq_stored]
        exact stored_descBytes fits here
      | succ k =>
        have behind := frames k next at_k
        rw [Nat.add_right_comm] at behind
        exact behind

/-- The first frame whose checksum is `0xcc` leaves a descriptor that does not pass. -/
theorem readFrames_cut (sents : List Sent) (rest : Reads) :
    ∀ {i : Nat} {ret ret' : Int} {mem mem' : Bytes} {rest' : Reads}, ¬ ret < 0 →
      descSize * (i + sents.length) ≤ mem.length →
      (∃ sent ∈ sents, checksum sent.payload = 0xcc) →
      readFrames sents.length i ret mem (wire sents rest) = .ok (ret', mem', rest') →
      mem'.length = mem.length ∧ ∃ j, i ≤ j ∧ j < i + sents.length ∧
        rechecks (mem'.drop (descSize * j)) = .ok false := by
  induction sents with
  | nil =>
    intro i ret ret' mem mem' rest' _ _ cut
    obtain ⟨sent, member, _⟩ := cut
    cases member
  | cons sent more ih =>
    intro i ret ret' mem mem' rest' natural room cut run
    obtain ⟨here, later⟩ := desc_room room
    have length := (readFrames_before _ run).1
    rw [List.length_cons] at run
    by_cases same : checksum sent.payload = 0xcc
    · have fits : sent.payload.length + 2 ≤ validOffset := Nat.le_of_succ_le sent.fits
      rw [readFrames_framed (wire_cut same more rest) fits here natural] at run
      have starts := stored_descBytes fits here
      rw [← descBytes_before (readFrames_before _ run)] at starts
      refine ⟨length, i, Nat.le_refl i, Nat.lt_add_of_pos_right (Nat.succ_pos _), ?_⟩
      rw [rechecks_stored sent.plain ?_ starts]
      · congr 1
        change (_ && checksum sent.payload == 0) = false
        rw [same]
        exact Bool.and_false _
      · rw [List.length_drop, length]
        have small : validOffset ≤ descSize := by decide
        omega
    · have fits : (sent.payload ++ [checksum sent.payload]).length + 2 ≤ validOffset := by
        rw [List.length_append, List.length_singleton]
        exact sent.fits
      have kept : (overwrite mem (descSize * i)
          (stored (sent.payload ++ [checksum sent.payload]))).length = mem.length :=
        stored_room fits here
      rw [readFrames_framed (wire_framed same more rest) fits here natural] at run
      obtain ⟨other, member, bad⟩ := cut
      have behind : other ∈ more := by
        rcases List.mem_cons.mp member with rfl | behind
        · exact absurd bad same
        · exact behind
      obtain ⟨_, j, low, high, fails⟩ := ih (by omega) (by rw [kept]; exact later)
        ⟨other, behind, bad⟩ run
      refine ⟨length, j, Nat.le_of_succ_le low, ?_, fails⟩
      rw [List.length_cons]
      omega

/-- `uart_read_buf` and `calcsum` deliver these frames. -/
def Receives (mem : Bytes) (session : Session) (sents : List Sent) : Prop :=
  ∃ ret mem₁ rest mem₂, uartReadBuf mem session = .ok (ret, mem₁, rest) ∧
    calcsum mem₁ = .ok (3, mem₂) ∧
    ∀ k sent, sents[k]? = some sent →
      valid mem₂ k = true ∧ frame sent.payload <+: descBytes mem₂ k

section Three

variable {mem : Bytes} {sents : List Sent}

theorem receives_of_checksums (size : mem.length = descSize * 3) (three : sents.length = 3)
    (rest : Reads) (other : ∀ sent ∈ sents, checksum sent.payload ≠ 0xcc) :
    Receives mem ⟨true, true, wire sents rest⟩ sents := by
  have natural : ¬ (0 : Int) < 0 := by decide
  have start : descSize * (0 + sents.length) ≤ mem.length := Nat.le_of_eq (by rw [three, size])
  obtain ⟨ret, mem₁, ran, length, frames⟩ := readFrames_sent sents rest natural start other
  rw [three] at ran
  have passing : ∀ j, 0 ≤ j → j < 0 + 3 → rechecks (mem₁.drop (descSize * j)) = .ok true := by
    intro j _ below
    obtain ⟨sent, here⟩ : ∃ sent, sents[j]? = some sent :=
      ⟨sents[j], List.getElem?_eq_getElem (by omega)⟩
    have member : sent ∈ sents := List.mem_of_getElem? here
    have starts := frames j sent here
    rw [Nat.zero_add, frame_eq_stored] at starts
    have room : validOffset ≤ (mem₁.drop (descSize * j)).length := by
      have apart := desc_apart (by omega : j < 3)
      have small : validOffset ≤ descSize := by decide
      rw [List.length_drop, length, size]
      omega
    have plain : 0xcc ∉ sent.payload ++ [checksum sent.payload] := by
      rw [List.mem_append, List.mem_singleton, not_or]
      exact ⟨sent.plain, Ne.symm (other sent member)⟩
    rw [rechecks_stored plain room starts, passes_checksum]
  have whole : descSize * (0 + 3) ≤ mem₁.length := Nat.le_of_eq (by rw [length, size])
  obtain ⟨mem₂, counted⟩ : ∃ mem₂, calcsumFrom 3 0 0 mem₁ = .ok (0 + 3, mem₂) :=
    calcsumFrom_passes 3 whole passing
  obtain ⟨_, flags, _, bytes⟩ := calcsumFrom_spec 3 whole counted
  refine ⟨ret, mem₁, rest, mem₂, ran, counted, fun k sent here => ?_⟩
  have below : k < 3 := by
    rw [← three]
    exact (List.getElem?_eq_some_iff.mp here).1
  have flag := flags k (Nat.zero_le k) (by omega)
  rw [passing k (Nat.zero_le k) (by omega)] at flag
  refine ⟨(Except.ok.inj flag).symm, ?_⟩
  have starts := frames k sent here
  rw [Nat.zero_add] at starts
  rw [bytes k]
  exact starts

theorem checksums_of_receives (size : mem.length = descSize * 3) (three : sents.length = 3)
    {rest : Reads} (receives : Receives mem ⟨true, true, wire sents rest⟩ sents) :
    ∀ sent ∈ sents, checksum sent.payload ≠ 0xcc := by
  intro sent member same
  obtain ⟨ret, mem₁, rest₁, mem₂, ran, counted, frames⟩ := receives
  have run : readFrames sents.length 0 0 mem (wire sents rest) = .ok (ret, mem₁, rest₁) := by
    rw [three]
    exact ran
  obtain ⟨length, j, _, below, fails⟩ := readFrames_cut sents rest (by decide)
    (Nat.le_of_eq (by rw [three, size])) ⟨sent, member, same⟩ run
  have whole : descSize * (0 + 3) ≤ mem₁.length := Nat.le_of_eq (by rw [length, size])
  have flag := (calcsumFrom_spec 3 whole counted).2.1 j (Nat.zero_le j) (by omega)
  rw [fails] at flag
  have here : sents[j]? = some sents[j] := List.getElem?_eq_getElem (by omega)
  have valid := (frames j _ here).1
  rw [← Except.ok.inj flag] at valid
  cases valid

/-- Three frames are received exactly when none of their checksums has the value that ends a
frame. -/
theorem three_frames_received_iff (mem : Bytes) (size : mem.length = descSize * 3)
    (sents : List Sent) (three : sents.length = 3) (rest : Reads) :
    Receives mem ⟨true, true, wire sents rest⟩ sents ↔
      ∀ sent ∈ sents, checksum sent.payload ≠ 0xcc :=
  ⟨checksums_of_receives size three, receives_of_checksums size three rest⟩

/-- The shortest frame with this byte as its payload. -/
def sentByte (b : UInt8) (plain : 0xcc ∉ [b]) : Sent where
  noise := []
  payload := [b]
  short := by decide
  quiet := by decide
  some := List.cons_ne_nil b []
  plain := plain
  fits := (by decide : 1 + 3 ≤ validOffset)

def plainFrame : Sent := sentByte 0x01 (by decide)

/-- The xor of `0xee` and `0x22` is `0xcc`. -/
def cutFrame : Sent := sentByte 0x22 (by decide)

theorem three_plain_frames_received :
    Receives (List.replicate 108 0) ⟨true, true, wire [plainFrame, plainFrame, plainFrame] []⟩
      [plainFrame, plainFrame, plainFrame] :=
  (three_frames_received_iff (List.replicate 108 0) List.length_replicate
    [plainFrame, plainFrame, plainFrame] rfl []).mpr fun sent member => by
      have same : sent = plainFrame := by simpa using member
      rw [same]
      decide

/-- A frame with that checksum is not received. -/
theorem checksum_cc_not_received :
    ¬ Receives (List.replicate 108 0) ⟨true, true, wire [cutFrame, plainFrame, plainFrame] []⟩
      [cutFrame, plainFrame, plainFrame] := fun receives =>
  checksums_of_receives List.length_replicate rfl receives cutFrame (List.mem_cons_self ..)
    (by decide)

end Three

end Ct.Uart
