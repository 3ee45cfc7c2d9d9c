import Ct.S5pv210.Nf
import Mathlib.Algebra.GroupWithZero.Nat

set_option autoImplicit false

namespace Ct.S5pv210.Nf

open Ct.Lib

section Address

theorem lowByte_toNat (x : BitVec 32) : (lowByte x).toNat = x.toNat % 256 := by
  have mask : x.toNat &&& 255 = x.toNat % 2 ^ 8 := Nat.and_two_pow_sub_one_eq_mod x.toNat 8
  have byte : (x &&& 0xff).toNat = x.toNat % 256 := by
    simpa using mask
  rw [lowByte, BitVec.toNat_setWidth, byte]
  omega

/-- Three cycles send 24 bits. -/
theorem addressOf_lowBytes (x : BitVec 32) (small : x.toNat < 2 ^ 24) :
    addressOf [lowByte x, lowByte (x >>> 8), lowByte (x >>> 16)] = x.toNat := by
  simp only [addressOf, List.foldr_cons, List.foldr_nil, lowByte_toNat, BitVec.toNat_ushiftRight,
    Nat.shiftRight_eq_div_pow]
  omega

theorem sshiftRight_small {x : BitVec 32} (natural : x.toNat < 2 ^ 31) (n : Nat) :
    x.sshiftRight n = x >>> n := by
  apply BitVec.sshiftRight_eq_of_msb_false
  rw [BitVec.msb_eq_false_iff_two_mul_lt]
  omega

end Address

section Ready

variable {nand : Nand}

/-- The device takes commands. -/
structure Ready (nand : Nand) : Prop where
  selected : nand.selected = true
  idle : nand.busy = 0

theorem Ready.receive (ready : Ready nand) {c : BitVec 8} (other : c ≠ nfcmdReset) :
    nfCmd c nand = nand.start c := by
  simp [nfCmd, Nand.receive, ready.selected, ready.idle, other]

theorem Ready.setaddr (ready : Ready nand) (c : BitVec 8) :
    nfSetaddr c nand = { nand with address := nand.address ++ [c] } := by
  simp [nfSetaddr, ready.selected, ready.idle]

theorem Ready.writeData (ready : Ready nand) (c : BitVec 8) :
    writeData c nand = { nand with loaded := nand.loaded ++ [c] } := by
  simp [Nf.writeData, ready.selected, ready.idle]

theorem Ready.latch (ready : Ready nand) (c : BitVec 8) : Ready (nand.latch c) :=
  ⟨ready.selected, ready.idle⟩

theorem Ready.addressed (ready : Ready nand) (cycles : List (BitVec 8)) :
    Ready { nand with address := cycles } :=
  ⟨ready.selected, ready.idle⟩

/-- The first command of a pair only waits for what follows it. -/
theorem Ready.first (ready : Ready nand) {c : BitVec 8}
    (first : c = nfcmdRead1 ∨ c = nfcmdErase1 ∨ c = nfcmdPagePro1 ∨ c = nfcmdReadstatus) :
    nfCmd c nand = nand.latch c := by
  rcases first with rfl | rfl | rfl | rfl
  · exact ready.receive (by decide)
  · exact ready.receive (by decide)
  · exact ready.receive (by decide)
  · exact ready.receive (by decide)

theorem Ready.setaddr_three (ready : Ready nand) (a b c : BitVec 8) :
    nfSetaddr c (nfSetaddr b (nfSetaddr a nand)) =
      { nand with address := nand.address ++ [a, b, c] } := by
  rw [ready.setaddr, (ready.addressed _).setaddr, (ready.addressed _).setaddr]
  simp

theorem Ready.setaddr_five (ready : Ready nand) (a b c d e : BitVec 8) :
    nfSetaddr e (nfSetaddr d (nfSetaddr c (nfSetaddr b (nfSetaddr a nand)))) =
      { nand with address := nand.address ++ [a, b, c, d, e] } := by
  rw [ready.setaddr, (ready.addressed _).setaddr, (ready.addressed _).setaddr_three]
  simp

theorem Ready.read2 (ready : Ready nand) (command : nand.command = nfcmdRead1)
    (sent : nand.address.length = 5) :
    nfCmd nfcmdRead2 nand =
      { nand.latch nfcmdRead2 with
        busy := nand.delay nfcmdRead2
        out := (nand.contents (addressOf (nand.address.drop 2))).val.drop
          (addressOf (nand.address.take 2)) } := by
  rw [ready.receive (by decide), Nand.start]
  simp only [command, sent, and_self, ↓reduceIte]

theorem Ready.erase2 (ready : Ready nand) (command : nand.command = nfcmdErase1)
    (sent : nand.address.length = 3) :
    nfCmd nfcmdErase2 nand =
      { nand.latch nfcmdErase2 with
        busy := nand.delay nfcmdErase2
        contents := nand.contents.eraseBlock (addressOf nand.address) } := by
  have other : nfcmdErase2 ≠ nfcmdRead2 := by decide
  rw [ready.receive (by decide), Nand.start]
  simp only [other, false_and, command, sent, and_self, ↓reduceIte]

theorem Ready.pagePro2 (ready : Ready nand) (command : nand.command = nfcmdPagePro1)
    (sent : nand.address.length = 5) :
    nfCmd nfcmdPagePro2 nand =
      { nand.latch nfcmdPagePro2 with
        busy := nand.delay nfcmdPagePro2
        contents := nand.contents.programPage (addressOf (nand.address.drop 2))
          (addressOf (nand.address.take 2)) nand.loaded } := by
  have other : nfcmdPagePro2 ≠ nfcmdRead2 := by decide
  have another : nfcmdPagePro2 ≠ nfcmdErase2 := by decide
  rw [ready.receive (by decide), Nand.start]
  simp only [other, another, false_and, command, sent, and_self, ↓reduceIte]

/-- All cycles of an erase. -/
theorem Ready.erase (ready : Ready nand) (a b c : BitVec 8) :
    nfCmd nfcmdErase2 (nfSetaddr c (nfSetaddr b (nfSetaddr a (nfCmd nfcmdErase1 nand)))) =
      { nand.latch nfcmdErase2 with
        busy := nand.delay nfcmdErase2
        contents := nand.contents.eraseBlock (addressOf [a, b, c]) } := by
  rw [ready.first (by decide), (ready.latch _).setaddr_three]
  exact ((ready.latch _).addressed _).erase2 rfl rfl

/-- All cycles of a read from the first column on. -/
theorem Ready.read (ready : Ready nand) (a b c : BitVec 8) :
    nfCmd nfcmdRead2 (nfSetaddr c (nfSetaddr b (nfSetaddr a (nfSetaddr 0 (nfSetaddr 0
        (nfCmd nfcmdRead1 nand)))))) =
      { nand.latch nfcmdRead2 with
        busy := nand.delay nfcmdRead2
        out := (nand.contents (addressOf [a, b, c])).val } := by
  rw [ready.first (by decide), (ready.latch _).setaddr_five]
  exact ((ready.latch _).addressed _).read2 rfl rfl

theorem writeData_all (bytes : List (BitVec 8)) :
    ∀ {nand : Nand}, Ready nand →
      bytes.foldl (fun nand c => writeData c nand) nand =
        { nand with loaded := nand.loaded ++ bytes } := by
  induction bytes with
  | nil =>
    intro nand _
    simp
  | cons c rest ih =>
    intro nand ready
    have stored : Ready { nand with loaded := nand.loaded ++ [c] } :=
      ⟨ready.selected, ready.idle⟩
    rw [List.foldl_cons, ready.writeData, ih stored]
    simp

/-- All cycles of a program from the first column on. -/
theorem Ready.pagePro (ready : Ready nand) (a b c : BitVec 8) (bytes : List (BitVec 8)) :
    nfCmd nfcmdPagePro2 (bytes.foldl (fun nand c => Nf.writeData c nand)
        (nfSetaddr c (nfSetaddr b (nfSetaddr a (nfSetaddr 0 (nfSetaddr 0
          (nfCmd nfcmdPagePro1 nand))))))) =
      { nand.latch nfcmdPagePro2 with
        busy := nand.delay nfcmdPagePro2
        contents := nand.contents.programPage (addressOf [a, b, c]) 0 bytes } := by
  rw [ready.first (by decide), (ready.latch _).setaddr_five,
    writeData_all bytes ((ready.latch _).addressed _)]
  exact Ready.pagePro2 ⟨ready.selected, ready.idle⟩ rfl rfl

theorem nfNcs0_selected (nand : Nand) : (nfNcs0 0 nand).selected = true := by
  have low := regionWrite_bit (show 1 < 32 by decide) nand.nfcont 0 1
  rw [Nand.selected, nfNcs0, low]
  rfl

theorem nfNcs0_ready (idle : nand.busy = 0) : Ready (nfNcs0 0 nand) :=
  ⟨nfNcs0_selected nand, idle⟩

theorem readStat_ready : ((1 : BitVec 32) <<< 0) &&& nand.readStat.1 = 0 ↔ nand.busy ≠ 0 := by
  unfold Nand.readStat
  by_cases idle : nand.busy = 0
  · cases nand.rbDetect <;> simp [idle]
  · cases nand.rbDetect <;> simp [idle]

/-- The loop waits as long as the device is busy, and changes nothing but the ready flags. -/
theorem nfWaitRb_ends (fuel : Nat) :
    ∀ nand : Nand, nand.busy < fuel →
      ∃ detect, nfWaitRb fuel nand = .ok { nand with busy := 0, rbDetect := detect } := by
  induction fuel with
  | zero =>
    intro nand enough
    omega
  | succ fuel ih =>
    intro nand enough
    by_cases idle : nand.busy = 0
    · have ready : ¬ ((1 : BitVec 32) <<< 0) &&& nand.readStat.1 = 0 := fun waits =>
        readStat_ready.mp waits idle
      refine ⟨nand.readStat.2.rbDetect, ?_⟩
      simp only [nfWaitRb, ready, ↓reduceIte]
      simp [Nand.readStat, idle]
    · have waits : nand.readStat.2.busy < fuel := by
        show nand.busy - 1 < fuel
        omega
      obtain ⟨detect, waited⟩ := ih _ waits
      refine ⟨detect, ?_⟩
      simp only [nfWaitRb, readStat_ready.mpr idle, ↓reduceIte]
      rw [waited]
      rfl

/-- The device has become ready again, with what the command has made of it. -/
structure Waited (state after : Nand) : Prop where
  contents : after.contents = state.contents
  delay : after.delay = state.delay
  nfcont : after.nfcont = state.nfcont
  command : after.command = state.command
  out : after.out = state.out
  idle : after.busy = 0

theorem Waited.ready {state after : Nand} (waited : Waited state after)
    (selected : state.selected = true) : Ready after := by
  refine ⟨?_, waited.idle⟩
  rw [Nand.selected, waited.nfcont]
  exact selected

theorem nfWaitRb_started {fuel : Nat} {state : Nand} (started : nand = state)
    (short : state.busy < fuel) :
    ∃ after, nfWaitRb fuel nand = .ok after ∧ Waited state after := by
  obtain ⟨detect, ended⟩ := nfWaitRb_ends fuel state short
  rw [started]
  exact ⟨_, ended, rfl, rfl, rfl, rfl, rfl, rfl⟩

theorem nfWaitIo_passed (ready : Ready nand) (command : nand.command = nfcmdReadstatus)
    {fuel : Nat} (turn : 0 < fuel) : nfWaitIo fuel nand = .ok nand := by
  have status : nfData nand = (passed, nand) := by
    simp [nfData, Nand.deliver, ready.selected, ready.idle, command]
  cases fuel with
  | zero => omega
  | succ fuel =>
    simp only [nfWaitIo, status]
    rfl

theorem readBuf_delivers (bytes : List (BitVec 8)) :
    ∀ {nand : Nand}, Ready nand → nand.command ≠ nfcmdReadstatus → nand.out = bytes →
      readBuf bytes.length nand = (bytes, { nand with out := [] }) := by
  induction bytes with
  | nil =>
    intro nand _ _ out
    have same : { nand with out := [] } = nand := by rw [← out]
    rw [same]
    rfl
  | cons c rest ih =>
    intro nand ready command out
    have data : nfData nand = (c, { nand with out := rest }) := by
      simp [nfData, Nand.deliver, ready.selected, ready.idle, command, out]
    have left : Ready { nand with out := rest } := ⟨ready.selected, ready.idle⟩
    rw [List.length_cons, readBuf, data]
    dsimp only
    rw [ih left command rfl]

end Ready

end Ct.S5pv210.Nf
