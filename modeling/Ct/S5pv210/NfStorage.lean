import Ct.S5pv210.NfCycles

set_option autoImplicit false

namespace Ct.S5pv210.Nf

open Ct.Lib

/-- Enough turns for the device after any of its commands. -/
def Nand.patience (nand : Nand) : Nat :=
  nand.delay nfcmdReset + nand.delay nfcmdRead2 + nand.delay nfcmdErase2 +
    nand.delay nfcmdPagePro2 + 1

theorem patience_lt {nand : Nand} {fuel : Nat} (enough : nand.patience ≤ fuel) :
    nand.delay nfcmdReset < fuel ∧ nand.delay nfcmdRead2 < fuel ∧
      nand.delay nfcmdErase2 < fuel ∧ nand.delay nfcmdPagePro2 < fuel := by
  unfold Nand.patience at enough
  refine ⟨?_, ?_, ?_, ?_⟩ <;> omega

/-- The device is idle, its cells hold `contents`, and its delays are those of `nand`. -/
structure After (nand : Nand) (contents : Contents) (after : Nand) : Prop where
  contents : after.contents = contents
  delay : after.delay = nand.delay
  idle : after.busy = 0

section Driver

variable {nand : Nand} {fuel : Nat}

theorem nfReset_ready (enough : nand.patience ≤ fuel) :
    ∃ after, nfReset fuel nand = .ok after ∧ After nand nand.contents after := by
  have selected := nfNcs0_selected nand
  have reset : nfCmd nfcmdReset (nfNcs0 0 nand) =
      { (nfNcs0 0 nand).latch nfcmdReset with busy := nand.delay nfcmdReset } := by
    simp only [nfCmd, Nand.receive, selected, Bool.not_true, Bool.false_eq_true, ↓reduceIte]
    rfl
  obtain ⟨after, ended, waited⟩ := nfWaitRb_started reset (patience_lt enough).1
  refine ⟨nfNcs0 1 after, ?_, waited.contents, waited.delay, waited.idle⟩
  simp only [nfReset, ended, bind, Except.bind]
  rfl

theorem row_lowBytes (page : BitVec 32) (small : page.toNat < 2 ^ 24) :
    addressOf [lowByte page, lowByte (page.sshiftRight 8), lowByte (page.sshiftRight 16)] =
      page.toNat := by
  rw [sshiftRight_small (by omega), sshiftRight_small (by omega)]
  exact addressOf_lowBytes page small

/-- The erase command clears the block of the row that its three cycles send. -/
theorem nfErase_erases (nand : Nand) (addr : BitVec 32) (enough : nand.patience ≤ fuel) :
    ∃ after, nfErase fuel addr nand = .ok (0, after) ∧
      After nand (nand.contents.eraseBlock (addr.toNat / 2 ^ 17)) after := by
  obtain ⟨idle, reset, contents, delay, still⟩ := nfReset_ready enough
  have row : addressOf [lowByte (addr >>> 17), lowByte (addr >>> 17 >>> 8),
      lowByte (addr >>> 17 >>> 16)] = addr.toNat / 2 ^ 17 := by
    have shifted : (addr >>> 17).toNat = addr.toNat / 2 ^ 17 := by
      rw [BitVec.toNat_ushiftRight, Nat.shiftRight_eq_div_pow]
    rw [addressOf_lowBytes _ (by omega), shifted]
  have started := (nfNcs0_ready still).erase (lowByte (addr >>> 17)) (lowByte (addr >>> 17 >>> 8))
    (lowByte (addr >>> 17 >>> 16))
  have short : idle.delay nfcmdErase2 < fuel := by
    rw [delay]
    exact (patience_lt enough).2.2.1
  obtain ⟨after, ended, waited⟩ := nfWaitRb_started started short
  have done := waited.ready (nfNcs0_selected idle)
  have asked : nfCmd nfcmdReadstatus after = after.latch nfcmdReadstatus :=
    done.first (by decide)
  have status := nfWaitIo_passed (done.latch nfcmdReadstatus) rfl (Nat.zero_lt_of_lt short)
  refine ⟨nfNcs0 1 (after.latch nfcmdReadstatus), ?_, ?_, ?_, waited.idle⟩
  · simp only [nfErase, reset, ended, asked, status, bind, Except.bind]
    rfl
  · rw [← row, ← contents]
    exact waited.contents
  · rw [← delay]
    exact waited.delay

/-- A read delivers the page and leaves the cells as they are. -/
theorem nfRead_reads (nand : Nand) (addr : BitVec 32) (natural : addr.toNat < 2 ^ 31)
    (enough : nand.patience ≤ fuel) :
    ∃ after, nfRead fuel addr nand =
        .ok (0, (nand.contents (addr.toNat / nfPagesize)).val, after) ∧
      After nand nand.contents after := by
  obtain ⟨idle, reset, contents, delay, still⟩ := nfReset_ready enough
  have shifted : (addr.sshiftRight 11).toNat = addr.toNat / nfPagesize := by
    rw [sshiftRight_small natural, BitVec.toNat_ushiftRight, Nat.shiftRight_eq_div_pow]
    rfl
  have row := row_lowBytes (addr.sshiftRight 11) (by
    rw [shifted, nfPagesize]
    omega)
  have started := (nfNcs0_ready still).read (lowByte (addr.sshiftRight 11))
    (lowByte ((addr.sshiftRight 11).sshiftRight 8)) (lowByte ((addr.sshiftRight 11).sshiftRight 16))
  have short : idle.delay nfcmdRead2 < fuel := by
    rw [delay]
    exact (patience_lt enough).2.1
  obtain ⟨after, ended, waited⟩ := nfWaitRb_started started short
  have done := waited.ready (nfNcs0_selected idle)
  have page : after.out = (nand.contents (addr.toNat / nfPagesize)).val := by
    rw [waited.out, ← shifted, ← row, ← contents]
    rfl
  have other : after.command ≠ nfcmdReadstatus := by
    rw [waited.command]
    show nfcmdRead2 ≠ nfcmdReadstatus
    decide
  have filled := readBuf_delivers _ done other page
  rw [(nand.contents (addr.toNat / nfPagesize)).property] at filled
  refine ⟨nfNcs0 1 { after with out := [] }, ?_, ?_, ?_, waited.idle⟩
  · simp only [nfRead, reset, ended, filled, bind, Except.bind]
    rfl
  · rw [← contents]
    exact waited.contents
  · rw [← delay]
    exact waited.delay

theorem nfClearRb_idle (still : nand.busy = 0) :
    ∃ detect, nfClearRb nand = { nand with rbDetect := detect } := by
  have same : nand.busy - 1 = nand.busy := by omega
  refine ⟨(nand.readStat.2.writeStat (regionWrite nand.readStat.1 0x1 4 1)).rbDetect, ?_⟩
  simp only [nfClearRb, Nand.readStat, Nand.writeStat, same]

/-- A write to an idle device programs the page. -/
theorem nfWrite_programs (nand : Nand) (addr : BitVec 32) (buf : Page) (still : nand.busy = 0)
    (enough : nand.patience ≤ fuel) :
    ∃ after, nfWrite fuel addr buf nand = .ok (0, after) ∧
      After nand (nand.contents.programPage (addr.toNat / nfPagesize) 0 buf.val) after := by
  have shifted : (addr >>> 11).toNat = addr.toNat / nfPagesize := by
    rw [BitVec.toNat_ushiftRight, Nat.shiftRight_eq_div_pow]
    rfl
  have row := row_lowBytes (addr >>> 11) (by
    rw [shifted, nfPagesize]
    omega)
  obtain ⟨detect, cleared⟩ := nfClearRb_idle (nfNcs0_ready still).idle
  have ready : Ready { nfNcs0 0 nand with rbDetect := detect } := ⟨nfNcs0_selected nand, still⟩
  have started := ready.pagePro (lowByte (addr >>> 11))
    (lowByte ((addr >>> 11).sshiftRight 8)) (lowByte ((addr >>> 11).sshiftRight 16)) buf.val
  obtain ⟨after, ended, waited⟩ := nfWaitRb_started started (patience_lt enough).2.2.2
  refine ⟨nfNcs0 1 after, ?_, ?_, waited.delay, waited.idle⟩
  · simp only [nfWrite, cleared, ended, bind, Except.bind]
    rfl
  · rw [← shifted, ← row]
    exact waited.contents

end Driver

section Storage

/-- An erased page takes what is programmed. -/
theorem erased_program (buf : Page) : erased.program 0 buf.val = buf := by
  have keeps : ∀ bytes : List (BitVec 8),
      (List.replicate bytes.length (0xFF : BitVec 8)).zipWith (· &&& ·) bytes = bytes := by
    intro bytes
    induction bytes with
    | nil => rfl
    | cons c rest ih =>
      have same : (0xFF : BitVec 8) &&& c = c := BitVec.allOnes_and
      rw [List.length_cons, List.replicate_succ, List.zipWith_cons_cons, ih, same]
  apply Subtype.ext
  have whole := keeps buf.val
  rw [buf.property] at whole
  simpa [Page.program, erased, buf.property] using whole

/-- Erasing and reading address the same storage: the 64 pages of the block of `a` are erased and
no other, and a page that is written after that is read back. -/
def SameStorage (a : BitVec 32) (nand : Nand) : Prop :=
  ∃ enough, ∀ fuel, enough ≤ fuel → ∃ after, nfErase fuel a nand = .ok (0, after) ∧
    (∀ b : BitVec 32, b.toNat < 2 ^ 31 → nfPagesize ∣ b.toNat →
      b.toNat / 2 ^ 17 = a.toNat / 2 ^ 17 →
      ∃ done, nfRead fuel b after = .ok (0, erased.val, done)) ∧
    (∀ page, page / blockPages ≠ a.toNat / 2 ^ 17 → after.contents page = nand.contents page) ∧
    (∀ buf : Page, ∃ written done, nfWrite fuel a buf after = .ok (0, written) ∧
      nfRead fuel a written = .ok (0, buf.val, done))

/-- Every page of the block is erased. -/
def BlockErased (contents : Contents) (block : Nat) : Prop :=
  ∀ page, page / blockPages = block → contents page = erased

variable {nand : Nand} {a : BitVec 32}

theorem patience_of_delay {after : Nand} (same : after.delay = nand.delay) :
    after.patience = nand.patience := by
  simp only [Nand.patience, same]

/-- What the cells have to hold after the erase. -/
theorem sameStorage_iff (natural : a.toNat < 2 ^ 31) :
    SameStorage a nand ↔
      BlockErased (nand.contents.eraseBlock (a.toNat / 2 ^ 17)) (a.toNat / 2 ^ 17) ∧
        ∀ page, page / blockPages ≠ a.toNat / 2 ^ 17 →
          nand.contents.eraseBlock (a.toNat / 2 ^ 17) page = nand.contents page := by
  constructor
  · intro ⟨enough, same⟩
    obtain ⟨after, ran, block, others, _⟩ := same (enough + nand.patience) (by omega)
    obtain ⟨_, ran', contents, delay, _⟩ := nfErase_erases nand a
      (show nand.patience ≤ enough + nand.patience by omega)
    rw [ran] at ran'
    cases ran'
    rw [← contents]
    refine ⟨fun page inside => ?_, others⟩
    -- the page is read at its byte address
    have low : page * nfPagesize < 2 ^ 31 := by
      unfold blockPages at inside
      unfold nfPagesize
      omega
    have value : (BitVec.ofNat 32 (page * nfPagesize)).toNat = page * nfPagesize := by
      rw [BitVec.toNat_ofNat]
      omega
    have inBlock : page * nfPagesize / 2 ^ 17 = a.toNat / 2 ^ 17 := by
      unfold blockPages at inside
      unfold nfPagesize
      omega
    obtain ⟨done, read⟩ := block (BitVec.ofNat 32 (page * nfPagesize)) (by omega)
      (by rw [value]; exact Nat.dvd_mul_left ..) (by rw [value]; exact inBlock)
    obtain ⟨_, read', _⟩ := nfRead_reads after (BitVec.ofNat 32 (page * nfPagesize)) (by omega)
      (show after.patience ≤ enough + nand.patience by
        rw [patience_of_delay delay]
        omega)
    rw [read, value, Nat.mul_div_cancel page (by decide)] at read'
    exact (Subtype.ext (Prod.mk.inj (Prod.mk.inj (Except.ok.inj read')).2).1).symm
  · intro ⟨block, others⟩
    refine ⟨nand.patience, fun fuel enough => ?_⟩
    obtain ⟨after, ran, contents, delay, idle⟩ := nfErase_erases nand a enough
    have patient : after.patience ≤ fuel := by
      rw [patience_of_delay delay]
      exact enough
    refine ⟨after, ran, fun b low _ inBlock => ?_, ?_, fun buf => ?_⟩
    · obtain ⟨done, read, _⟩ := nfRead_reads after b low patient
      have clear : after.contents (b.toNat / nfPagesize) = erased := by
        rw [contents]
        apply block
        rw [Nat.div_div_eq_div_mul]
        exact inBlock
      rw [clear] at read
      exact ⟨done, read⟩
    · rw [contents]
      exact others
    · obtain ⟨written, programmed, stored, same, _⟩ := nfWrite_programs after a buf idle patient
      have still : written.patience ≤ fuel := by
        rw [patience_of_delay same]
        exact patient
      obtain ⟨done, read, _⟩ := nfRead_reads written a natural still
      have clear : after.contents (a.toNat / nfPagesize) = erased := by
        rw [contents]
        apply block
        rw [Nat.div_div_eq_div_mul]
        rfl
      rw [stored, Contents.programPage, if_pos rfl, clear, erased_program] at read
      exact ⟨written, done, programmed, read⟩

theorem eraseBlock_inside {contents : Contents} {row page : Nat}
    (inside : page / blockPages = row / blockPages) : contents.eraseBlock row page = erased :=
  if_pos inside

theorem eraseBlock_outside {contents : Contents} {row page : Nat}
    (outside : page / blockPages ≠ row / blockPages) :
    contents.eraseBlock row page = contents page :=
  if_neg outside

/-- An erase of row `block` erases the block of this number for the first one only. -/
theorem erases_block_iff (contents : Contents) (block : Nat) :
    (BlockErased (contents.eraseBlock block) block ∧
        ∀ page, page / blockPages ≠ block → contents.eraseBlock block page = contents page) ↔
      block = 0 ∨ (BlockErased contents block ∧ BlockErased contents (block / blockPages)) := by
  constructor
  · intro ⟨done, others⟩
    by_cases first : block = 0
    · exact Or.inl first
    · have lower : block / blockPages < block :=
        Nat.div_lt_self (Nat.pos_of_ne_zero first) (by decide)
      refine Or.inr ⟨fun page inside => ?_, fun page inside => ?_⟩
      · rw [← done page inside]
        exact (eraseBlock_outside (by omega)).symm
      · rw [← others page (by omega)]
        exact eraseBlock_inside inside
  · rintro (rfl | ⟨mine, struck⟩)
    · exact ⟨fun page inside => eraseBlock_inside inside, fun page other => eraseBlock_outside other⟩
    · have same : contents.eraseBlock block = contents := by
        funext page
        by_cases inside : page / blockPages = block / blockPages
        · rw [eraseBlock_inside inside, struck page inside]
        · exact eraseBlock_outside inside
      rw [same]
      exact ⟨mine, fun _ _ => rfl⟩

/-- `nf_erase` sends a block number where the device takes the number of a page: it erases the
block of `a` for the addresses of the first block only. Anywhere else the three functions agree
where there is nothing to erase, neither in the block of `a` nor in the one that is erased. -/
theorem same_storage_iff (a : BitVec 32) (natural : a.toNat < 2 ^ 31) (nand : Nand) :
    SameStorage a nand ↔
      a.toNat < 2 ^ 17 ∨
        (BlockErased nand.contents (a.toNat / 2 ^ 17) ∧
          BlockErased nand.contents (a.toNat / 2 ^ 17 / blockPages)) := by
  have first : a.toNat / 2 ^ 17 = 0 ↔ a.toNat < 2 ^ 17 := by omega
  rw [sameStorage_iff natural, erases_block_iff, first]

/-- A device whose pages are all zero, and that is busy for 3 turns after every command. -/
def zeroNand : Nand where
  contents _ := ⟨List.replicate nfPagesize 0, List.length_replicate⟩
  delay _ := 3
  nfcont := 0
  rbDetect := false
  command := nfcmdReset
  address := []
  loaded := []
  out := []
  busy := 0

theorem same_storage_first_block : SameStorage 0x1F800 zeroNand :=
  (same_storage_iff 0x1F800 (by decide) zeroNand).mpr (Or.inl (by decide))

/-- The erase of the second block strikes the first one. -/
theorem second_block_not_erased :
    (0x20000 : BitVec 32).toNat < 2 ^ 31 ∧ nfPagesize ∣ (0x20000 : BitVec 32).toNat ∧
      ¬ SameStorage 0x20000 zeroNand := by
  have natural : (0x20000 : BitVec 32).toNat < 2 ^ 31 := by decide
  refine ⟨natural, by decide, ?_⟩
  rw [sameStorage_iff natural]
  intro ⟨block, _⟩
  have cleared : zeroNand.contents 64 = erased := block 64 rfl
  have head := congrArg (fun page : Page => page.val.head?) cleared
  revert head
  decide

end Storage

end Ct.S5pv210.Nf
