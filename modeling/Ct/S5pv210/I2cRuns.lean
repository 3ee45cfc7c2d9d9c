import Ct.S5pv210.I2c

set_option autoImplicit false

namespace Ct.S5pv210.I2c

open Ct.Lib

/-- What a helper returns for a transfer. -/
def status (transfer : Transfer) : Int := if transfer.acked then 0 else 1

theorem status_eq_zero {transfer : Transfer} : status transfer = 0 ↔ transfer.acked = true := by
  unfold status
  split
  · simp [*]
  · simp [*]

theorem status_cases (transfer : Transfer) : status transfer = 0 ∨ status transfer = 1 := by
  unfold status
  split
  · exact Or.inl rfl
  · exact Or.inr rfl

theorem not_acked_of_failed {transfer : Transfer} (failed : status transfer = 1) :
    ¬transfer.acked = true := by
  rw [← status_eq_zero, failed]
  decide

section Transfers

variable (device : Nat → Transfer) {bus : Bus}

theorem trxPend_eq_zero : i2cTrxPend bus = 0 ↔ bus.i2ccon.getLsbD 4 = false := by
  have bit : (1 : BitVec 32) <<< 4 = BitVec.twoPow 32 4 := by decide
  rw [i2cTrxPend, bit, BitVec.and_twoPow]
  cases bus.i2ccon.getLsbD 4 with
  | false => simp
  | true => simpa using by decide

theorem trxResume_clears (bus : Bus) : i2cTrxPend (i2cTrxResume bus) = 0 := by
  rw [trxPend_eq_zero, i2cTrxResume, regionWrite_bit (by decide), if_pos rfl]
  decide

/-- A one-bit field below the mode bits does not change them. -/
theorem mode_bit {bus : Bus} {index : Nat} (low : index < 6) (val : BitVec 32) :
    mode { bus with i2cstat := regionWrite bus.i2cstat 0x1 index val } = mode bus := by
  apply regionRead_regionWrite_other
  intro i bit
  have small : i < 2 := maskBit_lt (by decide) bit
  refine ⟨by omega, ?_⟩
  rintro ⟨_, other⟩
  have least : 6 + i - index < 1 := maskBit_lt (by decide) other
  omega

theorem mode_setMode (bus : Bus) : mode (i2cSetMode bus masterRx) = masterRx := by
  rw [mode, i2cSetMode, regionRead_regionWrite]
  · decide
  · intro i bit
    have small : i < 2 := maskBit_lt (by decide) bit
    omega

/-- One transfer: its status, and what it leaves. -/
theorem awaitPend_transfer (clear : i2cTrxPend bus = 0) :
    (i2cNotRcvAck (awaitPend device bus)).toInt = status (device bus.transfers) ∧
      (awaitPend device bus).transfers = bus.transfers + 1 ∧
      mode (awaitPend device bus) = mode bus ∧
      (mode bus = masterRx →
        i2cDataRead (awaitPend device bus) = (device bus.transfers).data) := by
  rw [awaitPend, if_pos clear]
  refine ⟨?_, rfl, mode_bit (by decide) _, ?_⟩
  · have field := regionRead_regionWrite bus.i2cstat 0x1
      (if (device bus.transfers).acked then 0 else 1) 0 (fun i bit => by
        have small : i < 1 := maskBit_lt (by decide) bit
        omega)
    rw [regionRead, BitVec.ushiftRight_zero] at field
    rw [i2cNotRcvAck, field, status]
    cases (device bus.transfers).acked with
    | false => decide
    | true => decide
  · intro receiving
    have byte := (device bus.transfers).data.isLt
    apply BitVec.eq_of_toNat_eq
    rw [i2cDataRead, if_pos receiving, BitVec.toNat_setWidth, BitVec.toNat_and,
      BitVec.toNat_setWidth]
    have mask : (0xff : BitVec 32).toNat = 2 ^ 8 - 1 := by decide
    rw [mask, Nat.and_two_pow_sub_one_eq_mod]
    omega

end Transfers

section Helpers

variable (device : Nat → Transfer)

theorem sendAddr_outcome (addr : BitVec 8) (bus : Bus) : ∃ bus',
    i2cSendAddr device addr bus = (status (device bus.transfers), bus') ∧
      bus'.transfers = bus.transfers + 1 := by
  obtain ⟨returned, counted, _⟩ := awaitPend_transfer device
    (trxResume_clears (i2cDataWrite bus (addr.setWidth 32)))
  exact ⟨_, Prod.ext returned rfl, counted⟩

theorem sendData_outcome (ch : BitVec 8) (bus : Bus) : ∃ bus',
    i2cSendData device ch bus = (status (device bus.transfers), bus') ∧
      bus'.transfers = bus.transfers + 1 := by
  obtain ⟨returned, counted, _⟩ := awaitPend_transfer device
    (trxResume_clears (i2cDataWrite bus (ch.signExtend 32)))
  exact ⟨_, Prod.ext returned rfl, counted⟩

/-- A restart for reading leaves the controller receiving. -/
theorem restart_outcome (addr : BitVec 8) (bus : Bus) : ∃ bus',
    i2cRestart device addr i2cRead bus = (status (device bus.transfers), bus') ∧
      bus'.transfers = bus.transfers + 1 ∧ mode bus' = masterRx := by
  obtain ⟨returned, counted, kept, _⟩ := awaitPend_transfer device
    (trxResume_clears (i2cStart (i2cSetMode (i2cDataWrite bus
      ((addr.setWidth 32 <<< 1) ||| i2cRead)) masterRx)))
  refine ⟨_, Prod.ext returned rfl, counted, kept.trans ?_⟩
  exact (mode_bit (by decide) 1).trans (mode_setMode _)

theorem receiveData_outcome (ack : BitVec 32) {bus : Bus} (receiving : mode bus = masterRx) :
    ∃ bus', i2cReceiveData device ack bus =
        (status (device bus.transfers), (device bus.transfers).data, bus') ∧
      bus'.transfers = bus.transfers + 1 ∧ mode bus' = masterRx := by
  obtain ⟨returned, counted, kept, byte⟩ := awaitPend_transfer device
    (trxResume_clears (i2cAckToggle bus ack))
  exact ⟨_, Prod.ext returned (Prod.ext (byte receiving) rfl), counted, kept.trans receiving⟩

/-- The transfer behind the first of `left` many that is acknowledged. -/
def answered (device : Nat → Transfer) : Nat → Nat → Option Nat
  | 0, _ => none
  | left + 1, n => if (device n).acked then some (n + 1) else answered device left (n + 1)

theorem selectLoop_outcome (addr : BitVec 8) (rwFlag : BitVec 32) (left : Nat) :
    ∀ bus : Bus, (answered device left bus.transfers = none ∧
        ∃ bus', selectLoop device addr rwFlag left bus = (-1, bus')) ∨
      ∃ next bus', answered device left bus.transfers = some next ∧
        selectLoop device addr rwFlag left bus = (0, bus') ∧ bus'.transfers = next := by
  induction left with
  | zero => exact fun bus => Or.inl ⟨rfl, bus, rfl⟩
  | succ left ih =>
    intro bus
    let started := i2cStart (i2cTrxToggle (i2cSetMode (i2cTrxResume (i2cAckToggle (i2cDataWrite bus
      ((addr.setWidth 32 <<< 1) ||| rwFlag)) i2cSetAck)) (modeOf rwFlag)) 1)
    have clear : i2cTrxPend started = 0 := trxResume_clears _
    obtain ⟨returned, counted, _⟩ := awaitPend_transfer device clear
    have step : selectLoop device addr rwFlag (left + 1) bus =
        if i2cNotRcvAck (awaitPend device started) = 0 then (0, awaitPend device started)
        else selectLoop device addr rwFlag left (i2cStop (awaitPend device started)) := rfl
    have zero : i2cNotRcvAck (awaitPend device started) = 0 ↔
        (device bus.transfers).acked = true := by
      rw [← status_eq_zero, ← BitVec.toInt_inj, returned]
      rfl
    rw [step, answered]
    by_cases acked : (device bus.transfers).acked = true
    · rw [if_pos acked, if_pos (zero.mpr acked)]
      exact Or.inr ⟨_, _, rfl, rfl, counted⟩
    · rw [if_neg acked, if_neg (mt zero.mp acked)]
      have later := ih (i2cStop (awaitPend device started))
      have same : (i2cStop (awaitPend device started)).transfers = bus.transfers + 1 := counted
      rwa [same] at later

end Helpers

section Loops

variable (device : Nat → Transfer)

theorem forall_below_succ {motive : Nat → Prop} {n left : Nat} :
    (∀ k, k < left + 1 → motive (n + k)) ↔ motive n ∧ ∀ k, k < left → motive (n + 1 + k) := by
  constructor
  · intro all
    refine ⟨all 0 (Nat.succ_pos left), fun k below => ?_⟩
    rw [Nat.add_assoc, Nat.add_comm 1]
    exact all (k + 1) (Nat.succ_lt_succ below)
  · rintro ⟨here, later⟩ k below
    cases k with
    | zero => exact here
    | succ k =>
      have next := later k (Nat.lt_of_succ_lt_succ below)
      rwa [Nat.add_assoc, Nat.add_comm 1] at next

/-- The bytes go out until one is not acknowledged. -/
theorem sendLoop_outcome (buf : List (BitVec 8)) (left : Nat) :
    ∀ (i : Nat) (bus : Bus), i + left ≤ buf.length →
      ∃ ret bus', sendLoop device buf left i bus = .ok (ret, bus') ∧
        ((ret = 0 ∧ ∀ k, k < left → (device (bus.transfers + k)).acked = true) ∨
          (ret = 1 ∧ ¬∀ k, k < left → (device (bus.transfers + k)).acked = true)) := by
  induction left with
  | zero => exact fun i bus _ =>
      ⟨0, bus, rfl, Or.inl ⟨rfl, fun k below => absurd below (Nat.not_lt_zero k)⟩⟩
  | succ left ih =>
    intro i bus room
    have inside : i < buf.length := by omega
    obtain ⟨bus', sent, counted⟩ := sendData_outcome device buf[i] bus
    have here := List.getElem?_eq_getElem inside
    simp only [sendLoop, here, sent, status_eq_zero,
      forall_below_succ (motive := fun n => (device n).acked = true)]
    by_cases acked : (device bus.transfers).acked = true
    · obtain ⟨ret, bus'', run, outcome⟩ := ih (i + 1) bus' (by omega)
      rw [counted] at outcome
      refine ⟨ret, bus'', ?_, ?_⟩
      · rw [if_pos acked, run]
      · simpa only [acked, true_and] using outcome
    · have failed : status (device bus.transfers) = 1 :=
        (status_cases _).resolve_left (mt status_eq_zero.mp acked)
      refine ⟨1, bus', ?_, Or.inr ⟨rfl, fun all => acked all.1⟩⟩
      rw [if_neg acked, failed]

/-- The bytes come in until one is not acknowledged; that one is stored as well. -/
theorem receiveLoop_outcome (left : Nat) :
    ∀ (i : Nat) (buf : List (BitVec 8)) (bus : Bus), mode bus = masterRx →
      i + left < buf.length →
      ∃ ret n buf' bus', receiveLoop device left i buf bus = .ok (ret, n, buf', bus') ∧
        buf'.length = buf.length ∧ (∀ j, j < i → buf'[j]? = buf[j]?) ∧
        ((ret = 0 ∧ n = i + left ∧ bus'.transfers = bus.transfers + left ∧ mode bus' = masterRx ∧
            (∀ k, k < left → (device (bus.transfers + k)).acked = true) ∧
            ∀ k, k < left → buf'[i + k]? = some (device (bus.transfers + k)).data) ∨
          (ret = 1 ∧ bus'.transfers ≤ bus.transfers + left ∧
            ¬∀ k, k < left → (device (bus.transfers + k)).acked = true)) := by
  induction left with
  | zero =>
    intro i buf bus receiving _
    have none : ∀ k, k < 0 → (device (bus.transfers + k)).acked = true :=
      fun k below => absurd below (Nat.not_lt_zero k)
    exact ⟨0, i, buf, bus, rfl, rfl, fun _ _ => rfl,
      Or.inl ⟨rfl, rfl, rfl, receiving, none, fun k below => absurd below (Nat.not_lt_zero k)⟩⟩
  | succ left ih =>
    intro i buf bus receiving room
    have inside : i < buf.length := by omega
    obtain ⟨bus', received, counted, kept⟩ :=
      receiveData_outcome device i2cSetAck receiving
    have size : (buf.set i (device bus.transfers).data).length = buf.length :=
      List.length_set ..
    have run : receiveLoop device (left + 1) i buf bus =
        if status (device bus.transfers) = 0 then
          receiveLoop device left (i + 1) (buf.set i (device bus.transfers).data) bus'
        else
          .ok (status (device bus.transfers), i, buf.set i (device bus.transfers).data, bus') := by
      simp only [receiveLoop, received, store, if_pos inside]
      rfl
    simp only [forall_below_succ (motive := fun n => (device n).acked = true)]
    rcases status_cases (device bus.transfers) with taken | failed
    · obtain ⟨ret, n, buf', bus'', rest, length, before, outcome⟩ := ih (i + 1)
        (buf.set i (device bus.transfers).data) bus' kept (by omega)
      have here : buf'[i]? = some (device bus.transfers).data := by
        rw [before i (Nat.lt_succ_self i), List.getElem?_set_self inside]
      refine ⟨ret, n, buf', bus'', ?_, length.trans size, ?_, ?_⟩
      · rw [run, if_pos taken, rest]
      · intro j below
        rw [before j (by omega), List.getElem?_set_ne (by omega)]
      · rw [counted] at outcome
        rcases outcome with ⟨zero, last, count, receiving', all, bytes⟩ | ⟨one, count, some⟩
        · refine Or.inl ⟨zero, by omega, by omega, receiving', ⟨status_eq_zero.mp taken, all⟩,
            fun k below => ?_⟩
          cases k with
          | zero => exact here
          | succ k =>
            have next := bytes k (by omega)
            rwa [Nat.add_assoc, Nat.add_assoc, Nat.add_comm 1] at next
        · exact Or.inr ⟨one, by omega, fun all => some all.2⟩
    · refine ⟨1, i, _, bus', ?_, size, ?_,
        Or.inr ⟨rfl, by omega, fun all => not_acked_of_failed failed all.1⟩⟩
      · rw [run, failed, if_neg (by decide)]
      · intro j below
        rw [List.getElem?_set_ne (by omega)]

end Loops

section Results

variable {device : Nat → Transfer} {bus : Bus} {buf : List (BitVec 8)} {len next : Nat}

/-- The device has been addressed, and the transfers from there on come at `next`. -/
def Addressed (device : Nat → Transfer) (bus : Bus) (next : Nat) : Prop :=
  answered device i2cMaxTry bus.transfers = some next

/-- The device address and the `n` transfers behind it are acknowledged. -/
def Acknowledged (device : Nat → Transfer) (bus : Bus) (n : Nat) : Prop :=
  ∃ next, Addressed device bus next ∧ ∀ k, k < n → (device (next + k)).acked = true

/-- Addressing and restart are acknowledged, and there have been `len` more transfers, whose bytes
are in the buffer. -/
def Received (device : Nat → Transfer) (bus : Bus) (len : Nat) (buf' : List (BitVec 8))
    (bus' : Bus) : Prop :=
  ∃ next, Addressed device bus next ∧ (device next).acked = true ∧
    (device (next + 1)).acked = true ∧ bus'.transfers = next + 2 + len ∧
    ∀ i, i < len → buf'[i]? = some (device (next + 2 + i)).data

/-- `i2c_write_array` returns the length exactly if the device address, the register address and
all bytes are acknowledged. -/
def WriteTold (device : Nat → Transfer) (bus : Bus) (addr : BitVec 8) (buf : List (BitVec 8))
    (len : Nat) : Prop :=
  ∃ ret bus', i2cWriteArray device addr buf len bus = .ok (ret, bus') ∧
    (ret = len ↔ Acknowledged device bus (len + 1))

/-- `i2c_read_array` returns the length exactly if all bytes have been received. -/
def ReadTold (device : Nat → Transfer) (bus : Bus) (addr : BitVec 8) (buf : List (BitVec 8))
    (len : Nat) : Prop :=
  ∃ ret buf' bus', i2cReadArray device addr buf len bus = .ok (ret, buf', bus') ∧
    (ret = len ↔ Received device bus len buf' bus')

/-- The results of a run: the length, -1 where the device has not been addressed, else 1. -/
inductive Outcome (device : Nat → Transfer) (bus : Bus) (len : Nat) (ret : Int) : Prop
  | done (all : Acknowledged device bus (len + 1)) (length : ret = len)
  | silent (unanswered : answered device i2cMaxTry bus.transfers = none) (other : ret = -1)
  | failed (next : Nat) (selected : Addressed device bus next)
      (some : ¬Acknowledged device bus (len + 1)) (one : ret = 1)

theorem Addressed.unique {other : Nat} (selected : Addressed device bus next)
    (selected' : Addressed device bus other) : other = next := by
  rw [Addressed] at selected selected'
  rw [selected] at selected'
  exact (Option.some_inj.mp selected').symm

theorem acknowledged_iff (selected : Addressed device bus next) (n : Nat) :
    Acknowledged device bus n ↔ ∀ k, k < n → (device (next + k)).acked = true := by
  constructor
  · rintro ⟨other, selected', all⟩
    rwa [Addressed.unique selected selected'] at all
  · exact fun all => ⟨next, selected, all⟩

theorem acknowledged_succ (selected : Addressed device bus next) (n : Nat) :
    Acknowledged device bus (n + 1) ↔
      (device next).acked = true ∧ ∀ k, k < n → (device (next + 1 + k)).acked = true := by
  rw [acknowledged_iff selected]
  exact forall_below_succ (motive := fun n => (device n).acked = true)

theorem writeArray_outcome (device : Nat → Transfer) (bus : Bus) (addr : BitVec 8)
    (room : len ≤ buf.length) :
    ∃ ret bus', i2cWriteArray device addr buf len bus = .ok (ret, bus') ∧
      Outcome device bus len ret := by
  rw [i2cWriteArray, i2cSelectDevice]
  rcases selectLoop_outcome device 0x50 i2cWrite i2cMaxTry bus with
    ⟨none, bus', select⟩ | ⟨next, bus', selected, select, at_next⟩
  · exact ⟨-1, bus', by rw [select]; rfl, .silent none rfl⟩
  · obtain ⟨bus'', sent, counted⟩ := sendAddr_outcome device addr bus'
    rw [at_next] at sent counted
    have delivered := acknowledged_succ selected len
    rw [select]
    simp only [ne_eq, not_true, ↓reduceIte, sent]
    rcases status_cases (device next) with taken | failed
    · obtain ⟨ret, last, loop, outcome⟩ := sendLoop_outcome device buf len 0
        bus'' (by omega)
      rw [counted] at outcome
      simp only [taken, not_true, ↓reduceIte, Int.toNat_natCast, loop]
      rcases outcome with ⟨rfl, all⟩ | ⟨rfl, some⟩
      · exact ⟨len, finish last, rfl, .done (delivered.mpr ⟨status_eq_zero.mp taken, all⟩) rfl⟩
      · exact ⟨1, finish last, rfl,
          .failed next selected (fun all => some (delivered.mp all).2) rfl⟩
    · refine ⟨1, finish bus'', by rw [failed]; rfl, .failed next selected ?_ rfl⟩
      exact fun all => not_acked_of_failed failed (delivered.mp all).1

/-- The last byte is not acknowledged, so that there is one acknowledgement less than bytes. -/
theorem readArray_outcome (device : Nat → Transfer) (bus : Bus) (addr : BitVec 8)
    (positive : 1 ≤ len) (room : len ≤ buf.length) :
    ∃ ret buf' bus', i2cReadArray device addr buf len bus = .ok (ret, buf', bus') ∧
      Outcome device bus len ret ∧
      (Received device bus len buf' bus' ↔ Acknowledged device bus (len + 1)) := by
  obtain ⟨more, rfl⟩ : ∃ more, len = more + 1 := ⟨len - 1, by omega⟩
  rw [i2cReadArray, i2cSelectDevice]
  rcases selectLoop_outcome device 0x50 i2cWrite i2cMaxTry bus with
    ⟨unanswered, bus', select⟩ | ⟨next, bus', selected, select, at_next⟩
  · have nowhere : ∀ next, ¬Addressed device bus next := by
      intro next selected
      rw [Addressed, unanswered] at selected
      cases selected
    refine ⟨-1, buf, bus', by rw [select]; rfl, .silent unanswered rfl, iff_of_false ?_ ?_⟩
    · exact fun ⟨next, selected, _⟩ => nowhere next selected
    · exact fun ⟨next, selected, _⟩ => nowhere next selected
  · obtain ⟨bus'', sent, counted⟩ := sendAddr_outcome device addr bus'
    rw [at_next] at sent counted
    have whole := acknowledged_succ selected (more + 1)
    rw [forall_below_succ (motive := fun n => (device n).acked = true)] at whole
    have unreceived : ∀ buf' last,
        ¬((device next).acked = true ∧ (device (next + 1)).acked = true) →
          ¬Received device bus (more + 1) buf' last := by
      rintro buf' last refused ⟨other, selected', acked, again, _⟩
      rw [Addressed.unique selected selected'] at acked again
      exact refused ⟨acked, again⟩
    rw [select]
    simp only [ne_eq, not_true, ↓reduceIte, sent]
    rcases status_cases (device next) with taken | failed
    · obtain ⟨opened, restart, count, receiving⟩ :=
        restart_outcome device 0x50 bus''
      rw [counted] at restart count
      simp only [taken, not_true, ↓reduceIte, restart]
      rcases status_cases (device (next + 1)) with again | failed
      · obtain ⟨ret, n, buf', last, loop, size, _, outcome⟩ :=
          receiveLoop_outcome device more 0 buf opened receiving (by omega)
        have left : (((more + 1 : Nat) : Int) - 1).toNat = more := by omega
        simp only [again, not_true, ↓reduceIte, left, loop]
        rw [count] at outcome
        rcases outcome with ⟨rfl, rfl, total, kept, all, bytes⟩ | ⟨rfl, short, some⟩
        · obtain ⟨done, received, final, _⟩ :=
            receiveData_outcome device i2cSetNack kept
          have inside : 0 + more < buf'.length := by omega
          have acknowledged := whole.mpr ⟨status_eq_zero.mp taken, status_eq_zero.mp again, all⟩
          refine ⟨_, buf'.set (0 + more) (device last.transfers).data, finish done, ?_,
            .done acknowledged rfl, iff_of_true ⟨next, selected, status_eq_zero.mp taken,
              status_eq_zero.mp again, ?_, ?_⟩ acknowledged⟩
          · simp only [bind, Except.bind, not_true, ↓reduceIte, received, store, if_pos inside]
          · show done.transfers = next + 2 + (more + 1)
            omega
          · intro i below
            by_cases end_of : i = 0 + more
            · have behind : next + 2 + i = last.transfers := by omega
              rw [behind, end_of, List.getElem?_set_self inside]
            · have before := bytes i (by omega)
              rw [Nat.zero_add] at before
              rw [List.getElem?_set_ne (by omega), before]
        · have missing : ¬Acknowledged device bus (more + 1 + 1) :=
            fun all => some (whole.mp all).2.2
          refine ⟨1, buf', finish last, rfl, .failed next selected missing rfl,
            iff_of_false ?_ missing⟩
          rintro ⟨other, selected', _, _, total, _⟩
          have same := Addressed.unique selected selected'
          have after : (finish last).transfers = last.transfers := rfl
          omega
      · have missing : ¬Acknowledged device bus (more + 1 + 1) :=
          fun all => not_acked_of_failed failed (whole.mp all).2.1
        exact ⟨1, buf, finish opened, by rw [failed]; rfl, .failed next selected missing rfl,
          iff_of_false (unreceived _ _ fun both => not_acked_of_failed failed both.2) missing⟩
    · have missing : ¬Acknowledged device bus (more + 1 + 1) :=
        fun all => not_acked_of_failed failed (whole.mp all).1
      exact ⟨1, buf, finish bus'', by rw [failed]; rfl, .failed next selected missing rfl,
        iff_of_false (unreceived _ _ fun both => not_acked_of_failed failed both.1) missing⟩

/-- A length of 1 is also what a failure behind the addressing returns. -/
theorem told_iff {ret : Int} (positive : 1 ≤ len) (outcome : Outcome device bus len ret) :
    (ret = len ↔ Acknowledged device bus (len + 1)) ↔
      (len = 1 → ∀ next, Addressed device bus next →
        (device next).acked = true ∧ (device (next + 1)).acked = true) := by
  cases outcome with
  | done all length =>
    refine iff_of_true (iff_of_true length all) fun _ next selected => ?_
    have acked := (acknowledged_iff selected _).mp all
    exact ⟨acked 0 (by omega), acked 1 (by omega)⟩
  | silent unanswered other =>
    refine iff_of_true (iff_of_false (by omega) ?_) fun _ next selected => ?_
    · rintro ⟨next, selected, _⟩
      rw [Addressed, unanswered] at selected
      cases selected
    · rw [Addressed, unanswered] at selected
      cases selected
  | failed next selected some one =>
    rw [iff_false_right some, one]
    constructor
    · exact fun other single => absurd (by omega) other
    · intro acked same
      have single : len = 1 := by omega
      apply some
      rw [single, acknowledged_succ selected]
      obtain ⟨here, later⟩ := acked single next selected
      refine ⟨here, fun k below => ?_⟩
      rwa [Nat.lt_one_iff.mp below]

/-- Beyond a single byte the result tells failure from success; of a single byte it does where the
device is not addressed, and where it acknowledges the next two transfers. -/
theorem results_told_iff (device : Nat → Transfer) (bus : Bus) (addr : BitVec 8)
    (buf : List (BitVec 8)) (len : Nat) (positive : 1 ≤ len) (room : len ≤ buf.length) :
    (WriteTold device bus addr buf len ∧ ReadTold device bus addr buf len) ↔
      (len = 1 → ∀ next, Addressed device bus next →
        (device next).acked = true ∧ (device (next + 1)).acked = true) := by
  obtain ⟨ret, bus', wrote, outcome⟩ := writeArray_outcome device bus addr room
  obtain ⟨ret', buf', bus'', read, outcome', received⟩ :=
    readArray_outcome device bus addr positive room
  have write_told : WriteTold device bus addr buf len ↔
      (ret = len ↔ Acknowledged device bus (len + 1)) := by
    constructor
    · rintro ⟨other, last, run, told⟩
      rw [wrote] at run
      cases run
      exact told
    · exact fun told => ⟨ret, bus', wrote, told⟩
  have read_told : ReadTold device bus addr buf len ↔
      (ret' = len ↔ Acknowledged device bus (len + 1)) := by
    rw [← received]
    constructor
    · rintro ⟨other, stored, last, run, told⟩
      rw [read] at run
      cases run
      exact told
    · exact fun told => ⟨ret', buf', bus'', read, told⟩
  rw [write_told, read_told, told_iff positive outcome, told_iff positive outcome', and_self]

/-- The device acknowledges its address and nothing else. -/
def deaf (n : Nat) : Transfer := ⟨n == 0, 0⟩

def reset : Bus := ⟨0, 0, 0, 0⟩

theorem results_told_two :
    WriteTold deaf reset 0 [0x41, 0x42] 2 ∧ ReadTold deaf reset 0 [0x41, 0x42] 2 :=
  (results_told_iff deaf reset 0 [0x41, 0x42] 2 (by decide) (by decide)).mpr
    fun single => absurd single (by decide)

/-- One byte that the device does not take is reported as written. -/
theorem single_byte_untold : ¬WriteTold deaf reset 0 [0x41] 1 := by
  rintro ⟨ret, bus, ran, told⟩
  have returned : (i2cWriteArray deaf 0 [0x41] 1 reset).map Prod.fst = .ok 1 := rfl
  have ran' : i2cWriteArray deaf 0 [0x41] 1 reset = .ok (ret, bus) := ran
  rw [ran'] at returned
  obtain ⟨next, selected, all⟩ := told.mp (Except.ok.inj returned)
  have first : Addressed deaf reset 1 := rfl
  have refused : (deaf 1).acked = false := rfl
  rw [Addressed.unique first selected] at all
  exact absurd (all 0 (by decide)) (by rw [refused]; decide)

end Results

end Ct.S5pv210.I2c
