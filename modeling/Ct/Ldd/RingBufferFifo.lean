import Ct.Ldd.RingBufferSteps

set_option autoImplicit false

namespace Ct.Ldd.RingBuffer

open Ct.Lib

/-- The state of the device is that of a bounded queue with this history. -/
structure Represents (state : State) (ledger : Ledger UInt8 (memsize - 1)) : Prop where
  inserted : ledger.inserted = state.inserted.map Prod.snd
  extracted : ledger.extracted = state.extracted.map Prod.snd
  items : ledger.items = unread state.dev

/-- Exactly the call that holds the semaphore stands in its critical section. -/
structure Owned (state : State) (owner : Option Nat) : Prop where
  count : state.dev.sem = if owner = none then 1 else 0
  holds : ∀ id, owner = some id ↔ ∃ call, state.calls id = some call ∧ call.Holds

structure Inv (state : State) : Prop where
  valid : state.dev.Valid
  queue : ∃ ledger, Represents state ledger
  lock : ∃ owner, Owned state owner
  sound : ∀ id call, state.calls id = some call →
    call.Sound (movedBy id state.inserted) (movedBy id state.extracted)
  fits : ∀ id call, state.calls id = some call → call.Fits state.dev
  fresh : ∀ id, state.calls id = none →
    movedBy id state.inserted = [] ∧ movedBy id state.extracted = []

theorem start_inv (mem : Vector UInt8 memsize) : Inv (State.start mem) where
  valid := rbInit_valid mem
  queue := ⟨Ledger.empty, rfl, rfl, (unread_rbInit mem).symm⟩
  lock := by
    refine ⟨none, rfl, fun id => ⟨fun absurd => ?_, ?_⟩⟩
    · cases absurd
    · rintro ⟨_, absent, _⟩
      cases absent
  sound := fun _ _ absent => by cases absent
  fits := fun _ _ absent => by cases absent
  fresh := fun _ _ => ⟨rfl, rfl⟩

theorem setCall_same (state : State) (id : Nat) (call : Call) :
    (state.setCall id call).calls id = some call := by
  simp [State.setCall]

theorem setCall_other (state : State) (id other : Nat) (call : Call) (apart : other ≠ id) :
    (state.setCall id call).calls other = state.calls other := by
  simp [State.setCall, apart]

theorem rbReadEntry_sound (kmallocMax size : Nat) (alloc : Bool) (limit : kmallocMax < 2 ^ 31)
    (may : kmallocMay kmallocMax size alloc = true) : (rbReadEntry size alloc).Sound [] [] := by
  simp only [kmallocMay, Bool.or_eq_true, Bool.not_eq_true', decide_eq_true_eq] at may
  unfold rbReadEntry
  split
  · exact ⟨rfl, rfl, Nat.zero_le _, Or.inl (by decide)⟩
  · split
    · exact ⟨rfl, rfl, Nat.zero_le _, Or.inl (by decide)⟩
    · rename_i given
      simp only [Bool.not_eq_true', Bool.not_eq_false] at given
      refine ⟨rfl, rfl, Nat.zero_le _, ?_⟩
      change size < 2 ^ 31
      simp only [given, Bool.true_eq_false, false_or] at may
      omega

theorem rbWriteEntry_sound (kmallocMax : Nat) (user : List UInt8) (alloc fault : Bool)
    (limit : kmallocMax < 2 ^ 31) (may : kmallocMay kmallocMax user.length alloc = true) :
    (rbWriteEntry user alloc fault).Sound [] [] := by
  simp only [kmallocMay, Bool.or_eq_true, Bool.not_eq_true', decide_eq_true_eq] at may
  unfold rbWriteEntry
  split
  · exact ⟨rfl, rfl, rfl, Int.le_refl _, Int.natCast_nonneg _, Or.inl (by decide)⟩
  · split
    · exact ⟨rfl, rfl, rfl, Int.le_refl _, Int.natCast_nonneg _, Or.inl (by decide)⟩
    · rename_i given
      split
      · exact ⟨rfl, rfl, rfl, Int.le_refl _, Int.natCast_nonneg _, Or.inl (by decide)⟩
      · simp only [Bool.not_eq_true', Bool.not_eq_false] at given
        refine ⟨rfl, rfl, rfl, Int.le_refl _, Int.natCast_nonneg _, ?_⟩
        change user.length < 2 ^ 31
        simp only [given, Bool.true_eq_false, false_or] at may
        omega

theorem rbReadEntry_not_holds (size : Nat) (alloc : Bool) :
    ¬ (Call.read (rbReadEntry size alloc)).Holds := by
  unfold rbReadEntry
  split_ifs <;> simp [Call.Holds]

theorem rbWriteEntry_not_holds (user : List UInt8) (alloc fault : Bool) :
    ¬ (Call.write (rbWriteEntry user alloc fault)).Holds := by
  unfold rbWriteEntry
  split_ifs <;> simp [Call.Holds]

/-- A property of all calls after `setCall` is one of the new call and of the others. -/
theorem forall_setCall {state : State} {id : Nat} {call : Call} {property : Nat → Call → Prop}
    (self : property id call)
    (others : ∀ other found, other ≠ id → state.calls other = some found → property other found) :
    ∀ other found, (state.setCall id call).calls other = some found → property other found := by
  intro other found present
  by_cases same : other = id
  · subst same
    rw [setCall_same] at present
    cases present
    exact self
  · rw [setCall_other _ _ _ _ same] at present
    exact others other found same present

/-- A new call that has moved nothing and holds nothing changes nothing for the others. -/
theorem Inv.setCall {state : State} {id : Nat} {call : Call} (inv : Inv state)
    (absent : state.calls id = none) (sound : call.Sound [] []) (outside : ¬ call.Holds) :
    Inv (state.setCall id call) where
  valid := inv.valid
  queue := by
    obtain ⟨ledger, represents⟩ := inv.queue
    exact ⟨ledger, represents.inserted, represents.extracted, represents.items⟩
  lock := by
    obtain ⟨owner, count, holds⟩ := inv.lock
    refine ⟨owner, count, fun other => ?_⟩
    rw [holds]
    by_cases same : other = id
    · subst same
      rw [setCall_same, absent]
      constructor
      · rintro ⟨_, impossible, _⟩
        cases impossible
      · rintro ⟨_, present, inside⟩
        cases present
        exact absurd inside outside
    · rw [setCall_other _ _ _ _ same]
  sound := by
    apply forall_setCall
    · obtain ⟨ins, ext⟩ := inv.fresh id absent
      change call.Sound (movedBy id state.inserted) (movedBy id state.extracted)
      rw [ins, ext]
      exact sound
    · exact fun other found _ present => inv.sound other found present
  fits := by
    apply forall_setCall
    · exact Call.fits_of_not_holds outside
    · exact fun other found _ present => inv.fits other found present
  fresh := by
    intro other missing
    by_cases same : other = id
    · subst same
      rw [setCall_same] at missing
      cases missing
    · rw [setCall_other _ _ _ _ same] at missing
      exact inv.fresh other missing

/-- One step of a call is one step of the queue the device implements. -/
theorem Represents.perform {state : State} {ledger : Ledger UInt8 (memsize - 1)} {id : Nat}
    {effect : Effect} (represents : Represents state ledger) (valid : state.dev.Valid)
    (allowed : effect.Allowed state.dev) :
    ∃ next, Ledger.Step ledger next ∧ Represents (state.perform id effect) next := by
  have items := represents.items
  cases effect with
  | quiet | down | up =>
    refine ⟨ledger, .stay ledger, ?_, ?_, items⟩
    · simpa [State.perform, Effect.inserts] using represents.inserted
    · simpa [State.perform, Effect.extracts] using represents.extracted
  | take =>
    have front : ledger.items = state.dev.nextByte :: unread state.dev.take := by
      rw [items, valid.unread_take allowed]
    refine ⟨ledger.extract _ _ front, .extract ledger _ _ front, ?_, ?_, rfl⟩
    · simp [State.perform, Effect.inserts, Ledger.extract, represents.inserted]
    · simp [State.perform, Effect.extracts, Ledger.extract, represents.extracted]
  | put byte =>
    have room : ledger.items.length < memsize - 1 := by
      rw [items, length_unread]
      exact allowed
    refine ⟨ledger.insert byte room, .insert ledger byte room, ?_, ?_, ?_⟩
    · simp [State.perform, Effect.inserts, Ledger.insert, represents.inserted]
    · simp [State.perform, Effect.extracts, Ledger.insert, represents.extracted]
    · change ledger.items ++ [byte] = unread (state.dev.put byte)
      rw [items, valid.unread_put byte allowed]

/-- The count of the semaphore follows the call that holds it. -/
theorem Owned.perform {state : State} {owner : Option Nat} {id : Nat} {effect : Effect}
    {call next : Call} (owned : Owned state owner) (present : state.calls id = some call)
    (allowed : effect.Allowed state.dev) (locks : effect.Locks call.Holds next.Holds) :
    ∃ after, Owned ((state.perform id effect).setCall id next) after := by
  have self : owner = some id ↔ call.Holds := by
    rw [owned.holds, present]
    exact ⟨fun ⟨_, same, inside⟩ => Option.some.inj same ▸ inside, fun inside => ⟨call, rfl, inside⟩⟩
  have transfer : ∀ after : Option Nat, (after = some id ↔ next.Holds) →
      (∀ other, other ≠ id → (after = some other ↔ owner = some other)) →
      ∀ other, after = some other ↔
        ∃ found, ((state.perform id effect).setCall id next).calls other = some found ∧
          found.Holds := by
    intro after new old other
    by_cases same : other = id
    · subst same
      rw [setCall_same, new]
      exact ⟨fun inside => ⟨next, rfl, inside⟩, fun ⟨_, found, inside⟩ =>
        Option.some.inj found ▸ inside⟩
    · rw [setCall_other _ _ _ _ same, old other same, owned.holds]
      rfl
  have count := owned.count
  cases effect with
  | quiet =>
    exact ⟨owner, count, transfer owner (self.trans locks) (fun _ _ => Iff.rfl)⟩
  | take | put byte =>
    exact ⟨owner, count, transfer owner (iff_of_true (self.mpr locks.1) locks.2)
      (fun _ _ => Iff.rfl)⟩
  | down =>
    have free : owner = none := by
      by_contra taken
      rw [if_neg taken] at count
      change 0 < state.dev.sem at allowed
      omega
    subst free
    refine ⟨some id, ?_, transfer _ (iff_of_true rfl locks.2) ?_⟩
    · change state.dev.sem - 1 = 0
      rw [count]
      rfl
    · intro other apart
      simp [Ne.symm apart]
  | up =>
    have mine : owner = some id := self.mpr locks.1
    subst mine
    refine ⟨none, ?_, transfer _ (iff_of_false (by simp) locks.2) ?_⟩
    · change state.dev.sem + 1 = 1
      rw [count]
      rfl
    · intro other apart
      simp [Ne.symm apart]

theorem Inv.perform {state : State} {id : Nat} {fails : Bool} {effect : Effect} {call next : Call}
    (inv : Inv state) (present : state.calls id = some call)
    (taken : call.step state.dev fails = some (effect, next)) :
    Inv ((state.perform id effect).setCall id next) := by
  have sound := inv.sound id call present
  have allowed := Call.step_allowed taken (inv.fits id call present)
  have locks := Call.step_locks taken
  obtain ⟨owner, owned⟩ := inv.lock
  have movedOther : ∀ other, other ≠ id →
      movedBy other (state.perform id effect).inserted = movedBy other state.inserted ∧
      movedBy other (state.perform id effect).extracted = movedBy other state.extracted := by
    intro other apart
    simp [State.perform, movedBy_append, apart]
  refine ⟨inv.valid.perform effect, ?_, owned.perform present allowed locks, ?_, ?_, ?_⟩
  · obtain ⟨ledger, represents⟩ := inv.queue
    obtain ⟨after, _, kept⟩ := represents.perform inv.valid allowed
    exact ⟨after, kept.inserted, kept.extracted, kept.items⟩
  · apply forall_setCall
    · have kept := Call.step_sound taken inv.valid sound
      change next.Sound (movedBy id (state.perform id effect).inserted)
        (movedBy id (state.perform id effect).extracted)
      simpa only [State.perform, movedBy_append, ↓reduceIte] using kept
    · intro other found apart old
      have kept := inv.sound other found old
      rw [← (movedOther other apart).1, ← (movedOther other apart).2] at kept
      exact kept
  · apply forall_setCall
    · exact Call.step_fits taken inv.valid sound (inv.fits id call present)
    · intro other found apart old
      refine Call.fits_perform (inv.fits other found old) (fun moves inside => ?_)
      -- whoever moves a position holds the semaphore, and only one call does
      have mover : call.Holds := by
        cases effect with
        | take | put byte => exact locks.1
        | quiet | down | up => exact moves.elim
      have one := (owned.holds id).mpr ⟨call, present, mover⟩
      have two := (owned.holds other).mpr ⟨found, old, inside⟩
      rw [one] at two
      exact apart (Option.some.inj two).symm
  · intro other missing
    by_cases same : other = id
    · subst same
      rw [setCall_same] at missing
      cases missing
    · rw [setCall_other _ _ _ _ same] at missing
      obtain ⟨ins, ext⟩ := inv.fresh other missing
      exact ⟨(movedOther other same).1.trans ins, (movedOther other same).2.trans ext⟩

theorem step_inv {kmallocMax : Nat} (limit : kmallocMax < 2 ^ 31) {state next : State}
    {action : Action} (inv : Inv state) (taken : step kmallocMax state action = some next) :
    Inv next := by
  rcases step_cases taken with ⟨id, size, alloc, _, absent, may, rfl⟩ |
    ⟨id, user, alloc, fault, _, absent, may, rfl⟩ |
    ⟨id, fails, call, effect, call', _, present, moved, rfl⟩
  · exact inv.setCall absent (rbReadEntry_sound kmallocMax size alloc limit may)
      (rbReadEntry_not_holds size alloc)
  · exact inv.setCall absent (rbWriteEntry_sound kmallocMax user alloc fault limit may)
      (rbWriteEntry_not_holds user alloc fault)
  · exact inv.perform present moved

theorem run_inv {kmallocMax : Nat} (limit : kmallocMax < 2 ^ 31) {mem : Vector UInt8 memsize}
    {actions : List Action} {state : State}
    (run : (device kmallocMax).exec (State.start mem) actions = some state) : Inv state :=
  Machine.exec_invariant Inv (fun _ _ _ inv taken => step_inv limit inv taken) (start_inv mem) run

/-- The unread cells of `before` hold the same bytes in `after`. -/
def UnreadKept (before after : Rb) : Prop :=
  ∀ k, k < (unread before).length →
    cellAt after.mem ((before.readPos + 1).toNat + k) =
      cellAt before.mem ((before.readPos + 1).toNat + k)

theorem Inv.unreadKept {kmallocMax : Nat} {state next : State} {action : Action}
    (inv : Inv state) (taken : step kmallocMax state action = some next) :
    UnreadKept state.dev next.dev := by
  rcases step_cases taken with ⟨_, _, _, _, _, _, rfl⟩ | ⟨_, _, _, _, _, _, _, rfl⟩ |
    ⟨id, fails, call, effect, call', _, present, moved, rfl⟩
  · exact fun _ _ => rfl
  · exact fun _ _ => rfl
  · have allowed := Call.step_allowed moved (inv.fits id call present)
    intro k below
    rw [length_unread] at below
    cases effect with
    | quiet | down | up | take => rfl
    | put byte => exact inv.valid.put_unread_cell byte allowed k below

/-- What the ring is for: a queue of `MEMSIZE - 1` bytes that keeps their order. -/
structure BoundedFifo (state : State) : Prop where
  readPos_mem : 0 ≤ state.dev.readPos ∧ state.dev.readPos < memsize
  writePos_mem : 0 ≤ state.dev.writePos ∧ state.dev.writePos < memsize
  stream : state.inserted.map Prod.snd = state.extracted.map Prod.snd ++ unread state.dev
  capacity : (unread state.dev).length ≤ memsize - 1
  used : bufferUsed state.dev = (unread state.dev).length
  empty : isEmpty state.dev = true ↔ bufferUsed state.dev = 0
  filled : isFilled state.dev = true ↔ bufferUsed state.dev = memsize - 1
  written : ∀ id call, state.calls id = some (.write call) → call.pc = .done call.size →
    movedBy id state.inserted = call.buffer

theorem Inv.boundedFifo {state : State} (inv : Inv state) : BoundedFifo state := by
  have valid := inv.valid
  obtain ⟨ledger, represents⟩ := inv.queue
  refine ⟨⟨valid.readPos_nonneg, valid.readPos_lt⟩, ⟨valid.writePos_nonneg, valid.writePos_lt⟩,
    ?_, ?_, ?_, ?_, ?_, ?_⟩
  · rw [← represents.inserted, ← represents.extracted, ← represents.items]
    exact ledger.balance
  · rw [← represents.items]
    exact ledger.bounded
  · rw [valid.bufferUsed_eq, length_unread]
  · rw [valid.bufferUsed_eq]
    exact valid.isEmpty_iff
  · rw [valid.bufferUsed_eq]
    exact valid.isFilled_iff
  · intro id call present returned
    have sound := inv.sound id _ present
    have stage := sound.stage
    rw [returned] at stage
    rcases stage with negative | ⟨_, complete⟩
    · exact absurd negative (by omega)
    · rw [sound.moved, complete, sound.size_eq, Int.toNat_natCast, List.take_length]

/-- Whatever calls are made and however their steps interleave, the device stays a bounded
queue, and no step touches a byte that is still to be read. -/
theorem ring_bounded_fifo (kmallocMax : Nat) (limit : kmallocMax < 2 ^ 31)
    (mem : Vector UInt8 memsize) (actions : List Action) (state : State)
    (run : (device kmallocMax).exec (State.start mem) actions = some state) :
    BoundedFifo state ∧
      ∀ action next, (device kmallocMax).step state action = some next →
        UnreadKept state.dev next.dev := by
  have inv := run_inv limit run
  exact ⟨inv.boundedFifo, fun _ _ taken => inv.unreadKept taken⟩

/-- A write of one byte on the fresh device, interrupted nowhere. -/
theorem ring_bounded_fifo_write :
    ∃ state, (device 4194304).exec (State.start (Vector.replicate memsize 0))
        (.callWrite 0 [7] true false :: List.replicate 5 (.run 0 false)) = some state ∧
      BoundedFifo state ∧ movedBy 0 state.inserted = [7] := by
  have ends : ((device 4194304).exec (State.start (Vector.replicate memsize 0))
      (.callWrite 0 [7] true false :: List.replicate 5 (.run 0 false))).isSome := rfl
  refine ⟨_, (Option.some_get ends).symm, ?_, rfl⟩
  exact (ring_bounded_fifo 4194304 (by decide) (Vector.replicate memsize 0) _ _
    (Option.some_get ends).symm).1

end Ct.Ldd.RingBuffer
