import Ct.S5pv210.Timer

set_option autoImplicit false

namespace Ct.S5pv210.Timer

open Ct.Lib

theorem sn_lt (t : TimerSn) : t.sn < 5 := by
  cases t <;> decide

theorem sn_inj {t u : TimerSn} (same : t.sn = u.sn) : t = u := by
  cases t <;> cases u <;> first | rfl | (revert same; decide)

theorem irqInit_timerint (t : TimerSn) : irqInit (timerint t) = [.regionWrite t.sn 0x1] := by
  cases t <;> rfl

theorem irqClearPending_timerint (t : TimerSn) :
    irqClearPending (timerint t) = [.set2clear (5 + t.sn), .regionWrite t.sn 0x1] := by
  cases t <;> rfl

theorem masks : ∀ i < 10, (0x1f : BitVec 32).getLsbD i = decide (i < 5) ∧
    (0x3e0 : BitVec 32).getLsbD i = decide (5 ≤ i) := by
  decide

theorem enabled_write (reg value : BitVec 32) (t : TimerSn) :
    enabled (writeTintCstat reg value) t = value.getLsbD t.sn := by
  have low := sn_lt t
  have ⟨first, second⟩ := masks t.sn (by omega)
  rw [enabled, writeTintCstat, BitVec.getLsbD_or, BitVec.getLsbD_and, BitVec.getLsbD_and, first,
    second]
  simp [low, Nat.not_le.mpr low]

theorem pending_write (reg value : BitVec 32) (t : TimerSn) :
    pending (writeTintCstat reg value) t = (pending reg t && !value.getLsbD (t.sn + 5)) := by
  have low := sn_lt t
  have ⟨first, second⟩ := masks (t.sn + 5) (by omega)
  have inside : t.sn + 5 < 32 := by omega
  have high : ¬ t.sn + 5 < 5 := by omega
  rw [pending, writeTintCstat, BitVec.getLsbD_or, BitVec.getLsbD_and, BitVec.getLsbD_and,
    BitVec.getLsbD_and, BitVec.getLsbD_not, first, second]
  simp [pending, inside, high]

theorem raise_bit (t : TimerSn) : ∀ i < 32, ((0x20 : BitVec 32) <<< t.sn).getLsbD i =
    decide (i = t.sn + 5) := by
  cases t <;> decide

theorem enabled_raise (reg : BitVec 32) (t u : TimerSn) :
    enabled (reg ||| ((0x20 : BitVec 32) <<< t.sn)) u = enabled reg u := by
  have low := sn_lt u
  have bit := raise_bit t u.sn (by omega)
  have other : u.sn ≠ t.sn + 5 := by omega
  rw [enabled, BitVec.getLsbD_or, bit]
  simp [enabled, other]

theorem pending_raise (reg : BitVec 32) (t u : TimerSn) (flag : pending reg u = true) :
    pending (reg ||| ((0x20 : BitVec 32) <<< t.sn)) u = true := by
  unfold pending at flag ⊢
  rw [BitVec.getLsbD_or, flag, Bool.true_or]

/-- The access is to the bits of this timer. -/
def Access.On (t : TimerSn) : Access → Prop
  | .regionWrite index _ => index = t.sn
  | .set2clear index => index = t.sn + 5
  | .poll index => index = t.sn + 5

theorem call_accesses_on (t : TimerSn) (call : Call) : ∀ a ∈ call.accesses t, a.On t := by
  cases call with
  | irqInit =>
    rw [Call.accesses, irqInit_timerint]
    simp [Access.On]
  | irqClearPending =>
    rw [Call.accesses, irqClearPending_timerint]
    simp [Access.On, Nat.add_comm]
  | timerIrqToggle enable => simp [Call.accesses, timerIrqToggle, Access.On]
  | timerIrqClear => simp [Call.accesses, timerIrqClear, Access.On]
  | timerSpinDelay =>
    simp [Call.accesses, timerSpinDelay, timerInit, timerIrqToggle, timerIrqClear, Access.On]

/-- The accesses of a call are to its own bits; a value that is about to be written back has the
enable bits of the register, and no flag that has not been set. -/
structure Inv (s : State) : Prop where
  own : ∀ a ∈ s.left, a.On s.timer
  midway : ∀ reg, s.reg = some reg → ∃ index val rest, s.left = .regionWrite index val :: rest
  enables : ∀ reg, s.reg = some reg → ∀ u, enabled reg u = enabled s.tintCstat u
  flags : ∀ reg, s.reg = some reg → ∀ u, pending reg u = true → pending s.tintCstat u = true

theorem idle_inv (tintCstat : BitVec 32) : Inv (idle tintCstat) where
  own := by simp [idle]
  midway := by simp [idle]
  enables := by simp [idle]
  flags := by simp [idle]

/-- What the next access can be, and what it leaves. -/
theorem access_cases {s next : State} (taken : access s = some next) :
    (∃ index val rest, s.left = .regionWrite index val :: rest ∧ s.reg = none ∧
      next = { s with reg := some s.tintCstat }) ∨
    (∃ index val rest reg, s.left = .regionWrite index val :: rest ∧ s.reg = some reg ∧
      next = { s with
        tintCstat := writeTintCstat s.tintCstat (regionWrite reg 0x1 index val)
        left := rest
        reg := none }) ∨
    (∃ index rest, s.left = .set2clear index :: rest ∧
      next = { s with
        tintCstat := writeTintCstat s.tintCstat (set2clear 0x1 index), left := rest }) ∨
    (∃ index rest, s.left = .poll index :: rest ∧
      (next = s ∨ next = { s with left := rest })) := by
  unfold access at taken
  split at taken
  · cases taken
  · rename_i index val rest here
    split at taken
    · rename_i unread
      exact Or.inl ⟨index, val, rest, here, unread, (Option.some.inj taken).symm⟩
    · rename_i reg read
      exact Or.inr (Or.inl ⟨index, val, rest, reg, here, read, (Option.some.inj taken).symm⟩)
  · rename_i index rest here
    exact Or.inr (Or.inr (Or.inl ⟨index, rest, here, (Option.some.inj taken).symm⟩))
  · rename_i index rest here
    refine Or.inr (Or.inr (Or.inr ⟨index, rest, here, ?_⟩))
    split at taken
    · exact Or.inl (Option.some.inj taken).symm
    · exact Or.inr (Option.some.inj taken).symm

theorem Inv.unread {s : State} (inv : Inv s)
    (other : ∀ index val rest, s.left ≠ .regionWrite index val :: rest) : s.reg = none := by
  cases read : s.reg with
  | none => rfl
  | some reg =>
    obtain ⟨index, val, rest, here⟩ := inv.midway reg read
    exact absurd here (other index val rest)

theorem Inv.access {s next : State} (inv : Inv s) (taken : access s = some next) : Inv next := by
  have own : ∀ a rest, s.left = a :: rest → ∀ b ∈ rest, b.On s.timer := by
    intro a rest here b member
    apply inv.own
    rw [here]
    exact List.mem_cons_of_mem a member
  rcases access_cases taken with ⟨index, val, rest, here, _, rfl⟩ |
    ⟨index, val, rest, reg, here, _, rfl⟩ | ⟨index, rest, here, rfl⟩ | ⟨index, rest, here, rfl | rfl⟩
  · refine ⟨inv.own, fun _ _ => ⟨index, val, rest, here⟩, ?_, ?_⟩
    · intro reg read u
      cases read
      rfl
    · intro reg read u flag
      cases read
      exact flag
  · exact ⟨own _ rest here, by simp, by simp, by simp⟩
  · have unread := inv.unread (by simp [here])
    exact ⟨own _ rest here, by simp [unread], by simp [unread], by simp [unread]⟩
  · exact inv
  · have unread := inv.unread (by simp [here])
    exact ⟨own _ rest here, by simp [unread], by simp [unread], by simp [unread]⟩

theorem Inv.step (s : State) (action : Action) (next : State) (inv : Inv s)
    (taken : timers.step s action = some next) : Inv next := by
  cases action with
  | raise t =>
    cases taken
    refine ⟨inv.own, inv.midway, ?_, ?_⟩
    · intro reg read u
      rw [enabled_raise]
      exact inv.enables reg read u
    · intro reg read u flag
      exact pending_raise _ t u (inv.flags reg read u flag)
  | call t call =>
    simp only [timers] at taken
    split at taken
    · rename_i free
      cases taken
      have unread := inv.unread (by simp [List.isEmpty_iff.mp free])
      exact ⟨call_accesses_on t call, by simp [unread], by simp [unread], by simp [unread]⟩
    · cases taken
  | access => exact inv.access taken

/-- A step of a call leaves the enable bits of the other timers, and clears none of their
flags. -/
def Spares (s : State) : Action → Prop
  | .access => ∀ next, access s = some next → ∀ u, u ≠ s.timer →
      enabled next.tintCstat u = enabled s.tintCstat u ∧
        (pending s.tintCstat u = true → pending next.tintCstat u = true)
  | _ => True

/-- A value that is written back holds no flag of another timer, and no other timer is enabled
when a flag is cleared. -/
def Quiet (s : State) : Action → Prop
  | .access =>
    match s.left, s.reg with
    | .regionWrite _ _ :: _, some reg => ∀ u, u ≠ s.timer → pending reg u = false
    | .set2clear _ :: _, _ => ∀ u, u ≠ s.timer → enabled s.tintCstat u = false
    | _, _ => True
  | _ => True

section Access

variable {s : State} {index : Nat} {rest : List Access}

theorem spares_iff {next : State} (taken : access s = some next) :
    Spares s .access ↔ ∀ u, u ≠ s.timer →
      enabled next.tintCstat u = enabled s.tintCstat u ∧
        (pending s.tintCstat u = true → pending next.tintCstat u = true) := by
  constructor
  · exact fun spares => spares next taken
  · intro spared other same
    rw [taken] at same
    cases same
    exact spared

theorem spares_regionWrite (inv : Inv s) {val reg : BitVec 32}
    (here : s.left = .regionWrite index val :: rest) (read : s.reg = some reg) :
    Spares s .access ↔ ∀ u, u ≠ s.timer → pending reg u = false := by
  have own : index = s.timer.sn := inv.own (.regionWrite index val) (by simp [here])
  have low := sn_lt s.timer
  have taken : access s = some { s with
      tintCstat := writeTintCstat s.tintCstat (regionWrite reg 0x1 index val)
      left := rest
      reg := none } := by
    simp only [access, here, read]
  rw [spares_iff taken]
  apply forall_congr'
  intro u
  apply imp_congr_right
  intro other
  have apart : u.sn ≠ index := by
    rw [own]
    exact fun same => other (sn_inj same)
  have above : u.sn + 5 ≠ index := by omega
  have enable := regionWrite_bit (show index < 32 by omega) reg val u.sn
  have flag := regionWrite_bit (show index < 32 by omega) reg val (u.sn + 5)
  rw [if_neg apart] at enable
  rw [if_neg above] at flag
  -- the enable bits are written back as they are, a flag is written back as a 1
  have same := inv.enables reg read u
  have seen := inv.flags reg read u
  rw [enabled_write, pending_write, enable, flag]
  show enabled reg u = enabled s.tintCstat u ∧
    (pending s.tintCstat u = true → (pending s.tintCstat u && !pending reg u) = true) ↔
      pending reg u = false
  cases flagged : pending reg u with
  | true => simp [seen flagged]
  | false => simp [same]

theorem spares_set2clear (inv : Inv s) (here : s.left = .set2clear index :: rest) :
    Spares s .access ↔ ∀ u, u ≠ s.timer → enabled s.tintCstat u = false := by
  have own : index = s.timer.sn + 5 := inv.own (.set2clear index) (by simp [here])
  have low := sn_lt s.timer
  have taken : access s = some { s with
      tintCstat := writeTintCstat s.tintCstat (set2clear 0x1 index), left := rest } := by
    simp only [access, here]
  rw [spares_iff taken]
  apply forall_congr'
  intro u
  apply imp_congr_right
  intro other
  have lowU := sn_lt u
  have apart : u.sn ≠ index := by omega
  have above : u.sn + 5 ≠ index := by
    intro same
    exact other (sn_inj (by omega))
  have enable := set2clear_bit (show index < 32 by omega) u.sn
  have flag := set2clear_bit (show index < 32 by omega) (u.sn + 5)
  -- every enable bit is written as a 0
  simp only [enabled_write, pending_write, enable, flag, apart, above, decide_false, Bool.not_false,
    Bool.and_true, imp_self, and_true]
  exact eq_comm

end Access

theorem spares_iff_quiet (s : State) (action : Action) (inv : Inv s) :
    Spares s action ↔ Quiet s action := by
  cases action with
  | raise t => exact Iff.rfl
  | call t call => exact Iff.rfl
  | access =>
    cases here : s.left with
    | nil =>
      have stuck : access s = none := by simp only [access, here]
      simp [Spares, Quiet, here, stuck]
    | cons a rest =>
      cases a with
      | regionWrite index val =>
        cases read : s.reg with
        | none =>
          have taken : access s = some { s with reg := some s.tintCstat } := by
            simp only [access, here, read]
          rw [spares_iff taken]
          simp [Quiet, here, read]
        | some reg =>
          rw [spares_regionWrite inv here read]
          simp only [Quiet, here, read]
      | set2clear index =>
        rw [spares_set2clear inv here]
        simp only [Quiet, here]
      | poll index =>
        have kept : ∀ next, access s = some next → next.tintCstat = s.tintCstat := by
          intro next taken
          simp only [access, here, Option.some.injEq] at taken
          rw [← taken]
          split <;> rfl
        constructor
        · intro _
          simp only [Quiet, here]
        · intro _ next taken u _
          rw [kept next taken]
          exact ⟨rfl, id⟩

/-- In every run, from any value of the register, the calls leave the other timers alone exactly
as long as each of their writes is quiet. -/
theorem calls_spare_iff (tintCstat : BitVec 32) (actions : List Action) :
    timers.EveryStep Spares (idle tintCstat) actions ↔
      timers.EveryStep Quiet (idle tintCstat) actions :=
  Machine.every_congr Inv Inv.step spares_iff_quiet (idle_inv tintCstat) actions

/-- The interrupt of one timer is set up, then the flag of another one is cleared. -/
def initThenClear : List Action :=
  [.call .timer1 .irqInit, .access, .access, .call .timer0 .timerIrqClear, .access]

/-- After that the first timer is no longer enabled. -/
theorem clear_disables_other :
    (∃ before, timers.exec (idle 0) (initThenClear.take 3) = some before ∧
      enabled before.tintCstat .timer1 = true) ∧
    (∃ after, timers.exec (idle 0) initThenClear = some after ∧
      enabled after.tintCstat .timer1 = false) ∧
    ¬ timers.EveryStep Spares (idle 0) initThenClear := by
  refine ⟨⟨_, rfl, by decide⟩, ⟨_, rfl, by decide⟩, fun every => ?_⟩
  obtain ⟨spares, -⟩ := (((every.2 _ rfl).2 _ rfl).2 _ rfl).2 _ rfl
  have same := (spares _ rfl .timer1 (by decide)).1
  revert same
  decide

end Ct.S5pv210.Timer
