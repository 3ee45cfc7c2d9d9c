import Ct.Ldd.RingBufferFifo

set_option autoImplicit false

namespace Ct.Ldd.RingBuffer

open Ct.Lib

/-- What the call returned to its caller, once it has returned. -/
def Call.returned : Call → Option Int
  | .read call => match call.pc with
    | .done ret => some ret
    | _ => none
  | .write call => match call.pc with
    | .done ret => some ret
    | _ => none

/-- `buffer_pos`: the bytes the call has moved so far. -/
def Call.bufferPos : Call → Nat
  | .read call => call.buffer.length
  | .write call => call.bufferPos.toNat

/-- The call is about to do something whose failure makes it return `-ERESTARTSYS`. -/
def Call.AtExit : Call → Prop
  | .read call => (call.pc = .loop ∧ call.buffer.length < call.size) ∨ call.pc = .copyOut
  | .write call => (call.pc = .loop ∧ toSize call.bufferPos < call.size) ∨ call.pc = .waiting

/-- A call that returned a negative value has neither inserted nor extracted a byte. -/
def Intact (state : State) : Prop :=
  ∀ id call ret, state.calls id = some call → call.returned = some ret → ret < 0 →
    movedBy id state.inserted = [] ∧ movedBy id state.extracted = []

/-- The step fails no call that has already moved a byte. -/
def FailsEarly (state : State) (action : Action) : Prop :=
  ∀ id call, action = .run id true → state.calls id = some call → call.AtExit →
    call.bufferPos = 0

theorem Call.step_of_returned {dev : Rb} {call : Call} {ret : Int} (fails : Bool)
    (returned : call.returned = some ret) : call.step dev fails = none := by
  cases call with
  | read call =>
    cases stands : call.pc <;> simp_all [Call.returned, Call.step, rbReadStep]
  | write call =>
    cases stands : call.pc <;> simp_all [Call.returned, Call.step, rbWriteStep]

theorem Call.moved_eq_nil_iff {call : Call} {inserted extracted : List UInt8}
    (sound : call.Sound inserted extracted) :
    (inserted = [] ∧ extracted = []) ↔ call.bufferPos = 0 := by
  cases call with
  | read call =>
    rw [sound.silent, sound.moved]
    exact (and_iff_right rfl).trans List.length_eq_zero_iff.symm
  | write call =>
    have lower := sound.pos_nonneg
    have upper := sound.pos_le
    have length := sound.size_eq
    rw [sound.silent, sound.moved, and_iff_left rfl, List.take_eq_nil_iff]
    change _ ↔ call.bufferPos.toNat = 0
    constructor
    · rintro (none | none)
      · exact none
      · rw [none, List.length_nil] at length
        omega
    · exact Or.inl

/-- A call that a step makes return a negative value stood at an exit, and its operation
failed. -/
theorem Call.step_negative {dev : Rb} {fails : Bool} {effect : Effect} {call next : Call}
    {inserted extracted : List UInt8} {ret : Int}
    (taken : call.step dev fails = some (effect, next)) (sound : call.Sound inserted extracted)
    (returned : next.returned = some ret) (negative : ret < 0) :
    fails = true ∧ call.AtExit ∧ next.bufferPos = call.bufferPos := by
  rcases Call.step_cases taken with ⟨reader, _, rfl, rfl, move⟩ | ⟨writer, _, rfl, rfl, move⟩
  · have bounded := sound.bounded
    have stage := sound.stage
    cases move with
    | interrupted stands more failed => exact ⟨failed, Or.inl ⟨stands, more⟩, rfl⟩
    | faults stands failed => exact ⟨failed, Or.inr stands, rfl⟩
    | returns stands =>
      rw [stands] at stage
      change reader.size < 2 ^ 31 at stage
      have same : toInt reader.buffer.length = ret := Option.some.inj returned
      rw [toInt_natCast (by omega)] at same
      omega
    | _ => cases returned
  · have stage := sound.stage
    cases move with
    | interrupted stands more failed => exact ⟨failed, Or.inl ⟨stands, more⟩, rfl⟩
    | killed stands failed => exact ⟨failed, Or.inr stands, rfl⟩
    | returns stands =>
      rw [stands] at stage
      have same : toInt writer.size = ret := Option.some.inj returned
      rw [toInt_natCast stage] at same
      omega
    | _ => cases returned

/-- Whoever fails at an exit returns `-ERESTARTSYS` and has moved what it had moved. -/
theorem Call.step_fails {dev : Rb} {effect : Effect} {call next : Call}
    (taken : call.step dev true = some (effect, next)) (exit : call.AtExit) :
    next.returned = some (-ERESTARTSYS) ∧ next.bufferPos = call.bufferPos := by
  cases call with
  | read call =>
    rcases exit with ⟨stands, more⟩ | stands
    · simp only [Call.step, rbReadStep, stands, more, ↓reduceIte, Option.map_some,
        Option.some.injEq, Prod.mk.injEq] at taken
      rw [← taken.2]
      exact ⟨rfl, rfl⟩
    · simp only [Call.step, rbReadStep, stands, ↓reduceIte, Option.map_some,
        Option.some.injEq, Prod.mk.injEq] at taken
      rw [← taken.2]
      exact ⟨rfl, rfl⟩
  | write call =>
    rcases exit with ⟨stands, more⟩ | stands
    · simp only [Call.step, rbWriteStep, stands, more, ↓reduceIte, Option.map_some,
        Option.some.injEq, Prod.mk.injEq] at taken
      rw [← taken.2]
      exact ⟨rfl, rfl⟩
    · simp only [Call.step, rbWriteStep, stands, ↓reduceIte, Option.map_some,
        Option.some.injEq, Prod.mk.injEq] at taken
      rw [← taken.2]
      exact ⟨rfl, rfl⟩

theorem Intact.setCall {state : State} {id : Nat} (call : Call) (intact : Intact state)
    (inv : Inv state) (absent : state.calls id = none) : Intact (state.setCall id call) := by
  intro other found ret present returned negative
  by_cases same : other = id
  · subst same
    exact inv.fresh other absent
  · rw [setCall_other _ _ _ _ same] at present
    exact intact other found ret present returned negative

theorem moved_perform_other (state : State) {id other : Nat} (effect : Effect) (call : Call)
    (apart : other ≠ id) :
    movedBy other ((state.perform id effect).setCall id call).inserted =
        movedBy other state.inserted ∧
      movedBy other ((state.perform id effect).setCall id call).extracted =
        movedBy other state.extracted := by
  simp [State.perform, State.setCall, movedBy_append, apart]

theorem step_intact {kmallocMax : Nat} (limit : kmallocMax < 2 ^ 31) {state next : State}
    {action : Action} (inv : Inv state) (intact : Intact state) (early : FailsEarly state action)
    (taken : step kmallocMax state action = some next) : Intact next := by
  have kept := step_inv limit inv taken
  rcases step_cases taken with ⟨id, size, alloc, _, absent, _, rfl⟩ |
    ⟨id, user, alloc, fault, _, absent, _, rfl⟩ |
    ⟨id, fails, call, effect, call', rfl, present, moved, rfl⟩
  · exact intact.setCall _ inv absent
  · exact intact.setCall _ inv absent
  · intro other found ret new returned negative
    by_cases same : other = id
    · subst same
      have foundEq := new
      rw [setCall_same] at foundEq
      cases foundEq
      obtain ⟨failed, exit, pos⟩ :=
        Call.step_negative moved (inv.sound other call present) returned negative
      subst failed
      rw [Call.moved_eq_nil_iff (kept.sound other call' new), pos]
      exact early other call rfl present exit
    · obtain ⟨ins, ext⟩ := moved_perform_other state effect call' same
      rw [setCall_other _ _ _ _ same] at new
      rw [ins, ext]
      exact intact other found ret new returned negative

/-- A call that failed late stays on record: no later step undoes it. -/
theorem step_not_intact {kmallocMax : Nat} {state next : State} {action : Action}
    (spoiled : ¬ Intact state) (taken : step kmallocMax state action = some next) :
    ¬ Intact next := by
  intro intact
  apply spoiled
  intro id call ret present returned negative
  rcases step_cases taken with ⟨other, size, alloc, _, absent, _, rfl⟩ |
    ⟨other, user, alloc, fault, _, absent, _, rfl⟩ |
    ⟨other, fails, mover, effect, mover', _, standing, moved, rfl⟩
  · have apart : id ≠ other := fun same => by simp [same, absent] at present
    exact intact id call ret ((setCall_other _ _ _ _ apart).trans present) returned negative
  · have apart : id ≠ other := fun same => by simp [same, absent] at present
    exact intact id call ret ((setCall_other _ _ _ _ apart).trans present) returned negative
  · have apart : id ≠ other := by
      rintro rfl
      rw [standing] at present
      cases present
      rw [Call.step_of_returned fails returned] at moved
      cases moved
    obtain ⟨ins, ext⟩ := moved_perform_other state effect mover' apart
    rw [← ins, ← ext]
    exact intact id call ret ((setCall_other _ _ _ _ apart).trans present) returned negative

theorem step_late {kmallocMax : Nat} (limit : kmallocMax < 2 ^ 31) {state next : State}
    {action : Action} (inv : Inv state) (late : ¬ FailsEarly state action)
    (taken : step kmallocMax state action = some next) : ¬ Intact next := by
  intro intact
  apply late
  rintro id call rfl present exit
  have kept := step_inv limit inv taken
  rcases step_cases taken with ⟨_, _, _, impossible, _⟩ | ⟨_, _, _, _, impossible, _⟩ |
    ⟨mover, fails, standing, effect, call', same, held, moved, rfl⟩
  · cases impossible
  · cases impossible
  · cases same
    rw [present] at held
    cases held
    obtain ⟨returned, pos⟩ := Call.step_fails moved exit
    have nothing := intact id call' _ (setCall_same _ _ _) returned (by decide)
    rw [Call.moved_eq_nil_iff (kept.sound id call' (setCall_same _ _ _)), pos] at nothing
    exact nothing

/-- Failed calls leave the stream intact in exactly the runs in which no call is failed after
it has moved a byte: every exit after the first chunk drops what was moved before it. -/
theorem failed_calls_intact_iff (kmallocMax : Nat) (limit : kmallocMax < 2 ^ 31)
    (mem : Vector UInt8 memsize) (actions : List Action) (state : State)
    (run : (device kmallocMax).exec (State.start mem) actions = some state) :
    Intact state ↔ (device kmallocMax).EveryStep FailsEarly (State.start mem) actions := by
  constructor
  · intro intact
    exact Machine.every_of_exec Inv (fun s => ¬ Intact s)
      (fun _ _ _ inv taken => step_inv limit inv taken)
      (fun _ _ _ _ spoiled taken => step_not_intact spoiled taken)
      (fun _ _ _ inv late taken => step_late limit inv late taken)
      (start_inv mem) run (not_not.mpr intact)
  · intro every
    have start : Intact (State.start mem) := fun _ _ _ absent => by cases absent
    exact (Machine.exec_invariant_of_every (fun s => Inv s ∧ Intact s)
      (fun _ _ _ kept early taken =>
        ⟨step_inv limit kept.1 taken, step_intact limit kept.1 kept.2 early taken⟩)
      ⟨start_inv mem, start⟩ every run).2

/-- A write of one byte, then a read of it whose `copy_to_user` faults. -/
def faultingRead : List Action :=
  .callWrite 0 [7] true false :: List.replicate 5 (.run 0 false) ++
    .callRead 1 1 true :: List.replicate 5 (.run 1 false) ++ [.run 1 true]

/-- The fault reports `-ERESTARTSYS`, yet the byte has left the ring. -/
theorem faulting_read_loses_byte :
    ¬ ∀ (mem : Vector UInt8 memsize) (actions : List Action) (state : State),
      (device 4194304).exec (State.start mem) actions = some state → Intact state := by
  intro claimed
  have ends : ((device 4194304).exec (State.start (Vector.replicate memsize 0))
      faultingRead).isSome := rfl
  have intact := claimed _ faultingRead _ (Option.some_get ends).symm
  have nothing := (intact 1 (.read ⟨1, [7], .done (-ERESTARTSYS)⟩) _ rfl rfl (by decide)).2
  have lost : movedBy 1 (((device 4194304).exec (State.start (Vector.replicate memsize 0))
      faultingRead).get ends).extracted = [7] := rfl
  rw [lost] at nothing
  cases nothing

/-- The faulting read as an instance of the equivalence. -/
theorem failed_calls_intact_faultingRead :
    ∃ state, (device 4194304).exec (State.start (Vector.replicate memsize 0)) faultingRead =
        some state ∧
      (Intact state ↔ (device 4194304).EveryStep FailsEarly
        (State.start (Vector.replicate memsize 0)) faultingRead) := by
  have ends : ((device 4194304).exec (State.start (Vector.replicate memsize 0))
      faultingRead).isSome := rfl
  exact ⟨_, (Option.some_get ends).symm,
    failed_calls_intact_iff 4194304 (by decide) _ _ _ (Option.some_get ends).symm⟩

end Ct.Ldd.RingBuffer
