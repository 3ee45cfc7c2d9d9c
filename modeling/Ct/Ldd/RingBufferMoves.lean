import Ct.Ldd.RingBufferCalls

set_option autoImplicit false

namespace Ct.Ldd.RingBuffer

open Ct.Lib

variable {dev : Rb} {fails : Bool} {effect : Effect}

/-- Everything a step of `rb_read` can do. -/
inductive ReadMove (dev : Rb) (call : ReadCall) (fails : Bool) : Effect → ReadCall → Prop
  | interrupted (stands : call.pc = .loop) (more : call.buffer.length < call.size)
      (failed : fails = true) :
      ReadMove dev call fails .quiet { call with pc := .done (-ERESTARTSYS) }
  | locks (stands : call.pc = .loop) (more : call.buffer.length < call.size)
      (free : 0 < dev.sem) : ReadMove dev call fails .down { call with pc := .locked }
  | finishes (stands : call.pc = .loop) (full : ¬ call.buffer.length < call.size) :
      ReadMove dev call fails .quiet { call with pc := .copyOut }
  | findsEmpty (stands : call.pc = .locked) (empty : isEmpty dev = true) :
      ReadMove dev call fails .up { call with pc := .copyOut }
  | sizes (stands : call.pc = .locked) (readSize : Nat)
      (fits : readSize ≤ call.size - call.buffer.length) (used : readSize ≤ bufferUsed dev) :
      ReadMove dev call fails .quiet { call with pc := .copying readSize }
  | unlocks (stands : call.pc = .copying 0) :
      ReadMove dev call fails .up { call with pc := .loop }
  | takes (left : Nat) (stands : call.pc = .copying (left + 1)) :
      ReadMove dev call fails .take
        { call with buffer := call.buffer ++ [dev.nextByte], pc := .copying left }
  | faults (stands : call.pc = .copyOut) (failed : fails = true) :
      ReadMove dev call fails .quiet { call with pc := .done (-ERESTARTSYS) }
  | returns (stands : call.pc = .copyOut) :
      ReadMove dev call fails .quiet { call with pc := .done (toInt call.buffer.length) }

theorem rbReadStep_move {call next : ReadCall}
    (taken : rbReadStep dev call fails = some (effect, next)) :
    ReadMove dev call fails effect next := by
  unfold rbReadStep at taken
  split at taken
  · rename_i stands
    split at taken
    · rename_i more
      split at taken
      · rename_i failed
        cases taken
        exact .interrupted stands more failed
      · split at taken
        · rename_i free
          cases taken
          exact .locks stands more free
        · cases taken
    · rename_i full
      cases taken
      exact .finishes stands full
  · rename_i stands
    split at taken
    · rename_i empty
      cases taken
      exact .findsEmpty stands empty
    · cases taken
      refine .sizes stands _ ?_ ?_
      · split <;> omega
      · split <;> omega
  · rename_i stands
    cases taken
    exact .unlocks stands
  · rename_i left stands
    cases taken
    exact .takes left stands
  · rename_i stands
    split at taken
    · rename_i failed
      cases taken
      exact .faults stands failed
    · cases taken
      exact .returns stands
  · cases taken

/-- Everything a step of `rb_write` can do. -/
inductive WriteMove (dev : Rb) (call : WriteCall) (fails : Bool) : Effect → WriteCall → Prop
  | interrupted (stands : call.pc = .loop) (more : toSize call.bufferPos < call.size)
      (failed : fails = true) :
      WriteMove dev call fails .quiet { call with pc := .done (-ERESTARTSYS) }
  | locks (stands : call.pc = .loop) (more : toSize call.bufferPos < call.size)
      (free : 0 < dev.sem) : WriteMove dev call fails .down { call with pc := .locked }
  | returns (stands : call.pc = .loop) (full : ¬ toSize call.bufferPos < call.size) :
      WriteMove dev call fails .quiet { call with pc := .done (toInt call.size) }
  | findsFilled (stands : call.pc = .locked) :
      WriteMove dev call fails .up { call with pc := .waiting }
  | sizes (stands : call.pc = .locked) :
      WriteMove dev call fails .quiet { call with pc := .copying (writeSize dev call) }
  | killed (stands : call.pc = .waiting) (failed : fails = true) :
      WriteMove dev call fails .quiet { call with pc := .done (-ERESTARTSYS) }
  | wakes (stands : call.pc = .waiting) :
      WriteMove dev call fails .quiet { call with pc := .relock }
  | retries (stands : call.pc = .relock) :
      WriteMove dev call fails .quiet { call with pc := .loop }
  | relocks (stands : call.pc = .relock) (free : 0 < dev.sem) :
      WriteMove dev call fails .down { call with pc := .copying (writeSize dev.down call) }
  | puts (left : Int) (stands : call.pc = .copying left) (more : 0 < left) :
      WriteMove dev call fails (.put (call.buffer.getD call.bufferPos.toNat 0))
        { call with bufferPos := call.bufferPos + 1, pc := .copying (left - 1) }
  | unlocks (left : Int) (stands : call.pc = .copying left) (finished : ¬ 0 < left) :
      WriteMove dev call fails .up { call with pc := .loop }

theorem rbWriteStep_move {call next : WriteCall}
    (taken : rbWriteStep dev call fails = some (effect, next)) :
    WriteMove dev call fails effect next := by
  unfold rbWriteStep at taken
  split at taken
  · rename_i stands
    split at taken
    · rename_i more
      split at taken
      · rename_i failed
        cases taken
        exact .interrupted stands more failed
      · split at taken
        · rename_i free
          cases taken
          exact .locks stands more free
        · cases taken
    · rename_i full
      cases taken
      exact .returns stands full
  · rename_i stands
    split at taken
    · cases taken
      exact .findsFilled stands
    · cases taken
      exact .sizes stands
  · rename_i stands
    split at taken
    · rename_i failed
      cases taken
      exact .killed stands failed
    · split at taken
      · cases taken
        exact .wakes stands
      · cases taken
  · rename_i stands
    split at taken
    · cases taken
      exact .retries stands
    · split at taken
      · rename_i free
        cases taken
        exact .relocks stands free
      · cases taken
  · rename_i left stands
    split at taken
    · rename_i more
      cases taken
      exact .puts left stands more
    · rename_i finished
      cases taken
      exact .unlocks left stands finished
  · cases taken

/-- A step of a call is a move of `rb_read` or of `rb_write`. -/
theorem Call.step_cases {call next : Call}
    (taken : call.step dev fails = some (effect, next)) :
    (∃ reader reader', call = .read reader ∧ next = .read reader' ∧
      ReadMove dev reader fails effect reader') ∨
    (∃ writer writer', call = .write writer ∧ next = .write writer' ∧
      WriteMove dev writer fails effect writer') := by
  cases call with
  | read reader =>
    obtain ⟨⟨effect', reader'⟩, moved, same⟩ := Option.map_eq_some_iff.mp taken
    cases same
    exact Or.inl ⟨reader, reader', rfl, rfl, rbReadStep_move moved⟩
  | write writer =>
    obtain ⟨⟨effect', writer'⟩, moved, same⟩ := Option.map_eq_some_iff.mp taken
    cases same
    exact Or.inr ⟨writer, writer', rfl, rfl, rbWriteStep_move moved⟩

/-- A step of the device starts a call or lets one call move. -/
theorem step_cases {kmallocMax : Nat} {state next : State} {action : Action}
    (taken : step kmallocMax state action = some next) :
    (∃ id size alloc, action = .callRead id size alloc ∧ state.calls id = none ∧
      kmallocMay kmallocMax size alloc = true ∧
      next = state.setCall id (.read (rbReadEntry size alloc))) ∨
    (∃ id user alloc fault, action = .callWrite id user alloc fault ∧ state.calls id = none ∧
      kmallocMay kmallocMax user.length alloc = true ∧
      next = state.setCall id (.write (rbWriteEntry user alloc fault))) ∨
    (∃ id fails call effect call', action = .run id fails ∧ state.calls id = some call ∧
      call.step state.dev fails = some (effect, call') ∧
      next = (state.perform id effect).setCall id call') := by
  cases action with
  | callRead id size alloc =>
    simp only [step] at taken
    split at taken
    · rename_i enabled
      cases taken
      exact Or.inl ⟨id, size, alloc, rfl, enabled.1, enabled.2, rfl⟩
    · cases taken
  | callWrite id user alloc fault =>
    simp only [step] at taken
    split at taken
    · rename_i enabled
      cases taken
      exact Or.inr (Or.inl ⟨id, user, alloc, fault, rfl, enabled.1, enabled.2, rfl⟩)
    · cases taken
  | run id fails =>
    simp only [step] at taken
    split at taken
    · cases taken
    · rename_i call present
      split at taken
      · cases taken
      · rename_i effect call' moved
        cases taken
        exact Or.inr (Or.inr ⟨id, fails, call, effect, call', rfl, present, moved, rfl⟩)

end Ct.Ldd.RingBuffer
