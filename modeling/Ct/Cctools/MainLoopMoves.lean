import Ct.Cctools.MainLoop

set_option autoImplicit false

namespace Ct.Cctools

open Ct.Lib

/-- What one step can do. -/
inductive Moves (s : State) : Action → State → Prop
  | again (pc : s.loop = .enTest) (en : s.en = true) : Moves s .loop { s with loop := .lock }
  | leave (pc : s.loop = .enTest) (en : s.en = false) : Moves s .loop { s with loop := .cleanup }
  | acquire (pc : s.loop = .lock ∨ s.loop = .woken) (free : s.owner = none) :
      Moves s .loop { s with owner := some .loop, loop := .whatTest }
  | wait (pc : s.loop = .whatTest) (empty : s.what = .threadNone) :
      Moves s .loop { s with owner := none, loop := .waiting }
  | find (pc : s.loop = .whatTest) (mail : s.what ≠ .threadNone) :
      Moves s .loop { s with loop := .dispatch }
  | exit (pc : s.loop = .dispatch) (mail : s.what = .threadExit) :
      Moves s .loop { s with loop := .reset, en := false, handled := s.handled ++ [s.box] }
  | filesync (pc : s.loop = .dispatch) (mail : s.what = .threadFilesync) :
      Moves s .loop { s with loop := .reset, handled := s.handled ++ [s.box] }
  | unknown (pc : s.loop = .dispatch) (empty : s.what = .threadNone) :
      Moves s .loop { s with loop := .reset }
  | reset (pc : s.loop = .reset) :
      Moves s .loop { s with loop := .unlock, what := .threadNone }
  | release (pc : s.loop = .unlock) : Moves s .loop { s with loop := .enTest, owner := none }
  | cleanup (pc : s.loop = .cleanup) : Moves s .loop { s with loop := .done, gMloop := false }
  | spurious (pc : s.loop = .waiting) : Moves s .spurious { s with loop := .woken }
  | enter (id : Nat) (msg : Sendable) (pc : s.calls id = .idle) (after : CallPc)
      (outside : after = .lock msg ∨ after = .refused) :
      Moves s (.enter id msg) { s with calls := Function.update s.calls id after }
  | lock (id : Nat) (msg : Sendable) (pc : s.calls id = .lock msg) (there : s.gMloop = true)
      (free : s.owner = none) :
      Moves s (.sender id)
        { s with owner := some (.call id), calls := Function.update s.calls id (.store msg) }
  | store (id : Nat) (msg : Sendable) (pc : s.calls id = .store msg) (there : s.gMloop = true) :
      Moves s (.sender id)
        { s with
          what := msg.val, box := id, stored := if s.en then s.stored ++ [id] else s.stored,
          calls := Function.update s.calls id .signal }
  | signal (id : Nat) (pc : s.calls id = .signal) (there : s.gMloop = true) :
      Moves s (.sender id)
        { s with
          loop := if s.loop = .waiting then .woken else s.loop,
          calls := Function.update s.calls id .unlock }
  | unlock (id : Nat) (pc : s.calls id = .unlock) (there : s.gMloop = true) :
      Moves s (.sender id)
        { s with
          owner := none, sent := if s.en then s.sent ++ [id] else s.sent,
          calls := Function.update s.calls id .returned }

theorem nativeMainLoop_moves {s next : State} (step : nativeMainLoop s = some next) :
    Moves s .loop next := by
  unfold nativeMainLoop at step
  cases pc : s.loop with
  | enTest =>
    rw [pc] at step
    cases step
    by_cases en : s.en = true
    · rw [if_pos en]
      exact .again pc en
    · rw [if_neg en]
      exact .leave pc (Bool.eq_false_iff.mpr en)
  | lock =>
    rw [pc] at step
    obtain ⟨free, taken⟩ := Option.ite_none_right_eq_some.mp step
    cases taken
    exact .acquire (Or.inl pc) free
  | whatTest =>
    rw [pc] at step
    dsimp only at step
    split at step
    · cases step
      exact .wait pc ‹_›
    · cases step
      exact .find pc ‹_›
  | waiting =>
    rw [pc] at step
    cases step
  | woken =>
    rw [pc] at step
    obtain ⟨free, taken⟩ := Option.ite_none_right_eq_some.mp step
    cases taken
    exact .acquire (Or.inr pc) free
  | dispatch =>
    rw [pc] at step
    dsimp only at step
    split at step
    · cases step
      exact .exit pc ‹_›
    · cases step
      exact .filesync pc ‹_›
    · cases step
      exact .unknown pc ‹_›
  | reset =>
    rw [pc] at step
    cases step
    exact .reset pc
  | unlock =>
    rw [pc] at step
    cases step
    exact .release pc
  | cleanup =>
    rw [pc] at step
    cases step
    exact .cleanup pc
  | done =>
    rw [pc] at step
    cases step

theorem nativeSendMessage_moves {s next : State} {id : Nat}
    (step : nativeSendMessage s id = some next) : Moves s (.sender id) next := by
  unfold nativeSendMessage at step
  obtain ⟨there, step⟩ := Option.ite_none_right_eq_some.mp step
  cases pc : s.calls id with
  | lock msg =>
    rw [pc] at step
    obtain ⟨free, taken⟩ := Option.ite_none_right_eq_some.mp step
    cases taken
    exact .lock id msg pc there free
  | store msg =>
    rw [pc] at step
    cases step
    exact .store id msg pc there
  | signal =>
    rw [pc] at step
    cases step
    exact .signal id pc there
  | unlock =>
    rw [pc] at step
    cases step
    exact .unlock id pc there
  | idle =>
    rw [pc] at step
    cases step
  | returned =>
    rw [pc] at step
    cases step
  | refused =>
    rw [pc] at step
    cases step

theorem step_moves {s next : State} {action : Action} (step : mailbox.step s action = some next) :
    Moves s action next := by
  cases action with
  | loop => exact nativeMainLoop_moves step
  | spurious =>
    obtain ⟨pc, taken⟩ := Option.ite_none_right_eq_some.mp step
    cases taken
    exact .spurious pc
  | enter id msg =>
    obtain ⟨pc, taken⟩ := Option.ite_none_right_eq_some.mp step
    cases taken
    apply Moves.enter id msg pc
    cases s.gMloop with
    | true => exact Or.inl rfl
    | false => exact Or.inr rfl
  | sender id => exact nativeSendMessage_moves step

end Ct.Cctools
