import Mathlib.Data.List.Basic
import Mathlib.Tactic.SplitIfs

set_option autoImplicit false

namespace Ct.Lib

universe u v

/-- A machine whose step is partial: an action that is not enabled in a state has no
successor there. -/
structure Machine (σ : Type u) (α : Type v) where
  step : σ → α → Option σ

namespace Machine

variable {σ : Type u} {α : Type v}

/-- The state after a sequence of enabled actions. -/
def exec (machine : Machine σ α) (state : σ) : List α → Option σ
  | [] => some state
  | action :: rest =>
    match machine.step state action with
    | none => none
    | some next => machine.exec next rest

/-- `ok` holds of every action of the run at the state in which it is taken. -/
def EveryStep (machine : Machine σ α) (ok : σ → α → Prop) (state : σ) : List α → Prop
  | [] => True
  | action :: rest =>
    ok state action ∧ ∀ next, machine.step state action = some next →
      machine.EveryStep ok next rest

theorem exec_cons (machine : Machine σ α) (state final : σ) (action : α) (rest : List α) :
    machine.exec state (action :: rest) = some final ↔
      ∃ next, machine.step state action = some next ∧ machine.exec next rest = some final := by
  cases taken : machine.step state action with
  | none => simp [exec, taken]
  | some next => simp [exec, taken]

theorem every_cons {machine : Machine σ α} {ok : σ → α → Prop} {state next : σ} {action : α}
    {rest : List α} (taken : machine.step state action = some next) (good : ok state action)
    (every : machine.EveryStep ok next rest) : machine.EveryStep ok state (action :: rest) := by
  refine ⟨good, fun other same => ?_⟩
  rw [taken] at same
  cases same
  exact every

/-- A property that every step keeps holds at the end of every run that starts with it. -/
theorem exec_invariant {machine : Machine σ α} (inv : σ → Prop)
    (keeps : ∀ state action next, inv state → machine.step state action = some next → inv next)
    {state final : σ} {actions : List α} (start : inv state)
    (run : machine.exec state actions = some final) : inv final := by
  induction actions generalizing state with
  | nil =>
    cases run
    exact start
  | cons action rest ih =>
    obtain ⟨next, taken, run⟩ := (exec_cons machine state final action rest).mp run
    exact ih (keeps state action next start taken) run

/-- The same for a property kept only by the steps that satisfy `ok`. -/
theorem exec_invariant_of_every {machine : Machine σ α} (inv : σ → Prop) {ok : σ → α → Prop}
    (keeps : ∀ state action next, inv state → ok state action →
      machine.step state action = some next → inv next)
    {state final : σ} {actions : List α} (start : inv state)
    (every : machine.EveryStep ok state actions)
    (run : machine.exec state actions = some final) : inv final := by
  induction actions generalizing state with
  | nil =>
    cases run
    exact start
  | cons action rest ih =>
    obtain ⟨next, taken, run⟩ := (exec_cons machine state final action rest).mp run
    exact ih (keeps state action next start every.1 taken) (every.2 next taken) run

/-- A final state without `bad` was reached without a step that `ok` rules out, when such a
step makes `bad` true and no step makes it false again. -/
theorem every_of_exec {machine : Machine σ α} (inv bad : σ → Prop) {ok : σ → α → Prop}
    (keeps : ∀ state action next, inv state → machine.step state action = some next → inv next)
    (persists : ∀ state action next, inv state → bad state →
      machine.step state action = some next → bad next)
    (caught : ∀ state action next, inv state → ¬ ok state action →
      machine.step state action = some next → bad next)
    {state final : σ} {actions : List α} (start : inv state)
    (run : machine.exec state actions = some final) (good : ¬ bad final) :
    machine.EveryStep ok state actions := by
  induction actions generalizing state with
  | nil => trivial
  | cons action rest ih =>
    obtain ⟨next, taken, run⟩ := (exec_cons machine state final action rest).mp run
    have kept := keeps state action next start taken
    apply every_cons taken _ (ih kept run)
    by_contra violated
    have spoiled : inv final ∧ bad final :=
      exec_invariant (fun s => inv s ∧ bad s)
        (fun s a t h step => ⟨keeps s a t h.1 step, persists s a t h.1 h.2 step⟩)
        ⟨kept, caught state action next start violated taken⟩ run
    exact good spoiled.2

/-- Two properties of steps that agree where an invariant holds agree on its runs. -/
theorem every_congr {machine : Machine σ α} (inv : σ → Prop) {ok other : σ → α → Prop}
    (keeps : ∀ state action next, inv state → machine.step state action = some next → inv next)
    (same : ∀ state action, inv state → (ok state action ↔ other state action))
    {state : σ} (start : inv state) (actions : List α) :
    machine.EveryStep ok state actions ↔ machine.EveryStep other state actions := by
  induction actions generalizing state with
  | nil => exact Iff.rfl
  | cons action rest ih =>
    apply and_congr (same state action start)
    apply forall_congr'
    intro next
    apply imp_congr_right
    intro taken
    exact ih (keeps state action next start taken)

end Machine

end Ct.Lib
