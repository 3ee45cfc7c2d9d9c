set_option autoImplicit false

namespace Ct.Lib

universe u

/-- Why a run of a C function has no defined result. -/
inductive Fault
  /-- a null pointer is dereferenced -/
  | nullDeref
  /-- a store outside its object -/
  | outOfBounds
  /-- a variable is read before it is set -/
  | uninitialised
  /-- a floating-point value outside the integer type it is converted to -/
  | conversion
  /-- the fuel of a loop is used up -/
  | outOfFuel
  deriving DecidableEq, Repr

/-- A step that only returns a value leaves the state as it is. -/
theorem pure_step {σ α : Type u} (a : α) (state : σ) :
    (pure a : StateT σ (Except Fault) α) state = .ok (a, state) := rfl

/-- A sequence that ends has run its first part to the end. -/
theorem bind_ends {ε : Type} {α β : Type u} {first : Except ε α} {next : α → Except ε β} {b : β}
    (ran : (first >>= next) = .ok b) : ∃ a, first = .ok a ∧ next a = .ok b := by
  cases first with
  | error fault => cases ran
  | ok a => exact ⟨a, rfl, ran⟩

theorem bind_ends_iff {α β : Type u} {first : Except Fault α} {next : α → Except Fault β} {b : β} :
    (first >>= next) = .ok b ↔ ∃ a, first = .ok a ∧ next a = .ok b := by
  constructor
  · exact bind_ends
  · rintro ⟨a, ran, later⟩
    rw [ran]
    exact later

theorem map_ends_iff {α β : Type u} {first : Except Fault α} (f : α → β) :
    (∃ b, first.map f = .ok b) ↔ ∃ a, first = .ok a := by
  cases first with
  | error fault => simp [Except.map]
  | ok a => simp [Except.map]

theorem map_ends {α β : Type u} {first : Except Fault α} {f : α → β} {b : β}
    (ran : first.map f = .ok b) : ∃ a, first = .ok a ∧ f a = b := by
  cases first with
  | error fault => cases ran
  | ok a => exact ⟨a, rfl, Except.ok.inj ran⟩

theorem mapM_length {α β : Type u} {f : α → Except Fault β} {args : List α} :
    ∀ {results : List β}, args.mapM f = .ok results → results.length = args.length := by
  induction args with
  | nil =>
    intro results ran
    cases ran
    rfl
  | cons a args ih =>
    intro results ran
    rw [List.mapM_cons] at ran
    obtain ⟨b, _, ran⟩ := bind_ends ran
    obtain ⟨rest, later, ran⟩ := bind_ends ran
    cases ran
    rw [List.length_cons, List.length_cons, ih later]

end Ct.Lib
