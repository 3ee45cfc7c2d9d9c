import Ct.Ldd.RingBufferMoves

set_option autoImplicit false

namespace Ct.Ldd.RingBuffer

open Ct.Lib

variable {dev : Rb} {fails : Bool} {effect : Effect} {inserted extracted : List UInt8}

theorem movedBy_append (id other : Nat) (log : List (Nat × UInt8)) (bytes : List UInt8) :
    movedBy other (log ++ bytes.map (Prod.mk id)) =
      movedBy other log ++ if other = id then bytes else [] := by
  by_cases same : other = id
  · subst same
    simp [movedBy, List.filter_map, Function.comp_def]
  · simp [movedBy, List.filter_map, Function.comp_def, same, Ne.symm same]

/-- The call stands between `down` and `up`. -/
def Call.Holds : Call → Prop
  | .read call => call.pc = .locked ∨ ∃ left, call.pc = .copying left
  | .write call => call.pc = .locked ∨ ∃ left, call.pc = .copying left

/-- The turns left in the copy loop of the call fit the device. -/
def Call.Fits (dev : Rb) : Call → Prop
  | .read call => ∀ left, call.pc = .copying left → left ≤ dev.distance
  | .write call => ∀ left, call.pc = .copying left → left + dev.distance ≤ (memsize : Int) - 1

/-- What holds where `rb_read` stands, with `filled` bytes in its block. -/
def ReadPc.Ok (size filled : Nat) : ReadPc → Prop
  | .copying left => size < 2 ^ 31 ∧ filled + left ≤ size
  | .done ret => ret < 0 ∨ ret = filled
  | _ => size < 2 ^ 31

/-- What holds where `rb_write` stands, at `pos` in its block. -/
def WritePc.Ok (size : Nat) (pos : Int) : WritePc → Prop
  | .copying left => size < 2 ^ 31 ∧ pos + left ≤ size
  | .done ret => ret < 0 ∨ (ret = size ∧ pos = size)
  | _ => size < 2 ^ 31

/-- A call of `rb_read` and the bytes it has moved so far. -/
structure ReadCall.Sound (call : ReadCall) (inserted extracted : List UInt8) : Prop where
  moved : extracted = call.buffer
  silent : inserted = []
  bounded : call.buffer.length ≤ call.size
  stage : call.pc.Ok call.size call.buffer.length

/-- A call of `rb_write` and the bytes it has moved so far. -/
structure WriteCall.Sound (call : WriteCall) (inserted extracted : List UInt8) : Prop where
  moved : inserted = call.buffer.take call.bufferPos.toNat
  silent : extracted = []
  size_eq : call.size = call.buffer.length
  pos_nonneg : 0 ≤ call.bufferPos
  pos_le : call.bufferPos ≤ call.size
  stage : call.pc.Ok call.size call.bufferPos

def Call.Sound (inserted extracted : List UInt8) : Call → Prop
  | .read call => call.Sound inserted extracted
  | .write call => call.Sound inserted extracted

/-- The two conversions in `write_size` change nothing while the size fits an `int`. -/
theorem writeSize_eq {call : WriteCall} (valid : dev.Valid) (lower : 0 ≤ call.bufferPos)
    (upper : call.bufferPos ≤ call.size) (small : call.size < 2 ^ 31) :
    writeSize dev call = min (call.size - call.bufferPos) ((memsize : Int) - 1 - dev.distance) := by
  have below := distance_lt dev
  have idle : (idleBuffer dev : Int) = (memsize : Int) - 1 - dev.distance := by
    rw [valid.idleBuffer_eq]
    omega
  have left : toInt (toSize (call.size - call.bufferPos)) = call.size - call.bufferPos := by
    rw [toSize_of_range (by omega) (by omega), toInt_of_range (by omega) (by omega)]
    omega
  have bounded : (memsize : Int) = 16 := rfl
  have idleInt : toInt (idleBuffer dev) = idleBuffer dev := toInt_of_range (by omega) (by omega)
  simp only [writeSize, left, idleInt]
  rw [toSize_of_range (by omega) (by omega)]
  split <;> omega

theorem ReadMove.sound {call next : ReadCall} (move : ReadMove dev call fails effect next)
    (sound : call.Sound inserted extracted) :
    next.Sound (inserted ++ effect.inserts) (extracted ++ effect.extracts dev) := by
  obtain ⟨moved, silent, bounded, stage⟩ := sound
  subst moved
  subst silent
  cases move with
  | interrupted stands | faults stands =>
    exact ⟨List.append_nil _, rfl, bounded, Or.inl (by decide)⟩
  | locks stands | finishes stands | findsEmpty stands =>
    rw [stands] at stage
    exact ⟨List.append_nil _, rfl, bounded, stage⟩
  | sizes stands readSize fits used =>
    rw [stands] at stage
    exact ⟨List.append_nil _, rfl, bounded, stage, by dsimp only; omega⟩
  | unlocks stands =>
    rw [stands] at stage
    exact ⟨List.append_nil _, rfl, bounded, stage.1⟩
  | takes left stands =>
    rw [stands] at stage
    obtain ⟨small, room⟩ := stage
    refine ⟨rfl, rfl, ?_, small, ?_⟩
    all_goals
      simp only [List.length_append, List.length_singleton]
      omega
  | returns stands =>
    rw [stands] at stage
    change call.size < 2 ^ 31 at stage
    exact ⟨List.append_nil _, rfl, bounded, Or.inr (toInt_natCast (by omega))⟩

theorem WriteMove.sound {call next : WriteCall} (move : WriteMove dev call fails effect next)
    (valid : dev.Valid) (sound : call.Sound inserted extracted) :
    next.Sound (inserted ++ effect.inserts) (extracted ++ effect.extracts dev) := by
  obtain ⟨moved, silent, size_eq, lower, upper, stage⟩ := sound
  subst moved
  subst silent
  cases move with
  | interrupted stands | killed stands =>
    exact ⟨List.append_nil _, rfl, size_eq, lower, upper, Or.inl (by decide)⟩
  | locks stands | findsFilled stands | wakes stands | retries stands =>
    rw [stands] at stage
    exact ⟨List.append_nil _, rfl, size_eq, lower, upper, stage⟩
  | returns stands full =>
    rw [stands] at stage
    change call.size < 2 ^ 31 at stage
    rw [toSize_of_range lower (by omega)] at full
    exact ⟨List.append_nil _, rfl, size_eq, lower, upper,
      Or.inr ⟨toInt_natCast stage, by dsimp only; omega⟩⟩
  | sizes stands =>
    rw [stands] at stage
    refine ⟨List.append_nil _, rfl, size_eq, lower, upper, stage, ?_⟩
    rw [writeSize_eq valid lower upper stage]
    dsimp only
    omega
  | relocks stands free =>
    rw [stands] at stage
    refine ⟨List.append_nil _, rfl, size_eq, lower, upper, stage, ?_⟩
    rw [writeSize_eq valid.down lower upper stage]
    dsimp only
    omega
  | puts left stands more =>
    rw [stands] at stage
    obtain ⟨small, room⟩ := stage
    have inside : call.bufferPos.toNat < call.buffer.length := by omega
    refine ⟨?_, rfl, size_eq, by dsimp only; omega, by dsimp only; omega, small,
      by dsimp only; omega⟩
    rw [Effect.inserts, List.getD_eq_getElem?_getD, List.getElem?_eq_getElem inside, Option.getD_some,
      show (call.bufferPos + 1).toNat = call.bufferPos.toNat + 1 by omega,
      List.take_add_one, List.getElem?_eq_getElem inside, Option.toList_some]
  | unlocks left stands finished =>
    rw [stands] at stage
    exact ⟨List.append_nil _, rfl, size_eq, lower, upper, stage.1⟩

/-- The copy loops stop before they pass the other position. -/
theorem ReadMove.fits {call next : ReadCall} (move : ReadMove dev call fails effect next)
    (valid : dev.Valid) (fits : Call.Fits dev (.read call)) :
    Call.Fits (dev.perform effect) (.read next) := by
  intro rest same
  cases move with
  | sizes stands readSize _ used =>
    cases same
    exact valid.bufferUsed_eq ▸ used
  | takes left stands =>
    cases same
    have covered := fits (rest + 1) stands
    change rest ≤ dev.take.distance
    rw [valid.distance_take (by omega)]
    omega
  | _ => cases same

theorem WriteMove.fits {call next : WriteCall} (move : WriteMove dev call fails effect next)
    (valid : dev.Valid) (sound : call.Sound inserted extracted)
    (fits : Call.Fits dev (.write call)) : Call.Fits (dev.perform effect) (.write next) := by
  intro rest same
  have stage := sound.stage
  cases move with
  | sizes stands =>
    rw [stands] at stage
    cases same
    rw [writeSize_eq valid sound.pos_nonneg sound.pos_le stage]
    change _ + (dev.distance : Int) ≤ _
    omega
  | relocks stands free =>
    rw [stands] at stage
    cases same
    rw [writeSize_eq valid.down sound.pos_nonneg sound.pos_le stage]
    change _ + (dev.distance : Int) ≤ _
    rw [distance_down]
    omega
  | puts left stands more =>
    cases same
    have covered := fits left stands
    change left - 1 + ((dev.put _).distance : Int) ≤ _
    rw [valid.distance_put _ (by omega)]
    omega
  | _ => cases same

theorem Call.step_sound {call next : Call} (taken : call.step dev fails = some (effect, next))
    (valid : dev.Valid) (sound : call.Sound inserted extracted) :
    next.Sound (inserted ++ effect.inserts) (extracted ++ effect.extracts dev) := by
  rcases Call.step_cases taken with ⟨_, _, rfl, rfl, move⟩ | ⟨_, _, rfl, rfl, move⟩
  · exact move.sound sound
  · exact move.sound valid sound

theorem Call.step_fits {call next : Call} (taken : call.step dev fails = some (effect, next))
    (valid : dev.Valid) (sound : call.Sound inserted extracted) (fits : call.Fits dev) :
    next.Fits (dev.perform effect) := by
  rcases Call.step_cases taken with ⟨_, _, rfl, rfl, move⟩ | ⟨_, _, rfl, rfl, move⟩
  · exact move.fits valid fits
  · exact move.fits valid sound fits

/-- What the device must offer before a call may have this effect on it. -/
def Effect.Allowed (dev : Rb) : Effect → Prop
  | .quiet | .up => True
  | .down => 0 < dev.sem
  | .take => 0 < dev.distance
  | .put _ => dev.distance < memsize - 1

theorem Call.step_allowed {call next : Call} (taken : call.step dev fails = some (effect, next))
    (fits : call.Fits dev) : effect.Allowed dev := by
  rcases Call.step_cases taken with ⟨_, _, rfl, rfl, move⟩ | ⟨_, _, rfl, rfl, move⟩
  · cases move with
    | locks _ _ free => exact free
    | takes left stands =>
      have covered := fits (left + 1) stands
      exact Nat.lt_of_lt_of_le (Nat.succ_pos left) covered
    | _ => trivial
  · cases move with
    | locks _ _ free | relocks _ free => exact free
    | puts left stands more =>
      have covered := fits left stands
      change dev.distance < memsize - 1
      omega
    | _ => trivial

/-- Whether the call holds the semaphore before and after a step with this effect. -/
def Effect.Locks (before after : Prop) : Effect → Prop
  | .quiet => before ↔ after
  | .down => ¬ before ∧ after
  | .up => before ∧ ¬ after
  | .take | .put _ => before ∧ after

theorem Call.step_locks {call next : Call} (taken : call.step dev fails = some (effect, next)) :
    effect.Locks call.Holds next.Holds := by
  rcases Call.step_cases taken with ⟨_, _, rfl, rfl, move⟩ | ⟨_, _, rfl, rfl, move⟩
  · cases move <;> simp_all [Effect.Locks, Call.Holds]
  · cases move <;> simp_all [Effect.Locks, Call.Holds]

theorem Rb.Valid.perform (valid : dev.Valid) (effect : Effect) : (dev.perform effect).Valid := by
  cases effect with
  | quiet => exact valid
  | down => exact valid.down
  | up => exact valid.up
  | take => exact valid.take
  | put byte => exact valid.put byte

/-- A call outside its critical section makes no claim about the device. -/
theorem Call.fits_of_not_holds {call : Call} (outside : ¬ call.Holds) : call.Fits dev := by
  cases call with
  | read reader =>
    intro left stands
    exact absurd (Or.inr ⟨left, stands⟩) outside
  | write writer =>
    intro left stands
    exact absurd (Or.inr ⟨left, stands⟩) outside

/-- The effect moves a position. -/
def Effect.Moves : Effect → Prop
  | .take | .put _ => True
  | _ => False

theorem Call.fits_perform {call : Call} (fits : call.Fits dev)
    (apart : effect.Moves → ¬ call.Holds) : call.Fits (dev.perform effect) := by
  cases effect with
  | quiet | down | up => cases call <;> exact fits
  | take | put byte => exact Call.fits_of_not_holds (apart trivial)

end Ct.Ldd.RingBuffer
