import Ct.Cctools.MainLoopMoves
import Mathlib.Data.List.Nodup

set_option autoImplicit false

namespace Ct.Cctools

open Ct.Lib

/-- The loop stands between `pthread_mutex_lock` and `pthread_mutex_unlock`. -/
def LoopPc.holds : LoopPc → Bool
  | .whatTest | .dispatch | .reset | .unlock => true
  | _ => false

def CallPc.holds : CallPc → Bool
  | .store _ | .signal | .unlock => true
  | _ => false

/-- The call has stored its message. -/
def CallPc.hasStored : CallPc → Bool
  | .signal | .unlock | .returned => true
  | _ => false

/-- The mutex is held by whoever stands in its section. -/
structure Locked (s : State) : Prop where
  loop : s.owner = some .loop ↔ s.loop.holds = true
  call : ∀ id, s.owner = some (.call id) ↔ (s.calls id).holds = true

/-- The message that is still to be handled. -/
def State.pending (s : State) : List Nat :=
  if s.en = true ∧ s.what ≠ .threadNone ∧ s.loop ≠ .reset then [s.box] else []

/-- The loop handles no more messages. -/
def LoopPc.ending : LoopPc → Bool
  | .reset | .unlock | .enTest | .cleanup | .done => true
  | _ => false

/-- Where the parties can stand, given what is in the mailbox. -/
structure Mail (s : State) : Prop where
  dispatched : s.loop = .dispatch → s.what ≠ .threadNone
  unlocked : s.loop = .unlock → s.what = .threadNone
  awake : s.loop = .waiting → s.what = .threadNone ∨ s.calls s.box = .signal
  empty : s.en = true → ∀ id msg, s.calls id = .store msg → s.what = .threadNone
  running : s.en = true → s.gMloop = true ∧ s.loop ≠ .cleanup ∧ s.loop ≠ .done
  stopped : s.en = false → s.loop.ending = true

/-- The messages that have been stored have been handled, but for the one that is pending. -/
structure Account (s : State) : Prop where
  stored_eq : s.stored = s.handled ++ s.pending
  nodup : s.stored.Nodup
  stage : ∀ id ∈ s.stored, (s.calls id).hasStored = true
  recorded : s.en = true → ∀ id, (s.calls id).hasStored = true → id ∈ s.stored
  sent_stored : ∀ id ∈ s.sent, id ∈ s.stored

/-- A call takes the mutex only while the mailbox is empty, as long as no exit has been handled. -/
def Clean (s : State) : Action → Prop
  | .sender id => ∀ msg, s.calls id = .lock msg → s.en = true → s.what = .threadNone
  | _ => True

variable {s next : State} {action : Action}

/-- A test that a call passes before and after its step as well. -/
theorem stage_update {test : CallPc → Bool} {calls : Nat → CallPc} {id : Nat} {after : CallPc}
    (same : test after = test (calls id)) (other : Nat) :
    test (Function.update calls id after other) = test (calls other) := by
  by_cases here : other = id
  · rw [here, Function.update_self]
    exact same
  · rw [Function.update_of_ne here]

section Locked

theorem Locked.nobody (free : s.owner = none) (loop : s.loop.holds = false)
    (calls : ∀ id, (s.calls id).holds = false) : Locked s where
  loop := by
    rw [free, loop]
    exact iff_of_false nofun nofun
  call id := by
    rw [free, calls id]
    exact iff_of_false nofun nofun

theorem Locked.free (locked : Locked s) (free : s.owner = none) :
    s.loop.holds = false ∧ ∀ id, (s.calls id).holds = false := by
  constructor
  · apply Bool.eq_false_iff.mpr
    intro holds
    have owner := locked.loop.mpr holds
    rw [free] at owner
    cases owner
  · intro id
    apply Bool.eq_false_iff.mpr
    intro holds
    have owner := (locked.call id).mpr holds
    rw [free] at owner
    cases owner

/-- While the loop holds the mutex no call does. -/
theorem Locked.calls_outside (locked : Locked s) (holds : s.loop.holds = true) (id : Nat) :
    (s.calls id).holds = false := by
  apply Bool.eq_false_iff.mpr
  intro too
  have owner := (locked.call id).mpr too
  rw [locked.loop.mpr holds] at owner
  cases owner

/-- While a call holds the mutex the loop does not, and no other call. -/
theorem Locked.others_outside (locked : Locked s) {id : Nat} (holds : (s.calls id).holds = true) :
    s.loop.holds = false ∧ ∀ other, other ≠ id → (s.calls other).holds = false := by
  have owner := (locked.call id).mpr holds
  constructor
  · apply Bool.eq_false_iff.mpr
    intro too
    rw [locked.loop.mpr too] at owner
    cases owner
  · intro other apart
    apply Bool.eq_false_iff.mpr
    intro too
    rw [(locked.call other).mpr too] at owner
    cases owner
    exact apart rfl

/-- A step that neither takes the mutex nor lets go of it. -/
theorem Locked.quiet (locked : Locked s) (owner : next.owner = s.owner)
    (loop : next.loop.holds = s.loop.holds)
    (calls : ∀ id, (next.calls id).holds = (s.calls id).holds) : Locked next where
  loop := by
    rw [owner, loop]
    exact locked.loop
  call id := by
    rw [owner, calls id]
    exact locked.call id

theorem Locked.step (locked : Locked s) (moves : Moves s action next) : Locked next := by
  cases moves with
  | again pc en => exact locked.quiet rfl (by rw [pc]; rfl) (fun _ => rfl)
  | leave pc en => exact locked.quiet rfl (by rw [pc]; rfl) (fun _ => rfl)
  | acquire pc free =>
    refine ⟨iff_of_true rfl rfl, fun id => ?_⟩
    rw [(locked.free free).2 id]
    exact iff_of_false nofun nofun
  | wait pc empty => exact .nobody rfl rfl (locked.calls_outside (by rw [pc]; rfl))
  | find pc mail => exact locked.quiet rfl (by rw [pc]; rfl) (fun _ => rfl)
  | exit pc mail => exact locked.quiet rfl (by rw [pc]; rfl) (fun _ => rfl)
  | filesync pc mail => exact locked.quiet rfl (by rw [pc]; rfl) (fun _ => rfl)
  | unknown pc empty => exact locked.quiet rfl (by rw [pc]; rfl) (fun _ => rfl)
  | reset pc => exact locked.quiet rfl (by rw [pc]; rfl) (fun _ => rfl)
  | release pc => exact .nobody rfl rfl (locked.calls_outside (by rw [pc]; rfl))
  | cleanup pc => exact locked.quiet rfl (by rw [pc]; rfl) (fun _ => rfl)
  | spurious pc => exact locked.quiet rfl (by rw [pc]; rfl) (fun _ => rfl)
  | enter id msg pc after outside =>
    refine locked.quiet rfl rfl (stage_update ?_)
    rw [pc]
    rcases outside with rfl | rfl
    · rfl
    · rfl
  | lock id msg pc there free =>
    refine ⟨?_, fun other => ?_⟩
    · rw [(locked.free free).1]
      exact iff_of_false nofun nofun
    · dsimp only
      by_cases here : other = id
      · rw [here, Function.update_self]
        exact iff_of_true rfl rfl
      · rw [Function.update_of_ne here, (locked.free free).2 other]
        refine iff_of_false (fun same => ?_) nofun
        cases same
        exact here rfl
  | store id msg pc there => exact locked.quiet rfl rfl (stage_update (by rw [pc]; rfl))
  | signal id pc there =>
    refine locked.quiet rfl ?_ (stage_update (by rw [pc]; rfl))
    by_cases waiting : s.loop = .waiting
    · simp only [waiting, ↓reduceIte]
      rfl
    · simp only [waiting, ↓reduceIte]
  | unlock id pc there =>
    have outside := locked.others_outside (by rw [pc]; rfl : (s.calls id).holds = true)
    refine .nobody rfl outside.1 fun other => ?_
    dsimp only
    by_cases here : other = id
    · rw [here, Function.update_self]
      rfl
    · rw [Function.update_of_ne here]
      exact outside.2 other here

end Locked

section Mail

/-- A step of the loop that changes nothing but where it stands, and who holds the mutex. -/
theorem Mail.goto (mail : Mail s) {pc : LoopPc} (owner : Option Thread)
    (dispatched : pc = .dispatch → s.what ≠ .threadNone)
    (unlocked : pc = .unlock → s.what = .threadNone)
    (awake : pc = .waiting → s.what = .threadNone)
    (running : s.en = true → pc ≠ .cleanup ∧ pc ≠ .done)
    (stopped : s.en = false → pc.ending = true) :
    Mail { s with loop := pc, owner := owner } where
  dispatched := dispatched
  unlocked := unlocked
  awake waiting := Or.inl (awake waiting)
  empty := mail.empty
  running en := ⟨(mail.running en).1, running en⟩
  stopped := stopped

/-- A step of a call that stores nothing. -/
theorem Mail.advance (mail : Mail s) {id : Nat} {after : CallPc} (owner : Option Thread)
    (sent : List Nat) (apart : s.calls id ≠ .signal)
    (empty : s.en = true → ∀ msg, after = .store msg → s.what = .threadNone) :
    Mail { s with owner := owner, sent := sent, calls := Function.update s.calls id after } where
  dispatched := mail.dispatched
  unlocked := mail.unlocked
  awake waiting := by
    rcases mail.awake waiting with nothing | signal
    · exact Or.inl nothing
    · have other : s.box ≠ id := fun same => apart (same ▸ signal)
      exact Or.inr ((Function.update_of_ne other ..).trans signal)
  empty en other msg pc := by
    dsimp only at pc
    by_cases here : other = id
    · subst here
      rw [Function.update_self] at pc
      exact empty en msg pc
    · rw [Function.update_of_ne here] at pc
      exact mail.empty en other msg pc
  running := mail.running
  stopped := mail.stopped

/-- The store of a call, with the loop outside and no other call inside. -/
theorem Mail.deliver (locked : Locked s) (mail : Mail s) {id : Nat} {msg : Sendable}
    (pc : s.calls id = .store msg) (stored : List Nat) :
    Mail { s with
      what := msg.val, box := id, stored := stored,
      calls := Function.update s.calls id .signal } where
  dispatched _ := msg.property
  unlocked unlock := by
    have outside := (locked.others_outside (by rw [pc]; rfl : (s.calls id).holds = true)).1
    rw [show s.loop = .unlock from unlock] at outside
    cases outside
  awake _ := Or.inr (Function.update_self ..)
  empty en other more there := by
    dsimp only at there
    by_cases here : other = id
    · rw [here, Function.update_self] at there
      cases there
    · have outside :=
        (locked.others_outside (by rw [pc]; rfl : (s.calls id).holds = true)).2 other here
      rw [Function.update_of_ne here] at there
      rw [there] at outside
      cases outside
  running := mail.running
  stopped := mail.stopped

/-- A signal wakes the loop up if it waits. -/
theorem Mail.signal (mail : Mail s) {id : Nat} :
    Mail { s with
      loop := if s.loop = .waiting then .woken else s.loop,
      calls := Function.update s.calls id .unlock } := by
  have same {pc : LoopPc} (here : (if s.loop = .waiting then .woken else s.loop) = pc)
      (apart : pc ≠ .woken) : s.loop ≠ .waiting ∧ s.loop = pc := by
    split at here
    · exact absurd here.symm apart
    · exact ⟨‹_›, here⟩
  refine ⟨fun here => ?_, fun here => ?_, fun here => ?_, fun en other msg pc => ?_, fun en => ?_,
    fun off => ?_⟩
  · exact mail.dispatched (same here (by decide)).2
  · exact mail.unlocked (same here (by decide)).2
  · exact absurd (same here (by decide)).2 (same here (by decide)).1
  · dsimp only at pc
    by_cases here : other = id
    · rw [here, Function.update_self] at pc
      cases pc
    · rw [Function.update_of_ne here] at pc
      exact mail.empty en other msg pc
  · obtain ⟨there, notCleanup, notDone⟩ := mail.running en
    exact ⟨there, fun here => notCleanup (same here (by decide)).2,
      fun here => notDone (same here (by decide)).2⟩
  · have ending := mail.stopped off
    have apart : s.loop ≠ .waiting := by
      intro waiting
      rw [waiting] at ending
      cases ending
    dsimp only
    rw [if_neg apart]
    exact ending

theorem Mail.step (locked : Locked s) (mail : Mail s) (clean : Clean s action)
    (moves : Moves s action next) : Mail next := by
  cases moves with
  | again pc en =>
    exact mail.goto s.owner nofun nofun nofun (fun _ => ⟨nofun, nofun⟩)
      (fun off => absurd (en.symm.trans off) (by decide))
  | leave pc en =>
    exact mail.goto s.owner nofun nofun nofun (fun on => absurd (en.symm.trans on) (by decide))
      (fun _ => rfl)
  | acquire pc free =>
    refine mail.goto _ nofun nofun nofun (fun _ => ⟨nofun, nofun⟩) (fun off => ?_)
    have ending := mail.stopped off
    rcases pc with pc | pc
    · rw [pc] at ending
      cases ending
    · rw [pc] at ending
      cases ending
  | wait pc empty =>
    refine mail.goto _ nofun nofun (fun _ => empty) (fun _ => ⟨nofun, nofun⟩) (fun off => ?_)
    have ending := mail.stopped off
    rw [pc] at ending
    cases ending
  | find pc full =>
    refine mail.goto s.owner (fun _ => full) nofun nofun (fun _ => ⟨nofun, nofun⟩) (fun off => ?_)
    have ending := mail.stopped off
    rw [pc] at ending
    cases ending
  | exit pc full =>
    exact ⟨nofun, nofun, nofun, nofun, nofun, fun _ => rfl⟩
  | filesync pc full =>
    exact ⟨nofun, nofun, nofun, mail.empty, fun en => ⟨(mail.running en).1, nofun, nofun⟩,
      fun _ => rfl⟩
  | unknown pc empty => exact absurd empty (mail.dispatched pc)
  | reset pc =>
    exact ⟨nofun, fun _ => rfl, nofun, fun _ _ _ _ => rfl,
      fun en => ⟨(mail.running en).1, nofun, nofun⟩, fun _ => rfl⟩
  | release pc => exact mail.goto _ nofun nofun nofun (fun _ => ⟨nofun, nofun⟩) (fun _ => rfl)
  | cleanup pc =>
    have off {P : Prop} (en : s.en = true) : P := absurd pc (mail.running en).2.1
    exact ⟨nofun, nofun, nofun, mail.empty, off, fun _ => rfl⟩
  | spurious pc =>
    refine mail.goto s.owner nofun nofun nofun (fun _ => ⟨nofun, nofun⟩) (fun off => ?_)
    have ending := mail.stopped off
    rw [pc] at ending
    cases ending
  | enter id msg pc after outside =>
    refine mail.advance s.owner s.sent (by rw [pc]; nofun) (fun en msg' store => ?_)
    rw [store] at outside
    rcases outside with outside | outside
    · cases outside
    · cases outside
  | lock id msg pc there free =>
    exact mail.advance _ s.sent (by rw [pc]; nofun) (fun en _ _ => clean msg pc en)
  | store id msg pc there => exact mail.deliver locked pc _
  | signal id pc there => exact mail.signal
  | unlock id pc there => exact mail.advance _ _ (by rw [pc]; nofun) (fun _ _ => nofun)

end Mail

/-- A step that stores, handles and returns nothing. -/
theorem Account.quiet (account : Account s) (stored : next.stored = s.stored)
    (handled : next.handled = s.handled) (sent : next.sent = s.sent) (en : next.en = s.en)
    (pending : next.pending = s.pending)
    (calls : ∀ id, (next.calls id).hasStored = (s.calls id).hasStored) : Account next where
  stored_eq := by
    rw [stored, handled, pending]
    exact account.stored_eq
  nodup := stored ▸ account.nodup
  stage := by
    intro id member
    rw [calls id]
    exact account.stage id (stored ▸ member)
  recorded := by
    intro enabled id stage
    rw [stored]
    rw [en] at enabled
    rw [calls id] at stage
    exact account.recorded enabled id stage
  sent_stored := by
    intro id member
    rw [stored]
    exact account.sent_stored id (sent ▸ member)

/-- Where the loop stands only counts for a message that is being reset. -/
theorem pending_loop {pc : LoopPc} (before : s.loop ≠ .reset) (after : pc ≠ .reset)
    (owner : Option Thread) : { s with loop := pc, owner := owner }.pending = s.pending := by
  simp only [State.pending, before, after, ne_eq, not_false_eq_true]

/-- Handling moves the pending message to the log. -/
theorem Account.handle (account : Account s) (pc : s.loop = .dispatch)
    (mail : s.what ≠ .threadNone) (en : s.en = true) (still : Bool) :
    Account { s with loop := .reset, en := still, handled := s.handled ++ [s.box] } where
  stored_eq := by
    have before := account.stored_eq
    rw [State.pending, if_pos ⟨en, mail, by rw [pc]; decide⟩] at before
    rw [State.pending, if_neg fun all => all.2.2 rfl, List.append_nil]
    exact before
  nodup := account.nodup
  stage := account.stage
  recorded := fun _ => account.recorded en
  sent_stored := account.sent_stored

/-- A store into the empty mailbox makes the message the pending one. -/
theorem Account.deliver (account : Account s) {id : Nat} {msg : Sendable}
    (pc : s.calls id = .store msg) (empty : s.en = true → s.what = .threadNone)
    (outside : s.loop ≠ .reset) :
    Account { s with
      what := msg.val, box := id, stored := if s.en then s.stored ++ [id] else s.stored,
      calls := Function.update s.calls id .signal } := by
  obtain ⟨stored_eq, nodup, stage, recorded, sent_stored⟩ := account
  have fresh : id ∉ s.stored := by
    intro member
    have stored := stage id member
    rw [pc] at stored
    cases stored
  have nothing : s.pending = [] := if_neg fun all => all.2.1 (empty all.1)
  rw [nothing, List.append_nil] at stored_eq
  by_cases en : s.en = true
  · rw [if_pos en]
    refine ⟨?_, ?_, fun other member => ?_, fun _ other stored => ?_, fun other member => ?_⟩
    · rw [State.pending, if_pos ⟨en, msg.property, outside⟩, stored_eq]
    · exact List.nodup_append.mpr ⟨nodup, List.nodup_singleton id, fun a member b last same =>
        fresh (by rw [← List.mem_singleton.mp last, ← same]; exact member)⟩
    · dsimp only at member ⊢
      by_cases here : other = id
      · rw [here, Function.update_self]
        rfl
      · rw [Function.update_of_ne here]
        rcases List.mem_append.mp member with old | last
        · exact stage other old
        · exact absurd (List.mem_singleton.mp last) here
    · dsimp only at stored ⊢
      by_cases here : other = id
      · exact List.mem_append_right _ (List.mem_singleton.mpr here)
      · rw [Function.update_of_ne here] at stored
        exact List.mem_append_left _ (recorded en other stored)
    · exact List.mem_append_left _ (sent_stored other member)
  · rw [if_neg en]
    refine ⟨?_, nodup, fun other member => ?_, fun enabled => absurd enabled en, sent_stored⟩
    · rw [State.pending, if_neg fun all => en all.1, List.append_nil]
      exact stored_eq
    · dsimp only at member ⊢
      by_cases here : other = id
      · exact absurd (here ▸ member) fresh
      · rw [Function.update_of_ne here]
        exact stage other member

theorem Account.step (locked : Locked s) (mail : Mail s) (account : Account s)
    (moves : Moves s action next) : Account next := by
  have enabled : s.loop = .dispatch → s.en = true := by
    intro pc
    cases en : s.en with
    | true => rfl
    | false =>
      have stopped := mail.stopped en
      rw [pc] at stopped
      cases stopped
  cases moves with
  | again pc en =>
    exact account.quiet rfl rfl rfl rfl
      (pending_loop (by rw [pc]; decide) (by decide) s.owner) (fun _ => rfl)
  | leave pc en =>
    exact account.quiet rfl rfl rfl rfl
      (pending_loop (by rw [pc]; decide) (by decide) s.owner) (fun _ => rfl)
  | acquire pc free =>
    have outside : s.loop ≠ .reset := by
      rcases pc with pc | pc
      · rw [pc]
        decide
      · rw [pc]
        decide
    exact account.quiet rfl rfl rfl rfl (pending_loop outside (by decide) (some .loop))
      (fun _ => rfl)
  | wait pc empty =>
    exact account.quiet rfl rfl rfl rfl
      (pending_loop (by rw [pc]; decide) (by decide) none) (fun _ => rfl)
  | find pc full =>
    exact account.quiet rfl rfl rfl rfl
      (pending_loop (by rw [pc]; decide) (by decide) s.owner) (fun _ => rfl)
  | exit pc full => exact account.handle pc (mail.dispatched pc) (enabled pc) false
  | filesync pc full =>
    have handled := account.handle pc (mail.dispatched pc) (enabled pc) s.en
    exact handled
  | unknown pc empty => exact absurd empty (mail.dispatched pc)
  | reset pc =>
    have before : s.pending = [] := if_neg fun all => all.2.2 pc
    have after : ({ s with loop := .unlock, what := .threadNone } : State).pending = [] :=
      if_neg fun all => all.2.1 rfl
    exact account.quiet rfl rfl rfl rfl (after.trans before.symm) (fun _ => rfl)
  | release pc =>
    exact account.quiet rfl rfl rfl rfl
      (pending_loop (by rw [pc]; decide) (by decide) none) (fun _ => rfl)
  | cleanup pc =>
    exact account.quiet rfl rfl rfl rfl
      (pending_loop (by rw [pc]; decide) (by decide) s.owner) (fun _ => rfl)
  | spurious pc =>
    exact account.quiet rfl rfl rfl rfl
      (pending_loop (by rw [pc]; decide) (by decide) s.owner) (fun _ => rfl)
  | enter id msg pc after outside =>
    refine account.quiet rfl rfl rfl rfl rfl ?_
    apply stage_update
    rw [pc]
    rcases outside with rfl | rfl
    · rfl
    · rfl
  | lock id msg pc there free =>
    refine account.quiet rfl rfl rfl rfl rfl ?_
    apply stage_update
    rw [pc]
    rfl
  | store id msg pc there =>
    apply account.deliver pc (fun en => mail.empty en id msg pc)
    intro reset
    have owner := (locked.call id).mpr (by rw [pc]; rfl)
    have loop := locked.loop.mpr (by rw [reset]; rfl)
    rw [owner] at loop
    cases loop
  | signal id pc there =>
    refine account.quiet rfl rfl rfl rfl ?_ ?_
    · by_cases waiting : s.loop = .waiting
      · simp only [waiting, ↓reduceIte]
        exact pending_loop (by rw [waiting]; decide) (by decide) s.owner
      · simp only [waiting, ↓reduceIte]
        rfl
    · apply stage_update
      rw [pc]
      rfl
  | unlock id pc there =>
    have same : ∀ other, (Function.update s.calls id .returned other).hasStored =
        (s.calls other).hasStored := by
      apply stage_update
      rw [pc]
      rfl
    refine ⟨account.stored_eq, account.nodup, fun other member => ?_, fun en other stored => ?_,
      fun other member => ?_⟩
    · rw [same other]
      exact account.stage other member
    · rw [same other] at stored
      exact account.recorded en other stored
    · change other ∈ (if s.en = true then s.sent ++ [id] else s.sent) at member
      split at member
      · rename_i en
        rcases List.mem_append.mp member with old | last
        · exact account.sent_stored other old
        · rw [List.mem_singleton.mp last]
          exact account.recorded en id (by rw [pc]; rfl)
      · exact account.sent_stored other member

/-- What a clean run keeps. -/
structure Inv (s : State) : Prop where
  locked : Locked s
  mail : Mail s
  account : Account s

theorem created_inv : Inv created where
  locked := ⟨by decide, fun id => by simp [created, CallPc.holds]⟩
  mail :=
    { dispatched := fun pc => by cases pc
      unlocked := fun _ => rfl
      awake := fun _ => Or.inl rfl
      empty := fun _ _ _ _ => rfl
      running := fun _ => ⟨rfl, by decide, by decide⟩
      stopped := fun en => by cases en }
  account :=
    { stored_eq := rfl
      nodup := List.nodup_nil
      stage := fun id member => by cases member
      recorded := fun _ id stage => by cases stage
      sent_stored := fun id member => by cases member }

theorem Inv.step (inv : Inv s) (clean : Clean s action) (step : mailbox.step s action = some next) :
    Inv next where
  locked := inv.locked.step (step_moves step)
  mail := inv.mail.step inv.locked clean (step_moves step)
  account := inv.account.step inv.locked inv.mail (step_moves step)

end Ct.Cctools
