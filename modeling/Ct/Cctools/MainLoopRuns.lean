import Ct.Cctools.MainLoopInv

set_option autoImplicit false

namespace Ct.Cctools

open Ct.Lib

variable {s next : State} {action : Action}

section Progress

/-- The loop alone gets to handle this message. -/
def LoopHandles (s : State) (id : Nat) : Prop :=
  ∃ n final, mailbox.exec s (List.replicate n .loop) = some final ∧ id ∈ final.handled

theorem LoopHandles.before {id : Nat} (step : mailbox.step s .loop = some next)
    (handles : LoopHandles next id) : LoopHandles s id := by
  obtain ⟨n, final, run, handled⟩ := handles
  exact ⟨n + 1, final, (Machine.exec_cons ..).mpr ⟨next, step, run⟩, handled⟩

theorem handles_dispatch (pc : s.loop = .dispatch) (mail : s.what ≠ .threadNone) :
    LoopHandles s s.box := by
  cases what : s.what with
  | threadNone => exact absurd what mail
  | threadExit =>
    have step : mailbox.step s .loop =
        some { s with loop := .reset, en := false, handled := s.handled ++ [s.box] } := by
      simp only [mailbox, nativeMainLoop, pc, what]
    exact LoopHandles.before step ⟨0, _, rfl, List.mem_append_right _ (List.mem_singleton_self _)⟩
  | threadFilesync =>
    have step : mailbox.step s .loop =
        some { s with loop := .reset, handled := s.handled ++ [s.box] } := by
      simp only [mailbox, nativeMainLoop, pc, what]
    exact LoopHandles.before step ⟨0, _, rfl, List.mem_append_right _ (List.mem_singleton_self _)⟩

theorem handles_whatTest (pc : s.loop = .whatTest) (mail : s.what ≠ .threadNone) :
    LoopHandles s s.box := by
  have step : mailbox.step s .loop = some { s with loop := .dispatch } := by
    simp only [mailbox, nativeMainLoop, pc, mail, ↓reduceIte]
  exact LoopHandles.before step (handles_dispatch rfl mail)

theorem handles_lock (pc : s.loop = .lock ∨ s.loop = .woken) (mail : s.what ≠ .threadNone)
    (free : s.owner = none) : LoopHandles s s.box := by
  have step : mailbox.step s .loop = some { s with owner := some .loop, loop := .whatTest } := by
    rcases pc with pc | pc
    · simp only [mailbox, nativeMainLoop, pc, free, ↓reduceIte]
    · simp only [mailbox, nativeMainLoop, pc, free, ↓reduceIte]
  exact LoopHandles.before step (handles_whatTest rfl mail)

theorem handles_enTest (pc : s.loop = .enTest) (en : s.en = true) (mail : s.what ≠ .threadNone)
    (free : s.owner = none) : LoopHandles s s.box := by
  have step : mailbox.step s .loop = some { s with loop := .lock } := by
    simp only [mailbox, nativeMainLoop, pc, en, ↓reduceIte]
  exact LoopHandles.before step (handles_lock (Or.inl rfl) mail free)

/-- With the mutex free, the loop gets to the message unless it waits for a signal. -/
theorem handles_free (en : s.en = true) (mail : s.what ≠ .threadNone) (free : s.owner = none)
    (awake : s.loop ≠ .waiting) (outside : s.loop.holds = false)
    (running : s.loop ≠ .cleanup ∧ s.loop ≠ .done) : LoopHandles s s.box := by
  cases pc : s.loop with
  | enTest => exact handles_enTest pc en mail free
  | lock => exact handles_lock (Or.inl pc) mail free
  | woken => exact handles_lock (Or.inr pc) mail free
  | waiting => exact absurd pc awake
  | cleanup => exact absurd pc running.1
  | done => exact absurd pc running.2
  | whatTest => rw [pc] at outside; cases outside
  | dispatch => rw [pc] at outside; cases outside
  | reset => rw [pc] at outside; cases outside
  | unlock => rw [pc] at outside; cases outside

/-- The message can still be handled without another call: by steps of the loop and of the call
that holds the mutex. -/
def Drains (s : State) (id : Nat) : Prop :=
  ∃ actions final,
    (∀ action ∈ actions, action = .loop ∨
      ∃ caller, action = .sender caller ∧ s.owner = some (.call caller)) ∧
    mailbox.exec s actions = some final ∧ id ∈ final.handled

theorem LoopHandles.drains {id : Nat} (handles : LoopHandles s id) : Drains s id := by
  obtain ⟨n, final, run, handled⟩ := handles
  exact ⟨_, final, fun action member => Or.inl (List.eq_of_mem_replicate member), run, handled⟩

/-- With the mutex free nobody waits while there is mail. -/
theorem Inv.drains_free (inv : Inv s) (free : s.owner = none) (en : s.en = true)
    (mail : s.what ≠ .threadNone) : LoopHandles s s.box := by
  obtain ⟨loop, calls⟩ := inv.locked.free free
  apply handles_free en mail free _ loop (inv.mail.running en).2
  intro waiting
  rcases inv.mail.awake waiting with empty | signal
  · exact mail empty
  · have outside := calls s.box
    rw [signal] at outside
    cases outside

/-- The loop holds the mutex and has not yet come to the reset. -/
theorem Inv.drains_loop (inv : Inv s) (owner : s.owner = some .loop)
    (mail : s.what ≠ .threadNone) (before : s.loop ≠ .reset) : LoopHandles s s.box := by
  have holds := inv.locked.loop.mp owner
  cases pc : s.loop with
  | whatTest => exact handles_whatTest pc mail
  | dispatch => exact handles_dispatch pc mail
  | reset => exact absurd pc before
  | unlock => exact absurd (inv.mail.unlocked pc) mail
  | enTest => rw [pc] at holds; cases holds
  | lock => rw [pc] at holds; cases holds
  | waiting => rw [pc] at holds; cases holds
  | woken => rw [pc] at holds; cases holds
  | cleanup => rw [pc] at holds; cases holds
  | done => rw [pc] at holds; cases holds

/-- A step of the call that holds the mutex comes before what drains the message. -/
theorem drains_after_call {id caller : Nat} (owner : s.owner = some (.call caller))
    (step : mailbox.step s (.sender caller) = some next)
    (after : next.owner = s.owner ∧ Drains next id ∨ LoopHandles next id) : Drains s id := by
  rcases after with ⟨same, actions, final, parties, run, handled⟩ | handles
  · refine ⟨.sender caller :: actions, final, ?_, ?_, handled⟩
    · intro action member
      rcases List.mem_cons.mp member with rfl | member
      · exact Or.inr ⟨caller, rfl, owner⟩
      · exact same ▸ parties action member
    · exact (Machine.exec_cons ..).mpr ⟨next, step, run⟩
  · obtain ⟨n, final, run, handled⟩ := handles
    refine ⟨.sender caller :: List.replicate n .loop, final, ?_, ?_, handled⟩
    · intro action member
      rcases List.mem_cons.mp member with rfl | member
      · exact Or.inr ⟨caller, rfl, owner⟩
      · exact Or.inl (List.eq_of_mem_replicate member)
    · exact (Machine.exec_cons ..).mpr ⟨next, step, run⟩

theorem clean_of_not_lock {caller : Nat} (behind : ∀ msg, s.calls caller ≠ .lock msg) :
    Clean s (.sender caller) :=
  fun msg lock => absurd lock (behind msg)

/-- A call that has signalled lets go of the mutex, and nobody has to be woken up any more. -/
theorem Inv.drains_unlock (inv : Inv s) {caller : Nat} (pc : s.calls caller = .unlock)
    (en : s.en = true) (mail : s.what ≠ .threadNone) : Drains s s.box := by
  have owner := (inv.locked.call caller).mpr (by rw [pc]; rfl)
  have there := (inv.mail.running en).1
  have step : mailbox.step s (.sender caller) =
      some { s with
        owner := none, sent := s.sent ++ [caller],
        calls := Function.update s.calls caller .returned } := by
    simp only [mailbox, nativeSendMessage, there, pc, en, ↓reduceIte]
  have kept := inv.step (clean_of_not_lock (by rw [pc]; intro msg lock; cases lock)) step
  exact drains_after_call owner step (Or.inr (kept.drains_free rfl en mail))

/-- A call that is about to signal wakes the loop up first. -/
theorem Inv.drains_signal (inv : Inv s) {caller : Nat} (pc : s.calls caller = .signal)
    (en : s.en = true) (mail : s.what ≠ .threadNone) : Drains s s.box := by
  have owner := (inv.locked.call caller).mpr (by rw [pc]; rfl)
  have there := (inv.mail.running en).1
  have step : mailbox.step s (.sender caller) =
      some { s with
        loop := if s.loop = .waiting then .woken else s.loop,
        calls := Function.update s.calls caller .unlock } := by
    simp only [mailbox, nativeSendMessage, there, pc, ↓reduceIte]
  have kept := inv.step (clean_of_not_lock (by rw [pc]; intro msg lock; cases lock)) step
  have unlock : Function.update s.calls caller .unlock caller = .unlock := Function.update_self ..
  exact drains_after_call owner step (Or.inl ⟨rfl, kept.drains_unlock unlock en mail⟩)

/-- What is pending can be handled, wherever the parties stand. -/
theorem Inv.drains (inv : Inv s) (en : s.en = true) (mail : s.what ≠ .threadNone)
    (before : s.loop ≠ .reset) : Drains s s.box := by
  cases owner : s.owner with
  | none => exact (inv.drains_free owner en mail).drains
  | some thread =>
    cases thread with
    | loop => exact (inv.drains_loop owner mail before).drains
    | call caller =>
      have holds := (inv.locked.call caller).mp owner
      cases pc : s.calls caller with
      | store msg => exact absurd (inv.mail.empty en caller msg pc) mail
      | signal => exact inv.drains_signal pc en mail
      | unlock => exact inv.drains_unlock pc en mail
      | idle => rw [pc] at holds; cases holds
      | lock => rw [pc] at holds; cases holds
      | returned => rw [pc] at holds; cases holds
      | refused => rw [pc] at holds; cases holds

end Progress

/-- Of the messages sent before an exit is handled none is handled twice, they are handled in the
order in which they were sent, and each of them has been handled or still can be. -/
structure NoneLost (s : State) : Prop where
  once : s.handled.Nodup
  order : s.handled <+: s.stored
  kept : ∀ id ∈ s.sent, id ∈ s.handled ∨ s.en = true ∧ Drains s id

theorem Inv.noneLost (inv : Inv s) : NoneLost s where
  once := by
    have nodup := inv.account.nodup
    rw [inv.account.stored_eq] at nodup
    exact nodup.of_append_left
  order := ⟨s.pending, inv.account.stored_eq.symm⟩
  kept := by
    intro id member
    have stored := inv.account.sent_stored id member
    rw [inv.account.stored_eq] at stored
    rcases List.mem_append.mp stored with handled | pending
    · exact Or.inl handled
    · unfold State.pending at pending
      split at pending
      · rename_i mail
        rw [List.mem_singleton.mp pending]
        exact Or.inr ⟨mail.1, inv.drains mail.1 mail.2.1 mail.2.2⟩
      · cases pending

/-- No message is lost as long as no call takes the mutex while there is mail. -/
theorem none_lost_of_clean {actions : List Action} {final : State}
    (clean : mailbox.EveryStep Clean created actions)
    (run : mailbox.exec created actions = some final) : NoneLost final := by
  apply Inv.noneLost
  exact Machine.exec_invariant_of_every Inv (fun _ _ _ inv clean step => inv.step clean step)
    created_inv clean run

/-- One call of `native_send_message` from its first step to its last. -/
def sendWhole (id : Nat) (msg : Sendable) : List Action :=
  .enter id msg :: List.replicate 4 (.sender id)

/-- The loop wakes up, handles what it finds and tests `en` again. -/
def loopRound : List Action :=
  List.replicate 6 .loop

def filesync : Sendable := ⟨.threadFilesync, by decide⟩

def threadExit : Sendable := ⟨.threadExit, by decide⟩

theorem clean_of_empty (empty : s.what = .threadNone) : Clean s action := by
  cases action with
  | sender id => exact fun _ _ _ => empty
  | loop => trivial
  | spurious => trivial
  | enter id msg => trivial

theorem clean_one_send :
    mailbox.EveryStep Clean created (sendWhole 0 filesync ++ loopRound) := by
  -- up to the store the mailbox is empty, then the call no longer stands at the mutex
  apply Machine.every_cons rfl (clean_of_empty rfl)
  apply Machine.every_cons rfl (clean_of_empty rfl)
  apply Machine.every_cons rfl (clean_of_empty rfl)
  apply Machine.every_cons rfl (clean_of_not_lock fun msg lock => by cases lock)
  apply Machine.every_cons rfl (clean_of_not_lock fun msg lock => by cases lock)
  iterate 6 apply Machine.every_cons rfl trivial
  trivial

theorem none_lost_of_one_send : ∃ final,
    mailbox.exec created (sendWhole 0 filesync ++ loopRound) = some final ∧
      final.sent = [0] ∧ final.handled = [0] ∧ NoneLost final := by
  have ends : ∃ final, mailbox.exec created (sendWhole 0 filesync ++ loopRound) = some final ∧
      final.sent = [0] ∧ final.handled = [0] := ⟨_, rfl, rfl, rfl⟩
  obtain ⟨final, run, sent, handled⟩ := ends
  exact ⟨final, run, sent, handled, none_lost_of_clean clean_one_send run⟩

/-- Two messages between two rounds of the loop: the first one is lost. -/
theorem two_sends_one_round : ∃ final,
    mailbox.exec created (sendWhole 0 filesync ++ sendWhole 1 filesync ++ loopRound ++
      sendWhole 2 threadExit ++ loopRound) = some final ∧
      final.sent = [0, 1, 2] ∧ final.handled = [1, 2] ∧ ¬ NoneLost final := by
  refine ⟨_, rfl, rfl, rfl, fun safe => ?_⟩
  rcases safe.kept 0 (by decide) with handled | ⟨en, -⟩
  · revert handled
    decide
  · cases en

end Ct.Cctools
