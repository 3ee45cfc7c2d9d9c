import Ct.Deamon.MailboxDeamon

set_option autoImplicit false

namespace Ct.Deamon

open Ct.Lib

variable {argv1 : Nat → Argument} {s next : State} {order : List Nat}

section Progress

/-- The daemon alone gets to log the texts of these clients. -/
def Drains (argv1 : Nat → Argument) (s : State) (order : List Nat) : Prop :=
  ∃ n final, (mailbox argv1).exec s (List.replicate n .deamon) = some final ∧
    messages final.log = texts argv1 order

theorem Drains.before (step : deamonStep s = some next) (drains : Drains argv1 next order) :
    Drains argv1 s order := by
  obtain ⟨n, final, run, logged⟩ := drains
  exact ⟨n + 1, final, (Machine.exec_cons ..).mpr ⟨next, step, run⟩, logged⟩

theorem Inv.drains_log (inv : Inv argv1 s order) {text : CString} (pc : s.deamon = .log text) :
    Drains argv1 s order := by
  have step : deamonStep s = some { s with
      deamon := .release, log := s.log ++ [.message text] } := by
    simp only [deamonStep, pc]
  obtain ⟨before, i, _, logged, _⟩ := (inv.log pc).stage.at_noted (Or.inl rfl)
  exact Drains.before step ⟨0, _, rfl, logged⟩

theorem Inv.drains_read (inv : Inv argv1 s order) {text : CString} (pc : s.deamon = .read text) :
    Drains argv1 s order := by
  induction remaining : textMax - text.length using Nat.strongRecOn generalizing s text with
  | ind left ih =>
    obtain ⟨deamon, stands, goes, kept⟩ := inv.read pc
    have step : deamonStep s = some { s with deamon := deamon } := by
      simp only [deamonStep, pc, stands]
    apply Drains.before step
    rcases goes with rfl | ⟨c, rfl, short⟩
    · exact kept.drains_log rfl
    · apply ih (textMax - (text ++ [c]).length) _ kept rfl rfl
      rw [List.length_append, List.length_singleton]
      omega

theorem Inv.drains_take (inv : Inv argv1 s order) (pc : s.deamon = .take) :
    Drains argv1 s order := by
  have step : deamonStep s = some { s with state := 2, deamon := .read [] } := by
    simp only [deamonStep, pc]
  exact Drains.before step ((inv.take pc).drains_read rfl)

theorem Inv.drains_check (inv : Inv argv1 s order) (pc : s.deamon = .check)
    (state : s.state = 1) : Drains argv1 s order := by
  have step : deamonStep s = some { s with deamon := .take } := by
    simp only [deamonStep, pc, state, if_true]
  have kept := inv.check pc
  rw [if_pos state] at kept
  exact Drains.before step (kept.drains_take rfl)

theorem Inv.drains_loop (inv : Inv argv1 s order) (pc : s.deamon = .loop) (state : s.state = 1)
    (few : s.thisRunning < intMax) : Drains argv1 s order := by
  obtain ⟨before, i, _, _, on, _⟩ := inv.stage.at_full state
  obtain ⟨next, step, kept, checks⟩ := inv.loop pc few
  have same := checks on
  subst same
  exact Drains.before step (kept.drains_check rfl state)

theorem Inv.drains_logLook (inv : Inv argv1 s order) {seen : Nat} {text : CString}
    (pc : s.deamon = .logLook seen text) (state : s.state = 1) (few : s.thisRunning < intMax) :
    Drains argv1 s order := by
  have step : deamonStep s = some { s with
      deamon := .loop, log := s.log ++ [.loopping seen text] } := by
    simp only [deamonStep, pc]
  exact Drains.before step ((inv.logLook pc).drains_loop rfl state few)

theorem Inv.drains_lookData (inv : Inv argv1 s order) {seen : Nat} {text : CString}
    (pc : s.deamon = .lookData seen text) (state : s.state = 1) (few : s.thisRunning < intMax) :
    Drains argv1 s order := by
  induction remaining : textMax - text.length using Nat.strongRecOn generalizing s text with
  | ind left ih =>
    obtain ⟨deamon, stands, goes, kept⟩ := inv.lookData pc
    have step : deamonStep s = some { s with deamon := deamon } := by
      simp only [deamonStep, pc, stands]
    apply Drains.before step
    rcases goes with rfl | ⟨c, rfl, short⟩
    · exact kept.drains_logLook rfl state few
    · apply ih (textMax - (text ++ [c]).length) _ kept rfl state few rfl
      rw [List.length_append, List.length_singleton]
      omega

theorem Inv.drains_lookState (inv : Inv argv1 s order) (pc : s.deamon = .lookState)
    (state : s.state = 1) (few : s.thisRunning < intMax) : Drains argv1 s order := by
  have step : deamonStep s = some { s with deamon := .lookData s.state [] } := by
    simp only [deamonStep, pc]
  exact Drains.before step ((inv.lookState pc).drains_lookData rfl state few)

/-- A text that is in the mailbox is logged. -/
theorem Inv.drains_full (inv : Inv argv1 s order) (state : s.state = 1)
    (few : s.thisRunning < intMax) : Drains argv1 s order := by
  obtain ⟨before, i, _, deamon, _⟩ := inv.stage.at_full state
  cases pc : s.deamon with
  | loop => exact inv.drains_loop pc state few
  | check => exact inv.drains_check pc state
  | take => exact inv.drains_take pc
  | lookState => exact inv.drains_lookState pc state few
  | lookData seen text => exact inv.drains_lookData pc state few
  | logLook seen text => exact inv.drains_logLook pc state few
  | read text => simp [pc, DeamonPc.Calm] at deamon
  | log text => simp [pc, DeamonPc.Calm] at deamon
  | release => simp [pc, DeamonPc.Calm] at deamon
  | compare k => simp [pc, DeamonPc.Calm] at deamon
  | left => simp [pc, DeamonPc.Calm] at deamon
  | broken => simp [pc, DeamonPc.Calm] at deamon

theorem Inv.drains (inv : Inv argv1 s order) (few : s.thisRunning < intMax) :
    Drains argv1 s order := by
  cases inv.stage with
  | free _ _ _ logged => exact ⟨0, s, rfl, logged⟩
  | filling i _ _ _ _ _ _ logged => exact ⟨0, s, rfl, logged⟩
  | full before i mail state => exact inv.drains_full state few
  | taken before i mail state deamon =>
    rcases deamon with ⟨text, stands, _⟩ | stands
    · exact inv.drains_read stands
    · exact inv.drains_log stands
  | noted before i mail _ logged => exact ⟨0, s, rfl, logged⟩

end Progress

section Runs

/-- The messages in the log are the texts of the clients that have finished, in one order of them
and each once; at most the last text is missing, and the daemon gets to it before it leaves. Each
decision to exit is about the message that has been logged before it. -/
structure Delivered (argv1 : Nat → Argument) (s : State) (order : List Nat) : Prop where
  once : order.Nodup
  finished : ∀ i, i ∈ order ↔ s.clients i = .finished
  logged : messages s.log = texts argv1 order ∨ messages s.log = texts argv1 order.dropLast
  drains : Drains argv1 s order
  left : s.deamon = .left → messages s.log = texts argv1 order
  inside : s.deamon ≠ .broken ∧ ∀ i, s.clients i ≠ .broken
  decided : s.decisions <+: (messages s.log).map fun text => text = deamonExit

theorem Mail.logged_dropLast {before : List Nat} {i : Nat} (mail : Mail argv1 s order before i)
    (logged : messages s.log = texts argv1 before) :
    messages s.log = texts argv1 order.dropLast := by
  rw [logged, mail.order_eq, List.dropLast_concat]

/-- The decisions so far are about the first messages. -/
theorem Mail.decided_prefix {before : List Nat} {i : Nat} (mail : Mail argv1 s order before i) :
    s.decisions <+: asked argv1 order := by
  rw [mail.decided, mail.order_eq, asked_snoc]
  exact List.prefix_append _ _

theorem Inv.delivered (inv : Inv argv1 s order) (few : s.thisRunning < intMax)
    (whole : ∀ i, s.clients i ≠ .broken) : Delivered argv1 s order := by
  refine ⟨inv.nodup, inv.finished, ?_, inv.drains few, ?_, ⟨?_, whole⟩, ?_⟩
  · cases inv.stage with
    | free _ _ _ logged => exact Or.inl logged
    | filling i _ _ _ _ _ _ logged => exact Or.inl logged
    | full before i mail _ _ _ logged => exact Or.inr (mail.logged_dropLast logged)
    | taken before i mail _ _ logged => exact Or.inr (mail.logged_dropLast logged)
    | noted before i mail _ logged => exact Or.inl logged
  · intro pc
    cases inv.stage with
    | free _ _ _ logged => exact logged
    | filling i _ deamon => simp [pc, DeamonPc.Calm] at deamon
    | full before i mail _ deamon => simp [pc, DeamonPc.Calm] at deamon
    | taken before i mail _ deamon => simp [pc] at deamon
    | noted before i mail deamon => simp [pc] at deamon
  · intro pc
    cases inv.stage with
    | free _ deamon => simp [pc, DeamonPc.Calm] at deamon
    | filling i _ deamon => simp [pc, DeamonPc.Calm] at deamon
    | full before i mail _ deamon => simp [pc, DeamonPc.Calm] at deamon
    | taken before i mail _ deamon => simp [pc] at deamon
    | noted before i mail deamon => simp [pc] at deamon
  · cases inv.stage with
    | free _ _ _ logged decided =>
      rw [logged, decided]
      exact List.prefix_rfl
    | filling i _ _ _ _ _ _ logged decided =>
      rw [logged, decided]
      exact List.prefix_rfl
    | full before i mail _ _ _ logged =>
      rw [logged, mail.decided]
      exact List.prefix_rfl
    | taken before i mail _ _ logged =>
      rw [logged, mail.decided]
      exact List.prefix_rfl
    | noted before i mail _ logged =>
      rw [logged]
      exact mail.decided_prefix

/-- The invariant of the runs: the counter of the loop is not at its end. -/
def Running (argv1 : Nat → Argument) (s : State) : Prop :=
  (∃ order, Inv argv1 s order) ∧ s.thisRunning < intMax ∧ ∀ i, s.clients i ≠ .broken

theorem clientStep_keeps {i : Nat} (step : clientStep argv1 s i = some next) :
    next.thisRunning = s.thisRunning := by
  cases pc : s.clients i with
  | test =>
    simp only [clientStep, pc, Option.some_inj] at step
    subst step
    split
    · rfl
    · rfl
  | claim =>
    simp only [clientStep, pc, Option.some_inj] at step
    rw [← step]
  | copy k =>
    simp only [clientStep, pc] at step
    split at step
    · split at step
      · cases step
        rfl
      · cases step
        rfl
    · cases step
      rfl
  | publish =>
    simp only [clientStep, pc, Option.some_inj] at step
    rw [← step]
  | finished =>
    simp only [clientStep, pc] at step
    cases step
  | broken =>
    simp only [clientStep, pc] at step
    cases step

/-- The daemon leaves the clients alone, and counts in the loop only. -/
theorem deamonStep_keeps (step : deamonStep s = some next) :
    next.clients = s.clients ∧ (next.thisRunning = s.thisRunning ∨ next.thisRunning = 0 ∨
      s.deamon = .loop ∧ (next.thisRunning = 1 ∨ next.thisRunning = s.thisRunning + 1)) := by
  cases pc : s.deamon with
  | loop =>
    simp only [deamonStep, pc] at step
    split at step
    · cases step
      exact ⟨rfl, Or.inr (Or.inr ⟨rfl, Or.inl rfl⟩)⟩
    · split at step
      · cases step
        exact ⟨rfl, Or.inr (Or.inr ⟨rfl, Or.inr rfl⟩)⟩
      · cases step
        exact ⟨rfl, Or.inl rfl⟩
  | compare k =>
    simp only [deamonStep, pc] at step
    split at step
    · cases step
      exact ⟨rfl, Or.inl rfl⟩
    · split at step
      · cases step
        exact ⟨rfl, Or.inl rfl⟩
      · split at step
        · cases step
          exact ⟨rfl, Or.inr (Or.inl rfl)⟩
        · cases step
          exact ⟨rfl, Or.inl rfl⟩
  | left =>
    simp only [deamonStep, pc] at step
    cases step
  | broken =>
    simp only [deamonStep, pc] at step
    cases step
  | _ =>
    simp only [deamonStep, pc, Option.some_inj] at step
    rw [← step]
    exact ⟨rfl, Or.inl rfl⟩

theorem Running.step {action : Action} (running : Running argv1 s) (fair : Fair argv1 s action)
    (step : (mailbox argv1).step s action = some next) : Running argv1 next := by
  obtain ⟨⟨order, inv⟩, few, whole⟩ := running
  cases action with
  | client i =>
    refine ⟨inv.client fair step, ?_, inv.unbroken step whole⟩
    rwa [clientStep_keeps step]
  | deamon =>
    obtain ⟨same, counts⟩ := deamonStep_keeps step
    refine ⟨⟨order, inv.deamon (fun _ => few) step⟩, ?_, ?_⟩
    · have room : 1 < intMax := by decide
      rcases counts with counts | counts | ⟨pc, counts⟩
      · rwa [counts]
      · omega
      · have room' : s.thisRunning + 1 < intMax := fair pc
        omega
    · rwa [same]

/-- Every text is logged once and whole, as long as a client claims the mailbox only while it is
free and the daemon neither compares nor leaves. -/
theorem delivered_of_fair {actions : List Action} {final : State}
    (fair : (mailbox argv1).EveryStep (Fair argv1) started actions)
    (run : (mailbox argv1).exec started actions = some final) :
    ∃ order, Delivered argv1 final order := by
  have start : Running argv1 started := by
    refine ⟨⟨[], started_inv argv1⟩, by decide, ?_⟩
    intro i
    simp [started]
  have running := Machine.exec_invariant_of_every (Running argv1)
    (fun _ _ _ running fair step => running.step fair step) start fair run
  obtain ⟨⟨order, inv⟩, few, whole⟩ := running
  exact ⟨order, inv.delivered few whole⟩

/-- The texts of two clients; the others send nothing. -/
def greeting : Nat → Argument
  | 0 => ⟨['h', 'i'], by decide⟩
  | 1 => ⟨['y', 'o', 'u'], by decide⟩
  | _ => ⟨[], by decide⟩

/-- A client from its test to its end. -/
def clientWhole (i : Nat) : List Action := List.replicate 6 (.client i)

/-- The daemon from its loop to the line of the log about a text of two characters. -/
def deamonRound : List Action := List.replicate 7 .deamon

/-- Both clients find the mailbox free, and the second one stores between the stores of the
first. -/
def meeting : List Action :=
  [.client 0, .client 1, .client 0, .client 0] ++ List.replicate 6 (.client 1) ++
    List.replicate 3 (.client 0)

/-- The start with the first cells of the memory written out. -/
def startedOn (rest : List Char) : State :=
  { started with data := ['\x00', '\x00', '\x00', '\x00'] ++ rest }

theorem greeting_run (rest : List Char) : ∃ final,
    (mailbox greeting).exec (startedOn rest) (clientWhole 0 ++ deamonRound) = some final ∧
      final.clients 0 = .finished ∧ messages final.log = [['h', 'i']] := ⟨_, rfl, rfl, rfl⟩

theorem meeting_run (rest : List Char) : ∃ final,
    (mailbox greeting).exec (startedOn rest) (meeting ++ deamonRound) = some final ∧
      final.clients 0 = .finished ∧ final.clients 1 = .finished ∧
      messages final.log = [['y', 'i']] := ⟨_, rfl, rfl, rfl, rfl⟩

theorem fair_claim {i : Nat} (state : s.state = 0) (deamon : s.deamon = .loop)
    (counts : s.thisRunning = 1) (short : (argv1 i).val.length ≤ textMax) :
    Fair argv1 s (.client i) := by
  intro _
  rw [deamon, counts]
  exact ⟨state, by simp, by simp, by decide, short⟩

theorem fair_client {i : Nat} (pc : ClientPc) (stands : s.clients i = pc) (away : pc ≠ .claim) :
    Fair argv1 s (.client i) := fun claim => absurd (stands.symm.trans claim) away

theorem fair_deamon (n : Int) (counts : s.thisRunning = n) (few : n + 1 < intMax) :
    Fair argv1 s .deamon := by
  intro _
  rwa [counts]

theorem greeting_fair (rest : List Char) :
    (mailbox greeting).EveryStep (Fair greeting) (startedOn rest)
      (clientWhole 0 ++ deamonRound) := by
  apply Machine.every_cons rfl (fair_client .test rfl (by decide))
  apply Machine.every_cons rfl (fair_claim rfl rfl rfl (by decide))
  apply Machine.every_cons rfl (fair_client (.copy 0) rfl (by decide))
  apply Machine.every_cons rfl (fair_client (.copy 1) rfl (by decide))
  apply Machine.every_cons rfl (fair_client (.copy 2) rfl (by decide))
  apply Machine.every_cons rfl (fair_client .publish rfl (by decide))
  apply Machine.every_cons rfl (fair_deamon 1 rfl (by decide))
  iterate 6 apply Machine.every_cons rfl (fair_deamon 2 rfl (by decide))
  trivial

theorem delivered_of_greeting : ∃ final,
    (mailbox greeting).exec started (clientWhole 0 ++ deamonRound) = some final ∧
      final.clients 0 = .finished ∧ messages final.log = [['h', 'i']] ∧
      ∃ order, Delivered greeting final order := by
  obtain ⟨final, run, finished, logged⟩ := greeting_run (List.replicate 1020 '\x00')
  exact ⟨final, run, finished, logged,
    delivered_of_fair (greeting_fair (List.replicate 1020 '\x00')) run⟩

/-- What is logged after two clients have met is the text of neither. -/
theorem meeting_mixes : ∃ final,
    (mailbox greeting).exec started (meeting ++ deamonRound) = some final ∧
      final.clients 0 = .finished ∧ final.clients 1 = .finished ∧
      messages final.log = [['y', 'i']] ∧ ¬ ∃ order, Delivered greeting final order := by
  obtain ⟨final, run, first, second, logged⟩ := meeting_run (List.replicate 1020 '\x00')
  refine ⟨final, run, first, second, logged, ?_⟩
  rintro ⟨order, delivered⟩
  have nobody : ∀ i, (greeting i).val ≠ ['y', 'i'] := by
    intro i
    match i with
    | 0 => decide
    | 1 => decide
    | i + 2 => simp [greeting]
  have sent : ['y', 'i'] ∈ texts greeting order := by
    have member : ['y', 'i'] ∈ messages final.log := by rw [logged, List.mem_singleton]
    rcases delivered.logged with all | most
    · rwa [all] at member
    · rw [most] at member
      exact List.map_subset _ (List.dropLast_subset order) member
  obtain ⟨i, _, same⟩ := List.mem_map.mp sent
  exact nobody i same

end Runs

end Ct.Deamon
