import Ct.Deamon.MailboxInv

set_option autoImplicit false

namespace Ct.Deamon

open Ct.Lib

variable {argv1 : Nat → Argument} {s : State} {order : List Nat}

theorem texts_snoc (argv1 : Nat → Argument) (before : List Nat) (i : Nat) :
    texts argv1 (before ++ [i]) = texts argv1 before ++ [(argv1 i).val] := List.map_append

theorem asked_snoc (argv1 : Nat → Argument) (before : List Nat) (i : Nat) :
    asked argv1 (before ++ [i]) =
      asked argv1 before ++ [decide ((argv1 i).val = deamonExit)] := by
  rw [asked, texts_snoc, List.map_append]
  rfl

section Clients

section Update

variable {clients : Nat → ClientPc} {i : Nat} {pc : ClientPc} (P : ClientPc → Prop)

/-- A client moves outside of `P`. -/
theorem update_outside (was : ¬ P (clients i)) (now : ¬ P pc) (j : Nat) :
    P (Function.update clients i pc j) ↔ P (clients j) := by
  by_cases same : j = i
  · rw [same, Function.update_self]
    exact iff_of_false now was
  · rw [Function.update_of_ne same]

/-- A client is the only one in `P`. -/
theorem update_inside (now : P pc) (others : ∀ j, P (clients j) → j = i) (j : Nat) :
    P (Function.update clients i pc j) ↔ j = i := by
  by_cases same : j = i
  · rw [same, Function.update_self]
    exact iff_of_true now rfl
  · rw [Function.update_of_ne same]
    exact iff_of_false (fun inside => same (others j inside)) same

end Update

/-- The mailbox only knows the clients that are inside. -/
theorem Stage.outside {clients : Nat → ClientPc} (stage : Stage argv1 s order)
    (same : ∀ j, (clients j).Inside ↔ (s.clients j).Inside)
    (stays : ∀ j, (s.clients j).Inside → clients j = s.clients j) :
    Stage argv1 { s with clients := clients } order := by
  have away : (∀ j, ¬ (s.clients j).Inside) → ∀ j, ¬ (clients j).Inside :=
    fun nobody j inside => nobody j ((same j).mp inside)
  have kept : ∀ {before i}, Mail argv1 s order before i →
      Mail argv1 { s with clients := clients } order before i :=
    fun mail => ⟨mail.order_eq, away mail.nobody, mail.short, mail.whole, mail.decided⟩
  cases stage with
  | free state deamon nobody logged decided =>
    exact .free state deamon (away nobody) logged decided
  | filling i state deamon on alone short filled logged decided =>
    refine .filling i state deamon on (fun j => (same j).trans (alone j)) short ?_ logged decided
    change Filled _ s.data (clients i)
    rwa [stays i ((alone i).mpr rfl)]
  | full before i mail state deamon on logged =>
    exact .full before i (kept mail) state deamon on logged
  | taken before i mail state deamon logged => exact .taken before i (kept mail) state deamon logged
  | noted before i mail deamon logged => exact .noted before i (kept mail) deamon logged

/-- A client that is inside has the mailbox. -/
theorem Stage.inside {i : Nat} (stage : Stage argv1 s order) (inside : (s.clients i).Inside) :
    s.state = 2 ∧ s.deamon.Calm ∧ s.thisRunning ≠ 0 ∧ (∀ j, (s.clients j).Inside ↔ j = i) ∧
      (argv1 i).val.length ≤ textMax ∧ Filled (argv1 i).val s.data (s.clients i) ∧
      messages s.log = texts argv1 order ∧ s.decisions = asked argv1 order := by
  cases stage with
  | free state deamon nobody logged decided => exact absurd inside (nobody i)
  | filling j state deamon on alone short filled logged decided =>
    have same := (alone i).mp inside
    subst same
    exact ⟨state, deamon, on, alone, short, filled, logged, decided⟩
  | full before j mail => exact absurd inside (mail.nobody i)
  | taken before j mail => exact absurd inside (mail.nobody i)
  | noted before j mail => exact absurd inside (mail.nobody i)

/-- A client that finds the mailbox free goes on to claim it. -/
theorem Inv.test {i : Nat} (inv : Inv argv1 s order) (pc : s.clients i = .test) :
    Inv argv1 { s with clients := Function.update s.clients i .claim } order := by
  refine ⟨inv.sized, inv.tail, inv.nodup, ?_, inv.counts, inv.look, inv.stage.outside ?_ ?_⟩
  · intro j
    exact (inv.finished j).trans (update_outside (· = .finished) (by simp [pc]) (by simp) j).symm
  · exact update_outside ClientPc.Inside (by simp [pc, ClientPc.Inside]) (by simp [ClientPc.Inside])
  · intro j inside
    apply Function.update_of_ne
    rintro rfl
    rw [pc] at inside
    exact inside

/-- The mailbox is claimed while it is free, the daemon does not compare and has not decided to
exit, and the text fits; the loop does not count too far. -/
def Fair (argv1 : Nat → Argument) (s : State) : Action → Prop
  | .client i => s.clients i = .claim →
    s.state = 0 ∧ (∀ k, s.deamon ≠ .compare k) ∧ s.deamon ≠ .left ∧ s.thisRunning ≠ 0 ∧
      (argv1 i).val.length ≤ textMax
  | .deamon => s.deamon = .loop → s.thisRunning + 1 < intMax

theorem Inv.claim {i : Nat} (inv : Inv argv1 s order) (pc : s.clients i = .claim)
    (fair : Fair argv1 s (.client i)) :
    Inv argv1 { s with state := 2, clients := Function.update s.clients i (.copy 0) } order := by
  obtain ⟨empty, compares, there, on, short⟩ := fair pc
  refine ⟨inv.sized, inv.tail, inv.nodup, ?_, inv.counts, inv.look, ?_⟩
  · intro j
    exact (inv.finished j).trans (update_outside (· = .finished) (by simp [pc]) (by simp) j).symm
  · cases inv.stage with
    | free state deamon nobody logged decided =>
      refine .filling i rfl (deamon.resolve_right there) on ?_ short ?_ logged decided
      · exact update_inside ClientPc.Inside trivial fun j inside => absurd inside (nobody j)
      · change Filled _ s.data (Function.update s.clients i (.copy 0) i)
        rw [Function.update_self]
        exact ⟨Nat.zero_le _, List.nil_prefix⟩
    | filling j state =>
      rw [state] at empty
      cases empty
    | full before j mail state =>
      rw [state] at empty
      cases empty
    | taken before j mail state =>
      rw [state] at empty
      cases empty
    | noted before j mail deamon =>
      rcases deamon with ⟨_, state⟩ | ⟨k, stands, _⟩
      · rw [state] at empty
        cases empty
      · exact absurd stands (compares k)

/-- A store of the client that has the mailbox. -/
theorem Inv.store {i k : Nat} {c : Char} {pc : ClientPc} (inv : Inv argv1 s order)
    (inside : (s.clients i).Inside) (inside' : pc.Inside) (low : k ≤ textMax)
    (ends : k = textMax → c = '\x00') (filled : Filled (argv1 i).val (s.data.set k c) pc) :
    Inv argv1 { s with data := s.data.set k c, clients := Function.update s.clients i pc }
      order := by
  obtain ⟨state, deamon, on, alone, short, _, logged, decided⟩ := inv.stage.inside inside
  refine ⟨List.length_set.trans inv.sized, ?_, inv.nodup, ?_, inv.counts, inv.look, ?_⟩
  · intro j high small
    rw [List.getElem?_set]
    by_cases same : k = j
    · rw [if_pos same, if_pos (by rw [inv.sized]; omega), ends (by omega)]
    · rw [if_neg same]
      exact inv.tail j high small
  · intro j
    apply (inv.finished j).trans (update_outside (· = .finished) _ _ j).symm
    · intro finished
      rw [finished] at inside
      exact inside
    · rintro rfl
      exact inside'
  · refine .filling i state deamon on ?_ short ?_ logged decided
    · exact update_inside ClientPc.Inside inside' fun j => (alone j).mp
    · change Filled _ (s.data.set k c) (Function.update s.clients i pc i)
      rwa [Function.update_self]

theorem Inv.publish {i : Nat} (inv : Inv argv1 s order) (pc : s.clients i = .publish) :
    Inv argv1 { s with state := 1, clients := Function.update s.clients i .finished }
      (order ++ [i]) := by
  have inside : (s.clients i).Inside := by
    rw [pc]
    trivial
  obtain ⟨_, deamon, on, alone, short, filled, logged, decided⟩ := inv.stage.inside inside
  rw [pc] at filled
  have fresh : i ∉ order := by
    rw [inv.finished, pc]
    simp
  refine ⟨inv.sized, inv.tail, ?_, ?_, inv.counts, inv.look,
    .full order i ⟨rfl, ?_, short, filled, decided⟩ rfl (Or.inl deamon) on logged⟩
  · apply List.nodup_append.mpr
    refine ⟨inv.nodup, List.nodup_cons.mpr ⟨List.not_mem_nil, List.nodup_nil⟩, ?_⟩
    intro j member k single same
    rw [same, List.mem_singleton.mp single] at member
    exact fresh member
  · intro j
    change _ ↔ Function.update s.clients i .finished j = .finished
    rw [List.mem_append, List.mem_singleton, inv.finished]
    by_cases same : j = i
    · rw [same, Function.update_self]
      simp
    · rw [Function.update_of_ne same]
      simp [same]
  · intro j
    change ¬ (Function.update s.clients i .finished j).Inside
    by_cases same : j = i
    · rw [same, Function.update_self]
      exact fun inside => inside
    · rw [Function.update_of_ne same, alone]
      exact same

/-- A client that copies has a cell for its next character, and the memory has those before. -/
theorem Inv.room {i k : Nat} (inv : Inv argv1 s order) (pc : s.clients i = .copy k) :
    k < s.data.length ∧ k ≤ (argv1 i).val.length ∧ (argv1 i).val.length ≤ textMax ∧
      (argv1 i).val.take k <+: s.data := by
  have inside : (s.clients i).Inside := by
    rw [pc]
    trivial
  obtain ⟨_, _, _, _, short, filled, _⟩ := inv.stage.inside inside
  rw [pc] at filled
  obtain ⟨low, start⟩ := filled
  have small : textMax < dataSize := by decide
  refine ⟨?_, low, short, start⟩
  rw [inv.sized]
  omega

theorem Inv.client {i : Nat} {next : State} (inv : Inv argv1 s order)
    (fair : Fair argv1 s (.client i)) (step : clientStep argv1 s i = some next) :
    ∃ order', Inv argv1 next order' := by
  cases pc : s.clients i with
  | test =>
    simp only [clientStep, pc, Option.some_inj] at step
    subst step
    split
    · exact ⟨order, inv.test pc⟩
    · exact ⟨order, inv⟩
  | claim =>
    simp only [clientStep, pc, Option.some_inj] at step
    subst step
    exact ⟨order, inv.claim pc fair⟩
  | copy k =>
    have inside : (s.clients i).Inside := by
      rw [pc]
      trivial
    obtain ⟨room, low, short, start⟩ := inv.room pc
    have length : ((argv1 i).val.take k).length = k := List.length_take_of_le low
    simp only [clientStep, pc, room, if_true] at step
    cases here : (argv1 i).val[k]? with
    | some c =>
      rw [here] at step
      cases step
      obtain ⟨below, _⟩ := List.getElem?_eq_some_iff.mp here
      refine ⟨order, inv.store inside trivial (by omega) (by omega) ⟨below, ?_⟩⟩
      have stored := prefix_set start (by rwa [length]) c
      rw [length] at stored
      rwa [List.take_add_one, here]
    | none =>
      rw [here] at step
      cases step
      have last : k = (argv1 i).val.length :=
        Nat.le_antisymm low (List.getElem?_eq_none_iff.mp here)
      refine ⟨order, inv.store inside trivial (by omega) (fun _ => rfl) ?_⟩
      have stored := prefix_set start (by rwa [length]) '\x00'
      rw [length, last, List.take_length] at stored
      rw [last]
      exact stored
  | publish =>
    simp only [clientStep, pc, Option.some_inj] at step
    subst step
    exact ⟨order ++ [i], inv.publish pc⟩
  | finished =>
    simp only [clientStep, pc] at step
    cases step
  | broken =>
    simp only [clientStep, pc] at step
    cases step

/-- A client that has the mailbox stores inside of the memory. -/
theorem Inv.unbroken {i : Nat} {next : State} (inv : Inv argv1 s order)
    (step : clientStep argv1 s i = some next) (whole : ∀ j, s.clients j ≠ .broken) :
    ∀ j, next.clients j ≠ .broken := by
  have moved : ∀ pc : ClientPc, pc ≠ .broken → ∀ j, Function.update s.clients i pc j ≠ .broken :=
    fun pc now j broken => whole j ((update_outside (· = .broken) (whole i) now j).mp broken)
  cases pc : s.clients i with
  | test =>
    simp only [clientStep, pc, Option.some_inj] at step
    subst step
    split
    · exact moved .claim (by simp)
    · exact whole
  | claim =>
    simp only [clientStep, pc, Option.some_inj] at step
    subst step
    exact moved (.copy 0) (by simp)
  | copy k =>
    have room := (inv.room pc).1
    simp only [clientStep, pc, room, if_true] at step
    cases here : (argv1 i).val[k]? with
    | some c =>
      rw [here] at step
      cases step
      exact moved (.copy (k + 1)) (by simp)
    | none =>
      rw [here] at step
      cases step
      exact moved .publish (by simp)
  | publish =>
    simp only [clientStep, pc, Option.some_inj] at step
    subst step
    exact moved .finished (by simp)
  | finished =>
    simp only [clientStep, pc] at step
    cases step
  | broken => exact absurd pc (whole i)

end Clients

end Ct.Deamon
