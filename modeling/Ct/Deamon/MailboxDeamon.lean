import Ct.Deamon.MailboxSteps

set_option autoImplicit false

namespace Ct.Deamon

open Ct.Lib

variable {argv1 : Nat → Argument} {s : State} {order : List Nat}

section Stages

/-- Outside of the handling of a message the daemon only looks. -/
theorem Stage.calm {deamon : DeamonPc} {thisRunning : Int} {log : List LogLine}
    (stage : Stage argv1 s order) (was : s.deamon.Calm) (now : deamon.Calm)
    (on : s.thisRunning ≠ 0 → thisRunning ≠ 0) (same : messages log = messages s.log) :
    Stage argv1 { s with deamon := deamon, thisRunning := thisRunning, log := log } order := by
  cases stage with
  | free state _ nobody logged decided =>
    exact .free state (Or.inl now) nobody (same.trans logged) decided
  | filling i state _ on' alone short filled logged decided =>
    exact .filling i state now (on on') alone short filled (same.trans logged) decided
  | full before i mail state _ on' logged =>
    exact .full before i ⟨mail.order_eq, mail.nobody, mail.short, mail.whole, mail.decided⟩ state
      (Or.inl now) (on on') (same.trans logged)
  | taken before i mail state deamon =>
    rcases deamon with ⟨text, stands, _⟩ | stands
    · rw [stands] at was
      exact was.elim
    · rw [stands] at was
      exact was.elim
  | noted before i mail deamon =>
    rcases deamon with ⟨stands, _⟩ | ⟨k, stands, _⟩
    · rw [stands] at was
      exact was.elim
    · rw [stands] at was
      exact was.elim

theorem Stage.at_full (stage : Stage argv1 s order) (state : s.state = 1) :
    ∃ before i, Mail argv1 s order before i ∧ (s.deamon.Calm ∨ s.deamon = .take) ∧
      s.thisRunning ≠ 0 ∧ messages s.log = texts argv1 before := by
  cases stage with
  | free empty =>
    rw [empty] at state
    cases state
  | filling i busy =>
    rw [busy] at state
    cases state
  | full before i mail _ deamon on logged => exact ⟨before, i, mail, deamon, on, logged⟩
  | taken before i mail busy =>
    rw [busy] at state
    cases state
  | noted before i mail deamon =>
    rcases deamon with ⟨_, busy⟩ | ⟨k, _, empty, _⟩
    · rw [busy] at state
      cases state
    · rw [empty] at state
      cases state

theorem Stage.at_take (stage : Stage argv1 s order) (pc : s.deamon = .take) : s.state = 1 := by
  cases stage with
  | free state deamon => simp [pc, DeamonPc.Calm] at deamon
  | filling i state deamon => simp [pc, DeamonPc.Calm] at deamon
  | full before i mail state => exact state
  | taken before i mail state deamon => simp [pc] at deamon
  | noted before i mail deamon => simp [pc] at deamon

theorem Stage.at_text (stage : Stage argv1 s order) {text : CString}
    (pc : s.deamon = .read text ∨ s.deamon = .log text) :
    ∃ before i, Mail argv1 s order before i ∧ s.state = 2 ∧
      messages s.log = texts argv1 before ∧
      (s.deamon = .read text ∧ text <+: (argv1 i).val ∨
        s.deamon = .log text ∧ text = (argv1 i).val) := by
  cases stage with
  | free state deamon => rcases pc with pc | pc <;> simp [pc, DeamonPc.Calm] at deamon
  | filling i state deamon => rcases pc with pc | pc <;> simp [pc, DeamonPc.Calm] at deamon
  | full before i mail state deamon => rcases pc with pc | pc <;> simp [pc, DeamonPc.Calm] at deamon
  | taken before i mail state deamon logged =>
    refine ⟨before, i, mail, state, logged, ?_⟩
    rcases pc with pc | pc
    · simp only [pc, DeamonPc.read.injEq, exists_eq_left', reduceCtorEq, or_false] at deamon
      exact Or.inl ⟨pc, deamon⟩
    · simp only [pc, reduceCtorEq, false_and, exists_false, false_or, DeamonPc.log.injEq] at deamon
      exact Or.inr ⟨pc, deamon⟩
  | noted before i mail deamon => rcases pc with pc | pc <;> simp [pc] at deamon

theorem Stage.at_noted (stage : Stage argv1 s order)
    (pc : s.deamon = .release ∨ ∃ k, s.deamon = .compare k) :
    ∃ before i, Mail argv1 s order before i ∧ messages s.log = texts argv1 order ∧
      ∀ k, s.deamon = .compare k → s.state = 0 ∧ k ≤ (argv1 i).val.length ∧
        (argv1 i).val.take k <+: deamonExit := by
  cases stage with
  | free state deamon => rcases pc with pc | ⟨k, pc⟩ <;> simp [pc, DeamonPc.Calm] at deamon
  | filling i state deamon => rcases pc with pc | ⟨k, pc⟩ <;> simp [pc, DeamonPc.Calm] at deamon
  | full before i mail state deamon =>
    rcases pc with pc | ⟨k, pc⟩ <;> simp [pc, DeamonPc.Calm] at deamon
  | taken before i mail state deamon => rcases pc with pc | ⟨k, pc⟩ <;> simp [pc] at deamon
  | noted before i mail deamon logged =>
    refine ⟨before, i, mail, logged, ?_⟩
    intro k pc'
    rcases deamon with ⟨stands, _⟩ | ⟨k', stands, state, low, start⟩
    · rw [stands] at pc'
      cases pc'
    · rw [stands] at pc'
      cases pc'
      exact ⟨state, low, start⟩

end Stages

section Steps

/-- The loop is only left while the mailbox is free. -/
theorem Inv.loop (inv : Inv argv1 s order) (pc : s.deamon = .loop) (few : s.thisRunning < intMax) :
    ∃ next, deamonStep s = some next ∧ Inv argv1 next order ∧
      (s.thisRunning ≠ 0 →
        next = { s with deamon := .check, thisRunning := s.thisRunning + 1 }) := by
  have counts := inv.counts
  have calm : s.deamon.Calm := by
    rw [pc]
    trivial
  by_cases off : s.thisRunning = 0
  · refine ⟨{ s with deamon := .left, thisRunning := 1 }, by
      simp only [deamonStep, pc, off, if_true], ?_, fun on => absurd off on⟩
    refine ⟨inv.sized, inv.tail, inv.nodup, inv.finished, Int.one_nonneg, trivial, ?_⟩
    cases inv.stage with
    | free state deamon nobody logged decided =>
      exact .free state (Or.inr rfl) nobody logged decided
    | filling i state deamon on => exact absurd off on
    | full before i mail state deamon on => exact absurd off on
    | taken before i mail state deamon => simp [pc] at deamon
    | noted before i mail deamon => simp [pc] at deamon
  · refine ⟨{ s with deamon := .check, thisRunning := s.thisRunning + 1 }, by
      simp only [deamonStep, pc, off, few, if_true, if_false], ?_, fun _ => rfl⟩
    have counts' : 0 ≤ s.thisRunning + 1 := by omega
    have on : s.thisRunning + 1 ≠ 0 := by omega
    exact ⟨inv.sized, inv.tail, inv.nodup, inv.finished, counts', trivial,
      inv.stage.calm calm trivial (fun _ => on) rfl⟩

theorem Inv.check (inv : Inv argv1 s order) (pc : s.deamon = .check) :
    Inv argv1 { s with deamon := if s.state = 1 then .take else .lookState } order := by
  have calm : s.deamon.Calm := by
    rw [pc]
    trivial
  by_cases state : s.state = 1
  · rw [if_pos state]
    obtain ⟨before, i, mail, _, on, logged⟩ := inv.stage.at_full state
    exact ⟨inv.sized, inv.tail, inv.nodup, inv.finished, inv.counts, trivial,
      .full before i ⟨mail.order_eq, mail.nobody, mail.short, mail.whole, mail.decided⟩ state
        (Or.inr rfl) on logged⟩
  · rw [if_neg state]
    exact ⟨inv.sized, inv.tail, inv.nodup, inv.finished, inv.counts, trivial,
      inv.stage.calm calm trivial (fun on => on) rfl⟩

theorem Inv.take (inv : Inv argv1 s order) (pc : s.deamon = .take) :
    Inv argv1 { s with state := 2, deamon := .read [] } order := by
  obtain ⟨before, i, mail, _, _, logged⟩ := inv.stage.at_full (inv.stage.at_take pc)
  exact ⟨inv.sized, inv.tail, inv.nodup, inv.finished, inv.counts, trivial,
    .taken before i ⟨mail.order_eq, mail.nobody, mail.short, mail.whole, mail.decided⟩ rfl
      (Or.inl ⟨[], rfl, List.nil_prefix⟩) logged⟩

/-- The daemon reads the text that is in the memory, to its end. -/
theorem Inv.read (inv : Inv argv1 s order) {text : CString} (pc : s.deamon = .read text) :
    ∃ deamon, formatStep s.data text .message .read .log = deamon ∧
      (deamon = .log text ∨ ∃ c, deamon = .read (text ++ [c]) ∧ text.length < textMax) ∧
      Inv argv1 { s with deamon := deamon } order := by
  obtain ⟨before, i, mail, state, logged, stands⟩ := inv.stage.at_text (Or.inl pc)
  have start : text <+: (argv1 i).val := by
    rcases stands with ⟨_, start⟩ | ⟨other, _⟩
    · exact start
    · rw [pc] at other
      cases other
  have short := mail.short
  have mail' : ∀ deamon, Mail argv1 { s with deamon := deamon } order before i :=
    fun _ => ⟨mail.order_eq, mail.nobody, mail.short, mail.whole, mail.decided⟩
  rcases whole_getElem? mail.whole start with ⟨rfl, ends⟩ | ⟨c, member, here, longer⟩
  · have fits : (LogLine.message (argv1 i).val).text.length < mbuffSize := by
      rw [message_length]
      exact Nat.lt_of_le_of_lt (Nat.add_le_add_right short 6) (by decide)
    refine ⟨.log (argv1 i).val, ?_, Or.inl rfl, ?_⟩
    · simp only [formatStep, ends, if_true, fits]
    · exact ⟨inv.sized, inv.tail, inv.nodup, inv.finished, inv.counts, trivial,
        .taken before i (mail' _) state (Or.inr rfl) logged⟩
  · have inside : c ≠ '\x00' := by
      rintro rfl
      exact (argv1 i).property member
    have room := longer.length_le
    rw [List.length_append, List.length_singleton] at room
    refine ⟨.read (text ++ [c]), ?_, Or.inr ⟨c, rfl, by omega⟩, ?_⟩
    · simp only [formatStep, here, inside, if_false]
    · exact ⟨inv.sized, inv.tail, inv.nodup, inv.finished, inv.counts, trivial,
        .taken before i (mail' _) state (Or.inl ⟨_, rfl, longer⟩) logged⟩

/-- A default is not read inside of a list. -/
theorem getElem?_of_getD {list : CString} {k : Nat} (inside : list.getD k '\x00' ≠ '\x00') :
    list[k]? = some (list.getD k '\x00') := by
  rw [List.getD_eq_getElem?_getD] at inside ⊢
  cases here : list[k]? with
  | none =>
    rw [here] at inside
    exact absurd rfl inside
  | some c => rfl

/-- The end of the command comes behind its characters. -/
theorem deamonExit_ends {k : Nat} (ends : deamonExit.getD k '\x00' = '\x00') :
    deamonExit.length ≤ k := by
  apply Nat.le_of_not_lt
  intro inside
  have chars : '\x00' ∉ deamonExit := by decide
  apply chars
  rw [← ends, List.getD_eq_getElem?_getD, List.getElem?_eq_getElem inside]
  exact List.getElem_mem inside

theorem messages_message (log : List LogLine) (text : CString) :
    messages (log ++ [.message text]) = messages log ++ [text] := List.filterMap_append

theorem messages_loopping (log : List LogLine) (state : Nat) (text : CString) :
    messages (log ++ [.loopping state text]) = messages log :=
  List.filterMap_append.trans (List.append_nil _)

theorem Inv.log (inv : Inv argv1 s order) {text : CString} (pc : s.deamon = .log text) :
    Inv argv1 { s with deamon := .release, log := s.log ++ [.message text] } order := by
  obtain ⟨before, i, mail, state, logged, stands⟩ := inv.stage.at_text (Or.inr pc)
  have whole : text = (argv1 i).val := by
    rcases stands with ⟨other, _⟩ | ⟨_, whole⟩
    · rw [pc] at other
      cases other
    · exact whole
  refine ⟨inv.sized, inv.tail, inv.nodup, inv.finished, inv.counts, trivial,
    .noted before i ⟨mail.order_eq, mail.nobody, mail.short, mail.whole, mail.decided⟩
      (Or.inl ⟨rfl, state⟩) ?_⟩
  rw [messages_message, logged, whole, mail.order_eq, texts_snoc]

theorem Inv.release (inv : Inv argv1 s order) (pc : s.deamon = .release) :
    Inv argv1 { s with state := 0, deamon := .compare 0 } order := by
  obtain ⟨before, i, mail, logged, _⟩ := inv.stage.at_noted (Or.inl pc)
  exact ⟨inv.sized, inv.tail, inv.nodup, inv.finished, inv.counts, trivial,
    .noted before i ⟨mail.order_eq, mail.nobody, mail.short, mail.whole, mail.decided⟩
      (Or.inr ⟨0, rfl, rfl, Nat.zero_le _, List.nil_prefix⟩) logged⟩

/-- After the comparison the mailbox is free. -/
theorem Inv.decided (inv : Inv argv1 s order) {before : List Nat} {i : Nat} {outcome : Bool}
    {thisRunning : Int} (mail : Mail argv1 s order before i) (state : s.state = 0)
    (logged : messages s.log = texts argv1 order) (counts : 0 ≤ thisRunning)
    (right : outcome = decide ((argv1 i).val = deamonExit)) :
    Inv argv1 { s with
      deamon := .lookState, thisRunning := thisRunning, decisions := s.decisions ++ [outcome] }
      order := by
  refine ⟨inv.sized, inv.tail, inv.nodup, inv.finished, counts, trivial,
    .free state (Or.inl trivial) mail.nobody logged ?_⟩
  change s.decisions ++ [outcome] = _
  rw [mail.order_eq, asked_snoc, mail.decided, right]

/-- The comparison ends with the decision that the text in the memory asks for. -/
theorem Inv.compare (inv : Inv argv1 s order) {k : Nat} (pc : s.deamon = .compare k) :
    ∃ next, deamonStep s = some next ∧ Inv argv1 next order := by
  obtain ⟨before, i, mail, logged, stands⟩ := inv.stage.at_noted (Or.inr ⟨k, pc⟩)
  obtain ⟨state, low, start⟩ := stands k pc
  have length : ((argv1 i).val.take k).length = k := List.length_take_of_le low
  rcases whole_getElem? mail.whole (List.take_prefix k _) with
    ⟨whole, ends⟩ | ⟨c, member, here, longer⟩
  · rw [length] at ends
    rw [whole] at start length
    by_cases same : '\x00' = deamonExit.getD k '\x00'
    · -- both texts end here
      have equal : (argv1 i).val = deamonExit := by
        apply start.eq_of_length_le
        rw [length]
        exact deamonExit_ends same.symm
      refine ⟨_, ?_, inv.decided mail state logged (Int.le_refl 0) (decide_eq_true equal).symm⟩
      simp only [deamonStep, pc, ends, ne_eq, ← same, not_true_eq_false, if_false, if_true]
    · have other : (argv1 i).val ≠ deamonExit := by
        intro equal
        apply same
        rw [← equal, List.getD_eq_getElem?_getD,
          List.getElem?_eq_none (Nat.le_of_eq length)]
        rfl
      refine ⟨_, ?_, inv.decided mail state logged inv.counts (decide_eq_false other).symm⟩
      simp only [deamonStep, pc, ends, ne_eq, same, not_false_eq_true, if_true]
  · rw [length] at here
    have inside : c ≠ '\x00' := by
      rintro rfl
      exact (argv1 i).property member
    have expected := prefix_snoc_iff start c
    rw [length] at expected
    by_cases same : c = deamonExit.getD k '\x00'
    · have longer' : (argv1 i).val.take k ++ [c] <+: deamonExit := by
        apply expected.mpr
        rw [same] at inside ⊢
        exact getElem?_of_getD inside
      have next := (prefix_snoc_iff (List.take_prefix k (argv1 i).val) c).mp longer
      rw [length] at next
      obtain ⟨below, _⟩ := List.getElem?_eq_some_iff.mp next
      refine ⟨{ s with deamon := .compare (k + 1) }, ?_, inv.sized, inv.tail, inv.nodup,
        inv.finished, inv.counts, trivial,
        .noted before i ⟨mail.order_eq, mail.nobody, mail.short, mail.whole, mail.decided⟩
          (Or.inr ⟨k + 1, rfl, state, below, ?_⟩) logged⟩
      · simp only [deamonStep, pc, here, ne_eq, ← same, not_true_eq_false, if_false, inside]
      · rwa [List.take_add_one, next]
    · have other : (argv1 i).val ≠ deamonExit := by
        intro equal
        apply same
        rw [equal] at longer length
        have there := (prefix_snoc_iff (List.take_prefix k deamonExit) c).mp longer
        rw [length] at there
        rw [List.getD_eq_getElem?_getD, there]
        rfl
      refine ⟨_, ?_, inv.decided mail state logged inv.counts (decide_eq_false other).symm⟩
      simp only [deamonStep, pc, here, ne_eq, same, not_false_eq_true, if_true]

theorem Stage.low (stage : Stage argv1 s order) : s.state ≤ 2 := by
  cases stage with
  | free state => omega
  | filling i state => omega
  | full before i mail state => omega
  | taken before i mail state => omega
  | noted before i mail deamon =>
    rcases deamon with ⟨_, state⟩ | ⟨k, _, state, _⟩
    · omega
    · omega

/-- A step of the line of the loop. -/
theorem Inv.looks (inv : Inv argv1 s order) {deamon : DeamonPc} {log : List LogLine}
    (was : s.deamon.Calm) (now : deamon.Calm) (fits : deamon.Fits)
    (same : messages log = messages s.log) :
    Inv argv1 { s with deamon := deamon, log := log } order :=
  ⟨inv.sized, inv.tail, inv.nodup, inv.finished, inv.counts, fits,
    inv.stage.calm was now (fun on => on) same⟩

theorem Inv.lookState (inv : Inv argv1 s order) (pc : s.deamon = .lookState) :
    Inv argv1 { s with deamon := .lookData s.state [] } order := by
  have calm : s.deamon.Calm := by
    rw [pc]
    trivial
  exact inv.looks calm trivial ⟨inv.stage.low, Nat.zero_le _⟩ rfl

/-- The line of the loop stays in `mbuff`, whatever the clients store meanwhile. -/
theorem Inv.lookData (inv : Inv argv1 s order) {state : Nat} {text : CString}
    (pc : s.deamon = .lookData state text) :
    ∃ deamon, formatStep s.data text (.loopping state) (.lookData state) (.logLook state) = deamon ∧
      (deamon = .logLook state text ∨
        ∃ c, deamon = .lookData state (text ++ [c]) ∧ text.length < textMax) ∧
      Inv argv1 { s with deamon := deamon } order := by
  have calm : s.deamon.Calm := by
    rw [pc]
    trivial
  have fits := inv.look
  rw [pc] at fits
  obtain ⟨low, short⟩ := fits
  have inside : text.length < s.data.length := by
    have small : textMax < dataSize := by decide
    rw [inv.sized]
    omega
  cases here : s.data[text.length]? with
  | none =>
    rw [List.getElem?_eq_none_iff] at here
    omega
  | some c =>
    by_cases ends : c = '\x00'
    · have room : (LogLine.loopping state text).text.length < mbuffSize := by
        rw [loopping_length low]
        exact Nat.lt_of_le_of_lt (Nat.add_le_add_right short 34) (by decide)
      refine ⟨.logLook state text, ?_, Or.inl rfl, inv.looks calm trivial ⟨low, short⟩ rfl⟩
      simp only [formatStep, here, ends, if_true, room]
    · have before : text.length < textMax := by
        apply Nat.lt_of_not_le
        intro high
        rw [inv.tail _ high (by rwa [← inv.sized]), Option.some_inj] at here
        exact ends here.symm
      have short' : (text ++ [c]).length ≤ textMax := by
        rw [List.length_append]
        exact before
      refine ⟨.lookData state (text ++ [c]), ?_, Or.inr ⟨c, rfl, before⟩,
        inv.looks calm trivial ⟨low, short'⟩ rfl⟩
      simp only [formatStep, here, ends, if_false]

theorem Inv.logLook (inv : Inv argv1 s order) {state : Nat} {text : CString}
    (pc : s.deamon = .logLook state text) :
    Inv argv1 { s with deamon := .loop, log := s.log ++ [.loopping state text] } order := by
  have calm : s.deamon.Calm := by
    rw [pc]
    trivial
  exact inv.looks calm trivial trivial (messages_loopping ..)

theorem Inv.deamon (inv : Inv argv1 s order) (few : s.deamon = .loop → s.thisRunning < intMax)
    {next : State} (step : deamonStep s = some next) : Inv argv1 next order := by
  cases pc : s.deamon with
  | loop =>
    obtain ⟨next', step', kept, _⟩ := inv.loop pc (few pc)
    rw [step', Option.some_inj] at step
    rwa [← step]
  | check =>
    simp only [deamonStep, pc, Option.some_inj] at step
    rw [← step]
    exact inv.check pc
  | take =>
    simp only [deamonStep, pc, Option.some_inj] at step
    rw [← step]
    exact inv.take pc
  | read text =>
    obtain ⟨deamon, stands, _, kept⟩ := inv.read pc
    simp only [deamonStep, pc, stands, Option.some_inj] at step
    rwa [← step]
  | log text =>
    simp only [deamonStep, pc, Option.some_inj] at step
    rw [← step]
    exact inv.log pc
  | release =>
    simp only [deamonStep, pc, Option.some_inj] at step
    rw [← step]
    exact inv.release pc
  | compare k =>
    obtain ⟨next', step', kept⟩ := inv.compare pc
    rw [step', Option.some_inj] at step
    rwa [← step]
  | lookState =>
    simp only [deamonStep, pc, Option.some_inj] at step
    rw [← step]
    exact inv.lookState pc
  | lookData state text =>
    obtain ⟨deamon, stands, _, kept⟩ := inv.lookData pc
    simp only [deamonStep, pc, stands, Option.some_inj] at step
    rwa [← step]
  | logLook state text =>
    simp only [deamonStep, pc, Option.some_inj] at step
    rw [← step]
    exact inv.logLook pc
  | left =>
    simp only [deamonStep, pc] at step
    cases step
  | broken =>
    simp only [deamonStep, pc] at step
    cases step

end Steps

end Ct.Deamon
