import Ct.S5pv210.Help
import Ct.S5pv210.QueryWords

set_option autoImplicit false

namespace Ct.S5pv210.Main

open Ct.Lib

variable {π : Type}

theorem strcmp_eq_zero (a : CString) :
    ∀ {b : CString}, '\x00' ∉ a → '\x00' ∉ b → (strcmp a b = 0 ↔ a = b) := by
  have positive : ∀ c : Char, c ≠ '\x00' → 0 < c.toNat := by
    intro c other
    apply Nat.pos_of_ne_zero
    intro zero
    exact other (Char.toNat_inj.mp zero)
  induction a with
  | nil =>
    intro b _ ends
    cases b with
    | nil => simp [strcmp]
    | cons d b =>
      rw [List.mem_cons, not_or] at ends
      have := positive d (Ne.symm ends.1)
      simp [strcmp]
      omega
  | cons c a ih =>
    intro b ends ends'
    rw [List.mem_cons, not_or] at ends
    cases b with
    | nil =>
      have := positive c (Ne.symm ends.1)
      simp [strcmp]
      omega
    | cons d b =>
      rw [List.mem_cons, not_or] at ends'
      by_cases same : c = d
      · simp [strcmp, same, ih ends.2 ends'.2]
      · have apart : c.toNat ≠ d.toNat := fun equal => same (Char.toNat_inj.mp equal)
        simp [strcmp, same]
        omega

/-- What a format prints starts with what is in front of its first conversion. -/
theorem printf_starts {front s text : CString} {vl : List Arg} (plain : '%' ∉ front)
    (ran : printf (front ++ s) vl = .ok text) : shown front <+: text := by
  rw [printf, formatLoop_text plain] at ran
  cases inner : formatLoop printfString false s vl with
  | error fault =>
    rw [inner] at ran
    cases ran
  | ok rest =>
    rw [inner] at ran
    cases ran
    exact List.prefix_append _ _

theorem argvLine_iff (j : BitVec 32) (arg : CString) :
    (∃ text, printf "argv[%x] = %s\n".toList [.word j, .string (some arg)] = .ok text) ↔
      takesArgument arg = false := by
  have format : "argv[%x] = %s\n".toList =
      "argv[".toList ++ '%' :: 'x' :: ("] = ".toList ++ '%' :: 's' :: ['\n']) := by decide
  rw [format, printf, formatLoop_text (by decide), map_ends_iff, formatLoop_hex, map_ends_iff,
    formatLoop_text (by decide), map_ends_iff, formatLoop_string_iff, formatLoop_plain (by decide)]
  simp

theorem argvLine_plain {j : BitVec 32} {arg text : CString}
    (ran : printf "argv[%x] = %s\n".toList [.word j, .string (some arg)] = .ok text) :
    quoted text = false := by
  have format : "argv[%x] = %s\n".toList = "argv[".toList ++ "%x] = %s\n".toList := by decide
  rw [format] at ran
  obtain ⟨rest, rfl⟩ := printf_starts (by decide) ran
  rfl

/-- The arguments are printed if no conversion in one takes an argument. -/
theorem printArgv_iff (buffer : List Char) (argv : List Nat) :
    ∀ {j : Nat} {words : List CString}, argv.mapM (stringAt buffer) = .ok words →
      ((∃ sent, printArgv buffer j argv = .ok sent) ↔
        ∀ word ∈ words, takesArgument word = false) := by
  induction argv with
  | nil =>
    intro j words strings
    cases strings
    simp [printArgv]
  | cons p argv ih =>
    intro j words strings
    rw [List.mapM_cons] at strings
    obtain ⟨word, here, strings⟩ := bind_ends strings
    obtain ⟨others, later, strings⟩ := bind_ends strings
    cases strings
    have line := argvLine_iff (BitVec.ofNat 32 j) word
    have rest := ih (j := j + 1) later
    rw [List.forall_mem_cons, ← line, ← rest, printArgv, here]
    constructor
    · rintro ⟨sent, ran⟩
      obtain ⟨arg, same, ran⟩ := bind_ends ran
      cases same
      obtain ⟨text, printed, ran⟩ := bind_ends ran
      obtain ⟨more, ran, _⟩ := bind_ends ran
      exact ⟨⟨text, printed⟩, more, ran⟩
    · rintro ⟨⟨text, printed⟩, sent, ran⟩
      simp only [bind, Except.bind, printed, ran]
      exact ⟨_, rfl⟩

theorem printArgv_plain (buffer : List Char) (argv : List Nat) :
    ∀ {j : Nat} {sent : List CString}, printArgv buffer j argv = .ok sent →
      ∀ text ∈ sent, quoted text = false := by
  induction argv with
  | nil =>
    intro j sent ran text member
    cases ran
    cases member
  | cons p argv ih =>
    intro j sent ran
    obtain ⟨arg, _, ran⟩ := bind_ends ran
    obtain ⟨line, printed, ran⟩ := bind_ends ran
    obtain ⟨more, rest, ran⟩ := bind_ends ran
    cases ran
    exact List.forall_mem_cons.mpr ⟨argvLine_plain printed, ih rest⟩

/-- A line that is in the buffer is taken apart into its words, which are printed. -/
theorem parseLoop_line (line : Line) {buffer : List Char}
    (typed : line.text ++ ['\x00'] <+: buffer) :
    ∃ after argv, parseLoop (buffer.length + 1) buffer [] 0 = .ok (after, argv) ∧
      argv.mapM (stringAt after) = .ok line.words ∧ stringAt after 0 = .ok line.first := by
  obtain ⟨tail, rfl⟩ := typed
  have enough : line.rest.length + 1 < (line.text ++ ['\x00'] ++ tail).length + 1 := by
    have words : line.rest.length ≤ (line.rest.flatMap fun part => part.1 :: part.2).length := by
      induction line.rest with
      | nil => exact Nat.zero_le _
      | cons part rest ih =>
        rw [List.flatMap_cons, List.length_append, List.length_cons, List.length_cons]
        omega
    rw [Line.text, joined]
    simp only [List.length_append, List.length_singleton]
    omega
  have few : ([] : List Nat).length + line.rest.length < shellMaxArguments := by
    rw [List.length_nil, Nat.zero_add]
    exact line.few
  obtain ⟨argv, ran, strings⟩ := parseLoop_words line.rest [] tail [] _ line.first_word
    line.rest_words few enough
  rw [List.nil_append, List.nil_append, List.nil_append] at ran
  rw [List.nil_append] at strings
  have same : line.text ++ ['\x00'] ++ tail = joined line.first line.rest ++ '\x00' :: tail := by
    rw [Line.text, List.append_assoc, List.singleton_append]
  obtain ⟨behind, start⟩ := cut_start line.first tail line.rest
  refine ⟨_, _, by rwa [same] at ran ⊢, strings, ?_⟩
  rw [start]
  exact stringAt_word [] behind line.first_word.inside

theorem argcLine (argc : BitVec 32) :
    ∃ text, printf "argc = %x\n".toList [.word argc] = .ok text ∧ quoted text = false := by
  have format : "argc = %x\n".toList = "argc = ".toList ++ '%' :: 'x' :: ['\n'] := by decide
  refine ⟨shown "argc = ".toList ++ (shown (i2hs argc) ++ shown ['\n']), ?_, rfl⟩
  rw [format, printf, formatLoop_text (by decide), formatLoop_hex, formatLoop_plain (by decide)]
  rfl

theorem shellParseArguments_ends (line : Line) {buffer : List Char}
    (typed : line.text ++ ['\x00'] <+: buffer)
    (plain : ∀ word ∈ line.words, takesArgument word = false) :
    ∃ after argv sent, shellParseArguments buffer = .ok (after, argv, sent) ∧
      argv.mapM (stringAt after) = .ok line.words ∧ stringAt after 0 = .ok line.first ∧
      ∀ text ∈ sent, quoted text = false := by
  obtain ⟨after, argv, parsed, strings, first⟩ := parseLoop_line line typed
  obtain ⟨text, printed, quiet⟩ := argcLine (BitVec.ofNat 32 argv.length)
  obtain ⟨sent, listed⟩ := (printArgv_iff after argv (j := 0) strings).mpr plain
  refine ⟨after, argv, text :: sent, ?_, strings, first, ?_⟩
  · simp only [shellParseArguments, parsed, bind, Except.bind, printed, listed]
    rfl
  · exact List.forall_mem_cons.mpr ⟨quiet, printArgv_plain after argv listed⟩

theorem plain_of_shellParseArguments (line : Line) {buffer : List Char}
    {result : List Char × List Nat × List CString} (typed : line.text ++ ['\x00'] <+: buffer)
    (ran : shellParseArguments buffer = .ok result) :
    ∀ word ∈ line.words, takesArgument word = false := by
  obtain ⟨after, argv, parsed, strings, _⟩ := parseLoop_line line typed
  obtain ⟨⟨str, argv'⟩, parsed', ran⟩ := bind_ends ran
  rw [parsed] at parsed'
  cases parsed'
  obtain ⟨text, _, ran⟩ := bind_ends ran
  obtain ⟨sent, printed, _⟩ := bind_ends ran
  exact (printArgv_iff after argv strings).mp ⟨sent, printed⟩

/-- A buffer with a line does not start with the end of the string. -/
theorem head?_line (line : Line) {buffer : List Char} (typed : line.text ++ ['\x00'] <+: buffer) :
    buffer.head? ≠ some '\x00' := by
  obtain ⟨tail, rfl⟩ := typed
  rw [Line.text, joined]
  cases first : line.first with
  | nil => exact absurd first line.first_word.1
  | cons c word =>
    have dark := (line.first_word.2 c (first ▸ List.mem_cons_self)).2
    simpa using dark

/-- The handlers that are called, with their arguments. -/
def handled (events : List (Event π)) : List (π × List CString) :=
  events.filterMap fun
    | .runs process argv => some (process, argv)
    | _ => none

/-- The handlers of the commands with this name. -/
def handlersOf (requests : List (Request π)) (name : CString) : List π :=
  (requests.filter fun request => request.cmd = name).filterMap Request.process

section Query

variable {σ : Type} {run : π → List CString → σ → Int × σ} {reg : Registry π}
  {requests : List (Request π)} {name : CString}

/-- What the loop does on one listed command. -/
theorem Listed.queryBody (listed : Listed reg requests) (argv : List CString)
    (ends : '\x00' ∉ name) {i : Nat} {request : Request π} (asked : requests[i]? = some request)
    (proper : ∀ process argv outside, (run process argv outside).1 ≠ -100) (rc : Int) (outside : σ)
    (events : List (Event π)) :
    ∃ rc' outside' more, queryBody run reg argv name i (rc, outside, events) =
        .ok (false, (rc', outside', events ++ more)) ∧ visited more = [i] ∧
      handled more = (handlersOf [request] name).map (·, argv) ∧
      (∀ text, .sent text ∉ more) ∧ (rc' = -100 ↔ rc = -100 ∧ request.cmd ≠ name) := by
  obtain ⟨sc, here, cmd, process, _⟩ := listed.slot_of_request asked
  have compared := strcmp_eq_zero name ends request.terminated
  simp only [Main.queryBody, here, cmd, process, compared]
  by_cases same : name = request.cmd
  · subst same
    cases handler : request.process with
    | none =>
      refine ⟨0, outside, [.visits i], if_pos rfl, rfl, ?_, by simp, by simp⟩
      simp [handled, handlersOf, handler]
    | some process =>
      refine ⟨(run process argv outside).1, (run process argv outside).2,
        [.visits i, .runs process argv], if_pos rfl, rfl, ?_, by simp, by simp [proper]⟩
      simp [handled, handlersOf, handler]
  · refine ⟨rc, outside, [.visits i], if_neg same, rfl, ?_, by simp, by simp [Ne.symm same]⟩
    simp [handled, handlersOf, Ne.symm same]

theorem visited_append (first second : List (Event π)) :
    visited (first ++ second) = visited first ++ visited second := List.filterMap_append

theorem handled_append (first second : List (Event π)) :
    handled (first ++ second) = handled first ++ handled second := List.filterMap_append

theorem visited_sent (texts : List CString) : visited (texts.map (Event.sent (π := π))) = [] := by
  induction texts with
  | nil => rfl
  | cons text texts ih => exact ih

theorem handled_sent (texts : List CString) : handled (texts.map (Event.sent (π := π))) = [] := by
  induction texts with
  | nil => rfl
  | cons text texts ih => exact ih

/-- The loop stands on every listed command once and calls the handlers with this name. -/
theorem Listed.query_visits (listed : Listed reg requests) (argv : List CString)
    (ends : '\x00' ∉ name)
    (proper : ∀ process argv outside, (run process argv outside).1 ≠ -100)
    (later : List (Request π)) :
    ∀ (before : List (Request π)) (rc : Int) (outside : σ) (events : List (Event π)),
      requests = before ++ later →
      ∃ rc' outside' more, visitAll (Main.queryBody run reg argv name)
          (List.range' before.length later.length) (rc, outside, events) =
            .ok (.head, (rc', outside', events ++ more)) ∧
        visited more = List.range' before.length later.length ∧
        handled more = (handlersOf later name).map (·, argv) ∧ (∀ text, .sent text ∉ more) ∧
        (rc' = -100 ↔ rc = -100 ∧ ∀ request ∈ later, request.cmd ≠ name) := by
  induction later with
  | nil =>
    intro before rc outside events _
    exact ⟨rc, outside, [], by rw [List.append_nil]; rfl, rfl, rfl, by simp, by simp⟩
  | cons request later ih =>
    intro before rc outside events all
    have asked : requests[before.length]? = some request := by
      rw [all, List.getElem?_append_right (Nat.le_refl _), Nat.sub_self]
      rfl
    obtain ⟨rc₁, outside₁, here, stepped, stood, called, quiet, missed⟩ :=
      listed.queryBody argv ends asked proper rc outside events
    obtain ⟨rc₂, outside₂, more, ran, stood', called', quiet', missed'⟩ :=
      ih (before ++ [request]) rc₁ outside₁ (events ++ here)
        (by rw [all, List.append_assoc, List.singleton_append])
    rw [List.length_append, List.length_singleton] at ran stood'
    refine ⟨rc₂, outside₂, here ++ more, ?_, ?_, ?_, ?_, ?_⟩
    · rw [List.length_cons, List.range'_succ]
      simp only [visitAll, stepped, ran, List.append_assoc]
    · rw [visited_append, stood, stood', List.length_cons, List.range'_succ]
      rfl
    · rw [handled_append, called, called', ← List.map_append, handlersOf, handlersOf, handlersOf,
        ← List.filterMap_append, ← List.filter_append, List.singleton_append]
    · intro text member
      rcases List.mem_append.mp member with first | second
      · exact quiet text first
      · exact quiet' text second
    · rw [missed', missed, List.forall_mem_cons, and_assoc]

/-- The message for a name that is not found. -/
def notFound (name : CString) : Except Fault CString :=
  printf " '%s' not found, 'help' for more information\n".toList [.string (some name)]

theorem notFound_quoted {name text : CString} (ran : notFound name = .ok text) :
    quoted text = true := by
  have format : " '%s' not found, 'help' for more information\n".toList =
      " '".toList ++ "%s' not found, 'help' for more information\n".toList := by decide
  rw [notFound, format] at ran
  obtain ⟨rest, rfl⟩ := printf_starts (by decide) ran
  rfl

theorem notFound_ends {name : CString} (plain : takesArgument name = false) :
    ∃ text, notFound name = .ok text := by
  have format : " '%s' not found, 'help' for more information\n".toList =
      " '".toList ++ '%' :: 's' :: "' not found, 'help' for more information\n".toList := by decide
  rw [notFound, format, printf_string (by decide) (by decide), map_ends_iff]
  exact (printfString_iff name).mpr plain

/-- A line whose keys fit, and whose words are formats without arguments, runs the handlers with its
first word as name. -/
theorem Listed.shellQuery_ends (listed : Listed reg requests)
    (proper : ∀ process argv outside, (run process argv outside).1 ≠ -100) (line : Line)
    {typed : List Char} (once : '\r' ∉ typed) (edits : edited typed = line.text)
    (fits : FitsFrom bufferSize [] typed)
    (plain : ∀ word ∈ line.words, takesArgument word = false)
    (buffer : Vector Char bufferSize) (more : List Char) (outside : σ) :
    ∃ rc after events text,
      shellQuery run reg buffer (typed ++ '\r' :: more) outside = .ok (rc, after, more, events) ∧
      visited events = List.range requests.length ∧
      handled events = (handlersOf requests line.first).map (·, line.words) ∧
      notFound line.first = .ok text ∧
      (.sent text ∈ events ↔ ∀ request ∈ requests, request.cmd ≠ line.first) := by
  rw [← buffer.length_toList] at fits
  obtain ⟨filled, got, stored, _⟩ := uartGetstr_ends typed more once List.nil_prefix fits
  have quiet := quoted_echoed typed []
  generalize echoed [] typed = echo at got quiet
  change edited typed ++ _ <+: filled at stored
  rw [edits] at stored
  obtain ⟨after, argv, sent, parsed, strings, first, quiet'⟩ :=
    shellParseArguments_ends line stored plain
  have ends := line.first_word.inside
  obtain ⟨rc, outside', events, ran, stood, called, silent, missed⟩ :=
    listed.query_visits line.words ends proper requests [] (-100) outside
      ((echo ++ sent).map .sent) rfl
  obtain ⟨text, printed⟩ := notFound_ends (plain line.first (List.mem_cons_self ..))
  have walked := traverse_spine (Main.queryBody run reg line.words line.first) _
    (-100, outside, (echo ++ sent).map .sent) listed.linked listed.enough
  rw [List.range_eq_range'] at walked ⊢
  rw [List.length_nil] at ran stood got
  rw [ran] at walked
  have other : .sent text ∉ (echo ++ sent).map (Event.sent (π := π)) := by
    intro member
    obtain ⟨text', member, same⟩ := List.mem_map.mp member
    cases same
    have marked := notFound_quoted printed
    rcases List.mem_append.mp member with early | late
    · rw [quiet text early] at marked
      cases marked
    · rw [quiet' text late] at marked
      cases marked
  have asked : shellQuery run reg buffer (typed ++ '\r' :: more) outside =
      if rc = -100 then
        (notFound line.first).map fun text =>
          (rc, outside', more, (echo ++ sent).map .sent ++ events ++ [.sent text])
      else .ok (rc, outside', more, (echo ++ sent).map .sent ++ events) := by
    rw [Line.words] at walked strings
    simp only [shellQuery, got, bind, Except.bind, if_neg (head?_line line stored), parsed, strings,
      walked, first]
    split
    · simp only [← notFound.eq_def, printed]
      rfl
    · rfl
  by_cases unfound : rc = -100
  · rw [if_pos unfound, printed] at asked
    refine ⟨rc, outside', _, text, asked, ?_, ?_, printed, ?_⟩
    · rw [visited_append, visited_append, visited_sent, stood]
      exact List.append_nil _
    · rw [handled_append, handled_append, handled_sent, called]
      exact List.append_nil _
    · exact iff_of_true (List.mem_append_right _ (List.mem_singleton_self _)) (missed.mp unfound).2
  · rw [if_neg unfound] at asked
    refine ⟨rc, outside', _, text, asked, ?_, ?_, printed, ?_⟩
    · rw [visited_append, visited_sent, stood]
      rfl
    · rw [handled_append, handled_sent, called]
      rfl
    · apply iff_of_false
      · intro member
        rcases List.mem_append.mp member with before | after
        · exact other before
        · exact silent text after
      · exact fun none => unfound (missed.mpr ⟨rfl, none⟩)

/-- A line that is answered has fitted, and its words are formats without arguments. -/
theorem needs_of_shellQuery (line : Line) {typed : List Char} (once : '\r' ∉ typed)
    (edits : edited typed = line.text) {buffer : Vector Char bufferSize} {more : List Char}
    {outside : σ} {result : Int × σ × List Char × List (Event π)}
    (ran : shellQuery run reg buffer (typed ++ '\r' :: more) outside = .ok result) :
    FitsFrom bufferSize [] typed ∧ ∀ word ∈ line.words, takesArgument word = false := by
  obtain ⟨⟨filled, input, echo⟩, got, ran⟩ := bind_ends ran
  have fits : FitsFrom buffer.toList.length [] typed := fits_of_uartGetstr typed more once got
  obtain ⟨filled', got', stored, _⟩ := uartGetstr_ends typed more once List.nil_prefix fits
  rw [List.length_nil, got] at got'
  cases got'
  change edited typed ++ _ <+: filled at stored
  rw [edits] at stored
  rw [buffer.length_toList] at fits
  dsimp only at ran
  rw [if_neg (head?_line line stored)] at ran
  obtain ⟨parsed, took, _⟩ := bind_ends ran
  exact ⟨fits, plain_of_shellParseArguments line stored took⟩

/-- The registered commands are the first 16, once each and in their order, and later calls return
-1 and change nothing; both traversals stand on each of them once; the line runs the handlers with
its first word as name, in their order, and is told not to be found if there is no such command. -/
def Dispatches (run : π → List CString → σ → Int × σ) (requests : List (Request π)) (line : Line)
    (input more : List Char) (buffer : Vector Char bufferSize) (outside : σ) : Prop :=
  ∃ reg events before,
    registerAll emptyRegistry requests =
      .ok (List.replicate (min cmdSlots requests.length) 0 ++
        List.replicate (requests.length - cmdSlots) (-1), reg, events) ∧
    registerAll emptyRegistry (requests.take cmdSlots) =
      .ok (List.replicate (min cmdSlots requests.length) 0, reg, before) ∧
    Listed reg (requests.take cmdSlots) ∧
    (∃ events, doHelp reg = .ok (0, events) ∧
      visited events = List.range (min cmdSlots requests.length)) ∧
    ∃ rc after events text, shellQuery run reg buffer input outside = .ok (rc, after, more, events) ∧
      visited events = List.range (min cmdSlots requests.length) ∧
      handled events = (handlersOf (requests.take cmdSlots) line.first).map (·, line.words) ∧
      notFound line.first = .ok text ∧
      (.sent text ∈ events ↔ ∀ request ∈ requests.take cmdSlots, request.cmd ≠ line.first)

theorem Dispatches.needs {line : Line} {typed more : List Char} {buffer : Vector Char bufferSize}
    {outside : σ} (once : '\r' ∉ typed) (edits : edited typed = line.text)
    (dispatches : Dispatches run requests line (typed ++ '\r' :: more) more buffer outside) :
    (∀ request ∈ requests.take cmdSlots, HelpPlain request) ∧
      (∀ word ∈ line.words, takesArgument word = false) ∧ FitsFrom bufferSize [] typed := by
  obtain ⟨reg, _, _, _, _, listed, ⟨_, helped, _⟩, _, _, _, _, asked, _⟩ := dispatches
  obtain ⟨fits, plain⟩ := needs_of_shellQuery line once edits asked
  exact ⟨listed.plain_of_doHelp helped, plain, fits⟩

/-- A line that does not fit into the buffer is stored behind its end, and a string that is printed
is a format; otherwise commands are registered and dispatched as they should be. -/
theorem dispatches_iff (proper : ∀ process argv outside, (run process argv outside).1 ≠ -100)
    (requests : List (Request π)) (line : Line) {typed : List Char} (once : '\r' ∉ typed)
    (edits : edited typed = line.text) (more : List Char) (buffer : Vector Char bufferSize)
    (outside : σ) :
    Dispatches run requests line (typed ++ '\r' :: more) more buffer outside ↔
      (∀ request ∈ requests.take cmdSlots, HelpPlain request) ∧
        (∀ word ∈ line.words, takesArgument word = false) ∧
        ∀ before, before <+: typed → (edited before).length < bufferSize := by
  constructor
  · exact Dispatches.needs once edits
  · rintro ⟨helped, plain, fits⟩
    have count : (requests.take cmdSlots).length = min cmdSlots requests.length :=
      List.length_take
    obtain ⟨reg, events, before, registered, taken, listed⟩ :=
      registerAll_ends requests listed_empty fun request member => (helped request member).1
    rw [List.length_nil, Nat.sub_zero, count, List.length_drop] at registered
    rw [List.length_nil, Nat.sub_zero, count] at taken
    rw [List.length_nil, Nat.sub_zero, List.nil_append] at listed
    have help := listed.doHelp_ends helped
    have asked := listed.shellQuery_ends proper line once edits fits plain buffer more outside
    rw [count] at help asked
    exact ⟨reg, events, before, registered, taken, listed, help, asked⟩

end Query

/-- A word of 2048 characters that is typed without corrections. -/
def longLine : Line where
  first := List.replicate bufferSize 'a'
  rest := []
  first_word := ⟨List.ne_nil_of_length_pos (by
      rw [List.length_replicate]
      decide), fun c member => by
    rw [List.eq_of_mem_replicate member]
    decide⟩
  rest_words := fun part member => absurd member List.not_mem_nil
  few := by decide

theorem long_line_overflows :
    '\r' ∉ longLine.text ∧ edited longLine.text = longLine.text ∧
      ¬ Dispatches (fun (_ : Unit) _ (outside : Unit) => (0, outside)) [] longLine
        (longLine.text ++ ['\r']) [] (Vector.replicate bufferSize 'x') () := by
  have text : longLine.text = List.replicate bufferSize 'a' := List.append_nil _
  have plain : ∀ c, c ≠ 'a' → c ∉ longLine.text := by
    intro c other member
    rw [text] at member
    exact other (List.eq_of_mem_replicate member)
  have edits : edited longLine.text = longLine.text :=
    foldl_edit_plain longLine.text (plain _ (by decide))
  refine ⟨plain _ (by decide), edits, ?_⟩
  intro dispatches
  have short := (dispatches.needs (plain _ (by decide)) edits).2.2 longLine.text
    (List.prefix_refl _)
  change (edited longLine.text).length < bufferSize at short
  rw [edits, text, List.length_replicate] at short
  exact Nat.lt_irrefl _ short

/-- The command `help` of `main`, with its handler as `true`. -/
def helpRequest : Request Bool :=
  ⟨"help".toList, some true, some "show this message".toList, by decide⟩

/-- `help me` -/
def helpMe : Line where
  first := "help".toList
  rest := [(' ', "me".toList)]
  first_word := by simp [IsWord, isBlank]
  rest_words := by simp [IsWord, isBlank]
  few := by decide

theorem help_dispatches :
    Dispatches (fun _ _ (n : Nat) => (0, n + 1)) [helpRequest] helpMe
      ("hx\x7felp me".toList ++ ['\r']) [] (Vector.replicate bufferSize 'x') 0 := by
  refine (dispatches_iff (fun _ _ _ => (by decide : (0 : Int) ≠ -100)) [helpRequest] helpMe
    (by decide) (by decide) [] (Vector.replicate bufferSize 'x') 0).mpr ⟨?_, ?_, ?_⟩
  · intro request member
    rw [List.mem_singleton.mp (List.mem_of_mem_take member)]
    exact ⟨by decide, _, rfl, by decide⟩
  · intro word member
    simp only [helpMe, Line.words, List.map_cons, List.map_nil, List.mem_cons, List.not_mem_nil,
      or_false] at member
    rcases member with rfl | rfl
    · decide
    · decide
  · exact fitsFrom_of_length (by decide)

end Ct.S5pv210.Main
