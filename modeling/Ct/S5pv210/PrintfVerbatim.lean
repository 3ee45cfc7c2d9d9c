import Ct.S5pv210.Printf

set_option autoImplicit false

namespace Ct.S5pv210

open Ct.Lib

/-- The loop of `__s5p_printf`, with the text that it sends and the arguments that it leaves. -/
def formatRest (nested : CString → Except Fault CString) :
    Bool → CString → List Arg → Except Fault (CString × List Arg)
  | _, [], vl => .ok ([], vl)
  | true, c :: s, vl =>
    if c = '%' then (formatRest nested false s vl).map fun (rest, vl) => ('%' :: rest, vl)
    else if c = 'p' ∨ c = 'x' then
      match vl with
      | .word n :: vl => do
        let digits ← nested (i2hs n)
        let (rest, vl) ← formatRest nested false s vl
        pure (digits ++ rest, vl)
      | _ => .error .uninitialised
    else if c = 's' then
      match vl with
      | .string (some text) :: vl => do
        let shown ← nested text
        let (rest, vl) ← formatRest nested false s vl
        pure (shown ++ rest, vl)
      | .string none :: _ => .error .nullDeref
      | _ => .error .uninitialised
    else if c = 'c' then
      match vl with
      | .word n :: vl =>
        (formatRest nested false s vl).map fun (rest, vl) => (Char.ofNat (n.toNat % 256) :: rest, vl)
      | _ => .error .uninitialised
    else (formatRest nested false s vl).map fun (rest, vl) => ('?' :: rest, vl)
  | false, c :: s, vl =>
    if c = '%' then formatRest nested true s vl
    else (formatRest nested false s vl).map
      fun (rest, vl) => ((if c = '\n' then ['\r', '\n'] else [c]) ++ rest, vl)

/-- `__s5p_printf` with the arguments that it leaves. -/
def printfRest (s : CString) (vl : List Arg) : Except Fault (CString × List Arg) :=
  formatRest printfString false s vl

theorem formatRest_fst (nested : CString → Except Fault CString) (s : CString) :
    ∀ (flag : Bool) (vl : List Arg),
      (formatRest nested flag s vl).map Prod.fst = formatLoop nested flag s vl := by
  induction s with
  | nil => exact fun _ _ => rfl
  | cons c s ih =>
    have mapped : ∀ (front : CString) (vl : List Arg),
        ((formatRest nested false s vl).map fun (rest, vl) => (front ++ rest, vl)).map Prod.fst =
          (formatLoop nested false s vl).map (front ++ ·) := by
      intro front vl
      rw [← ih false vl]
      cases formatRest nested false s vl with
      | error fault => rfl
      | ok result => rfl
    have nestedThen : ∀ (text : CString) (vl : List Arg),
        ((do
          let inside ← nested text
          let (rest, vl) ← formatRest nested false s vl
          pure (inside ++ rest, vl)) : Except Fault (CString × List Arg)).map Prod.fst =
        (do
          let inside ← nested text
          let rest ← formatLoop nested false s vl
          pure (inside ++ rest)) := by
      intro text vl
      rw [← ih false vl]
      cases nested text with
      | error fault => rfl
      | ok inside =>
        cases formatRest nested false s vl with
        | error fault => rfl
        | ok result => rfl
    intro flag vl
    cases flag with
    | false =>
      rw [formatRest, formatLoop]
      by_cases percent : c = '%'
      · rw [if_pos percent, if_pos percent, ih]
      · rw [if_neg percent, if_neg percent, mapped]
    | true =>
      rw [formatRest.eq_def, formatLoop.eq_def]
      dsimp only
      by_cases percent : c = '%'
      · rw [if_pos percent, if_pos percent]
        exact mapped ['%'] vl
      rw [if_neg percent, if_neg percent]
      by_cases number : c = 'p' ∨ c = 'x'
      · rw [if_pos number, if_pos number]
        rcases vl with _ | ⟨n | t, vl⟩
        · rfl
        · exact nestedThen (i2hs n) vl
        · rfl
      rw [if_neg number, if_neg number]
      by_cases string : c = 's'
      · rw [if_pos string, if_pos string]
        rcases vl with _ | ⟨n | _ | text, vl⟩
        · rfl
        · rfl
        · rfl
        · exact nestedThen text vl
      rw [if_neg string, if_neg string]
      by_cases character : c = 'c'
      · rw [if_pos character, if_pos character]
        rcases vl with _ | ⟨n | t, vl⟩
        · rfl
        · exact mapped [Char.ofNat (n.toNat % 256)] vl
        · rfl
      rw [if_neg character, if_neg character]
      exact mapped ['?'] vl

theorem printfRest_fst (s : CString) (vl : List Arg) :
    (printfRest s vl).map Prod.fst = printf s vl := formatRest_fst printfString s false vl

/-- A part of a format, with the argument it is called with. -/
inductive Directive
  | literal (c : Char) (plain : c ≠ '%')
  | percent
  | hex (pointer : Bool) (n : BitVec 32)
  | string (t : CString)
  | char (n : BitVec 32)

namespace Directive

def format : Directive → CString
  | .literal c _ => [c]
  | .percent => ['%', '%']
  | .hex pointer _ => ['%', if pointer then 'p' else 'x']
  | .string _ => ['%', 's']
  | .char _ => ['%', 'c']

def args : Directive → List Arg
  | .literal _ _ => []
  | .percent => []
  | .hex _ n => [.word n]
  | .string t => [.string (some t)]
  | .char n => [.word n]

/-- The text in its place, before line feeds are sent as CR LF. -/
def text : Directive → CString
  | .literal c _ => [c]
  | .percent => ['%']
  | .hex _ n => i2hs n
  | .string t => t
  | .char n => [Char.ofNat (n.toNat % 256)]

/-- The string is no format, and the character no line feed. -/
def Verbatim : Directive → Prop
  | .string t => '%' ∉ t
  | .char n => Char.ofNat (n.toNat % 256) ≠ '\n'
  | _ => True

/-- What the code sends for it. -/
def sent : Directive → Except Fault CString
  | .string t => printfString t
  | .char n => .ok [Char.ofNat (n.toNat % 256)]
  | d => .ok (shown d.text)

end Directive

/-- One directive takes its arguments from the list. -/
theorem formatRest_directive (d : Directive) (s : CString) (vl : List Arg) :
    formatRest printfString false (d.format ++ s) (d.args ++ vl) = d.sent.bind fun text =>
      (formatRest printfString false s vl).map fun (rest, vl) => (text ++ rest, vl) := by
  cases d with
  | literal c plain =>
    have single : shown [c] = if c = '\n' then ['\r', '\n'] else [c] := List.append_nil _
    change formatRest printfString false (c :: s) vl = (Except.ok (shown [c])).bind _
    rw [formatRest, if_neg plain, single]
    rfl
  | percent => rfl
  | hex pointer n =>
    have inner : printfString (i2hs n) = .ok (shown (i2hs n)) := formatLoop_plain (i2hs_plain n)
    cases pointer with
    | false =>
      change ((printfString (i2hs n)).bind fun digits => _) = (Except.ok (shown (i2hs n))).bind _
      rw [inner]
      rfl
    | true =>
      change ((printfString (i2hs n)).bind fun digits => _) = (Except.ok (shown (i2hs n))).bind _
      rw [inner]
      rfl
  | string t => rfl
  | char n => rfl

theorem shown_append (front back : CString) : shown (front ++ back) = shown front ++ shown back :=
  List.flatMap_append

theorem shown_cons_length (c : Char) (s : CString) :
    (shown (c :: s)).length = (if c = '\n' then 2 else 1) + (shown s).length := by
  have front : shown (c :: s) = (if c = '\n' then ['\r', '\n'] else [c]) ++ shown s := rfl
  rw [front, List.length_append]
  split
  · rfl
  · rfl

/-- A string that is used as a format loses each `%`. -/
theorem formatLoop_shorter (nested : CString → Except Fault CString) (s : CString) :
    ∀ {flag : Bool} {out : CString}, formatLoop nested flag s [] = .ok out →
      out.length ≤ (shown s).length ∧
        (flag = false → '%' ∈ s → out.length < (shown s).length) := by
  induction s with
  | nil =>
    intro flag out ran
    cases ran
    exact ⟨Nat.le_refl _, fun _ member => absurd member List.not_mem_nil⟩
  | cons c s ih =>
    have replaced : ∀ (d : Char) {out : CString},
        (formatLoop nested false s []).map (fun rest => d :: rest) = .ok out →
          out.length ≤ (shown (c :: s)).length := by
      intro d out ran
      cases later : formatLoop nested false s [] with
      | error fault =>
        rw [later] at ran
        cases ran
      | ok rest =>
        rw [later] at ran
        cases ran
        have short := (ih later).1
        rw [shown_cons_length, List.length_cons]
        split
        · omega
        · omega
    intro flag out ran
    cases flag with
    | true =>
      refine ⟨?_, fun still => absurd still (by decide)⟩
      rw [formatLoop.eq_def] at ran
      dsimp only at ran
      split at ran
      · exact replaced '%' ran
      · split at ran
        · cases ran
        · split at ran
          · cases ran
          · split at ran
            · cases ran
            · exact replaced '?' ran
    | false =>
      rw [formatLoop] at ran
      by_cases percent : c = '%'
      · rw [if_pos percent] at ran
        have short := (ih ran).1
        rw [shown_cons_length, percent, if_neg (by decide)]
        exact ⟨by omega, fun _ _ => by omega⟩
      · rw [if_neg percent] at ran
        cases later : formatLoop nested false s [] with
        | error fault =>
          rw [later] at ran
          cases ran
        | ok rest =>
          rw [later] at ran
          cases ran
          obtain ⟨short, shorter⟩ := ih later
          have front : shown (c :: s) = (if c = '\n' then ['\r', '\n'] else [c]) ++ shown s := rfl
          rw [front, List.length_append, List.length_append]
          refine ⟨by omega, fun _ member => ?_⟩
          have inside := shorter rfl ((List.mem_cons.mp member).resolve_left (Ne.symm percent))
          omega

namespace Directive

theorem sent_verbatim {d : Directive} (verbatim : d.Verbatim) : d.sent = .ok (shown d.text) := by
  cases d with
  | literal c plain => rfl
  | percent => rfl
  | hex pointer n => rfl
  | string t => exact formatLoop_plain verbatim
  | char n =>
    have plain : Char.ofNat (n.toNat % 256) ≠ '\n' := verbatim
    simp [sent, text, shown, plain]

/-- Where something else is sent, it is shorter. -/
theorem sent_shorter {d : Directive} {out : CString} (ran : d.sent = .ok out) :
    out.length ≤ (shown d.text).length ∧ (out.length = (shown d.text).length → d.Verbatim) := by
  cases d with
  | literal c plain =>
    cases ran
    exact ⟨Nat.le_refl _, fun _ => trivial⟩
  | percent =>
    cases ran
    exact ⟨Nat.le_refl _, fun _ => trivial⟩
  | hex pointer n =>
    cases ran
    exact ⟨Nat.le_refl _, fun _ => trivial⟩
  | string t =>
    obtain ⟨short, shorter⟩ := formatLoop_shorter _ t ran
    refine ⟨short, fun same member => ?_⟩
    exact absurd same (Nat.ne_of_lt (shorter rfl member))
  | char n =>
    cases ran
    rw [text, shown_cons_length]
    constructor
    · split
      · exact Nat.le_succ 1
      · exact Nat.le_refl 1
    · intro same feed
      rw [if_pos feed] at same
      cases same

end Directive

/-- A call for these directives. -/
def formatOf (ds : List Directive) : CString := ds.flatMap Directive.format

def argsOf (ds : List Directive) : List Arg := ds.flatMap Directive.args

/-- The text of the directives, with line feeds as CR LF. -/
def textOf (ds : List Directive) : CString := shown (ds.flatMap Directive.text)

/-- The call sends the text of its directives and takes their arguments from the list. -/
def Inserts (ds : List Directive) (extra : List Arg) : Prop :=
  printfRest (formatOf ds) (argsOf ds ++ extra) = .ok (textOf ds, extra)

section Calls

variable {ds : List Directive} {extra : List Arg}

theorem printfRest_cons (d : Directive) (ds : List Directive) (extra : List Arg) :
    printfRest (formatOf (d :: ds)) (argsOf (d :: ds) ++ extra) = d.sent.bind fun text =>
      (printfRest (formatOf ds) (argsOf ds ++ extra)).map fun (rest, vl) => (text ++ rest, vl) := by
  have call := formatRest_directive d (formatOf ds) (argsOf ds ++ extra)
  rw [← List.append_assoc] at call
  exact call

theorem textOf_cons (d : Directive) (ds : List Directive) :
    textOf (d :: ds) = shown d.text ++ textOf ds := shown_append _ _

theorem inserts_of_verbatim (verbatim : ∀ d ∈ ds, d.Verbatim) : Inserts ds extra := by
  induction ds with
  | nil => rfl
  | cons d ds ih =>
    obtain ⟨here, later⟩ := List.forall_mem_cons.mp verbatim
    have rest : printfRest (formatOf ds) (argsOf ds ++ extra) = .ok (textOf ds, extra) := ih later
    rw [Inserts, printfRest_cons, Directive.sent_verbatim here, rest, textOf_cons]
    rfl

theorem printfRest_shorter {out : CString} {left : List Arg}
    (ran : printfRest (formatOf ds) (argsOf ds ++ extra) = .ok (out, left)) :
    out.length ≤ (textOf ds).length ∧
      (out.length = (textOf ds).length → ∀ d ∈ ds, d.Verbatim) := by
  induction ds generalizing out with
  | nil =>
    cases ran
    exact ⟨Nat.le_refl _, fun _ d member => absurd member List.not_mem_nil⟩
  | cons d ds ih =>
    rw [printfRest_cons] at ran
    cases here : d.sent with
    | error fault =>
      rw [here] at ran
      cases ran
    | ok text =>
      cases later : printfRest (formatOf ds) (argsOf ds ++ extra) with
      | error fault =>
        rw [here, later] at ran
        cases ran
      | ok result =>
        rw [here, later] at ran
        cases ran
        obtain ⟨short, verbatim⟩ := Directive.sent_shorter here
        obtain ⟨short', verbatim'⟩ := ih later
        rw [textOf_cons, List.length_append, List.length_append]
        refine ⟨by omega, fun same => List.forall_mem_cons.mpr ⟨verbatim ?_, verbatim' ?_⟩⟩
        · omega
        · omega

/-- The directives are replaced by their texts exactly if no string that is inserted has a `%` and
no character is a line feed. -/
theorem inserts_iff (ds : List Directive) (extra : List Arg) :
    Inserts ds extra ↔ ∀ d ∈ ds, d.Verbatim := by
  constructor
  · intro inserts
    exact (printfRest_shorter inserts).2 rfl
  · exact inserts_of_verbatim

end Calls

/-- `printf("%s", "50%%")` and `printf("%s", "%x")` -/
theorem strings_are_formats :
    ¬ Inserts [.string "50%%".toList] [] ∧
      printfRest "%s".toList [.string (some "50%%".toList)] = .ok ("50%".toList, []) ∧
      printfRest "%s".toList [.string (some "%x".toList)] = .error .uninitialised := by
  refine ⟨fun inserts => ?_, rfl, rfl⟩
  have run : printfRest "%s".toList [.string (some "50%%".toList)] = .ok ("50%".toList, []) := rfl
  have same : "50%".toList = "50%%".toList :=
    congrArg Prod.fst (Except.ok.inj (run.symm.trans inserts))
  exact absurd same (by decide)

end Ct.S5pv210
