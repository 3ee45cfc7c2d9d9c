import Ct.Lib.CString
import Ct.Lib.Fault

set_option autoImplicit false

namespace Ct.S5pv210

open Ct.Lib

/-- The digits that `i2hs` has in `ts`, the last one first. -/
def i2hsLoop : Nat → BitVec 32 → CString → CString
  | 0, _, ts => ts
  | fuel + 1, n, ts =>
    if n = 0 then ts
    else i2hsLoop fuel (n >>> 4) ("0123456789ABCDEF".toList.getD (n &&& 0xf).toNat '0' :: ts)

/-- `i2hs`: a word has at most eight digits. -/
def i2hs (n : BitVec 32) : CString :=
  match i2hsLoop 8 n [] with
  | [] => ['0']
  | ts => ts

/-- An argument behind the format; a string may be a null pointer. -/
inductive Arg
  | word (n : BitVec 32)
  | string (s : Option CString)

/-- The loop of `__s5p_printf`, which passes strings and numbers to `nested`. -/
def formatLoop (nested : CString → Except Fault CString) :
    Bool → CString → List Arg → Except Fault CString
  | _, [], _ => .ok []
  | true, c :: s, vl =>
    if c = '%' then (formatLoop nested false s vl).map fun rest => '%' :: rest
    else if c = 'p' ∨ c = 'x' then
      match vl with
      | .word n :: vl => do
        let digits ← nested (i2hs n)
        let rest ← formatLoop nested false s vl
        pure (digits ++ rest)
      | _ => .error .uninitialised
    else if c = 's' then
      match vl with
      | .string (some text) :: vl => do
        let shown ← nested text
        let rest ← formatLoop nested false s vl
        pure (shown ++ rest)
      | .string none :: _ => .error .nullDeref
      | _ => .error .uninitialised
    else if c = 'c' then
      match vl with
      | .word n :: vl =>
        (formatLoop nested false s vl).map fun rest => Char.ofNat (n.toNat % 256) :: rest
      | _ => .error .uninitialised
    else (formatLoop nested false s vl).map fun rest => '?' :: rest
  | false, c :: s, vl =>
    if c = '%' then formatLoop nested true s vl
    else (formatLoop nested false s vl).map ((if c = '\n' then ['\r', '\n'] else [c]) ++ ·)

/-- `printf(s)`: a conversion reads an argument that was not passed. -/
def printfString (s : CString) : Except Fault CString :=
  formatLoop (fun _ => .error .uninitialised) false s []

/-- `__s5p_printf`, with the text that it sends. A string argument is the format of a call of its
own. -/
def printf (s : CString) (vl : List Arg) : Except Fault CString :=
  formatLoop printfString false s vl

/-- A conversion in the string, from behind a `%` on or not, takes an argument. -/
def takesArgumentFrom : Bool → CString → Bool
  | _, [] => false
  | true, c :: s => c == 'p' || c == 'x' || c == 's' || c == 'c' || takesArgumentFrom false s
  | false, c :: s => takesArgumentFrom (c == '%') s

def takesArgument (s : CString) : Bool := takesArgumentFrom false s

theorem formatLoop_none (nested : CString → Except Fault CString) (s : CString) :
    ∀ flag, (∃ text, formatLoop nested flag s [] = .ok text) ↔ takesArgumentFrom flag s = false := by
  induction s with
  | nil =>
    intro flag
    simp [formatLoop, takesArgumentFrom]
  | cons c s ih =>
    intro flag
    cases flag with
    | false =>
      by_cases percent : c = '%'
      · simp [formatLoop, takesArgumentFrom, percent, ih true]
      · have other : (c == '%') = false := beq_eq_false_iff_ne.mpr percent
        simp [formatLoop, takesArgumentFrom, percent, other, map_ends_iff, ih false]
    | true =>
      simp only [formatLoop, takesArgumentFrom]
      by_cases percent : c = '%'
      · simp [percent, map_ends_iff, ih false]
      · by_cases number : c = 'p' ∨ c = 'x'
        · rcases number with rfl | rfl
          · simp
          · simp
        · by_cases string : c = 's'
          · simp [string]
          · by_cases character : c = 'c'
            · simp [character]
            · rw [not_or] at number
              simp [percent, number, string, character, map_ends_iff, ih false]

theorem printfString_iff (s : CString) :
    (∃ text, printfString s = .ok text) ↔ takesArgument s = false :=
  formatLoop_none _ s false

/-- What is shown of text without conversions. -/
def shown (text : CString) : CString :=
  text.flatMap fun c => if c = '\n' then ['\r', '\n'] else [c]

theorem shown_plain {text : CString} (clear : '\n' ∉ text) : shown text = text := by
  induction text with
  | nil => rfl
  | cons c text ih =>
    rw [List.mem_cons, not_or] at clear
    have rest := ih clear.2
    rw [shown] at rest ⊢
    rw [List.flatMap_cons, if_neg (Ne.symm clear.1), rest, List.singleton_append]

section Formats

variable {nested : CString → Except Fault CString} {s text : CString} {vl : List Arg}

theorem formatLoop_text (plain : '%' ∉ text) :
    formatLoop nested false (text ++ s) vl =
      (formatLoop nested false s vl).map (shown text ++ ·) := by
  induction text with
  | nil =>
    rw [List.nil_append]
    cases formatLoop nested false s vl with
    | error fault => rfl
    | ok rest => rfl
  | cons c text ih =>
    rw [List.mem_cons, not_or] at plain
    rw [List.cons_append, formatLoop, if_neg (Ne.symm plain.1), ih plain.2]
    cases formatLoop nested false s vl with
    | error fault => rfl
    | ok rest => simp [Except.map, shown]

theorem formatLoop_plain (plain : '%' ∉ text) :
    formatLoop nested false text vl = .ok (shown text) := by
  have run : formatLoop nested false (text ++ []) vl =
      (formatLoop nested false [] vl).map (shown text ++ ·) := formatLoop_text plain
  rw [List.append_nil] at run
  rw [run]
  simp [formatLoop, Except.map]

/-- A string is shown by a call of its own, and what follows it by this one. -/
theorem formatLoop_string (t : CString) :
    formatLoop nested false ('%' :: 's' :: s) (.string (some t) :: vl) =
      (nested t).bind fun inside => (formatLoop nested false s vl).map (inside ++ ·) := by
  show (do
    let shown ← nested t
    let rest ← formatLoop nested false s vl
    pure (shown ++ rest)) = _
  cases nested t with
  | error fault => rfl
  | ok inside =>
    cases formatLoop nested false s vl with
    | error fault => rfl
    | ok rest => rfl

end Formats

theorem i2hsLoop_mem (fuel : Nat) :
    ∀ {n : BitVec 32} {ts : CString}, (∀ c ∈ ts, c ∈ "0123456789ABCDEF".toList) →
      ∀ c ∈ i2hsLoop fuel n ts, c ∈ "0123456789ABCDEF".toList := by
  induction fuel with
  | zero => exact fun digits => digits
  | succ fuel ih =>
    intro n ts digits
    rw [i2hsLoop]
    split
    · exact digits
    · apply ih
      intro c member
      rcases List.mem_cons.mp member with rfl | before
      · have small : (n &&& 0xf).toNat < 16 :=
          Nat.lt_of_le_of_lt Nat.and_le_right (by decide)
        rw [List.getD_eq_getElem?_getD, List.getElem?_eq_getElem small, Option.getD_some]
        exact List.getElem_mem small
      · exact digits c before

theorem i2hs_plain (n : BitVec 32) : '%' ∉ i2hs n := by
  have digits : '%' ∈ i2hsLoop 8 n [] → '%' ∈ "0123456789ABCDEF".toList :=
    i2hsLoop_mem 8 (fun c member => absurd member List.not_mem_nil) '%'
  rw [i2hs]
  split
  · decide
  · intro member
    exact absurd (digits member) (by decide)

theorem formatLoop_hex {s : CString} {vl : List Arg} (n : BitVec 32) :
    formatLoop printfString false ('%' :: 'x' :: s) (.word n :: vl) =
      (formatLoop printfString false s vl).map (shown (i2hs n) ++ ·) := by
  have inner : printfString (i2hs n) = .ok (shown (i2hs n)) := formatLoop_plain (i2hs_plain n)
  cases outer : formatLoop printfString false s vl with
  | error fault => simp [formatLoop, inner, outer, bind, Except.bind, Except.map]
  | ok rest => simp [formatLoop, inner, outer, bind, Except.bind, pure, Except.pure, Except.map]

/-- A format with one string. -/
theorem printf_string {front back : CString} (plain : '%' ∉ front) (plain' : '%' ∉ back)
    (t : CString) :
    printf (front ++ '%' :: 's' :: back) [.string (some t)] =
      (printfString t).map fun inside => shown front ++ (inside ++ shown back) := by
  rw [printf, formatLoop_text plain, formatLoop_string, formatLoop_plain plain']
  cases printfString t with
  | error fault => rfl
  | ok inside => rfl

theorem formatLoop_string_iff {s : CString} {vl : List Arg} (t : Option CString) :
    (∃ text, formatLoop printfString false ('%' :: 's' :: s) (.string t :: vl) = .ok text) ↔
      (∃ c, t = some c ∧ takesArgument c = false) ∧
        ∃ text, formatLoop printfString false s vl = .ok text := by
  cases t with
  | none => simp [formatLoop]
  | some c =>
    have named := printfString_iff c
    rw [formatLoop_string]
    cases inner : printfString c with
    | error fault =>
      rw [inner] at named
      simpa [Except.bind] using fun plain _ _ => absurd (named.mpr plain) (by simp)
    | ok inside =>
      have plain := named.mp ⟨inside, inner⟩
      simp only [Except.bind, map_ends_iff, Option.some_inj, exists_eq_left', plain, true_and]

end Ct.S5pv210
