import Ct.S5pv210.HexText

set_option autoImplicit false

namespace Ct.S5pv210

open Ct.Lib

/-- What a command does to the registers. -/
inductive RegisterAccess
  | read (addr : BitVec 32)
  | write (addr value : BitVec 32)
  deriving DecidableEq, Repr

structure CommandRun where
  ret : Int
  accesses : List RegisterAccess
  sent : CString
  deriving DecidableEq, Repr

/-- `shell_devmem`; `rawRead` are the registers as `__raw_read` finds them. -/
def shellDevmem (rawRead : BitVec 32 → BitVec 32) : List CString → Except Fault CommandRun
  | _ :: addr :: rest =>
    let regaddr := str2hl addr
    if regaddr = -1 then
      (printf "error register address: %s\n".toList [.string (some addr)]).map (⟨-1, [], ·⟩)
    else
      match rest with
      | [] =>
        (printf "r %x \t= %x\n".toList [.word regaddr, .word (rawRead regaddr)]).map
          (⟨0, [.read regaddr], ·⟩)
      | value :: _ =>
        let regval := str2hl value
        if regval = -1 then
          (printf "error register value: %s\n".toList [.string (some value)]).map (⟨-1, [], ·⟩)
        else
          (printf "w %x \t= %x\n".toList [.word regaddr, .word regval]).map
            (⟨0, [.write regaddr regval], ·⟩)
  | _ => (printf "eg: devmem reg_addr [reg_value]\n".toList []).map (⟨-1, [], ·⟩)

section Text

theorem mem_hexDigits_iff (c : Char) : c ∈ hexDigits ↔
    (0x30 ≤ c.toNat ∧ c.toNat ≤ 0x39) ∨ (0x41 ≤ c.toNat ∧ c.toNat ≤ 0x46) ∨
      (0x61 ≤ c.toNat ∧ c.toNat ≤ 0x66) := by
  have codes : hexDigits.map Char.toNat = [48, 49, 50, 51, 52, 53, 54, 55, 56, 57, 65, 66, 67, 68,
    69, 70, 97, 98, 99, 100, 101, 102] := by decide
  have code : c ∈ hexDigits ↔ c.toNat ∈ hexDigits.map Char.toNat := by
    rw [List.mem_map]
    constructor
    · exact fun member => ⟨c, member, rfl⟩
    · rintro ⟨d, member, same⟩
      rwa [← Char.toNat_inj.mp same]
  rw [code, codes]
  simp only [List.mem_cons, List.not_mem_nil, or_false]
  omega

theorem digitOf_other {c : Char} (other : c ∉ hexDigits) : digitOf c = none := by
  rw [mem_hexDigits_iff, not_or, not_or] at other
  rw [digitOf, if_neg other.1, if_neg other.2.1, if_neg other.2.2]

theorem shift_or_ofNat (n : Nat) {x : Nat} (digit : x < 16) :
    (BitVec.ofNat 32 n <<< 4) ||| BitVec.ofNat 32 x = BitVec.ofNat 32 (16 * n + x) := by
  apply BitVec.eq_of_toNat_eq
  have shifted : (BitVec.ofNat 32 n <<< 4).toNat = (n % 2 ^ 28) <<< 4 := by
    rw [BitVec.toNat_shiftLeft, BitVec.toNat_ofNat, Nat.shiftLeft_eq, Nat.shiftLeft_eq]
    omega
  have low : (BitVec.ofNat 32 x).toNat = x := by
    rw [BitVec.toNat_ofNat]
    omega
  rw [BitVec.toNat_or, shifted, low, ← Nat.shiftLeft_add_eq_or_of_lt (by omega), Nat.shiftLeft_eq,
    BitVec.toNat_ofNat]
  omega

/-- Of digits that do not fit into a word the last ones are left. -/
theorem str2hlLoop_digits (ss : CString) :
    ∀ n : Nat, (∀ c ∈ ss, c ∈ hexDigits) →
      str2hlLoop ss (BitVec.ofNat 32 n) =
        BitVec.ofNat 32 (ss.foldl (fun n c => 16 * n + hexDigit c) n) := by
  induction ss with
  | nil => exact fun _ _ => rfl
  | cons c ss ih =>
    intro n digits
    obtain ⟨here, later⟩ := List.forall_mem_cons.mp digits
    rw [str2hlLoop, digitOf_hexDigit here, List.foldl_cons, ← ih _ later,
      ← shift_or_ofNat n (hexDigit_lt here)]

theorem str2hl_digits {ss : CString} (digits : ∀ c ∈ ss, c ∈ hexDigits) :
    str2hl ss = BitVec.ofNat 32 (hexValue ss) := str2hlLoop_digits ss 0 digits

theorem str2hlLoop_other (ss : CString) :
    ∀ number : BitVec 32, (∃ c ∈ ss, c ∉ hexDigits) → str2hlLoop ss number = -1 := by
  induction ss with
  | nil =>
    rintro _ ⟨c, member, _⟩
    exact absurd member List.not_mem_nil
  | cons c ss ih =>
    rintro number ⟨d, member, other⟩
    by_cases here : c ∈ hexDigits
    · rw [str2hlLoop, digitOf_hexDigit here]
      rcases List.mem_cons.mp member with rfl | later
      · exact absurd here other
      · exact ih _ ⟨d, later, other⟩
    · rw [str2hlLoop, digitOf_other here]

/-- `str2hl` returns its error value: some character is no digit, or the digits end in eight times
the last one. -/
def Refused (s : CString) : Prop :=
  (∃ c ∈ s, c ∉ hexDigits) ∨ List.replicate 8 'F' <:+ s.map Char.toUpper

instance (s : CString) : Decidable (Refused s) :=
  @instDecidableOr _ _ (List.decidableBEx (fun c => c ∉ hexDigits) s) inferInstance

theorem str2hl_refused_iff (s : CString) : str2hl s = -1 ↔ Refused s := by
  by_cases other : ∃ c ∈ s, c ∉ hexDigits
  · exact iff_of_true (str2hlLoop_other s 0 other) (Or.inl other)
  · have digits : ∀ c ∈ s, c ∈ hexDigits := by simpa using other
    have ones := hexValue_mod_eq_last 8 digits
    have error : BitVec.ofNat 32 (hexValue s) = -1 ↔ hexValue s % 16 ^ 8 = 16 ^ 8 - 1 := by
      rw [← BitVec.toNat_inj, BitVec.toNat_ofNat]
      exact Iff.rfl
    rw [str2hl_digits digits, error, ones, Refused, or_iff_right other]

end Text

section Call

variable {rawRead : BitVec 32 → BitVec 32} {name addr value : CString}

/-- The run ends with an error message and has touched no register. -/
def Rejects (run : Except Fault CommandRun) : Prop :=
  ∃ sent, run = .ok ⟨-1, [], sent⟩ ∧ "error register ".toList <+: sent

/-- A message ends if the string that it shows has no conversion that takes an argument. -/
theorem rejects_message {front : CString} (kind : "error register ".toList <+: front)
    (plain : '%' ∉ front) (clear : '\n' ∉ front) (t : CString) :
    Rejects ((printf (front ++ "%s\n".toList) [.string (some t)]).map (⟨-1, [], ·⟩)) ↔
      takesArgument t = false := by
  have format : "%s\n".toList = '%' :: 's' :: ['\n'] := by decide
  rw [← printfString_iff, format, printf_string plain (by decide), shown_plain clear]
  cases inner : printfString t with
  | error fault =>
    simp [Rejects, Except.map]
  | ok inside =>
    have starts : "error register ".toList <+: front ++ (inside ++ shown ['\n']) :=
      kind.trans (List.prefix_append _ _)
    simp only [Rejects, Except.map, Except.ok.injEq, CommandRun.mk.injEq, true_and, exists_eq_left',
      starts, exists_eq']

theorem writes_message (n m : BitVec 32) :
    ∃ text, printf "w %x \t= %x\n".toList [.word n, .word m] = .ok text := by
  have format : "w %x \t= %x\n".toList =
      "w ".toList ++ '%' :: 'x' :: (" \t= ".toList ++ '%' :: 'x' :: ['\n']) := by decide
  rw [format, printf, formatLoop_text (by decide), map_ends_iff, formatLoop_hex, map_ends_iff,
    formatLoop_text (by decide), map_ends_iff, formatLoop_hex, map_ends_iff]
  exact ⟨_, formatLoop_plain (by decide)⟩

theorem devmem_address (rawRead : BitVec 32 → BitVec 32) (name value : CString)
    (refused : Refused addr) :
    Rejects (shellDevmem rawRead [name, addr, value]) ↔ takesArgument addr = false := by
  have error := (str2hl_refused_iff addr).mpr refused
  have message : "error register address: %s\n".toList =
      "error register address: ".toList ++ "%s\n".toList := by decide
  simp only [shellDevmem, error, ↓reduceIte]
  rw [message]
  exact rejects_message (by decide) (by decide) (by decide) addr

theorem devmem_value (rawRead : BitVec 32 → BitVec 32) (name : CString) (taken : ¬Refused addr)
    (refused : Refused value) :
    Rejects (shellDevmem rawRead [name, addr, value]) ↔ takesArgument value = false := by
  have word := mt (str2hl_refused_iff addr).mp taken
  have error := (str2hl_refused_iff value).mpr refused
  have message : "error register value: %s\n".toList =
      "error register value: ".toList ++ "%s\n".toList := by decide
  simp only [shellDevmem, word, error, ↓reduceIte]
  rw [message]
  exact rejects_message (by decide) (by decide) (by decide) value

theorem devmem_writes (rawRead : BitVec 32 → BitVec 32) (name : CString) (taken : ¬Refused addr)
    (taken' : ¬Refused value) :
    ∃ sent, shellDevmem rawRead [name, addr, value] =
      .ok ⟨0, [.write (str2hl addr) (str2hl value)], sent⟩ := by
  have word := mt (str2hl_refused_iff addr).mp taken
  have word' := mt (str2hl_refused_iff value).mp taken'
  obtain ⟨text, printed⟩ := writes_message (str2hl addr) (str2hl value)
  refine ⟨text, ?_⟩
  simp only [shellDevmem, word, word', ↓reduceIte, printed, Except.map]

/-- The text of a word: one to eight digits. -/
def HexWord (s : CString) : Prop := s ≠ [] ∧ s.length ≤ 8 ∧ ∀ c ∈ s, c ∈ hexDigits

instance (s : CString) : Decidable (HexWord s) :=
  @instDecidableAnd _ _ inferInstance
    (@instDecidableAnd _ _ inferInstance (List.decidableBAll (fun c => c ∈ hexDigits) s))

/-- Texts of words are written, and all other strings rejected. -/
def AcceptsWords (rawRead : BitVec 32 → BitVec 32) (name addr value : CString) : Prop :=
  if HexWord addr ∧ HexWord value then
    ∃ sent, shellDevmem rawRead [name, addr, value] = .ok
      ⟨0, [.write (BitVec.ofNat 32 (hexValue addr)) (BitVec.ofNat 32 (hexValue value))], sent⟩
  else Rejects (shellDevmem rawRead [name, addr, value])

theorem map_accesses {result : Except Fault CString} {ret : Int} {run : CommandRun}
    (ran : result.map (⟨ret, [], ·⟩) = .ok run) : run.accesses = [] := by
  cases result with
  | error fault => cases ran
  | ok text =>
    cases ran
    rfl

/-- A string that is refused keeps the registers from being touched. -/
theorem devmem_silent (refused : Refused addr ∨ Refused value) {run : CommandRun}
    (ran : shellDevmem rawRead [name, addr, value] = .ok run) : run.accesses = [] := by
  rw [← str2hl_refused_iff, ← str2hl_refused_iff] at refused
  simp only [shellDevmem] at ran
  by_cases first : str2hl addr = -1
  · rw [if_pos first] at ran
    exact map_accesses ran
  · rw [if_neg first, if_pos (refused.resolve_left first)] at ran
    exact map_accesses ran

theorem not_rejects_writes {run : Except Fault CommandRun} {accesses : List RegisterAccess}
    {sent : CString} (ran : run = .ok ⟨0, accesses, sent⟩) : ¬Rejects run := by
  rintro ⟨sent', ran', _⟩
  rw [ran] at ran'
  cases ran'

/-- Not the greatest word, and where one of the strings is not the text of a word, one that is
refused, with nothing in it that its message would take for a conversion. -/
def Distinguished (addr value : CString) : Prop :=
  if HexWord addr ∧ HexWord value then ¬Refused addr ∧ ¬Refused value
  else (Refused addr ∧ takesArgument addr = false) ∨
    (¬Refused addr ∧ Refused value ∧ takesArgument value = false)

theorem acceptsWords_iff (rawRead : BitVec 32 → BitVec 32) (name addr value : CString) :
    AcceptsWords rawRead name addr value ↔ Distinguished addr value := by
  have touched : Refused addr ∨ Refused value → ¬∃ sent, shellDevmem rawRead [name, addr, value] =
      .ok ⟨0, [.write (BitVec.ofNat 32 (hexValue addr)) (BitVec.ofNat 32 (hexValue value))],
        sent⟩ := by
    rintro refused ⟨sent, ran⟩
    exact absurd (devmem_silent refused ran) (List.cons_ne_nil _ _)
  unfold AcceptsWords Distinguished
  by_cases first : Refused addr
  · have rejected := devmem_address rawRead name value first
    split
    · exact iff_of_false (touched (Or.inl first)) fun both => both.1 first
    · simp only [first, rejected, true_and, not_true, false_and, or_false]
  · by_cases second : Refused value
    · have rejected := devmem_value rawRead name first second
      split
      · exact iff_of_false (touched (Or.inr second)) fun both => both.2 second
      · simp only [first, second, rejected, true_and, not_false_eq_true, false_and, false_or]
    · obtain ⟨sent, ran⟩ := devmem_writes rawRead name first second
      split
      · rename_i words
        rw [str2hl_digits words.1.2.2, str2hl_digits words.2.2.2] at ran
        exact iff_of_true ⟨sent, ran⟩ ⟨first, second⟩
      · have written := not_rejects_writes ran
        simp only [first, second, written, false_and, and_false, or_false]

/-- The greatest word is taken for the error value, and not written. -/
theorem greatest_word_rejected :
    ¬AcceptsWords (fun _ => 0) "devmem".toList "E0200284".toList "FFFFFFFF".toList := by
  intro accepts
  rw [AcceptsWords, if_pos (by decide)] at accepts
  obtain ⟨sent, ran⟩ := accepts
  exact absurd (devmem_silent (Or.inr (by decide)) ran) (List.cons_ne_nil _ _)

end Call

end Ct.S5pv210
