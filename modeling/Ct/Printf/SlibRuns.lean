import Ct.Lib.Numeral
import Ct.Printf.Slib

set_option autoImplicit false

namespace Ct.Printf

open Ct.Lib

/-- The digits that `myitoa` makes of a number. -/
def digitsText (base : Base) (n : Int) : CString := numeral base.val n.toNat

section Myitoa

variable {base : Base} {done rest : List Char} {n : Int}

theorem load_tb {d : Nat} (small : d < 16) : load tb d = .ok (digitOf d) := by
  have here : tb[d]? = some (digitOf d) := by
    simpa using forall_digitOf (fun d => decide (tb[d]? = some (digitOf d))) (by decide) small
  rw [load, here]

/-- The digits come to stand behind those that are there, the last one first. -/
theorem digitLoop_natural (base : Base) (n : Nat) :
    ∀ done rest : List Char, (numeral base.val n).length ≤ rest.length →
      digitLoop base n done.length ('\x00' :: (done ++ rest)) =
        .ok ((done ++ (numeral base.val n).reverse).length,
          '\x00' :: (done ++ (numeral base.val n).reverse ++
            rest.drop (numeral base.val n).length)) := by
  induction n using Nat.strongRecOn with
  | _ n ih =>
    intro done rest room
    by_cases positive : 0 < n
    · have less : n / base.val < n := Nat.div_lt_self positive base.low
      have digit : n % base.val < 16 :=
        Nat.lt_of_lt_of_le (Nat.mod_lt n (by have := base.low; omega)) base.high
      have parts := numeral_snoc base.low positive
      rw [parts, List.length_append, List.length_singleton] at room
      cases rest with
      | nil => exact absurd room (by simp)
      | cons old rest =>
        have stored : store ('\x00' :: (done ++ old :: rest)) (done.length + 1)
            (digitOf (n % base.val)) =
              .ok ('\x00' :: (done ++ [digitOf (n % base.val)] ++ rest)) := by
          rw [store, if_pos (by simp), List.set_cons_succ, set_front, List.append_assoc,
            List.singleton_append]
        have later := ih (n / base.val) less (done ++ [digitOf (n % base.val)]) rest
          (Nat.le_of_succ_le_succ room)
        rw [List.length_append, List.length_singleton] at later
        have cut : (old :: rest).drop (numeral base.val n).length =
            rest.drop (numeral base.val (n / base.val)).length := by
          rw [parts, List.length_append, List.length_singleton, List.drop_succ_cons]
        rw [digitLoop, dif_pos (Int.natCast_pos.mpr positive), ← Int.ofNat_tmod, Int.toNat_natCast,
          load_tb digit]
        simp only [stored]
        rw [← Int.ofNat_tdiv, later, cut, parts, List.reverse_append, List.reverse_singleton,
          List.singleton_append, List.append_assoc done, List.singleton_append]
    · obtain rfl : n = 0 := by omega
      rw [digitLoop, dif_neg (by simp), numeral_zero]
      simp

/-- A number that is not positive has no digits. -/
theorem digitLoop_digits (base : Base) (n : Int) (done rest : List Char)
    (room : (digitsText base n).length ≤ rest.length) :
    digitLoop base n done.length ('\x00' :: (done ++ rest)) =
      .ok ((done ++ (digitsText base n).reverse).length,
        '\x00' :: (done ++ (digitsText base n).reverse ++
          rest.drop (digitsText base n).length)) := by
  by_cases positive : 0 < n
  · obtain ⟨m, rfl⟩ := Int.eq_ofNat_of_zero_le (Int.le_of_lt positive)
    exact digitLoop_natural base m done rest room
  · have none : digitsText base n = [] := by
      rw [digitsText, Int.toNat_of_nonpos (Int.not_lt.mp positive), numeral_zero]
    rw [digitLoop, dif_neg positive, none]
    simp

theorem copyLoop_copies (ds : List Char) :
    ∀ junk done room : List Char, '\x00' ∉ ds → ds.length < room.length →
      copyLoop ('\x00' :: (ds ++ junk)) ds.length (done ++ room) done.length =
        .ok (done ++ ds.reverse ++ '\x00' :: room.drop (ds.length + 1)) := by
  induction ds using List.reverseRecOn with
  | nil =>
    intro junk done room _ enough
    cases room with
    | nil => exact absurd enough (Nat.lt_irrefl 0)
    | cons old room =>
      have stored : store (done ++ old :: room) done.length '\x00' =
          .ok (done ++ '\x00' :: room) := by
        rw [store, if_pos (by simp), set_front]
      rw [copyLoop]
      simp only [List.length_nil, load, List.getElem?_cons_zero, stored, bind, Except.bind]
      simp [pure, Except.pure]
  | append_singleton ds c ih =>
    intro junk done room plain enough
    rw [List.mem_append, not_or, List.mem_singleton] at plain
    rw [List.length_append, List.length_singleton] at enough
    cases room with
    | nil => exact absurd enough (Nat.not_lt_zero _)
    | cons old room =>
      have stored : store (done ++ old :: room) done.length c = .ok (done ++ [c] ++ room) := by
        rw [store, if_pos (by simp), set_front, List.append_assoc, List.singleton_append]
      have loaded : load ('\x00' :: (ds ++ c :: junk)) (ds.length + 1) = .ok c := by
        rw [load, List.getElem?_cons_succ, getElem?_front]
      have later := ih (c :: junk) (done ++ [c]) room plain.1 (Nat.lt_of_succ_lt_succ enough)
      rw [List.length_append, List.length_singleton] at later
      rw [copyLoop, List.append_assoc, List.singleton_append, List.length_append,
        List.length_singleton]
      simp only [loaded, stored, bind, Except.bind, if_neg (Ne.symm plain.2), later]
      rw [List.reverse_append, List.reverse_singleton, List.append_assoc done,
        List.drop_succ_cons]

theorem mem_digitsText (base : Base) (n : Int) :
    ∀ c ∈ digitsText base n, ∃ d < 16, c = digitOf d := by
  intro c member
  obtain ⟨d, small, same⟩ := mem_numeral base.low c member
  exact ⟨d, Nat.lt_of_lt_of_le small base.high, same⟩

theorem digitsText_unterminated (base : Base) (n : Int) : '\x00' ∉ digitsText base n := by
  intro member
  obtain ⟨d, small, same⟩ := mem_digitsText base n _ member
  exact digitOf_ne_terminator small same.symm

/-- A number of `int` has 31 digits at most, for which the scratch area has room. -/
theorem length_digitsText_le (base : Base) (small : n < 2 ^ 31) :
    (digitsText base n).length ≤ 31 := by
  apply length_numeral_le base.low
  have least : (2 : Nat) ^ 31 ≤ base.val ^ 31 := Nat.pow_le_pow_left base.low 31
  omega

/-- `myitoa` writes the digits and a terminator; what is behind them stays. -/
theorem myitoa_writes (scratch : Scratch) (base : Base) (small : n < 2 ^ 31) {s : List Char}
    (room : (digitsText base n).length < s.length) :
    myitoa scratch n s base =
      .ok (digitsText base n ++ '\x00' :: s.drop ((digitsText base n).length + 1)) := by
  obtain ⟨st, sized⟩ := scratch
  cases st with
  | nil => cases sized
  | cons c junk =>
    have stored : store (c :: junk) 0 '\x00' = .ok ('\x00' :: junk) := rfl
    have enough : (digitsText base n).length ≤ junk.length := by
      rw [List.length_cons] at sized
      have few := length_digitsText_le base small
      omega
    have digits := digitLoop_digits base n [] junk enough
    have plain : '\x00' ∉ (digitsText base n).reverse := by
      rw [List.mem_reverse]
      exact digitsText_unterminated base n
    have copied := copyLoop_copies (digitsText base n).reverse
      (junk.drop (digitsText base n).length) [] s plain (by rwa [List.length_reverse])
    simp only [List.nil_append, List.length_nil, List.length_reverse, List.reverse_reverse]
      at digits copied
    simp only [myitoa, stored, digits, copied, bind, Except.bind]

end Myitoa

section Myprintf

variable {scratch : Scratch}

/-- A value of the type `int`. -/
def IsInt (n : Int) : Prop := -(2 ^ 31) ≤ n ∧ n < 2 ^ 31

theorem stringIn_terminated {text : CString} (plain : '\x00' ∉ text) (rest : List Char) :
    stringIn (text ++ '\x00' :: rest) = text := by
  rw [stringIn, List.takeWhile_append_of_pos, List.takeWhile_cons_of_neg (by simp),
    List.append_nil]
  intro c member
  simpa using ne_of_mem_of_not_mem member plain

theorem printLoop_plain (scratch : Scratch) (nested : CString → Except Fault CString)
    (front : CString) (back : CString) (vl : List Int) (st : List Char) :
    '%' ∉ front → printLoop scratch nested false (front ++ back) vl st =
      (printLoop scratch nested false back vl st).map (front ++ ·) := by
  induction front with
  | nil =>
    intro _
    cases ran : printLoop scratch nested false back vl st <;> simp [ran, Except.map]
  | cons p front ih =>
    intro plain
    rw [List.mem_cons, not_or] at plain
    rw [List.cons_append, printLoop, if_neg (Ne.symm plain.1), ih plain.2]
    cases printLoop scratch nested false back vl st <;> rfl

/-- Digits are shown as they are. -/
theorem myprintfString_digits (scratch : Scratch) (base : Base) (n : Int) :
    myprintfString scratch (digitsText base n) = .ok (digitsText base n) := by
  have plain : '%' ∉ digitsText base n := by
    intro member
    obtain ⟨d, small, same⟩ := mem_digitsText base n _ member
    exact digitOf_ne_percent small same.symm
  have shown := printLoop_plain scratch (fun _ => .error .uninitialised) (digitsText base n) [] []
    scratch.val plain
  rw [List.append_nil] at shown
  rw [myprintfString, shown, printLoop]
  simp [Except.map]

/-- One number: its digits are shown, and the buffer keeps its size. -/
theorem printLoop_number (scratch : Scratch) {n : Int} (small : n < 2 ^ 31) {st : List Char}
    (room : 32 ≤ st.length) {p : Char} (number : p = 'd' ∨ p = 'p') (s : CString) (vl : List Int) :
    ∃ after : List Char, 32 ≤ after.length ∧
      printLoop scratch (myprintfString scratch) true (p :: s) (n :: vl) st =
        (printLoop scratch (myprintfString scratch) false s vl after).map
          (digitsText (conversionBase p) n ++ ·) := by
  have percent : p ≠ '%' := by
    rintro rfl
    simp at number
  have few := length_digitsText_le (conversionBase p) small
  have written := myitoa_writes scratch (conversionBase p) small (s := st) (by omega)
  have sized : 32 ≤ (digitsText (conversionBase p) n ++
      '\x00' :: st.drop ((digitsText (conversionBase p) n).length + 1)).length := by
    rw [List.length_append, List.length_cons, List.length_drop]
    omega
  refine ⟨_, sized, ?_⟩
  rw [printLoop, if_neg percent, if_pos number]
  simp only [written, bind, Except.bind, stringIn_terminated (digitsText_unterminated _ n),
    myprintfString_digits]
  cases printLoop scratch (myprintfString scratch) false s vl _ <;> rfl

/-- What is in the buffer before is never shown. -/
theorem printLoop_buffer (s : CString) :
    ∀ (flag : Bool) (vl : List Int) (st st' : List Char), (∀ n ∈ vl, IsInt n) →
      32 ≤ st.length → 32 ≤ st'.length →
      printLoop scratch (myprintfString scratch) flag s vl st =
        printLoop scratch (myprintfString scratch) flag s vl st' := by
  induction s with
  | nil =>
    intro flag vl st st' _ _ _
    cases flag <;> rfl
  | cons p s ih =>
    intro flag vl st st' ints room room'
    cases flag with
    | false =>
      rw [printLoop, printLoop, ih true vl st st' ints room room',
        ih false vl st st' ints room room']
    | true =>
      by_cases number : p = 'd' ∨ p = 'p'
      · cases vl with
        | nil => simp [printLoop, number, ih false [] st st' ints room room']
        | cons n vl =>
          obtain ⟨here, later⟩ := List.forall_mem_cons.mp ints
          obtain ⟨after, sized, shown⟩ := printLoop_number scratch here.2 room number s vl
          obtain ⟨after', sized', shown'⟩ := printLoop_number scratch here.2 room' number s vl
          rw [shown, shown', ih false vl after after' later sized sized']
      · have same := ih false vl st st' ints room room'
        cases vl with
        | nil => rw [printLoop, printLoop, same]
        | cons n vl => rw [printLoop, printLoop, same, if_neg number, if_neg number]

/-- Wherever the first conversion is a `%d`, the digits of its argument are shown. -/
theorem myprintf_number (scratch : Scratch) {n : Int} (int : IsInt n) {front : CString}
    (plain : '%' ∉ front) (back : CString) {vl : List Int} (ints : ∀ m ∈ vl, IsInt m) :
    myprintf scratch (front ++ '%' :: 'd' :: back) (n :: vl) =
      (myprintf scratch back vl).map (front ++ digitsText decimal n ++ ·) := by
  have room : 32 ≤ scratch.val.length := Nat.le_of_eq scratch.property.symm
  obtain ⟨after, sized, shown⟩ := printLoop_number scratch int.2 room
    (Or.inl rfl : 'd' = 'd' ∨ 'd' = 'p') back vl
  rw [myprintf, printLoop_plain _ _ front _ _ _ plain, printLoop, if_pos rfl, shown,
    printLoop_buffer back false vl after scratch.val ints sized room, myprintf]
  cases printLoop scratch (myprintfString scratch) false back vl scratch.val with
  | error fault => rfl
  | ok rest => simp [Except.map, conversionBase]

end Myprintf

/-- Positive numbers have different digits, and the others have none. -/
theorem digitsText_injective {base : Base} {n m : Int} (positive : 0 < n)
    (same : digitsText base m = digitsText base n) : m = n := by
  have values := congrArg (numeralValue base.val) same
  rw [digitsText, digitsText, numeralValue_numeral base.low base.high,
    numeralValue_numeral base.low base.high] at values
  omega

theorem digitsText_decimal {n : Int} (positive : 0 < n) : digitsText decimal n = intText n := by
  have magnitude : n.natAbs = n.toNat := by omega
  rw [digitsText, decimal, numeral_ten (by omega), intText, decide_eq_false (by omega), magnitude]
  rfl

/-- `myitoa` leaves this text in every buffer with room for a sign, 32 digits and a terminator. -/
def Writes (scratch : Scratch) (base : Base) (n : Int) (text : CString) : Prop :=
  ∀ s : List Char, 34 ≤ s.length →
    myitoa scratch n s base = .ok (text ++ '\x00' :: s.drop (text.length + 1))

/-- The number is written as a numeral, `%d` shows its decimal text, and no other `int` gives the
same text. -/
def PrintsInteger (scratch : Scratch) (base : Base) (n : Int) : Prop :=
  (∃ text, Writes scratch base n text ∧ IsNumeral base.val text n ∧
    ∀ m, IsInt m → m ≠ n → ¬ Writes scratch base m text) ∧
  (∀ (front back : CString) (vl : List Int), '%' ∉ front → (∀ m ∈ vl, IsInt m) →
    myprintf scratch (front ++ '%' :: 'd' :: back) (n :: vl) =
      (myprintf scratch back vl).map (front ++ intText n ++ ·)) ∧
  ∀ m, IsInt m → m ≠ n →
    myprintf scratch ['%', 'd'] [m] ≠ myprintf scratch ['%', 'd'] [n]

section Integers

variable {scratch : Scratch} {base : Base} {n : Int}

theorem digitsText_writes (int : IsInt n) : Writes scratch base n (digitsText base n) := by
  intro s room
  have few := length_digitsText_le base int.2
  exact myitoa_writes scratch base int.2 (by omega)

theorem Writes.eq_digitsText (int : IsInt n) {text : CString} (plain : '\x00' ∉ text)
    (writes : Writes scratch base n text) : text = digitsText base n := by
  have buffer : 34 ≤ (List.replicate 34 '\x00').length := Nat.le_of_eq List.length_replicate.symm
  have same := (writes _ buffer).symm.trans (digitsText_writes int _ buffer)
  rw [← stringIn_terminated plain, Except.ok.inj same,
    stringIn_terminated (digitsText_unterminated base n)]

theorem myprintf_decimal (int : IsInt n) :
    myprintf scratch ['%', 'd'] [n] = .ok (digitsText decimal n) := by
  have plain : '%' ∉ ([] : CString) := List.not_mem_nil
  have ints : ∀ m ∈ ([] : List Int), IsInt m := fun m member => absurd member List.not_mem_nil
  have shown := myprintf_number scratch int plain [] ints
  rw [List.nil_append] at shown
  rw [shown, myprintf, printLoop]
  simp [Except.map]

end Integers

/-- The number 0 has no digits. -/
theorem zero_prints_nothing :
    ¬ ∀ (scratch : Scratch) (base : Base) (n : Int), IsInt n → PrintsInteger scratch base n := by
  intro prints
  have int : IsInt 0 := ⟨by decide, by decide⟩
  obtain ⟨⟨text, writes, numeral, _⟩, _⟩ :=
    prints ⟨List.replicate 32 'x', List.length_replicate⟩ decimal 0 int
  have full := numeral.ne_nil
  rw [writes.eq_digitsText int (numeral.unterminated decimal.high)] at full
  exact full rfl

/-- The integers that are printed are the positive ones. -/
theorem printsInteger_iff (scratch : Scratch) (base : Base) {n : Int} (int : IsInt n) :
    PrintsInteger scratch base n ↔ 0 < n := by
  constructor
  · rintro ⟨⟨text, writes, numeral, _⟩, _⟩
    have full := numeral.ne_nil
    rw [writes.eq_digitsText int (numeral.unterminated base.high)] at full
    apply Int.not_le.mp
    intro low
    rw [digitsText, Int.toNat_of_nonpos low] at full
    exact full (numeral_zero base.val)
  · intro positive
    have natural : ((n.toNat : Nat) : Int) = n := Int.toNat_of_nonneg (Int.le_of_lt positive)
    have numeral := numeral_isNumeral base.low base.high (show 0 < n.toNat by omega)
    rw [natural] at numeral
    refine ⟨⟨digitsText base n, digitsText_writes int, numeral, ?_⟩, ?_, ?_⟩
    · intro m int' other writes
      have same := writes.eq_digitsText int' (digitsText_unterminated base n)
      exact other (digitsText_injective positive same.symm)
    · intro front back vl plain ints
      rw [myprintf_number scratch int plain back ints, digitsText_decimal positive]
    · intro m int' other same
      rw [myprintf_decimal int', myprintf_decimal int] at same
      exact other (digitsText_injective positive (Except.ok.inj same))

theorem printsInteger_greatest :
    PrintsInteger ⟨List.replicate 32 'x', List.length_replicate⟩ ⟨2, by decide, by decide⟩
      (2 ^ 31 - 1) :=
  (printsInteger_iff _ _ ⟨by decide, by decide⟩).mpr (by decide)

end Ct.Printf
