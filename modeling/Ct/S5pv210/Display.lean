import Mathlib.Algebra.Group.Int.Defs
import Mathlib.Algebra.GroupWithZero.Nat
import Mathlib.Data.List.Flatten

set_option autoImplicit false

namespace Ct.S5pv210.Display

/-- `struct hv_config`; `dclk` is not used. -/
structure HvConfig where
  hozval : Int
  linehoz : Int
  hspw : Int
  hbpd : Int
  hfpd : Int
  lineval : Int
  frameline : Int
  vspw : Int
  vbpd : Int
  vfpd : Int
  deriving DecidableEq, Repr

def hvsLow : Int := 0

def hvsHigh : Int := 1

/-- `struct hv_signal`; the colours are not used. -/
structure HvSignal where
  vs : Int
  hs : Int
  dclk : Int
  de : Int
  deriving DecidableEq, Repr

inductive Event
  /-- `print_hv_signal` -/
  | print (s : HvSignal)
  /-- `mdelay` -/
  | delay (ms : Int)
  deriving DecidableEq, Repr

/-- `generate_hv_clk`, with the signals that it leaves. -/
def generateHvClk (sig : HvSignal) : List Event × HvSignal :=
  let high := { sig with dclk := hvsHigh }
  let low := { high with dclk := hvsLow }
  ([.print high, .delay 400, .print low, .delay 400], low)

/-- What is left of the counters of a line. -/
structure LineCounters where
  hspw : Int
  hbpd : Int
  hozval : Int
  hfpd : Int

/-- What is left of the counters of a frame. -/
structure FrameCounters where
  vspw : Int
  vbpd : Int
  lineval : Int
  vfpd : Int

/-- The `hs` signal of a clock. -/
def hsSignal (c : LineCounters) (sig : HvSignal) : LineCounters × HvSignal :=
  if 0 < c.hspw then ({ c with hspw := c.hspw - 1 }, { sig with hs := hvsLow })
  else (c, { sig with hs := hvsHigh })

/-- The `de` signal of a clock; with all three counters at 0 it stays as it is. -/
def deSignal (vflag : Int) (c : LineCounters) (sig : HvSignal) : LineCounters × HvSignal :=
  if vflag ≠ 0 then
    if 0 < c.hbpd then ({ c with hbpd := c.hbpd - 1 }, { sig with de := hvsLow })
    else if 0 < c.hozval then ({ c with hozval := c.hozval - 1 }, { sig with de := hvsHigh })
    else if 0 < c.hfpd then ({ c with hfpd := c.hfpd - 1 }, { sig with de := hvsLow })
    else (c, sig)
  else (c, { sig with de := hvsLow })

/-- The loop over the clocks of a line, of which `linehoz` are left. -/
def lineLoop (vflag : Int) : Nat → LineCounters → HvSignal → List Event × HvSignal
  | 0, _, sig => ([], sig)
  | linehoz + 1, c, sig =>
    let (c, sig) := hsSignal c sig
    let (c, sig) := deSignal vflag c sig
    let (events, sig) := generateHvClk sig
    let (rest, sig) := lineLoop vflag linehoz c sig
    (events ++ rest, sig)

/-- `vflag` of a line; with all three counters at 0 it stays as it is. -/
def lineFlag (vflag : Int) (c : FrameCounters) : FrameCounters × Int :=
  if 0 < c.vbpd then ({ c with vbpd := c.vbpd - 1 }, 0)
  else if 0 < c.lineval then ({ c with lineval := c.lineval - 1 }, 1)
  else if 0 < c.vfpd then ({ c with vfpd := c.vfpd - 1 }, 0)
  else (c, vflag)

/-- The `vs` signal of a line. -/
def vsSignal (c : FrameCounters) (sig : HvSignal) : FrameCounters × HvSignal :=
  if 0 < c.vspw then ({ c with vspw := c.vspw - 1 }, { sig with vs := hvsLow })
  else (c, { sig with vs := hvsHigh })

/-- The loop over the lines of a frame, of which `frameline` are left. -/
def frameLoop (hvc : HvConfig) : Nat → Int → FrameCounters → HvSignal → List Event × HvSignal
  | 0, _, _, sig => ([], sig)
  | frameline + 1, vflag, c, sig =>
    let (c, vflag) := lineFlag vflag c
    let (c, sig) := vsSignal c sig
    let (events, sig) :=
      lineLoop vflag hvc.linehoz.toNat ⟨hvc.hspw, hvc.hbpd, hvc.hozval, hvc.hfpd⟩ sig
    let (rest, sig) := frameLoop hvc frameline vflag c sig
    (events ++ rest, sig)

/-- The first `n` frames of `generate_hv_signal`, which does not end; `sig` is what its variable
starts with. -/
def generateHvSignal (hvc : HvConfig) : Nat → HvSignal → List (List Event)
  | 0, _ => []
  | n + 1, sig =>
    let (events, sig) :=
      frameLoop hvc hvc.frameline.toNat 0 ⟨hvc.vspw, hvc.vbpd, hvc.lineval, hvc.vfpd⟩ sig
    events :: generateHvSignal hvc n sig

/-- The counts are not negative and add up. -/
structure HvConfig.Valid (hvc : HvConfig) : Prop where
  hozval : 0 ≤ hvc.hozval
  hspw : 0 ≤ hvc.hspw
  hbpd : 0 ≤ hvc.hbpd
  hfpd : 0 ≤ hvc.hfpd
  lineval : 0 ≤ hvc.lineval
  vspw : 0 ≤ hvc.vspw
  vbpd : 0 ≤ hvc.vbpd
  vfpd : 0 ≤ hvc.vfpd
  line : hvc.hbpd + hvc.hozval + hvc.hfpd = hvc.linehoz
  frame : hvc.vbpd + hvc.lineval + hvc.vfpd = hvc.frameline
  hsync : hvc.hspw ≤ hvc.linehoz
  vsync : hvc.vspw ≤ hvc.frameline

/-- `v` is one of the lines with data. -/
def dataLine (hvc : HvConfig) (v : Nat) : Bool :=
  hvc.vbpd ≤ v ∧ (v : Int) < hvc.vbpd + hvc.lineval

/-- `h` is one of the clocks with data. -/
def dataClock (hvc : HvConfig) (h : Nat) : Bool :=
  hvc.hbpd ≤ h ∧ (h : Int) < hvc.hbpd + hvc.hozval

/-- The signals at clock `h` of line `v`, with the data clock still low. -/
def signalAt (hvc : HvConfig) (v h : Nat) : HvSignal where
  vs := if (v : Int) < hvc.vspw then hvsLow else hvsHigh
  hs := if (h : Int) < hvc.hspw then hvsLow else hvsHigh
  dclk := hvsLow
  de := if dataLine hvc v && dataClock hvc h then hvsHigh else hvsLow

/-- The clocks of a frame, line by line. -/
def frameClocks (hvc : HvConfig) : List HvSignal :=
  (List.range hvc.frameline.toNat).flatMap fun v =>
    (List.range hvc.linehoz.toNat).map fun h => signalAt hvc v h

section Phases

/-- Three counters that go down one behind the other, after `k` turns. -/
structure Phases (first second third : Int) (k : Nat) (a b c : Int) : Prop where
  before : a = max (first - k) 0
  during : b = min second (max (first + second - k) 0)
  behind : c = min third (max (first + second + third - k) 0)

variable {first second third : Int}

theorem phases_start (low : 0 ≤ first) (low' : 0 ≤ second) (low'' : 0 ≤ third) :
    Phases first second third 0 first second third := by
  constructor
  · omega
  · omega
  · omega

/-- Each turn takes one from the first counter that is not at 0. -/
theorem Phases.turn {k : Nat} {a b c : Int} (phases : Phases first second third k a b c)
    (low : 0 ≤ second) (low' : 0 ≤ third) (left : k < first + second + third) :
    (0 < a ∧ k < first ∧ Phases first second third (k + 1) (a - 1) b c) ∨
      (¬0 < a ∧ 0 < b ∧ (first ≤ k ∧ k < first + second) ∧
        Phases first second third (k + 1) a (b - 1) c) ∨
      (¬0 < a ∧ ¬0 < b ∧ 0 < c ∧ first + second ≤ k ∧
        Phases first second third (k + 1) a b (c - 1)) := by
  obtain ⟨before, during, behind⟩ := phases
  by_cases start : k < first
  · refine Or.inl ⟨by omega, start, ?_, ?_, ?_⟩
    · omega
    · omega
    · omega
  · by_cases middle : k < first + second
    · refine Or.inr (Or.inl ⟨by omega, by omega, ⟨by omega, middle⟩, ?_, ?_, ?_⟩)
      · omega
      · omega
      · omega
    · refine Or.inr (Or.inr ⟨by omega, by omega, by omega, by omega, ?_, ?_, ?_⟩)
      · omega
      · omega
      · omega

end Phases

section Line

variable {hvc : HvConfig}

/-- The counters at clock `h` of a line. -/
structure LineAt (hvc : HvConfig) (vflag : Int) (h : Nat) (c : LineCounters) : Prop where
  pulse : c.hspw = max (hvc.hspw - h) 0
  data : vflag ≠ 0 → Phases hvc.hbpd hvc.hozval hvc.hfpd h c.hbpd c.hozval c.hfpd

theorem hsSignal_step {vflag : Int} {h : Nat} {c : LineCounters} (at_clock : LineAt hvc vflag h c)
    (v : Nat) (sig : HvSignal) :
    hsSignal c sig = ({ c with hspw := max (hvc.hspw - (h + 1 : Nat)) 0 },
      { sig with hs := (signalAt hvc v h).hs }) := by
  have left := at_clock.pulse
  rw [hsSignal]
  by_cases pulse : (h : Int) < hvc.hspw
  · have some : 0 < c.hspw := by omega
    have next : c.hspw - 1 = max (hvc.hspw - (h + 1 : Nat)) 0 := by omega
    rw [if_pos some, next, signalAt, if_pos pulse]
  · have none : ¬0 < c.hspw := by omega
    have next : c.hspw = max (hvc.hspw - (h + 1 : Nat)) 0 := by omega
    rw [if_neg none, ← next, signalAt, if_neg pulse]

theorem dataClock_iff (h : Nat) :
    dataClock hvc h = true ↔ hvc.hbpd ≤ h ∧ (h : Int) < hvc.hbpd + hvc.hozval :=
  decide_eq_true_iff

theorem dataLine_iff (v : Nat) :
    dataLine hvc v = true ↔ hvc.vbpd ≤ v ∧ (v : Int) < hvc.vbpd + hvc.lineval :=
  decide_eq_true_iff

theorem deSignal_step (valid : hvc.Valid) {vflag : Int} {v h : Nat} {c : LineCounters}
    (pulse : c.hspw = max (hvc.hspw - (h + 1 : Nat)) 0)
    (data : vflag ≠ 0 → Phases hvc.hbpd hvc.hozval hvc.hfpd h c.hbpd c.hozval c.hfpd)
    (inside : (h : Int) < hvc.linehoz) (flag : vflag ≠ 0 ↔ dataLine hvc v = true)
    (sig : HvSignal) :
    LineAt hvc vflag (h + 1) (deSignal vflag c sig).1 ∧
      (deSignal vflag c sig).2 = { sig with de := (signalAt hvc v h).de } := by
  rw [deSignal]
  by_cases active : vflag ≠ 0
  · have row := flag.mp active
    rw [if_pos active, signalAt, row, Bool.true_and]
    rcases (data active).turn valid.hozval valid.hfpd (by rw [valid.line]; exact inside)
      with ⟨here, early, next⟩ | ⟨none, here, middle, next⟩ | ⟨none, none', here, late, next⟩
    · have blank : ¬dataClock hvc h = true := by
        rw [dataClock_iff]
        omega
      rw [if_pos here, if_neg blank]
      exact ⟨⟨pulse, fun _ => next⟩, rfl⟩
    · rw [if_neg none, if_pos here, if_pos ((dataClock_iff h).mpr middle)]
      exact ⟨⟨pulse, fun _ => next⟩, rfl⟩
    · have blank : ¬dataClock hvc h = true := by
        rw [dataClock_iff]
        omega
      rw [if_neg none, if_neg none', if_pos here, if_neg blank]
      exact ⟨⟨pulse, fun _ => next⟩, rfl⟩
  · have blank : dataLine hvc v = false := by
      rw [← Bool.not_eq_true, ← flag]
      exact active
    rw [if_neg active, signalAt, blank]
    exact ⟨⟨pulse, fun some => absurd some active⟩, rfl⟩

/-- What a clock does to the signals, and how it leaves the counters. -/
theorem clock_step (valid : hvc.Valid) {vflag : Int} {v h : Nat} {c : LineCounters} {sig : HvSignal}
    (at_clock : LineAt hvc vflag h c) (inside : (h : Int) < hvc.linehoz)
    (flag : vflag ≠ 0 ↔ dataLine hvc v = true) (vs : sig.vs = (signalAt hvc v h).vs) :
    LineAt hvc vflag (h + 1) (deSignal vflag (hsSignal c sig).1 (hsSignal c sig).2).1 ∧
      generateHvClk (deSignal vflag (hsSignal c sig).1 (hsSignal c sig).2).2 =
        generateHvClk (signalAt hvc v h) := by
  rw [hsSignal_step at_clock v]
  obtain ⟨next, signals⟩ := deSignal_step valid
    (c := { c with hspw := max (hvc.hspw - (h + 1 : Nat)) 0 }) rfl at_clock.data inside flag
    { sig with hs := (signalAt hvc v h).hs }
  refine ⟨next, ?_⟩
  rw [signals, generateHvClk, vs]
  rfl

/-- The events of the clocks from `h` on, to the end of the line. -/
def lineEvents (hvc : HvConfig) (v h n : Nat) : List Event :=
  (List.range' h n).flatMap fun h => (generateHvClk (signalAt hvc v h)).1

theorem lineLoop_succ (vflag : Int) (n : Nat) (c : LineCounters) (sig : HvSignal) :
    (lineLoop vflag (n + 1) c sig).1 =
      (generateHvClk (deSignal vflag (hsSignal c sig).1 (hsSignal c sig).2).2).1 ++
        (lineLoop vflag n (deSignal vflag (hsSignal c sig).1 (hsSignal c sig).2).1
          (generateHvClk (deSignal vflag (hsSignal c sig).1 (hsSignal c sig).2).2).2).1 := rfl

/-- The induction is on the clocks that are left. -/
theorem lineLoop_events (valid : hvc.Valid) {vflag : Int} {v : Nat}
    (flag : vflag ≠ 0 ↔ dataLine hvc v = true) (n : Nat) :
    ∀ (h : Nat) (c : LineCounters) (sig : HvSignal), (h + n : Nat) = hvc.linehoz →
      LineAt hvc vflag h c → sig.vs = (signalAt hvc v h).vs →
      (lineLoop vflag n c sig).1 = lineEvents hvc v h n := by
  induction n with
  | zero => exact fun _ _ _ _ _ _ => rfl
  | succ n ih =>
    intro h c sig total at_clock vs
    obtain ⟨next, clock⟩ := clock_step valid at_clock (by omega) flag vs
    rw [lineLoop_succ, clock, lineEvents, List.range'_succ, List.flatMap_cons,
      ih (h + 1) _ (generateHvClk (signalAt hvc v h)).2 (by omega) next rfl, lineEvents]

end Line

section Frame

variable {hvc : HvConfig}

/-- The counters at line `v` of a frame. -/
structure FrameAt (hvc : HvConfig) (v : Nat) (c : FrameCounters) : Prop where
  pulse : c.vspw = max (hvc.vspw - v) 0
  data : Phases hvc.vbpd hvc.lineval hvc.vfpd v c.vbpd c.lineval c.vfpd

theorem lineFlag_step (valid : hvc.Valid) {v : Nat} {c : FrameCounters} (vflag : Int)
    (at_line : FrameAt hvc v c) (inside : (v : Int) < hvc.frameline) :
    (lineFlag vflag c).1.vspw = c.vspw ∧
      Phases hvc.vbpd hvc.lineval hvc.vfpd (v + 1) (lineFlag vflag c).1.vbpd
        (lineFlag vflag c).1.lineval (lineFlag vflag c).1.vfpd ∧
      ((lineFlag vflag c).2 ≠ 0 ↔ dataLine hvc v = true) := by
  rw [lineFlag, dataLine_iff]
  rcases at_line.data.turn valid.lineval valid.vfpd (by rw [valid.frame]; exact inside)
    with ⟨here, early, next⟩ | ⟨none, here, middle, next⟩ | ⟨none, none', here, late, next⟩
  · rw [if_pos here]
    exact ⟨rfl, next, iff_of_false (absurd rfl) (by omega)⟩
  · rw [if_neg none, if_pos here]
    exact ⟨rfl, next, iff_of_true (show (1 : Int) ≠ 0 by decide) middle⟩
  · rw [if_neg none, if_neg none', if_pos here]
    exact ⟨rfl, next, iff_of_false (absurd rfl) (by omega)⟩

theorem vsSignal_step {v : Nat} {c : FrameCounters} (pulse : c.vspw = max (hvc.vspw - v) 0)
    (sig : HvSignal) (h : Nat) :
    vsSignal c sig = ({ c with vspw := max (hvc.vspw - (v + 1 : Nat)) 0 },
      { sig with vs := (signalAt hvc v h).vs }) := by
  rw [vsSignal]
  by_cases sync : (v : Int) < hvc.vspw
  · have some : 0 < c.vspw := by omega
    have next : c.vspw - 1 = max (hvc.vspw - (v + 1 : Nat)) 0 := by omega
    rw [if_pos some, next, signalAt, if_pos sync]
  · have none : ¬0 < c.vspw := by omega
    have next : c.vspw = max (hvc.vspw - (v + 1 : Nat)) 0 := by omega
    rw [if_neg none, ← next, signalAt, if_neg sync]

theorem frameLoop_succ (hvc : HvConfig) (n : Nat) (vflag : Int) (c : FrameCounters)
    (sig : HvSignal) : ∃ sig', (frameLoop hvc (n + 1) vflag c sig).1 =
      (lineLoop (lineFlag vflag c).2 hvc.linehoz.toNat ⟨hvc.hspw, hvc.hbpd, hvc.hozval, hvc.hfpd⟩
        (vsSignal (lineFlag vflag c).1 sig).2).1 ++
        (frameLoop hvc n (lineFlag vflag c).2 (vsSignal (lineFlag vflag c).1 sig).1 sig').1 :=
  ⟨_, rfl⟩

theorem lineAt_start (valid : hvc.Valid) (vflag : Int) :
    LineAt hvc vflag 0 ⟨hvc.hspw, hvc.hbpd, hvc.hozval, hvc.hfpd⟩ := by
  refine ⟨?_, fun _ => phases_start valid.hbpd valid.hozval valid.hfpd⟩
  have low := valid.hspw
  show hvc.hspw = max (hvc.hspw - 0) 0
  omega

/-- The events of the lines from `v` on. -/
def frameEvents (hvc : HvConfig) (v n : Nat) : List Event :=
  (List.range' v n).flatMap fun v => lineEvents hvc v 0 hvc.linehoz.toNat

/-- The induction is on the lines that are left; what the signals are before does not matter. -/
theorem frameLoop_events (valid : hvc.Valid) (n : Nat) :
    ∀ (v : Nat) (vflag : Int) (c : FrameCounters) (sig : HvSignal), (v + n : Nat) = hvc.frameline →
      FrameAt hvc v c → (frameLoop hvc n vflag c sig).1 = frameEvents hvc v n := by
  have wide : 0 ≤ hvc.linehoz := by
    have := valid.line
    have := valid.hbpd
    have := valid.hozval
    have := valid.hfpd
    omega
  induction n with
  | zero => exact fun _ _ _ _ _ _ => rfl
  | succ n ih =>
    intro v vflag c sig total at_line
    obtain ⟨kept, next, flag⟩ := lineFlag_step valid vflag at_line (by omega)
    have pulse : (lineFlag vflag c).1.vspw = max (hvc.vspw - v) 0 := by
      rw [kept]
      exact at_line.pulse
    obtain ⟨sig', step⟩ := frameLoop_succ hvc n vflag c sig
    have signals := vsSignal_step pulse sig 0
    have line := lineLoop_events valid flag hvc.linehoz.toNat 0 _
      (vsSignal (lineFlag vflag c).1 sig).2 (by omega) (lineAt_start valid _) (by rw [signals])
    have rest := ih (v + 1) (lineFlag vflag c).2 (vsSignal (lineFlag vflag c).1 sig).1 sig'
      (by omega) (by rw [signals]; exact ⟨rfl, next⟩)
    rw [step, line, rest, frameEvents, frameEvents, List.range'_succ, List.flatMap_cons]

theorem frameEvents_eq (hvc : HvConfig) :
    frameEvents hvc 0 hvc.frameline.toNat =
      (frameClocks hvc).flatMap fun s => (generateHvClk s).1 := by
  simp only [frameEvents, lineEvents, frameClocks, ← List.range_eq_range', List.flatMap_assoc,
    List.flatMap_map]

/-- All frames are the same, whatever the signals are at the start. -/
theorem generateHvSignal_frames (valid : hvc.Valid) (n : Nat) :
    ∀ sig : HvSignal, generateHvSignal hvc n sig =
      List.replicate n ((frameClocks hvc).flatMap fun s => (generateHvClk s).1) := by
  have high : 0 ≤ hvc.frameline := by
    have := valid.frame
    have := valid.vbpd
    have := valid.lineval
    have := valid.vfpd
    omega
  have start : FrameAt hvc 0 ⟨hvc.vspw, hvc.vbpd, hvc.lineval, hvc.vfpd⟩ := by
    refine ⟨?_, phases_start valid.vbpd valid.lineval valid.vfpd⟩
    have low := valid.vspw
    show hvc.vspw = max (hvc.vspw - 0) 0
    omega
  induction n with
  | zero => exact fun _ => rfl
  | succ n ih =>
    intro sig
    have first := frameLoop_events valid hvc.frameline.toNat 0 0 _ sig (by omega) start
    rw [frameEvents_eq] at first
    rw [generateHvSignal, List.replicate_succ, ← first]
    exact congrArg _ ((ih _).trans (by rw [first]))

end Frame

section Counts

theorem rows_getElem? {α β : Type} (f : α → List β) {w j : Nat} (inside : j < w) (rows : List α) :
    ∀ i : Nat, (∀ row ∈ rows, (f row).length = w) →
      (rows.flatMap f)[i * w + j]? = rows[i]?.bind fun row => (f row)[j]? := by
  induction rows with
  | nil => exact fun _ _ => rfl
  | cons row rows ih =>
    intro i wide
    obtain ⟨here, later⟩ := List.forall_mem_cons.mp wide
    rw [List.flatMap_cons]
    cases i with
    | zero =>
      rw [Nat.zero_mul, Nat.zero_add, List.getElem?_append_left (by omega)]
      rfl
    | succ i =>
      have behind : (i + 1) * w + j = w + (i * w + j) := by
        rw [Nat.succ_mul]
        omega
      rw [behind, List.getElem?_append_right (by omega), here, Nat.add_sub_cancel_left, ih i later,
        List.getElem?_cons_succ]

/-- How many of the first `n` numbers are among the `count` ones from `start` on. -/
theorem countP_range (start count n : Nat) :
    (List.range n).countP (fun k => decide (start ≤ k ∧ k < start + count)) =
      min count (n - start) := by
  induction n with
  | zero => simp
  | succ n ih =>
    rw [List.range_succ, List.countP_append, ih, List.countP_singleton]
    split
    · rename_i inside
      have here : start ≤ n ∧ n < start + count := of_decide_eq_true inside
      omega
    · rename_i outside
      have elsewhere : ¬(start ≤ n ∧ n < start + count) :=
        fun inside => outside (decide_eq_true inside)
      omega

theorem sum_rows {rows : List Nat} (p : Nat → Bool) (w : Nat) :
    (rows.map fun row => if p row then w else 0).sum = rows.countP p * w := by
  induction rows with
  | nil => simp
  | cons row rows ih =>
    rw [List.map_cons, List.sum_cons, ih, List.countP_cons, Nat.add_mul, Nat.add_comm]
    cases p row with
    | false => simp
    | true => simp

theorem frameClocks_length (hvc : HvConfig) :
    (frameClocks hvc).length = hvc.frameline.toNat * hvc.linehoz.toNat := by
  simp [frameClocks, List.length_flatMap, List.map_const']

theorem frameClocks_getElem? (hvc : HvConfig) {v h : Nat} (row : v < hvc.frameline.toNat)
    (clock : h < hvc.linehoz.toNat) :
    (frameClocks hvc)[v * hvc.linehoz.toNat + h]? = some (signalAt hvc v h) := by
  rw [frameClocks, rows_getElem? _ clock _ v (by simp), List.getElem?_range row, Option.bind_some,
    List.getElem?_map, List.getElem?_range clock]
  rfl

/-- A window of the numbers below `n`, with integers as its ends. -/
theorem countP_window {start count n : Int} (low : 0 ≤ start) (low' : 0 ≤ count)
    (inside : start + count ≤ n) (p : Nat → Bool)
    (window : ∀ k, p k = true ↔ start ≤ k ∧ (k : Int) < start + count) :
    (List.range n.toNat).countP p = count.toNat := by
  have same : p = fun k => decide (start.toNat ≤ k ∧ k < start.toNat + count.toNat) := by
    funext k
    rw [Bool.eq_iff_iff, window, decide_eq_true_iff]
    omega
  rw [same, countP_range]
  omega

theorem signalAt_de (hvc : HvConfig) (v h : Nat) :
    ((signalAt hvc v h).de == hvsHigh) = (dataLine hvc v && dataClock hvc h) := by
  rw [signalAt]
  cases dataLine hvc v && dataClock hvc h with
  | false => rfl
  | true => rfl

theorem frameClocks_data {hvc : HvConfig} (valid : hvc.Valid) :
    (frameClocks hvc).countP (fun s => s.de == hvsHigh) = hvc.lineval.toNat * hvc.hozval.toNat := by
  have row : ∀ v, ((List.range hvc.linehoz.toNat).map fun h => signalAt hvc v h).countP
      (fun s => s.de == hvsHigh) = if dataLine hvc v then hvc.hozval.toNat else 0 := by
    intro v
    have porch := valid.hfpd
    have clocks := countP_window valid.hbpd valid.hozval
      (show hvc.hbpd + hvc.hozval ≤ hvc.linehoz by rw [← valid.line]; omega) (dataClock hvc)
      dataClock_iff
    rw [List.countP_map, ← clocks]
    simp only [Function.comp_def, signalAt_de]
    cases dataLine hvc v with
    | false => simp
    | true => simp
  have porch := valid.vfpd
  have lines := countP_window valid.vbpd valid.lineval
    (show hvc.vbpd + hvc.lineval ≤ hvc.frameline by rw [← valid.frame]; omega) (dataLine hvc)
    dataLine_iff
  rw [frameClocks, List.countP_flatMap, ← lines, ← sum_rows]
  simp only [Function.comp_def, row]

theorem low_iff {p : Prop} [Decidable p] : (if p then hvsLow else hvsHigh) = hvsLow ↔ p := by
  split
  · simp [*]
  · simp [*, hvsLow, hvsHigh]

end Counts

/-- Every frame is the same list of clocks, with the signals that the counts of the configuration
say, and as many data clocks as the picture has points. -/
theorem frames_exact (hvc : HvConfig) (valid : hvc.Valid) (n : Nat) (sig : HvSignal) :
    generateHvSignal hvc n sig =
        List.replicate n ((frameClocks hvc).flatMap fun s => (generateHvClk s).1) ∧
      (frameClocks hvc).length = hvc.frameline.toNat * hvc.linehoz.toNat ∧
      (∀ v h : Nat, (v : Int) < hvc.frameline → (h : Int) < hvc.linehoz →
        ∃ s, (frameClocks hvc)[v * hvc.linehoz.toNat + h]? = some s ∧
          (s.vs = hvsLow ↔ (v : Int) < hvc.vspw) ∧ (s.hs = hvsLow ↔ (h : Int) < hvc.hspw) ∧
          (s.de = hvsHigh ↔ (hvc.vbpd ≤ v ∧ (v : Int) < hvc.vbpd + hvc.lineval) ∧
            hvc.hbpd ≤ h ∧ (h : Int) < hvc.hbpd + hvc.hozval)) ∧
      (frameClocks hvc).countP (fun s => s.de == hvsHigh) =
        hvc.lineval.toNat * hvc.hozval.toNat := by
  refine ⟨generateHvSignal_frames valid n sig, frameClocks_length hvc, ?_, frameClocks_data valid⟩
  intro v h row clock
  refine ⟨_, frameClocks_getElem? hvc (by omega) (by omega), ?_, ?_, ?_⟩
  · exact low_iff
  · exact low_iff
  · rw [← dataLine_iff, ← dataClock_iff, ← beq_iff_eq, signalAt_de, Bool.and_eq_true]

/-- The configuration of `shell_lcd_test`. -/
def at070tn92Lcd : HvConfig := ⟨5, 12, 2, 3, 4, 4, 9, 3, 2, 3⟩

theorem at070tn92Lcd_valid : at070tn92Lcd.Valid := by
  constructor <;> decide

theorem frames_exact_at070tn92Lcd :
    at070tn92Lcd.Valid ∧
      generateHvSignal at070tn92Lcd 2 ⟨0, 0, 0, 0⟩ =
        List.replicate 2 ((frameClocks at070tn92Lcd).flatMap fun s => (generateHvClk s).1) :=
  ⟨at070tn92Lcd_valid, (frames_exact at070tn92Lcd at070tn92Lcd_valid 2 ⟨0, 0, 0, 0⟩).1⟩

end Ct.S5pv210.Display
