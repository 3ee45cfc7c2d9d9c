import Mathlib.Data.List.Perm.Basic
import Mathlib.Logic.Function.Basic

set_option autoImplicit false

namespace Ct.Linux

def LOW_MEM : Nat := 0x100000

def PAGING_MEMORY : Nat := 15 * 1024 * 1024

def PAGING_PAGES : Nat := PAGING_MEMORY >>> 12

def USED : Nat := 100

def PAGE_SIZE : Nat := 4096

/-- The address of a page of `mem_map`. -/
def pageAddr (nr : Nat) : Nat := LOW_MEM + PAGE_SIZE * nr

/-- Why the kernel stops. -/
inductive Stop
  /-- the text of `panic` -/
  | panic (text : String)
  /-- a loop that does not end -/
  | endless
  deriving DecidableEq

/-- The words lie at the addresses that 4 divides. -/
structure Memory where
  memMap : List Nat
  highMemory : Nat
  word : Nat → Nat

/-- `addr` is in the page. -/
def InPage (page addr : Nat) : Prop := page ≤ addr ∧ addr < page + PAGE_SIZE

instance (page addr : Nat) : Decidable (InPage page addr) := by
  unfold InPage
  infer_instance

/-- `repne scasb`, from the end of `mem_map` on. -/
def lastFree (memMap : List Nat) : Option Nat :=
  (List.range memMap.length).reverse.find? fun nr => memMap[nr]? = some 0

/-- The page is marked, and `rep stosl` fills it with zeros. -/
def Memory.mark (m : Memory) (nr : Nat) : Memory :=
  { m with
    memMap := m.memMap.set nr 1
    word := fun addr => if InPage (pageAddr nr) addr then 0 else m.word addr }

def getFreePage (m : Memory) : Nat × Memory :=
  match lastFree m.memMap with
  | none => (0, m)
  | some nr => (pageAddr nr, m.mark nr)

def freePage (addr : Nat) (m : Memory) : Except Stop Memory :=
  if addr < LOW_MEM then .ok m
  else if m.highMemory ≤ addr then .error (.panic "trying to free nonexistent page")
  else
    let nr := (addr - LOW_MEM) >>> 12
    if m.memMap.getD nr 0 ≠ 0 then
      .ok { m with memMap := m.memMap.set nr (m.memMap.getD nr 0 - 1) }
    else .error (.panic "trying to free free page")

/-- `while (end_mem-->0) mem_map[i++]=0;` -/
def markFree : Nat → Nat → List Nat → List Nat
  | 0, _, memMap => memMap
  | left + 1, nr, memMap => markFree left (nr + 1) (memMap.set nr 0)

def memInit (startMem endMem : Nat) (word : Nat → Nat) : Memory where
  memMap := markFree ((endMem - startMem) >>> 12) ((startMem - LOW_MEM) >>> 12)
    (List.replicate PAGING_PAGES USED)
  highMemory := endMem
  word := word

/-- `memory_end` as `main` computes it. -/
def memoryEnd (extMemK : Nat) : Nat :=
  min (((1 <<< 20) + (extMemK <<< 10)) &&& 0xfffff000) (16 * 1024 * 1024)

def bufferMemoryEnd (memoryEnd : Nat) : Nat :=
  if 12 * 1024 * 1024 < memoryEnd then 4 * 1024 * 1024
  else if 6 * 1024 * 1024 < memoryEnd then 2 * 1024 * 1024
  else 1 * 1024 * 1024

/-- The memory behind the call of `mem_init` in `main`. -/
def mainMemory (extMemK : Nat) (word : Nat → Nat) : Memory :=
  memInit (bufferMemoryEnd (memoryEnd extMemK)) (memoryEnd extMemK) word

section Pages

variable {m m' boot : Memory} {pages : List Nat} {nr addr : Nat}

theorem pageAddr_inj {n : Nat} (same : pageAddr nr = pageAddr n) : nr = n :=
  Nat.eq_of_mul_eq_mul_left (Nat.succ_pos 4095) (Nat.add_left_cancel same)

theorem low_le_pageAddr (nr : Nat) : LOW_MEM ≤ pageAddr nr := Nat.le_add_right ..

/-- Two pages have no address in common. -/
theorem pageAddr_apart {n : Nat} (here : InPage (pageAddr nr) addr)
    (there : InPage (pageAddr n) addr) :
    nr = n := by
  unfold InPage pageAddr PAGE_SIZE at here there
  omega

theorem lastFree_none (none : lastFree m.memMap = none) : m.memMap[nr]? ≠ some 0 := by
  intro free
  have low : nr < m.memMap.length := (List.getElem?_eq_some_iff.mp free).1
  have no := List.find?_eq_none.mp none nr (by simpa using low)
  exact no (by simpa using free)

theorem lastFree_some (found : lastFree m.memMap = some nr) : m.memMap[nr]? = some 0 := by
  simpa using List.find?_some found

/-- Every free page lies below the end of the memory. -/
structure Booted (boot : Memory) : Prop where
  below : ∀ nr, boot.memMap[nr]? = some 0 → pageAddr nr < boot.highMemory
  high : boot.highMemory ≤ 16 * 1024 * 1024

/-- These pages were free when the kernel was booted, and have been handed out since. -/
structure Taken (boot : Memory) (pages : List Nat) (m : Memory) : Prop where
  single : pages.Nodup
  free : ∀ p ∈ pages, ∃ nr, p = pageAddr nr ∧ boot.memMap[nr]? = some 0
  memMap : ∀ nr, m.memMap[nr]? = if pageAddr nr ∈ pages then some 1 else boot.memMap[nr]?
  high : m.highMemory = boot.highMemory

theorem taken_boot (boot : Memory) : Taken boot [] boot where
  single := List.nodup_nil
  free := fun p member => absurd member List.not_mem_nil
  memMap := fun nr => by rw [if_neg List.not_mem_nil]
  high := rfl

theorem Taken.perm {other : List Nat} (taken : Taken boot pages m) (perm : pages.Perm other) :
    Taken boot other m where
  single := perm.nodup_iff.mp taken.single
  free := fun p member => taken.free p (perm.mem_iff.mpr member)
  memMap := fun nr => by rw [taken.memMap nr]; simp only [perm.mem_iff]
  high := taken.high

theorem Taken.words (taken : Taken boot pages m) (word : Nat → Nat) :
    Taken boot pages { m with word := word } :=
  ⟨taken.single, taken.free, taken.memMap, taken.high⟩

/-- Pages that were handed out have no address in common. -/
theorem Taken.apart (taken : Taken boot pages m) {p q : Nat} (here : p ∈ pages) (there : q ∈ pages)
    (inside : InPage p addr) (other : InPage q addr) : p = q := by
  obtain ⟨i, rfl, _⟩ := taken.free p here
  obtain ⟨j, rfl, _⟩ := taken.free q there
  rw [pageAddr_apart inside other]

theorem Taken.outside (taken : Taken boot pages m) {p q : Nat} (here : p ∈ pages)
    (there : q ∈ pages) (ne : p ≠ q) (inside : InPage q addr) : ¬ InPage p addr := fun both =>
  ne (taken.apart here there both inside)

theorem Taken.low (taken : Taken boot pages m) {p : Nat} (member : p ∈ pages) : LOW_MEM ≤ p := by
  obtain ⟨nr, rfl, _⟩ := taken.free p member
  exact low_le_pageAddr nr

theorem Taken.aligned (taken : Taken boot pages m) {p : Nat} (member : p ∈ pages) :
    PAGE_SIZE ∣ p := by
  obtain ⟨nr, rfl, _⟩ := taken.free p member
  exact Nat.dvd_add ⟨256, rfl⟩ (Nat.dvd_mul_right ..)

theorem Taken.length_le (taken : Taken boot pages m) : pages.length ≤ m.memMap.length := by
  have inside : pages ⊆ (List.range m.memMap.length).map pageAddr := by
    intro p member
    obtain ⟨nr, rfl, _⟩ := taken.free p member
    have entry := taken.memMap nr
    rw [if_pos member] at entry
    exact List.mem_map_of_mem (List.mem_range.mpr (List.getElem?_eq_some_iff.mp entry).1)
  have short := (List.subperm_of_subset taken.single inside).length_le
  rwa [List.length_map, List.length_range] at short

/-- What `get_free_page` does. -/
inductive Gets (boot : Memory) (pages : List Nat) (m : Memory) : Prop
  /-- No page is left. -/
  | none (empty : getFreePage m = (0, m)) (count : m.memMap.count 0 = 0)
  /-- The page is new, and nothing outside it changes. -/
  | page (p : Nat) (next : Memory) (got : getFreePage m = (p, next))
      (taken : Taken boot (p :: pages) next)
      (outside : ∀ addr, ¬ InPage p addr → next.word addr = m.word addr)
      (count : next.memMap.count 0 + 1 = m.memMap.count 0)

theorem Taken.get (taken : Taken boot pages m) : Gets boot pages m := by
  cases found : lastFree m.memMap with
  | none =>
    refine .none (by rw [getFreePage, found]) (List.count_eq_zero.mpr fun member => ?_)
    obtain ⟨nr, low, free⟩ := List.mem_iff_getElem.mp member
    exact lastFree_none found (List.getElem?_eq_some_iff.mpr ⟨low, free⟩)
  | some nr =>
    have free := lastFree_some found
    obtain ⟨low, zero⟩ := List.getElem?_eq_some_iff.mp free
    have entry := taken.memMap nr
    rw [free] at entry
    have fresh : pageAddr nr ∉ pages := by
      intro member
      rw [if_pos member] at entry
      cases entry
    rw [if_neg fresh] at entry
    refine .page (pageAddr nr) (m.mark nr) (by rw [getFreePage, found])
      ⟨List.nodup_cons.mpr ⟨fresh, taken.single⟩, ?_, ?_, taken.high⟩ ?_ ?_
    · exact List.forall_mem_cons.mpr ⟨⟨nr, rfl, entry.symm⟩, taken.free⟩
    · intro n
      by_cases same : nr = n
      · subst same
        rw [if_pos (List.mem_cons_self ..), Memory.mark, List.getElem?_set_self low]
      · have other : pageAddr n ≠ pageAddr nr := fun equal => same (pageAddr_inj equal).symm
        rw [Memory.mark, List.getElem?_set_ne same, taken.memMap n]
        simp only [List.mem_cons, other, false_or]
    · exact fun addr outside => if_neg outside
    · rw [Memory.mark, List.count_set low, zero]
      have positive : 0 < m.memMap.count 0 := List.count_pos_iff.mpr (zero ▸ List.getElem_mem low)
      simp only [beq_self_eq_true, ↓reduceIte, Nat.reduceBEq, Bool.false_eq_true, Nat.add_zero]
      omega

theorem Taken.below (booted : Booted boot) (taken : Taken boot pages m) {p : Nat}
    (member : p ∈ pages) : p < 16 * 1024 * 1024 := by
  obtain ⟨nr, rfl, free⟩ := taken.free p member
  exact Nat.lt_of_lt_of_le (booted.below nr free) booted.high

/-- A page that was handed out is taken back. -/
theorem Taken.give (booted : Booted boot) (taken : Taken boot pages m) {p : Nat}
    (member : p ∈ pages) :
    ∃ next, freePage p m = .ok next ∧ Taken boot (pages.erase p) next ∧ next.word = m.word := by
  obtain ⟨nr, rfl, free⟩ := taken.free p member
  have high : ¬ m.highMemory ≤ pageAddr nr := by
    rw [taken.high]
    exact Nat.not_le.mpr (booted.below nr free)
  have entry := taken.memMap nr
  rw [if_pos member] at entry
  obtain ⟨low, one⟩ := List.getElem?_eq_some_iff.mp entry
  have index : (pageAddr nr - LOW_MEM) >>> 12 = nr := by
    rw [pageAddr, Nat.add_sub_cancel_left, Nat.shiftRight_eq_div_pow]
    exact Nat.mul_div_cancel_left nr (Nat.succ_pos 4095)
  have value : m.memMap.getD nr 0 = 1 := by rw [List.getD_eq_getElem?_getD, entry, Option.getD_some]
  refine ⟨{ m with memMap := m.memMap.set nr 0 }, ?_,
    ⟨taken.single.erase _, ?_, ?_, taken.high⟩, rfl⟩
  · rw [freePage, if_neg (Nat.not_lt.mpr (low_le_pageAddr nr)), if_neg high]
    simp only [index, value, ne_eq, Nat.one_ne_zero, not_false_eq_true, ↓reduceIte, Nat.sub_self]
  · exact fun p member => taken.free p (List.mem_of_mem_erase member)
  · intro n
    by_cases same : nr = n
    · subst same
      rw [if_neg taken.single.not_mem_erase, List.getElem?_set_self low, free]
    · have other : pageAddr n ≠ pageAddr nr := fun equal => same (pageAddr_inj equal).symm
      rw [List.getElem?_set_ne same, taken.memMap n]
      simp only [List.mem_erase_of_ne other]

end Pages

section Boot

variable {left start nr : Nat} {memMap : List Nat}

theorem markFree_zero (free : (markFree left start memMap)[nr]? = some 0) :
    memMap[nr]? = some 0 ∨ start ≤ nr ∧ nr < start + left := by
  induction left generalizing start memMap with
  | zero => exact Or.inl free
  | succ left ih =>
    rcases ih free with zero | inside
    · by_cases same : start = nr
      · exact Or.inr (by omega)
      · rw [List.getElem?_set_ne same] at zero
        exact Or.inl zero
    · exact Or.inr (by omega)

theorem memInit_booted {startMem endMem : Nat} (word : Nat → Nat) (low : LOW_MEM ≤ startMem)
    (high : endMem ≤ 16 * 1024 * 1024) : Booted (memInit startMem endMem word) := by
  refine ⟨fun nr free => ?_, high⟩
  have used : (List.replicate PAGING_PAGES USED)[nr]? ≠ some 0 := fun zero =>
    absurd (List.eq_of_mem_replicate (List.mem_of_getElem? zero)) (by decide)
  have inside := (markFree_zero free).resolve_left used
  simp only [memInit, pageAddr, PAGE_SIZE, Nat.shiftRight_eq_div_pow, LOW_MEM] at inside low ⊢
  omega

/-- `main` leaves only pages below the end of the memory free. -/
theorem mainMemory_booted (extMemK : Nat) (word : Nat → Nat) :
    Booted (mainMemory extMemK word) := by
  refine memInit_booted word ?_ (Nat.min_le_right ..)
  unfold bufferMemoryEnd LOW_MEM
  split_ifs <;> decide

end Boot

end Ct.Linux
