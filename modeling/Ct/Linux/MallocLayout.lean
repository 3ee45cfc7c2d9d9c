import Ct.Linux.Malloc
import Mathlib.Data.List.Nodup

set_option autoImplicit false

namespace Ct.Linux.Malloc

open Ct.Lib (Chained)
open BucketDesc

/-- A bucket, with the objects on its page that are in use and the free ones in the order of their
list. -/
structure Bucket where
  desc : Nat
  page : Nat
  dir : Nat
  used : List Nat
  free : List Nat

/-- Where the objects of a page lie. -/
def slots (page dir : Nat) : List Nat := List.range' page (PAGE_SIZE / bdirSize dir) (bdirSize dir)

/-- The descriptors on a page. -/
def descsOf (page : Nat) : List Nat := List.range' page (PAGE_SIZE / descSize) descSize

/-- The words of the memory say this of the bucket. -/
structure Bucket.Holds (word : Nat → Nat) (b : Bucket) : Prop where
  page : BucketDesc.page word b.desc = b.page
  list : Chained word (freeptr word b.desc) b.free
  count : refcnt word b.desc = b.used.length
  slots : (b.used ++ b.free).Perm (slots b.page b.dir)
  dir : b.dir < sizes.length

/-- The buckets, the descriptors that are free, the pages with descriptors, and the pages of other
parts of the kernel. -/
structure Layout where
  buckets : List Bucket
  spare : List Nat
  descPages : List Nat
  others : List Nat

namespace Layout

variable (l : Layout)

/-- The descriptors in the chain of a directory entry. -/
def chain (dir : Nat) : List Nat :=
  (l.buckets.filter fun b => decide (b.dir = dir)).map Bucket.desc

def descs : List Nat := l.buckets.map Bucket.desc ++ l.spare

def pages : List Nat := l.buckets.map Bucket.page ++ (l.descPages ++ l.others)

end Layout

/-- The kernel's lists are those of the layout. -/
structure Sound (boot : Memory) (l : Layout) (k : Kernel) : Prop where
  buckets : ∀ b ∈ l.buckets, b.Holds k.word
  chains : ∀ dir, Chained (next k.word) (k.chain dir) (l.chain dir)
  spare : Chained (next k.word) k.freeBucketDesc l.spare
  single : l.descs.Nodup
  inPages : ∀ d ∈ l.descs, ∃ p ∈ l.descPages, d ∈ descsOf p
  count : l.descs.length = PAGE_SIZE / descSize * l.descPages.length
  taken : Taken boot l.pages k.mem

section Members

variable {word : Nat → Nat} {d : Nat}

/-- The words of two descriptors are different. -/
theorem desc_word_inj {d' o o' : Nat} (aligned : descSize ∣ d) (aligned' : descSize ∣ d')
    (low : o < descSize) (low' : o' < descSize) (same : d + o = d' + o') : d = d' ∧ o = o' := by
  unfold descSize at aligned aligned' low low'
  omega

theorem refcnt_lt (word : Nat → Nat) (d : Nat) : refcnt word d < 65536 :=
  Nat.mod_lt _ (by decide)

theorem setRefcnt_apply (word : Nat → Nat) (d value addr : Nat) :
    setRefcnt word d value addr = if addr = d + 12 then
      word (d + 12) / 65536 * 65536 + value % 65536 else word addr := by
  rw [setRefcnt, Function.update_apply]

@[simp] theorem refcnt_setRefcnt (word : Nat → Nat) (d value : Nat) :
    refcnt (setRefcnt word d value) d = value % 65536 := by
  rw [refcnt, setRefcnt_apply, if_pos rfl]
  omega

theorem next_setNext (word : Nat → Nat) (d value : Nat) :
    next (setNext word d value) = Function.update (next word) d value := by
  funext q
  simp only [next, setNext, Function.update_apply, Nat.add_right_cancel_iff]

@[simp] theorem page_setFreeptr (word : Nat → Nat) (d value : Nat) :
    page (setFreeptr word d value) d = page word d := Function.update_of_ne (by omega) ..

@[simp] theorem page_setRefcnt (word : Nat → Nat) (d value : Nat) :
    page (setRefcnt word d value) d = page word d := Function.update_of_ne (by omega) ..

@[simp] theorem freeptr_setFreeptr (word : Nat → Nat) (d value : Nat) :
    freeptr (setFreeptr word d value) d = value := Function.update_self ..

@[simp] theorem freeptr_setRefcnt (word : Nat → Nat) (d value : Nat) :
    freeptr (setRefcnt word d value) d = freeptr word d := Function.update_of_ne (by omega) ..

@[simp] theorem refcnt_setFreeptr (word : Nat → Nat) (d value : Nat) :
    refcnt (setFreeptr word d value) d = refcnt word d := by
  rw [refcnt, setFreeptr, Function.update_of_ne (by omega), refcnt]

@[simp] theorem refcnt_setBucketSize (word : Nat → Nat) (d value : Nat) :
    refcnt (setBucketSize word d value) d = refcnt word d := by
  rw [refcnt, setBucketSize, Function.update_self, refcnt]
  omega

end Members

section Sizes

variable {dir p s : Nat}

theorem bdirSize_facts : ∀ dir < sizes.length,
    16 ∣ bdirSize dir ∧ 0 < bdirSize dir ∧
      bdirSize dir * (PAGE_SIZE / bdirSize dir) = PAGE_SIZE := by
  decide

theorem slots_single (p : Nat) (valid : dir < sizes.length) : (slots p dir).Nodup :=
  List.nodup_range' _ (bdirSize_facts dir valid).2.1

theorem length_slots (p dir : Nat) : (slots p dir).length = PAGE_SIZE / bdirSize dir :=
  List.length_range'

/-- An object lies on its page as a whole. -/
theorem slot_inside (valid : dir < sizes.length) (member : s ∈ slots p dir) :
    p ≤ s ∧ s + bdirSize dir ≤ p + PAGE_SIZE ∧ 16 ∣ s - p := by
  obtain ⟨i, low, rfl⟩ := List.mem_range'.mp member
  obtain ⟨aligned, _, whole⟩ := bdirSize_facts dir valid
  have inside : bdirSize dir * (i + 1) ≤ PAGE_SIZE :=
    whole ▸ Nat.mul_le_mul_left _ low
  rw [Nat.mul_succ] at inside
  refine ⟨Nat.le_add_right .., by omega, ?_⟩
  rw [Nat.add_sub_cancel_left]
  exact Nat.dvd_mul_right_of_dvd aligned i

/-- Two objects of a page have no address in common. -/
theorem slots_apart {t addr : Nat} (here : s ∈ slots p dir)
    (there : t ∈ slots p dir) (inside : s ≤ addr ∧ addr < s + bdirSize dir)
    (other : t ≤ addr ∧ addr < t + bdirSize dir) : s = t := by
  obtain ⟨i, -, rfl⟩ := List.mem_range'.mp here
  obtain ⟨j, -, rfl⟩ := List.mem_range'.mp there
  rcases Nat.lt_trichotomy i j with less | rfl | more
  · have := Nat.mul_le_mul_left (bdirSize dir) (Nat.succ_le_of_lt less)
    rw [Nat.mul_succ] at this
    omega
  · rfl
  · have := Nat.mul_le_mul_left (bdirSize dir) (Nat.succ_le_of_lt more)
    rw [Nat.mul_succ] at this
    omega

theorem desc_inside {d : Nat} (member : d ∈ descsOf p) : p ≤ d ∧ d + descSize ≤ p + PAGE_SIZE ∧
    descSize ∣ d - p := by
  obtain ⟨i, low, rfl⟩ := List.mem_range'.mp member
  unfold descSize PAGE_SIZE at *
  omega

end Sizes

section Frames

variable {boot : Memory} {l : Layout} {k : Kernel} {word word' : Nat → Nat} {b : Bucket}

theorem Bucket.Holds.congr (holds : b.Holds word)
    (desc : ∀ o < descSize, o ≠ 4 → word' (b.desc + o) = word (b.desc + o))
    (free : ∀ s ∈ b.free, word' s = word s) : b.Holds word' where
  page := (desc 0 (by decide) (by decide)).trans holds.page
  list := by
    rw [freeptr, desc 8 (by decide) (by decide)]
    exact holds.list.congr free
  count := by
    rw [refcnt, desc 12 (by decide) (by decide)]
    exact holds.count
  slots := holds.slots
  dir := holds.dir

theorem Bucket.Holds.mem_slots (holds : b.Holds word) {s : Nat} (member : s ∈ b.used ++ b.free) :
    s ∈ Malloc.slots b.page b.dir :=
  holds.slots.mem_iff.mp member

theorem Bucket.Holds.single (holds : b.Holds word) : (b.used ++ b.free).Nodup :=
  holds.slots.nodup_iff.mpr (slots_single b.page holds.dir)

theorem Bucket.Holds.length (holds : b.Holds word) :
    b.used.length + b.free.length = PAGE_SIZE / bdirSize b.dir := by
  rw [← List.length_append, holds.slots.length_eq, length_slots]

theorem Bucket.Holds.inPage (holds : b.Holds word) {s addr : Nat} (member : s ∈ b.used ++ b.free)
    (low : s ≤ addr) (high : addr < s + bdirSize b.dir) : InPage b.page addr := by
  have inside := slot_inside holds.dir (holds.mem_slots member)
  exact ⟨by omega, by omega⟩

theorem Bucket.Holds.slot_inPage (holds : b.Holds word) {s : Nat} (member : s ∈ b.used ++ b.free) :
    InPage b.page s :=
  holds.inPage member (Nat.le_refl s) (Nat.lt_add_of_pos_right (bdirSize_facts b.dir holds.dir).2.1)

theorem mem_of_split {front back : List Bucket} (split : l.buckets = front ++ b :: back) :
    b ∈ l.buckets := by
  rw [split]
  exact List.mem_append_right _ (List.mem_cons_self ..)

theorem Layout.page_mem (member : b ∈ l.buckets) : b.page ∈ l.pages :=
  List.mem_append_left _ (List.mem_map_of_mem member)

theorem Layout.descPage_mem {p : Nat} (member : p ∈ l.descPages) : p ∈ l.pages :=
  List.mem_append_right _ (List.mem_append_left _ member)

theorem Layout.other_mem {p : Nat} (member : p ∈ l.others) : p ∈ l.pages :=
  List.mem_append_right _ (List.mem_append_right _ member)

theorem Layout.own_mem {p : Nat} (member : p ∈ l.buckets.map Bucket.page ++ l.descPages) :
    p ∈ l.pages := by
  rcases List.mem_append.mp member with bucket | desc
  · exact List.mem_append_left _ bucket
  · exact l.descPage_mem desc

theorem Layout.desc_mem (member : b ∈ l.buckets) : b.desc ∈ l.descs :=
  List.mem_append_left _ (List.mem_map_of_mem member)

theorem Layout.chain_subset (l : Layout) (dir : Nat) : ∀ d ∈ l.chain dir, d ∈ l.descs := by
  intro d member
  obtain ⟨b, inChain, rfl⟩ := List.mem_map.mp member
  exact l.desc_mem (List.mem_of_mem_filter inChain)

/-- A descriptor lies on one of the pages for them. -/
theorem Sound.desc (sound : Sound boot l k) {d : Nat} (member : d ∈ l.descs) :
    descSize ∣ d ∧ d ≠ 0 ∧ ∃ p ∈ l.descPages, ∀ o < descSize, InPage p (d + o) := by
  obtain ⟨p, page, inside⟩ := sound.inPages d member
  have facts := desc_inside inside
  have low := sound.taken.low (l.descPage_mem page)
  have aligned := sound.taken.aligned (l.descPage_mem page)
  unfold descSize PAGE_SIZE LOW_MEM at *
  refine ⟨by omega, by omega, p, page, fun o less => ⟨by omega, ?_⟩⟩
  rw [PAGE_SIZE]
  omega

/-- The pages of buckets hold no descriptor. -/
theorem Sound.page_not_desc (sound : Sound boot l k) (member : b ∈ l.buckets) :
    b.page ∉ l.descPages := by
  intro both
  have single := sound.taken.single
  rw [Layout.pages, List.nodup_append] at single
  exact single.2.2 b.page (List.mem_map_of_mem member) b.page (List.mem_append_left _ both) rfl

theorem Sound.other_not_desc (sound : Sound boot l k) {p : Nat} (member : p ∈ l.others) :
    p ∉ l.descPages := by
  intro both
  have single := (List.nodup_append.mp sound.taken.single).2.1
  exact (List.nodup_append.mp single).2.2 p both p member rfl

/-- A page that holds no descriptors has no address in common with one. -/
theorem Sound.desc_outside (sound : Sound boot l k) {pages : List Nat} {m : Memory} {p d o : Nat}
    (taken : Taken boot pages m) (here : p ∈ pages) (all : ∀ q ∈ l.descPages, q ∈ pages)
    (other : p ∉ l.descPages) (member : d ∈ l.descs) (low : o < descSize) : ¬ InPage p (d + o) := by
  intro inside
  obtain ⟨-, -, q, page, own⟩ := sound.desc member
  exact other (taken.apart here (all q page) inside (own o low) ▸ page)

/-- Descriptors keep their words when only one of them and a page without descriptors change. -/
theorem Sound.desc_kept (sound : Sound boot l k) {pages : List Nat} {m : Memory} {p d₀ d : Nat}
    (taken : Taken boot pages m) (here : p ∈ pages) (all : ∀ q ∈ l.descPages, q ∈ pages)
    (other : p ∉ l.descPages) (start : d₀ ∈ l.descs) (member : d ∈ l.descs) (ne : d ≠ d₀)
    (changed : ∀ addr, (∀ o < descSize, addr ≠ d₀ + o) → ¬ InPage p addr →
      word' addr = k.word addr) :
    ∀ o < descSize, word' (d + o) = k.word (d + o) := by
  intro o low
  refine changed _ (fun o' low' same => ?_)
    (sound.desc_outside taken here all other member low)
  exact ne (desc_word_inj (sound.desc member).1 (sound.desc start).1 low low' same).1

/-- So do buckets on other pages. -/
theorem Sound.bucket_kept (sound : Sound boot l k) {pages : List Nat} {m : Memory} {p d₀ : Nat}
    (taken : Taken boot pages m) (here : p ∈ pages) (all : ∀ q ∈ l.pages, q ∈ pages)
    (other : p ∉ l.descPages) (start : d₀ ∈ l.descs) (member : b ∈ l.buckets) (ne : b.desc ≠ d₀)
    (page : b.page ≠ p)
    (changed : ∀ addr, (∀ o < descSize, addr ≠ d₀ + o) → ¬ InPage p addr →
      word' addr = k.word addr) : b.Holds word' := by
  have holds := sound.buckets b member
  refine holds.congr (fun o low _ => sound.desc_kept taken here
    (fun q inside => all q (l.descPage_mem inside)) other start (l.desc_mem member) ne changed
    o low)
    fun s free => ?_
  have inside := holds.slot_inPage (List.mem_append_right b.used free)
  refine changed s (fun o low same => ?_) fun own =>
    page (taken.apart (all _ (l.page_mem member)) here inside own)
  exact sound.desc_outside sound.taken (l.page_mem member) (fun q => l.descPage_mem)
    (sound.page_not_desc member) start low (same ▸ inside)

end Frames

section Steps

variable {boot : Memory} {l : Layout} {k : Kernel} {word' : Nat → Nat} {b : Bucket}
  {front back : List Bucket}

/-- The links of the descriptors are unchanged where only other members of one descriptor and a
page without descriptors change. -/
theorem Sound.next_kept (sound : Sound boot l k) (member : b ∈ l.buckets)
    (changed : ∀ addr, addr ≠ b.desc + 8 → addr ≠ b.desc + 12 → ¬ InPage b.page addr →
      word' addr = k.word addr) : ∀ d ∈ l.descs, next word' d = next k.word d := by
  intro d start
  have aligned := (sound.desc start).1
  have own := (sound.desc (l.desc_mem member)).1
  refine changed _ (fun same => ?_) (fun same => ?_)
    (sound.desc_outside sound.taken (l.page_mem member) (fun q => l.descPage_mem)
      (sound.page_not_desc member) start (by decide))
  · exact absurd (desc_word_inj aligned own (by decide) (by decide) same).2 (by decide)
  · exact absurd (desc_word_inj aligned own (by decide) (by decide) same).2 (by decide)

/-- One bucket changes: objects are taken from it or given back to it. -/
theorem Sound.update (sound : Sound boot l k) (split : l.buckets = front ++ b :: back) {b' : Bucket}
    (desc : b'.desc = b.desc) (page : b'.page = b.page) (dir : b'.dir = b.dir)
    (changed : ∀ addr, addr ≠ b.desc + 8 → addr ≠ b.desc + 12 → ¬ InPage b.page addr →
      word' addr = k.word addr)
    (holds : b'.Holds word') :
    Sound boot { l with buckets := front ++ b' :: back } (k.setWord word') := by
  have member := mem_of_split split
  have next_eq := sound.next_kept member changed
  have descs : ({ l with buckets := front ++ b' :: back } : Layout).descs = l.descs := by
    simp only [Layout.descs, split, List.map_append, List.map_cons, desc]
  have pages : ({ l with buckets := front ++ b' :: back } : Layout).pages = l.pages := by
    simp only [Layout.pages, split, List.map_append, List.map_cons, page]
  have chain : ∀ d, ({ l with buckets := front ++ b' :: back } : Layout).chain d = l.chain d := by
    intro d
    simp only [Layout.chain, split, List.filter_append, List.filter_cons, dir, List.map_append]
    split <;> simp only [List.map_cons, desc]
  refine ⟨?_, fun d => ?_, ?_, descs ▸ sound.single, descs ▸ sound.inPages, descs ▸ sound.count,
    pages ▸ sound.taken.words word'⟩
  · have others : ∀ c ∈ front ++ back, c.Holds word' := by
      intro c inside
      have singleDesc := sound.single
      have singlePage := sound.taken.single
      rw [Layout.descs, split, List.nodup_append] at singleDesc
      rw [Layout.pages, split, List.nodup_append] at singlePage
      have descs := List.nodup_middle.mp (by simpa using singleDesc.1)
      have pages := List.nodup_middle.mp (by simpa using singlePage.1)
      rw [← List.map_append, List.nodup_cons] at descs pages
      have inLayout : c ∈ l.buckets := by
        rw [split]
        rcases List.mem_append.mp inside with left | right
        · exact List.mem_append_left _ left
        · exact List.mem_append_right _ (List.mem_cons_of_mem _ right)
      refine sound.bucket_kept sound.taken (l.page_mem member) (fun q => id)
        (sound.page_not_desc member) (l.desc_mem member) inLayout
        (fun same => descs.1 (same ▸ List.mem_map_of_mem inside))
        (fun same => pages.1 (same ▸ List.mem_map_of_mem inside))
        fun addr outside => changed addr (outside 8 (by decide)) (outside 12 (by decide))
    intro c inside
    rcases List.mem_append.mp inside with left | right
    · exact others c (List.mem_append_left _ left)
    · rcases List.mem_cons.mp right with rfl | right
      · exact holds
      · exact others c (List.mem_append_right _ right)
  · rw [chain d]
    exact (sound.chains d).congr fun q inside => next_eq q (l.chain_subset d q inside)
  · exact sound.spare.congr fun q inside => next_eq q (List.mem_append_right _ inside)

/-- A new bucket is put in front of its chain. -/
theorem Sound.add (sound : Sound boot l k) {rest : List Nat} (spare : l.spare = b.desc :: rest)
    {m : Memory} (taken : Taken boot (b.page :: l.pages) m)
    (changed : ∀ addr, (∀ o < descSize, addr ≠ b.desc + o) → ¬ InPage b.page addr →
      word' addr = k.word addr)
    (holds : b.Holds word') (link : next word' b.desc = k.chain b.dir) :
    Sound boot { l with buckets := b :: l.buckets, spare := rest }
      { mem := { m with word := word' }
        chain := Function.update k.chain b.dir b.desc
        freeBucketDesc := next k.word b.desc } := by
  have start : b.desc ∈ l.descs :=
    List.mem_append_right _ (spare ▸ List.mem_cons_self ..)
  have fresh := (List.nodup_cons.mp taken.single).1
  have notDesc : b.page ∉ l.descPages := fun inside => fresh (l.descPage_mem inside)
  have perm : (b.desc :: (l.buckets.map Bucket.desc ++ rest)).Perm l.descs := by
    rw [Layout.descs, spare]
    exact List.perm_middle.symm
  have single := perm.nodup_iff.mpr sound.single
  have ne : ∀ d ∈ l.buckets.map Bucket.desc ++ rest, d ≠ b.desc := fun d inside same =>
    (List.nodup_cons.mp single).1 (same ▸ inside)
  have next_eq : ∀ d ∈ l.buckets.map Bucket.desc ++ rest, next word' d = next k.word d :=
    fun d inside => sound.desc_kept taken (List.mem_cons_self ..)
      (fun q member => List.mem_cons_of_mem _ (l.descPage_mem member)) notDesc start
      (perm.mem_iff.mp (List.mem_cons_of_mem _ inside)) (ne d inside) changed 4 (by decide)
  have inChain : ∀ dir, ∀ d ∈ l.chain dir, d ∈ l.buckets.map Bucket.desc ++ rest := by
    intro dir d member
    obtain ⟨c, inside, rfl⟩ := List.mem_map.mp member
    exact List.mem_append_left _ (List.mem_map_of_mem (List.mem_of_mem_filter inside))
  refine ⟨?_, fun dir => ?_, ?_, single, fun d member => sound.inPages d (perm.mem_iff.mp member),
    perm.length_eq.trans sound.count, taken.words word'⟩
  · refine List.forall_mem_cons.mpr ⟨holds, fun c member => ?_⟩
    exact sound.bucket_kept taken (List.mem_cons_self ..) (fun q => List.mem_cons_of_mem _) notDesc
      start member (ne _ (List.mem_append_left _ (List.mem_map_of_mem member)))
      (fun same => fresh (same ▸ l.page_mem member)) changed
  · have kept := (sound.chains dir).congr fun d inside => next_eq d (inChain dir d inside)
    by_cases same : b.dir = dir
    · subst same
      simp only [Layout.chain, List.filter_cons, decide_true, ↓reduceIte, List.map_cons,
        Function.update_self]
      exact ⟨rfl, (sound.desc start).2.1, link ▸ kept⟩
    · simp only [Layout.chain, List.filter_cons, same, decide_false, Bool.false_eq_true, ↓reduceIte]
      rw [Function.update_of_ne (Ne.symm same)]
      exact kept
  · have chain := sound.spare
    rw [spare] at chain
    exact chain.2.2.congr fun d inside => next_eq d (List.mem_append_right _ inside)

end Steps

end Ct.Linux.Malloc
