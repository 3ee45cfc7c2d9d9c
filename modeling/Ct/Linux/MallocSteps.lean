import Ct.Linux.MallocLayout

set_option autoImplicit false

namespace Ct.Linux.Malloc

open Ct.Lib (Chained chained_nil)
open BucketDesc

section Links

variable {offset step left p addr tail : Nat} {word : Nat → Nat} {rest : List Nat}

/-- The words behind the loop over a new page and the last link. -/
def linked (offset step left p tail : Nat) (word : Nat → Nat) : Nat → Nat :=
  Function.update (linkUp offset step left p word).2 ((linkUp offset step left p word).1 + offset)
    tail

theorem linked_outside (outside : ∀ i ≤ left, addr ≠ p + step * i + offset) :
    linked offset step left p tail word addr = word addr := by
  induction left generalizing p word with
  | zero =>
    rw [linked, linkUp, Function.update_of_ne]
    simpa using outside 0 (Nat.le_refl 0)
  | succ left ih =>
    rw [linked, linkUp, ← linked, ih, Function.update_of_ne]
    · simpa using outside 0 (Nat.zero_le _)
    · intro i low
      have := outside (i + 1) (Nat.succ_le_succ low)
      rwa [Nat.mul_succ, Nat.add_comm (step * i), ← Nat.add_assoc] at this

/-- The elements of the page are in a list, each in front of the one that lies behind it. -/
theorem linked_chained (positive : 0 < step) (some : p ≠ 0)
    (chain : Chained (fun q => word (q + offset)) tail rest)
    (apart : ∀ q ∈ rest, ∀ i ≤ left, q ≠ p + step * i) :
    Chained (fun q => linked offset step left p tail word (q + offset)) p
      (List.range' p (left + 1) step ++ rest) := by
  induction left generalizing p word with
  | zero =>
    refine ⟨rfl, some, ?_⟩
    have first : linked offset step 0 p tail word (p + offset) = tail := by
      rw [linked, linkUp, Function.update_self]
    beta_reduce
    rw [first]
    refine chain.congr fun q member => linked_outside fun i low => ?_
    have := apart q member i low
    omega
  | succ left ih =>
    have first : linked offset step (left + 1) p tail word (p + offset) = p + step := by
      rw [linked, linkUp, ← linked, linked_outside, Function.update_self]
      intro i _
      omega
    refine ⟨rfl, some, ?_⟩
    beta_reduce
    rw [first]
    refine ih (by omega) (chain.congr fun q member => ?_) fun q member i low => ?_
    · have := apart q member 0 (Nat.zero_le _)
      rw [Function.update_of_ne]
      omega
    · have := apart q member (i + 1) (Nat.succ_le_succ low)
      rwa [Nat.mul_succ, Nat.add_comm (step * i), ← Nat.add_assoc] at this

end Links

section Init

variable {boot : Memory} {l : Layout} {k : Kernel}

theorem mem_range'_step {p step q : Nat} {n : Nat} :
    q ∈ List.range' p (n + 1) step ↔ ∃ i ≤ n, q = p + step * i := by
  rw [List.mem_range']
  simp only [Nat.lt_succ_iff]

/-- A page of descriptors: none is left, or a new one holds free descriptors. -/
theorem Sound.initBucketDesc (sound : Sound boot l k) :
    k.mem.memMap.count 0 = 0 ∧
        Malloc.initBucketDesc k = .error (.panic "Out of memory in init_bucket_desc()") ∨
      ∃ p k', Malloc.initBucketDesc k = .ok k' ∧
        Sound boot { l with spare := descsOf p ++ l.spare, descPages := p :: l.descPages } k' ∧
        k'.mem.memMap.count 0 + 1 = k.mem.memMap.count 0 ∧ k'.chain = k.chain ∧
        k'.freeBucketDesc ≠ 0 ∧ ∀ addr, ¬ InPage p addr → k'.word addr = k.word addr := by
  cases sound.taken.get with
  | none empty count =>
    refine Or.inl ⟨count, ?_⟩
    rw [Malloc.initBucketDesc, empty]
    rfl
  | page p next got taken outside count =>
    have some : p ≠ 0 := by
      have := taken.low (List.mem_cons_self ..)
      unfold LOW_MEM at this
      omega
    have fresh := (List.nodup_cons.mp taken.single).1
    let word := linked 4 descSize (PAGE_SIZE / descSize - 1) p k.freeBucketDesc next.word
    have kept : ∀ addr, ¬ InPage p addr → word addr = k.word addr := by
      intro addr off
      refine (linked_outside fun i low same => off ?_).trans (outside addr off)
      unfold InPage PAGE_SIZE descSize at *
      omega
    have away : ∀ d ∈ l.descs, ∀ o < descSize, ¬ InPage p (d + o) := fun d member o low =>
      sound.desc_outside taken (List.mem_cons_self ..)
        (fun q inside => List.mem_cons_of_mem _ (l.descPage_mem inside))
        (fun inside => fresh (l.descPage_mem inside)) member low
    have descs : ∀ d ∈ l.descs, ∀ o < descSize, word (d + o) = k.word (d + o) :=
      fun d member o low => kept _ (away d member o low)
    have new : ∀ d ∈ descsOf p, InPage p d := by
      intro d member
      have inside := desc_inside member
      unfold descSize at inside
      exact ⟨inside.1, by omega⟩
    refine Or.inr ⟨p, { k with mem := { next with word := word }, freeBucketDesc := p }, ?_,
      ⟨?_, fun dir => ?_, ?_, ?_, ?_, ?_, ?_⟩, count, rfl, some, kept⟩
    · rw [Malloc.initBucketDesc, got]
      simp only [some, ↓reduceIte]
      rfl
    · intro b member
      refine (sound.buckets b member).congr (fun o low _ => descs _ (l.desc_mem member) o low)
        fun s free => kept s fun inside => ?_
      have own := (sound.buckets b member).slot_inPage (List.mem_append_right b.used free)
      have same := taken.apart (List.mem_cons_self ..)
        (List.mem_cons_of_mem _ (l.page_mem member)) inside own
      exact fresh (same ▸ l.page_mem member)
    · exact (sound.chains dir).congr fun d member =>
        descs d (l.chain_subset dir d member) 4 (by decide)
    · refine linked_chained (by decide) some (sound.spare.congr fun d member => ?_)
        fun d member i low same => ?_
      · exact outside _ (away d (List.mem_append_right _ member) 4 (by decide))
      · refine away d (List.mem_append_right _ member) 0 (by decide) ?_
        unfold InPage PAGE_SIZE descSize at *
        omega
    · have perm : (descsOf p ++ l.descs).Perm
          (l.buckets.map Bucket.desc ++ (descsOf p ++ l.spare)) :=
        List.perm_append_comm_assoc ..
      refine perm.nodup_iff.mp (List.nodup_append.mpr
        ⟨List.nodup_range' _ (by decide), sound.single, fun d member e old same => ?_⟩)
      exact away e old 0 (by decide) (same ▸ new d member)
    · intro d member
      have cases : d ∈ l.descs ∨ d ∈ descsOf p := by
        simp only [Layout.descs, List.mem_append] at member ⊢
        tauto
      rcases cases with old | inside
      · obtain ⟨q, page, inside⟩ := sound.inPages d old
        exact ⟨q, List.mem_cons_of_mem _ page, inside⟩
      · exact ⟨p, List.mem_cons_self .., inside⟩
    · have count := sound.count
      have length : (descsOf p).length = PAGE_SIZE / descSize := List.length_range'
      simp only [Layout.descs, List.length_append, List.length_cons] at count ⊢
      rw [length, Nat.mul_succ, ← count]
      omega
    · exact (taken.perm List.perm_middle.symm).words word

theorem slots_eq {p dir : Nat} (valid : dir < sizes.length) :
    slots p dir = List.range' p (PAGE_SIZE / bdirSize dir - 1 + 1) (bdirSize dir) := by
  have facts := bdirSize_facts dir valid
  rw [slots, Nat.sub_add_cancel]
  refine Nat.one_le_iff_ne_zero.mpr fun zero => ?_
  rw [zero, Nat.mul_zero] at facts
  exact absurd facts.2.2 (by decide)

theorem inPage_slot {p dir addr : Nat} (valid : dir < sizes.length) (member : addr ∈ slots p dir) :
    InPage p addr := by
  have inside := slot_inside valid member
  have positive := (bdirSize_facts dir valid).2.1
  exact ⟨inside.1, by omega⟩

/-- A free descriptor is taken for a new bucket. -/
theorem Sound.fillBucket (sound : Sound boot l k) {dir : Nat} (valid : dir < sizes.length)
    (some : k.freeBucketDesc ≠ 0) :
    k.mem.memMap.count 0 = 0 ∧
        Malloc.fillBucket k dir = .error (.panic "Out of memory in kernel malloc()") ∨
      ∃ b k' rest, Malloc.fillBucket k dir = .ok (b.desc, k') ∧
        Sound boot { l with buckets := b :: l.buckets, spare := rest } k' ∧
        l.spare = b.desc :: rest ∧ b.dir = dir ∧ b.used = [] ∧ b.free ≠ [] ∧
        (∀ addr, (∀ o < descSize, addr ≠ b.desc + o) → ¬ InPage b.page addr →
          k'.word addr = k.word addr) := by
  cases spare : l.spare with
  | nil =>
    have none := sound.spare
    rw [spare] at none
    exact absurd none some
  | cons d rest =>
    have first : k.freeBucketDesc = d := by
      have chain := sound.spare
      rw [spare] at chain
      exact chain.1
    have start : d ∈ l.descs := List.mem_append_right _ (spare ▸ List.mem_cons_self ..)
    let word₁ := setBucketSize (setRefcnt k.word d 0) d (bdirSize dir)
    have taken₁ := sound.taken.words word₁
    cases taken₁.get with
    | none empty count =>
      refine Or.inl ⟨count, ?_⟩
      rw [Malloc.fillBucket, first, empty]
      rfl
    | page cp m got taken outside count =>
      have page : cp ≠ 0 := by
        have := taken.low (List.mem_cons_self ..)
        unfold LOW_MEM at this
        omega
      have fresh := (List.nodup_cons.mp taken.single).1
      have away : ∀ o < descSize, ¬ InPage cp (d + o) := fun o low =>
        sound.desc_outside taken (List.mem_cons_self ..)
          (fun q inside => List.mem_cons_of_mem _ (l.descPage_mem inside))
          (fun inside => fresh (l.descPage_mem inside)) start low
      let word₂ := setPage (setFreeptr m.word d cp) d cp
      let word₃ := linked 0 (bdirSize dir) (PAGE_SIZE / bdirSize dir - 1) cp 0 word₂
      let word₄ := setNext word₃ d (k.chain dir)
      have linked₃ : ∀ addr, addr ∉ slots cp dir → word₃ addr = word₂ addr := by
        intro addr off
        refine linked_outside fun i low same => off ?_
        rw [slots_eq valid, mem_range'_step]
        exact ⟨i, low, same⟩
      have kept₃ : ∀ o < descSize, word₃ (d + o) = word₂ (d + o) := fun o low =>
        linked₃ _ fun member => away o low (inPage_slot valid member)
      have changed : ∀ addr, (∀ o < descSize, addr ≠ d + o) → ¬ InPage cp addr →
          word₄ addr = k.word addr := by
        intro addr desc off
        have o : addr ≠ d := desc 0 (by decide)
        have o₄ := desc 4 (by decide)
        have o₈ := desc 8 (by decide)
        have o₁₂ := desc 12 (by decide)
        calc word₄ addr
          _ = word₃ addr := Function.update_of_ne o₄ ..
          _ = word₂ addr := linked₃ addr fun member => off (inPage_slot valid member)
          _ = m.word addr := by
            rw [show word₂ = setPage (setFreeptr m.word d cp) d cp from rfl, setPage, setFreeptr,
              Function.update_of_ne o, Function.update_of_ne o₈]
          _ = word₁ addr := outside addr off
          _ = k.word addr := by
            rw [show word₁ = setBucketSize (setRefcnt k.word d 0) d (bdirSize dir) from rfl,
              setBucketSize, setRefcnt, Function.update_of_ne o₁₂, Function.update_of_ne o₁₂]
      have page₄ : BucketDesc.page word₄ d = cp := by
        rw [BucketDesc.page, show word₄ = setNext word₃ d (k.chain dir) from rfl, setNext,
          Function.update_of_ne (by omega), ← Nat.add_zero d, kept₃ 0 (by decide)]
        exact Function.update_self ..
      have freeptr₄ : freeptr word₄ d = cp := by
        rw [freeptr, show word₄ = setNext word₃ d (k.chain dir) from rfl, setNext,
          Function.update_of_ne (by omega), kept₃ 8 (by decide),
          show word₂ = setPage (setFreeptr m.word d cp) d cp from rfl, setPage,
          Function.update_of_ne (by omega)]
        exact Function.update_self ..
      have refcnt₄ : refcnt word₄ d = 0 := by
        have last : word₄ (d + 12) = word₁ (d + 12) := by
          rw [show word₄ = setNext word₃ d (k.chain dir) from rfl, setNext,
            Function.update_of_ne (by omega), kept₃ 12 (by decide),
            show word₂ = setPage (setFreeptr m.word d cp) d cp from rfl, setPage, setFreeptr,
            Function.update_of_ne (by omega), Function.update_of_ne (by omega)]
          exact outside _ (away 12 (by decide))
        rw [refcnt, last]
        exact (refcnt_setBucketSize ..).trans (refcnt_setRefcnt ..)
      have list₄ : Chained word₄ cp (slots cp dir) := by
        have chain : Chained word₃ cp (slots cp dir ++ []) :=
          (slots_eq (p := cp) valid) ▸ linked_chained (bdirSize_facts dir valid).2.1 page
            (chained_nil.mpr rfl) fun q member => absurd member List.not_mem_nil
        rw [List.append_nil] at chain
        exact chain.update (fun member => away 4 (by decide) (inPage_slot valid member)) _
      let b : Bucket :=
        { desc := d, page := cp, dir := dir, used := [], free := slots cp dir }
      refine Or.inr ⟨b, _, rest, ?_, sound.add (b := b) spare
        (taken.words word₄) changed ⟨page₄, freeptr₄.symm ▸ list₄, refcnt₄, List.Perm.refl _, valid⟩
        (Function.update_self ..), rfl, rfl, rfl, ?_, changed⟩
      · rw [Malloc.fillBucket, first, got]
        simp only [page, ↓reduceIte]
        rfl
      · rw [show b.free = slots cp dir from rfl, slots_eq valid]
        exact List.cons_ne_nil _ _

end Init

/-- The object is in use, in a bucket with this descriptor, page and directory entry. -/
def Layout.Uses (l : Layout) (obj desc page dir : Nat) : Prop :=
  ∃ b ∈ l.buckets, obj ∈ b.used ∧ b.desc = desc ∧ b.page = page ∧ b.dir = dir

/-- The objects that are in use. -/
def Layout.used (l : Layout) : List Nat := l.buckets.flatMap Bucket.used

/-- No bucket is kept without an object in use. -/
def Layout.Busy (l : Layout) : Prop := ∀ b ∈ l.buckets, b.used ≠ []

/-- Nothing changes on the pages of the buckets and of the rest of the kernel. -/
def Kept (l : Layout) (k k' : Kernel) : Prop :=
  ∀ p ∈ l.buckets.map Bucket.page ++ l.others, ∀ addr, InPage p addr → k'.word addr = k.word addr

/-- What `malloc` does to a layout. -/
structure Takes (l l' : Layout) (obj dir : Nat) : Prop where
  used : l'.used.Perm (obj :: l.used)
  uses : ∃ desc page, l'.Uses obj desc page dir
  kept : ∀ s desc page d, l.Uses s desc page d → l'.Uses s desc page d
  busy : l.Busy → l'.Busy
  descs : ∀ d ∈ l.descs, d ∈ l'.descs
  others : l'.others = l.others
  pages : l'.descPages.length ≤ l.descPages.length ∨
    PAGE_SIZE / descSize * l'.descPages.length < l'.buckets.length + PAGE_SIZE / descSize

section Malloc

variable {boot : Memory} {l : Layout} {k : Kernel} {b : Bucket} {front back : List Bucket}

/-- The texts of `panic` when no page is left. -/
def OutOfMemory (s : Stop) : Prop :=
  s = .panic "Out of memory in init_bucket_desc()" ∨ s = .panic "Out of memory in kernel malloc()"

/-- A new bucket is in front of the others. -/
structure Adds (l l' : Layout) (b : Bucket) (dir : Nat) : Prop where
  buckets : l'.buckets = b :: l.buckets
  dir : b.dir = dir
  used : b.used = []
  free : b.free ≠ []
  descs : ∀ d ∈ l.descs, d ∈ l'.descs
  others : l'.others = l.others
  pages : l'.descPages.length ≤ l.descPages.length ∨
    PAGE_SIZE / descSize * l'.descPages.length < l'.buckets.length + PAGE_SIZE / descSize

theorem Layout.kept_mem {p : Nat} (member : p ∈ l.buckets.map Bucket.page ++ l.others) :
    p ∈ l.pages := by
  rcases List.mem_append.mp member with bucket | other
  · exact List.mem_append_left _ bucket
  · exact l.other_mem other

theorem Sound.kept_not_desc (sound : Sound boot l k) {p : Nat}
    (member : p ∈ l.buckets.map Bucket.page ++ l.others) : p ∉ l.descPages := by
  rcases List.mem_append.mp member with bucket | other
  · obtain ⟨b, inside, rfl⟩ := List.mem_map.mp bucket
    exact sound.page_not_desc inside
  · exact sound.other_not_desc other

/-- A descriptor has no word on these pages. -/
theorem Sound.kept_ne (sound : Sound boot l k) {p d addr : Nat} (start : d ∈ l.descs)
    (member : p ∈ l.buckets.map Bucket.page ++ l.others) (inside : InPage p addr) :
    ∀ o < descSize, addr ≠ d + o := fun _ low same =>
  sound.desc_outside sound.taken (Layout.kept_mem member) (fun _ => l.descPage_mem)
    (sound.kept_not_desc member) start low (same ▸ inside)

/-- A page that was free has no address in common with these. -/
theorem Layout.kept_new {p q addr : Nat} {m : Memory}
    (taken : Taken boot (q :: l.pages) m)
    (member : p ∈ l.buckets.map Bucket.page ++ l.others) (inside : InPage p addr) :
    ¬ InPage q addr := fun new =>
  have same := taken.apart (List.mem_cons_self ..) (List.mem_cons_of_mem _ (Layout.kept_mem member))
    new inside
  (List.nodup_cons.mp taken.single).1 (same ▸ Layout.kept_mem member)

theorem Sound.newBucket (sound : Sound boot l k) {dir : Nat} (valid : dir < sizes.length) :
    k.mem.memMap.count 0 ≤ 1 ∧ (∃ s, Malloc.newBucket k dir = .error s ∧ OutOfMemory s) ∨
      ∃ b k' l', Malloc.newBucket k dir = .ok (b.desc, k') ∧ Sound boot l' k' ∧ Adds l l' b dir ∧
        Kept l k k' := by
  by_cases none : k.freeBucketDesc = 0
  · have start : Malloc.newBucket k dir =
        Malloc.initBucketDesc k >>= fun k => Malloc.fillBucket k dir := by
      rw [Malloc.newBucket, if_pos none]
    have empty : l.spare = [] := by
      cases spare : l.spare with
      | nil => rfl
      | cons d rest =>
        have chain := sound.spare
        rw [spare, none] at chain
        exact absurd chain.1.symm chain.2.1
    rcases sound.initBucketDesc with ⟨count, failed⟩ | ⟨p, k₁, made, sound₁, count, -, some, kept⟩
    · exact Or.inl ⟨by omega, _, by rw [start, failed]; rfl, Or.inl rfl⟩
    · rcases sound₁.fillBucket valid some with
        ⟨count₁, failed⟩ | ⟨b, k', rest, filled, sound', spare, dir_eq, used, free, changed⟩
      · exact Or.inl ⟨by omega, _, by rw [start, made]; exact failed, Or.inr rfl⟩
      · refine Or.inr ⟨b, k', _, by rw [start, made]; exact filled, sound',
          ⟨rfl, dir_eq, used, free, fun d member => ?_, rfl, Or.inr ?_⟩,
          fun q member addr inside => ?_⟩
        · have old : d ∈ l.buckets.map Bucket.desc := by
            rw [Layout.descs, empty, List.append_nil] at member
            exact member
          exact List.mem_append_left _ (List.mem_cons_of_mem _ old)
        · have full := sound.count
          rw [Layout.descs, empty, List.append_nil, List.length_map] at full
          simp only [List.length_cons]
          rw [Nat.mul_succ, ← full]
          omega
        · have taken : Taken boot (p :: l.pages) k₁.mem := sound₁.taken.perm List.perm_middle
          rw [changed addr (sound₁.kept_ne (List.mem_append_right _ (spare ▸ List.mem_cons_self ..))
            member inside) (Layout.kept_new sound'.taken member inside)]
          exact kept addr (Layout.kept_new taken member inside)
  · have start : Malloc.newBucket k dir = Malloc.fillBucket k dir := by
      rw [Malloc.newBucket, if_neg none]
      rfl
    rcases sound.fillBucket valid none with
      ⟨count, failed⟩ | ⟨b, k', rest, filled, sound', spare, dir_eq, used, free, changed⟩
    · exact Or.inl ⟨by omega, _, start.trans failed, Or.inr rfl⟩
    · refine Or.inr ⟨b, k', _, start.trans filled, sound',
        ⟨rfl, dir_eq, used, free, fun d member => ?_, rfl, Or.inl (Nat.le_refl _)⟩,
        fun q member addr inside => ?_⟩
      · have perm : (b.desc :: (l.buckets.map Bucket.desc ++ rest)).Perm l.descs := by
          rw [Layout.descs, spare]
          exact List.perm_middle.symm
        exact perm.mem_iff.mpr member
      · exact changed addr (sound.kept_ne (List.mem_append_right _ (spare ▸ List.mem_cons_self ..))
          member inside) (Layout.kept_new sound'.taken member inside)

/-- The first free object of a bucket is taken. -/
theorem Sound.take (sound : Sound boot l k) (split : l.buckets = front ++ b :: back) {s : Nat}
    {rest : List Nat} (free : b.free = s :: rest) :
    freeptr k.word b.desc = s ∧
      Sound boot
        { l with buckets := front ++ { b with used := s :: b.used, free := rest } :: back }
        (k.setWord (setRefcnt (setFreeptr k.word b.desc (k.word s)) b.desc
          (refcnt (setFreeptr k.word b.desc (k.word s)) b.desc + 1))) := by
  have member := mem_of_split split
  have holds := sound.buckets b member
  obtain ⟨aligned, -, -⟩ := sound.desc (l.desc_mem member)
  have chain := holds.list
  rw [free] at chain
  obtain ⟨first, -, later⟩ := chain
  have count := holds.count
  have length := holds.length
  have capacity : PAGE_SIZE / bdirSize b.dir ≤ PAGE_SIZE := Nat.div_le_self ..
  let word₁ := setFreeptr k.word b.desc (k.word s)
  let word₂ := setRefcnt word₁ b.desc (refcnt word₁ b.desc + 1)
  have changed : ∀ addr, addr ≠ b.desc + 8 → addr ≠ b.desc + 12 → ¬ InPage b.page addr →
      word₂ addr = k.word addr := fun addr o₈ o₁₂ _ =>
    (Function.update_of_ne o₁₂ ..).trans (Function.update_of_ne o₈ ..)
  have clean : ∀ q ∈ rest, word₂ q = k.word q := by
    intro q inside
    have page := holds.slot_inPage
      (List.mem_append_right b.used (free ▸ List.mem_cons_of_mem s inside))
    have ne := sound.kept_ne (l.desc_mem member)
      (List.mem_append_left _ (List.mem_map_of_mem member)) page
    exact (Function.update_of_ne (ne 12 (by decide)) ..).trans
      (Function.update_of_ne (ne 8 (by decide)) ..)
  have holds' : Bucket.Holds word₂ { b with used := s :: b.used, free := rest } := by
    refine ⟨?_, ?_, ?_, ?_, holds.dir⟩
    · simpa [word₂, word₁] using holds.page
    · simpa [word₂, word₁] using later.congr clean
    · simp only [word₂, word₁, refcnt_setRefcnt, refcnt_setFreeptr, count, List.length_cons]
      rw [free, List.length_cons] at length
      unfold PAGE_SIZE at capacity length
      exact Nat.mod_eq_of_lt (by omega)
    · have perm := holds.slots
      rw [free] at perm
      exact List.perm_middle.symm.trans perm
  exact ⟨first, sound.update split rfl rfl rfl changed holds'⟩

/-- An object is taken from a bucket that was there before, or that is new. -/
theorem takes_of_split {l₁ : Layout} {s : Nat} {rest : List Nat}
    (old : l.buckets = front ++ b :: back ∨ l.buckets = front ++ back ∧ b.used = [])
    (descs : ∀ d ∈ l.descs, d ∈ l₁.descs) (split : l₁.buckets = front ++ b :: back)
    (others : l₁.others = l.others)
    (pages : l₁.descPages.length ≤ l.descPages.length ∨
      PAGE_SIZE / descSize * l₁.descPages.length < l₁.buckets.length + PAGE_SIZE / descSize) :
    Takes l { l₁ with buckets := front ++ { b with used := s :: b.used, free := rest } :: back } s
      b.dir where
  used := by
    have used : l.used = front.flatMap Bucket.used ++ (b.used ++ back.flatMap Bucket.used) := by
      rcases old with same | ⟨without, empty⟩
      · rw [Layout.used, same, List.flatMap_append, List.flatMap_cons]
      · rw [Layout.used, without, List.flatMap_append, empty, List.nil_append]
    rw [used, Layout.used, List.flatMap_append, List.flatMap_cons]
    exact List.perm_middle
  uses := ⟨b.desc, b.page, _, List.mem_append_right _ (List.mem_cons_self ..),
    List.mem_cons_self .., rfl, rfl, rfl⟩
  kept := by
    rintro t desc page d ⟨c, member, inside, facts⟩
    have cases : c ∈ front ∨ c = b ∨ c ∈ back := by
      rcases old with same | ⟨without, -⟩
      · simpa [same] using member
      · rw [without, List.mem_append] at member
        tauto
    rcases cases with left | rfl | right
    · exact ⟨c, List.mem_append_left _ left, inside, facts⟩
    · exact ⟨_, List.mem_append_right _ (List.mem_cons_self ..), List.mem_cons_of_mem s inside,
        facts⟩
    · exact ⟨c, List.mem_append_right _ (List.mem_cons_of_mem _ right), inside, facts⟩
  busy := by
    intro busy c member
    have cases : c ∈ front ++ back ∨ c = { b with used := s :: b.used, free := rest } := by
      simp only [List.mem_append, List.mem_cons] at member ⊢
      tauto
    rcases cases with inside | rfl
    · refine busy c ?_
      rcases old with same | ⟨without, -⟩
      · rw [same]
        simp only [List.mem_append, List.mem_cons] at inside ⊢
        tauto
      · exact without ▸ inside
    · exact List.cons_ne_nil s b.used
  descs := fun d member => by
    have inside := descs d member
    rw [Layout.descs, split] at inside
    simpa [Layout.descs] using inside
  others := others
  pages := by
    rw [split] at pages
    simpa using pages

theorem dir_facts (len : Nat) :
    4096 < len ∧ (sizes.findIdx fun size => decide (len ≤ size)) = sizes.length ∨
      len ≤ 4096 ∧ (sizes.findIdx fun size => decide (len ≤ size)) < sizes.length ∧
        len ≤ bdirSize (sizes.findIdx fun size => decide (len ≤ size)) := by
  by_cases fits : len ≤ 4096
  · have low : (sizes.findIdx fun size => decide (len ≤ size)) < sizes.length :=
      List.findIdx_lt_length.mpr ⟨4096, by decide, decide_eq_true fits⟩
    refine Or.inr ⟨fits, low, ?_⟩
    have found := List.findIdx_getElem (w := low)
    rw [bdirSize, List.getD_eq_getElem?_getD, List.getElem?_eq_getElem low]
    exact of_decide_eq_true found
  · refine Or.inl ⟨by omega, List.findIdx_eq_length.mpr fun size member => decide_eq_false ?_⟩
    have large : ∀ size ∈ sizes, size ≤ 4096 := by decide
    have := large size member
    omega

/-- The search of a chain has fuel for all of it. -/
theorem Sound.chain_short (sound : Sound boot l k) (dir : Nat) :
    (l.chain dir).length < k.fuel := by
  have chain : (l.chain dir).length ≤ l.buckets.length := by
    rw [Layout.chain, List.length_map]
    exact List.length_filter_le ..
  have pages : l.buckets.length ≤ l.pages.length := by
    rw [Layout.pages, List.length_append, List.length_map]
    exact Nat.le_add_right ..
  exact Nat.lt_succ_of_le (Nat.le_trans chain (Nat.le_trans pages sound.taken.length_le))

/-- The bucket of a descriptor in a chain. -/
theorem Layout.mem_chain {dir d : Nat} (member : d ∈ l.chain dir) :
    ∃ b ∈ l.buckets, b.desc = d ∧ b.dir = dir := by
  obtain ⟨b, inside, rfl⟩ := List.mem_map.mp member
  rw [List.mem_filter, decide_eq_true_iff] at inside
  exact ⟨b, inside.1, rfl, inside.2⟩

/-- Taking an object changes nothing outside the descriptors. -/
theorem Sound.take_kept (sound : Sound boot l k) (member : b ∈ l.buckets) (value count : Nat) :
    Kept l k (k.setWord (setRefcnt (setFreeptr k.word b.desc value) b.desc count)) := by
  intro p page addr inside
  have ne := sound.kept_ne (l.desc_mem member) page inside
  exact (Function.update_of_ne (ne 12 (by decide)) ..).trans
    (Function.update_of_ne (ne 8 (by decide)) ..)

/-- `malloc` refuses a length, has no memory left, or hands out a new object. -/
theorem Sound.malloc (sound : Sound boot l k) (len : Nat) :
    4096 < len ∧ Malloc.malloc len k = .error (.panic "malloc: bad arg") ∨
      len ≤ 4096 ∧ (k.mem.memMap.count 0 ≤ 1 ∧
          (∃ s, Malloc.malloc len k = .error s ∧ OutOfMemory s) ∨
        ∃ obj k' l' dir, Malloc.malloc len k = .ok (obj, k') ∧ Sound boot l' k' ∧
          Takes l l' obj dir ∧ len ≤ bdirSize dir ∧ Kept l k k') := by
  rcases dir_facts len with ⟨large, all⟩ | ⟨small, valid, fits⟩
  · exact Or.inl ⟨large, by rw [Malloc.malloc, if_pos all]⟩
  refine Or.inr ⟨small, ?_⟩
  generalize found : (sizes.findIdx fun size => decide (len ≤ size)) = dir at valid fits
  have start : ∀ prev bdesc, Lib.seek (next k.word)
      (fun bdesc => decide (freeptr k.word bdesc ≠ 0)) k.fuel 0 (k.chain dir) = some (prev, bdesc) →
      Malloc.malloc len k =
        if bdesc = 0 then Malloc.newBucket k dir >>= fun made => .ok (takeObject made.1 made.2)
        else .ok (takeObject bdesc k) := by
    intro prev bdesc sought
    subst found
    rw [Malloc.malloc, if_neg (Nat.ne_of_lt valid), sought]
  rcases (sound.chains dir).seek (fun bdesc => decide (freeptr k.word bdesc ≠ 0)) 0
      (sound.chain_short dir) with
    ⟨-, last, sought⟩ | ⟨before, d, behind, split, passes, some, -, sought⟩
  · replace start := (start last 0 sought).trans (if_pos rfl)
    rcases sound.newBucket valid with
      ⟨count, s, failed, text⟩ | ⟨b, k₁, l₁, made, sound₁, adds, kept⟩
    · exact Or.inl ⟨count, s, by rw [start, failed]; rfl, text⟩
    · obtain ⟨s, rest, free⟩ := List.exists_cons_of_ne_nil adds.free
      have split : l₁.buckets = [] ++ b :: l.buckets := adds.buckets
      obtain ⟨first, taken⟩ := sound₁.take split free
      have member : b ∈ l₁.buckets := adds.buckets ▸ List.mem_cons_self ..
      refine Or.inr ⟨s, _, _, b.dir, ?_, taken, takes_of_split (Or.inr ⟨rfl, adds.used⟩) adds.descs
        adds.buckets adds.others adds.pages, adds.dir ▸ fits, fun p page addr inside => ?_⟩
      · rw [start, made, ← first]
        rfl
      · rw [← kept p page addr inside]
        refine sound₁.take_kept member _ _ p ?_ addr inside
        rw [adds.others, adds.buckets]
        exact List.mem_cons_of_mem _ page
  · replace start := (start _ d sought).trans (if_neg some)
    have inChain : d ∈ l.chain dir := split ▸ List.mem_append_right _ (List.mem_cons_self ..)
    obtain ⟨b, member, rfl, rfl⟩ := l.mem_chain inChain
    obtain ⟨front, back, halves⟩ := List.append_of_mem member
    obtain ⟨s, rest, free⟩ : ∃ s rest, b.free = s :: rest := by
      cases free : b.free with
      | nil =>
        have chain := (sound.buckets b member).list
        rw [free] at chain
        exact absurd (chained_nil.mp chain) (of_decide_eq_true passes)
      | cons s rest => exact ⟨s, rest, rfl⟩
    obtain ⟨first, taken⟩ := sound.take halves free
    refine Or.inr ⟨s, _, _, b.dir, ?_, taken,
      takes_of_split (Or.inl halves) (fun d => id) halves rfl
      (Or.inl (Nat.le_refl _)), fits, sound.take_kept member _ _⟩
    rw [start, ← first]
    rfl

end Malloc

end Ct.Linux.Malloc
