import Ct.Linux.MallocSteps
import Mathlib.Algebra.Group.Nat.Defs

set_option autoImplicit false

namespace Ct.Linux.Malloc

open Ct.Lib (Chained)
open BucketDesc

section Search

variable {boot : Memory} {l : Layout} {k : Kernel} {b : Bucket}

/-- The mask leaves the address of the page. -/
theorem and_mask {obj : Nat} (small : obj < 0x100000000) :
    obj &&& 0xfffff000 = obj / 4096 * 4096 := by
  have shifted : obj / 4096 * 4096 = obj >>> 12 <<< 12 := by
    rw [Nat.shiftLeft_eq, Nat.shiftRight_eq_div_pow]
  have mask : 0xfffff000 = (2 ^ 20 - 1) <<< 12 := rfl
  rw [shifted, mask]
  refine Nat.eq_of_testBit_eq fun i => ?_
  rw [Nat.testBit_and, Nat.testBit_shiftLeft, Nat.testBit_shiftLeft, Nat.testBit_shiftRight,
    Nat.testBit_two_pow_sub_one]
  by_cases low : 12 ≤ i
  · rw [Nat.add_sub_cancel' low]
    by_cases high : i < 32
    · simp [low, show i - 12 < 20 by omega]
    · have bound : 2 ^ 32 ≤ 2 ^ i := Nat.pow_le_pow_right (Nat.succ_pos 1) (Nat.not_lt.mp high)
      have zero : obj.testBit i = false := Nat.testBit_lt_two_pow (Nat.lt_of_lt_of_le small bound)
      simp [zero]
  · simp [low]

theorem page_of_object {p obj : Nat} (aligned : PAGE_SIZE ∣ p) (small : p < 16 * 1024 * 1024)
    (inside : InPage p obj) : obj &&& 0xfffff000 = p := by
  unfold InPage PAGE_SIZE at *
  rw [and_mask (by omega)]
  omega

/-- A bucket is known by its page, and by its descriptor. -/
theorem Sound.page_inj (sound : Sound boot l k) {c : Bucket} (here : b ∈ l.buckets)
    (there : c ∈ l.buckets) (same : b.page = c.page) : b = c := by
  have single := (List.nodup_append.mp sound.taken.single).1
  exact List.inj_on_of_nodup_map single here there same

theorem Sound.desc_inj (sound : Sound boot l k) {c : Bucket} (here : b ∈ l.buckets)
    (there : c ∈ l.buckets) (same : b.desc = c.desc) : b = c := by
  have single := (List.nodup_append.mp sound.single).1
  exact List.inj_on_of_nodup_map single here there same

/-- The bucket of an object is found. -/
theorem Sound.findBucket (sound : Sound boot l k) (member : b ∈ l.buckets) {obj : Nat} {size : Int}
    (fits : size ≤ bdirSize b.dir) {dirs : List Nat} (inside : b.dir ∈ dirs) :
    ∃ prev, Malloc.findBucket k obj b.page size dirs =
        .ok { obj := obj, dir := b.dir, prev := prev, bdesc := b.desc } ∧
      (prev = 0 ∨ prev ∈ l.descs) := by
  induction dirs with
  | nil => exact absurd inside List.not_mem_nil
  | cons dir dirs ih =>
    have only : ∀ d ∈ l.chain dir, BucketDesc.page k.word d = b.page →
        d = b.desc ∧ dir = b.dir := by
      intro d inChain page
      obtain ⟨c, own, rfl, rfl⟩ := l.mem_chain inChain
      have same := sound.page_inj member own (page.symm.trans (sound.buckets c own).page)
      exact ⟨same ▸ rfl, same ▸ rfl⟩
    rw [Malloc.findBucket]
    by_cases skipped : (bdirSize dir : Int) < size
    · rw [if_pos skipped]
      refine ih ((List.mem_cons.mp inside).resolve_left fun same => ?_)
      rw [same] at fits
      exact absurd skipped (Int.not_lt.mpr fits)
    · rw [if_neg skipped]
      rcases (sound.chains dir).seek (fun d => decide (BucketDesc.page k.word d = b.page)) 0
          (sound.chain_short dir) with
        ⟨none, last, sought⟩ | ⟨before, d, behind, split, passes, some, -, sought⟩
      · rw [sought]
        refine ih ((List.mem_cons.mp inside).resolve_left fun same => ?_)
        have here : b.desc ∈ l.chain dir := List.mem_map_of_mem
          (List.mem_filter.mpr ⟨member, decide_eq_true same⟩)
        exact absurd (sound.buckets b member).page (of_decide_eq_false (none b.desc here))
      · have inChain : d ∈ l.chain dir :=
          split ▸ List.mem_append_right _ (List.mem_cons_self ..)
        obtain ⟨rfl, rfl⟩ := only d inChain (of_decide_eq_true passes)
        rw [sought]
        refine ⟨before.getLast?.getD 0, by simp only [some, ↓reduceIte], ?_⟩
        cases last : before.getLast? with
        | none => exact Or.inl rfl
        | some q =>
          refine Or.inr (l.chain_subset b.dir q ?_)
          rw [split]
          exact List.mem_append_left _ (List.mem_of_getLast? last)

/-- `free_s` finds the bucket of an object. -/
theorem Sound.freeSearch (booted : Booted boot) (sound : Sound boot l k) (member : b ∈ l.buckets)
    {obj : Nat} (used : obj ∈ b.used) {size : Int} (fits : size ≤ bdirSize b.dir) :
    ∃ prev, Malloc.freeSearch obj size k =
        .ok { obj := obj, dir := b.dir, prev := prev, bdesc := b.desc } ∧
      (prev = 0 ∨ prev ∈ l.descs) := by
  have holds := sound.buckets b member
  have inPage := holds.slot_inPage (List.mem_append_left b.free used)
  rw [Malloc.freeSearch, page_of_object (sound.taken.aligned (l.page_mem member))
    (sound.taken.below booted (l.page_mem member)) inPage]
  exact sound.findBucket member fits (List.mem_range.mpr holds.dir)

end Search

section Drop

variable {boot : Memory} {l : Layout} {k : Kernel} {b : Bucket} {front back : List Bucket}

/-- `prev` is in front of the descriptor in its chain, or null when the descriptor is the first. -/
def Precedes (l : Layout) (k : Kernel) (prev : Nat) (b : Bucket) : Prop :=
  prev = 0 ∧ k.chain b.dir = b.desc ∨
    prev ≠ 0 ∧ ∃ before behind, l.chain b.dir = before ++ prev :: b.desc :: behind

theorem Layout.mem_chain_self (member : b ∈ l.buckets) : b.desc ∈ l.chain b.dir :=
  List.mem_map_of_mem (List.mem_filter.mpr ⟨member, decide_eq_true rfl⟩)

/-- Only the descriptor in front of a bucket's points at it. -/
theorem Sound.precedes_of_next (sound : Sound boot l k) (member : b ∈ l.buckets) {d : Nat}
    (inside : d ∈ l.descs) (link : next k.word d = b.desc) : Precedes l k d b := by
  have some := (sound.desc (l.desc_mem member)).2.1
  rcases List.mem_append.mp inside with bucket | spare
  · obtain ⟨c, own, rfl⟩ := List.mem_map.mp bucket
    rcases (sound.chains c.dir).link (l.mem_chain_self own) with zero | ⟨before, behind, split⟩
    · exact absurd (link.symm.trans zero) some
    · rw [link] at split
      have inChain : b.desc ∈ l.chain c.dir := by
        rw [split]
        exact List.mem_append_right _ (List.mem_cons_of_mem _ (List.mem_cons_self ..))
      obtain ⟨e, there, desc, dir⟩ := l.mem_chain inChain
      have same := sound.desc_inj there member desc
      rw [same] at dir
      exact Or.inr ⟨(sound.desc (l.desc_mem own)).2.1, before, behind, dir ▸ split⟩
  · rcases sound.spare.link spare with zero | ⟨before, behind, split⟩
    · exact absurd (link.symm.trans zero) some
    · have both : b.desc ∈ l.spare := by
        rw [split, link]
        exact List.mem_append_right _ (List.mem_cons_of_mem _ (List.mem_cons_self ..))
      exact absurd rfl ((List.nodup_append.mp sound.single).2.2 b.desc
        (List.mem_map_of_mem member) b.desc both)

/-- A descriptor that is not the first has another in front of it. -/
theorem Sound.exists_prev (sound : Sound boot l k) (member : b ∈ l.buckets)
    (later : k.chain b.dir ≠ b.desc) : ∃ d ∈ l.chain b.dir, next k.word d = b.desc := by
  obtain ⟨before, behind, split⟩ := List.append_of_mem (l.mem_chain_self member)
  have chain := sound.chains b.dir
  rcases List.eq_nil_or_concat before with rfl | ⟨before, d, rfl⟩
  · rw [split] at chain
    exact absurd chain.1 later
  · rw [List.concat_eq_append] at split
    rw [split, List.append_assoc, List.singleton_append] at chain
    exact ⟨d, by simp [split], chain.link_eq⟩

/-- When interrupts are off, the descriptor in front is found, whatever was done in between. -/
theorem Sound.accuratePrev (sound : Sound boot l k) (member : b ∈ l.buckets) {call : FreeCall}
    (dir : call.dir = b.dir) (bdesc : call.bdesc = b.desc)
    (prev : call.prev = 0 ∨ call.prev ∈ l.descs) :
    ∃ prev, Malloc.accuratePrev call k = .ok prev ∧ Precedes l k prev b := by
  by_cases stale : call.prev ≠ 0 ∧ next k.word call.prev ≠ call.bdesc ∨
      call.prev = 0 ∧ k.chain call.dir ≠ call.bdesc
  · rw [Malloc.accuratePrev, if_pos stale, dir, bdesc]
    rcases (sound.chains b.dir).seek (fun prev => decide (next k.word prev = b.desc)) 0
        (sound.chain_short b.dir) with
      ⟨none, last, sought⟩ | ⟨before, d, behind, split, passes, some, -, sought⟩
    · refine ⟨0, by rw [sought], Or.inl ⟨rfl, ?_⟩⟩
      by_contra later
      obtain ⟨d, inChain, link⟩ := sound.exists_prev member later
      exact of_decide_eq_false (none d inChain) link
    · refine ⟨d, by rw [sought], sound.precedes_of_next member (l.chain_subset b.dir d ?_)
        (of_decide_eq_true passes)⟩
      exact split ▸ List.mem_append_right _ (List.mem_cons_self ..)
  · refine ⟨call.prev, by rw [Malloc.accuratePrev, if_neg stale], ?_⟩
    rw [not_or, not_and, not_and, not_not, not_not, dir, bdesc] at stale
    rcases prev with zero | inside
    · exact Or.inl ⟨zero, stale.2 zero⟩
    · exact sound.precedes_of_next member inside (stale.1 (sound.desc inside).2.1)

theorem Sound.chain_single (sound : Sound boot l k) (dir : Nat) : (l.chain dir).Nodup :=
  (List.nodup_append.mp sound.single).1.sublist (List.filter_sublist.map Bucket.desc)

/-- The layout without the bucket. -/
def Layout.drop (l : Layout) (b : Bucket) (front back : List Bucket) : Layout :=
  { l with buckets := front ++ back, spare := b.desc :: l.spare }

theorem erase_middle {front back : List Nat} {d : Nat} (single : (front ++ d :: back).Nodup) :
    (front ++ d :: back).erase d = front ++ back := by
  have apart := List.nodup_middle.mp single
  have out : d ∉ front := fun inside =>
    (List.nodup_cons.mp apart).1 (List.mem_append_left _ inside)
  rw [List.erase_append_right _ out, List.erase_cons_head]

theorem Sound.chain_drop (sound : Sound boot l k) (split : l.buckets = front ++ b :: back) :
    (l.drop b front back).chain b.dir = (l.chain b.dir).erase b.desc := by
  have single := sound.chain_single b.dir
  have whole : l.chain b.dir = (front.filter fun c => decide (c.dir = b.dir)).map Bucket.desc ++
      b.desc :: (back.filter fun c => decide (c.dir = b.dir)).map Bucket.desc := by
    simp only [Layout.chain, split, List.filter_append, List.filter_cons, decide_true, ↓reduceIte,
      List.map_append, List.map_cons]
  rw [whole] at single ⊢
  rw [erase_middle single]
  simp only [Layout.chain, Layout.drop, List.filter_append, List.map_append]

theorem chain_drop_of_ne (split : l.buckets = front ++ b :: back) {dir : Nat}
    (other : dir ≠ b.dir) :
    (l.drop b front back).chain dir = l.chain dir := by
  have out : decide (b.dir = dir) = false := decide_eq_false (Ne.symm other)
  simp only [Layout.chain, Layout.drop, split, List.filter_append, List.filter_cons, out,
    Bool.false_eq_true, ↓reduceIte]

/-- The unlinked bucket is gone, once its descriptor is free. -/
theorem Sound.drop (sound : Sound boot l k) (split : l.buckets = front ++ b :: back)
    {word₁ chain₁ : Nat → Nat} {m : Memory}
    (chains : ∀ dir, Chained (next word₁) (chain₁ dir) ((l.drop b front back).chain dir))
    (spare : Chained (next word₁) k.freeBucketDesc l.spare)
    (changed : ∀ addr, (∀ q ∈ l.descs, addr ≠ q + 4) → word₁ addr = k.word addr)
    (taken : Taken boot (l.pages.erase b.page) m) :
    Sound boot (l.drop b front back)
        { mem := { m with word := setNext word₁ b.desc k.freeBucketDesc }
          chain := chain₁
          freeBucketDesc := b.desc } ∧
      ∀ addr, (∀ q ∈ l.descs, addr ≠ q + 4) →
        setNext word₁ b.desc k.freeBucketDesc addr = k.word addr := by
  have member := mem_of_split split
  have same : ∀ addr, (∀ q ∈ l.descs, addr ≠ q + 4) →
      setNext word₁ b.desc k.freeBucketDesc addr = k.word addr := fun addr off =>
    (Function.update_of_ne (off _ (l.desc_mem member)) ..).trans (changed addr off)
  have perm : (l.drop b front back).descs.Perm l.descs := by
    simp only [Layout.descs, Layout.drop, split, List.map_append, List.map_cons, List.append_assoc,
      List.cons_append]
    exact List.perm_middle.append_left _
  have pages : l.pages.Perm (b.page :: (l.drop b front back).pages) := by
    simp only [Layout.pages, Layout.drop, split, List.map_append, List.map_cons, List.append_assoc,
      List.cons_append]
    exact List.perm_middle
  have out : b.desc ∉ (front ++ back).map Bucket.desc := by
    have single := (List.nodup_append.mp sound.single).1
    rw [split, List.map_append, List.map_cons] at single
    rw [List.map_append]
    exact (List.nodup_cons.mp (List.nodup_middle.mp single)).1
  refine ⟨⟨fun c inside => ?_, fun dir => ?_, ?_, perm.nodup_iff.mpr sound.single,
    fun d inside => sound.inPages d (perm.mem_iff.mp inside), perm.length_eq.trans sound.count,
    (taken.perm ?_).words _⟩, same⟩
  · have own : c ∈ l.buckets := by
      rw [split]
      exact (List.sublist_cons_self b back).append_left front |>.subset inside
    have holds := sound.buckets c own
    refine holds.congr (fun o low other => same _ fun q start equal => ?_) fun s free =>
      same _ fun q start equal => ?_
    · exact other (desc_word_inj (sound.desc (l.desc_mem own)).1 (sound.desc start).1 low
        (by decide) equal).2
    · exact sound.kept_ne start (List.mem_append_left _ (List.mem_map_of_mem own))
        (holds.slot_inPage (List.mem_append_right c.used free)) 4 (by decide) equal
  · have apart : b.desc ∉ (l.drop b front back).chain dir := fun inside =>
      out ((List.filter_sublist.map Bucket.desc).subset inside)
    exact next_setNext .. ▸ (chains dir).update apart _
  · have apart : b.desc ∉ l.spare := fun both => (List.nodup_append.mp sound.single).2.2 b.desc
      (List.mem_map_of_mem member) b.desc both rfl
    exact next_setNext .. ▸ spare.push (sound.desc (l.desc_mem member)).2.1 apart
  · refine (pages.erase b.page).trans ?_
    rw [List.erase_cons_head]

theorem dropBucket_first {call : FreeCall} {m : Memory}
    (accurate : Malloc.accuratePrev call k = .ok 0) (head : k.chain call.dir = call.bdesc)
    (freed : freePage (BucketDesc.page k.word call.bdesc) k.mem = .ok m) :
    dropBucket call k = .ok
      { mem := { m with word := setNext m.word call.bdesc k.freeBucketDesc }
        chain := Function.update k.chain call.dir (next k.word call.bdesc)
        freeBucketDesc := call.bdesc } := by
  simp only [dropBucket, accurate, head, bind, Except.bind, ne_eq, not_true_eq_false, ↓reduceIte,
    Kernel.word] at freed ⊢
  rw [freed]

theorem dropBucket_later {call : FreeCall} {m : Memory} {q : Nat}
    (accurate : Malloc.accuratePrev call k = .ok q) (some : q ≠ 0)
    (freed : freePage (BucketDesc.page (setNext k.word q (next k.word call.bdesc)) call.bdesc)
      { k.mem with word := setNext k.word q (next k.word call.bdesc) } = .ok m) :
    dropBucket call k = .ok
      { mem := { m with word := setNext m.word call.bdesc k.freeBucketDesc }
        chain := k.chain
        freeBucketDesc := call.bdesc } := by
  simp only [dropBucket, accurate, some, bind, Except.bind, ne_eq, not_false_eq_true, ↓reduceIte,
    Kernel.word, Kernel.setWord] at freed ⊢
  rw [freed]

/-- A bucket without objects in use goes, and its page with it. -/
theorem Sound.dropBucket (booted : Booted boot) (sound : Sound boot l k)
    (split : l.buckets = front ++ b :: back) {call : FreeCall} (dir : call.dir = b.dir)
    (bdesc : call.bdesc = b.desc) (prev : call.prev = 0 ∨ call.prev ∈ l.descs) :
    ∃ k', Malloc.dropBucket call k = .ok k' ∧ Sound boot (l.drop b front back) k' ∧
      Kept l k k' := by
  have member := mem_of_split split
  have single := sound.chain_single b.dir
  have kept : ∀ k' : Kernel, (∀ addr, (∀ q ∈ l.descs, addr ≠ q + 4) → k'.word addr = k.word addr) →
      Kept l k k' := fun k' same p page addr inside =>
    same addr fun q start => sound.kept_ne start page inside 4 (by decide)
  obtain ⟨q, accurate, ⟨rfl, head⟩ | ⟨some, before, behind, whole⟩⟩ :=
    sound.accuratePrev member dir bdesc prev
  · obtain ⟨m, freed, taken, words⟩ := sound.taken.give booted (l.page_mem member)
    have chains : ∀ d, Chained (next k.word)
        (Function.update k.chain b.dir (next k.word b.desc) d) ((l.drop b front back).chain d) := by
      intro d
      by_cases same : d = b.dir
      · subst same
        have chain := sound.chains b.dir
        rw [sound.chain_drop split, Function.update_self]
        cases whole : l.chain b.dir with
        | nil => exact absurd (l.mem_chain_self member) (whole ▸ List.not_mem_nil)
        | cons r rest =>
          rw [whole, head] at chain
          obtain ⟨rfl, -, later⟩ := chain
          rw [List.erase_cons_head]
          exact later
      · rw [chain_drop_of_ne split same, Function.update_of_ne same]
        exact sound.chains d
    obtain ⟨sound', same⟩ := sound.drop split chains sound.spare (fun addr _ => rfl) taken
    have result := dropBucket_first accurate (by rw [dir, bdesc, head])
      (by rw [bdesc, (sound.buckets b member).page]; exact freed)
    rw [words, dir, bdesc] at result
    exact ⟨_, result, sound', kept _ same⟩
  · let word₁ := setNext k.word q (next k.word b.desc)
    have inChain : q ∈ l.chain b.dir := whole ▸ List.mem_append_right _ (List.mem_cons_self ..)
    have start : q ∈ l.descs := l.chain_subset b.dir q inChain
    obtain ⟨m, freed, taken, words⟩ := (sound.taken.words word₁).give booted (l.page_mem member)
    have chains : ∀ d, Chained (next word₁) (k.chain d) ((l.drop b front back).chain d) := by
      intro d
      rw [show next word₁ = Function.update (next k.word) q (next k.word b.desc) from
        next_setNext ..]
      by_cases same : d = b.dir
      · subst same
        have chain := sound.chains b.dir
        have without : (before ++ q :: b.desc :: behind).erase b.desc = before ++ q :: behind := by
          rw [whole] at single
          have moved : before ++ q :: b.desc :: behind = (before ++ [q]) ++ b.desc :: behind := by
            rw [List.append_assoc, List.singleton_append]
          rw [moved] at single ⊢
          rw [erase_middle single, List.append_assoc, List.singleton_append]
        rw [sound.chain_drop split, whole, without]
        rw [whole] at chain single
        exact chain.unlink single
      · rw [chain_drop_of_ne split same]
        refine (sound.chains d).update (fun other => same ?_) _
        obtain ⟨c, own, desc, rfl⟩ := l.mem_chain other
        obtain ⟨e, there, desc', dir'⟩ := l.mem_chain inChain
        rw [sound.desc_inj own there (desc.trans desc'.symm), dir']
    have apart : q ∉ l.spare := by
      intro both
      obtain ⟨c, own, rfl, -⟩ := l.mem_chain inChain
      exact (List.nodup_append.mp sound.single).2.2 c.desc (List.mem_map_of_mem own) c.desc both rfl
    obtain ⟨sound', same⟩ := sound.drop split chains
      (next_setNext .. ▸ sound.spare.update apart _)
      (fun addr off => Function.update_of_ne (off q start) ..) taken
    have page : BucketDesc.page word₁ b.desc = b.page := by
      refine (Function.update_of_ne (fun equal => ?_) ..).trans (sound.buckets b member).page
      exact absurd (desc_word_inj (sound.desc (l.desc_mem member)).1 (sound.desc start).1
        (by decide : 0 < descSize) (by decide) equal).2 (by decide)
    have result := dropBucket_later accurate some (m := m)
      (by rw [bdesc]; exact page.symm ▸ freed)
    rw [words, bdesc] at result
    exact ⟨_, result, sound', kept _ same⟩

/-- What `free_s` does to a layout. -/
structure Gives (l l' : Layout) (obj : Nat) : Prop where
  used : l.used.Perm (obj :: l'.used)
  kept : ∀ s desc page d, l.Uses s desc page d → s ≠ obj → l'.Uses s desc page d
  busy : l.Busy → l'.Busy
  descs : ∀ d ∈ l.descs, d ∈ l'.descs
  others : l'.others = l.others
  fewer : l'.buckets.length ≤ l.buckets.length
  pages : l'.descPages = l.descPages

/-- The layout when the object is free, but its bucket is still there. -/
def Layout.put (l : Layout) (b : Bucket) (front back : List Bucket) (obj : Nat) : Layout :=
  { l with buckets := front ++ { b with used := b.used.erase obj, free := obj :: b.free } :: back }

/-- The words behind the first part of `free_s`. -/
def putWord (word : Nat → Nat) (bdesc obj : Nat) : Nat → Nat :=
  let word := Function.update word obj (freeptr word bdesc)
  let word := setFreeptr word bdesc obj
  setRefcnt word bdesc (refcnt word bdesc + 65535)

/-- An object is put in front of the free ones. -/
theorem Sound.put (sound : Sound boot l k) (split : l.buckets = front ++ b :: back) {obj : Nat}
    (used : obj ∈ b.used) :
    Sound boot (l.put b front back obj) (k.setWord (putWord k.word b.desc obj)) ∧
      ∀ p ∈ l.buckets.map Bucket.page ++ l.others, ∀ addr, InPage p addr → addr ≠ obj →
        putWord k.word b.desc obj addr = k.word addr := by
  have member := mem_of_split split
  have own := List.mem_append_left l.others (List.mem_map_of_mem (f := Bucket.page) member)
  have holds := sound.buckets b member
  have inside := holds.slot_inPage (List.mem_append_left b.free used)
  have single := holds.single
  have apart : obj ∉ b.free := fun free => (List.nodup_append.mp single).2.2 obj used obj free rfl
  have some : obj ≠ 0 := by
    have low := sound.taken.low (l.page_mem member)
    unfold InPage LOW_MEM at *
    omega
  have ne := sound.kept_ne (l.desc_mem member) own inside
  let word₁ := Function.update k.word obj (freeptr k.word b.desc)
  have first : ∀ o < descSize, word₁ (b.desc + o) = k.word (b.desc + o) := fun o low =>
    Function.update_of_ne (ne o low).symm ..
  have kept : ∀ addr, addr ≠ b.desc + 8 → addr ≠ b.desc + 12 →
      putWord k.word b.desc obj addr = word₁ addr := fun addr o₈ o₁₂ =>
    (Function.update_of_ne o₁₂ ..).trans (Function.update_of_ne o₈ ..)
  have outside : ∀ p ∈ l.buckets.map Bucket.page ++ l.others, ∀ addr, InPage p addr →
      putWord k.word b.desc obj addr = word₁ addr := by
    intro p page addr here
    have off := sound.kept_ne (l.desc_mem member) page here
    exact kept addr (off 8 (by decide)) (off 12 (by decide))
  have holds' : Bucket.Holds (putWord k.word b.desc obj)
      { b with used := b.used.erase obj, free := obj :: b.free } := by
    refine ⟨?_, ?_, ?_, ?_, holds.dir⟩
    · have same : putWord k.word b.desc obj b.desc = word₁ b.desc :=
        kept b.desc (by omega) (by omega)
      exact same.trans ((first 0 (by decide)).trans holds.page)
    · have head : freeptr (putWord k.word b.desc obj) b.desc = obj := by
        simp only [putWord, freeptr_setRefcnt, freeptr_setFreeptr]
      have list : Chained word₁ obj (obj :: b.free) := holds.list.push some apart
      rw [head]
      refine list.congr fun q free => ?_
      refine outside _ own q ?_
      rcases List.mem_cons.mp free with rfl | free
      · exact inside
      · exact holds.slot_inPage (List.mem_append_right b.used free)
    · have before : refcnt word₁ b.desc = b.used.length := by
        rw [refcnt, first 12 (by decide)]
        exact holds.count
      have small := refcnt_lt word₁ b.desc
      have positive := List.length_pos_of_mem used
      simp only [putWord, refcnt_setRefcnt, refcnt_setFreeptr]
      rw [show refcnt (Function.update k.word obj (freeptr k.word b.desc)) b.desc =
        b.used.length from before, List.length_erase_of_mem used]
      omega
    · exact List.perm_middle.trans
        (((List.perm_cons_erase used).symm.append_right b.free).trans holds.slots)
  refine ⟨sound.update split rfl rfl rfl (fun addr o₈ o₁₂ page => ?_) holds',
    fun p page addr here other => ?_⟩
  · have other : addr ≠ obj := by
      rintro rfl
      exact page inside
    exact (kept addr o₈ o₁₂).trans (Function.update_of_ne other ..)
  · exact (outside p page addr here).trans (Function.update_of_ne other ..)

theorem Layout.put_descs (split : l.buckets = front ++ b :: back) (obj : Nat) :
    (l.put b front back obj).descs = l.descs := by
  simp only [Layout.descs, Layout.put, split, List.map_append, List.map_cons]

/-- The other objects stay where they are. -/
theorem gives_put (split : l.buckets = front ++ b :: back) {obj : Nat} (used : obj ∈ b.used)
    (some : b.used.erase obj ≠ []) : Gives l (l.put b front back obj) obj where
  used := by
    rw [Layout.used, Layout.used, split, Layout.put, List.flatMap_append, List.flatMap_append,
      List.flatMap_cons, List.flatMap_cons]
    refine (((List.perm_cons_erase used).append_right _).append_left _).trans ?_
    exact List.perm_middle
  kept := by
    rintro s desc page d ⟨c, member, inside, facts⟩ other
    rw [split, List.mem_append, List.mem_cons] at member
    rcases member with left | rfl | right
    · exact ⟨c, List.mem_append_left _ left, inside, facts⟩
    · exact ⟨_, List.mem_append_right _ (List.mem_cons_self ..),
        (List.mem_erase_of_ne other).mpr inside, facts⟩
    · exact ⟨c, List.mem_append_right _ (List.mem_cons_of_mem _ right), inside, facts⟩
  busy := by
    intro busy c member
    have all : ∀ c ∈ l.buckets, c.used ≠ [] := busy
    rw [split] at all
    rw [Layout.put, List.mem_append, List.mem_cons] at member
    rcases member with left | rfl | right
    · exact all c (List.mem_append_left _ left)
    · exact some
    · exact all c (List.mem_append_right _ (List.mem_cons_of_mem _ right))
  descs := fun d member => (Layout.put_descs split obj).symm ▸ member
  others := rfl
  fewer := by
    rw [split, Layout.put, List.length_append, List.length_append]
    exact Nat.le_refl _
  pages := rfl

/-- And when the bucket goes with its last object. -/
theorem gives_drop (split : l.buckets = front ++ b :: back) {obj : Nat} (only : b.used = [obj]) :
    Gives l (l.drop b front back) obj where
  used := by
    rw [Layout.used, Layout.used, split, Layout.drop, List.flatMap_append, List.flatMap_append,
      List.flatMap_cons, only]
    exact List.perm_middle
  kept := by
    rintro s desc page d ⟨c, member, inside, facts⟩ other
    rw [split, List.mem_append, List.mem_cons] at member
    rcases member with left | rfl | right
    · exact ⟨c, List.mem_append_left _ left, inside, facts⟩
    · rw [only, List.mem_singleton] at inside
      exact absurd inside other
    · exact ⟨c, List.mem_append_right _ right, inside, facts⟩
  busy := by
    intro busy c member
    refine busy c ?_
    rw [split]
    rw [Layout.drop, List.mem_append] at member
    rcases member with left | right
    · exact List.mem_append_left _ left
    · exact List.mem_append_right _ (List.mem_cons_of_mem _ right)
  descs := by
    have perm : l.descs.Perm (l.drop b front back).descs := by
      simp only [Layout.descs, Layout.drop, split, List.map_append, List.map_cons,
        List.append_assoc, List.cons_append]
      exact (List.perm_middle.append_left _).symm
    exact fun d member => perm.mem_iff.mp member
  others := rfl
  fewer := by
    rw [split, Layout.drop, List.length_append, List.length_append, List.length_cons]
    omega
  pages := rfl

/-- `free_s` from `found` on takes the object back, whatever was done since the search. -/
theorem Sound.freeFound (booted : Booted boot) (sound : Sound boot l k) {call : FreeCall}
    {page : Nat} (uses : l.Uses call.obj call.bdesc page call.dir)
    (prev : call.prev = 0 ∨ call.prev ∈ l.descs) :
    ∃ k' l', Malloc.freeFound call k = .ok k' ∧ Sound boot l' k' ∧ Gives l l' call.obj ∧
      ∀ p ∈ l.buckets.map Bucket.page ++ l.others, ∀ addr, InPage p addr → addr ≠ call.obj →
        k'.word addr = k.word addr := by
  obtain ⟨b, member, used, desc, -, dir⟩ := uses
  obtain ⟨front, back, split⟩ := List.append_of_mem member
  obtain ⟨sound₁, kept⟩ := sound.put split used
  have start : Malloc.freeFound call k =
      if refcnt (putWord k.word call.bdesc call.obj) call.bdesc = 0 then
        Malloc.dropBucket call (k.setWord (putWord k.word call.bdesc call.obj))
      else .ok (k.setWord (putWord k.word call.bdesc call.obj)) := rfl
  have inside : { b with used := b.used.erase call.obj, free := call.obj :: b.free } ∈
      (l.put b front back call.obj).buckets :=
    List.mem_append_right _ (List.mem_cons_self ..)
  have count := (sound₁.buckets _ inside).count
  rw [← desc] at start
  by_cases none : b.used.erase call.obj = []
  · have only : b.used = [call.obj] := by
      have perm := List.perm_cons_erase used
      rw [none] at perm
      exact List.perm_singleton.mp perm
    have zero : refcnt (putWord k.word b.desc call.obj) b.desc = 0 :=
      count.trans (List.length_eq_zero_iff.mpr none)
    have whole : (l.put b front back call.obj).buckets =
        front ++ { b with used := b.used.erase call.obj, free := call.obj :: b.free } :: back := rfl
    obtain ⟨k', dropped, sound', same⟩ := sound₁.dropBucket booted whole dir.symm
      desc.symm (by rw [Layout.put_descs split]; exact prev)
    refine ⟨k', l.drop b front back, start.trans ((if_pos zero).trans dropped), sound',
      gives_drop split only, fun p page addr here other => ?_⟩
    rw [← kept p page addr here other]
    refine same p ?_ addr here
    rw [split] at page
    simpa only [Layout.put, List.map_append, List.map_cons] using page
  · have positive : refcnt (putWord k.word b.desc call.obj) b.desc ≠ 0 := fun zero =>
      none (List.length_eq_zero_iff.mp (count.symm.trans zero))
    exact ⟨_, _, start.trans (if_neg positive), sound₁, gives_put split used none, kept⟩

end Drop

end Ct.Linux.Malloc
