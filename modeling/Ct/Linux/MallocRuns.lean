import Ct.Linux.MallocFree
import Mathlib.Data.List.Dedup

set_option autoImplicit false

namespace Ct.Linux.Malloc

/-- An object that was handed out, and the words that its owner has written to it since, by their
offsets. -/
structure Object where
  addr : Nat
  len : Nat
  words : Nat → Option Nat

/-- The kernel, the objects that are in use, the calls of `free_s` that other code has interrupted
at `found`, and the pages that other parts of the kernel have taken. -/
structure World where
  kernel : Kernel
  live : List Object
  calls : List FreeCall
  others : List Nat
  /-- the most pages that have held objects at a time -/
  peak : Nat

inductive Op
  | malloc (len : Nat)
  | search (obj : Nat) (size : Int)
  | found (obj : Nat)
  | write (obj offset value : Nat)
  | getFreePage
  | freePage (page : Nat)
  | fill (page offset value : Nat)

/-- What has been handed out by `malloc` and not taken back by `free_s`. -/
def World.objects (w : World) : List Nat := w.live.map Object.addr ++ w.calls.map FreeCall.obj

/-- The numbers of the pages with objects. -/
def World.held (w : World) : List Nat := (w.objects.map fun obj => obj / PAGE_SIZE).dedup

def World.count (w : World) : World := { w with peak := max w.peak w.held.length }

/-- The word of the object at this address is written. -/
def Object.write (obj offset value : Nat) (o : Object) : Object :=
  if o.addr = obj then { o with words := Function.update o.words offset (some value) } else o

def step (w : World) : Op → Except Stop World
  | .malloc len => do
    let made ← malloc len w.kernel
    .ok { w with
      kernel := made.2
      live := { addr := made.1, len := len, words := fun _ => none } :: w.live }.count
  | .search obj size => do
    let call ← freeSearch obj size w.kernel
    .ok { w with live := w.live.filter fun o => decide (o.addr ≠ obj), calls := call :: w.calls }
  | .found obj =>
    match w.calls.find? fun call => decide (call.obj = obj) with
    | none => .ok w
    | some call => do
      let k ← freeFound call w.kernel
      .ok { w with kernel := k, calls := w.calls.filter fun call => decide (call.obj ≠ obj) }
  | .write obj offset value =>
    .ok { w with
      kernel := w.kernel.setWord (Function.update w.kernel.word (obj + offset) value)
      live := w.live.map (Object.write obj offset value) }
  | .getFreePage =>
    let got := Linux.getFreePage w.kernel.mem
    .ok { w with
      kernel := { w.kernel with mem := got.2 }
      others := if got.1 = 0 then w.others else got.1 :: w.others }
  | .freePage page => do
    let mem ← Linux.freePage page w.kernel.mem
    .ok { w with kernel := { w.kernel with mem := mem }, others := w.others.erase page }
  | .fill page offset value =>
    .ok { w with
      kernel := w.kernel.setWord (Function.update w.kernel.word (page + offset) value) }

/-- The callers free and write only what is theirs. -/
def Legal (w : World) : Op → Prop
  | .malloc _ | .getFreePage => True
  | .search obj size => ∃ o ∈ w.live, o.addr = obj ∧ size ≤ o.len
  | .found obj => ∃ call ∈ w.calls, call.obj = obj
  | .write obj offset _ => ∃ o ∈ w.live, o.addr = obj ∧ offset + 4 ≤ o.len ∧ 4 ∣ offset
  | .freePage page => page ∈ w.others
  | .fill page offset _ => page ∈ w.others ∧ offset + 4 ≤ PAGE_SIZE ∧ 4 ∣ offset

/-- The kernel when `main` has called `mem_init`. -/
def started (extMemK : Nat) (word : Nat → Nat) : World where
  kernel := { mem := mainMemory extMemK word, chain := fun _ => 0, freeBucketDesc := 0 }
  live := []
  calls := []
  others := []
  peak := 0

/-- The states that legal operations lead to, in any order. -/
inductive Reached (extMemK : Nat) (word : Nat → Nat) : World → Prop
  | start : Reached extMemK word (started extMemK word)
  | step {w w' : World} (op : Op) (before : Reached extMemK word w) (legal : Legal w op)
      (taken : step w op = .ok w') : Reached extMemK word w'

/-- The layout is that of the world. -/
structure Tracks (boot : Memory) (w : World) (l : Layout) : Prop where
  sound : Sound boot l w.kernel
  busy : l.Busy
  others : l.others = w.others
  used : l.used.Perm w.objects
  fits : ∀ o ∈ w.live, ∃ desc page dir, l.Uses o.addr desc page dir ∧ o.len ≤ bdirSize dir
  words : ∀ o ∈ w.live, ∀ offset v, o.words offset = some v →
    offset + 4 ≤ o.len ∧ w.kernel.word (o.addr + offset) = v
  calls : ∀ c ∈ w.calls, (∃ page, l.Uses c.obj c.bdesc page c.dir) ∧
    (c.prev = 0 ∨ c.prev ∈ l.descs)
  held : l.buckets.length ≤ w.peak
  pages : PAGE_SIZE / descSize * l.descPages.length < w.peak + PAGE_SIZE / descSize

section Objects

variable {boot : Memory} {l : Layout} {k : Kernel} {w : World}

/-- Two objects in use have no address in common. -/
theorem Sound.uses_apart (sound : Sound boot l k) {s t desc page dir desc' page' dir' : Nat}
    (here : l.Uses s desc page dir) (there : l.Uses t desc' page' dir') (addr : Nat)
    (inside : s ≤ addr ∧ addr < s + bdirSize dir) (other : t ≤ addr ∧ addr < t + bdirSize dir') :
    s = t := by
  obtain ⟨b, member, used, -, -, rfl⟩ := here
  obtain ⟨c, member', used', -, -, rfl⟩ := there
  have holds := sound.buckets b member
  have holds' := sound.buckets c member'
  have used := List.mem_append_left b.free used
  have used' := List.mem_append_left c.free used'
  have same : b = c := sound.page_inj member member'
    (sound.taken.apart (l.page_mem member) (l.page_mem member')
      (holds.inPage used inside.1 inside.2) (holds'.inPage used' other.1 other.2))
  subst same
  exact slots_apart (holds.mem_slots used) (holds.mem_slots used') inside other

theorem Sound.used_single (sound : Sound boot l k) : l.used.Nodup := by
  refine List.nodup_flatMap.mpr ⟨fun b member =>
    (List.nodup_append.mp (sound.buckets b member).single).1, ?_⟩
  have single : l.buckets.Nodup := (List.nodup_append.mp sound.taken.single).1.of_map
  refine single.pairwise_of_forall_ne fun b member c member' ne s used used' => ne ?_
  exact sound.page_inj member member' (sound.taken.apart (l.page_mem member) (l.page_mem member')
    ((sound.buckets b member).slot_inPage (List.mem_append_left _ used))
    ((sound.buckets c member').slot_inPage (List.mem_append_left _ used')))

/-- An object in use lies on the page of its bucket. -/
theorem Sound.uses_inPage (sound : Sound boot l k) {s desc page dir : Nat}
    (uses : l.Uses s desc page dir) (addr : Nat) (inside : s ≤ addr ∧ addr < s + bdirSize dir) :
    page ∈ l.buckets.map Bucket.page ++ l.others ∧ InPage page addr := by
  obtain ⟨b, member, used, -, rfl, rfl⟩ := uses
  exact ⟨List.mem_append_left _ (List.mem_map_of_mem member),
    (sound.buckets b member).inPage (List.mem_append_left _ used) inside.1 inside.2⟩

theorem page_number {p obj : Nat} (aligned : PAGE_SIZE ∣ p) (inside : InPage p obj) :
    obj / PAGE_SIZE = p / PAGE_SIZE := by
  unfold InPage PAGE_SIZE at *
  omega

/-- Every bucket holds an object, so there are as many buckets as pages with objects. -/
theorem Sound.held (sound : Sound boot l k) (busy : l.Busy) {objects : List Nat}
    (used : l.used.Perm objects) :
    (objects.map fun obj => obj / PAGE_SIZE).dedup.length = l.buckets.length := by
  have number : ∀ b ∈ l.buckets, ∀ obj ∈ b.used, obj / PAGE_SIZE = b.page / PAGE_SIZE :=
    fun b member obj inside => page_number (sound.taken.aligned (l.page_mem member))
      ((sound.buckets b member).slot_inPage (List.mem_append_left _ inside))
  have single : (l.buckets.map fun b => b.page / PAGE_SIZE).Nodup := by
    refine List.Nodup.map_on (fun b member c member' same => sound.page_inj member member' ?_)
      (List.nodup_append.mp sound.taken.single).1.of_map
    have aligned := sound.taken.aligned (l.page_mem member)
    have aligned' := sound.taken.aligned (l.page_mem member')
    unfold PAGE_SIZE at *
    omega
  have perm : (objects.map fun obj => obj / PAGE_SIZE).dedup.Perm
      (l.buckets.map fun b => b.page / PAGE_SIZE) := by
    refine (List.perm_ext_iff_of_nodup (List.nodup_dedup _) single).mpr fun n => ?_
    rw [List.mem_dedup, List.mem_map, List.mem_map]
    constructor
    · rintro ⟨obj, member, rfl⟩
      obtain ⟨b, own, inside⟩ := List.mem_flatMap.mp (used.mem_iff.mpr member)
      exact ⟨b, own, (number b own obj inside).symm⟩
    · rintro ⟨b, own, rfl⟩
      obtain ⟨obj, inside⟩ := List.exists_mem_of_ne_nil _ (busy b own)
      exact ⟨obj, used.mem_iff.mp (List.mem_flatMap.mpr ⟨b, own, inside⟩), number b own obj inside⟩
  rw [perm.length_eq, List.length_map]

/-- The pages of other parts change, and the memory outside the pages of the allocator. -/
theorem Sound.reframe (sound : Sound boot l k) (others : List Nat) {m : Memory}
    (taken : Taken boot ({ l with others := others } : Layout).pages m)
    (kept : ∀ p ∈ l.buckets.map Bucket.page ++ l.descPages, ∀ addr, InPage p addr →
      m.word addr = k.word addr) :
    Sound boot { l with others := others } { k with mem := m } := by
  have descs : ∀ d ∈ l.descs, ∀ o < descSize, m.word (d + o) = k.word (d + o) := by
    intro d member o low
    obtain ⟨-, -, p, page, inside⟩ := sound.desc member
    exact kept p (List.mem_append_right _ page) _ (inside o low)
  refine ⟨fun b member => ?_, fun dir => ?_, ?_, sound.single, sound.inPages, sound.count, taken⟩
  · refine (sound.buckets b member).congr (fun o low _ => descs _ (l.desc_mem member) o low)
      fun s free => ?_
    exact kept b.page (List.mem_append_left _ (List.mem_map_of_mem member)) s
      ((sound.buckets b member).slot_inPage (List.mem_append_right _ free))
  · exact (sound.chains dir).congr fun d member =>
      descs d (l.chain_subset dir d member) 4 (by decide)
  · exact sound.spare.congr fun d member => descs d (List.mem_append_right _ member) 4 (by decide)

/-- A word of an object in use may be written. -/
theorem Sound.write (sound : Sound boot l k) {s desc page dir addr : Nat}
    (uses : l.Uses s desc page dir) (inside : s ≤ addr ∧ addr < s + bdirSize dir) (value : Nat) :
    Sound boot l (k.setWord (Function.update k.word addr value)) := by
  obtain ⟨b, member, used, rfl, rfl, rfl⟩ := uses
  obtain ⟨front, back, split⟩ := List.append_of_mem member
  have holds := sound.buckets b member
  have here := List.mem_append_left b.free used
  have own := holds.inPage here inside.1 inside.2
  have ne := sound.kept_ne (l.desc_mem member)
    (List.mem_append_left _ (List.mem_map_of_mem member)) own
  have changed : ∀ a, a ≠ b.desc + 8 → a ≠ b.desc + 12 → ¬ InPage b.page a →
      Function.update k.word addr value a = k.word a := by
    intro a _ _ off
    refine Function.update_of_ne ?_ ..
    rintro rfl
    exact off own
  have free : ∀ t ∈ b.free, Function.update k.word addr value t = k.word t := by
    intro t free
    refine Function.update_of_ne ?_ ..
    rintro rfl
    have positive := (bdirSize_facts b.dir holds.dir).2.1
    have same : s = t := slots_apart (holds.mem_slots here)
      (holds.mem_slots (List.mem_append_right _ free)) inside ⟨Nat.le_refl t, by omega⟩
    exact (List.nodup_append.mp holds.single).2.2 s used t free same
  have sound' := sound.update split rfl rfl rfl changed
    (holds.congr (fun o low _ => Function.update_of_ne (ne o low).symm ..) free)
  rw [← split] at sound'
  exact sound'

end Objects

section Steps

variable {boot : Memory} {l : Layout} {w : World}

theorem tracks_start (boot : Memory) :
    Tracks boot { kernel := { mem := boot, chain := fun _ => 0, freeBucketDesc := 0 }
                  live := [], calls := [], others := [], peak := 0 }
      { buckets := [], spare := [], descPages := [], others := [] } where
  sound := ⟨fun _ member => absurd member List.not_mem_nil, fun _ => rfl, rfl, List.nodup_nil,
    fun _ member => absurd member List.not_mem_nil, rfl, taken_boot boot⟩
  busy := fun _ member => absurd member List.not_mem_nil
  others := rfl
  used := List.Perm.refl _
  fits := fun _ member => absurd member List.not_mem_nil
  words := fun _ member => absurd member List.not_mem_nil
  calls := fun _ member => absurd member List.not_mem_nil
  held := Nat.le_refl 0
  pages := (by decide : PAGE_SIZE / descSize * 0 < 0 + PAGE_SIZE / descSize)

theorem Tracks.single (tracks : Tracks boot w l) : w.objects.Nodup :=
  tracks.used.nodup_iff.mp tracks.sound.used_single

/-- The word of an object that is in use stays when its page is kept. -/
theorem Tracks.word_inPage (tracks : Tracks boot w l) {o : Object} (member : o ∈ w.live)
    {offset : Nat} (low : offset + 4 ≤ o.len) :
    ∃ p ∈ l.buckets.map Bucket.page ++ l.others, InPage p (o.addr + offset) := by
  obtain ⟨desc, page, dir, uses, fits⟩ := tracks.fits o member
  have inside := tracks.sound.uses_inPage uses (o.addr + offset)
    ⟨Nat.le_add_right .., by omega⟩
  exact ⟨page, inside⟩

/-- An object is handed out, or `malloc` stops the kernel. -/
theorem Tracks.malloc (tracks : Tracks boot w l) (len : Nat) :
    (∃ s, step w (.malloc len) = .error s ∧
        (4096 < len ∧ s = .panic "malloc: bad arg" ∨
          len ≤ 4096 ∧ w.kernel.mem.memMap.count 0 ≤ 1 ∧ OutOfMemory s)) ∨
      ∃ w' l', step w (.malloc len) = .ok w' ∧ Tracks boot w' l' := by
  rcases tracks.sound.malloc len with ⟨large, failed⟩ | ⟨small, ⟨count, s, failed, text⟩ |
    ⟨obj, k', l', dir, made, sound', takes, fits, kept⟩⟩
  · exact Or.inl ⟨_, by rw [step, failed]; rfl, Or.inl ⟨large, rfl⟩⟩
  · exact Or.inl ⟨s, by rw [step, failed]; rfl, Or.inr ⟨small, count, text⟩⟩
  · let w' : World := { w with
      kernel := k'
      live := { addr := obj, len := len, words := fun _ => none } :: w.live }
    have used : l'.used.Perm w'.objects := takes.used.trans (tracks.used.cons obj)
    have held : l'.buckets.length ≤ w'.count.peak :=
      Nat.le_trans (Nat.le_of_eq (sound'.held (takes.busy tracks.busy) used).symm)
        (Nat.le_max_right ..)
    refine Or.inr ⟨w'.count, l', by rw [step, made]; rfl, ⟨sound', takes.busy tracks.busy,
      takes.others.trans tracks.others, used, ?_, ?_, ?_, held, ?_⟩⟩
    · refine List.forall_mem_cons.mpr ⟨?_, fun o member => ?_⟩
      · obtain ⟨desc, page, uses⟩ := takes.uses
        exact ⟨desc, page, dir, uses, fits⟩
      · obtain ⟨desc, page, d, uses, fits⟩ := tracks.fits o member
        exact ⟨desc, page, d, takes.kept _ _ _ _ uses, fits⟩
    · refine List.forall_mem_cons.mpr
        ⟨fun offset v written => ?_, fun o member offset v written => ?_⟩
      · cases written
      obtain ⟨low, value⟩ := tracks.words o member offset v written
      obtain ⟨p, page, inside⟩ := tracks.word_inPage member low
      exact ⟨low, (kept p page _ inside).trans value⟩
    · intro c member
      obtain ⟨⟨page, uses⟩, prev⟩ := tracks.calls c member
      exact ⟨⟨page, takes.kept _ _ _ _ uses⟩, prev.imp_right fun inside => takes.descs _ inside⟩
    · have grown : w.peak ≤ w'.count.peak := Nat.le_max_left ..
      have before := tracks.pages
      rcases takes.pages with same | new
      · have := Nat.mul_le_mul_left (PAGE_SIZE / descSize) same
        omega
      · omega

/-- Without one of its elements a list of different keys has the other keys. -/
theorem perm_filter {α : Type} {f : α → Nat} {xs : List α} (single : (xs.map f).Nodup) {x : α}
    (member : x ∈ xs) :
    (xs.map f).Perm (f x :: (xs.filter fun y => decide (f y ≠ f x)).map f) := by
  have perm := List.perm_cons_erase (List.mem_map_of_mem (f := f) member)
  have same : (fun y => decide (f y ≠ f x)) = (fun v => v != f x) ∘ f := by
    funext y
    rw [Function.comp_apply, bne, Bool.eq_iff_iff]
    simp
  rw [single.erase_eq_filter, List.filter_map] at perm
  rw [same]
  exact perm

/-- `free_s` finds the bucket of the object. -/
theorem Tracks.search (booted : Booted boot) (tracks : Tracks boot w l) {obj : Nat} {size : Int}
    (legal : Legal w (.search obj size)) :
    ∃ w', step w (.search obj size) = .ok w' ∧ Tracks boot w' l := by
  obtain ⟨o, member, rfl, small⟩ := legal
  obtain ⟨desc, page, dir, ⟨b, inside, used, rfl, rfl, rfl⟩, fits⟩ := tracks.fits o member
  obtain ⟨prev, found, place⟩ := tracks.sound.freeSearch booted inside used
    (show size ≤ bdirSize b.dir by omega)
  let w' : World := { w with
    live := w.live.filter fun o' => decide (o'.addr ≠ o.addr)
    calls := { obj := o.addr, dir := b.dir, prev := prev, bdesc := b.desc } :: w.calls }
  refine ⟨w', by rw [step, found]; rfl, ⟨tracks.sound, tracks.busy, tracks.others, ?_, ?_, ?_, ?_,
    tracks.held, tracks.pages⟩⟩
  · have perm := perm_filter (List.nodup_append.mp tracks.single).1 member
    refine tracks.used.trans ((perm.append_right _).trans ?_)
    exact List.perm_middle.symm
  · exact fun o' rest => tracks.fits o' (List.mem_of_mem_filter rest)
  · exact fun o' rest => tracks.words o' (List.mem_of_mem_filter rest)
  · exact List.forall_mem_cons.mpr
      ⟨⟨⟨b.page, b, inside, used, rfl, rfl, rfl⟩, place⟩, tracks.calls⟩

/-- And takes the object back, whatever has been done in between. -/
theorem Tracks.found (booted : Booted boot) (tracks : Tracks boot w l) {obj : Nat}
    (legal : Legal w (.found obj)) :
    ∃ w' l', step w (.found obj) = .ok w' ∧ Tracks boot w' l' := by
  obtain ⟨call, sought⟩ : ∃ call, w.calls.find? (fun c => decide (c.obj = obj)) = some call := by
    obtain ⟨call, member, same⟩ := legal
    exact Option.isSome_iff_exists.mp (List.find?_isSome.mpr ⟨call, member, decide_eq_true same⟩)
  have member := List.mem_of_find?_eq_some sought
  have passes := List.find?_some sought
  obtain rfl : call.obj = obj := of_decide_eq_true passes
  obtain ⟨⟨page, uses⟩, prev⟩ := tracks.calls call member
  obtain ⟨k', l', freed, sound', gives, kept⟩ := tracks.sound.freeFound booted uses prev
  have single := List.nodup_append.mp tracks.single
  let w' : World := { w with
    kernel := k'
    calls := w.calls.filter fun c => decide (c.obj ≠ call.obj) }
  have other : ∀ o ∈ w.live, o.addr ≠ call.obj := fun o inside =>
    single.2.2 _ (List.mem_map_of_mem inside) _ (List.mem_map_of_mem member)
  refine ⟨w', l', by rw [step, sought]; exact congrArg (· >>= _) freed,
    ⟨sound', gives.busy tracks.busy,
    gives.others.trans tracks.others, ?_, fun o inside => ?_, fun o inside offset v written => ?_,
    fun c inside => ?_, Nat.le_trans gives.fewer tracks.held, gives.pages.symm ▸ tracks.pages⟩⟩
  · have perm := perm_filter single.2.1 member
    refine List.Perm.cons_inv (gives.used.symm.trans (tracks.used.trans ?_))
    exact (perm.append_left _).trans List.perm_middle
  · obtain ⟨desc, page, dir, uses, fits⟩ := tracks.fits o inside
    exact ⟨desc, page, dir, gives.kept _ _ _ _ uses (other o inside), fits⟩
  · obtain ⟨low, value⟩ := tracks.words o inside offset v written
    obtain ⟨desc, page', dir, own, fits⟩ := tracks.fits o inside
    have place := tracks.sound.uses_inPage own (o.addr + offset)
      ⟨Nat.le_add_right .., by omega⟩
    refine ⟨low, (kept page' place.1 _ place.2 fun same => other o inside ?_).trans value⟩
    have positive : 0 < bdirSize call.dir := by
      obtain ⟨b, inB, -, -, -, dir_eq⟩ := uses
      rw [← dir_eq]
      exact (bdirSize_facts b.dir (tracks.sound.buckets b inB).dir).2.1
    exact tracks.sound.uses_apart own uses (o.addr + offset)
      ⟨Nat.le_add_right .., by omega⟩ ⟨by omega, by omega⟩
  · obtain ⟨inside, ne⟩ := List.mem_filter.mp inside
    obtain ⟨⟨page, uses⟩, prev⟩ := tracks.calls c inside
    exact ⟨⟨page, gives.kept _ _ _ _ uses (of_decide_eq_true ne)⟩,
      prev.imp_right fun inside => gives.descs _ inside⟩

theorem Object.write_addr (obj offset value : Nat) (o : Object) :
    (o.write obj offset value).addr = o.addr := by
  unfold Object.write
  split <;> rfl

theorem Object.write_len (obj offset value : Nat) (o : Object) :
    (o.write obj offset value).len = o.len := by
  unfold Object.write
  split <;> rfl

theorem Object.write_words (o : Object) (offset value : Nat) :
    (o.write o.addr offset value).words = Function.update o.words offset (some value) := by
  rw [Object.write, if_pos rfl]

/-- The owner of an object writes a word of it. -/
theorem Tracks.write (tracks : Tracks boot w l) {obj offset value : Nat}
    (legal : Legal w (.write obj offset value)) :
    ∃ w', step w (.write obj offset value) = .ok w' ∧ Tracks boot w' l := by
  obtain ⟨o, member, rfl, low, -⟩ := legal
  obtain ⟨desc, page, dir, uses, fits⟩ := tracks.fits o member
  have inside : o.addr ≤ o.addr + offset ∧ o.addr + offset < o.addr + bdirSize dir :=
    ⟨Nat.le_add_right .., by omega⟩
  have map : (w.live.map (Object.write o.addr offset value)).map Object.addr =
      w.live.map Object.addr := by
    rw [List.map_map]
    exact List.map_congr_left fun o' _ => Object.write_addr o.addr offset value o'
  refine ⟨_, rfl, ⟨tracks.sound.write uses inside value, tracks.busy, tracks.others, ?_, ?_, ?_,
    tracks.calls, tracks.held, tracks.pages⟩⟩
  · rw [World.objects, map]
    exact tracks.used
  · intro o' inMap
    obtain ⟨o', old, rfl⟩ := List.mem_map.mp inMap
    rw [Object.write_addr, Object.write_len]
    exact tracks.fits o' old
  · intro o' inMap offset' v written
    obtain ⟨o', old, rfl⟩ := List.mem_map.mp inMap
    rw [Object.write_addr, Object.write_len]
    by_cases same : o'.addr = o.addr
    · obtain rfl : o' = o :=
        List.inj_on_of_nodup_map (List.nodup_append.mp tracks.single).1 old member same
      rw [Object.write_words] at written
      by_cases here : offset' = offset
      · subst here
        rw [Function.update_self, Option.some.injEq] at written
        exact ⟨low, written ▸ Function.update_self ..⟩
      · rw [Function.update_of_ne here] at written
        obtain ⟨low, value⟩ := tracks.words _ old offset' v written
        exact ⟨low, (Function.update_of_ne (by omega) ..).trans value⟩
    · rw [Object.write, if_neg same] at written
      obtain ⟨low, value⟩ := tracks.words _ old offset' v written
      refine ⟨low, (Function.update_of_ne (fun equal => same ?_) ..).trans value⟩
      obtain ⟨desc, page, dir, own, fits⟩ := tracks.fits o' old
      exact tracks.sound.uses_apart own uses (o'.addr + offset')
        ⟨Nat.le_add_right .., by omega⟩ (equal ▸ inside)

/-- Another part of the kernel takes a page. -/
theorem Tracks.getFreePage (tracks : Tracks boot w l) :
    ∃ w' l', step w .getFreePage = .ok w' ∧ Tracks boot w' l' := by
  cases tracks.sound.taken.get with
  | none empty =>
    refine ⟨w, l, ?_, tracks⟩
    rw [step, empty]
    rfl
  | page p m got taken outside =>
    have some : p ≠ 0 := by
      have low := taken.low (List.mem_cons_self ..)
      unfold LOW_MEM at low
      omega
    have fresh := (List.nodup_cons.mp taken.single).1
    have perm : (p :: l.pages).Perm ({ l with others := p :: l.others } : Layout).pages := by
      simp only [Layout.pages, ← List.append_assoc]
      exact List.perm_middle.symm
    have away : ∀ q ∈ l.pages, ∀ addr, InPage q addr → m.word addr = w.kernel.word addr := by
      intro q page addr inside
      refine outside addr (taken.outside (List.mem_cons_self ..)
        (List.mem_cons_of_mem _ page) (fun same => fresh (same ▸ page)) inside)
    have sound' := tracks.sound.reframe (p :: l.others) (taken.perm perm)
      fun q page => away q (l.own_mem page)
    refine ⟨{ w with kernel := { w.kernel with mem := m }, others := p :: w.others }, _, ?_,
      ⟨sound', tracks.busy, congrArg (p :: ·) tracks.others, tracks.used, tracks.fits,
        fun o member offset v written => ?_, tracks.calls, tracks.held, tracks.pages⟩⟩
    · rw [step, got]
      simp only [some, ↓reduceIte]
    · obtain ⟨low, value⟩ := tracks.words o member offset v written
      obtain ⟨q, page, inside⟩ := tracks.word_inPage member low
      exact ⟨low, (away q (Layout.kept_mem page) _ inside).trans value⟩

/-- And gives one back. -/
theorem Tracks.freePage (booted : Booted boot) (tracks : Tracks boot w l) {page : Nat}
    (legal : Legal w (.freePage page)) :
    ∃ w' l', step w (.freePage page) = .ok w' ∧ Tracks boot w' l' := by
  have member : page ∈ l.others := tracks.others.symm ▸ legal
  obtain ⟨m, freed, taken, words⟩ := tracks.sound.taken.give booted (l.other_mem member)
  have perm : (l.pages.erase page).Perm
      ({ l with others := l.others.erase page } : Layout).pages := by
    have split : l.pages.Perm
        (page :: ({ l with others := l.others.erase page } : Layout).pages) := by
      simp only [Layout.pages, ← List.append_assoc]
      exact ((List.perm_cons_erase member).append_left _).trans List.perm_middle
    refine (split.erase page).trans ?_
    rw [List.erase_cons_head]
  have sound' := tracks.sound.reframe (l.others.erase page) (taken.perm perm)
    fun q _ addr _ => congrFun words addr
  refine ⟨{ w with kernel := { w.kernel with mem := m }, others := w.others.erase page }, _,
    by rw [step, freed]; rfl, ⟨sound', tracks.busy, congrArg (List.erase · page) tracks.others,
      tracks.used, tracks.fits, fun o member offset v written => ?_, tracks.calls, tracks.held,
      tracks.pages⟩⟩
  obtain ⟨low, value⟩ := tracks.words o member offset v written
  exact ⟨low, (congrFun words _).trans value⟩

/-- And writes to one. -/
theorem Tracks.fill (tracks : Tracks boot w l) {page offset value : Nat}
    (legal : Legal w (.fill page offset value)) :
    ∃ w', step w (.fill page offset value) = .ok w' ∧ Tracks boot w' l := by
  obtain ⟨own, low, -⟩ := legal
  have member : page ∈ l.others := tracks.others.symm ▸ own
  have here : InPage page (page + offset) := ⟨Nat.le_add_right .., by omega⟩
  have single := (List.nodup_append.mp tracks.sound.taken.single)
  have away : ∀ q ∈ l.buckets.map Bucket.page ++ l.descPages, ∀ addr, InPage q addr →
      Function.update w.kernel.word (page + offset) value addr = w.kernel.word addr := by
    intro q inside addr there
    have ne : page ≠ q := by
      rintro rfl
      rcases List.mem_append.mp inside with bucket | desc
      · exact single.2.2 page bucket page (List.mem_append_right _ member) rfl
      · exact (List.nodup_append.mp single.2.1).2.2 page desc page member rfl
    refine Function.update_of_ne ?_ ..
    rintro rfl
    exact tracks.sound.taken.outside (l.other_mem member) (l.own_mem inside) ne
      there here
  have sound' := tracks.sound.reframe l.others
    (tracks.sound.taken.words (Function.update w.kernel.word (page + offset) value)) away
  refine ⟨_, rfl, ⟨sound', tracks.busy, tracks.others, tracks.used, tracks.fits,
    fun o member' offset' v written => ?_, tracks.calls, tracks.held, tracks.pages⟩⟩
  obtain ⟨low, value⟩ := tracks.words o member' offset' v written
  obtain ⟨desc, p, dir, uses, fits⟩ := tracks.fits o member'
  have place := tracks.sound.uses_inPage uses (o.addr + offset')
    ⟨Nat.le_add_right .., by omega⟩
  obtain ⟨b, inside, -, -, rfl, -⟩ := uses
  have own := List.mem_append_left l.descPages (List.mem_map_of_mem (f := Bucket.page) inside)
  exact ⟨low, (away b.page own _ place.2).trans value⟩

end Steps

section Runs

variable {boot : Memory} {l : Layout} {w : World} {extMemK : Nat} {word : Nat → Nat}

/-- A legal operation other than `malloc` is carried out. -/
theorem Tracks.step (booted : Booted boot) (tracks : Tracks boot w l) {op : Op} (legal : Legal w op)
    (other : ∀ len, op ≠ .malloc len) : ∃ w' l', Malloc.step w op = .ok w' ∧ Tracks boot w' l' := by
  cases op with
  | malloc len => exact absurd rfl (other len)
  | search obj size =>
    obtain ⟨w', taken, tracks'⟩ := tracks.search booted legal
    exact ⟨w', l, taken, tracks'⟩
  | found obj => exact tracks.found booted legal
  | write obj offset value =>
    obtain ⟨w', taken, tracks'⟩ := tracks.write legal
    exact ⟨w', l, taken, tracks'⟩
  | getFreePage => exact tracks.getFreePage
  | freePage page => exact tracks.freePage booted legal
  | fill page offset value =>
    obtain ⟨w', taken, tracks'⟩ := tracks.fill legal
    exact ⟨w', _, taken, tracks'⟩

/-- Every state that is reached has a layout. -/
theorem Reached.tracks (reached : Reached extMemK word w) :
    ∃ l, Tracks (mainMemory extMemK word) w l := by
  have booted := mainMemory_booted extMemK word
  induction reached with
  | start => exact ⟨_, tracks_start _⟩
  | step op before legal taken ih =>
    obtain ⟨l, tracks⟩ := ih
    by_cases malloc : ∃ len, op = .malloc len
    · obtain ⟨len, rfl⟩ := malloc
      rcases tracks.malloc len with ⟨s, failed, _⟩ | ⟨w'', l', made, tracks'⟩
      · rw [taken] at failed
        cases failed
      · rw [taken, Except.ok.injEq] at made
        exact ⟨l', made ▸ tracks'⟩
    · obtain ⟨w'', l', made, tracks'⟩ := tracks.step booted legal fun len same => malloc ⟨len, same⟩
      rw [taken, Except.ok.injEq] at made
      exact ⟨l', made ▸ tracks'⟩

/-- In no order of the operations does the allocator stop the kernel, but for a length above a page
or when at most one page is free. -/
theorem stops_only_in_malloc {op : Op} {s : Stop} (reached : Reached extMemK word w)
    (legal : Legal w op) (stopped : step w op = .error s) :
    ∃ len, op = .malloc len ∧ (4096 < len ∧ s = .panic "malloc: bad arg" ∨
      len ≤ 4096 ∧ w.kernel.mem.memMap.count 0 ≤ 1 ∧
        (s = .panic "Out of memory in init_bucket_desc()" ∨
          s = .panic "Out of memory in kernel malloc()")) := by
  obtain ⟨l, tracks⟩ := reached.tracks
  by_cases malloc : ∃ len, op = .malloc len
  · obtain ⟨len, rfl⟩ := malloc
    rcases tracks.malloc len with ⟨s', failed, why⟩ | ⟨w', l', made, -⟩
    · rw [stopped, Except.error.injEq] at failed
      exact ⟨len, rfl, failed ▸ why⟩
    · rw [stopped] at made
      cases made
  · obtain ⟨w', l', made, -⟩ := tracks.step (mainMemory_booted extMemK word) legal
      fun len same => malloc ⟨len, same⟩
    rw [stopped] at made
    cases made

theorem malloc_large (w : World) :
    step w (.malloc 5000) = .error (.panic "malloc: bad arg") := by
  have all : (sizes.findIdx fun size => decide (5000 ≤ size)) = sizes.length := by decide
  have refused : malloc 5000 w.kernel = .error (.panic "malloc: bad arg") := by
    rw [malloc, if_pos all]
  rw [step, refused]
  rfl

theorem stops_only_in_malloc_large : ∃ len, Op.malloc 5000 = .malloc len ∧
    (4096 < len ∧ Stop.panic "malloc: bad arg" = .panic "malloc: bad arg" ∨
      len ≤ 4096 ∧ (started 64 fun _ => 0).kernel.mem.memMap.count 0 ≤ 1 ∧
        (Stop.panic "malloc: bad arg" = .panic "Out of memory in init_bucket_desc()" ∨
          Stop.panic "malloc: bad arg" = .panic "Out of memory in kernel malloc()")) :=
  stops_only_in_malloc .start trivial (malloc_large (started 64 fun _ => 0))

/-- The addresses of an object. -/
def Object.Covers (o : Object) (addr : Nat) : Prop := o.addr ≤ addr ∧ addr < o.addr + o.len

/-- Whatever the order of the operations, objects in use have no address in common with one another
or with the pages of other parts of the kernel, and hold what their owners have written. -/
theorem objects_apart_and_kept (reached : Reached extMemK word w) :
    (w.live.map Object.addr).Nodup ∧
      (∀ o ∈ w.live, ∀ o' ∈ w.live, ∀ addr, o.Covers addr → o'.Covers addr → o = o') ∧
      (∀ o ∈ w.live, ∀ page ∈ w.others, ∀ addr, o.Covers addr → ¬ InPage page addr) ∧
      ∀ o ∈ w.live, ∀ offset v, o.words offset = some v →
        w.kernel.word (o.addr + offset) = v := by
  obtain ⟨l, tracks⟩ := reached.tracks
  have single := (List.nodup_append.mp tracks.single).1
  refine ⟨single, fun o member o' member' addr here there => ?_,
    fun o member page other addr here there => ?_, fun o member offset v written => ?_⟩
  · obtain ⟨desc, page, dir, uses, fits⟩ := tracks.fits o member
    obtain ⟨desc', page', dir', uses', fits'⟩ := tracks.fits o' member'
    refine List.inj_on_of_nodup_map single member member' ?_
    exact tracks.sound.uses_apart uses uses' addr ⟨here.1, by have := here.2; omega⟩
      ⟨there.1, by have := there.2; omega⟩
  · obtain ⟨desc, p, dir, uses, fits⟩ := tracks.fits o member
    have place := tracks.sound.uses_inPage uses addr ⟨here.1, by have := here.2; omega⟩
    obtain ⟨b, inside, -, -, rfl, -⟩ := uses
    have own : page ∈ l.others := tracks.others.symm ▸ other
    have same := tracks.sound.taken.apart (l.other_mem own) (l.page_mem inside) there place.2
    refine (List.nodup_append.mp tracks.sound.taken.single).2.2 b.page
      (List.mem_map_of_mem inside) page (List.mem_append_right _ own) same.symm
  · exact (tracks.words o member offset v written).2

theorem step_malloc {len : Nat} {w' : World} (made : step w (.malloc len) = .ok w') :
    ∃ addr, w'.live = { addr := addr, len := len, words := fun _ => none } :: w.live := by
  rw [step] at made
  cases result : malloc len w.kernel with
  | error s =>
    rw [result] at made
    cases made
  | ok found =>
    rw [result] at made
    cases made
    exact ⟨found.1, rfl⟩

theorem exists_reached : ∃ (w : World) (addr : Nat), Reached 64 (fun _ => 0) w ∧
    w.live = [{ addr := addr, len := 16, words := fun _ => none }] := by
  have free : (mainMemory 64 fun _ => 0).memMap.count 0 = 16 := by decide +kernel
  rcases (tracks_start (mainMemory 64 fun _ => 0)).malloc 16 with
    ⟨s, -, ⟨large, -⟩ | ⟨-, few, -⟩⟩ | ⟨w, l, made, -⟩
  · exact absurd large (by decide)
  · exact absurd few (by simp only [free]; decide)
  · obtain ⟨addr, live⟩ := step_malloc made
    exact ⟨w, addr, .step (.malloc 16) .start trivial made, live⟩

theorem objects_apart_and_kept_written : ∃ (w : World) (o : Object), w.live = [o] ∧
    o.words 0 = some 7 ∧ w.kernel.word (o.addr + 0) = 7 := by
  obtain ⟨w, addr, before, live⟩ := exists_reached
  have legal : Legal w (.write addr 0 7) :=
    ⟨_, live ▸ List.mem_cons_self .., rfl, (by decide : 4 ≤ 16), Nat.dvd_zero 4⟩
  have reached := Reached.step _ before legal rfl
  have only : w.live.map (Object.write addr 0 7) =
      [Object.write addr 0 7 { addr := addr, len := 16, words := fun _ => none }] := by
    rw [live]
    rfl
  have written : (Object.write addr 0 7
      { addr := addr, len := 16, words := fun _ => none }).words 0 = some 7 :=
    (congrFun (Object.write_words { addr := addr, len := 16, words := fun _ => none } 0 7) 0).trans
      (Function.update_self ..)
  exact ⟨_, _, only, written, (objects_apart_and_kept reached).2.2.2 _
    (only ▸ List.mem_cons_self ..) 0 7 written⟩

/-- A page is taken only while it holds an object or belongs to another part of the kernel, but for
one page of descriptors for each 256 pages that have held objects at a time. -/
theorem pages_come_back (reached : Reached extMemK word w) :
    ∃ descPages : List Nat, descPages.length ≤ (w.peak + 255) / 256 ∧
      (∀ p ∈ descPages, p ∉ w.others ∧ ∀ obj ∈ w.objects, ¬ InPage p obj) ∧
      ∀ nr, w.kernel.mem.memMap[nr]? =
        if pageAddr nr ∈ descPages ∨ pageAddr nr ∈ w.others ∨
            ∃ obj ∈ w.objects, InPage (pageAddr nr) obj then some 1
        else (mainMemory extMemK word).memMap[nr]? := by
  obtain ⟨l, tracks⟩ := reached.tracks
  have sound := tracks.sound
  have objects : ∀ p obj, obj ∈ w.objects → InPage p obj → p ∈ l.pages →
      p ∈ l.buckets.map Bucket.page := by
    intro p obj member inside page
    obtain ⟨b, own, used⟩ := List.mem_flatMap.mp (tracks.used.mem_iff.mpr member)
    have here := (sound.buckets b own).slot_inPage (List.mem_append_left _ used)
    rw [sound.taken.apart page (l.page_mem own) inside here]
    exact List.mem_map_of_mem own
  refine ⟨l.descPages, ?_, fun p desc => ⟨fun other => ?_, fun obj member inside => ?_⟩,
    fun nr => ?_⟩
  · have few := tracks.pages
    unfold PAGE_SIZE descSize at few
    omega
  · exact sound.other_not_desc (tracks.others.symm ▸ other) desc
  · obtain ⟨b, own, rfl⟩ := List.mem_map.mp (objects p obj member inside (l.descPage_mem desc))
    exact sound.page_not_desc own desc
  · rw [sound.taken.memMap nr]
    refine if_congr ?_ rfl rfl
    rw [Layout.pages, List.mem_append, List.mem_append, tracks.others]
    constructor
    · rintro (bucket | desc | other)
      · obtain ⟨b, own, page⟩ := List.mem_map.mp bucket
        obtain ⟨obj, used⟩ := List.exists_mem_of_ne_nil _ (tracks.busy b own)
        have member := tracks.used.mem_iff.mp (List.mem_flatMap.mpr ⟨b, own, used⟩)
        refine Or.inr (Or.inr ⟨obj, member, ?_⟩)
        exact page ▸ (sound.buckets b own).slot_inPage (List.mem_append_left _ used)
      · exact Or.inl desc
      · exact Or.inr (Or.inl other)
    · rintro (desc | other | ⟨obj, member, inside⟩)
      · exact Or.inr (Or.inl desc)
      · exact Or.inr (Or.inr other)
      · obtain ⟨b, own, used⟩ := List.mem_flatMap.mp (tracks.used.mem_iff.mpr member)
        have here := (sound.buckets b own).slot_inPage (List.mem_append_left _ used)
        obtain ⟨n, page, -⟩ := sound.taken.free b.page (l.page_mem own)
        rw [pageAddr_apart inside (page ▸ here), ← page]
        exact Or.inl (List.mem_map_of_mem own)

theorem pages_come_back_one : ∃ w : World, w.live.length = 1 ∧
    ∃ descPages : List Nat, descPages.length ≤ (w.peak + 255) / 256 ∧
      (∀ p ∈ descPages, p ∉ w.others ∧ ∀ obj ∈ w.objects, ¬ InPage p obj) ∧
      ∀ nr, w.kernel.mem.memMap[nr]? =
        if pageAddr nr ∈ descPages ∨ pageAddr nr ∈ w.others ∨
            ∃ obj ∈ w.objects, InPage (pageAddr nr) obj then some 1
        else (mainMemory 64 fun _ => 0).memMap[nr]? := by
  obtain ⟨w, addr, reached, live⟩ := exists_reached
  exact ⟨w, by rw [live]; rfl, pages_come_back reached⟩

end Runs

end Ct.Linux.Malloc
