import Ct.Lib.Chained
import Ct.Linux.Memory

set_option autoImplicit false

namespace Ct.Linux.Malloc

open Ct.Lib (Chained seek)

/-- `sizeof(struct bucket_desc)` -/
def descSize : Nat := 16

namespace BucketDesc

variable (word : Nat → Nat) (bdesc value : Nat)

/-- `bdesc->page`; the members behind it lie at 4, 8 and 12. -/
def page : Nat := word bdesc

def next : Nat := word (bdesc + 4)

def freeptr : Nat := word (bdesc + 8)

/-- `bdesc->refcnt`, the lower half of its word; `bucket_size` is the upper one. -/
def refcnt : Nat := word (bdesc + 12) % 65536

def setPage : Nat → Nat := Function.update word bdesc value

def setNext : Nat → Nat := Function.update word (bdesc + 4) value

def setFreeptr : Nat → Nat := Function.update word (bdesc + 8) value

def setRefcnt : Nat → Nat :=
  Function.update word (bdesc + 12) (word (bdesc + 12) / 65536 * 65536 + value % 65536)

def setBucketSize : Nat → Nat :=
  Function.update word (bdesc + 12) (value % 65536 * 65536 + word (bdesc + 12) % 65536)

end BucketDesc

open BucketDesc

/-- The sizes of `bucket_dir`. -/
def sizes : List Nat := [16, 32, 64, 128, 256, 512, 1024, 2048, 4096]

/-- `bucket_dir[dir].size` -/
def bdirSize (dir : Nat) : Nat := sizes.getD dir 0

structure Kernel where
  mem : Memory
  /-- `bucket_dir[dir].chain` -/
  chain : Nat → Nat
  freeBucketDesc : Nat

def Kernel.word (k : Kernel) : Nat → Nat := k.mem.word

def Kernel.setWord (k : Kernel) (word : Nat → Nat) : Kernel :=
  { k with mem := { k.mem with word := word } }

/-- A chain has no more descriptors than there are pages. -/
def Kernel.fuel (k : Kernel) : Nat := k.mem.memMap.length + 1

/-- The loops over a new page: each element points at the one `step` behind it. -/
def linkUp (offset step : Nat) : Nat → Nat → (Nat → Nat) → Nat × (Nat → Nat)
  | 0, p, word => (p, word)
  | left + 1, p, word =>
    linkUp offset step left (p + step) (Function.update word (p + offset) (p + step))

def initBucketDesc (k : Kernel) : Except Stop Kernel :=
  let (first, mem) := getFreePage k.mem
  if first = 0 then .error (.panic "Out of memory in init_bucket_desc()")
  else
    let (bdesc, word) := linkUp 4 descSize (PAGE_SIZE / descSize - 1) first mem.word
    .ok { k with
      mem := { mem with word := setNext word bdesc k.freeBucketDesc }
      freeBucketDesc := first }

/-- A new bucket: its descriptor is the first free one. -/
def fillBucket (k : Kernel) (dir : Nat) : Except Stop (Nat × Kernel) :=
  let bdesc := k.freeBucketDesc
  let word := setRefcnt k.word bdesc 0
  let word := setBucketSize word bdesc (bdirSize dir)
  let (cp, mem) := getFreePage { k.mem with word := word }
  if cp = 0 then .error (.panic "Out of memory in kernel malloc()")
  else
    let word := setPage (setFreeptr mem.word bdesc cp) bdesc cp
    let (last, word) := linkUp 0 (bdirSize dir) (PAGE_SIZE / bdirSize dir - 1) cp word
    let word := Function.update word last 0
    let word := setNext word bdesc (k.chain dir)
    .ok (bdesc,
      { mem := { mem with word := word }
        chain := Function.update k.chain dir bdesc
        freeBucketDesc := next k.word bdesc })

/-- The part of `malloc` that allocates a new bucket. -/
def newBucket (k : Kernel) (dir : Nat) : Except Stop (Nat × Kernel) := do
  let k ← if k.freeBucketDesc = 0 then initBucketDesc k else pure k
  fillBucket k dir

/-- The first free object of the bucket, and the kernel without it. -/
def takeObject (bdesc : Nat) (k : Kernel) : Nat × Kernel :=
  let retval := freeptr k.word bdesc
  let word := setFreeptr k.word bdesc (k.word retval)
  let word := setRefcnt word bdesc (refcnt word bdesc + 1)
  (retval, k.setWord word)

def malloc (len : Nat) (k : Kernel) : Except Stop (Nat × Kernel) :=
  let dir := sizes.findIdx fun size => decide (len ≤ size)
  if dir = sizes.length then .error (.panic "malloc: bad arg")
  else
    match seek (next k.word) (fun bdesc => decide (freeptr k.word bdesc ≠ 0)) k.fuel 0
        (k.chain dir) with
    | none => .error .endless
    | some (_, bdesc) =>
      if bdesc = 0 then do
        let (bdesc, k) ← newBucket k dir
        .ok (takeObject bdesc k)
      else .ok (takeObject bdesc k)

/-- A call of `free_s` that has come to `found`. -/
structure FreeCall where
  obj : Nat
  dir : Nat
  prev : Nat
  bdesc : Nat

/-- The buckets of these directory entries are searched for the page. -/
def findBucket (k : Kernel) (obj page : Nat) (size : Int) : List Nat → Except Stop FreeCall
  | [] => .error (.panic "Bad address passed to kernel free_s()")
  | dir :: rest =>
    if (bdirSize dir : Int) < size then findBucket k obj page size rest
    else
      match seek (next k.word) (fun bdesc => decide (BucketDesc.page k.word bdesc = page)) k.fuel 0
          (k.chain dir) with
      | none => .error .endless
      | some (prev, bdesc) =>
        if bdesc = 0 then findBucket k obj page size rest
        else .ok { obj := obj, dir := dir, prev := prev, bdesc := bdesc }

/-- `free_s` up to `found`. -/
def freeSearch (obj : Nat) (size : Int) (k : Kernel) : Except Stop FreeCall :=
  findBucket k obj (obj &&& 0xfffff000) size (List.range sizes.length)

/-- The descriptor in front of the bucket, as it is when interrupts are off. -/
def accuratePrev (call : FreeCall) (k : Kernel) : Except Stop Nat :=
  if call.prev ≠ 0 ∧ next k.word call.prev ≠ call.bdesc ∨
      call.prev = 0 ∧ k.chain call.dir ≠ call.bdesc then
    match seek (next k.word) (fun prev => decide (next k.word prev = call.bdesc)) k.fuel 0
        (k.chain call.dir) with
    | none => .error .endless
    | some (_, prev) => .ok prev
  else .ok call.prev

/-- The bucket is taken out of its chain, and its page is released. -/
def dropBucket (call : FreeCall) (k : Kernel) : Except Stop Kernel := do
  let prev ← accuratePrev call k
  let k ←
    if prev ≠ 0 then .ok (k.setWord (setNext k.word prev (next k.word call.bdesc)))
    else if k.chain call.dir ≠ call.bdesc then .error (.panic "malloc bucket chains corrupted")
    else .ok { k with chain := Function.update k.chain call.dir (next k.word call.bdesc) }
  let mem ← freePage (BucketDesc.page k.word call.bdesc) k.mem
  .ok { k with
    mem := { mem with word := setNext mem.word call.bdesc k.freeBucketDesc }
    freeBucketDesc := call.bdesc }

/-- `free_s` from `found` on. -/
def freeFound (call : FreeCall) (k : Kernel) : Except Stop Kernel :=
  let word := Function.update k.word call.obj (freeptr k.word call.bdesc)
  let word := setFreeptr word call.bdesc call.obj
  let word := setRefcnt word call.bdesc (refcnt word call.bdesc + 65535)
  if refcnt word call.bdesc = 0 then dropBucket call (k.setWord word)
  else .ok (k.setWord word)

def freeS (obj : Nat) (size : Int) (k : Kernel) : Except Stop Kernel := do
  let call ← freeSearch obj size k
  freeFound call k

end Ct.Linux.Malloc
