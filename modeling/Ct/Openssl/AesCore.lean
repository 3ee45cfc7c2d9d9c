import Ct.Openssl.AesTables

set_option autoImplicit false

namespace Ct.Openssl

/-- `u8` -/
abbrev Byte := BitVec 8

/-- `u32` -/
abbrev Word := BitVec 32

/-- The entry of a table for an index below 256. -/
def entry (table : List Nat) (i : Word) : Word := BitVec.ofNat 32 (table.getD i.toNat 0)

def getU32 (pt : List Byte) (at_ : Nat) : Word :=
  ((pt.getD at_ 0).setWidth 32 <<< 24) ^^^ ((pt.getD (at_ + 1) 0).setWidth 32 <<< 16) ^^^
    ((pt.getD (at_ + 2) 0).setWidth 32 <<< 8) ^^^ (pt.getD (at_ + 3) 0).setWidth 32

def putU32 (st : Word) : List Byte :=
  [(st >>> 24).setWidth 8, (st >>> 16).setWidth 8, (st >>> 8).setWidth 8, st.setWidth 8]

/-- The words of `rd_key`. -/
abbrev Schedule := List Word

def Schedule.word (rk : Schedule) (i : Nat) : Word := rk.getD i 0

/-- `AES_KEY` -/
structure AesKey where
  rdKey : Schedule
  rounds : Nat
  sized : rdKey.length = 60

/-- The bytes of `temp`, turned by one place, in the S-box. -/
def rotated (temp : Word) : Word :=
  (entry te2 ((temp >>> 16) &&& 0xff#32) &&& 0xff000000#32) ^^^
    (entry te3 ((temp >>> 8) &&& 0xff#32) &&& 0x00ff0000#32) ^^^
    (entry te0 (temp &&& 0xff#32) &&& 0x0000ff00#32) ^^^
    (entry te1 (temp >>> 24) &&& 0x000000ff#32)

def unrotated (temp : Word) : Word :=
  (entry te2 (temp >>> 24) &&& 0xff000000#32) ^^^
    (entry te3 ((temp >>> 16) &&& 0xff#32) &&& 0x00ff0000#32) ^^^
    (entry te0 ((temp >>> 8) &&& 0xff#32) &&& 0x0000ff00#32) ^^^
    (entry te1 (temp &&& 0xff#32) &&& 0x000000ff#32)

def rconAt (i : Nat) : Word := BitVec.ofNat 32 (rcon.getD i 0)

/-- `rk[n] = rk[a] ^ rk[b];` -/
def xorInto (rk : Schedule) (n a b : Nat) : Schedule := rk.set n (rk.word a ^^^ rk.word b)

/-- The loop for 128 bits, which is left `left` more times, with `rk` pointing `p` words behind the
start. -/
def expand128 : Nat → Nat → Nat → Schedule → Schedule
  | 0, _, _, rk => rk
  | left + 1, i, p, rk =>
    let rk := rk.set (p + 4) (rk.word p ^^^ rotated (rk.word (p + 3)) ^^^ rconAt i)
    let rk := xorInto rk (p + 5) (p + 1) (p + 4)
    let rk := xorInto rk (p + 6) (p + 2) (p + 5)
    let rk := xorInto rk (p + 7) (p + 3) (p + 6)
    expand128 left (i + 1) (p + 4) rk

def expand192 : Nat → Nat → Nat → Schedule → Schedule
  | 0, _, _, rk => rk
  | left + 1, i, p, rk =>
    let rk := rk.set (p + 6) (rk.word p ^^^ rotated (rk.word (p + 5)) ^^^ rconAt i)
    let rk := xorInto rk (p + 7) (p + 1) (p + 6)
    let rk := xorInto rk (p + 8) (p + 2) (p + 7)
    let rk := xorInto rk (p + 9) (p + 3) (p + 8)
    if left = 0 then rk
    else
      let rk := xorInto rk (p + 10) (p + 4) (p + 9)
      let rk := xorInto rk (p + 11) (p + 5) (p + 10)
      expand192 left (i + 1) (p + 6) rk

def expand256 : Nat → Nat → Nat → Schedule → Schedule
  | 0, _, _, rk => rk
  | left + 1, i, p, rk =>
    let rk := rk.set (p + 8) (rk.word p ^^^ rotated (rk.word (p + 7)) ^^^ rconAt i)
    let rk := xorInto rk (p + 9) (p + 1) (p + 8)
    let rk := xorInto rk (p + 10) (p + 2) (p + 9)
    let rk := xorInto rk (p + 11) (p + 3) (p + 10)
    if left = 0 then rk
    else
      let rk := rk.set (p + 12) (rk.word (p + 4) ^^^ unrotated (rk.word (p + 11)))
      let rk := xorInto rk (p + 13) (p + 5) (p + 12)
      let rk := xorInto rk (p + 14) (p + 6) (p + 13)
      let rk := xorInto rk (p + 15) (p + 7) (p + 14)
      expand256 left (i + 1) (p + 8) rk

/-- `rk[i] = GETU32(userKey + 4 * i)` for the first words. -/
def loadKey (userKey : List Byte) : Nat → Schedule → Schedule
  | 0, rk => rk
  | n + 1, rk => (loadKey userKey n rk).set n (getU32 userKey (4 * n))

@[simp] theorem length_xorInto (rk : Schedule) (n a b : Nat) : (xorInto rk n a b).length = rk.length :=
  List.length_set

@[simp] theorem length_expand128 (left : Nat) : ∀ (i p : Nat) (rk : Schedule),
    (expand128 left i p rk).length = rk.length := by
  induction left with
  | zero => intros; rfl
  | succ left ih =>
    intro i p rk
    rw [expand128, ih]
    simp

@[simp] theorem length_expand192 (left : Nat) : ∀ (i p : Nat) (rk : Schedule),
    (expand192 left i p rk).length = rk.length := by
  induction left with
  | zero => intros; rfl
  | succ left ih =>
    intro i p rk
    rw [expand192]
    split
    · simp
    · rw [ih]
      simp

@[simp] theorem length_expand256 (left : Nat) : ∀ (i p : Nat) (rk : Schedule),
    (expand256 left i p rk).length = rk.length := by
  induction left with
  | zero => intros; rfl
  | succ left ih =>
    intro i p rk
    rw [expand256]
    split
    · simp
    · rw [ih]
      simp

@[simp] theorem length_loadKey (userKey : List Byte) (n : Nat) (rk : Schedule) :
    (loadKey userKey n rk).length = rk.length := by
  induction n with
  | zero => rfl
  | succ n ih => rw [loadKey, List.length_set, ih]

/-- `AES_set_encrypt_key`, for pointers that are not null. -/
def setEncryptKey (userKey : List Byte) (bits : Int) (key : AesKey) : Int × AesKey :=
  if bits ≠ 128 ∧ bits ≠ 192 ∧ bits ≠ 256 then (-2, key)
  else if bits = 128 then
    (0, { rounds := 10, rdKey := expand128 10 0 0 (loadKey userKey 4 key.rdKey),
          sized := by simp [key.sized] })
  else if bits = 192 then
    (0, { rounds := 12, rdKey := expand192 8 0 0 (loadKey userKey 6 key.rdKey),
          sized := by simp [key.sized] })
  else
    (0, { rounds := 14, rdKey := expand256 7 0 0 (loadKey userKey 8 key.rdKey),
          sized := by simp [key.sized] })

/-- `temp = rk[i]; rk[i] = rk[j]; rk[j] = temp;` -/
def swap (rk : Schedule) (i j : Nat) : Schedule := (rk.set i (rk.word j)).set j (rk.word i)

/-- The loop that inverts the order of the round keys. -/
def invertOrder (rk : Schedule) (i j : Nat) : Schedule :=
  if i < j then
    let rk := swap rk i j
    let rk := swap rk (i + 1) (j + 1)
    let rk := swap rk (i + 2) (j + 2)
    let rk := swap rk (i + 3) (j + 3)
    invertOrder rk (i + 4) (j - 4)
  else rk
termination_by j - i

@[simp] theorem length_swap (rk : Schedule) (i j : Nat) : (swap rk i j).length = rk.length := by
  rw [swap, List.length_set, List.length_set]

@[simp] theorem length_invertOrder (rk : Schedule) (i j : Nat) :
    (invertOrder rk i j).length = rk.length := by
  induction rk, i, j using invertOrder.induct with
  | case1 rk i j before rk₁ rk₂ rk₃ rk₄ ih =>
    rw [invertOrder, if_pos before, ih]
    simp [rk₁, rk₂, rk₃, rk₄]
  | case2 rk i j done => rw [invertOrder, if_neg done]

/-- The inverse `MixColumn` transform of a word. -/
def inverseMix (w : Word) : Word :=
  entry td0 (entry te1 (w >>> 24) &&& 0xff#32) ^^^
    entry td1 (entry te1 ((w >>> 16) &&& 0xff#32) &&& 0xff#32) ^^^
    entry td2 (entry te1 ((w >>> 8) &&& 0xff#32) &&& 0xff#32) ^^^
    entry td3 (entry te1 (w &&& 0xff#32) &&& 0xff#32)

def mixInto (rk : Schedule) (p : Nat) : Schedule := rk.set p (inverseMix (rk.word p))

@[simp] theorem length_mixInto (rk : Schedule) (p : Nat) : (mixInto rk p).length = rk.length :=
  List.length_set

/-- The loop over the round keys but the first and the last; `left` of them are left. -/
def mixKeys : Nat → Nat → Schedule → Schedule
  | 0, _, rk => rk
  | left + 1, p, rk =>
    let p := p + 4
    let rk := mixInto rk p
    let rk := mixInto rk (p + 1)
    let rk := mixInto rk (p + 2)
    let rk := mixInto rk (p + 3)
    mixKeys left p rk

@[simp] theorem length_mixKeys (left : Nat) : ∀ (p : Nat) (rk : Schedule),
    (mixKeys left p rk).length = rk.length := by
  induction left with
  | zero => intros; rfl
  | succ left ih =>
    intro p rk
    rw [mixKeys, ih]
    simp

/-- `AES_set_decrypt_key` -/
def setDecryptKey (userKey : List Byte) (bits : Int) (key : AesKey) : Int × AesKey :=
  let (status, key) := setEncryptKey userKey bits key
  if status < 0 then (status, key)
  else
    let rk := invertOrder key.rdKey 0 (4 * key.rounds)
    (0, { rounds := key.rounds, rdKey := mixKeys (key.rounds - 1) 0 rk,
          sized := by simp [rk, key.sized] })

/-- The variables `s0` to `s3`, or `t0` to `t3`. -/
structure Columns where
  c0 : Word
  c1 : Word
  c2 : Word
  c3 : Word
  deriving DecidableEq

def encryptRound (s : Columns) (rk : Schedule) (p : Nat) : Columns :=
  ⟨entry te0 (s.c0 >>> 24) ^^^ entry te1 ((s.c1 >>> 16) &&& 0xff#32) ^^^
      entry te2 ((s.c2 >>> 8) &&& 0xff#32) ^^^ entry te3 (s.c3 &&& 0xff#32) ^^^ rk.word p,
    entry te0 (s.c1 >>> 24) ^^^ entry te1 ((s.c2 >>> 16) &&& 0xff#32) ^^^
      entry te2 ((s.c3 >>> 8) &&& 0xff#32) ^^^ entry te3 (s.c0 &&& 0xff#32) ^^^ rk.word (p + 1),
    entry te0 (s.c2 >>> 24) ^^^ entry te1 ((s.c3 >>> 16) &&& 0xff#32) ^^^
      entry te2 ((s.c0 >>> 8) &&& 0xff#32) ^^^ entry te3 (s.c1 &&& 0xff#32) ^^^ rk.word (p + 2),
    entry te0 (s.c3 >>> 24) ^^^ entry te1 ((s.c0 >>> 16) &&& 0xff#32) ^^^
      entry te2 ((s.c1 >>> 8) &&& 0xff#32) ^^^ entry te3 (s.c2 &&& 0xff#32) ^^^ rk.word (p + 3)⟩

/-- The loop of `AES_encrypt`, for a positive `r`, with how far `rk` has been advanced. -/
def encryptLoop (rk : Schedule) : Nat → Nat → Columns → Columns × Nat
  | 0, p, s => (s, p)
  | r + 1, p, s =>
    let t := encryptRound s rk (p + 4)
    let p := p + 8
    if r = 0 then (t, p) else encryptLoop rk r p (encryptRound t rk p)

/-- `in`, with the initial round key. -/
def addInitial (block : List Byte) (rk : Schedule) : Columns :=
  ⟨getU32 block 0 ^^^ rk.word 0, getU32 block 4 ^^^ rk.word 1, getU32 block 8 ^^^ rk.word 2,
    getU32 block 12 ^^^ rk.word 3⟩

def putColumns (s : Columns) : List Byte := putU32 s.c0 ++ putU32 s.c1 ++ putU32 s.c2 ++ putU32 s.c3

def encryptLast (t : Columns) (rk : Schedule) (p : Nat) : Columns :=
  ⟨(entry te2 (t.c0 >>> 24) &&& 0xff000000#32) ^^^
      (entry te3 ((t.c1 >>> 16) &&& 0xff#32) &&& 0x00ff0000#32) ^^^
      (entry te0 ((t.c2 >>> 8) &&& 0xff#32) &&& 0x0000ff00#32) ^^^
      (entry te1 (t.c3 &&& 0xff#32) &&& 0x000000ff#32) ^^^ rk.word p,
    (entry te2 (t.c1 >>> 24) &&& 0xff000000#32) ^^^
      (entry te3 ((t.c2 >>> 16) &&& 0xff#32) &&& 0x00ff0000#32) ^^^
      (entry te0 ((t.c3 >>> 8) &&& 0xff#32) &&& 0x0000ff00#32) ^^^
      (entry te1 (t.c0 &&& 0xff#32) &&& 0x000000ff#32) ^^^ rk.word (p + 1),
    (entry te2 (t.c2 >>> 24) &&& 0xff000000#32) ^^^
      (entry te3 ((t.c3 >>> 16) &&& 0xff#32) &&& 0x00ff0000#32) ^^^
      (entry te0 ((t.c0 >>> 8) &&& 0xff#32) &&& 0x0000ff00#32) ^^^
      (entry te1 (t.c1 &&& 0xff#32) &&& 0x000000ff#32) ^^^ rk.word (p + 2),
    (entry te2 (t.c3 >>> 24) &&& 0xff000000#32) ^^^
      (entry te3 ((t.c0 >>> 16) &&& 0xff#32) &&& 0x00ff0000#32) ^^^
      (entry te0 ((t.c1 >>> 8) &&& 0xff#32) &&& 0x0000ff00#32) ^^^
      (entry te1 (t.c2 &&& 0xff#32) &&& 0x000000ff#32) ^^^ rk.word (p + 3)⟩

/-- `AES_encrypt`: what it writes to `out`. -/
def aesEncrypt (block : List Byte) (key : AesKey) : List Byte :=
  let (t, p) := encryptLoop key.rdKey (key.rounds >>> 1) 0 (addInitial block key.rdKey)
  putColumns (encryptLast t key.rdKey p)

example : aesEncrypt ((List.range 16).map fun i => BitVec.ofNat 8 (17 * i))
    (setEncryptKey ((List.range 16).map (BitVec.ofNat 8)) 128 ⟨List.replicate 60 0, 0, rfl⟩).2 =
    [0x69, 0xc4, 0xe0, 0xd8, 0x6a, 0x7b, 0x04, 0x30, 0xd8, 0xcd, 0xb7, 0x80, 0x70, 0xb4, 0xc5, 0x5a] := by
  decide +kernel

def decryptRound (s : Columns) (rk : Schedule) (p : Nat) : Columns :=
  ⟨entry td0 (s.c0 >>> 24) ^^^ entry td1 ((s.c3 >>> 16) &&& 0xff#32) ^^^
      entry td2 ((s.c2 >>> 8) &&& 0xff#32) ^^^ entry td3 (s.c1 &&& 0xff#32) ^^^ rk.word p,
    entry td0 (s.c1 >>> 24) ^^^ entry td1 ((s.c0 >>> 16) &&& 0xff#32) ^^^
      entry td2 ((s.c3 >>> 8) &&& 0xff#32) ^^^ entry td3 (s.c2 &&& 0xff#32) ^^^ rk.word (p + 1),
    entry td0 (s.c2 >>> 24) ^^^ entry td1 ((s.c1 >>> 16) &&& 0xff#32) ^^^
      entry td2 ((s.c0 >>> 8) &&& 0xff#32) ^^^ entry td3 (s.c3 &&& 0xff#32) ^^^ rk.word (p + 2),
    entry td0 (s.c3 >>> 24) ^^^ entry td1 ((s.c2 >>> 16) &&& 0xff#32) ^^^
      entry td2 ((s.c1 >>> 8) &&& 0xff#32) ^^^ entry td3 (s.c0 &&& 0xff#32) ^^^ rk.word (p + 3)⟩

def decryptLoop (rk : Schedule) : Nat → Nat → Columns → Columns × Nat
  | 0, p, s => (s, p)
  | r + 1, p, s =>
    let t := decryptRound s rk (p + 4)
    let p := p + 8
    if r = 0 then (t, p) else decryptLoop rk r p (decryptRound t rk p)

def decryptLast (t : Columns) (rk : Schedule) (p : Nat) : Columns :=
  ⟨(entry td4 (t.c0 >>> 24) <<< 24) ^^^ (entry td4 ((t.c3 >>> 16) &&& 0xff#32) <<< 16) ^^^
      (entry td4 ((t.c2 >>> 8) &&& 0xff#32) <<< 8) ^^^ entry td4 (t.c1 &&& 0xff#32) ^^^ rk.word p,
    (entry td4 (t.c1 >>> 24) <<< 24) ^^^ (entry td4 ((t.c0 >>> 16) &&& 0xff#32) <<< 16) ^^^
      (entry td4 ((t.c3 >>> 8) &&& 0xff#32) <<< 8) ^^^ entry td4 (t.c2 &&& 0xff#32) ^^^ rk.word (p + 1),
    (entry td4 (t.c2 >>> 24) <<< 24) ^^^ (entry td4 ((t.c1 >>> 16) &&& 0xff#32) <<< 16) ^^^
      (entry td4 ((t.c0 >>> 8) &&& 0xff#32) <<< 8) ^^^ entry td4 (t.c3 &&& 0xff#32) ^^^ rk.word (p + 2),
    (entry td4 (t.c3 >>> 24) <<< 24) ^^^ (entry td4 ((t.c2 >>> 16) &&& 0xff#32) <<< 16) ^^^
      (entry td4 ((t.c1 >>> 8) &&& 0xff#32) <<< 8) ^^^ entry td4 (t.c0 &&& 0xff#32) ^^^ rk.word (p + 3)⟩

/-- `AES_decrypt`: what it writes to `out`. -/
def aesDecrypt (block : List Byte) (key : AesKey) : List Byte :=
  let (t, p) := decryptLoop key.rdKey (key.rounds >>> 1) 0 (addInitial block key.rdKey)
  putColumns (decryptLast t key.rdKey p)

end Ct.Openssl
