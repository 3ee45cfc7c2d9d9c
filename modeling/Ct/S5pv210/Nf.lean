import Ct.Lib.Fault
import Ct.S5pv210.Common

set_option autoImplicit false

namespace Ct.S5pv210.Nf

open Ct.Lib

def nfcmdReset : BitVec 8 := 0xFF

def nfcmdRead1 : BitVec 8 := 0x00

def nfcmdRead2 : BitVec 8 := 0x30

def nfcmdErase1 : BitVec 8 := 0x60

def nfcmdErase2 : BitVec 8 := 0xD0

def nfcmdPagePro1 : BitVec 8 := 0x80

def nfcmdPagePro2 : BitVec 8 := 0x10

def nfcmdReadstatus : BitVec 8 := 0x70

def nfPagesize : Nat := 2048

/-- The bytes of a page. -/
def Page : Type := { bytes : List (BitVec 8) // bytes.length = nfPagesize }

/-- What the cells hold, by row address: the number of the page. -/
abbrev Contents : Type := Nat → Page

def erased : Page := ⟨List.replicate nfPagesize 0xFF, List.length_replicate⟩

/-- Programming from a column on only clears bits. -/
def Page.program (page : Page) (column : Nat) (bytes : List (BitVec 8)) : Page :=
  ⟨page.val.take column ++ (page.val.drop column).zipWith (· &&& ·) bytes ++
      page.val.drop (column + bytes.length), by
    simp only [List.length_append, List.length_take, List.length_zipWith, List.length_drop,
      page.property]
    omega⟩

/-- 64 consecutive pages form a block. -/
def blockPages : Nat := 64

def Contents.eraseBlock (contents : Contents) (row : Nat) : Contents := fun page =>
  if page / blockPages = row / blockPages then erased else contents page

def Contents.programPage (contents : Contents) (row column : Nat) (bytes : List (BitVec 8)) :
    Contents := fun page =>
  if page = row then (contents page).program column bytes else contents page

/-- The device behind the controller: the last command with the address and the data sent after
it, and the bytes that it has ready. It stays busy for as many reads of its ready line as `delay`
says of the command. -/
structure Nand where
  contents : Contents
  delay : BitVec 8 → Nat
  nfcont : BitVec 32
  rbDetect : Bool
  command : BitVec 8
  address : List (BitVec 8)
  loaded : List (BitVec 8)
  out : List (BitVec 8)
  busy : Nat

/-- The chip select is low-active. -/
def Nand.selected (nand : Nand) : Bool := !nand.nfcont.getLsbD 1

/-- The number that address cycles send, the lowest byte first. -/
def addressOf (cycles : List (BitVec 8)) : Nat :=
  cycles.foldr (fun cycle value => cycle.toNat + 256 * value) 0

/-- A command is latched, and the address, the data and the answer of the one before are gone. -/
def Nand.latch (nand : Nand) (c : BitVec 8) : Nand :=
  { nand with command := c, address := [], loaded := [], out := [] }

/-- The second command of a pair starts the work: two column cycles and three row cycles are
sent for a read or a program, three row cycles for an erase. -/
def Nand.start (nand : Nand) (c : BitVec 8) : Nand :=
  let column := addressOf (nand.address.take 2)
  let row := addressOf (nand.address.drop 2)
  let waiting := { nand.latch c with busy := nand.delay c }
  if c = nfcmdRead2 ∧ nand.command = nfcmdRead1 ∧ nand.address.length = 5 then
    { waiting with out := (nand.contents row).val.drop column }
  else if c = nfcmdErase2 ∧ nand.command = nfcmdErase1 ∧ nand.address.length = 3 then
    { waiting with contents := nand.contents.eraseBlock (addressOf nand.address) }
  else if c = nfcmdPagePro2 ∧ nand.command = nfcmdPagePro1 ∧ nand.address.length = 5 then
    { waiting with contents := nand.contents.programPage row column nand.loaded }
  else nand.latch c

/-- A busy device only takes a reset. -/
def Nand.receive (nand : Nand) (c : BitVec 8) : Nand :=
  if !nand.selected then nand
  else if c = nfcmdReset then { nand.latch c with busy := nand.delay c }
  else if nand.busy = 0 then nand.start c
  else nand

/-- A status without the fail bit. -/
def passed : BitVec 8 := 0xC0

/-- A read of `NFDATA`. -/
def Nand.deliver (nand : Nand) : BitVec 8 × Nand :=
  if !nand.selected || nand.busy != 0 then (0xFF, nand)
  else if nand.command = nfcmdReadstatus then (passed, nand)
  else (nand.out.headD 0xFF, { nand with out := nand.out.tail })

/-- A read of `NFSTAT`: bit 0 is the ready line, bit 4 tells that it has risen. -/
def Nand.readStat (nand : Nand) : BitVec 32 × Nand :=
  ((if nand.busy = 0 then 1 else 0) ||| (if nand.rbDetect then 16 else 0),
    { nand with busy := nand.busy - 1, rbDetect := nand.rbDetect || nand.busy == 1 })

/-- A write of `NFSTAT`: a 1 in bit 4 clears it. -/
def Nand.writeStat (nand : Nand) (value : BitVec 32) : Nand :=
  { nand with rbDetect := nand.rbDetect && !value.getLsbD 4 }

def nfNcs0 (x : BitVec 32) (nand : Nand) : Nand :=
  { nand with nfcont := regionWrite nand.nfcont 0x1 1 x }

def nfClearRb (nand : Nand) : Nand :=
  let (reg, nand) := nand.readStat
  nand.writeStat (regionWrite reg 0x1 4 1)

def nfWaitRb : Nat → Nand → Except Fault Nand
  | 0, _ => .error .outOfFuel
  | fuel + 1, nand =>
    let (stat, nand) := nand.readStat
    if ((1 : BitVec 32) <<< 0) &&& stat = 0 then nfWaitRb fuel nand else .ok nand

def nfCmd (c : BitVec 8) (nand : Nand) : Nand := nand.receive c

/-- `nf_setaddr`: a write of `NFADDR`. -/
def nfSetaddr (c : BitVec 8) (nand : Nand) : Nand :=
  if nand.selected && nand.busy == 0 then { nand with address := nand.address ++ [c] } else nand

/-- `__raw_write(NFDATA, c)` -/
def writeData (c : BitVec 8) (nand : Nand) : Nand :=
  if nand.selected && nand.busy == 0 then { nand with loaded := nand.loaded ++ [c] } else nand

def nfData (nand : Nand) : BitVec 8 × Nand := nand.deliver

def nfWaitIo : Nat → Nand → Except Fault Nand
  | 0, _ => .error .outOfFuel
  | fuel + 1, nand =>
    let (data, nand) := nfData nand
    if 1 &&& data = 0 then .ok nand else nfWaitIo fuel nand

def nfReset (fuel : Nat) (nand : Nand) : Except Fault Nand := do
  let nand := nfNcs0 0 nand
  let nand := nfCmd nfcmdReset nand
  let nand ← nfWaitRb fuel nand
  pure (nfNcs0 1 nand)

/-- The value of `x & 0xff` as an `unsigned char`. -/
def lowByte (x : BitVec 32) : BitVec 8 := (x &&& 0xff).setWidth 8

/-- The loop that stores what `nf_data` returns in `buf`. -/
def readBuf : Nat → Nand → List (BitVec 8) × Nand
  | 0, nand => ([], nand)
  | n + 1, nand =>
    let (data, nand) := nfData nand
    let (rest, nand) := readBuf n nand
    (data :: rest, nand)

/-- `nf_read`, with what it stores in `buf`. -/
def nfRead (fuel : Nat) (addr : BitVec 32) (nand : Nand) :
    Except Fault (Int × List (BitVec 8) × Nand) := do
  let page := addr.sshiftRight 11
  let nand ← nfReset fuel nand
  let nand := nfNcs0 0 nand
  let nand := nfCmd nfcmdRead1 nand
  let nand := nfSetaddr 0 nand
  let nand := nfSetaddr 0 nand
  let nand := nfSetaddr (lowByte page) nand
  let nand := nfSetaddr (lowByte (page.sshiftRight 8)) nand
  let nand := nfSetaddr (lowByte (page.sshiftRight 16)) nand
  let nand := nfCmd nfcmdRead2 nand
  let nand ← nfWaitRb fuel nand
  let (buf, nand) := readBuf nfPagesize nand
  pure (0, buf, nfNcs0 1 nand)

def nfErase (fuel : Nat) (addr : BitVec 32) (nand : Nand) : Except Fault (Int × Nand) := do
  let addr := addr >>> 17
  let nand ← nfReset fuel nand
  let nand := nfNcs0 0 nand
  let nand := nfCmd nfcmdErase1 nand
  let nand := nfSetaddr (lowByte addr) nand
  let nand := nfSetaddr (lowByte (addr >>> 8)) nand
  let nand := nfSetaddr (lowByte (addr >>> 16)) nand
  let nand := nfCmd nfcmdErase2 nand
  let nand ← nfWaitRb fuel nand
  let nand := nfCmd nfcmdReadstatus nand
  let nand ← nfWaitIo fuel nand
  pure (0, nfNcs0 1 nand)

/-- `nf_write` of the page in `buf`. -/
def nfWrite (fuel : Nat) (addr : BitVec 32) (buf : Page) (nand : Nand) :
    Except Fault (Int × Nand) := do
  let page := addr >>> 11
  let nand := nfNcs0 0 nand
  let nand := nfClearRb nand
  let nand := nfCmd nfcmdPagePro1 nand
  let nand := nfSetaddr 0 nand
  let nand := nfSetaddr 0 nand
  let nand := nfSetaddr (lowByte page) nand
  let nand := nfSetaddr (lowByte (page.sshiftRight 8)) nand
  let nand := nfSetaddr (lowByte (page.sshiftRight 16)) nand
  let nand := buf.val.foldl (fun nand c => writeData c nand) nand
  let nand := nfCmd nfcmdPagePro2 nand
  let nand ← nfWaitRb fuel nand
  pure (0, nfNcs0 1 nand)

end Ct.S5pv210.Nf
