import Apc8750.Nand.Bbt
import Apc8750.Nand.ReadWrite

namespace Apc8750.Nand
open Spans (blit)

inductive Ecc where
  | ecc1bit
  | ecc4bit
  | ecc12bit
  deriving DecidableEq

def saveEcc (g : Geometry) (oobsize : Nat) : Ecc :=
  if 0x200 < g.oobblock then if 218 ≤ oobsize then .ecc12bit else .ecc4bit else .ecc1bit

def loadEcc (g : Geometry) (oobsize : Nat) : Ecc :=
  if 0x200 < g.oobblock then if oobsize = 218 then .ecc12bit else .ecc4bit else .ecc1bit

/-- The bytes, the mode of each page, and the blocks touched, the last one first. -/
structure Dev where
  flash : Bytes
  coded : Nat → Ecc
  touched : List Nat

/-- A program fails at the page of the fault; `left` is what a failed operation leaves. -/
structure BlockOps where
  erases : Nat → Bool
  fault : Nat → Option Nat
  left : Bytes
  table : Ops

namespace Dev

def touch (g : Geometry) (naddr : Nat) (d : Dev) : Dev :=
  { d with touched := naddr / g.erasesize :: d.touched }

def wmtNandErase (g : Geometry) (ops : BlockOps) (naddr : Nat) (d : Dev) : Dev :=
  { d.touch g naddr with
    flash := blit d.flash (naddr / g.erasesize * g.erasesize)
      (if ops.erases (naddr / g.erasesize) then fun _ => 0xff else ops.left)
      (naddr / g.erasesize * g.erasesize) g.erasesize }

def programPage (g : Geometry) (ecc : Ecc) (mem : Bytes) (addr naddr : Nat) (d : Dev) : Dev :=
  { d.touch g naddr with
    flash := blit d.flash naddr mem addr (g.oobblock - naddr % g.oobblock)
    coded := Function.update d.coded (naddr / g.oobblock) ecc }

def failPage (g : Geometry) (left : Bytes) (naddr : Nat) (d : Dev) : Dev :=
  { d.touch g naddr with
    flash := blit d.flash naddr left naddr (g.oobblock - naddr % g.oobblock) }

end Dev

/-- The loop of `nand_write_block` over the pages that are left. -/
def writePages (g : Geometry) (ecc : Ecc) (left mem : Bytes) :
    Nat → Option Nat → Nat → Nat → Dev → Bool × Dev
  | 0, _, _, _, d => (true, d)
  | 1, some _, _, naddr, d => (false, d.failPage g left naddr)
  | _ + 2, some 0, _, naddr, d => (false, d.failPage g left naddr)
  | n + 1, fault, addr, naddr, d =>
    writePages g ecc left mem n (fault.map (· - 1)) (addr + g.oobblock)
      ((naddr + g.oobblock) % 2 ^ 32) (d.programPage g ecc mem addr naddr)

def numPages (g : Geometry) (size : Nat) : Nat :=
  size / g.oobblock + if size % g.oobblock = 0 then 0 else 1

def nandWriteBlock (g : Geometry) (ecc : Ecc) (ops : BlockOps) (mem : Bytes) (start naddr size : Nat)
    (d : Dev) : Bool × Dev :=
  writePages g ecc ops.left mem (numPages g size) (ops.fault (naddr / g.erasesize)) start naddr d

structure Counter where
  ret : Nat
  size : Nat
  done : Bool

namespace Counter

def start (blocksize len : Nat) : Counter :=
  if len < blocksize then ⟨blocksize, len, false⟩ else ⟨len, blocksize, false⟩

def next (blocksize : Nat) (c : Counter) : Option Counter :=
  if c.done then none
  else if c.ret - blocksize = 0 then none
  else if c.ret - blocksize ≤ blocksize then some ⟨c.ret - blocksize, c.ret - blocksize, true⟩
  else some { c with ret := c.ret - blocksize }

end Counter

structure Save where
  naddr : Nat
  saddr : Nat
  count : Counter
  need : Bool
  bbt : Bbt
  dev : Dev
  /-- The blocks that have got their part of the image. -/
  used : List Nat

def Save.ahead (g : Geometry) (s : Save) : Nat := (s.naddr + g.erasesize) % 2 ^ 32

/-- The block of `naddr` is marked in memory and left. -/
def Save.giveUp (g : Geometry) (dev : Dev) (s : Save) : Save :=
  { s with
    naddr := s.ahead g
    need := true
    bbt := updateBbtInram s.bbt (s.naddr / g.erasesize)
    dev }

/-- One round of `WMTSaveImageToNAND`, which `goto finish` leaves with an error. -/
def saveRound (g : Geometry) (ecc : Ecc) (ops : BlockOps) (mem : Bytes) (s : Save) :
    Except Save Save :=
  if isbbtbadblock s.bbt (s.naddr / g.erasesize) then .ok { s with naddr := s.ahead g }
  else if ops.erases (s.naddr / g.erasesize) then
    match nandWriteBlock g ecc ops mem s.saddr s.naddr s.count.size
        (s.dev.wmtNandErase g ops s.naddr) with
    | (false, dev) => .ok (s.giveUp g dev)
    | (true, dev) =>
      let s := { s with
        saddr := s.saddr + g.erasesize
        dev
        used := s.used ++ [s.naddr / g.erasesize] }
      match s.count.next g.erasesize with
      | none => .error s
      | some count => .ok { s with naddr := s.ahead g, count }
  else .ok (s.giveUp g (s.dev.wmtNandErase g ops s.naddr))

def saveLoop (g : Geometry) (ecc : Ecc) (ops : BlockOps) (mem : Bytes) : Nat → Save → Option Save
  | 0, _ => none
  | fuel + 1, s =>
    match saveRound g ecc ops mem s with
    | .error s => some s
    | .ok s => saveLoop g ecc ops mem fuel s

def finish (g : Geometry) (ops : BlockOps) (tables : Memory) (s : Save) :
    Except Flash (Int × Memory) :=
  if s.need then updateBbtInflash g.dwBlockCount ops.table { tables with bbt := s.bbt }
  else .ok (0, { tables with bbt := s.bbt })

/-- The bad-block table is in memory, as `check_block_table` has it. -/
def wmtSaveImageToNAND (g : Geometry) (oobsize : Nat) (ops : BlockOps) (tables : Memory) (mem : Bytes)
    (dev : Dev) (fuel naddr dwImageStart dwImageLength : Nat) :
    Option (Save × Except Flash (Int × Memory)) :=
  (saveLoop g (saveEcc g oobsize) ops mem fuel
    ⟨naddr, dwImageStart, .start g.erasesize dwImageLength, false, tables.bbt, dev, []⟩).map
    fun s => (s, finish g ops tables s)

/-- A page that was programmed in another mode gives any code and bytes. -/
structure Reader where
  ecc : Ecc
  misread : Nat → Int × Bytes

/-- `nfc_read_page` of a whole page to memory, with its returned value. -/
def Reader.readPage (g : Geometry) (r : Reader) (dev : Dev) (naddr addr : Nat) (mem : Bytes) :
    Int × Bytes :=
  if dev.coded (naddr / g.oobblock) = r.ecc then (0, blit mem addr dev.flash naddr g.oobblock)
  else
    ((r.misread (naddr / g.oobblock)).1,
      blit mem addr (r.misread (naddr / g.oobblock)).2 naddr g.oobblock)

/-- The loop of `nand_read_block` over the pages that are left. -/
def readPages (g : Geometry) (r : Reader) (dev : Dev) : Nat → Nat → Nat → Bytes → Int × Bytes
  | 0, _, _, mem => (0, mem)
  | n + 1, addr, naddr, mem =>
    let (rc, mem) := r.readPage g dev naddr addr mem
    if rc = 0 then readPages g r dev n (addr + g.oobblock) ((naddr + g.oobblock) % 2 ^ 32) mem
    else (rc, mem)

def nandReadBlock (g : Geometry) (r : Reader) (dev : Dev) (start naddr size : Nat) (mem : Bytes) :
    Int × Bytes :=
  readPages g r dev (numPages g size) start naddr mem

structure Load where
  naddr : Nat
  maddr : Nat
  count : Counter
  mem : Bytes
  /-- The blocks that were read. -/
  visited : List Nat

/-- One round of `WMTLoadImageFormNAND`, which a `return` leaves with an error. -/
def loadRound (g : Geometry) (r : Reader) (bbt : Bbt) (dev : Dev) (s : Load) :
    Except (Int × Load) Load :=
  if isbbtbadblock bbt (s.naddr / g.erasesize) then
    .ok { s with naddr := (s.naddr + g.erasesize) % 2 ^ 32 }
  else
    match nandReadBlock g r dev s.maddr s.naddr s.count.size s.mem with
    | (rc, mem) =>
      let s := { s with mem, visited := s.visited ++ [s.naddr / g.erasesize] }
      if rc ≠ 0 then .error (rc, s)
      else
        match s.count.next g.erasesize with
        | none => .error (0, s)
        | some count =>
          .ok { s with
            naddr := (s.naddr + g.erasesize) % 2 ^ 32
            maddr := s.maddr + g.erasesize
            count }

def loadLoop (g : Geometry) (r : Reader) (bbt : Bbt) (dev : Dev) : Nat → Load → Option (Int × Load)
  | 0, _ => none
  | fuel + 1, s =>
    match loadRound g r bbt dev s with
    | .error result => some result
    | .ok s => loadLoop g r bbt dev fuel s

def wmtLoadImageFormNAND (g : Geometry) (oobsize : Nat) (misread : Nat → Int × Bytes) (bbt : Bbt)
    (dev : Dev) (mem : Bytes) (fuel naddr maddr size : Nat) : Option (Int × Load) :=
  loadLoop g ⟨loadEcc g oobsize, misread⟩ bbt dev fuel
    ⟨naddr, maddr, .start g.erasesize size, mem, []⟩

end Apc8750.Nand
