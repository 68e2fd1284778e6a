import Mathlib.Algebra.Order.Group.Nat
import Mathlib.Algebra.GroupWithZero.Nat

namespace Apc8750.SpiFlash

def errOk : Int := 0
def errTimout : Int := 0x11
def errProgError : Int := 0x22
def einval : Int := -22

def sector : Nat := 64 * 1024

inductive Cs where
  | cs0
  | cs1
  deriving DecidableEq

/-- A chip of `sf_ids`, by the logarithm of its size: from 64 KB to 16 MB. -/
structure Chip where
  log : Nat
  range : 16 ≤ log ∧ log ≤ 24

def Chip.total (c : Chip) : Nat := 2 ^ c.log

/-- Whether the board has booted from the flash, the chips, and the size of the device in megabytes.
-/
structure Board where
  boot : Bool
  chip0 : Chip
  chip1 : Option Chip
  size : Nat
  megabytes : 1024 * 1024 ∣ size
  fits : size ≤ if boot then 0x100000000 else 0xF0000000

namespace Board

/-- The last address of the window, `MTDSF_PHY_ADDR` at first. -/
def last (b : Board) : Nat := if b.boot then 0xFFFFFFFF else 0xEFFFFFFF

def phyAddr (b : Board) : Nat := b.last + 1 - b.size

def phy0 (b : Board) : Nat := b.last + 1 - b.chip0.total

/-- `g_sf_info[1].phy`, with the mask of a power of two as a quotient. -/
def phy1 (b : Board) : Nat :=
  match b.chip1 with
  | none => 0
  | some c => (b.phy0 - c.total) / c.total * c.total

def chipAt (b : Board) (a : Nat) : Option (Cs) :=
  if b.phy0 ≤ a ∧ a < b.phy0 + b.chip0.total then some .cs0
  else
    match b.chip1 with
    | none => none
    | some c => if b.phy1 ≤ a ∧ a < b.phy1 + c.total then some .cs1 else none

def select (b : Board) (offset : Nat) : Cs := if offset + b.phyAddr ≥ b.phy0 then .cs0 else .cs1

end Board

def flashError (code : BitVec 32) : Int :=
  if code &&& 0x80000000#32 ≠ 0 then errTimout
  else if code &&& 0x20#32 ≠ 0 then errProgError
  else if code &&& 0x10#32 ≠ 0 then errProgError
  else if code &&& 0x8#32 ≠ 0 then errProgError
  else if code &&& 0x4#32 ≠ 0 then errProgError
  else if code &&& 0x2#32 ≠ 0 then errProgError
  else if code &&& 0x1#32 ≠ 0 then errProgError
  else errOk

/-- What a status register and the error register read in each turn of a loop. -/
structure Readings where
  status : Nat → BitVec 32
  error : Nat → BitVec 32

/-- The loop that waits for a chip, with the turns that are left and those that are done. -/
def pollLoop (r : Readings) : Nat → Nat → Int
  | 0, _ => errTimout
  | timeout + 1, k =>
    if r.status k &&& 0x1#32 = 0 then errOk
    else if flashError (r.error k) ≠ errOk then flashError (r.error k)
    else pollLoop r timeout (k + 1)

def poll (r : Readings) : Int := pollLoop r 0x30000000 0

/-- A sector erase: the chip whose writes are enabled, and `SPI_ER_START_ADDR`. -/
structure EraseCommand where
  chip : Cs
  start : Nat

/-- The addresses that an erase covers: the sector of its start, if that is on the chip. -/
def EraseCommand.Covers (b : Board) (c : EraseCommand) (a : Nat) : Prop :=
  b.chipAt c.start = some c.chip ∧ a / sector = c.start / sector

def spiFlashSectorErase (b : Board) (readings : Cs → Readings) (addr : Nat) : Int × EraseCommand :=
  let chip := b.select addr
  (poll (readings chip), ⟨chip, addr / sector * sector + b.phyAddr⟩)

def sfErase (b : Board) (readings : Cs → Readings) (addr _len : Nat) : Int × EraseCommand :=
  let r := spiFlashSectorErase b readings addr
  (if r.1 ≠ errOk then einval else 0, r.2)

/-- With the number of bursts and the bytes stored, each with its offset. -/
structure Writing where
  i : Nat
  len : Nat
  bursts : Nat
  stores : List (Nat × UInt8)

def bytesAt (ofs : Nat) (buf : Nat → UInt8) (i n : Nat) : List (Nat × UInt8) :=
  (List.range n).map fun j => (ofs + i + j, buf (i + j))

/-- A burst of `burst len` bytes, then a poll of the first chip, whose code is the error. -/
def burstLoop (ofs : Nat) (buf : Nat → UInt8) (answer : Nat → Int) (bound : Nat) (burst : Nat → Nat) :
    Nat → Writing → Except (Int × Writing) Writing
  | 0, w => .ok w
  | fuel + 1, w =>
    if w.len ≥ bound then
      let n := burst w.len
      let next : Writing :=
        ⟨w.i + n, w.len - n, w.bursts + 1, w.stores ++ bytesAt ofs buf w.i n⟩
      if answer w.bursts ≠ errOk then .error (answer w.bursts, next)
      else burstLoop ofs buf answer bound burst fuel next
    else .ok w

/-- The bursts of the three loops: two words, a word and a byte, and two bytes. -/
def burst8 (_len : Nat) : Nat := 8
def burst5 (len : Nat) : Nat := if len - 4 ≠ 0 then 5 else 4
def burst2 (len : Nat) : Nat := if len - 1 ≠ 0 then 2 else 1

/-- The three loops of `spi_flash_sector_write`. -/
def burstLoops (ofs : Nat) (buf : Nat → UInt8) (answer : Nat → Int) (len : Nat) :
    Except (Int × Writing) Writing := do
  let w ← burstLoop ofs buf answer 8 burst8 len ⟨0, len, 0, []⟩
  let w ← burstLoop ofs buf answer 4 burst5 len w
  burstLoop ofs buf answer 1 burst2 len w

def spiFlashSectorWrite (readings : Cs → Nat → Readings) (ofs : Nat) (buf : Nat → UInt8) (len : Nat) :
    Int × List (Nat × UInt8) :=
  match burstLoops ofs buf (fun k => poll (readings .cs0 k)) len with
  | .ok w => (w.i, w.stores)
  | .error (code, w) => (code, w.stores)

def sfWrite (b : Board) (readings : Cs → Nat → Readings) (ofs : Nat) (buf : Nat → UInt8) (len : Nat) :
    Int × Option Int × List (Nat × UInt8) :=
  if ofs + len > b.size then (einval, none, [])
  else
    let r := spiFlashSectorWrite readings ofs buf len
    (0, some r.1, r.2)

end Apc8750.SpiFlash
