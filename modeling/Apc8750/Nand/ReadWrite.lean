import Apc8750.Library.Spans
import Mathlib.Algebra.Order.Group.Nat

namespace Apc8750.Nand
open Spans (blit)

abbrev Bytes := Nat → UInt8

/-- The sizes are powers of two, so the masks of the code are quotients. -/
structure Geometry where
  oobblock : Nat
  dwPageCount : Nat
  dwBlockCount : Nat
  page_pos : 0 < oobblock
  page_le : oobblock ≤ 8192
  pages_pos : 0 < dwPageCount
  totlen_le : dwBlockCount * (dwPageCount * oobblock) ≤ 2 ^ 32

namespace Geometry

def erasesize (g : Geometry) : Nat := g.dwPageCount * g.oobblock

def totlen (g : Geometry) : Nat := g.dwBlockCount * g.erasesize

end Geometry

/-- The caller's memory from `buf` on. `reach` is behind the highest index used. -/
structure Transfer where
  flash : Bytes
  dataBuf : Bytes
  buf : Bytes
  reach : Nat

namespace Transfer

def nfcReadPage (g : Geometry) (page : Nat) (t : Transfer) : Transfer :=
  { t with dataBuf := blit t.dataBuf 0 t.flash (page * g.oobblock) g.oobblock }

/-- `memcpy(buf + i, data_buf + col, n)`. -/
def fromDataBuf (col i n : Nat) (t : Transfer) : Transfer :=
  { t with buf := blit t.buf i t.dataBuf col n, reach := max t.reach (i + n) }

def toDataBuf (col i n : Nat) (t : Transfer) : Transfer :=
  { t with dataBuf := blit t.dataBuf col t.buf i n, reach := max t.reach (i + n) }

def nandPageProgram (start len : Nat) (t : Transfer) : Transfer :=
  { t with flash := blit t.flash start t.dataBuf 0 len }

/-- The second half goes to column 4096 + 218, but is read from 4096 on. -/
def nandPageProgramRandom (start len : Nat) (t : Transfer) : Transfer :=
  { t with
    flash := blit (blit t.flash start t.dataBuf 0 (len / 2)) (start + 4096) t.dataBuf (len / 2)
      (len / 2) }

def program (g : Geometry) (page len : Nat) (t : Transfer) : Transfer :=
  if g.oobblock < 8192 then t.nandPageProgram (page * g.oobblock) len
  else t.nandPageProgramRandom (page * g.oobblock) len

end Transfer

/-- The loop of `nand_read_ecc` with its `page`, `col` and `*retlen`, for the memory from
`base` on. -/
def readLoop (g : Geometry) (base len : Nat) : Nat → Nat → Nat → Nat → Transfer → Nat × Transfer
  | 0, _, _, retlen, t => (retlen, t)
  | fuel + 1, page, col, retlen, t =>
    if retlen < len then
      if len ≤ retlen + (g.oobblock - col) then
        readLoop g base len fuel (page + 1) 0 len
          ((t.nfcReadPage g page).fromDataBuf col (base + retlen) (len - retlen))
      else
        readLoop g base len fuel (page + 1) 0 (retlen + (g.oobblock - col))
          ((t.nfcReadPage g page).fromDataBuf col (base + retlen) (g.oobblock - col))
    else (retlen, t)

/-- The returned value is given by its lowest bit, with `*retlen`. -/
def nandReadEcc (g : Geometry) (base start len : Nat) (t : Transfer) : Bool × Nat × Transfer :=
  if g.totlen < (start + len) % 2 ^ 32 then (true, 0, t)
  else
    (false, readLoop g base len len (start / g.oobblock) (start % g.oobblock) 0 t)

/-- The test is on all of `len`, not on what is left of it. -/
def writeCount (g : Geometry) (len col retlen : Nat) : Nat :=
  if g.oobblock ≤ col + len then g.oobblock - col else len - retlen

def writeLoop (g : Geometry) (base len : Nat) : Nat → Nat → Nat → Nat → Transfer → Transfer
  | 0, _, _, _, t => t
  | fuel + 1, page, col, retlen, t =>
    if retlen < len then
      let cnt := writeCount g len col retlen
      writeLoop g base len fuel (page + 1) 0 (retlen + cnt)
        ((t.toDataBuf col (base + retlen) cnt).program g page (col + cnt))
    else t

def nandWriteEcc (g : Geometry) (base start len : Nat) (t : Transfer) : Bool × Nat × Transfer :=
  if g.totlen < (start + len) % 2 ^ 32 then (true, 0, t)
  else
    (false, len, writeLoop g base len len (start / g.oobblock) (start % g.oobblock) 0 t)

/-- The values 0, 1, 2, 3 and 7 of `cmd`. -/
inductive Cmd where
  | write
  | read
  | writeSkip
  | readFill
  | readSkip
  deriving DecidableEq

namespace Cmd

def reads : Cmd → Bool
  | write | writeSkip => false
  | read | readFill | readSkip => true

def skips : Cmd → Bool
  | writeSkip | readSkip => true
  | write | read | readFill => false

end Cmd

def ecc (g : Geometry) (cmd : Cmd) (base start len : Nat) (t : Transfer) :
    Bool × Nat × Transfer :=
  if cmd.reads then nandReadEcc g base start len t else nandWriteEcc g base start len t

/-- `buf` has moved by `total`, `eblk` is `none` for `~0`, `ret` stands for `ret & 1`. -/
structure Rw where
  start : Nat
  len : Nat
  total : Nat
  eblk : Option Nat
  ret : Bool
  mem : Transfer

/-- Bytes of 0xff up to the end of the range or of the block. -/
def fillLoop (erasesize eblk : Nat) : Nat → Rw → Rw
  | 0, s => s
  | n + 1, s =>
    if s.start - eblk < erasesize then
      fillLoop erasesize eblk n
        { s with
          start := s.start + 1
          total := s.total + 1
          len := s.len - 1
          mem := { s.mem with
            buf := Function.update s.mem.buf s.total 0xff
            reach := max s.mem.reach (s.total + 1) } }
    else s

def Rw.here (g : Geometry) (s : Rw) : Nat := s.start / g.erasesize * g.erasesize

def Rw.wrap (s : Rw) : Rw := { s with start := s.start % 2 ^ 32 }

def movePart (g : Geometry) (cmd : Cmd) (s : Rw) : Except Rw Rw :=
  let (ret, n, mem) :=
    ecc g cmd s.total s.start (min s.len (s.here g + g.erasesize - s.start)) s.mem
  if ret then .error { s with ret := true, mem }
  else
    .ok { s with
      start := (s.start + n) % 2 ^ 32
      total := s.total + n
      len := s.len - n
      ret := false
      mem }

/-- A `break` leaves with an error. `isbadblock` answers for the block numbers. -/
def pass (g : Geometry) (bad : Nat → Bool) (cmd : Cmd) (s : Rw) : Except Rw Rw :=
  if s.eblk = some (s.here g) then movePart g cmd s
  else if bad (s.start / g.erasesize) then
    match cmd with
    | .readFill =>
      .ok (fillLoop g.erasesize (s.here g) s.len
        { s with eblk := some (s.here g), ret := true }).wrap
    | .readSkip | .writeSkip =>
      .ok { s with
        start := (s.start + g.erasesize) % 2 ^ 32
        eblk := some (s.here g)
        ret := true }
    | .read | .write => .error { s with eblk := some (s.here g), ret := true }
  else movePart g cmd { s with eblk := some (s.here g), ret := false }

def rwLoop (g : Geometry) (bad : Nat → Bool) (cmd : Cmd) : Nat → Rw → Option Rw
  | 0, _ => none
  | fuel + 1, s =>
    if s.len = 0 then some s
    else
      match pass g bad cmd s with
      | .error s => some s
      | .ok s => rwLoop g bad cmd fuel s

def Rw.entry (start len : Nat) (t : Transfer) : Rw := ⟨start, len, 0, none, false, t⟩

def nandRw (g : Geometry) (bad : Nat → Bool) (cmd : Cmd) (fuel start len : Nat) (t : Transfer) :
    Option (Nat × Nat × Transfer) :=
  (rwLoop g bad cmd fuel (.entry start len t)).map fun s => (s.ret.toNat, s.total, s.mem)

end Apc8750.Nand
