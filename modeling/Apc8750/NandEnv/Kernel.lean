import Apc8750.Env.Store
import Apc8750.NandEnv.Image

namespace Apc8750.NandEnv
open Env Faults

/-- A read behind the last block succeeds and leaves the buffer as it is. -/
def scan (bad : Nat → Bool) (cells : Nat → Cell) (offs cnt : Nat) (buf : Image) :
    Option Nat × Image :=
  if offs < envBlkLength ∧ bad offs = true then
    if cnt + 1 = envBlkLength then scan bad cells offs (cnt + 1) buf
    else scan bad cells (offs + 1) (cnt + 1) buf
  else if cnt ≥ envBlkLength * 2 then (none, buf)
  else
    match if offs < envBlkLength then cells offs else .ok buf with
    | .failed => (none, buf)
    | .corrected i => (none, i)
    | .ok i =>
      let next := if cnt + 1 = envBlkLength then 0 else offs + 1
      if i.crc = 0xFFFFFFFF ∧ cnt < envBlkLength then scan bad cells next (cnt + 1) i
      else if i.valid = true then (some (cnt % envBlkLength), i)
      else if cnt + 1 < envBlkLength * 2 then scan bad cells next (cnt + 1) i
      else (none, i)
termination_by (19 - cnt) * 10 + (9 - offs)
decreasing_by all_goals simp only [envBlkLength] at *; omega

def envInit (bad : Nat → Bool) (cells : Nat → Cell) (buf : Image) : Option Nat × Image :=
  scan bad cells 0 0 buf

def nextBlock (b : Nat) : Nat := if b + 1 ≥ envBlkLength then 0 else b + 1

def probe (bad : Nat → Bool) : Nat → Nat → Option (Nat × Nat)
  | 0, _ => none
  | left + 1, b => if bad b = true then probe bad left (nextBlock b) else some (b, left)

/-- The block that `env_update` writes: the search must not use up all its probes. -/
def newBlock (bad : Nat → Bool) (orig : Nat) : Option Nat :=
  match probe bad envBlkLength (nextBlock orig) with
  | some (b, _ + 1) => some b
  | _ => none

/-- How the erase of the new block, its program and the erase of the old block end. -/
structure Ops where
  eraseNew : Op Cell
  program : Op Cell
  eraseOld : Op Cell

def envUpdate (bad : Nat → Bool) (cells : Nat → Cell) (orig : Nat) (data : List Nat) (ops : Ops) :
    Ended × (Nat → Cell) × Nat :=
  match newBlock bad orig with
  | none => (.returned 1, cells, orig)
  | some new =>
    let cells := perform cells new (erased data.length) ops.eraseNew
    match ops.eraseNew.status with
    | .error => (.returned 1, cells, orig)
    | .cut => (.lost, cells, orig)
    | .done =>
      let cells := perform cells new (.ok (image data)) ops.program
      match ops.program.status with
      | .error => (.returned 1, cells, orig)
      | .cut => (.lost, cells, orig)
      | .done =>
        let cells := perform cells orig (erased data.length) ops.eraseOld
        match ops.eraseOld.status with
        | .error => (.returned 1, cells, new)
        | .cut => (.lost, cells, new)
        | .done => (.returned 0, cells, new)

/-- `nand_block` is there once `env_init` has found an environment. -/
structure Machine where
  cells : Nat → Cell
  ram : Option Mem
  block : Option Nat

/-- A call of `wmt_setsyspara`, with what its new buffer holds, or a reboot. -/
inductive Event where
  | set (buf : Image) (beyond : Mem) (name : List Nat) (value : Option (List Nat)) (ops : Ops)
  | reboot

def Machine.load (bad : Nat → Bool) (w : Machine) (buf : Image) (beyond : Mem) : Mem × Option Nat :=
  match w.ram with
  | some m => (m, w.block)
  | none =>
    let (block, i) := envInit bad w.cells buf
    (memOf i.data beyond, block)

def envMaxSize : Nat := 65536

/-- The data that `env_update` takes from the block in memory. -/
def areaOf (m : Mem) : List Nat := bytesOf m 0 (envMaxSize - 4)

/-- `none` is an access to memory or to a device that is not there. -/
def Machine.set (bad : Nat → Bool) (w : Machine) (m : Mem) (block : Option Nat) (name : List Nat)
    (value : Option (List Nat)) (ops : Ops) : Option (Reply × Machine) :=
  match setsyspara envMaxSize m name value true with
  | none => none
  | some (rcode, m') =>
    if rcode ≠ 0 then some (.rejected, ⟨w.cells, some m', block⟩)
    else
      match block with
      | none => none
      | some orig =>
        match envUpdate bad w.cells orig (areaOf m') ops with
        | (.returned 0, cells, b) => some (.updated (areaOf m'), ⟨cells, some m', some b⟩)
        | (.returned _, cells, b) => some (.unwritten (areaOf m'), ⟨cells, some m', some b⟩)
        | (.lost, cells, _) => some (.lost (areaOf m'), ⟨cells, none, none⟩)

def step (bad : Nat → Bool) (w : Machine) : Event → Option (Reply × Machine)
  | .reboot => some (.rebooted, ⟨w.cells, none, none⟩)
  | .set buf beyond name value ops =>
    match w.ram, w.load bad buf beyond with
    | none, (m, none) => some (.rejected, ⟨w.cells, some m, none⟩)
    | _, (m, block) => w.set bad m block name value ops

end Apc8750.NandEnv
