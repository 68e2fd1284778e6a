import Apc8750.Nand.Table

namespace Apc8750.Nand

inductive Pattern where
  | primary
  | mirror
  deriving DecidableEq

/-- No pattern, or a table with its version and words or the code of the read. -/
inductive Content where
  | blank
  | table (pattern : Pattern) (version : Nat) (data : Except Int Bbt)

abbrev Flash := Nat → Content

/-- The table blocks below `last`, from `dwBlockCount - BBT_MAX_BLOCK` up. -/
def tableBlocks (n last : Nat) : List Nat :=
  List.range' (n - bbtMaxBlock) (last - (n - bbtMaxBlock))

/-- How `find_bbt` ends: with 1, with an error, or with 0 and a table in memory. -/
inductive Found where
  | missing
  | failed (rc : Int)
  | loaded (version : Nat) (bbt : Bbt)

/-- The loop of `find_bbt`. Only the lowest byte of a version is read. -/
def findLoop (n : Nat) (flash : Flash) : Option (Nat × Bbt) → List Nat → Found
  | none, [] => .missing
  | some (version, bbt), [] => .loaded version bbt
  | none, i :: rest =>
    match flash i with
    | .blank => findLoop n flash none rest
    | .table _ version data =>
      if i = n - bbtMaxBlock then .failed (-1)
      else
        match data with
        | .error rc => .failed rc
        | .ok bbt => findLoop n flash (some (version % 256, bbt)) rest
  | some (bbtVersion, bbt), i :: rest =>
    match flash i with
    | .blank => findLoop n flash (some (bbtVersion, bbt)) rest
    | .table _ version data =>
      if bbtVersion < version % 256 then
        match data with
        | .error rc => .failed rc
        | .ok bbt => .loaded (version % 256) bbt
      else .loaded bbtVersion bbt

def findBbt (n : Nat) (flash : Flash) : Found := findLoop n flash none (tableBlocks n n).reverse

/-- Where it fails, or the power goes, the block is left with something. -/
inductive Outcome where
  | done
  | failed (left : Content)
  | lost (left : Content)

/-- The outcomes for each block during one update, which erases and programs a block at
most once. -/
structure Ops where
  erase : Nat → Outcome
  program : Nat → Outcome

structure Memory where
  bbt : Bbt
  version : Nat
  flash : Flash

namespace Memory

def put (m : Memory) (i : Nat) (c : Content) : Memory :=
  { m with flash := Function.update m.flash i c }

def mark (m : Memory) (i : Nat) : Memory := { m with bbt := updateBbtInram m.bbt i }

def bump (m : Memory) : Memory := { m with version := (m.version + 1) % 2 ^ 32 }

def copy (m : Memory) (pattern : Pattern) : Content := .table pattern m.version (.ok m.bbt)

end Memory

/-- The block of the primary copy. An error is the flash when the power goes. -/
def writePrimary (ops : Ops) : List Nat → Memory → Except Flash (Option Nat × Memory)
  | [], m => .ok (none, m)
  | i :: rest, m =>
    if isbbtbadblock m.bbt i then writePrimary ops rest m
    else
      match ops.erase i with
      | .lost left => .error (m.put i left).flash
      | .failed left => writePrimary ops rest ((m.put i left).mark i)
      | .done =>
        match ops.program i with
        | .lost left => .error (m.put i left).flash
        | .failed left => writePrimary ops rest ((m.put i left).mark i)
        | .done => .ok (some i, m.put i (m.copy .primary))

/-- `if (!need) bbt_version++` after a table block has gone bad. -/
def Memory.fresh (m : Memory) (need : Bool) : Memory := if need then m else m.bump

def eraseRest (ops : Ops) : List Nat → Bool → Memory → Except Flash (Bool × Memory)
  | [], need, m => .ok (need, m)
  | i :: rest, need, m =>
    if isbbtbadblock m.bbt i then eraseRest ops rest need m
    else
      match ops.erase i with
      | .lost left => .error (m.put i left).flash
      | .failed left => eraseRest ops rest true (((m.put i left).mark i).fresh need)
      | .done => eraseRest ops rest need (m.put i .blank)

def writeMirror (ops : Ops) : List Nat → Bool → Memory → Except Flash Memory
  | [], _, m => .ok m
  | i :: rest, need, m =>
    if isbbtbadblock m.bbt i then writeMirror ops rest need m
    else
      match ops.program i with
      | .lost left => .error (m.put i left).flash
      | .failed left => writeMirror ops rest true (((m.put i left).mark i).fresh need)
      | .done => .ok (m.put i (m.copy .mirror))

def updateBbtInflash (n : Nat) (ops : Ops) (m : Memory) : Except Flash (Int × Memory) :=
  match writePrimary ops (tableBlocks n n).reverse m.bump with
  | .error flash => .error flash
  | .ok (none, m) => .ok (-1, m)
  | .ok (some block, m) =>
    if block ≤ n - bbtMaxBlock then .ok (-1, m)
    else
      match eraseRest ops (tableBlocks n block) false m with
      | .error flash => .error flash
      | .ok (need, m) =>
        match writeMirror ops (tableBlocks n block).reverse need m with
        | .error flash => .error flash
        | .ok m => .ok (0, m)

end Apc8750.Nand
