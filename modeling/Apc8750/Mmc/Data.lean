import Mathlib.Algebra.Order.Group.Nat

namespace Apc8750.Mmc.Data

def maxDescNum : Nat := 256

structure Entry where
  addr : Nat
  len : Nat

/-- `SD_PDMA_DESC_S`; `end` and `i` go together. -/
structure Desc where
  reqCount : Nat
  dataBufferAddr : Nat
  last : Bool

structure Command where
  opcode : Nat
  arg : Nat
  blocks : Nat
  descs : List Desc

structure Request where
  read : Bool
  arg : Nat
  blksz : Nat
  blockaddr : Bool
  sg : List Entry

def mmcReadSingleBlock : Nat := 17

def mmcReadMultipleBlock : Nat := 18

def mmcWriteBlock : Nat := 24

def mmcWriteMultipleBlock : Nat := 25

def Request.opcode (r : Request) : List Entry → Nat
  | [e] =>
    if e.len / r.blksz = 1 then if r.read then mmcReadSingleBlock else mmcWriteBlock
    else if r.read then mmcReadMultipleBlock else mmcWriteMultipleBlock
  | _ => if r.read then mmcReadMultipleBlock else mmcWriteMultipleBlock

def total : List Entry → Nat
  | [] => 0
  | e :: sg => e.len + total sg

/-- The calls of `atsmb_init_short_desc` for the entries of a command. -/
def descs : List Entry → List Desc
  | [] => []
  | e :: sg => ⟨e.len % 2 ^ 16, e.addr, sg.isEmpty⟩ :: descs sg

/-- The loop of `atsmb_start_data` over `dma_loop`, with the entries and rounds that are left. -/
def loop (r : Request) : Nat → List Entry → Nat → Nat → List Command × Nat
  | 0, _, _, bytesXfered => ([], bytesXfered)
  | times + 1, sg, cardAddr, bytesXfered =>
    let sgTransferLen := if 0 < times then maxDescNum else sg.length
    let part := sg.take sgTransferLen
    let (rest, bytes) := loop r times (sg.drop sgTransferLen)
      ((cardAddr + total part >>> if r.blockaddr then 9 else 0) % 2 ^ 32) (bytesXfered + total part)
    (⟨r.opcode sg, cardAddr, total part / r.blksz, descs part⟩ :: rest, bytes)

def Describes : List Desc → List Entry → Prop
  | [], _ => False
  | [d], sg => d.last = true ∧ sg = [⟨d.dataBufferAddr, d.reqCount⟩]
  | d :: d' :: ds, sg => d.last = false ∧
    ∃ rest, sg = ⟨d.dataBufferAddr, d.reqCount⟩ :: rest ∧ Describes (d' :: ds) rest

structure Sound (r : Request) : Prop where
  pos : 0 < r.blksz
  entries : ∀ e ∈ r.sg, 0 < e.len ∧ r.blksz ∣ e.len ∧ e.len < 2 ^ 16
  block : r.blockaddr = true → r.blksz = 512

variable {r : Request} {sg : List Entry}

end Apc8750.Mmc.Data
