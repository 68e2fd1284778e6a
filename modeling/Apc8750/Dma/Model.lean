import Apc8750.Library.Cyclic
import Apc8750.Library.Runs

namespace Apc8750.Dma

def einval : Int := -22
def enodev : Int := -19
def ebusy : Int := -16
def eoverflow : Int := -75

def maxDmaChannels : Nat := 16

def maxDescriptSize : Nat := 0x400

def size32KB : Nat := 0x8000
def size64KB : Nat := 0x10000

def des0Size : Nat := 0x8
def des1Size : Nat := 0x10

/-- `DMA_DES_END`, `DMA_FORMAT_DES1`, `DMA_INTEN_DES` and `DMA_DES_REQCNT_MASK`. -/
def desEnd : BitVec 32 := 0x80000000#32
def formatDes1 : BitVec 32 := 0x40000000#32
def intenDes : BitVec 32 := 0x20000000#32
def desReqcntMask : BitVec 32 := 0xFFFF#32

def evtNoStatus : Nat := 0
def evtSuccess : Nat := 15

def memoryDmaReq : Nat := 32
def deviceReserved : Nat := 33

structure DeviceCfg where
  deviceReqType : Nat
  chunkSize : Nat
  deriving DecidableEq

structure DesAttribute where
  endDescript : Nat
  interruptEn : Nat
  size : Nat
  fmt : Nat
  dataAddr : BitVec 32
  branchAddr : BitVec 32
  deriving DecidableEq

structure MemRegGroup where
  if0rbr : BitVec 32
  if0dar : BitVec 32
  if0cpr : BitVec 32
  deriving DecidableEq

/-- `struct dma_info_s` with the words of `des_0`, `SYSTEM_DMA_RUN` as `run`, the slot the
controller finishes next, and the slots written and not finished, oldest first. -/
structure Chan where
  inUse : Bool
  deviceNo : Nat
  deviceCfg : DeviceCfg
  des0cnt : Nat
  maxDes0cnt : Nat
  residueDes0cnt : Int
  accuSize : BitVec 32
  des0 : Nat → BitVec 32
  des0PhyAddr : BitVec 32
  run : Bool
  position : Nat
  pending : List Nat

/-- The state that `wmt_dma_init` leaves. -/
def unused : Chan where
  inUse := false
  deviceNo := deviceReserved
  deviceCfg := ⟨0, 0⟩
  des0cnt := 0
  maxDes0cnt := 0
  residueDes0cnt := 0
  accuSize := 0
  des0 := fun _ => 0
  des0PhyAddr := 0
  run := false
  position := 0
  pending := []

def reqCnt (attr : DesAttribute) (format : BitVec 32) : BitVec 32 :=
  (if attr.interruptEn = 1 then intenDes else 0) ||| (if attr.endDescript = 1 then desEnd else 0) |||
    format ||| BitVec.ofNat 32 attr.size

def createFmt0Descript (c : Chan) (cfg : DeviceCfg) (attr : DesAttribute) : Int × Chan :=
  let desOffset := c.des0cnt * 2
  if c.inUse = false then (einval, c)
  else if c.deviceNo ≠ cfg.deviceReqType then (enodev, c)
  else if attr.size > size64KB - 1 then (eoverflow, c)
  else
    let des0 := Function.update c.des0 desOffset (reqCnt attr 0)
    (0, { c with
      des0 := Function.update des0 (desOffset + 1) attr.dataAddr
      des0cnt := c.des0cnt + 1
      pending := c.pending ++ [c.des0cnt] })

def createFmt1Descript (c : Chan) (cfg : DeviceCfg) (attr : DesAttribute) : Int × Chan :=
  let desOffset := (c.maxDes0cnt - 1) * 2
  if c.inUse = false then (einval, c)
  else if c.deviceNo ≠ cfg.deviceReqType then (enodev, c)
  else if attr.size > size64KB - 1 then (eoverflow, c)
  else
    let des0 := Function.update c.des0 desOffset
      (reqCnt attr (if attr.fmt = 1 then formatDes1 else 0))
    let des0 := Function.update des0 (desOffset + 1) attr.dataAddr
    (0, { c with
      des0 := Function.update des0 (desOffset + 2) attr.branchAddr
      des0cnt := 0
      pending := c.pending ++ [c.maxDes0cnt - 1] })

def clearLastDescript (c : Chan) (cfg : DeviceCfg) : Int × Chan :=
  let desOffset := (if c.des0cnt ≥ 1 then c.des0cnt - 1 else c.maxDes0cnt - 1) * 2
  if c.inUse = false then (einval, c)
  else if c.deviceNo ≠ cfg.deviceReqType then (enodev, c)
  else (0, { c with des0 := Function.update c.des0 desOffset (c.des0 desOffset &&& ~~~desEnd) })

/-- One round of `add_descript`, of `xferSize` bytes with `left` bytes to go. -/
def addOne (c : Chan) (cfg : DeviceCfg) (attr : DesAttribute) (ptr : BitVec 32)
    (xferSize left : Nat) : DesAttribute × Chan :=
  let accuSize := c.accuSize + BitVec.ofNat 32 xferSize
  let full := accuSize.toNat ≥ cfg.chunkSize
  let c := { c with accuSize := if full then BitVec.ofNat 32 xferSize else accuSize }
  let attr := { attr with
    endDescript := if left ≤ size32KB then 1 else attr.endDescript
    interruptEn := if full then 1 else attr.interruptEn
    dataAddr := ptr
    size := xferSize }
  if c.des0cnt < c.maxDes0cnt - 1 then
    let attr := { attr with fmt := 0 }
    (attr, (createFmt0Descript c cfg attr).2)
  else
    let attr := { attr with fmt := 1, branchAddr := c.des0PhyAddr }
    (attr, (createFmt1Descript c cfg attr).2)

def addLoop (cfg : DeviceCfg) (size residueSize xferIndex : Nat) (ptr : BitVec 32)
    (attr : DesAttribute) (c : Chan) : Nat × Chan :=
  if residueSize = 0 then (xferIndex, c)
  else
    let c := if residueSize = size then (clearLastDescript c cfg).2 else c
    let xferSize := min residueSize size32KB
    let left := residueSize - xferSize
    let ptr := ptr + BitVec.ofNat 32 (xferSize * xferIndex)
    let r := addOne c cfg attr ptr xferSize left
    addLoop cfg size left (xferIndex + 1) ptr r.1 r.2
  termination_by residueSize
  decreasing_by
    simp only [size32KB]
    omega

/-- `need_add_descript_count`. -/
def needed (size : Nat) : Nat := size / size32KB + if size % size32KB ≠ 0 then 1 else 0

def addDescript (c : Chan) (cfg : DeviceCfg) (ptr : BitVec 32) (size : Nat)
    (stack : DesAttribute) : Int × Chan :=
  if c.inUse = false then (einval, c)
  else if c.deviceNo ≠ cfg.deviceReqType then (enodev, c)
  else if (c.maxDes0cnt : Int) - c.residueDes0cnt < needed size then (ebusy, c)
  else
    let r := addLoop cfg size size 0 ptr stack c
    (r.1, r.2)

def reviseDescript (c : Chan) (cfg : DeviceCfg) (regs : MemRegGroup) : Chan :=
  if c.inUse = false then c
  else if c.deviceNo ≠ cfg.deviceReqType then c
  else
    let reqCount := regs.if0rbr &&& desReqcntMask
    let desOffset := (regs.if0cpr - c.des0PhyAddr).toNat / 4
    if reqCount.toNat > 0 then
      let des0 := Function.update c.des0 desOffset (c.des0 desOffset &&& ~~~desReqcntMask ||| reqCount)
      { c with des0 := Function.update des0 (desOffset + 1) regs.if0dar }
    else c

def wmtStartDma (c : Chan) (ptr : BitVec 32) (size : Nat) (stack : DesAttribute) : Int × Chan :=
  if size = 0 then (einval, c)
  else
    let r := addDescript c c.deviceCfg ptr size stack
    let c := r.2
    if r.1 < 0 then (ebusy, c)
    else
      let residue := c.residueDes0cnt + r.1
      let c := { c with
        residueDes0cnt := if residue > c.maxDes0cnt - 1 then (c.maxDes0cnt : Int) - 1 else residue }
      (0, if c.run then c else { c with position := 0, run := true })

def wmtWakeDma (c : Chan) (ptr : BitVec 32) (size : Nat) (stack : DesAttribute) : Int × Chan :=
  if size = 0 then (einval, c)
  else if size > c.deviceCfg.chunkSize then (eoverflow, c)
  else if c.run then
    let r := addDescript c c.deviceCfg ptr size stack
    (r.1, { r.2 with residueDes0cnt := r.2.residueDes0cnt + r.1 })
  else (0, c)

/-- The memory of the descriptors, and of the second table of a memory channel. -/
structure Grant where
  words : Nat → BitVec 32
  phyAddr : BitVec 32
  phyAddr1 : BitVec 32

/-- The second table's address goes into the same field as the first one's. -/
def requested (table : Nat → DeviceCfg) (c : Chan) (device : Nat) (grant : Grant) : Chan :=
  { c with
    inUse := true
    deviceNo := device
    deviceCfg := table device
    des0cnt := 0
    accuSize := 0
    residueDes0cnt := 0
    maxDes0cnt := (maxDescriptSize - des1Size) / des0Size + 1
    des0 := grant.words
    des0PhyAddr := if device = memoryDmaReq then grant.phyAddr1 else grant.phyAddr
    run := false
    pending := [] }

def wmtClearDma (c : Chan) : Chan :=
  { c with run := false, des0cnt := 0, accuSize := 0, residueDes0cnt := 0, pending := [] }

def wmtFreeDma (c : Chan) : Chan :=
  if c.inUse = false then c
  else if c.deviceNo = deviceReserved then c
  else
    { wmtClearDma c with
      deviceNo := deviceReserved
      des0cnt := 0
      accuSize := 0
      residueDes0cnt := 0
      maxDes0cnt := 0
      inUse := false }

def wmtResumeDma (c : Chan) (active : Bool) (regs : MemRegGroup) : Chan :=
  let c := if active then { c with run := false } else c
  if c.inUse = false then c
  else { reviseDescript c c.deviceCfg regs with run := true }

/-- The end of `dma_irq_handler`. -/
def countDown (c : Chan) : Chan :=
  if c.residueDes0cnt > 0 then { c with residueDes0cnt := c.residueDes0cnt - 1 } else c

def dmaIrqHandler (c : Chan) (channelSt : Nat) (active : Bool) (regs : MemRegGroup) : Chan :=
  if channelSt = evtNoStatus then countDown (reviseDescript c c.deviceCfg regs)
  else if channelSt ≠ evtSuccess then wmtResumeDma c active regs
  else countDown c

def finish (c : Chan) : Option Chan :=
  match c.pending with
  | [] => none
  | _ :: rest => some { c with pending := rest, position := Cyclic.next c.maxDes0cnt c.position }

def interrupt (c : Chan) (channelSt : Nat) (active : Bool) (regs : MemRegGroup) : Option Chan :=
  if c.run = false then none
  else if channelSt = evtNoStatus ∨ channelSt = evtSuccess then
    (finish c).map fun c => dmaIrqHandler c channelSt active regs
  else some (dmaIrqHandler c channelSt active regs)

abbrev State := Nat → Chan

inductive Op where
  | request (device : Nat) (grant : Grant)
  | start (ch : Nat) (ptr : BitVec 32) (size : BitVec 32) (stack : DesAttribute)
  | wake (ch : Nat) (ptr : BitVec 32) (size : BitVec 32) (stack : DesAttribute)
  | irq (ch : Nat) (channelSt : Nat) (active : Bool) (regs : MemRegGroup)
  | clear (ch : Nat)
  | free (ch : Nat)

def wmtRequestDma (table : Nat → DeviceCfg) (s : State) (device : Nat) (grant : Grant) :
    Int × State :=
  match (List.range' 1 (maxDmaChannels - 1)).find? fun ch => ! (s ch).inUse with
  | none => (ebusy, s)
  | some ch => (ch, Function.update s ch (requested table (s ch) device grant))

def onChannel (s : State) (ch : Nat) (call : Chan → Option (Int × Chan)) : Option (Int × State) :=
  if ch < maxDmaChannels then
    (call (s ch)).map fun r => (r.1, Function.update s ch r.2)
  else none

def step (table : Nat → DeviceCfg) (s : State) : Op → Option (Int × State)
  | .request device grant => some (wmtRequestDma table s device grant)
  | .start ch ptr size stack => onChannel s ch fun c => some (wmtStartDma c ptr size.toNat stack)
  | .wake ch ptr size stack => onChannel s ch fun c => some (wmtWakeDma c ptr size.toNat stack)
  | .irq ch channelSt active regs =>
    onChannel s ch fun c => (interrupt c channelSt active regs).map fun c => (0, c)
  | .clear ch => onChannel s ch fun c => some (0, wmtClearDma c)
  | .free ch => onChannel s ch fun c => some (0, wmtFreeDma c)

end Apc8750.Dma
