import Apc8750.Library.Runs

namespace Apc8750.Mmc

def sendStatus : Nat := 13

def readSingleBlock : Nat := 17

def readMultipleBlock : Nat := 18

def writeBlock : Nat := 24

def writeMultipleBlock : Nat := 25

def sdIoRwExtended : Nat := 53

def transferOpcodes : List Nat :=
  [writeBlock, writeMultipleBlock, readSingleBlock, readMultipleBlock, sdIoRwExtended]

def cardNotInSlotGpi : BitVec 8 := 0x08#8

def multiXferDone : BitVec 8 := 0x10#8

def blockXferDone : BitVec 8 := 0x20#8

def deviceInsert : BitVec 8 := 0x80#8

def sdioInt : BitVec 8 := 0x01#8

def rspDone : BitVec 8 := 0x02#8

def rspTimeout : BitVec 8 := 0x04#8

def autoStop : BitVec 8 := 0x08#8

def dataTimeout : BitVec 8 := 0x10#8

def rspCrcErr : BitVec 8 := 0x20#8

def readCrcErr : BitVec 8 := 0x40#8

def writeCrcErr : BitVec 8 := 0x80#8

def evtSuccess : Nat := 0xf

def eio : Int := -5

def einval : Int := -22

def eilseq : Int := -84

def etimedout : Int := -110

def maxDescNum : Nat := 256

/-- `struct mmc_data`: the direction, the block size and the lengths of the scatter list. -/
structure Data where
  read : Bool
  blksz : Nat
  sg : List Nat

/-- `struct mmc_request` with its command. The block commands carry data. -/
structure Request where
  opcode : Nat
  flags : Nat
  resp : List Nat
  data : Option Data
  carries : opcode ∈ transferOpcodes → data.isSome

/-- A call of `atsmb_start_data`; its number stands for its completion, which is on its
stack. -/
structure Call where
  id : Nat
  req : Request
  data : Data

/-- The points of the status loop of `atsmb_start_data`. -/
inductive StatusPoint where
  | arm | soft | prep | issue | wait | check | again
  deriving DecidableEq

inductive DataPoint where
  | select | arm | soft | prep | dma | issue | wait | test | reset | fail | check
  deriving DecidableEq

inductive Pc where
  | idle
  | commandPrep (req : Request)
  | commandIssue (req : Request)
  | backPrep (req : Request)
  | backDma (req : Request)
  | backIssue (req : Request)
  | start (call : Call)
  | top (call : Call) (loop : Nat) (rest : List Nat)
  | status (call : Call) (loop : Nat) (rest : List Nat) (count : Nat) (point : StatusPoint)
  | data (call : Call) (loop : Nat) (rest : List Nat) (point : DataPoint)
  | close (call : Call)
  | finish (call : Call)

/-- A command that was issued and has neither been answered nor given up: without or with
the DMA. -/
inductive Flight where
  | command
  | transfer
  deriving DecidableEq

/-- The end of a request, a call of `complete`, and the return of `atsmb_start_data`. -/
inductive Event where
  | ended (id : Nat)
  | completed (id : Nat)
  | returned (id : Nat)
  deriving DecidableEq

inductive Fault where
  | cmd
  | data
  deriving DecidableEq

/-- `mrq` is the number of the request, `count` the completion of the running call. -/
structure Host where
  mrq : Nat
  cmd : Option Request
  opcode : Nat
  doneData : Option Nat
  softTimeout : Bool
  dmaIntMask : Nat
  cmdError : Int
  dataError : Int
  resp : List Nat
  mask0 : BitVec 8
  mask1 : BitVec 8
  ier : Bool
  write : Bool
  cmdType : Nat
  count : Nat
  pc : Pc
  next : Nat
  pending : Option Nat
  flight : Option Flight
  log : List Event

def requestEnd (h : Host) : Host :=
  { h with pending := none, log := h.log ++ [.ended h.mrq] }

/-- The end of both handlers, with `atsmb_wait_done`. -/
def wake (h : Host) : Host :=
  match h.doneData with
  | some id => { h with
      flight := none
      softTimeout := false
      count := h.count + 1
      doneData := none
      log := h.log ++ [.completed id] }
  | none => requestEnd { h with flight := none }

def setErrors (h : Host) (e : Int) : Except Fault Host :=
  match h.cmd with
  | none => .error .cmd
  | some cmd => if cmd.data.isSome then .ok { h with cmdError := e, dataError := e } else .error .data

def word (rsp : List Nat) (k : Nat) : Nat :=
  rsp.getD (k % 16) 0 <<< 24 ||| rsp.getD ((k + 1) % 16) 0 <<< 16 |||
    rsp.getD ((k + 2) % 16) 0 <<< 8 ||| rsp.getD ((k + 3) % 16) 0

def rspR2 : Nat := 0x07

def cmdBc : Nat := 0x40

def cmdBcr : Nat := 0x60

def fmtCheckRsp (h : Host) (rsp : List Nat) : Except Fault Host :=
  match h.cmd with
  | none => .error .cmd
  | some cmd =>
    let resp := if cmd.flags ≠ rspR2 ∧ cmd.flags ≠ (rspR2 ||| cmdBcr) then h.resp.set 0 (word rsp 1)
      else [word rsp 1, word rsp 5, word rsp 9, word rsp 13]
    .ok { h with
      resp
      cmdError := if cmd.flags ≠ 0 ∧ cmd.flags ≠ cmdBc ∧ ∀ w ∈ resp, w = 0 then etimedout
        else h.cmdError }

def dmaErrors (h : Host) (event : Nat) : Except Fault Host :=
  if event = evtSuccess then
    if h.dmaIntMask = evtSuccess then setErrors h 0 else .ok h
  else setErrors h eio

/-- The response is looked at only when the DMA interrupt ends the command. -/
def dmaRsp (h : Host) (rsp : List Nat) : Except Fault Host :=
  if h.dmaIntMask = evtSuccess then fmtCheckRsp h rsp else .ok h

def dmaIsr (h : Host) (event : Nat) (rsp : List Nat) : Except Fault Host := do
  let h ← dmaErrors h event
  let h ← dmaRsp h rsp
  let h := { h with ier := false }
  if event ≠ evtSuccess ∨ h.dmaIntMask = evtSuccess then .ok (wake h) else .ok h

def disableInt (h : Host) : Host :=
  { h with
    mask0 := h.mask0 &&& ~~~(blockXferDone ||| multiXferDone)
    mask1 := h.mask1 &&& ~~~(writeCrcErr ||| readCrcErr ||| rspCrcErr ||| dataTimeout ||| autoStop |||
      rspTimeout ||| rspDone) }

def regularErrors (h : Host) (status0 status1 : BitVec 8) : Except Fault Host :=
  if h.opcode = writeBlock then
    setErrors h (if status0 &&& blockXferDone ≠ 0 ∧ status1 &&& rspDone ≠ 0 then 0 else eio)
  else if h.opcode = writeMultipleBlock ∨ h.opcode = readMultipleBlock then
    setErrors h (if status1 &&& (autoStop ||| rspDone) ≠ 0 ∧ status0 &&& multiXferDone ≠ 0 then 0
      else eio)
  else if h.opcode = readSingleBlock then setErrors h eio
  else if h.opcode = sdIoRwExtended then
    if h.write then
      if h.cmdType = 1 then
        setErrors h (if status0 &&& blockXferDone ≠ 0 ∧ status1 &&& rspDone ≠ 0 then 0 else eio)
      else if h.cmdType = 5 then
        setErrors h (if status0 &&& multiXferDone ≠ 0 ∧ status1 &&& rspDone ≠ 0 then 0 else eio)
      else setErrors h eio
    else setErrors h eio
  else match h.cmd with
    | none => .error .cmd
    | some cmd =>
      if cmd.data.isSome ∧ h.opcode ≠ sendStatus then setErrors h eio
      else if status1 &&& rspDone ≠ 0 then
        .ok { h with
          cmdError := if status0 &&& cardNotInSlotGpi ≠ 0 ∧ h.opcode = sendStatus then einval else 0 }
      else .ok { h with cmdError := if status1 &&& rspTimeout ≠ 0 then etimedout else eilseq }

/-- The card was put in or taken out, and the mask lets that through. -/
def Inserted (h : Host) (status0 : BitVec 8) : Prop :=
  status0 &&& deviceInsert ≠ 0 ∧ h.mask0 &&& deviceInsert ≠ 0

def SdioOnly (h : Host) (status0 status1 : BitVec 8) : Prop :=
  status1 &&& h.mask1 = sdioInt ∧ status0 &&& h.mask0 = 0

instance : Decidable (Inserted h status0) := by unfold Inserted; infer_instance

instance : Decidable (SdioOnly h status0 status1) := by unfold SdioOnly; infer_instance

def regularIsr (h : Host) (status0 status1 : BitVec 8) (rsp : List Nat) : Except Fault Host :=
  if Inserted h status0 then .ok h
  else if SdioOnly h status0 status1 then .ok h
  else if (status0 &&& h.mask0) ||| (status1 &&& h.mask1) = 0 then .ok h
  else do
    let h ← regularErrors h status0 status1
    let h ← fmtCheckRsp h rsp
    .ok (wake (disableInt h))

def prepCmd (h : Host) (opcode : Nat) (mask0 mask1 : BitVec 8) (cmdType op : Nat) : Host :=
  { h with
    opcode
    mask0 := h.mask0 ||| mask0
    mask1 := h.mask1 ||| mask1
    cmdType
    write := if op = 1 then false else if op = 2 then true else h.write }

def configDma (h : Host) (dmaMask : Nat) : Host := { h with ier := true, dmaIntMask := dmaMask }

structure Transfer where
  opcode : Nat
  cmdType : Nat
  op : Nat
  mask0 : BitVec 8
  mask1 : BitVec 8
  dmaMask : Nat

def Call.select (call : Call) (rest : List Nat) : Transfer :=
  let one := rest.headD 0 / call.data.blksz = 1 ∧ rest.length = 1
  let errors := dataTimeout ||| rspCrcErr ||| rspTimeout
  if call.req.opcode = sdIoRwExtended then
    if one then
      if call.data.read then ⟨sdIoRwExtended, 2, 1, 0, readCrcErr ||| errors, evtSuccess⟩
      else ⟨sdIoRwExtended, 1, 2, blockXferDone, writeCrcErr ||| errors, 0⟩
    else
      if call.data.read then ⟨sdIoRwExtended, 6, 1, 0, readCrcErr ||| errors, evtSuccess⟩
      else ⟨sdIoRwExtended, 5, 2, multiXferDone, writeCrcErr ||| errors, 0⟩
  else
    if one then
      if call.data.read then ⟨readSingleBlock, 2, 1, 0, readCrcErr ||| errors, evtSuccess⟩
      else ⟨writeBlock, 1, 2, blockXferDone, writeCrcErr ||| errors, 0⟩
    else
      if call.data.read then ⟨readMultipleBlock, 4, 1, 0, autoStop ||| errors, 0⟩
      else ⟨writeMultipleBlock, 3, 2, 0, autoStop ||| errors, 0⟩

def Call.dmaTimes (call : Call) : Nat :=
  call.data.sg.length / maxDescNum + if call.data.sg.length % maxDescNum = 0 then 0 else 1

def Call.sgTransferLen (call : Call) (loop : Nat) (rest : List Nat) : Nat :=
  if loop < call.dmaTimes then maxDescNum else rest.length

def Host.inTran (h : Host) : Prop := h.resp.getD 0 0 &&& 0x1f00 = 0x900

instance : Decidable (Host.inTran h) := by unfold Host.inTran; infer_instance

def statusStep (h : Host) (call : Call) (loop : Nat) (rest : List Nat) (count : Nat) :
    StatusPoint → Option Host
  | .arm => some { h with doneData := some call.id, pc := .status call loop rest count .soft }
  | .soft => some { h with softTimeout := true, pc := .status call loop rest count .prep }
  | .prep => some { prepCmd h sendStatus 0 (rspDone ||| rspCrcErr ||| rspTimeout) 0 0 with
      pc := .status call loop rest count .issue }
  | .issue => some { h with
      flight := some .command
      pc := .status call loop rest count .wait }
  | .wait => if h.count = 0 then none else some { h with
      count := h.count - 1
      pc := .status call loop rest count .check }
  | .check =>
    if h.cmdError ≠ 0 then some { h with cmdError := eio, pc := .finish call }
    else some { h with pc := .status call loop rest count .again }
  | .again =>
    if ¬ h.inTran ∧ count > 0 then some { h with pc := .status call loop rest (count - 1) .arm }
    else some { h with pc := .data call loop rest .select }

/-- One step of the transfer. The soft reset of the DMA may or may not clear its interrupt
enable. -/
def dataStep (resets : Bool) (h : Host) (call : Call) (loop : Nat) (rest : List Nat) :
    DataPoint → Option Host
  | .select => some { h with
      opcode := (call.select rest).opcode
      pc := .data call loop rest .arm }
  | .arm => some { h with doneData := some call.id, pc := .data call loop rest .soft }
  | .soft => some { h with softTimeout := true, pc := .data call loop rest .prep }
  | .prep =>
    let t := call.select rest
    some { prepCmd h t.opcode t.mask0 t.mask1 t.cmdType t.op with
      pc := .data call loop rest .dma }
  | .dma => some { configDma h (call.select rest).dmaMask with pc := .data call loop rest .issue }
  | .issue => some { h with flight := some .transfer, pc := .data call loop rest .wait }
  | .wait => if h.count = 0 then none else some { h with
      count := h.count - 1
      pc := .data call loop rest .test }
  | .test => some { h with
      pc := .data call loop rest (if h.softTimeout then .reset else .check) }
  | .reset => some { disableInt h with
      ier := h.ier && !resets
      pc := .data call loop rest .fail }
  | .fail => some { h with
      cmdError := etimedout
      dataError := etimedout
      pc := .data call loop rest .check }
  | .check =>
    if h.cmdError ≠ 0 ∨ h.dataError ≠ 0 then some { h with pc := .finish call }
    else some { h with pc := .top call (loop + 1) (rest.drop (call.sgTransferLen loop rest)) }

def threadStep (resets : Bool) (h : Host) : Option Host :=
  match h.pc with
  | .idle => none
  | .commandPrep req => some { prepCmd h req.opcode 0 (rspDone ||| rspCrcErr ||| rspTimeout) 0 0 with
      pc := .commandIssue req }
  | .commandIssue _ => some { h with flight := some .command, pc := .idle }
  | .backPrep req =>
    some { prepCmd h req.opcode 0 (rspCrcErr ||| rspTimeout ||| readCrcErr ||| dataTimeout) 2 1 with
      pc := .backDma req }
  | .backDma req => some { configDma h evtSuccess with pc := .backIssue req }
  | .backIssue _ => some { h with flight := some .transfer, pc := .idle }
  | .start call => some { h with cmdError := 0, dataError := 0, pc := .top call 1 call.data.sg }
  | .top call loop rest =>
    if loop ≤ call.dmaTimes then
      if call.req.opcode = sdIoRwExtended then some { h with pc := .data call loop rest .select }
      else some { h with pc := .status call loop rest 9999 .arm }
    else some { h with pc := .close call }
  | .status call loop rest count point => statusStep h call loop rest count point
  | .data call loop rest point => dataStep resets h call loop rest point
  | .close call => some { h with opcode := 0, pc := .finish call }
  | .finish call =>
    let h := requestEnd h
    some { h with log := h.log ++ [.returned call.id], pc := .idle }

def timeoutStep (h : Host) : Option Host :=
  if h.count = 0 then
    match h.pc with
    | .status call loop rest count .wait =>
      some { h with flight := none, pc := .status call loop rest count .check }
    | .data call loop rest .wait => some { h with flight := none, pc := .data call loop rest .test }
    | _ => none
  else none

def Request.entry (req : Request) (id : Nat) : Pc :=
  match req.data with
  | some data => if req.opcode ∈ transferOpcodes then .start ⟨id, req, data⟩ else .backPrep req
  | none => .commandPrep req

def enter (h : Host) (req : Request) : Host :=
  { h with
    mrq := h.next
    cmd := some req
    resp := req.resp
    doneData := none
    count := 0
    pc := req.entry h.next
    next := h.next + 1
    pending := some h.next }

def enableSdioIrq (h : Host) (enable : Bool) : Host :=
  { h with mask1 := if enable then h.mask1 ||| sdioInt else h.mask1 &&& ~~~sdioInt }

inductive Action where
  | request (req : Request)
  | thread
  | timeout
  | card (status0 status1 : BitVec 8) (rsp : List Nat)
  | dma (event : Nat) (rsp : List Nat)
  | sdioIrq (enable : Bool)

inductive Reply where
  | done
  | fault (f : Fault)
  deriving DecidableEq

def Reply.of (h : Host) : Except Fault Host → Reply × Host
  | .ok h => (.done, h)
  | .error f => (.fault f, h)

/-- The core hands in a request when the one before has been ended. -/
def step (resets : Bool) (h : Host) : Action → Option (Reply × Host)
  | .request req => match h.pending, h.pc with
    | none, .idle => some (.done, enter h req)
    | _, _ => none
  | .thread => (threadStep resets h).map fun h => (.done, h)
  | .timeout => (timeoutStep h).map fun h => (.done, h)
  | .card status0 status1 rsp => some (Reply.of h (regularIsr h status0 status1 rsp))
  | .dma event rsp => if h.ier then some (Reply.of h (dmaIsr h event rsp)) else none
  | .sdioIrq enable => some (.done, enableSdioIrq h enable)

/-- The driver after its initialisation, the interrupt of the card slot enabled. -/
def idle : Host where
  mrq := 0
  cmd := none
  opcode := 0
  doneData := none
  softTimeout := false
  dmaIntMask := 0
  cmdError := 0
  dataError := 0
  resp := [0, 0, 0, 0]
  mask0 := deviceInsert
  mask1 := 0
  ier := false
  write := false
  cmdType := 0
  count := 0
  pc := .idle
  next := 0
  pending := none
  flight := none
  log := []

end Apc8750.Mmc
