import Apc8750.Library.Runs
import Mathlib.Algebra.Order.Group.Nat
import Mathlib.Algebra.GroupWithZero.Nat

namespace Apc8750.Spi

def einval : Int := -22
def eagain : Int := -11

def spiFifoSize : Nat := 32

def pollingSpiRegTimeout : Nat := 0x20000

def srTfeiMask : Nat := 2048
def srRfeiMask : Nat := 256

/-- `program` is `ssn_ctrl == SSN_CTRL_PROGRAM`. -/
structure Hw where
  dmaSupport : Bool
  bits8 : Bool
  bits16 : Bool
  program : Bool
  maxTransferLength : Nat
  minFreqHz : Nat
  maxFreqHz : Nat
  deriving DecidableEq

/-- `struct spi_transfer`; `tx` and `rx` are whether there is a buffer. -/
structure Transfer where
  tx : Bool
  rx : Bool
  len : Nat
  csChange : Bool
  bitsPerWord : Nat
  speedHz : Nat
  deriving DecidableEq

/-- With what the driver reads of its device. `complete` and `context` are whether the pointer is
there. -/
structure Message where
  transfers : List Transfer
  complete : Bool
  context : Bool
  isDmaMapped : Bool
  dmaEn : Bool
  maxSpeedHz : Nat
  bitsPerWord : Nat
  deriving DecidableEq

/-- The transfer done, an acknowledge of another one or a signal, or the time over. -/
inductive DmaWait where
  | done
  | early
  | timeout
  deriving DecidableEq

/-- Per part `k`: whether the FIFO reset ends, the status, the bytes that have come in; and what
becomes of the DMA. -/
structure Outcome where
  reset : Nat → Bool
  txStatus : Nat → Nat → Nat
  rxStatus : Nat → Nat → Nat
  arrived : Nat → Nat
  wire : Nat → UInt8
  txRequest : Bool
  rxRequest : Bool
  wait : DmaWait

/-- The same for a message, with the reset of `wmt_spi_regs_config`. -/
structure MessageOutcome where
  config : Bool
  transfer : Nat → Outcome

/-- The chip select, if the driver drives it, and how many DMA channels it holds. -/
structure Line where
  cs : Bool
  channels : Nat
  deriving DecidableEq

/-- `while (timeout--)` over a register. -/
def poll (test : Nat → Bool) (reads : Nat → Nat) : Nat → Nat → Int
  | 0, _ => eagain
  | n + 1, i => if test (reads i) then 0 else poll test reads n (i + 1)

def spiTxIsFinish (sr : Nat → Nat) : Int :=
  poll (fun v => (v ||| srTfeiMask) != 0) sr pollingSpiRegTimeout 0

def spiRxIsFinish (sr : Nat → Nat) : Int :=
  poll (fun v => (v ||| srRfeiMask) != 0) sr pollingSpiRegTimeout 0

/-- Part `k` as it is read from the receive FIFO, `none` where nothing has come in. -/
def readFifo (o : Outcome) (k n : Nat) : List (Option UInt8) :=
  (List.range n).map fun i => if i < o.arrived k then some (o.wire (spiFifoSize * k + i)) else none

/-- The bytes counted as not transferred, and what is in the receive buffer. -/
structure Moved where
  left : Nat
  stored : List (Option UInt8)
  deriving DecidableEq

def store (t : Transfer) (stored more : List (Option UInt8)) : List (Option UInt8) :=
  if t.rx then stored ++ more else stored

/-- The part of `wmt_spi_write_read` behind its loop. -/
def remainder (t : Transfer) (o : Outcome) (k cnt : Nat) (stored : List (Option UInt8)) : Moved :=
  if cnt ≠ 0 ∧ cnt < spiFifoSize then
    if spiTxIsFinish (o.txStatus k) ≠ 0 then ⟨cnt, stored⟩
    else ⟨0, store t stored (readFifo o k cnt)⟩
  else ⟨cnt, stored⟩

/-- The loop of `wmt_spi_write_read`, from part `k` on. -/
def fifoLoop (t : Transfer) (o : Outcome) : Nat → Nat → Nat → List (Option UInt8) → Moved
  | 0, _, cnt, stored => ⟨cnt, stored⟩
  | fuel + 1, k, cnt, stored =>
    if cnt ≥ spiFifoSize then
      if spiTxIsFinish (o.txStatus k) ≠ 0 then ⟨cnt, stored⟩
      else
        let stored := store t stored (readFifo o k spiFifoSize)
        if spiRxIsFinish (o.rxStatus k) ≠ 0 then ⟨cnt, stored⟩
        else if o.reset (k + 1) = false then ⟨cnt - spiFifoSize, stored⟩
        else fifoLoop t o fuel (k + 1) (cnt - spiFifoSize) stored
    else remainder t o k cnt stored

def writeRead (t : Transfer) (o : Outcome) : Moved :=
  if o.reset 0 = false then ⟨t.len, []⟩ else fifoLoop t o (t.len + 1) 0 t.len []

def csActive (hw : Hw) (line : Line) : Line := if hw.program then { line with cs := true } else line

def csInactive (hw : Hw) (line : Line) : Line :=
  if hw.program then { line with cs := false } else line

/-- What the memory behind `io_raddr` holds when it is copied. -/
def dmaBuffer (t : Transfer) (o : Outcome) : List (Option UInt8) :=
  (List.range t.len).map fun i => if o.wait = .done then some (o.wire i) else none

/-- From where both channels are there; a timeout leaves without freeing them. -/
def dmaMove (hw : Hw) (t : Transfer) (o : Outcome) (line : Line) : Moved × Line :=
  let line := csActive hw line
  if o.wait = .timeout then (⟨t.len, []⟩, line)
  else if t.rx then (⟨0, dmaBuffer t o⟩, { line with channels := line.channels - 1 - 1 })
  else (⟨0, []⟩, { line with channels := line.channels - 1 })

def dmaWriteRead (hw : Hw) (t : Transfer) (o : Outcome) (line : Line) : Moved × Line :=
  let line := csInactive hw line
  if o.reset 0 = false then (⟨t.len, []⟩, line)
  else if o.txRequest = false then (⟨t.len, []⟩, line)
  else
    let line := { line with channels := line.channels + 1 }
    if t.rx then
      if o.rxRequest = false then (⟨t.len, []⟩, { line with channels := line.channels - 1 })
      else dmaMove hw t o { line with channels := line.channels + 1 }
    else dmaMove hw t o line

structure Progress where
  line : Line
  active : Bool
  actualLength : Nat
  stored : List (List (Option UInt8))
  deriving DecidableEq

def usesDma (hw : Hw) (m : Message) (t : Transfer) : Bool :=
  hw.dmaSupport && m.isDmaMapped && m.dmaEn && decide (t.len > spiFifoSize)

/-- One transfer, with the routine that fits; one without bytes takes none. -/
def move (hw : Hw) (m : Message) (t : Transfer) (o : Outcome) (line : Line) : Moved × Line :=
  if t.len = 0 then (⟨0, []⟩, line)
  else if usesDma hw m t then dmaWriteRead hw t o line
  else (writeRead t o, line)

def oneTransfer (hw : Hw) (m : Message) (t : Transfer) (o : Outcome) (p : Progress) : Progress :=
  let line := if p.active then p.line else csActive hw p.line
  let r := move hw m t o line
  { line := if t.csChange then csInactive hw r.2 else r.2
    active := !t.csChange
    actualLength := p.actualLength + (t.len - r.1.left)
    stored := p.stored ++ [r.1.stored] }

def transferLoop (hw : Hw) (m : Message) (o : Nat → Outcome) : Nat → List Transfer → Progress → Progress
  | _, [], p => p
  | i, t :: rest, p => transferLoop hw m o (i + 1) rest (oneTransfer hw m t (o i) p)

/-- The fields the driver sets, the receive buffers, the calls of `complete`, and the line. -/
structure Report where
  message : Message
  outcome : MessageOutcome
  status : Int
  actualLength : Nat
  stored : List (List (Option UInt8))
  calls : Nat
  before : Line
  after : Line

/-- The body of the loop of `wmt_spi_work`. -/
def oneMessage (hw : Hw) (m : Message) (o : MessageOutcome) (line : Line) : Report :=
  let status := if o.config then 0 else eagain
  let p := if status < 0 then ⟨line, false, 0, []⟩
    else transferLoop hw m o.transfer 0 m.transfers ⟨line, false, 0, []⟩
  { message := m
    outcome := o
    status := status
    actualLength := p.actualLength
    stored := p.stored
    calls := if m.complete && m.context then 1 else 0
    before := line
    after := if p.active then csInactive hw p.line else p.line }

/-- The queue of the controller, its line, and the messages it is done with. -/
structure State where
  queue : List Message
  line : Line
  reports : List Report

def bitsPerWordIsSupport (hw : Hw) (bits : Nat) : Bool :=
  (bits == 8 && hw.bits8) || (bits == 16 && hw.bits16)

def speedHzIsSupport (hw : Hw) (speed : Nat) : Bool :=
  decide (hw.minFreqHz ≤ speed) && decide (speed ≤ hw.maxFreqHz)

def checkTransfer (hw : Hw) (t : Transfer) : Bool :=
  !(!t.tx && !t.rx && t.len != 0) && decide (t.len ≤ hw.maxTransferLength)

/-- The settings that `wmt_spi_transfer` gives a transfer that has none it supports. -/
def settle (hw : Hw) (m : Message) (t : Transfer) : Transfer :=
  { t with
    bitsPerWord := if t.bitsPerWord = 0 ∨ bitsPerWordIsSupport hw t.bitsPerWord = false
      then m.bitsPerWord else t.bitsPerWord
    speedHz := if t.speedHz = 0 ∨ speedHzIsSupport hw t.speedHz = false
      then m.maxSpeedHz else t.speedHz }

def prepared (hw : Hw) (m : Message) : Message := { m with transfers := m.transfers.map (settle hw m) }

def wmtSpiTransfer (hw : Hw) (s : State) (m : Message) : Int × State :=
  if m.transfers.isEmpty || !m.complete || !m.transfers.all (checkTransfer hw) then (einval, s)
  else (0, { s with queue := s.queue ++ [prepared hw m] })

/-- One round of `wmt_spi_work`. -/
def workRound (hw : Hw) (s : State) (o : MessageOutcome) : State :=
  match s.queue with
  | [] => s
  | m :: rest =>
    let r := oneMessage hw m o s.line
    { queue := rest, line := r.after, reports := s.reports ++ [r] }

inductive Op where
  | transfer (m : Message)
  | work (o : MessageOutcome)

def step (hw : Hw) (s : State) : Op → Option (Int × State)
  | .transfer m => some (wmtSpiTransfer hw s m)
  | .work o => some (0, workRound hw s o)

def idle : State := ⟨[], ⟨false, 0⟩, []⟩

end Apc8750.Spi
