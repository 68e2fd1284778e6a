import Apc8750.Library.Runs

namespace Apc8750.I2c

structure Msg where
  addr : Nat
  rd : Bool
  nostart : Bool
  buf : List Nat
  deriving DecidableEq

structure Request where
  id : Nat
  msgs : List Msg
  nonBlock : Bool
  xferLength : Nat
  xferMsgnum : Nat
  restart : Bool
  deriving DecidableEq

/-- Send the byte in the data register, take one, or send an address alone. -/
inductive BusOp where
  | write (byte : Nat)
  | read
  | probe
  deriving DecidableEq

inductive Moved where
  | write (byte : Nat)
  | read (byte : Nat)
  deriving DecidableEq

inductive Signal where
  | woken
  | called
  deriving DecidableEq

/-- An access outside an array, or to a request of an empty queue. -/
inductive Fault where
  | request
  | msg
  | buf
  deriving DecidableEq

/-- `entering` and `waiting` hold the requests of submitters before the FIFO and in `wait_event`.
The last five fields record what has happened. -/
structure Bus where
  fifo : List Request
  entering : List Request
  waiting : List Request
  next : Nat
  isrNack : Bool
  isrByteEnd : Bool
  isrTimeout : Bool
  isrIntPending : Bool
  op : Option BusOp
  log : List Moved
  accepted : List Request
  finished : List Request
  signals : List (Nat × Signal)
  freed : List Nat
  deriving DecidableEq

def apiAddr : Nat := 0x59

def Bus.clearFlags (s : Bus) : Bus :=
  { s with isrNack := false, isrByteEnd := false, isrTimeout := false }

/-- What starting a message asks of the controller, given the byte to send first. -/
def Msg.start (m : Msg) (index : Nat) : Except Fault BusOp :=
  if m.rd then .ok .read
  else if m.buf = [] then .ok .probe
  else match m.buf[index]? with
    | none => .error .buf
    | some byte => .ok (.write byte)

def transferMsg (s : Bus) (r : Request) : Except Fault Bus :=
  match r.msgs[r.xferMsgnum]? with
  | none => .error .msg
  | some m => do
    let op ← m.start r.xferLength
    .ok { s.clearFlags with op := some op }

/-- The count is cleared before `wmt_i2c_transfer_msg` and stands at 1 after it. -/
def startMsg (s : Bus) (r : Request) (rest : List Request) : Except Fault Bus := do
  let r := { r with xferLength := 0 }
  let s ← transferMsg s r
  .ok { s with fifo := { r with xferLength := 1 } :: rest }

/-- After a write the next request is started one message further on. -/
def finish (s : Bus) (r : Request) (rest : List Request) (write : Bool) : Except Fault Bus :=
  let s := { s with
    fifo := rest
    op := none
    finished := s.finished ++ [r]
    freed := s.freed ++ [r.id]
    signals := s.signals ++ [(r.id, if r.nonBlock then .called else .woken)]
    isrIntPending := s.isrIntPending || !r.nonBlock }
  match rest with
  | [] => .ok s
  | next :: rest =>
    if write then startMsg s { next with xferMsgnum := next.xferMsgnum + 1 } rest
    else startMsg s next rest

def Msg.store (m : Msg) (i byte : Nat) : Msg := { m with buf := m.buf.set i byte }

def Request.put (r : Request) (m : Msg) : Request := { r with msgs := r.msgs.set r.xferMsgnum m }

/-- The read case of `i2c_wmt_handler`. -/
def readEnd (s : Bus) (r : Request) (rest : List Request) (m : Msg) (byte : Nat) :
    Except Fault Bus :=
  if 0 < r.xferLength ∧ r.xferLength ≤ m.buf.length then
    let m := m.store (r.xferLength - 1) byte
    let r := r.put m
    if r.xferLength + 1 = m.buf.length then
      .ok { s with
        fifo := { r with xferLength := r.xferLength + 1, restart := m.nostart } :: rest
        op := some .read }
    else if r.xferLength = m.buf.length then
      if r.xferMsgnum + 1 < r.msgs.length then
        startMsg s { r with xferMsgnum := r.xferMsgnum + 1 } rest
      else finish s r rest false
    else
      .ok { s with fifo := { r with xferLength := r.xferLength + 1 } :: rest, op := some .read }
  else .error .buf

/-- The write case of `i2c_wmt_handler`. -/
def writeEnd (s : Bus) (r : Request) (rest : List Request) (m : Msg) : Except Fault Bus :=
  if r.xferLength = m.buf.length then
    if r.xferMsgnum + 1 < r.msgs.length then
      startMsg s { r with restart := m.nostart, xferMsgnum := r.xferMsgnum + 1 } rest
    else finish s r rest true
  else match m.buf[r.xferLength]? with
    | none => .error .buf
    | some byte =>
      .ok { s with
        fifo := { r with xferLength := r.xferLength + 1 } :: rest
        op := some (.write byte) }

/-- The byte-end branch of `i2c_wmt_handler`. -/
def byteEnd (s : Bus) (byte : Nat) : Except Fault Bus :=
  match s.fifo with
  | [] => .error .request
  | r :: rest =>
    match r.msgs[r.xferMsgnum]? with
    | none => .error .msg
    | some m =>
      let s := { s with isrByteEnd := true }
      if m.rd then readEnd s r rest m byte else writeEnd s r rest m

/-- The branch of `i2c_wmt_handler` for an address that is not acknowledged. -/
def nack (s : Bus) : Except Fault Bus :=
  match s.fifo with
  | [] => .error .request
  | r :: rest => .ok { s with
      fifo := rest
      op := none
      isrNack := true
      isrIntPending := true
      signals := s.signals ++ [(r.id, .woken)] }

def BusOp.moved (byte : Nat) : BusOp → List Moved
  | .write b => [.write b]
  | .read => [.read byte]
  | .probe => []

def Bus.move (s : Bus) (op : BusOp) (byte : Nat) : Bus := { s with log := s.log ++ op.moved byte }

/-- `i2c_send_request` up to the lock. -/
def enter (s : Bus) (msgs : List Msg) (nonBlock : Bool) : Bus :=
  { s.clearFlags with
    isrIntPending := false
    entering := s.entering ++ [⟨s.next, msgs, nonBlock, 0, 0, false⟩]
    next := s.next + 1 }

/-- The start of the first message by `i2c_wmt_read_buf` or `i2c_wmt_write_buf`. -/
def startBuf (s : Bus) (r : Request) : Except Fault Bus :=
  match r.msgs.head? with
  | none => .error .msg
  | some m =>
    if m.rd ∧ m.buf = [] then .ok { s with fifo := [{ r with xferLength := 1 }] }
    else do
      let op ← m.start 0
      .ok { s.clearFlags with
        fifo := [{ r with xferLength := 1, restart := !m.rd && m.nostart }]
        op := some op }

/-- `i2c_send_request` under the lock. -/
def enqueue (s : Bus) (r : Request) : Except Fault Bus :=
  let s := { s with
    entering := s.entering.filter fun q => q.id ≠ r.id
    accepted := s.accepted ++ [r]
    waiting := if r.nonBlock then s.waiting else s.waiting ++ [r] }
  if s.fifo = [] then startBuf s r else .ok { s with fifo := s.fifo ++ [r] }

def eio : Int := -5

def etimedout : Int := -110

def outcome (s : Bus) (r : Request) : Int :=
  if s.isrTimeout then etimedout else if s.isrNack then eio else r.msgs.length

inductive Action where
  | submit (msgs : List Msg) (nonBlock : Bool)
  | enqueue (id : Nat)
  | byteEnd (byte : Nat)
  | nack
  | resume (id : Nat)

inductive Reply where
  | refused
  | entered (id : Nat)
  | queued
  | handled
  | returned (id : Nat) (ret : Int)
  | fault (f : Fault)
  deriving DecidableEq

def Reply.of (s : Bus) (ok : Reply) : Except Fault Bus → Reply × Bus
  | .ok t => (ok, t)
  | .error f => (.fault f, s)

/-- An interrupt comes only while the controller has something to do. -/
def step (s : Bus) : Action → Option (Reply × Bus)
  | .submit msgs nonBlock =>
    if (msgs.head?.map Msg.addr) = some apiAddr then some (.refused, s)
    else some (.entered s.next, enter s msgs nonBlock)
  | .enqueue id =>
    (s.entering.find? fun r => r.id = id).map fun r => Reply.of s .queued (enqueue s r)
  | .byteEnd byte =>
    s.op.map fun op => Reply.of s .handled (byteEnd (s.move op byte) byte)
  | .nack => s.op.map fun _ => Reply.of s .handled (nack s)
  | .resume id =>
    if s.isrIntPending then
      (s.waiting.find? fun r => r.id = id).map fun r =>
        (.returned id (outcome s r), { s with waiting := s.waiting.filter fun q => q.id ≠ id })
    else none

def idle : Bus where
  fifo := []
  entering := []
  waiting := []
  next := 0
  isrNack := false
  isrByteEnd := false
  isrTimeout := false
  isrIntPending := false
  op := none
  log := []
  accepted := []
  finished := []
  signals := []
  freed := []

end Apc8750.I2c
