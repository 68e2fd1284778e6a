import Apc8750.Library.Rings
import Apc8750.Library.Runs
import Mathlib.Algebra.Order.Group.Nat
import Mathlib.Algebra.GroupWithZero.Nat

namespace Apc8750.Camera
open Rings (Links addTail del)

def einval : Int := -22

def maxFbInQueue : Nat := 10

/-- What `list_entry` makes of a pointer: an entry of `fb_pool`, or the words before the list head.
-/
inductive Node where
  | head
  | fb (index : Nat)
  deriving DecidableEq

/-- `cmos_fb_t` without its list pointers. -/
structure Fb where
  yAddr : Nat
  cAddr : Nat
  id : Nat
  done : Bool
  isBusy : Bool
  deriving DecidableEq

/-- It has read the current buffer, it waits for the next one, or its wait has ended. -/
inductive Stage where
  | seen
  | waiting
  | woken
  deriving DecidableEq

/-- A call of `cmos_cam_dqbuf` under way, with the buffer it has seen. -/
structure Caller where
  stage : Stage
  fb : Option Node
  deriving DecidableEq

/-- The driver's data with `fbDone` for `STS_CMOS_FB_DONE`, the pointers of `wmt-vid.c`, the address
captured to, the calls under way, and the buffers handed out and not queued since. -/
structure State where
  links : Links Node
  fb : Node → Fb
  width : Nat
  height : Nat
  frameSize : Nat
  fbCnt : Nat
  streamoff : Bool
  dqbuf : Bool
  fbDone : Bool
  curFb : Option Node
  prevFb : Option Node
  y0Sa : Nat
  c0Sa : Nat
  callers : List Caller
  held : List (Nat × Nat)

/-- The fields of a `v4l2_buffer` that the driver fills in. -/
structure Buffer where
  index : Nat
  offset : Nat
  length : Nat
  deriving DecidableEq

structure Reply where
  ret : Int
  buf : Option Buffer
  deriving DecidableEq

def align64 (a : Nat) : Nat := (a + 63) / 64 * 64

/-- The words before the driver's data, and the format, may be anything. -/
def opened (before : Fb) (width height dftYAddr : Nat) : State where
  links := ⟨fun n => if n = .head then some .head else none,
    fun n => if n = .head then some .head else none⟩
  fb := fun n => if n = .head then before else ⟨0, 0, 0, false, false⟩
  width := width
  height := height
  frameSize := align64 width * height * 2
  fbCnt := 0
  streamoff := true
  dqbuf := false
  fbDone := false
  curFb := none
  prevFb := none
  y0Sa := dftYAddr
  c0Sa := dftYAddr + align64 width * height
  callers := []
  held := []

/-- The loop of `cmos_cam_reqbufs`; `granted` is what `mb_alloc` returns. -/
def allocate (granted : Nat → Nat) (plane : Nat) : Nat → Nat → (Node → Fb) → Int × (Node → Fb)
  | 0, _, pool => (0, pool)
  | n + 1, i, pool =>
    if granted i = 0 then
      (einval, Function.update pool (.fb i) { pool (.fb i) with yAddr := 0 })
    else
      allocate granted plane n (i + 1)
        (Function.update pool (.fb i) ⟨granted i, granted i + plane, i, false, false⟩)

/-- `cmos_cam_reqbufs`; `known` is whether the type and the memory are the supported ones. -/
def reqbufs (s : State) (known : Bool) (count : Nat) (granted : Nat → Nat) : Reply × State :=
  if known = false ∨ count > maxFbInQueue then (⟨einval, none⟩, s)
  else
    let r := allocate granted (align64 s.width * s.height) count 0 s.fb
    (⟨r.1, none⟩, { s with fbCnt := count, fb := r.2 })

/-- `cmos_cam_qbuf`: nothing checks the index, and one outside of `fb_pool` leaves the model. -/
def qbuf (s : State) (index : Nat) : Option (Reply × State) :=
  if index < maxFbInQueue then
    (addTail s.links (.fb index) .head).map fun links =>
      (⟨0, none⟩, { s with links := links, held := s.held.filter (fun p => p.1 != index) })
  else none

def mark (pool : Node → Fb) (fb : Node) (isBusy done : Bool) : Node → Fb :=
  Function.update pool fb { pool fb with isBusy := isBusy, done := done }

def setCurFb (s : State) (fb : Node) : State :=
  { s with
    prevFb := s.curFb
    curFb := some fb
    fb := mark s.fb fb true false
    y0Sa := (s.fb fb).yAddr
    c0Sa := (s.fb fb).cAddr }

def streamon (s : State) : Option (Reply × State) :=
  (s.links.next .head).map fun fb => (⟨0, none⟩, { setCurFb s fb with streamoff := false })

def popQueue (s : State) (fb : Node) : Option State :=
  (del s.links fb).map fun links => { s with links := links }

/-- With the camera off it drops the first buffer of the queue and returns. -/
def dqbufEnter (s : State) : Option (Reply × State) :=
  if s.streamoff then
    match s.links.next .head with
    | none => none
    | some .head => some (⟨0, none⟩, s)
    | some fb => (popQueue s fb).map fun s => (⟨0, none⟩, s)
  else some (⟨0, none⟩, { s with callers := s.callers ++ [⟨.seen, s.curFb⟩] })

def dqbufRequest (s : State) (k : Nat) : Reply × State :=
  match s.callers[k]? with
  | some ⟨.seen, fb⟩ =>
    (⟨0, none⟩, { s with dqbuf := true, callers := s.callers.set k ⟨.waiting, fb⟩ })
  | _ => (⟨0, none⟩, s)

/-- The wait ends: for the interrupt, a signal or a timeout, which make no difference. -/
def dqbufWake (s : State) (k : Nat) : Reply × State :=
  match s.callers[k]? with
  | some ⟨.waiting, fb⟩ =>
    (⟨0, none⟩, { s with fbDone := false, callers := s.callers.set k ⟨.woken, fb⟩ })
  | _ => (⟨0, none⟩, s)

/-- The rest of `cmos_cam_dqbuf`, on the buffer it saw before the wait. -/
def dqbufFinish (s : State) (k : Nat) : Option (Reply × State) :=
  match s.callers[k]? with
  | some ⟨.woken, none⟩ => none
  | some ⟨.woken, some n⟩ => (popQueue s n).map fun t =>
    (⟨0, some ⟨(s.fb n).id, (s.fb n).yAddr, s.frameSize⟩⟩,
      { t with
        callers := s.callers.eraseIdx k
        held := match n with
          | .head => s.held
          | .fb i => (i, (s.fb n).yAddr) :: s.held })
  | _ => some (⟨0, none⟩, s)

def meets (links : Links Node) (curFb : Option Node) : Nat → Node → Option Bool
  | 0, _ => none
  | n + 1, a => match links.next a with
    | none => none
    | some b =>
      if b = .head then some false
      else if some b = curFb then some true
      else meets links curFb n b

/-- The loop of `cmos_isr` for a buffer with one user. -/
def nextFree (s : State) (counter : Nat → Int) (curFb : Node) : Nat → Node → Int → Option Node
  | 0, _, _ => none
  | n + 1, fb, last =>
    let mbCount := if (s.fb fb).yAddr ≠ 0 then counter (s.fb fb).yAddr else last
    if mbCount ≠ 1 then
      match s.links.next fb with
      | none => none
      | some fb => if fb = curFb then some fb else nextFree s counter curFb n fb mbCount
    else some fb

/-- The buffer that the loop has come to is marked and captured into from now on. -/
def switchTo (s : State) (fb : Node) : State :=
  { setCurFb { s with fb := mark s.fb fb false true } fb with fbDone := true }

/-- The part of `cmos_isr` for the current buffer once it is found in the queue. -/
def isrSwitch (s : State) (counter : Nat → Int) (curFb : Node) : Option State :=
  match s.links.next curFb with
  | none => none
  | some first => (nextFree s counter curFb (maxFbInQueue + 1) first 0).map (switchTo s)

/-- `cmos_isr`; `counter` is `mb_counter`. -/
def isr (s : State) (counter : Nat → Int) : Option (Reply × State) :=
  if s.dqbuf then
    match meets s.links s.curFb (maxFbInQueue + 1) .head, s.curFb with
    | some true, some cur =>
      (isrSwitch { s with dqbuf := false } counter cur).map fun s => (⟨0, none⟩, s)
    | none, _ => none
    | _, _ => some (⟨0, none⟩, { s with dqbuf := false })
  else some (⟨0, none⟩, s)

inductive Op where
  | reqbufs (known : Bool) (count : Nat) (granted : Nat → Nat)
  | qbuf (index : Nat)
  | streamon
  | streamoff
  | dqbuf
  | request (caller : Nat)
  | wake (caller : Nat)
  | finish (caller : Nat)
  | isr (counter : Nat → Int)

/-- `none` when it follows a pointer that leads nowhere or does not return. -/
def step (s : State) : Op → Option (Reply × State)
  | .reqbufs known count granted => some (reqbufs s known count granted)
  | .qbuf index => qbuf s index
  | .streamon => streamon s
  | .streamoff => some (⟨0, none⟩, { s with streamoff := true })
  | .dqbuf => dqbufEnter s
  | .request k => some (dqbufRequest s k)
  | .wake k => some (dqbufWake s k)
  | .finish k => dqbufFinish s k
  | .isr counter => isr s counter

end Apc8750.Camera
