import Apc8750.Library.Runs

namespace Apc8750.Display

structure Flags where
  addr : Bool
  info : Bool
  view : Bool
  pip : Bool
  mbOne : Bool
  scl : Bool
  mbNo : Bool
  mbGovr : Bool
  deriving DecidableEq

structure Shape where
  imgW : Nat
  imgH : Nat
  fbW : Nat
  fbH : Nat
  colFmt : Nat
  hCrop : Nat
  vCrop : Nat
  flag : Nat
  deriving DecidableEq

structure Addrs where
  y : Nat
  c : Nat
  deriving DecidableEq

/-- `vpp_dispfb_t`: the flags, the addresses, and the frame buffer with its own. -/
structure Frame where
  flags : Flags
  addrs : Addrs
  infoAddrs : Addrs
  infoShape : Shape
  deriving DecidableEq

/-- The pacing of the frames, `fbsync_…`. -/
structure Sync where
  enable : Bool
  frame : Int
  step : Int
  substep : Int
  cnt : Int
  vsync : Int
  isrcnt : Int
  deriving DecidableEq

def freeQueueMax : Nat := 4

def dispFbMaxNodes : Nat := 10

def sclFbMax : Nat := 5

/-- `gets` and `puts` record the calls of `mb_get` and `mb_put`. -/
structure Vpp where
  dispFreeList : List Nat
  dispFbList : List (Nat × Frame)
  sclFreeList : List Nat
  sclFbList : List (Nat × Frame)
  dispFbCnt : Int
  dispFbMax : Int
  dispFbKeep : { keep : Int // keep ≤ 3 }
  vpuSkipAll : Bool
  path : Nat
  sclFbMbOnWork : Bool
  isrCnt : Int
  sync : Sync
  cur : Addrs
  pre : Addrs
  cnt : Nat
  addrQueue : List Addrs
  gets : List Nat
  puts : List Nat

def mbGet (s : Vpp) (addr : Nat) : Vpp := { s with gets := s.gets ++ [addr] }

def mbPut (s : Vpp) (addr : Nat) : Vpp := { s with puts := s.puts ++ [addr] }

def putAddrs (s : Vpp) (a : Addrs) : Vpp :=
  let s := if a.y = 0 then s else mbPut s a.y
  if a.c = 0 then s else mbPut s a.c

def Frame.counted (f : Frame) (a : Addrs) : Addrs := ⟨a.y, if f.flags.mbOne then 0 else a.c⟩

def Frame.address (f : Frame) : Addrs :=
  if f.flags.addr then f.addrs else if f.flags.info then f.infoAddrs else ⟨0, 0⟩

def Frame.shown (f : Frame) : Addrs :=
  if f.flags.info then f.infoAddrs else if f.flags.addr then f.addrs else ⟨0, 0⟩

/-- A frame without addresses is cleared with those of the one before. -/
def Frame.cleared (f : Frame) (chkView : Bool) (last : Addrs) : Addrs :=
  if chkView && f.flags.info then f.infoAddrs
  else if f.flags.addr then f.addrs
  else if f.flags.info then f.infoAddrs
  else last

/-- The patch for the bilinear mode: a frame in the format of the VPU needs only its
addresses. -/
def Frame.patched (f : Frame) (path : Nat) (vpu : Shape) : Frame :=
  if f.flags.pip = false ∧ path = 0 ∧ f.flags.info = true ∧ f.infoShape = vpu then
    { f with flags := { f.flags with info := false, addr := true }, addrs := f.infoAddrs }
  else f

def getFrame (s : Vpp) (f : Frame) : Vpp :=
  if f.flags.mbGovr ∨ f.flags.mbNo then s
  else
    let a := f.counted f.address
    let s := if a.y = 0 then s else mbGet s a.y
    if a.c = 0 then s else mbGet s a.c

/-- `vpp_disp_fb_add`, while the VPU has the format `vpu`. -/
def dispFbAdd (s : Vpp) (fb : Frame) (vpu : Shape) : Int × Vpp :=
  if fb.flags.scl then
    match s.sclFreeList with
    | [] => (-1, s)
    | node :: free =>
      let entry := { fb with flags := { fb.flags with scl := false } }.patched s.path vpu
      (0, getFrame { s with sclFreeList := free, sclFbList := s.sclFbList ++ [(node, entry)] } entry)
  else match s.dispFreeList with
    | [] => (-1, s)
    | node :: free =>
      if fb.flags.pip then (0, s)
      else if s.dispFbCnt ≥ s.dispFbMax then (-1, s)
      else
        let entry := fb.patched s.path vpu
        (0, getFrame { s with
          dispFbCnt := s.dispFbCnt + 1
          dispFreeList := free
          dispFbList := s.dispFbList ++ [(node, entry)] } entry)

def shift : Nat → Nat → List Addrs → Option (List Addrs)
  | _, 0, queue => some queue
  | i, n + 1, queue =>
    if i < queue.length then
      match queue[i + 1]? with
      | none => none
      | some a => shift (i + 1) n (queue.set i a)
    else none

/-- The loop of `vpp_disp_fb_free` that empties the queue. -/
def freeAll (s : Vpp) : Nat → Nat → Option Vpp
  | _, 0 => some s
  | i, n + 1 => match s.addrQueue[i]? with
    | none => none
    | some a =>
      freeAll { putAddrs s a with addrQueue := s.addrQueue.set i ⟨0, 0⟩ } (i + 1) n

/-- `vpp_disp_fb_free`; nothing is returned where an index would leave the queue. -/
def dispFbFree (s : Vpp) (a : Addrs) : Option Vpp :=
  if a.y = 0 then (freeAll s 0 s.cnt).map fun s => { s with cnt := 0 }
  else if s.cnt < s.addrQueue.length then
    let s := { s with addrQueue := s.addrQueue.set s.cnt a, cnt := s.cnt + 1 }
    if (s.cnt : Int) > s.dispFbKeep then
      match s.addrQueue[0]?, shift 0 (s.cnt - 1) s.addrQueue with
      | some first, some queue => some (putAddrs { s with addrQueue := queue, cnt := s.cnt - 1 } first)
      | _, _ => none
    else some s
  else none

def Sync.next (x : Sync) : Sync :=
  let x := { x with cnt := x.cnt + 1 }
  if x.cnt > x.frame then
    let x := { x with cnt := 1, vsync := x.step, isrcnt := 0 }
    if x.substep < 0 ∧ x.cnt ≤ -x.substep then { x with vsync := x.vsync - 1 } else x
  else
    let x := { x with vsync := x.step }
    if x.substep < 0 then
      if x.cnt ≤ -x.substep then { x with vsync := x.vsync - 1 } else x
    else if x.substep ≠ 0 ∧ x.cnt.tmod x.substep = 0 then { x with vsync := x.vsync + 1 }
    else x

def pace (s : Vpp) : Vpp :=
  if s.vpuSkipAll = false ∧ s.path ≠ 0 ∧ s.sync.enable = true then
    { s with sync := s.sync.next, isrCnt := 0 }
  else s

/-- The part of `vpp_disp_fb_isr` that takes a frame off the queue. -/
def showFrame (s : Vpp) : Vpp :=
  match s.dispFbList with
  | [] => s
  | (node, f) :: rest =>
    let s := pace s
    let s := { s with
      dispFbList := rest
      dispFreeList := s.dispFreeList ++ [node]
      dispFbCnt := s.dispFbCnt - 1 }
    if s.vpuSkipAll then s
    else { s with
      pre := s.cur
      cur := if f.flags.mbNo then ⟨0, 0⟩ else f.counted f.shown }

def Vpp.early (s : Vpp) : Prop := s.sync.enable = true ∧ s.path ≠ 0 ∧ s.isrCnt < s.sync.vsync

instance : Decidable (Vpp.early s) := by unfold Vpp.early; infer_instance

def dispFbIsr (s : Vpp) : Option Vpp :=
  let freed := if s.pre.y = 0 then some s
    else (dispFbFree s s.pre).map fun s => { s with pre := ⟨0, 0⟩ }
  freed.map fun s =>
    let s := { s with isrCnt := s.isrCnt + 1, sync := { s.sync with isrcnt := s.sync.isrcnt + 1 } }
    if s.early then s else showFrame s

def putFrame (s : Vpp) (f : Frame) (a : Addrs) : Vpp :=
  if f.flags.mbNo then s else putAddrs s (f.counted a)

/-- The loop of `vpp_disp_fb_clr` over the display queue. -/
def clrDisp (chkView : Bool) (s : Vpp) (last : Addrs) : List (Nat × Frame) → Vpp × Addrs
  | [] => (s, last)
  | (node, f) :: rest =>
    let a := f.cleared chkView last
    clrDisp chkView
      (putFrame { s with dispFbList := rest, dispFreeList := s.dispFreeList ++ [node] } f a) a rest

/-- The loop over the scaler queue, behind the frame that is being scaled. -/
def clrScl (work : List (Nat × Frame)) (s : Vpp) (last : Addrs) : List (Nat × Frame) → Vpp
  | [] => s
  | (node, f) :: rest =>
    let a := f.cleared false last
    clrScl work
      (putFrame { s with sclFbList := work ++ rest, sclFreeList := s.sclFreeList ++ [node] } f a) a rest

def dispFbClr (s : Vpp) (chkView : Bool) : Vpp :=
  let last := s.pre
  let s := putAddrs { s with pre := ⟨0, 0⟩ } last
  let s := { s with dispFbCnt := 0 }
  let (s, last) := clrDisp chkView s last s.dispFbList
  if s.sclFbMbOnWork then clrScl (s.sclFbList.take 1) s last (s.sclFbList.drop 1)
  else clrScl [] s last s.sclFbList

/-- The three calls, and the settings that are made from elsewhere. -/
inductive Action where
  | add (fb : Frame) (vpu : Shape)
  | isr
  | clr (chkView : Bool)
  | setMax (max : Int)
  | setKeep (keep : Int)
  | setSkipAll (skip : Bool)
  | setPath (path : Nat)
  | setOnWork (work : Bool)
  | setSync (sync : Sync)

inductive Reply where
  | ret (value : Int)
  | fault
  deriving DecidableEq

/-- The value of `disp_fb_keep` that is accepted for `keep`. -/
def acceptedKeep (keep : Int) : { keep : Int // keep ≤ 3 } := ⟨if keep > 3 then 3 else keep, by split <;> omega⟩

def step (s : Vpp) : Action → Option (Reply × Vpp)
  | .add fb vpu =>
    let (ret, s) := dispFbAdd s fb vpu
    some (.ret ret, s)
  | .isr => match dispFbIsr s with
    | none => some (.fault, s)
    | some s => some (.ret 0, s)
  | .clr chkView => some (.ret 0, dispFbClr s chkView)
  | .setMax max => some (.ret 0, { s with dispFbMax := max })
  | .setKeep keep => some (.ret 0, { s with dispFbKeep := acceptedKeep keep })
  | .setSkipAll skip => some (.ret 0, { s with vpuSkipAll := skip })
  | .setPath path => some (.ret 0, { s with path })
  | .setOnWork work => some (.ret 0, { s with sclFbMbOnWork := work })
  | .setSync sync => some (.ret 0, { s with sync })

def idle : Vpp where
  dispFreeList := List.range dispFbMaxNodes
  dispFbList := []
  sclFreeList := List.range sclFbMax
  sclFbList := []
  dispFbCnt := 0
  dispFbMax := 4
  dispFbKeep := ⟨0, by decide⟩
  vpuSkipAll := false
  path := 0
  sclFbMbOnWork := false
  isrCnt := 0
  sync := ⟨true, 0, 0, 0, 0, 0, 0⟩
  cur := ⟨0, 0⟩
  pre := ⟨0, 0⟩
  cnt := 0
  addrQueue := List.replicate freeQueueMax ⟨0, 0⟩
  gets := []
  puts := []

end Apc8750.Display
