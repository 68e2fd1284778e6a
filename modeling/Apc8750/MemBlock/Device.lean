import Apc8750.MemBlock.Calls

namespace Apc8750.MemBlock
open State

def combined (h t : MbArea) : MbArea :=
  { h with
    pgi := ⟨h.pgi.pfnStart, t.pgi.pfnEnd⟩
    pages := h.pages + t.pages
    totFreePages := h.totFreePages + t.totFreePages
    maxAvailablePages := h.maxAvailablePages + t.maxAvailablePages }

/-- `MB_COMBIND_MBA(h,t)`: the area `h` takes over the pages of `t`. -/
def combindMba (s : State) (h t : Nat) : State :=
  match s.derefMba t with
  | none => s
  | some tail =>
    let s := s.modifyMba h (fun a => combined a tail)
    { s with mbaList := Keyed.remove MbArea.ptr t s.mbaList, nrMba := s.nrMba - 1 }

def emptyHost : State :=
  { mbaList := [], nrMba := 0, totPages := 0, totStaticPages := 0, totFreePages := 0,
    maxAvailablePages := 0, mbtiList := [], filps := [] }

/-- The request of one round of the loop in `mb_probe`, in 32-bit arithmetic. -/
def probePages (cfg : Config) (s : State) : Nat :=
  min (sub32 (cfg.mbTotalSize * 1024) (s.totStaticPages * pageSize) / pageSize) (2 ^ mbMaxOrder)

/-- A new area joins `bind` when it touches it; otherwise it becomes `bind`. -/
def probeBind (s : State) (bind : Option Nat) (p : Nat) : Option Nat × State :=
  match bind.bind s.derefMba, s.derefMba p with
  | some b, some mba =>
    if b.pgi.pfnStart = mba.pgi.pfnEnd then (some p, combindMba s p b.ptr)
    else if b.pgi.pfnEnd = mba.pgi.pfnStart then (bind, combindMba s b.ptr p)
    else (some p, s)
  | _, _ => (some p, s)

def markStatic (s : State) (mba : MbArea) (tgid : Nat) : State :=
  { s.modifyMba mba.ptr (fun a => { a with isStatic := true, tgid := tgid }) with
    totStaticPages := s.totStaticPages + mba.pages }

/-- One round of the loop in `mb_probe`; a failed allocation is tried again. -/
def probeRound (cfg : Config) (s : State) (bind : Option Nat) (o : Option Nat × Option Nat) :
    Option Nat × State :=
  match mbAllocMba s (probePages cfg s) o.1 o.2 with
  | (none, s) => (bind, s)
  | (some p, s) => match s.derefMba p with
    | none => (bind, s)
    | some mba => probeBind (markStatic s mba mbDefTgid) bind p

/-- `none` when the outcomes end before the loop does. -/
def probeLoop (cfg : Config) : State → Option Nat → List (Option Nat × Option Nat) → Option State
  | s, _, [] => if s.totStaticPages * 4 < cfg.mbTotalSize then none else some s
  | s, bind, o :: os =>
    if s.totStaticPages * 4 < cfg.mbTotalSize then
      let r := probeRound cfg s bind o
      probeLoop cfg r.2 r.1 os
    else some s

def mbProbe (cfg : Config) (os : List (Option Nat × Option Nat)) : Option State :=
  (probeLoop cfg emptyHost none os).map mbUpdateMbah

def mbOpen (s : State) (fd tgid : Nat) (comm : String) (slab : Bool) : Int × State :=
  if s.filps.any (fun f => f.fd == fd) then (efault, s)
  else if s.mbtiList.any (fun t => t.tgid == tgid) then
    (0, { s with
      mbtiList := Keyed.modify MbTaskInfo.tgid tgid (fun t => { t with count := t.count + 1 })
        s.mbtiList
      filps := s.filps ++ [⟨fd, tgid⟩] })
  else if slab then
    (0, { s with
      mbtiList := s.mbtiList ++ [⟨tgid, 1, shortName comm⟩]
      filps := s.filps ++ [⟨fd, tgid⟩] })
  else (efault, s)

/-- The loop at `RESCAN_MBU`, which starts again after each record dropped. -/
def dropUsers (tgid : Nat) : Nat → MbStruct → MbStruct
  | 0, mb => mb
  | fuel + 1, mb =>
    match mb.mbuList.find? (fun u => u.tgid == tgid && mb.creator != some u.ptr) with
    | none => mb
    | some u => dropUsers tgid fuel
      { mb with mbuList := Keyed.remove MbUser.ptr u.ptr mb.mbuList, count := mb.count - 1 }

def stopUsers (tgid : Nat) (mb : MbStruct) : MbStruct := dropUsers tgid mb.mbuList.length mb

/-- At the end of the list, or with a jump back to `RESCAN_MBA`. -/
inductive Scan where
  | finished (s : State)
  | rescan (s : State)
  deriving DecidableEq

/-- Whether the block is recycled, and its creator record; `none` if that is none. -/
def recycles (s : State) (tgid : Nat) (mb : MbStruct) : Option (Option MbUser) :=
  if mb.count ≠ 1 then some none
  else match mb.creator with
    | none => some none
    | some p => (s.derefMbu p).map (fun mbu => if mbu.tgid = tgid then some mbu else none)

/-- The inner loop of `mb_release` over the blocks of one area. -/
def scanMbs (tgid : Nat) : List Nat → State → Option Scan
  | [], s => some (.finished s)
  | p :: rest, s =>
    let s := s.modifyMb p (stopUsers tgid)
    match s.derefMb p with
    | none => none
    | some mb => match recycles s tgid mb with
      | none => none
      | some none => scanMbs tgid rest s
      | some (some mbu) =>
        (mbDoFree s mb.phys tgid (some mbu.theUser)).map (fun r => .rescan r.2)

def unmarked (mba : MbArea) : MbArea := { mba with isStatic := false, tgid := mbDefTgid }

def unmark (s : State) (mba : MbArea) : State :=
  { s.modifyMba mba.ptr unmarked with totStaticPages := s.totStaticPages - mba.pages }

/-- The outer loop of `mb_release`, which also gives up prefetched areas. -/
def scanMbas (cfg : Config) (tgid : Nat) : List Nat → State → Option Scan
  | [], s => some (.finished s)
  | q :: rest, s => match s.derefMba q with
    | none => none
    | some mba =>
      let own := cfg.dynamicAllocate && mba.tgid == tgid
      let s := if own then unmark s mba else s
      if own ∧ mba.nrMb = 0 then some (.rescan (mbFreeMba s q).2)
      else match scanMbs tgid (mba.mbList.map MbStruct.ptr) s with
        | some (.finished s) => scanMbas cfg tgid rest s
        | r => r

/-- The passes of `mb_release`; `none` when they do not end within the fuel. -/
def releasePasses (cfg : Config) (tgid : Nat) : Nat → State → Option State
  | 0, _ => none
  | fuel + 1, s => match scanMbas cfg tgid (s.mbaList.map MbArea.ptr) s with
    | none => none
    | some (.finished s) => some s
    | some (.rescan s) => releasePasses cfg tgid fuel s

/-- Every pass that jumps back has taken an area or a block off its list. -/
def releaseFuel (s : State) : Nat := s.mbaList.length + s.blocks.length + 1

/-- The rest of `mb_release` once the task has no other file open. -/
def lastRelease (cfg : Config) (s : State) (tgid : Nat) : Option State :=
  (releasePasses cfg tgid (releaseFuel s) s).map (fun s =>
    { mbUpdateMbah s with mbtiList := Keyed.remove MbTaskInfo.tgid tgid s.mbtiList })

def mbRelease (cfg : Config) (s : State) (fd : Nat) : Option (Int × State) :=
  match s.filps.find? (fun f => f.fd == fd) with
  | none => some (efault, s)
  | some filp =>
    let tgid := filp.privateData
    let s := { s with filps := Keyed.remove Filp.fd fd s.filps }
    match s.mbtiList.find? (fun t => t.tgid == tgid) with
    | none => some (0, s)
    | some mbti =>
      let s := { s with
        mbtiList := Keyed.modify MbTaskInfo.tgid tgid (fun t => { t with count := t.count - 1 })
          s.mbtiList }
      if mbti.count - 1 ≠ 0 then some (0, s) else (lastRelease cfg s tgid).map (fun s => (0, s))

/-- A mapping request as the kernel passes it to `mb_mmap`. -/
structure Vma where
  vmStart : Nat
  vmEnd : Nat
  vmPgoff : Nat
  deriving DecidableEq

def mbMmap (s : State) (fd : Nat) (vma : Vma) (slab : Option Nat) (remap : Bool) : Int × State :=
  match s.filps.find? (fun f => f.fd == fd) with
  | none => (efault, s)
  | some filp =>
    let off := vma.vmPgoff * pageSize % 2 ^ 32
    match s.allocMbu slab with
    | none => (enomem, s)
    | some p => match mbFindMb s off .phys with
      | none => (einval, s)
      | some mb =>
        let len := pageAlign (mb.phys + mb.size)
        if (vma.vmEnd - vma.vmStart + off) % 2 ^ 32 > len then (einval, s)
        else if remap = false then (eagain, s)
        else
          let name := (s.mbtiList.find? (fun t => t.tgid == filp.privateData)).elim ""
            MbTaskInfo.taskName
          (0, linkMbu s mb.ptr
            { ptr := p, mb := mb.ptr, tgid := filp.privateData, addr := vma.vmStart,
              size := vma.vmEnd - vma.vmStart, theUser := shortName name })

/-- The first half of `MBIO_FREE`: the size to report and the address to free. -/
def mbioFreeUnmap (s : State) (value tgid : Nat) : Option (Nat × Nat × State) :=
  match mbFindMbu s value tgid userMmap with
  | none => some (value, value, s)
  | some p => match s.derefMbu p with
    | none => none
    | some mbu => match s.derefMb mbu.mb with
      | none => none
      | some mb => some (mbu.size, mb.phys, unlinkMbu s p mb.ptr)

def mbioUnmap (s : State) (value tgid : Nat) : Option (Int × Nat × State) :=
  match mbFindMbu s value tgid userMmap with
  | none => some (efault, value, s)
  | some p => match s.derefMbu p with
    | none => none
    | some mbu => some (0, mbu.size, unlinkMbu s p mbu.mb)

/-- The order of the next area `MBIO_PREFETCH` asks for. -/
def prefetchOrder (value fetchSize : Nat) : Nat :=
  min (getOrder (sub32 value fetchSize)) mbMaxOrder

structure Prefetch where
  trySize : Nat
  fetchSize : Nat
  host : State
  deriving DecidableEq

/-- One allocation of `MBIO_PREFETCH`: the pages it got and the host after it. -/
def prefetchMba (cur : Nat) (s : State) (pages : Nat) (o : Option Nat × Option Nat) :
    Nat × State :=
  match mbAllocMba s pages o.1 o.2 with
  | (none, s) => (0, s)
  | (some p, s) => match s.derefMba p with
    | none => (0, s)
    | some mba => (mba.pages, markStatic s mba cur)

def prefetchRound (cur order : Nat) (v : Prefetch) (o : Option Nat × Option Nat) : Prefetch :=
  let r := prefetchMba cur v.host (2 ^ order) o
  ⟨(v.trySize + 2 ^ order * pageSize) % 2 ^ 32, (v.fetchSize + r.1 * pageSize) % 2 ^ 32, r.2⟩

/-- `none` when the outcomes end before the loop does. -/
def prefetchLoop (cur value : Nat) : Prefetch → List (Option Nat × Option Nat) → Option State
  | v, [] => if v.trySize < value then none else some v.host
  | v, o :: os =>
    if v.trySize < value then
      prefetchLoop cur value (prefetchRound cur (prefetchOrder value v.fetchSize) v o) os
    else some v.host

def mbioPrefetch (cfg : Config) (s : State) (cur value : Nat)
    (os : List (Option Nat × Option Nat)) : Option State :=
  if cfg.dynamicAllocate then prefetchLoop cur value ⟨0, 0, s⟩ os else some s

/-- The loop reads the link of the entry it has freed, `LIST_POISON1`: with a user the walk leaves
the heap. -/
def forceResetUsers : List MbUser → Option Unit
  | [] => some ()
  | _ :: _ => none

def cleared (mb : MbStruct) : MbStruct := { mb with creator := none, count := 0 }

/-- The passes of `MBIO_FORCE_RESET`: each frees the first block there is. -/
def forceReset : Nat → State → Option State
  | 0, _ => none
  | fuel + 1, s => match s.blocks.head? with
    | none => some (mbUpdateMbah s)
    | some mb => do
      forceResetUsers mb.mbuList
      forceReset fuel (mbFreeMb (s.modifyMb mb.ptr cleared) mb.ptr).2

/-- The `ioctl` commands with their arguments and the outcomes of the
allocations they make. -/
inductive Cmd where
  | malloc (value : Nat) (o : AllocOutcome)
  | free (value : Nat)
  | unmap (value : Nat)
  | mbsize (value : Nat)
  | maxAvailableSize
  | get (value : Nat) (slab : Option Nat)
  | put (value : Nat)
  | userToVirt (value : Nat)
  | userToPhys (value : Nat)
  | prefetch (value : Nat) (os : List (Option Nat × Option Nat))
  | staticSize
  | mbUserCount (value : Nat)
  | forceReset
  deriving DecidableEq

structure Reply where
  ret : Int
  arg : Nat
  deriving DecidableEq

/-- `mb_ioctl` on a file opened by `tgid`, called by the task `cur`. -/
def mbCommand (cfg : Config) (s : State) (tgid cur : Nat) (name : String) :
    Cmd → Option (Reply × State)
  | .malloc value o =>
    let r := mbDoAlloc cfg s value tgid (some name) o
    if r.1 = 0 then some (⟨efault, value⟩, r.2) else some (⟨0, r.1⟩, r.2)
  | .free value => do
    let (size, phys, s) ← mbioFreeUnmap s value tgid
    let (ret, s) ← mbDoFree s phys tgid (some name)
    some (⟨ret, size⟩, s)
  | .unmap value => (mbioUnmap s value tgid).map (fun r => (⟨r.1, r.2.1⟩, r.2.2))
  | .mbsize value => match mbFindMb s value .phys with
    | none => some (⟨efault, value⟩, s)
    | some mb => some (⟨0, mb.size⟩, s)
  | .maxAvailableSize => some (⟨0, s.maxAvailablePages * pageSize % 2 ^ 32⟩, s)
  | .get value slab =>
    let r := mbDoGet s value tgid (some name) slab
    some (⟨r.1, value⟩, r.2)
  | .put value => (mbDoPut s value tgid (some name)).map (fun r => (⟨r.1, value⟩, r.2))
  | .userToVirt value => some (⟨0, mbDoUserToVirt s value tgid⟩, s)
  | .userToPhys value => some (⟨0, mbDoUserToPhys s value tgid⟩, s)
  | .prefetch value os => (mbioPrefetch cfg s cur value os).map (fun s => (⟨0, value⟩, s))
  | .staticSize => some (⟨0, s.totStaticPages * pageSize % 2 ^ 32⟩, s)
  | .mbUserCount value => match mbFindMb s value .phys with
    | none => some (⟨0, 0⟩, s)
    | some mb => some (⟨0, mb.count.toNat⟩, s)
  | .forceReset => (MemBlock.forceReset (s.blocks.length + 1) s).map (fun s => (⟨0, 0⟩, s))

def mbIoctl (cfg : Config) (s : State) (fd cur : Nat) (cmd : Cmd) : Option (Reply × State) :=
  match s.filps.find? (fun f => f.fd == fd) with
  | none => some (⟨efault, 0⟩, s)
  | some filp =>
    let name := (s.mbtiList.find? (fun t => t.tgid == filp.privateData)).elim ""
      MbTaskInfo.taskName
    mbCommand cfg s filp.privateData cur name cmd

/-- The entry points of the driver: the calls of other drivers and the file
operations of tasks. -/
inductive Op where
  | doAlloc (size tgid : Nat) (name : Option String) (o : AllocOutcome)
  | doFree (addr tgid : Nat) (name : Option String)
  | doGet (addr tgid : Nat) (name : Option String) (slab : Option Nat)
  | doPut (addr tgid : Nat) (name : Option String)
  | open (fd tgid : Nat) (comm : String) (slab : Bool)
  | release (fd : Nat)
  | mmap (fd : Nat) (vma : Vma) (slab : Option Nat) (remap : Bool)
  | ioctl (fd cur : Nat) (cmd : Cmd)
  deriving DecidableEq

/-- One call into the driver; `none` when it runs into undefined behaviour or
does not return. -/
def step (cfg : Config) (s : State) : Op → Option (Reply × State)
  | .doAlloc size tgid name o =>
    let r := mbDoAlloc cfg s size tgid name o
    some (⟨r.1, 0⟩, r.2)
  | .doFree addr tgid name => (mbDoFree s addr tgid name).map (fun r => (⟨r.1, 0⟩, r.2))
  | .doGet addr tgid name slab =>
    let r := mbDoGet s addr tgid name slab
    some (⟨r.1, 0⟩, r.2)
  | .doPut addr tgid name => (mbDoPut s addr tgid name).map (fun r => (⟨r.1, 0⟩, r.2))
  | .open fd tgid comm slab =>
    let r := mbOpen s fd tgid comm slab
    some (⟨r.1, 0⟩, r.2)
  | .release fd => (mbRelease cfg s fd).map (fun r => (⟨r.1, 0⟩, r.2))
  | .mmap fd vma slab remap =>
    let r := mbMmap s fd vma slab remap
    some (⟨r.1, 0⟩, r.2)
  | .ioctl fd cur cmd => mbIoctl cfg s fd cur cmd

end Apc8750.MemBlock
