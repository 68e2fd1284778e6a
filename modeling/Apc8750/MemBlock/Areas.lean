import Apc8750.MemBlock.Model

namespace Apc8750.MemBlock
open State

def getOrder (size : Nat) : Nat :=
  let rest := sub32 size 1 / pageSize
  if rest = 0 then 0 else Nat.log2 rest + 1

/-- The pages an area gets: its physical and virtual start and their number. -/
structure PageRun where
  phys : Nat
  virt : Nat
  nrPages : Nat
  deriving DecidableEq

def mbAllocPages (s : State) (nrPages : Nat) (grant : Option Nat) : Option PageRun :=
  if nrPages = 0 then none
  else
    let order := max (getOrder (nrPages * pageSize)) mbaMinOrder
    if order > mbMaxOrder then none
    else (s.getFreePages order grant).map (fun pfn =>
      { phys := pfn * pageSize, virt := pageOffset + pfn * pageSize, nrPages := 2 ^ order })

/-- The largest `max_available_pages`, as the loops over `mbah->mba_list` have it. -/
def maxAvailable (areas : List MbArea) : Nat :=
  Keyed.peak MbArea.maxAvailablePages areas

def newMba (p : Nat) (run : PageRun) : MbArea :=
  { ptr := p, mbList := [], isStatic := false, tgid := mbDefTgid, phys := run.phys,
    virt := run.virt, pages := run.nrPages,
    pgi := ⟨run.phys / pageSize, run.phys / pageSize + run.nrPages⟩,
    nrMb := 0, totFreePages := run.nrPages, maxAvailablePages := run.nrPages }

/-- The end of `mb_alloc_mba`: a new area joins the host. -/
def enlist (s : State) (mba : MbArea) : State :=
  { s with
    mbaList := s.mbaList ++ [mba]
    nrMba := s.nrMba + 1
    totPages := s.totPages + mba.pages
    totFreePages := s.totFreePages + mba.totFreePages
    maxAvailablePages := max s.maxAvailablePages mba.maxAvailablePages }

def mbAllocMba (s : State) (pages : Nat) (slab grant : Option Nat) : Option Nat × State :=
  if pages = 0 then (none, s)
  else match s.allocMba slab with
    | none => (none, s)
    | some p => match mbAllocPages s pages grant with
      | none => (none, s)
      | some run => (some p, enlist s (newMba p run))

/-- The end of `mb_free_mba`: an area leaves the host. -/
def disband (s : State) (mba : MbArea) : State :=
  let rest := Keyed.remove MbArea.ptr mba.ptr s.mbaList
  { s with
    mbaList := rest
    nrMba := s.nrMba - 1
    totFreePages := s.totFreePages - mba.totFreePages
    totPages := s.totPages - mba.pages
    maxAvailablePages := maxAvailable rest }

def mbFreeMba (s : State) (p : Nat) : Int × State :=
  match s.derefMba p with
  | none => (efault, s)
  | some mba =>
    if mba.nrMb ≠ 0 then (efault, s)
    else if mba.isStatic then (0, s)
    else (0, disband s mba)

/-- `zs`, `ze` and the place of the entry the loop stopped at, counted from `i`. -/
def zoneSearch (pages : Nat) : (i next zs ze : Nat) → List MbStruct → Nat × Nat × Nat
  | _, next, zs, ze, [] => (zs, ze, next)
  | i, _, zs, _, entry :: rest =>
    if pages ≤ entry.pgi.pfnStart - zs then (zs, entry.pgi.pfnStart, i)
    else zoneSearch pages (i + 1) i entry.pgi.pfnEnd entry.pgi.pfnStart rest

structure Zones where
  largest : Nat
  total : Nat
  deriving DecidableEq

/-- As `mb_alloc_mb`, `mb_free_mb` and `mb_update_mbah` each recount the zones. -/
def zones (pgi : PageInfo) (l : List MbStruct) : Zones :=
  let r := l.foldl (fun (r : Zones × Nat) entry =>
    (⟨max (entry.pgi.pfnStart - r.2) r.1.largest, r.1.total + (entry.pgi.pfnStart - r.2)⟩,
      entry.pgi.pfnEnd)) (⟨0, 0⟩, pgi.pfnStart)
  ⟨max (pgi.pfnEnd - r.2) r.1.largest, r.1.total + (pgi.pfnEnd - r.2)⟩

/-- The block that `mb_alloc_mb` carves out of `mba` at frame `zs`. -/
def newMb (mba : MbArea) (p zs pages size : Nat) : MbStruct :=
  let phys := mba.phys + (zs - mba.pgi.pfnStart) * pageSize
  { ptr := p, mba := mba.ptr, pgi := ⟨zs, zs + pages⟩, phys := phys,
    virt := mba.virt + (phys - mba.phys), size := size, count := 0, creator := none,
    mbuList := [] }

/-- `zs`, `ze` and the place in the list: past the last entry the zone reaches to the end of the
area. -/
def place (pages : Nat) (mba : MbArea) : Nat × Nat × Nat :=
  let r := zoneSearch pages 0 mba.mbList.length mba.pgi.pfnStart mba.pgi.pfnStart mba.mbList
  if r.2.1 ≤ r.1 then (r.1, mba.pgi.pfnEnd, mba.mbList.length) else r

/-- The end of `mb_alloc_mb`, with a new block of `pages` in `mbList`. -/
def carve (s : State) (mba : MbArea) (mbList : List MbStruct) (pages : Nat) : State :=
  let s := s.modifyMba mba.ptr (fun a => { a with
    mbList := mbList
    nrMb := a.nrMb + 1
    totFreePages := a.totFreePages - pages
    maxAvailablePages := (zones a.pgi mbList).largest })
  { s with
    totFreePages := s.totFreePages - pages
    maxAvailablePages := maxAvailable s.mbaList }

def mbAllocMb (s : State) (q size : Nat) (slab : Option Nat) : Option (Nat × State) :=
  match s.derefMba q with
  | none => none
  | some mba =>
    let pages := pageAlign size / pageSize
    let zone := place pages mba
    if size = 0 then none
    else if mba.maxAvailablePages < pages then none
    else if zone.2.1 - zone.1 < pages then none
    else (s.allocMb slab).map (fun p =>
      (p, carve s mba (mba.mbList.insertIdx zone.2.2
        (newMb mba p zone.1 pages (pageAlign size))) pages))

/-- The middle of `mb_free_mb`: the block list of `mba` has lost a block. -/
def retrieve (s : State) (mba : MbArea) (mbList : List MbStruct) : State :=
  s.modifyMba mba.ptr (fun a => { a with mbList := mbList, nrMb := a.nrMb - 1 })

/-- The end of `mb_free_mb` for an area that stays. -/
def recount (s : State) (mba : MbArea) (z : Zones) : State :=
  let s := s.modifyMba mba.ptr (fun a => { a with
    totFreePages := z.total, maxAvailablePages := z.largest })
  { s with
    totFreePages := s.totFreePages - mba.totFreePages + z.total
    maxAvailablePages := max s.maxAvailablePages z.largest }

def mbFreeMb (s : State) (p : Nat) : Int × State :=
  match s.derefMb p with
  | none => (efault, s)
  | some mb =>
    if mb.count ≠ 0 then (einval, s)
    else match s.derefMba mb.mba with
      | none => (efault, s)
      | some mba =>
        let mbList := Keyed.remove MbStruct.ptr p mba.mbList
        if mba.mbList.all (fun b => b.ptr != p) then (efault, s)
        else if mba.nrMb - 1 = 0 ∧ mba.isStatic = false then
          mbFreeMba (retrieve s mba mbList) mba.ptr
        else (0, recount (retrieve s mba mbList) mba (zones mba.pgi mbList))

def mbUpdateMbah (s : State) : State :=
  { s with
    totFreePages := s.mbaList.foldl (fun n a => n + (zones a.pgi a.mbList).total) 0
    maxAvailablePages := s.mbaList.foldl (fun m a => max m (zones a.pgi a.mbList).largest) 0 }

end Apc8750.MemBlock
