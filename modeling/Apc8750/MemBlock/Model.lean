import Apc8750.Library.Keyed

namespace Apc8750.MemBlock

def pageSize : Nat := 4096

def pageOffset : Nat := 0xC0000000

def pageAlign (n : Nat) : Nat := (n + (pageSize - 1)) % 2 ^ 32 / pageSize * pageSize

def sub32 (a b : Nat) : Nat := (a + (2 ^ 32 - b % 2 ^ 32)) % 2 ^ 32

def mbDefTgid : Nat := 0

def mbMaxOrder : Nat := 10

def mbaMinOrder : Nat := 6

def taskCommLen : Nat := 16

def eperm : Int := -1
def eagain : Int := -11
def enomem : Int := -12
def efault : Int := -14
def einval : Int := -22

structure PageInfo where
  pfnStart : Nat
  pfnEnd : Nat
  deriving DecidableEq

/-- `ptr` is the slab address of the record, `mb` the block it says it belongs to. -/
structure MbUser where
  ptr : Nat
  mb : Nat
  tgid : Nat
  addr : Nat
  size : Nat
  theUser : String
  deriving DecidableEq

/-- `struct mb_struct`. `creator` is the address of a record, or null. -/
structure MbStruct where
  ptr : Nat
  mba : Nat
  pgi : PageInfo
  phys : Nat
  virt : Nat
  size : Nat
  count : Int
  creator : Option Nat
  mbuList : List MbUser
  deriving DecidableEq

/-- `struct mb_area_struct`. `isStatic` is the bit `MBAFLAG_STATIC` of `flags`,
the only one in use. -/
structure MbArea where
  ptr : Nat
  mbList : List MbStruct
  isStatic : Bool
  tgid : Nat
  phys : Nat
  virt : Nat
  pages : Nat
  pgi : PageInfo
  nrMb : Nat
  totFreePages : Nat
  maxAvailablePages : Nat
  deriving DecidableEq

/-- `struct mb_task_info`; the driver keeps at most one for each task id. -/
structure MbTaskInfo where
  tgid : Nat
  count : Int
  taskName : String
  deriving DecidableEq

/-- An open file; `privateData` names the task record of the opener. -/
structure Filp where
  fd : Nat
  privateData : Nat
  deriving DecidableEq

/-- `struct mba_host_struct` with the task list `wmt_mbti` and the open files. -/
structure State where
  mbaList : List MbArea
  nrMba : Nat
  totPages : Nat
  totStaticPages : Nat
  totFreePages : Nat
  maxAvailablePages : Nat
  mbtiList : List MbTaskInfo
  filps : List Filp
  deriving DecidableEq

/-- `CONFIG_WMT_MB_DYNAMIC_ALLOCATE_SUPPORT` and the size in KB set aside. -/
structure Config where
  dynamicAllocate : Bool
  mbTotalSize : Nat
  deriving DecidableEq

namespace State

def blocks (s : State) : List MbStruct := s.mbaList.flatMap MbArea.mbList

def users (s : State) : List MbUser := s.blocks.flatMap MbStruct.mbuList

def derefMba (s : State) (p : Nat) : Option MbArea := s.mbaList.find? (fun a => a.ptr == p)

def derefMb (s : State) (p : Nat) : Option MbStruct := s.blocks.find? (fun b => b.ptr == p)

def derefMbu (s : State) (p : Nat) : Option MbUser := s.users.find? (fun u => u.ptr == p)

def modifyMba (s : State) (p : Nat) (f : MbArea → MbArea) : State :=
  { s with mbaList := Keyed.modify MbArea.ptr p f s.mbaList }

/-- Rewrite every block in place; the areas around them are untouched. -/
def mapBlocks (s : State) (f : MbStruct → MbStruct) : State :=
  { s with mbaList := s.mbaList.map (fun a => { a with mbList := a.mbList.map f }) }

def modifyMb (s : State) (p : Nat) (f : MbStruct → MbStruct) : State :=
  s.mapBlocks (fun b => if b.ptr = p then f b else b)

/-- `list_del` of a record: it leaves whichever list it is linked in. -/
def listDelMbu (s : State) (p : Nat) : State :=
  s.mapBlocks (fun b => { b with mbuList := Keyed.remove MbUser.ptr p b.mbuList })

/-- It may fail, and otherwise yields an address that no live object has. -/
def allocMbu (s : State) (p : Option Nat) : Option Nat :=
  p.filter (fun q => s.users.all (fun u => u.ptr != q))

def allocMb (s : State) (p : Option Nat) : Option Nat :=
  p.filter (fun q => s.blocks.all (fun b => b.ptr != q))

def allocMba (s : State) (p : Option Nat) : Option Nat :=
  p.filter (fun q => s.mbaList.all (fun a => a.ptr != q))

def getFreePages (s : State) (order : Nat) (p : Option Nat) : Option Nat :=
  p.filter (fun pfn => decide (0 < pfn) && decide (pfn + 2 ^ order < 2 ^ 18) &&
    s.mbaList.all (fun a => decide (pfn + 2 ^ order ≤ a.pgi.pfnStart) ||
      decide (a.pgi.pfnEnd ≤ pfn)))

end State

end Apc8750.MemBlock
