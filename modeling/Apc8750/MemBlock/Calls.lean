import Apc8750.MemBlock.Areas

namespace Apc8750.MemBlock
open State

inductive FindType where
  | virt
  | phys
  deriving DecidableEq

/-- Whether `addr` lies between the ends of an area, the upper one included. -/
def inArea (mba : MbArea) (addr : Nat) (phys : Bool) : Bool :=
  let saddr := if phys then mba.phys else mba.virt
  decide (saddr ≤ addr) && decide (addr ≤ saddr + mba.pages * pageSize)

def mbFindMb (s : State) (addr : Nat) (type : FindType) : Option MbStruct :=
  if addr = 0 then none
  else s.mbaList.findSome? (fun mba =>
    if inArea mba addr (type == .phys) then
      mba.mbList.find? (fun mb =>
        let mbaddr := if type == .phys then mb.phys else mb.virt
        decide (mbaddr ≤ addr) && decide (addr < mbaddr + mb.size))
    else none)

structure MbuFind where
  user : Bool := false
  virt : Bool := false
  phys : Bool := false
  all : Bool := false
  creator : Bool := false
  mmap : Bool := false
  getPut : Bool := false
  deriving DecidableEq

/-- `some r` leaves the search with `r`, which is null when a block without creator is hit. -/
def visitMbu (st : MbuFind) (addr tgid : Nat) (mb : MbStruct) (mbu : MbUser) :
    Option (Option Nat) :=
  if mbu.tgid ≠ tgid then none
  else if st.user ∧ addr ≠ mbu.addr then none
  else if st.all then some (some mbu.ptr)
  else if st.creator then some mb.creator
  else if st.mmap ∧ mbu.size ≠ 0 then some (some mbu.ptr)
  else if st.getPut ∧ mbu.addr ≠ 0 ∧ mbu.size = 0 then some (some mbu.ptr)
  else none

def visitMb (st : MbuFind) (addr tgid : Nat) (mb : MbStruct) : Option (Option Nat) :=
  if st.phys ∧ addr ≠ mb.phys then none
  else if st.virt ∧ addr ≠ mb.virt then none
  else mb.mbuList.findSome? (visitMbu st addr tgid mb)

def visitMba (st : MbuFind) (addr tgid : Nat) (mba : MbArea) : Option (Option Nat) :=
  if (st.virt || st.phys) && !inArea mba addr st.phys then none
  else mba.mbList.findSome? (visitMb st addr tgid)

def mbFindMbu (s : State) (addr tgid : Nat) (st : MbuFind) : Option Nat :=
  if addr = 0 ∨ (st.user || st.virt || st.phys) = false then none
  else (s.mbaList.findSome? (visitMba st addr tgid)).join

def userAll : MbuFind := { user := true, all := true }
def physCreator : MbuFind := { phys := true, creator := true }
def userMmap : MbuFind := { user := true, mmap := true }
def physGetPut : MbuFind := { phys := true, getPut := true }
def userGetPut : MbuFind := { user := true, getPut := true }

/-- The copy of a user name that fits into `the_user`. -/
def shortName (name : String) : String := String.ofList (name.toList.take taskCommLen)

/-- What the allocations inside one `mb_do_alloc` yield, in the order of use. -/
structure AllocOutcome where
  mbu : Option Nat
  mba : Option Nat
  pages : Option Nat
  mb : Option Nat
  deriving DecidableEq

/-- `mbu` joins the list of the block `p`, whose use count follows. -/
def linkMbu (s : State) (p : Nat) (mbu : MbUser) : State :=
  s.modifyMb p (fun b => { b with mbuList := b.mbuList ++ [mbu], count := b.count + 1 })

/-- The area from which `mb_do_alloc` serves `pages`. -/
def chooseMba (cfg : Config) (s : State) (pages : Nat) (o : AllocOutcome) : Option Nat × State :=
  if pages > s.maxAvailablePages then
    if cfg.dynamicAllocate then mbAllocMba s pages o.mba o.pages else (none, s)
  else ((s.mbaList.find? (fun e => decide (pages ≤ e.maxAvailablePages))).map MbArea.ptr, s)

def mbDoAlloc (cfg : Config) (s : State) (size tgid : Nat) (name : Option String)
    (o : AllocOutcome) : Nat × State :=
  match name with
  | none => (0, s)
  | some name =>
    let size := pageAlign size
    let pages := size / pageSize
    if pages = 0 then (0, s)
    else match s.allocMbu o.mbu with
      | none => (0, s)
      | some p => match chooseMba cfg s pages o with
        | (none, s) => (0, s)
        | (some q, s) => match mbAllocMb s q size o.mb with
          | none => (0, s)
          | some (r, s) => match s.derefMb r with
            | none => (0, s)
            | some mb =>
              let mbu : MbUser :=
                { ptr := p, mb := r, tgid := tgid, addr := 0, size := mb.size,
                  theUser := shortName name }
              (mb.phys, (linkMbu s r mbu).modifyMb r (fun b => { b with creator := some p }))

/-- `list_del` of the record `p` together with the `atomic_dec` of its block. -/
def unlinkMbu (s : State) (p mb : Nat) : State :=
  (s.listDelMbu p).modifyMb mb (fun b => { b with count := b.count - 1 })

def disownMb (s : State) (p mb : Nat) : State :=
  (s.listDelMbu p).modifyMb mb (fun b => { b with creator := none, count := b.count - 1 })

def mbDoFree (s : State) (addr tgid : Nat) (name : Option String) : Option (Int × State) :=
  if addr = 0 ∨ name = none then some (einval, s)
  else match mbFindMbu s addr tgid physCreator with
    | none => some (einval, s)
    | some p => match s.derefMbu p with
      | none => none
      | some mbu =>
        let s := disownMb s p mbu.mb
        match s.derefMb mbu.mb with
        | none => none
        | some mb => if mb.count ≠ 0 then some (0, s) else some (mbFreeMb s mb.ptr)

/-- A task gives an address it has mapped, the kernel any address inside the block. -/
def getTarget (s : State) (addr tgid : Nat) : Option Nat :=
  if tgid ≠ mbDefTgid then
    ((mbFindMbu s addr tgid userMmap).bind s.derefMbu).map MbUser.mb
  else (mbFindMb s addr .phys).map MbStruct.ptr

def mbDoGet (s : State) (addr tgid : Nat) (name : Option String) (slab : Option Nat) :
    Int × State :=
  match name with
  | none => (einval, s)
  | some name =>
    if addr = 0 then (einval, s)
    else match s.allocMbu slab with
      | none => (enomem, s)
      | some p => match getTarget s addr tgid with
        | none => (efault, s)
        | some mb =>
          (0, linkMbu s mb
            { ptr := p, mb := mb, tgid := tgid, addr := addr, size := 0,
              theUser := shortName name })

def putFind (tgid : Nat) : MbuFind := if tgid = mbDefTgid then physGetPut else userGetPut

def mbDoPut (s : State) (addr tgid : Nat) (name : Option String) : Option (Int × State) :=
  if addr = 0 ∨ name = none then some (einval, s)
  else match mbFindMbu s addr tgid (putFind tgid) with
    | none => some (einval, s)
    | some p => match s.derefMbu p with
      | none => none
      | some mbu => match s.derefMb mbu.mb with
        | none => none
        | some mb =>
          if mb.count = 0 then some (eperm, s)
          else
            let s := unlinkMbu s p mb.ptr
            if mb.count - 1 = 0 then some (0, (mbFreeMb s mb.ptr).2) else some (0, s)

def mbDoCounter (s : State) (addr : Nat) : Int :=
  if addr = 0 then einval
  else match mbFindMb s addr .phys with
    | none => -1
    | some mb => mb.count

def mbDoPhysToVirt (s : State) (phys : Nat) : Nat :=
  match mbFindMb s phys .phys with
  | some mb => mb.virt + (phys - mb.phys)
  | none => (phys + pageOffset) % 2 ^ 32

def mbDoVirtToPhys (s : State) (virt : Nat) : Nat :=
  match mbFindMb s virt .virt with
  | some mb => mb.phys + (virt - mb.virt)
  | none => sub32 virt pageOffset

def mbDoUserToPhys (s : State) (user tgid : Nat) : Nat :=
  (((mbFindMbu s user tgid userAll).bind s.derefMbu).bind (fun u => s.derefMb u.mb)).elim 0
    MbStruct.phys

def mbDoUserToVirt (s : State) (user tgid : Nat) : Nat :=
  (((mbFindMbu s user tgid userAll).bind s.derefMbu).bind (fun u => s.derefMb u.mb)).elim 0
    MbStruct.virt

end Apc8750.MemBlock
