import Apc8750.Library.Loops
import Apc8750.MemBlock.Model

namespace Apc8750.Prdt
open MemBlock (pageSize pageAlign sub32 efault einval)

@[irreducible] def add32 (a b : Nat) : Nat := (a + b) % 2 ^ 32

/-- A page frame number as a page table entry holds it, in twenty bits. -/
abbrev Pfn := Fin (2 ^ 20)

def phys (pfn : Pfn) : Nat := pfn.val * pageSize

def taskSize : Nat := 0xBF000000

def pgdirSize : Nat := 2 ^ 21

/-- `io`, `pfnmap` and `write` are `VM_IO`, `VM_PFNMAP` and `VM_WRITE` of `vm_flags`. -/
structure VmArea where
  vmStart : Nat
  vmEnd : Nat
  vmPgoff : Nat
  io : Bool
  pfnmap : Bool
  write : Bool
  deriving DecidableEq

structure Pte where
  pfn : Pfn
  present : Bool
  write : Bool
  deriving DecidableEq

/-- A proper area of a task: whole pages below `TASK_SIZE`. -/
structure VmArea.Proper (vma : VmArea) : Prop where
  nonempty : vma.vmStart < vma.vmEnd
  first : pageSize ∣ vma.vmStart
  last : pageSize ∣ vma.vmEnd
  below : vma.vmEnd ≤ taskSize

/-- Areas and page table of a task, what `handle_mm_fault` makes of a page (`none` is an error), the
frames that are memory, and `page_to_pfn` of a null pointer. -/
structure Mm where
  mmap : List VmArea
  proper : ∀ vma ∈ mmap, vma.Proper
  ordered : mmap.Pairwise (fun a b => a.vmEnd ≤ b.vmStart)
  pte : Nat → Pte
  fault : Nat → Option Pfn
  pfnValid : Pfn → Bool
  nullPfn : Pfn

def findVma (mm : Mm) (addr : Nat) : Option VmArea :=
  mm.mmap.find? (fun vma => decide (addr < vma.vmEnd))

structure Prd where
  addr : Nat
  size : Nat
  edt : Bool
  deriving DecidableEq

/-- The entries written so far, the last one apart: it may still grow. -/
structure Table where
  full : List Prd
  last : Option Prd
  deriving DecidableEq

def Table.entries (t : Table) : List Prd := t.full ++ t.last.toList

/-- A table, an error, a `BUG_ON`, or none. The table of a failed call is left out. -/
inductive Outcome where
  | done (table : List Prd)
  | failed (ret : Int)
  | bug
  | stuck
  deriving DecidableEq

structure Walk where
  fromAddr : Nat
  offset : Nat
  size : Nat
  items : Nat
  table : Table
  deriving DecidableEq

inductive Exit where
  | finished (table : Table)
  | fault
  | stuck
  deriving DecidableEq

def Walk.chunk (w : Walk) : Nat := min w.size (pageSize - w.offset)

/-- Whether a page continues the last entry, which stays below 60 KB for that. -/
def combines (prev : Prd) (phys : Nat) : Bool :=
  decide (prev.size ≤ 2 ^ 16 - 2 * pageSize) && add32 prev.addr prev.size == phys

/-- The branch that creates a new entry; it fails when that was the last one. -/
def newPrd (w : Walk) (phys : Nat) : Except Exit Walk :=
  if w.items - 1 = 0 then .error .fault
  else .ok { w with
    table := ⟨w.table.entries, some ⟨add32 phys w.offset, w.chunk, false⟩⟩
    items := w.items - 1 }

/-- The last entry grows, in the sixteen bits it has for its size. -/
def Table.grow (t : Table) (last : Prd) (n : Nat) (edt : Bool) : Table :=
  ⟨t.full, some ⟨last.addr, (last.size + n) % 2 ^ 16, edt⟩⟩

def addPage (w : Walk) (phys : Nat) : Except Exit Walk :=
  match w.table.last with
  | none => newPrd w phys
  | some prev =>
    if combines prev phys then .ok { w with table := w.table.grow prev w.chunk prev.edt }
    else newPrd w phys

def Table.setEdt (t : Table) (edt : Bool) : Table :=
  ⟨t.full, t.last.map (fun prd => { prd with edt := edt })⟩

def pteStep (mm : Mm) (w : Walk) : Except Exit Walk :=
  let pfn := (mm.pte (w.fromAddr / pageSize)).pfn
  if w.offset < pageSize then
    if mm.pfnValid pfn then
      match addPage w (phys pfn) with
      | .error e => .error e
      | .ok next =>
        let size := w.size - w.chunk
        let table := next.table.setEdt (size == 0)
        if size = 0 then .error (.finished table)
        else .ok ⟨add32 w.fromAddr pageSize, 0, size, next.items, table⟩
    else .error .fault
  else .ok { w with fromAddr := add32 w.fromAddr pageSize, offset := w.offset - pageSize }

def dirEnd (addr : Nat) : Nat := add32 addr pgdirSize / pgdirSize * pgdirSize

def before (limit : Nat) (w : Walk) : Bool := decide (w.fromAddr ≠ 0) && decide (w.fromAddr < limit)

def pteLoop (mm : Mm) (fuel pteEnd : Nat) (w : Walk) : Except Exit Walk :=
  Loops.doWhile .stuck (before pteEnd) (pteStep mm) fuel w

def pmdLoop (mm : Mm) (fuel pmdEnd : Nat) (w : Walk) : Except Exit Walk :=
  Loops.doWhile .stuck (before pmdEnd)
    (fun w => pteLoop mm fuel (min (dirEnd w.fromAddr) pmdEnd) w) fuel w

def pgdLoop (mm : Mm) (fuel limit : Nat) (w : Walk) : Except Exit Walk :=
  Loops.doWhile .stuck (before limit)
    (fun w => pmdLoop mm fuel (min (dirEnd w.fromAddr) limit) w) fuel w

def vmaWalk (mm : Mm) (user : Nat) (w : Walk) : Except Exit Walk :=
  match findVma mm user with
  | none => .error .fault
  | some vma =>
    pgdLoop mm (pageAlign vma.vmEnd / pageSize) (pageAlign vma.vmEnd)
      { w with fromAddr := vma.vmStart, offset := sub32 user vma.vmStart }

/-- The outer loop of `__user_to_prdt`; each round takes at least a byte. -/
def vmaLoop (mm : Mm) : Nat → Nat → Walk → Except Exit Walk
  | 0, _, _ => .error .stuck
  | fuel + 1, user, w =>
    if w.size = 0 then .ok w
    else match vmaWalk mm user w with
      | .error e => .error e
      | .ok w => vmaLoop mm fuel w.fromAddr w

/-- `__user_to_prdt`. The table is given by the number of its entries, `none` for
a null pointer. -/
def userToPrdt0 (mm : Mm) (user size : Nat) (next : Option Nat) : Outcome :=
  match next with
  | none => .failed einval
  | some items =>
    if size / pageSize + 2 > items then .failed einval
    else match vmaLoop mm (size + 1) user ⟨0, 0, size, items, ⟨[], none⟩⟩ with
      | .error (.finished table) => .done table.entries
      | .error .fault => .failed efault
      | .error .stuck => .stuck
      | .ok w => .done w.table.entries

def findExtendVma (mm : Mm) (addr : Nat) : Option VmArea :=
  (findVma mm (addr / pageSize * pageSize)).filter
    (fun vma => decide (vma.vmStart ≤ addr / pageSize * pageSize))

def followPage (mm : Mm) (page : Nat) : Option Pfn :=
  if (mm.pte page).present && (mm.pte page).write then some (mm.pte page).pfn else mm.fault page

def getUserPage (mm : Mm) (addr : Nat) : Option Pfn :=
  match findExtendVma mm addr with
  | none => none
  | some vma =>
    if vma.io || vma.pfnmap || !vma.write then none else followPage mm (addr / pageSize)

def getUserPages (mm : Mm) (start : Nat) : Nat → List Pfn
  | 0 => []
  | n + 1 => match getUserPage mm start with
    | none => []
    | some pfn => pfn :: getUserPages mm (start + pageSize) n

/-- The test for memory of the kernel that is mapped into the task. -/
def directMapped (mm : Mm) (user : Nat) : Bool :=
  (findVma mm user).any (fun vma => vma.io && vma.vmPgoff != 0)

/-- `phys` is the address of the bytes, `pgSize` how many they are. -/
def putPage (t : Table) (phys pgSize : Nat) : Table :=
  match t.last with
  | none => ⟨t.full, some ⟨phys, pgSize, true⟩⟩
  | some next =>
    if add32 next.addr next.size ≠ phys ∨ next.size + pgSize ≥ 65536 then
      ⟨t.full ++ [{ next with edt := false }], some ⟨phys, pgSize, true⟩⟩
    else t.grow next pgSize true

def pgSize (ptr size : Nat) : Nat := min (pageSize - ptr % pageSize) size

/-- A page it has not got is a null pointer. -/
def prdt1Loop (mm : Mm) (pgUser : List Pfn) : Nat → Nat → Nat → Nat → Table → Table
  | 0, _, _, _, t => t
  | fuel + 1, pgIdx, ptr, size, t =>
    if size = 0 then t
    else
      let virt := add32 (phys (pgUser[pgIdx]?.getD mm.nullPfn)) (ptr % pageSize)
      prdt1Loop mm pgUser fuel (pgIdx + 1) (ptr + pgSize ptr size) (size - pgSize ptr size)
        (putPage t virt (pgSize ptr size))

def nrPages (size : Nat) : Nat := add32 size (pageSize - 1) / pageSize

def userToPrdt1 (mm : Mm) (user size : Nat) (next : Option Nat) : Outcome :=
  if directMapped mm user then .bug
  else match next with
  | none => .failed einval
  | some items =>
    if size / pageSize + 2 > items ∨ nrPages size > 2560 then .failed einval
    else
      let pgUser := getUserPages mm user (nrPages size)
      if pgUser = [] then .failed size
      else .done (prdt1Loop mm pgUser size 0 user size ⟨[], none⟩).entries

/-- The loop of `__user_to_prdt2`, which gets one page at a time. -/
def prdt2Loop (mm : Mm) : Nat → Nat → Nat → Table → Option Table
  | 0, _, _, t => some t
  | fuel + 1, ptr, size, t =>
    if size = 0 then some t
    else match getUserPage mm ptr with
      | none => none
      | some pfn =>
        let virt := add32 (phys pfn) (ptr % pageSize)
        prdt2Loop mm fuel (ptr + pgSize ptr size) (size - pgSize ptr size)
          (putPage t virt (pgSize ptr size))

def userToPrdt2 (mm : Mm) (user size : Nat) (next : Option Nat) : Outcome :=
  if directMapped mm user then .bug
  else match next with
  | none => .failed einval
  | some items =>
    if size / pageSize + 2 > items then .failed einval
    else match prdt2Loop mm size user size ⟨[], none⟩ with
      | none => .failed efault
      | some t => .done t.entries

def userToPrdt (method : Nat) (mm : Mm) (user size : Nat) (next : Option Nat) : Outcome :=
  match method with
  | 1 => userToPrdt1 mm user size next
  | 2 => userToPrdt2 mm user size next
  | _ => userToPrdt0 mm user size next

end Apc8750.Prdt
