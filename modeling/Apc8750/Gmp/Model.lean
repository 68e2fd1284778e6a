import Apc8750.Library.Tiles
import Apc8750.Library.Runs

namespace Apc8750.Gmp
open Function

def einval : Int := -22
def efault : Int := -14

def gmpShift : Nat := 16

def sizeofGmdesc : Nat := 24

structure Gmdesc where
  pa : Nat
  order : Nat
  used : Bool
  owner : Int
  tail : Bool
  deriving DecidableEq

abbrev Descs := Nat → Gmdesc

structure Pool where
  pa : Nat
  len : Nat

def Pool.nr (pool : Pool) : Nat := pool.len >>> gmpShift

def gmpNr (g : Gmdesc) : Nat := 1 <<< g.order
def gmpSize (g : Gmdesc) : Nat := gmpNr g <<< gmpShift

def orderLoop (val : Nat) : Nat :=
  if val = 0 then 0 else orderLoop (val >>> 1) + 1
  termination_by val
  decreasing_by
    simp only [Nat.shiftRight_eq_div_pow]
    omega

def gmpGetOrder (val : Nat) : Nat :=
  if val = 0 then 0 else orderLoop ((val - 1) >>> gmpShift)

def nextGmdesc (d : Descs) (p : Nat) : Option Nat :=
  if (d p).tail then none else some (p + gmpNr (d p))

/-- The blocks that one comes by with `next_gmdesc`. -/
def blocks (d : Descs) : Nat → Nat → Option (List Nat)
  | 0, _ => none
  | fuel + 1, p =>
    match nextGmdesc d p with
    | none => some [p]
    | some q => (blocks d fuel q).map (p :: ·)

/-- The loop of `prev_gmdesc`, which follows a null pointer where it does not come by. -/
def prevLoop (d : Descs) (gmdesc : Nat) : Nat → Nat → Nat → Option Nat
  | 0, _, _ => none
  | fuel + 1, p, next =>
    if next = gmdesc then some p
    else match nextGmdesc d next with
      | none => none
      | some q => prevLoop d gmdesc fuel next q

def prevGmdesc (fuel : Nat) (d : Descs) (gmdesc : Nat) : Option (Option Nat) :=
  if gmdesc = 0 then some none else (prevLoop d gmdesc fuel 0 0).map some

def gmpSplit (d : Descs) (p : Nat) : Int × Descs :=
  if (d p).order ≠ 0 then
    let d := update d p { d p with order := (d p).order - 1 }
    let new := p + gmpNr (d p)
    let ofs := gmpSize (d p)
    if (d new).pa ≠ (d p).pa + ofs then (efault, d)
    else
      let d := update d new { d new with
        order := (d p).order, used := (d p).used, tail := (d p).tail }
      (0, update d p { d p with tail := false })
  else (einval, d)

/-- What `gmp_merge` writes when it joins a block with the one behind it. -/
def join (d : Descs) (gmdesc p : Nat) : Descs :=
  let d := update d gmdesc { d gmdesc with
    order := (d gmdesc).order + 1, tail := (d p).tail }
  update d p { d p with tail := false }

mutual

def gmpMerge : Nat → Descs → Nat → Option (Int × Descs)
  | 0, _, _ => none
  | fuel + 1, d, gmdesc =>
    let start := (d gmdesc).pa - (d 0).pa
    let unaligned := (start >>> ((d gmdesc).order + gmpShift)) &&& 1
    if (d gmdesc).used = true ∨ unaligned ≠ 0 then some (einval, d)
    else match nextGmdesc d gmdesc with
      | none => some (einval, d)
      | some p =>
        if (d p).used then some (einval, d)
        else match gmpMerge fuel d p with
          | none => none
          | some (_, d) =>
            if (d p).order = (d gmdesc).order then
              (mergeWhile fuel (join d gmdesc p) gmdesc).map fun d => (0, d)
            else some (einval, d)

/-- `while (gmp_merge(gmp, gmdesc) == 0);`. -/
def mergeWhile : Nat → Descs → Nat → Option Descs
  | 0, _, _ => none
  | fuel + 1, d, gmdesc =>
    match gmpMerge fuel d gmdesc with
    | none => none
    | some (r, d) => if r = 0 then mergeWhile fuel d gmdesc else some d

end

/-- The loop at the end of `gmp_free` and `gmp_invalidate`. -/
def defrag (mergeFuel : Nat) : Nat → Descs → Nat → Option Descs
  | 0, _, _ => none
  | fuel + 1, d, p =>
    match gmpMerge mergeFuel d p with
    | none => none
    | some (_, d) =>
      match nextGmdesc d p with
      | none => some d
      | some q => defrag mergeFuel fuel d q

/-- `while (p->order > order)` in `gmp_alloc`, with the number of splits that failed. -/
def splitLoop (order : Nat) : Nat → Descs → Nat → Option (Nat × Descs)
  | 0, _, _ => none
  | fuel + 1, d, p =>
    if (d p).order > order then
      let r := gmpSplit d p
      (splitLoop order fuel r.2 p).map fun q => (q.1 + (if r.1 = 0 then 0 else 1), q.2)
    else some (0, d)

def allocLoop (splitFuel order : Nat) : Nat → Descs → Nat → Option (Option Nat × Nat × Descs)
  | 0, _, _ => none
  | fuel + 1, d, p =>
    if (d p).used = false ∧ (d p).order ≥ order then
      (splitLoop order splitFuel d p).map fun q => (some p, q.1, q.2)
    else match nextGmdesc d p with
      | none => some (none, 0, d)
      | some q => allocLoop splitFuel order fuel d q

def gmpAlloc (fuel : Nat) (d : Descs) (size pid : Nat) : Option (Nat × Nat × Descs) :=
  match allocLoop fuel (gmpGetOrder size) fuel d 0 with
  | none => none
  | some (none, failed, d) => some (0, failed, d)
  | some (some p, failed, d) =>
    if (d p).used then some (0, failed, d)
    else some ((d p).pa, failed, update d p { d p with used := true, owner := pid })

/-- What `gmp_free` and `gmp_invalidate` do to a block. -/
def release (d : Descs) (p : Nat) : Descs :=
  update d p { d p with used := false, owner := 0 }

def freeLoop (pa pid : Nat) : Nat → Descs → Nat → Option (Option Nat)
  | 0, _, _ => none
  | fuel + 1, d, p =>
    if (d p).pa = pa ∧ (d p).owner = pid then some (some p)
    else match nextGmdesc d p with
      | none => some none
      | some q => freeLoop pa pid fuel d q

def gmpFree (fuel : Nat) (d : Descs) (pa pid : Nat) : Option Descs :=
  match freeLoop pa pid fuel d 0 with
  | none => none
  | some none => defrag fuel fuel d 0
  | some (some p) => defrag fuel fuel (release d p) 0

def invalidateLoop (pid : Nat) : Nat → Descs → Nat → Option Descs
  | 0, _, _ => none
  | fuel + 1, d, p =>
    let d := if (d p).owner = pid then release d p else d
    match nextGmdesc d p with
    | none => some d
    | some q => invalidateLoop pid fuel d q

def gmpInvalidate (fuel : Nat) (d : Descs) (pid : Nat) : Option Descs :=
  match invalidateLoop pid fuel d 0 with
  | none => none
  | some d => defrag fuel fuel d 0

/-- What `gmp_reset` makes of the array before it defragments it. -/
def initDescs (pool : Pool) (d : Descs) : Descs := fun j =>
  if j < pool.nr then ⟨pool.pa + (j <<< gmpShift), 0, false, 0, decide (j + 1 = pool.nr)⟩ else d j

/-- The loop of `gmp_reset`, from the last descriptor to the first. -/
def resetLoop (mergeFuel : Nat) : Nat → Descs → Nat → Option Descs
  | 0, _, _ => none
  | fuel + 1, d, p =>
    match gmpMerge mergeFuel d p with
    | none => none
    | some (_, d) =>
      match prevGmdesc mergeFuel d p with
      | none => none
      | some none => some d
      | some (some q) => resetLoop mergeFuel fuel d q

def gmpReset (fuel : Nat) (pool : Pool) (d : Descs) (pid : Nat) : Option (Nat × Descs) :=
  if pool.nr = 0 then some (0, d)
  else match resetLoop fuel fuel (initDescs pool d) (pool.nr - 1) with
    | none => none
    | some d => (gmpAlloc fuel d (sizeofGmdesc * pool.nr) pid).map fun r =>
      (r.2.1, update r.2.2 0 { r.2.2 0 with owner := -1 })

structure Block where
  pa : Nat
  order : Nat
  owner : Nat
  deriving DecidableEq

/-- The descriptors, the blocks allocated since a reset, and the splits that failed. -/
structure State where
  descs : Descs
  live : List Block
  failedSplits : Nat

/-- The calls, each with the process that makes it or, for `gmp_invalidate`, is passed. -/
inductive Op where
  | reset (pid : Nat)
  | alloc (size pid : Nat)
  | free (pa pid : Nat)
  | invalidate (pid : Nat)

def step (pool : Pool) (fuel : Nat) (s : State) : Op → Option State
  | .reset pid => (gmpReset fuel pool s.descs pid).map fun r =>
    ⟨r.2, [], s.failedSplits + r.1⟩
  | .alloc size pid => (gmpAlloc fuel s.descs size pid).map fun r =>
    ⟨r.2.2, if r.1 = 0 then s.live else ⟨r.1, gmpGetOrder size, pid⟩ :: s.live, s.failedSplits + r.2.1⟩
  | .free pa pid => (gmpFree fuel s.descs pa pid).map fun d =>
    ⟨d, s.live.filter fun b => ! (b.pa == pa && b.owner == pid), s.failedSplits⟩
  | .invalidate pid => (gmpInvalidate fuel s.descs pid).map fun d =>
    ⟨d, s.live.filter fun b => ! (b.owner == pid), s.failedSplits⟩

def run (pool : Pool) (fuel : Nat) (contents : Descs) (pid : Nat) (ops : List Op) : Option State :=
  (Op.reset pid :: ops).foldlM (step pool fuel) ⟨contents, [], 0⟩

end Apc8750.Gmp
