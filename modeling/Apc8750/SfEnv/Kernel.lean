import Apc8750.Env.Store
import Apc8750.SfEnv.Sector

namespace Apc8750.SfEnv
open Env Faults

/-- A copy with the active flag and a wrong CRC is read again from its device: `none` before that is
registered. -/
def initLoop (registered : Bool) (copies : Copy → List Nat) :
    List Copy → List Nat → Option (Option Copy × List Nat)
  | [], buf => some (none, buf)
  | c :: cs, _ =>
    if accepted (copies c) = true then some (some c, copies c)
    else if registered = false ∧ flags (copies c) = 1 then none
    else initLoop registered copies cs (copies c)

def envInit (registered : Bool) (copies : Copy → List Nat) : Option (Option Copy × List Nat) :=
  initLoop registered copies [.env1, .env2] []

/-- The erase, the write of the image and of the obsolete flag, with the bytes done. -/
structure Ops where
  erase : Op Nat
  image : Op Nat
  flag : Op Nat

/-- What `sf_write` and `nor_write` return: the error of the flash only goes into
`retlen`. -/
def mtdWrite (_ : Op Nat) : Nat := 0

def envUpdate (registered : Bool) (copies : Copy → List Nat) (valid : Copy) (data : List Nat)
    (ops : Ops) : Ended × (Copy → List Nat) × Copy :=
  let invalid := valid.other
  let size := (copies invalid).length
  let copies := Function.update copies invalid
    (overlay (copies invalid) (blank size) (ops.erase.left size))
  match ops.erase.status with
  | .error => (.returned 1, copies, valid)
  | .cut => (.lost, copies, valid)
  | .done =>
    let image := imageBytes data
    let copies := Function.update copies invalid
      (overlay (copies invalid) image (ops.image.left image.length))
    if ops.image.status = .cut then (.lost, copies, valid)
    else if registered = true ∧ mtdWrite ops.image ≠ 0 then (.returned 1, copies, valid)
    else
      let copies := if ops.flag.left 1 = 0 then copies
        else Function.update copies valid (obsolete (copies valid))
      if ops.flag.status = .cut then (.lost, copies, valid)
      else if registered = true ∧ mtdWrite ops.flag ≠ 0 then (.returned 1, copies, valid)
      else (.returned 0, copies, invalid)

/-- `env_valid` is there once `env_init` has found an environment. -/
structure Machine where
  copies : Copy → List Nat
  registered : Bool
  ram : Option Mem
  valid : Option Copy

inductive Event where
  | set (beyond : Mem) (name : List Nat) (value : Option (List Nat)) (ops : Ops)
  | register
  | reboot

def Machine.load (w : Machine) (beyond : Mem) : Option (Mem × Option Copy) :=
  match w.ram with
  | some m => some (m, w.valid)
  | none => (envInit w.registered w.copies).map fun p => (memOf (dataOf p.2) beyond, p.1)

/-- The data that `env_update` takes from the block in memory. -/
def areaOf (envMaxSize : Nat) (m : Mem) : List Nat := bytesOf m 0 (envMaxSize - 5)

/-- `none` is an access to memory or to a device that is not there. -/
def Machine.set (envMaxSize : Nat) (w : Machine) (m : Mem) (valid : Option Copy) (name : List Nat)
    (value : Option (List Nat)) (ops : Ops) : Option (Reply × Machine) :=
  match setsyspara envMaxSize m name value true with
  | none => none
  | some (rcode, m') =>
    if rcode ≠ 0 then some (.rejected, ⟨w.copies, w.registered, some m', valid⟩)
    else
      match valid with
      | none => none
      | some c =>
        match envUpdate w.registered w.copies c (areaOf envMaxSize m') ops with
        | (.returned 0, copies, c) =>
          some (.updated (areaOf envMaxSize m'), ⟨copies, w.registered, some m', some c⟩)
        | (.returned _, copies, c) =>
          some (.unwritten (areaOf envMaxSize m'), ⟨copies, w.registered, some m', some c⟩)
        | (.lost, copies, _) => some (.lost (areaOf envMaxSize m'), ⟨copies, false, none, none⟩)

def step (envMaxSize : Nat) (w : Machine) : Event → Option (Reply × Machine)
  | .reboot => some (.rebooted, ⟨w.copies, false, none, none⟩)
  | .register => some (.rejected, ⟨w.copies, true, w.ram, w.valid⟩)
  | .set beyond name value ops =>
    match w.load beyond with
    | none => none
    | some (m, valid) =>
      if w.ram = none ∧ valid = none then some (.rejected, ⟨w.copies, w.registered, some m, none⟩)
      else w.set envMaxSize m valid name value ops

end Apc8750.SfEnv
