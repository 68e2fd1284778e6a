import Apc8750.SfEnv.Kernel

namespace Apc8750.SfEnv
open Env Faults Function

/-- `env_init` of U-Boot; `none` stands for the defaults. -/
def ubootInit (copies : Copy → List Nat) : Option Copy :=
  let flag1 := flags (copies .env1)
  let flag2 := flags (copies .env2)
  match crcOk (copies .env1), crcOk (copies .env2) with
  | true, false => some .env1
  | false, true => some .env2
  | false, false => none
  | true, true =>
    if flag1 = 1 ∧ flag2 = 0 then some .env1
    else if flag1 = 0 ∧ flag2 = 1 then some .env2
    else if flag1 = flag2 then some .env1
    else if flag1 = 0xFF then some .env1
    else if flag2 = 0xFF then some .env2
    else none

/-- It makes the other copy obsolete, if the flash takes the write. -/
def retire (copies : Copy → List Nat) (c : Copy) (taken : Bool) : Copy → List Nat :=
  if (flags (copies c) ≠ 0 ∧ crcOk (copies c) = true) ∧ taken = true then
    update copies c (obsolete (copies c))
  else copies

def activate (copies : Copy → List Nat) (c : Copy) (taken : Bool) : Copy → List Nat :=
  if (flags (copies c) ≠ 1 ∧ flags (copies c) &&& 1 = 1) ∧ taken = true then
    update copies c ((copies c).set 4 1)
  else copies

def envRelocateSpec (copies : Copy → List Nat) (active : Copy) (taken : Bool) : Copy → List Nat :=
  activate (retire copies active.other taken) active taken

def sfEnvInit (copies : Copy → List Nat) : Option Copy :=
  if flags (copies .env1) ≠ 0 then some .env1
  else if flags (copies .env2) ≠ 0 then some .env2
  else none

/-- The erase, data, CRC, obsolete flag of the old copy and active flag of the new one. -/
structure SaveOps where
  erase : Op Nat
  data : Op Nat
  crc : Op Nat
  obsolete : Op Nat
  active : Op Nat

def saveenv (copies : Copy → List Nat) (active : Copy) (data : List Nat) (ops : SaveOps) :
    Ended × (Copy → List Nat) × Copy :=
  let new := active.other
  let size := (copies new).length
  let copies := update copies new (overlay (copies new) (blank size) (ops.erase.left size))
  match ops.erase.status with
  | .error => (.returned 1, copies, active)
  | .cut => (.lost, copies, active)
  | .done =>
    let copies := update copies new
      (overlay (copies new) ((copies new).take 5 ++ data) (5 + ops.data.left data.length))
    match ops.data.status with
    | .error => (.returned 1, copies, active)
    | .cut => (.lost, copies, active)
    | .done =>
      let copies := update copies new
        (overlay (copies new) (wordBytes (envCrc32 data) ++ (copies new).drop 4) (ops.crc.left 4))
      match ops.crc.status with
      | .error => (.returned 1, copies, active)
      | .cut => (.lost, copies, active)
      | .done =>
        let copies := if ops.obsolete.left 1 = 0 then copies
          else update copies active (SfEnv.obsolete (copies active))
        match ops.obsolete.status with
        | .error => (.returned 1, copies, active)
        | .cut => (.lost, copies, active)
        | .done =>
          let copies := if ops.active.left 1 = 0 then copies
            else update copies new ((copies new).set 4 1)
          match ops.active.status with
          | .error => (.returned 1, copies, active)
          | .cut => (.lost, copies, active)
          | .done => (.returned 0, copies, new)

inductive Program where
  | uboot
  | kernel
  deriving DecidableEq

/-- The flash, and the program that runs with the copy it takes for the active one. -/
structure Board where
  copies : Copy → List Nat
  running : Option (Program × Copy)

inductive Action where
  | bootUboot (taken : Bool)
  | bootKernel (registered : Bool)
  | save (data : List Nat) (ops : SaveOps)
  | update (registered : Bool) (data : List Nat) (ops : Ops)

def Board.after (p : Program) : Ended × (Copy → List Nat) × Copy → Ended × Board
  | (.lost, copies, _) => (.lost, ⟨copies, none⟩)
  | (ended, copies, c) => (ended, ⟨copies, some (p, c)⟩)

/-- One action. `none` is one that cannot happen. -/
def act (w : Board) : Action → Option (Ended × Board)
  | .bootUboot taken =>
    match ubootInit w.copies with
    | none => some (.returned 0, ⟨w.copies, some (.uboot, .env1)⟩)
    | some c => some (.returned 0, ⟨envRelocateSpec w.copies c taken, some (.uboot, c)⟩)
  | .bootKernel registered =>
    match envInit registered w.copies with
    | none => none
    | some (none, _) => some (.returned 1, ⟨w.copies, none⟩)
    | some (some c, _) => some (.returned 0, ⟨w.copies, some (.kernel, c)⟩)
  | .save data ops =>
    match w.running with
    | some (.uboot, c) => some (Board.after .uboot (saveenv w.copies c data ops))
    | _ => none
  | .update registered data ops =>
    match w.running with
    | some (.kernel, c) => some (Board.after .kernel (envUpdate registered w.copies c data ops))
    | _ => none

end Apc8750.SfEnv
