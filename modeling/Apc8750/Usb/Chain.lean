import Mathlib.Algebra.Order.Group.Nat

namespace Apc8750.Usb.Chain

def desSSize : Nat := 4

def desLSize : Nat := 0x10

/-- `D_Word0_Bits`, whose `Reserved` keeps what was there. -/
def word0 (old : Nat) (last format : Bool) (reqCount : Nat) : Nat :=
  reqCount % 2 ^ 16 + last.toNat * 2 ^ 16 + old / 2 ^ 17 % 2 ^ 13 * 2 ^ 17 + format.toNat * 2 ^ 30 + last.toNat * 2 ^ 31

def write (long : Bool) (mem : Nat → Nat) (vir phy : Nat) (last : Bool) (reqCount : Nat) : Nat → Nat :=
  let mem := Function.update mem (vir + 4) (phy % 2 ^ 32)
  let mem := if long then Function.update mem (vir + 8) (if last then 0 else (vir + desLSize) % 2 ^ 32) else mem
  Function.update mem vir (word0 (mem vir) last long reqCount)

/-- The loop of `wmt_udc_pdma_des_prepare`, with the addresses of the descriptors it writes. -/
def loop (long : Bool) (cutSize : Nat) : Nat → (Nat → Nat) → Nat → Nat → Nat → (Nat → Nat) × List Nat
  | 0, mem, _, _, _ => (mem, [])
  | fuel + 1, mem, vir, phy, resSize =>
    if resSize = 0 then (mem, [])
    else if resSize ≤ 32767 then (write long mem vir phy true resSize, [vir])
    else
      let (mem, rest) := loop long cutSize fuel (write long mem vir phy false (0x8000 - cutSize))
        (vir + if long then desLSize else desSSize) (phy + 0x8000) (resSize - 0x8000)
      (mem, vir :: rest)

/-- Only the last descriptor ends the chain. The bus address of the one at `d` is `d + desPhy -
vir`. -/
def Covers (long : Bool) (mem : Nat → Nat) (vir desPhy : Nat) : List Nat → Nat → Nat → Prop
  | [], _, _ => False
  | [d], phy, size => mem (d + 4) = phy ∧ mem d % 2 ^ 16 = size ∧ mem d / 2 ^ 31 = 1 ∧ mem d / 2 ^ 16 % 2 = 1
  | d :: d' :: rest, phy, size => mem (d + 4) = phy ∧ mem d / 2 ^ 31 = 0 ∧ mem d / 2 ^ 16 % 2 = 0 ∧
    (long = true → mem (d + 8) = d' + desPhy - vir) ∧ mem d % 2 ^ 16 ≤ size ∧
    Covers long mem vir desPhy (d' :: rest) (phy + mem d % 2 ^ 16) (size - mem d % 2 ^ 16)

end Apc8750.Usb.Chain
