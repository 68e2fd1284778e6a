import Mathlib.Data.List.GetD
import Apc8750.Library.Faults
import Apc8750.Env.Crc
import Apc8750.Env.History

namespace Apc8750.SfEnv
open Env

inductive Copy where
  | env1
  | env2
  deriving DecidableEq

def Copy.other : Copy → Copy
  | .env1 => .env2
  | .env2 => .env1

def wordBytes (n : Nat) : List Nat :=
  [n % 256, n / 256 % 256, n / 65536 % 256, n / 16777216 % 256]

def imageBytes (data : List Nat) : List Nat := wordBytes (envCrc32 data) ++ 1 :: data

def flags (sector : List Nat) : Nat := sector.getD 4 0

def dataOf (sector : List Nat) : List Nat := sector.drop 5

def crcOk (sector : List Nat) : Bool := sector.take 4 == wordBytes (envCrc32 (dataOf sector))

def accepted (sector : List Nat) : Bool := flags sector == 1 && crcOk sector

/-- The first `n` bytes of a sector replaced by those of another. -/
def overlay (old new : List Nat) (n : Nat) : List Nat := new.take n ++ old.drop n

def blank (size : Nat) : List Nat := List.replicate size 255

def obsolete (sector : List Nat) : List Nat := sector.set 4 0

theorem other_ne (c : Copy) : c.other ≠ c := by
  cases c <;> simp [Copy.other]

@[simp] theorem flags_image : flags (imageBytes data) = 1 := rfl

theorem accepted_image (data : List Nat) : accepted (imageBytes data) = true := by
  simp [accepted,crcOk,imageBytes,wordBytes,dataOf,flags]

theorem length_image : (imageBytes data).length = data.length + 5 := by
  simp [imageBytes,wordBytes]

theorem not_accepted (h : flags sector ≠ 1) : accepted sector = false := by
  simp [accepted,h]

theorem flags_blank (h : 4 < size) : flags (blank size) = 255 := by
  simp [flags,blank,List.getD_eq_getElem?_getD,h]

theorem blank_not_accepted (size : Nat) : accepted (blank size) = false := by
  apply not_accepted
  by_cases h : 4 < size
  · rw [flags_blank h]
    decide
  · unfold flags blank
    rw [List.getD_eq_default _ _ (by simpa using h)]
    decide

theorem flags_obsolete : flags (obsolete sector) = 0 := by
  unfold flags obsolete
  rw [List.getD_eq_getElem?_getD,List.getElem?_set]
  by_cases h : 4 < sector.length
  · simp [h]
  · simp [h]

theorem obsolete_not_accepted : accepted (obsolete sector) = false := by
  apply not_accepted
  rw [flags_obsolete]
  decide

theorem overlay_all (h : new.length ≤ n) (same : old.length = new.length) : overlay old new n = new := by
  unfold overlay
  rw [List.take_of_length_le h,List.drop_of_length_le (by omega),List.append_nil]

theorem length_overlay (same : old.length = new.length) : (overlay old new n).length = new.length := by
  simp only [overlay,List.length_append,List.length_take,List.length_drop]
  omega

end Apc8750.SfEnv
