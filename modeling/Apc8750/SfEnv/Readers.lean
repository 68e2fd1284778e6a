import Apc8750.SfEnv.TwoCopies
import Apc8750.SfEnv.Uboot

namespace Apc8750.SfEnv
open Env Faults Function

def AllTake (copies : Copy → List Nat) (c : Copy) : Prop :=
  ubootInit copies = some c ∧ sfEnvInit copies = some c ∧
    ∀ registered, (envInit registered copies).map Prod.fst = some (some c)

/-- Its CRC is wrong or its flag is one of the two that are ever written. -/
def Legible (sector : List Nat) : Prop := crcOk sector = true → flags sector = 0 ∨ flags sector = 1

def Settles (copies : Copy → List Nat) : Copy → Prop
  | .env1 => flags (copies .env1) = 1 ∧ crcOk (copies .env1) = true ∧ Legible (copies .env2)
  | .env2 => flags (copies .env1) = 0 ∧ flags (copies .env2) = 1 ∧ crcOk (copies .env2) = true

theorem accepted_iff : accepted sector = true ↔ flags sector = 1 ∧ crcOk sector = true := by
  simp [accepted]

theorem kernel_env1 : (∀ registered, (envInit registered copies).map Prod.fst = some (some .env1)) ↔
    flags (copies .env1) = 1 ∧ crcOk (copies .env1) = true := by
  rw [← accepted_iff]
  constructor
  · intro all
    have taken := all true
    unfold envInit at taken
    by_contra passed
    rw [initLoop,if_neg passed,if_neg (by simp),initLoop] at taken
    split at taken
    · simp at taken
    · rw [if_neg (by simp),initLoop] at taken
      simp at taken
  · intro taken registered
    rw [envInit,initLoop,if_pos taken]
    rfl

theorem kernel_env2 : (∀ registered, (envInit registered copies).map Prod.fst = some (some .env2)) ↔
    flags (copies .env1) ≠ 1 ∧ flags (copies .env2) = 1 ∧ crcOk (copies .env2) = true := by
  rw [← accepted_iff]
  constructor
  · intro all
    have raw := all false
    unfold envInit at raw
    rw [initLoop] at raw
    split at raw
    · simp at raw
    split at raw
    · simp at raw
    rename_i flag
    rw [initLoop] at raw
    split at raw
    · rename_i taken
      exact ⟨fun one => flag ⟨rfl,one⟩,taken⟩
    split at raw
    · simp at raw
    · rw [initLoop] at raw
      simp at raw
  · rintro ⟨flag,taken⟩ registered
    have passed : ¬ accepted (copies .env1) = true := fun yes => flag (accepted_iff.mp yes).1
    rw [envInit,initLoop,if_neg passed,if_neg fun c => flag c.2,initLoop,if_pos taken]
    rfl

theorem uboot_env1 (flag : flags (copies .env1) = 1) (ok : crcOk (copies .env1) = true) :
    ubootInit copies = some .env1 ↔ Legible (copies .env2) := by
  unfold ubootInit Legible
  rw [flag,ok]
  cases crcOk (copies .env2) with
  | false => simp
  | true =>
    dsimp only
    by_cases zero : flags (copies .env2) = 0
    · simp [zero]
    by_cases one : flags (copies .env2) = 1
    · simp [one]
    · by_cases erased : flags (copies .env2) = 0xFF
      · simp [erased]
      · simp [zero,one,erased,Ne.symm one]

theorem uboot_env2 (zero : flags (copies .env1) = 0) (flag : flags (copies .env2) = 1)
    (ok : crcOk (copies .env2) = true) : ubootInit copies = some .env2 := by
  unfold ubootInit
  rw [zero,flag,ok]
  cases crcOk (copies .env1) <;> rfl

theorem allTake_iff : AllTake copies c ↔ Settles copies c := by
  unfold AllTake
  cases c with
  | env1 =>
    rw [kernel_env1]
    constructor
    · rintro ⟨uboot,_,flag,ok⟩
      exact ⟨flag,ok,(uboot_env1 flag ok).mp uboot⟩
    · rintro ⟨flag,ok,legible⟩
      refine ⟨(uboot_env1 flag ok).mpr legible,?_,flag,ok⟩
      rw [sfEnvInit,if_pos (by simp [flag])]
  | env2 =>
    rw [kernel_env2]
    constructor
    · rintro ⟨_,early,_,flag,ok⟩
      refine ⟨?_,flag,ok⟩
      by_contra nonzero
      rw [sfEnvInit,if_pos nonzero] at early
      cases early
    · rintro ⟨zero,flag,ok⟩
      refine ⟨uboot_env2 zero flag ok,?_,by simp [zero],flag,ok⟩
      rw [sfEnvInit,if_neg (by simp [zero]),if_pos (by simp [flag])]

theorem settles_second (h : Settles copies .env1) (legible : Legible sector) :
    Settles (update copies .env2 sector) .env1 := by
  refine ⟨?_,?_,?_⟩
  · rw [update_of_ne (by decide)]
    exact h.1
  · rw [update_of_ne (by decide)]
    exact h.2.1
  · rw [update_self]
    exact legible

theorem settles_first (h : Settles copies .env2) (zero : flags sector = 0) :
    Settles (update copies .env1 sector) .env2 := by
  refine ⟨?_,?_,?_⟩
  · rw [update_self]
    exact zero
  · rw [update_of_ne (by decide)]
    exact h.2.1
  · rw [update_of_ne (by decide)]
    exact h.2.2

theorem legible_image (data : List Nat) : Legible (imageBytes data) := fun _ => .inr flags_image

theorem legible_obsolete : Legible (obsolete sector) := fun _ => .inl flags_obsolete

theorem settles_swap (copies : Copy → List Nat) (c : Copy) (sector data : List Nat) :
    Settles (update (update copies c.other (imageBytes data)) c (obsolete sector))
      c.other := by
  have ok := (accepted_iff.mp (accepted_image data)).2
  cases c with
  | env1 =>
    refine ⟨?_,?_,?_⟩
    · rw [update_self,flags_obsolete]
    · rw [update_of_ne (by decide),Copy.other,update_self,flags_image]
    · rw [update_of_ne (by decide),Copy.other,update_self,ok]
  | env2 =>
    refine ⟨?_,?_,?_⟩
    · rw [update_of_ne (by decide),Copy.other,update_self,flags_image]
    · rw [update_of_ne (by decide),Copy.other,update_self,ok]
    · rw [update_self]
      exact legible_obsolete

theorem flags_erasing (low : n ≤ 4) (long : 4 < sector.length) :
    flags (overlay sector (blank sector.length) n) = flags sector := by
  have taken : (List.take n (blank sector.length)).length = n := by
    simp only [blank,List.length_take,List.length_replicate]
    omega
  unfold flags overlay
  rw [List.getD_append_right _ _ _ _ (by omega),taken,List.getD_eq_getElem?_getD,
    List.getD_eq_getElem?_getD,List.getElem?_drop,Nat.add_sub_cancel' low]

end Apc8750.SfEnv
