import Apc8750.Library.Faults
import Apc8750.Env.Crc
import Apc8750.Env.History

namespace Apc8750.NandEnv
open Env Function

def envBlkLength : Nat := 9

/-- `struct env_t_nand`. -/
structure Image where
  crc : Nat
  data : List Nat
  deriving DecidableEq

/-- Its bytes, its bytes with `-EUCLEAN`, or nothing (`-EBADMSG`). -/
inductive Cell where
  | ok (image : Image)
  | corrected (image : Image)
  | failed
  deriving DecidableEq

def Image.valid (i : Image) : Bool := i.crc == envCrc32 i.data

def image (data : List Nat) : Image := ⟨envCrc32 data, data⟩

def erased (size : Nat) : Cell := .ok ⟨0xFFFFFFFF, List.replicate size 255⟩

theorem image_valid (data : List Nat) : (image data).valid = true := by
  simp [Image.valid,image]

def Skipped (cell : Cell) : Prop :=
  ∃ i, cell = .ok i ∧ (i.crc = 0xFFFFFFFF ∨ i.valid = false)

theorem erased_skipped (size : Nat) : Skipped (erased size) := ⟨_,rfl,.inl rfl⟩

/-- The environment stands in a good block, and the scan comes to that block first. -/
structure Current (bad : Nat → Bool) (cells : Nat → Cell) (block : Nat) (data : List Nat) :
    Prop where
  inside : block < envBlkLength
  good : bad block = false
  holds : cells block = .ok (image data)
  seen : envCrc32 data ≠ 0xFFFFFFFF
  first : ∀ b < block, bad b = false → Skipped (cells b)

section
variable (h : Current bad cells block data)
include h

theorem Current.behind (behind : block < new) :
    Current bad (update cells new cell) block data := by
  refine ⟨h.inside,h.good,?_,h.seen,?_⟩
  · rw [update_of_ne (Nat.ne_of_lt behind),h.holds]
  · intro b lt good
    rw [update_of_ne (by omega)]
    exact h.first b lt good

theorem Current.skip (ne : new ≠ block) (skip : Skipped cell) :
    Current bad (update cells new cell) block data := by
  refine ⟨h.inside,h.good,?_,h.seen,?_⟩
  · rw [update_of_ne ne.symm,h.holds]
  intro b lt good
  by_cases eq : b = new
  · rw [eq,update_self]
    exact skip
  · rw [update_of_ne eq]
    exact h.first b lt good

theorem Current.before (before : new < block)
    (good : bad new = false) (seen : envCrc32 data' ≠ 0xFFFFFFFF) :
    Current bad (update cells new (.ok (image data'))) new data' := by
  refine ⟨Nat.lt_trans before h.inside,good,update_self ..,seen,?_⟩
  intro b lt good
  rw [update_of_ne (Nat.ne_of_lt lt)]
  exact h.first b (Nat.lt_trans lt before) good

theorem Current.after (behind : block < new) (inside : new < envBlkLength) (good : bad new = false)
    (between : ∀ b, block < b → b < new → bad b = true) (seen : envCrc32 data' ≠ 0xFFFFFFFF)
    (holds : cells new = .ok (image data')) (skip : Skipped cell) :
    Current bad (update cells block cell) new data' := by
  refine ⟨inside,good,?_,seen,?_⟩
  · rw [update_of_ne (Nat.ne_of_gt behind),holds]
  intro b lt good
  by_cases eq : b = block
  · rw [eq,update_self]
    exact skip
  rw [update_of_ne eq]
  rcases Nat.lt_or_ge b block with lt' | ge
  · exact h.first b lt' good
  · rw [between b (by omega) lt] at good
    cases good

end

end Apc8750.NandEnv
