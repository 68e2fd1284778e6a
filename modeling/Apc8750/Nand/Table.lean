import Mathlib.Algebra.Order.Group.Nat

namespace Apc8750.Nand

abbrev Bbt := Nat → BitVec 32

def bbtMaxBlock : Nat := 4

/-- The two bits of a block in its word, `ffword << ((addr & 0x0f) * 2)`. -/
def bits (block : Nat) : BitVec 32 := 3#32 <<< ((block % 16) * 2)

/-- The argument is the block's number, the address divided by `erasesize`. -/
def isbbtbadblock (bbt : Bbt) (block : Nat) : Bool :=
  bbt (block / 16) &&& bits block != bits block

def updateBbtInram (bbt : Bbt) (block : Nat) : Bbt :=
  Function.update bbt (block / 16) (bbt (block / 16) &&& ~~~bits block)

theorem bits_ne (block : Nat) : 0#32 ≠ bits block := by
  have all : ∀ i < 16, 0#32 ≠ 3#32 <<< (i * 2) := by decide
  exact all _ (Nat.mod_lt _ (by decide))

theorem bits_apart (h : b % 16 ≠ c % 16) : ~~~bits b &&& bits c = bits c := by
  have all : ∀ i < 16, ∀ j < 16, i ≠ j →
      ~~~(3#32 <<< (i * 2)) &&& 3#32 <<< (j * 2) = 3#32 <<< (j * 2) := by decide
  exact all _ (Nat.mod_lt _ (by decide)) _ (Nat.mod_lt _ (by decide)) h

@[simp]
theorem isbbtbadblock_marked (bbt : Bbt) (b : Nat) :
    isbbtbadblock (updateBbtInram bbt b) b = true := by
  have off : ~~~bits b &&& bits b = 0#32 := by
    rw [BitVec.and_comm]
    exact BitVec.and_not_self _
  unfold isbbtbadblock updateBbtInram
  rw [Function.update_self,BitVec.and_assoc,off,BitVec.and_zero,bne_iff_ne]
  exact bits_ne b

theorem isbbtbadblock_other (bbt : Bbt) (h : c ≠ b) :
    isbbtbadblock (updateBbtInram bbt b) c = isbbtbadblock bbt c := by
  unfold isbbtbadblock updateBbtInram
  by_cases word : c / 16 = b / 16
  · have place : b % 16 ≠ c % 16 := by omega
    rw [word,Function.update_self,BitVec.and_assoc,bits_apart place]
  · rw [Function.update_of_ne word]

theorem isbbtbadblock_keeps (b : Nat) (h : isbbtbadblock bbt c = true) :
    isbbtbadblock (updateBbtInram bbt b) c = true := by
  by_cases same : c = b
  · rw [same,isbbtbadblock_marked]
  · rw [isbbtbadblock_other bbt same,h]

theorem good_of_marked (h : isbbtbadblock (updateBbtInram bbt b) c = false) :
    c ≠ b ∧ isbbtbadblock bbt c = false := by
  by_cases same : c = b
  · rw [same,isbbtbadblock_marked] at h
    cases h
  · exact ⟨same,by rwa [isbbtbadblock_other bbt same] at h⟩

def unmark (bbt : Bbt) (block : Nat) : Bbt :=
  Function.update bbt (block / 16) (bbt (block / 16) ||| bits block)

theorem isbbtbadblock_unmark (bbt : Bbt) (b : Nat) : isbbtbadblock (unmark bbt b) b = false := by
  have on : (bbt (b / 16) ||| bits b) &&& bits b = bits b := by
    ext i
    simp only [BitVec.getElem_and,BitVec.getElem_or]
    cases (bits b)[i] <;> simp
  unfold isbbtbadblock unmark
  rw [Function.update_self,on]
  exact bne_self_eq_false _

theorem isbbtbadblock_unmark_other (bbt : Bbt) (h : c ≠ b) :
    isbbtbadblock (unmark bbt b) c = isbbtbadblock bbt c := by
  unfold isbbtbadblock unmark
  by_cases word : c / 16 = b / 16
  · have place : b % 16 ≠ c % 16 := by omega
    have same : (bbt (b / 16) ||| bits b) &&& bits c = bbt (b / 16) &&& bits c := by
      rw [← bits_apart place]
      ext i
      simp only [BitVec.getElem_and,BitVec.getElem_or,BitVec.getElem_not]
      cases (bits b)[i] <;> simp
    rw [word,Function.update_self,same]
  · rw [Function.update_of_ne word]

end Apc8750.Nand
