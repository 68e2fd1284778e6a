import Mathlib.Algebra.Order.Group.Nat

namespace Apc8750.Masks

variable {w : Nat} {x : BitVec w} {i : Nat}

theorem and_mask_bne : (x &&& 1#w <<< i != 0) = x.getLsbD i := by
  change (x &&& BitVec.twoPow w i != 0) = x.getLsbD i
  rw [BitVec.and_twoPow]
  cases set : x.getLsbD i with
  | false => simp
  | true =>
    have low := BitVec.lt_of_getLsbD set
    have ne : BitVec.twoPow w i ≠ 0 := by
      intro zero
      have cleared := congrArg (fun m => m.getLsbD i) zero
      simp [low] at cleared
    simpa using ne

theorem mask_getLsbD : (1#w <<< i).getLsbD j = (decide (j < w) && decide (i = j)) := by
  change (BitVec.twoPow w i).getLsbD j = _
  rw [BitVec.getLsbD_twoPow]
  by_cases same : i = j
  · simp [same]
  · simp [same]

theorem and_bne_iff {m : BitVec w} : (x &&& m != 0) = true ↔ ∃ i, x.getLsbD i = true ∧ m.getLsbD i = true := by
  rw [bne_iff_ne]
  constructor
  · intro ne
    apply Classical.byContradiction
    intro none
    refine ne (BitVec.eq_of_getLsbD_eq fun i _ => ?_)
    have apart := not_exists.mp none i
    simpa using apart
  · rintro ⟨i,set,mask⟩ zero
    have cleared := congrArg (fun y => y.getLsbD i) zero
    simp [set,mask] at cleared

theorem and_field (n k w : Nat) : n &&& (2 ^ w - 1) * 2 ^ k = n / 2 ^ k % 2 ^ w * 2 ^ k := by
  apply Nat.eq_of_testBit_eq
  intro i
  rw [Nat.testBit_and,Nat.testBit_mul_two_pow,Nat.testBit_mul_two_pow,Nat.testBit_two_pow_sub_one,
    Nat.testBit_mod_two_pow,Nat.testBit_div_two_pow]
  by_cases low : k ≤ i
  · rw [Nat.sub_add_cancel low,Bool.and_left_comm,Bool.and_comm (n.testBit i)]
  · simp [low]

end Apc8750.Masks
