import Mathlib.Data.Nat.Bitwise
import Mathlib.Data.Set.Function

namespace Division

/-- One bit of the division by the polynomial `p`, lowest bit first. -/
def bit (p c : Nat) : Nat := c >>> 1 ^^^ if c % 2 = 1 then p else 0

variable {p w c d : Nat}

theorem bit_xor (p c d : Nat) : bit p (c ^^^ d) = bit p c ^^^ bit p d := by
  unfold bit
  rw [Nat.shiftRight_xor_distrib,Nat.xor_mod_two_eq,Nat.add_mod]
  rcases Nat.mod_two_eq_zero_or_one c with hc | hc <;>
    rcases Nat.mod_two_eq_zero_or_one d with hd | hd <;>
    simp [hc,hd,Nat.xor_left_comm,Nat.xor_comm]

theorem iterate_xor (p n c d : Nat) :
    (bit p)^[n] (c ^^^ d) = (bit p)^[n] c ^^^ (bit p)^[n] d := by
  induction n generalizing c d with
  | zero => rfl
  | succ n ih => simp only [Function.iterate_succ_apply,bit_xor,ih]

theorem iterate_shift (p n c : Nat) : (bit p)^[n] (c <<< n) = c := by
  induction n with
  | zero => rfl
  | succ n ih =>
    have even : bit p (c <<< (n + 1)) = c <<< n := by
      simp [bit,Nat.shiftLeft_succ,Nat.shiftRight_eq_div_pow]
    rw [Function.iterate_succ_apply,even,ih]

theorem bit_maps (hp : p < 2 ^ w) : Set.MapsTo (bit p) {c | c < 2 ^ w} {c | c < 2 ^ w} := by
  intro c hc
  refine Nat.xor_lt_two_pow (Nat.lt_of_le_of_lt (Nat.shiftRight_le c 1) hc) ?_
  split
  · exact hp
  · exact Nat.two_pow_pos w

/-- The top bit of the polynomial tells the bit that was shifted out. -/
theorem bit_injOn (top : p.testBit w = true) : Set.InjOn (bit p) {c | c < 2 ^ (w + 1)} := by
  intro c hc d hd h
  have shown : ∀ {c}, c < 2 ^ (w + 1) → (bit p c).testBit w = decide (c % 2 = 1) := by
    intro c hc
    rw [bit,Nat.testBit_xor,Nat.testBit_shiftRight,Nat.add_comm,Nat.testBit_lt_two_pow hc]
    split <;> simp [*]
  have parity := (shown hc).symm.trans ((congrArg (Nat.testBit · w) h).trans (shown hd))
  rw [decide_eq_decide] at parity
  rw [bit,bit,if_congr parity rfl rfl,Nat.xor_left_inj,Nat.shiftRight_one,Nat.shiftRight_one] at h
  omega

theorem iterate_inj (hp : p < 2 ^ (w + 1)) (top : p.testBit w = true) (n : Nat)
    (hc : c < 2 ^ (w + 1)) (hd : d < 2 ^ (w + 1)) (h : (bit p)^[n] c = (bit p)^[n] d) : c = d :=
  (bit_injOn top).iterate (bit_maps hp) n hc hd h

theorem add_eq_xor {x n : Nat} (hx : x < 2 ^ n) (w : Nat) : x + 2 ^ n * w = x ^^^ w <<< n := by
  apply Nat.eq_of_testBit_eq
  intro i
  rw [Nat.add_comm,Nat.testBit_two_pow_mul_add _ hx,Nat.testBit_xor,Nat.testBit_shiftLeft]
  split
  · simp [Nat.not_le.mpr ‹i < n›]
  · have out : x.testBit i = false :=
      Nat.testBit_lt_two_pow (Nat.lt_of_lt_of_le hx (Nat.pow_le_pow_right Nat.two_pos (by omega)))
    simp [out,Nat.not_lt.mp ‹¬i < n›]

end Division
