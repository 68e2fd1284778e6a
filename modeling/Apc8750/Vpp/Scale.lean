import Apc8750.Vpp.Fractions
import Mathlib.Data.Int.Interval
import Mathlib.Tactic.Ring

namespace Apc8750.Vpp
open Whiles

variable {src dst max min alignS alignD s d p q i : Int} {fuel : Nat} {best : Fraction}

def aligned (dst alignD : Int) : Int := dst - dst.tmod alignD

def ratio (d s : Int) : Int := (wrap (d * 1000000)).tdiv s

def times (s d p q : Int) : Int := Min.min (s / q) (d / p)

theorem fitFraction_eq (source : 0 ≤ s) (int : s < 2 ^ 31) (target : 0 ≤ d) (int' : d < 2 ^ 31) (hp : 0 < best.p)
    (hq : 0 < best.q) :
    fitFraction s d best = (times s d best.p best.q * best.q, times s d best.p best.q * best.p) ∧
      0 ≤ times s d best.p best.q ∧ times s d best.p best.q * best.q ≤ s ∧ times s d best.p best.q * best.p ≤ d := by
  have eq : (if s.tdiv best.q < d.tdiv best.p then s.tdiv best.q else d.tdiv best.p) = times s d best.p best.q := by
    rw [Int.tdiv_eq_ediv_of_nonneg source,Int.tdiv_eq_ediv_of_nonneg target,times]
    split <;> omega
  have nonneg : 0 ≤ times s d best.p best.q :=
    le_min (Int.ediv_nonneg source hq.le) (Int.ediv_nonneg target hp.le)
  have first : times s d best.p best.q * best.q ≤ s :=
    (Int.le_ediv_iff_mul_le hq).mp (min_le_left _ _)
  have second : times s d best.p best.q * best.p ≤ d :=
    (Int.le_ediv_iff_mul_le hp).mp (min_le_right _ _)
  have low := mul_nonneg nonneg hq.le
  have low' := mul_nonneg nonneg hp.le
  refine ⟨?_,nonneg,first,second⟩
  simp only [fitFraction,eq]
  rw [wrap_eq (by omega) (by omega),wrap_eq (by omega) (by omega)]

/-- The multiple of the nearest fraction keeps the whole source and is aligned. -/
def Passes (src dst min alignS alignD s : Int) : Prop :=
  ∃ p q, Nearest (ratio (aligned dst alignD) s) min p q ∧
    src ≤ times s (aligned dst alignD) p q * q ∧ alignS ∣ times s (aligned dst alignD) p q * q ∧
    alignD ∣ times s (aligned dst alignD) p q * p

structure ScalesDown (src dst min alignS alignD : Int) : Prop where
  down : dst < src
  source : src ≤ 4096
  stepS : 0 < alignS
  stepD : 0 < alignD
  target : alignD ≤ dst
  two : 2 ≤ min
  int : min < 2 ^ 31

theorem ScalesDown.aligned (h : ScalesDown src dst min alignS alignD) :
    0 < aligned dst alignD ∧ aligned dst alignD ≤ dst ∧ alignD ∣ aligned dst alignD := by
  have pos := h.stepD
  have le := h.target
  have rest := Int.tmod_nonneg (a := dst) alignD (by omega)
  have lt := Int.tmod_lt_of_pos dst pos
  refine ⟨by unfold Vpp.aligned; omega,by unfold Vpp.aligned; omega,?_⟩
  exact Int.dvd_self_sub_of_tmod_eq rfl

theorem check_down (h : d < s) : vppCheckScaleRatio fuel s d max min = (nearest fuel (ratio d s) min).map (fitFraction s d) :=
  if_neg (not_le.mpr h)

def Reachable (src dst min alignS alignD : Int) : Prop :=
  ∃ s, src ≤ s ∧ s < 2 ^ 31 ∧ (∀ t, src ≤ t → t ≤ s → SearchEnds (ratio (aligned dst alignD) t) min) ∧
    Passes src dst min alignS alignD s

section
variable (h : ScalesDown src dst min alignS alignD)
include h

end

theorem Reachable.bound (h : ScalesDown src dst min alignS alignD) (reach : Reachable src dst min alignS alignD) :
    src ≤ aligned dst alignD * min := by
  obtain ⟨s,low,_,_,p,q,near,keeps,_⟩ := reach
  obtain ⟨pos,_,_⟩ := h.aligned
  obtain ⟨one,less,most⟩ := near.range h.two
  have fits : times s (aligned dst alignD) p q ≤ aligned dst alignD :=
    (min_le_right _ _).trans (Int.ediv_le_self p pos.le)
  calc src ≤ times s (aligned dst alignD) p q * q := keeps
    _ ≤ aligned dst alignD * q := by gcongr; omega
    _ ≤ aligned dst alignD * min := by gcongr

theorem share_eq (low : 0 ≤ p) (high : p ≤ 2147) : share p q = p * 1000000 / q := by
  rw [share,wrap_eq (by omega) (by omega),Int.tdiv_eq_ediv_of_nonneg (by omega)]

end Apc8750.Vpp
