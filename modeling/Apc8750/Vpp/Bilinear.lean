import Apc8750.Vpp.Scale
import Mathlib.Tactic.IntervalCases

namespace Apc8750.Vpp
open Whiles

variable {src dst max : Nat} {s d : Int}

structure WithinLimits (s d : Int) : Prop where
  even : s % 2 = 0
  least : 4 ≤ d
  most : d ≤ 1920
  steps : s / Int.gcd s d ≤ 2048

def widening (dst : Nat) : Nat := if dst < 4 then (dst + 3) / dst else 1

def evenSource (src dst : Nat) : Nat := 2 * (src / 2) * widening dst

def rangedTarget (dst : Nat) : Nat := Min.min (dst * widening dst) 1920

theorem limitSizes_eq (pos : 0 < dst) : limitSizes src dst = (evenSource src dst, rangedTarget dst) := by
  have even : (if src % 2 ≠ 0 then src - 1 else src) = 2 * (src / 2) := by
    split <;> omega
  have cap (n : Nat) : (if n > 1920 then 1920 else n) = Min.min n 1920 := by
    split <;> omega
  by_cases small : dst < 4
  · have widen : smallFactor dst = (dst + 3) / dst := by
      interval_cases dst <;> rfl
    simp only [limitSizes,even,cap,if_pos small,evenSource,rangedTarget,widening,widen]
  · simp only [limitSizes,even,cap,if_neg small,evenSource,rangedTarget,widening,Nat.mul_one]

theorem widening_range (pos : 0 < dst) : 1 ≤ widening dst ∧ widening dst ≤ 4 ∧ 4 ≤ dst * widening dst := by
  unfold widening
  split
  · interval_cases dst <;> decide
  · omega

structure Corrected (s d : Int) : Prop where
  even : s % 2 = 0
  bound : s ≤ 131072
  least : 4 ≤ d
  most : d ≤ 1920
  down : d ≤ s

theorem corrected (pos : 0 < dst) (down : dst < src) (bound : src < 2 ^ 15) :
    Corrected (evenSource src dst) (rangedTarget dst) := by
  obtain ⟨one,four,wide⟩ := widening_range pos
  have size : 2 * (src / 2) * widening dst ≤ 32768 * 4 := Nat.mul_le_mul (by omega) four
  have less : dst * widening dst ≤ 2 * (src / 2) * widening dst := Nat.mul_le_mul (by omega) le_rfl
  have target : 4 ≤ rangedTarget dst ∧ rangedTarget dst ≤ 1920 ∧ rangedTarget dst ≤ dst * widening dst := by
    unfold rangedTarget
    omega
  have half : evenSource src dst = 2 * (src / 2 * widening dst) := Nat.mul_assoc _ _ _
  have source : evenSource src dst = 2 * (src / 2) * widening dst := rfl
  exact ⟨by omega,by omega,by omega,by omega,by omega⟩

theorem Corrected.limits (h : Corrected s d) (steps : s / Int.gcd s d ≤ 2048) : WithinLimits s d :=
  ⟨h.even,h.least,h.most,steps⟩

theorem Corrected.large (h : Corrected s d) (steps : 2048 < s / Int.gcd s d) : d < s ∧ 2048 < s := by
  have target := h.least
  have down := h.down
  have le : s / Int.gcd s d ≤ s := Int.ediv_le_self _ (by omega)
  refine ⟨lt_of_le_of_ne down fun same => ?_,by omega⟩
  rw [same,Int.gcd_self,Int.natAbs_of_nonneg (by omega),Int.ediv_self (by omega)] at steps
  omega

theorem four_times (large : 2048 < s) (bound : s ≤ 131072) (least : 4 ≤ d) (near : Nearest (d * 1000000 / s) 32 p q) :
    4 ≤ times s d p q := by
  obtain ⟨one,less,most⟩ := near.range (by decide)
  have source : 4 ≤ s / q := (Int.le_ediv_iff_mul_le (by omega)).mpr (by omega)
  refine le_min source ((Int.le_ediv_iff_mul_le (by omega)).mpr ?_)
  obtain ⟨o,kept,eq⟩ := near
  cases o with
  | none =>
    cases eq
    omega
  | some x =>
    cases eq
    have below := kept.1.2.1 p one le_rfl
    rw [share_eq (by omega) (by omega)] at below
    by_contra few
    have nonneg : 0 ≤ p * 1000000 / q := Int.ediv_nonneg (by omega) (by omega)
    have steps : p * 1000000 / q * 2049 ≤ d * 1000000 :=
      calc p * 1000000 / q * 2049 ≤ p * 1000000 / q * s := by gcongr; omega
        _ ≤ d * 1000000 := (Int.le_ediv_iff_mul_le (by omega)).mp below
    have unit : p * 1000000 < (p * 1000000 / q + 1) * 32 :=
      calc p * 1000000 < (p * 1000000 / q + 1) * q := Int.lt_ediv_add_one_mul_self _ (by omega)
        _ ≤ (p * 1000000 / q + 1) * 32 := by gcongr
    omega

theorem multiple_limits (one : 1 ≤ p) (less : p < q) (most : q ≤ 32) (times : 4 ≤ m)
    (target : m * p ≤ 1920) : WithinLimits (m * q) (m * p) ↔ m * q % 2 = 0 := by
  refine ⟨fun h => h.even,fun even => ⟨even,?_,target,?_⟩⟩
  · calc 4 ≤ m := times
      _ = m * 1 := (mul_one m).symm
      _ ≤ m * p := by gcongr
  · rw [Int.gcd_mul_left,Nat.cast_mul,Int.natAbs_of_nonneg (by omega),Int.mul_ediv_mul_of_pos _ _ (by omega)]
    exact (Int.ediv_le_self _ (by omega)).trans (by omega)

/-- Within the limits after few steps, or after a fraction with an even source. -/
def EndsEven (s d : Int) : Prop :=
  s / Int.gcd s d ≤ 2048 ∨ ∃ p q, Nearest (d * 1000000 / s) 32 p q ∧ times s d p q * q % 2 = 0

theorem Corrected.ratio_eq (h : Corrected s d) : ratio d s = d * 1000000 / s := by
  have least := h.least
  have most := h.most
  rw [ratio,wrap_eq (by omega) (by omega),Int.tdiv_eq_ediv_of_nonneg (by omega)]

theorem Corrected.fraction (h : Corrected s d) (steps : 2048 < s / Int.gcd s d)
    (found : nearest fuel (d * 1000000 / s) 32 = some best) :
    ∃ s' d', vppCheckScaleRatio fuel s d 2048 32 = some (s',d') ∧ (WithinLimits s' d' ↔ EndsEven s d) := by
  obtain ⟨down,large⟩ := h.large steps
  have bound := h.bound
  have least := h.least
  have most := h.most
  have near := (nearest_some (by decide) (by decide) found).2
  obtain ⟨one,less,top⟩ := near.range (by decide)
  obtain ⟨eq,_,_,target⟩ := fitFraction_eq (s := s) (d := d) (by omega) (by omega) (by omega) (by omega)
    (show 0 < best.p by omega) (by omega)
  refine ⟨_,_,by rw [check_down down,h.ratio_eq,found,Option.map_some,eq],?_⟩
  rw [multiple_limits one less top (four_times large bound least near) (target.trans most),EndsEven]
  constructor
  · exact fun even => .inr ⟨_,_,near,even⟩
  rintro (few | ⟨p,q,near',even⟩)
  · exact absurd few (not_le.mpr steps)
  · obtain ⟨rfl,rfl⟩ := near.unique near'
    exact even

/-- Sizes are within the limits exactly if they are in few steps of each other or the fraction gives
an even source. -/
theorem bilinear_limits (pos : 0 < dst) (down : dst < src) (bound : src < 2 ^ 15) :
    ∃ fuel s d, vppCheckBilinearArg fuel src dst max = some (s, d) ∧
      (WithinLimits s d ↔ EndsEven (evenSource src dst) (rangedTarget dst)) := by
  have h := corrected pos down bound
  obtain ⟨source, size, least, most, le⟩ := id h
  obtain ⟨g, ⟨fuel, gcd⟩, rfl⟩ := gcd_ends (a := evenSource src dst) (b := rangedTarget dst) (by omega) (by omega)
    (by omega) (by omega)
  by_cases steps : (evenSource src dst : Int) / Int.gcd (evenSource src dst) (rangedTarget dst) > 2048
  · obtain ⟨best, ⟨rounds, found⟩, _⟩ : ∃ best, Ends (denominator (rangedTarget dst * 1000000 / evenSource src dst) 32)
        _ best ∧ _ :=
      search_ends (by decide) (by decide) (.inl (by decide))
    have found' := run_mono (le_max_right fuel rounds) found
    have gcd' := run_mono (le_max_left fuel rounds) gcd
    obtain ⟨s, d, checked, limits⟩ := h.fraction steps found'
    refine ⟨Max.max fuel rounds, s, d, ?_, limits⟩
    simp only [vppCheckBilinearArg, if_neg (not_le.mpr down), limitSizes_eq pos, vppGetGcd, gcd', if_pos steps, checked]
  · refine ⟨fuel, _, _, ?_, iff_of_true (h.limits (not_lt.mp steps)) (.inl (not_lt.mp steps))⟩
    simp only [vppCheckBilinearArg, if_neg (not_le.mpr down), limitSizes_eq pos, vppGetGcd, gcd, if_neg steps]

theorem bilinear_limits_half : ∃ fuel s d, vppCheckBilinearArg fuel 100 50 32 = some (s, d) ∧ WithinLimits s d := by
  obtain ⟨fuel, s, d, done, limits⟩ : ∃ fuel s d, vppCheckBilinearArg fuel 100 50 32 = some (s, d) ∧
      (WithinLimits s d ↔ EndsEven (evenSource 100 50) (rangedTarget 50)) :=
    bilinear_limits (by decide) (by decide) (by decide)
  exact ⟨fuel, s, d, done, limits.mpr (.inl (by decide))⟩

theorem bilinear_odd : vppCheckBilinearArg 2000 4102 1368 32 = some (4101, 1367) ∧ ¬ WithinLimits 4101 1367 :=
  ⟨by decide +kernel, fun h => absurd h.even (by decide)⟩

end Apc8750.Vpp
