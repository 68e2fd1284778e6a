import Apc8750.Library.Whiles
import Apc8750.Vout.Model
import Mathlib.Algebra.Group.Int.Defs

namespace Apc8750.Vpp

/-- The value of an `int` after an operation that may overflow. -/
def wrap (x : Int) : Int := x.bmod (2 ^ 32)

theorem wrap_eq (low : -2 ^ 31 ≤ x) (high : x < 2 ^ 31) : wrap x = x :=
  Int.bmod_eq_of_le (by omega) (by omega)

theorem wrap_lt (x : Int) : wrap x < 2 ^ 31 := by
  have high := Int.bmod_lt (x := x) (m := 2 ^ 32) (by decide)
  rw [wrap]
  omega

def unsigned (x : Int) : Nat := (x % 2 ^ 32).toNat

def gcdRound : Int × Int → Option ((Int × Int) ⊕ Int)
  | (a, b) =>
    if a ≠ b then
      if a > b then some (.inl (wrap (a - b), b)) else some (.inl (a, wrap (b - a)))
    else some (.inr a)

def vppGetGcd (fuel : Nat) (a b : Int) : Option Int := Whiles.run gcdRound fuel (a, b)

theorem gcd_ends (ha : 0 < a) (hb : 0 < b) (int : a < 2 ^ 31) (int' : b < 2 ^ 31) :
    ∃ g, Whiles.Ends gcdRound (a,b) g ∧ g = Int.gcd a b := by
  refine Whiles.ends_of_measure (I := fun x => 0 < x.1 ∧ 0 < x.2 ∧ x.1 < 2 ^ 31 ∧ x.2 < 2 ^ 31 ∧ Int.gcd x.1 x.2 = Int.gcd a b)
    (fun x => (x.1 + x.2).toNat) (fun ⟨x,y⟩ h => ?_) ⟨ha,hb,int,int',rfl⟩
  obtain ⟨hx,hy,intx,inty,same⟩ := h
  simp only at hx hy intx inty same
  simp only [gcdRound]
  split
  · split
    · rename_i more
      refine .inl ⟨(x - y, y),by rw [wrap_eq (by omega) (by omega)],⟨by simp only; omega,hy,by simp only; omega,inty,?_⟩,
        by simp only; omega⟩
      rw [← same]
      exact Int.gcd_sub_self_left _ _
    · rename_i apart less
      refine .inl ⟨(x, y - x),by rw [wrap_eq (by omega) (by omega)],⟨hx,by simp only; omega,intx,by simp only; omega,?_⟩,
        by simp only; omega⟩
      rw [← same]
      exact Int.gcd_sub_self_right _ _
  · rename_i equal
    push Not at equal
    refine .inr ⟨x,rfl,?_⟩
    rw [← same,equal,Int.gcd_self]
    omega

def share (p q : Int) : Int := (wrap (p * 1000000)).tdiv q

/-- The difference of two ratios; `vpp_calculate_diff` is one of `unsigned int`. -/
def miss (val1 val2 : Int) : Int := wrap (Vout.vppCalculateDiff (unsigned val1) (unsigned val2))

structure Fraction where
  diff : Int
  p : Int
  q : Int
  deriving DecidableEq

/-- The loop over `p` with `n` numerators left, `p` the next one. -/
def numerators (val1 q : Int) : Nat → Int → Fraction → Int → Fraction × Int
  | 0, _, best, val2 => (best, val2)
  | n + 1, p, best, _ =>
    let val2 := share p q
    if val1 < val2 then (best, val2)
    else
      let diff := miss val1 val2
      numerators val1 q n (p + 1) (if diff < best.diff then ⟨diff, p, q⟩ else best) val2

structure Search where
  q : Int
  best : Fraction
  val2 : Int

/-- One round of the loop over `q`. -/
def denominator (val1 min : Int) (s : Search) : Option (Search ⊕ Fraction) :=
  if s.q ≤ min then
    let (best, val2) := numerators val1 s.q (s.q - 1).toNat 1 s.best s.val2
    if val1 = val2 then some (.inr best) else some (.inl ⟨wrap (s.q + 1), best, val2⟩)
  else some (.inr s.best)

/-- The search of `vpp_check_scale_ratio` for a ratio of so many millionths. -/
def nearest (fuel : Nat) (val1 min : Int) : Option Fraction :=
  Whiles.run (denominator val1 min) fuel ⟨2, ⟨val1, 1, min⟩, val1⟩

def fitFraction (src dst : Int) (best : Fraction) : Int × Int :=
  let val1 := src.tdiv best.q
  let val2 := dst.tdiv best.p
  let val1 := if val1 < val2 then val1 else val2
  (wrap (val1 * best.q), wrap (val1 * best.p))

def vppCheckScaleRatio (fuel : Nat) (src dst max min : Int) : Option (Int × Int) :=
  if dst ≥ src then some (src, if dst > wrap (src * max) then wrap (src * max) else dst)
  else (nearest fuel ((wrap (dst * 1000000)).tdiv src) min).map (fitFraction src dst)

def smallFactor (dst : Nat) : Nat := 4 / dst + if 4 % dst ≠ 0 then 1 else 0

/-- The sizes after the corrections for an odd source and a destination out of range. -/
def limitSizes (src dst : Nat) : Nat × Nat :=
  let src := if src % 2 ≠ 0 then src - 1 else src
  let (src, dst) := if dst < 4 then (src * smallFactor dst, dst * smallFactor dst) else (src, dst)
  (src, if dst > 1920 then 1920 else dst)

def vppCheckBilinearArg (fuel : Nat) (src dst max : Nat) : Option (Int × Int) :=
  if dst ≥ src then some (src, if dst > src * max % 2 ^ 32 then (src * max % 2 ^ 32 : Nat) else dst)
  else
    let (src, dst) := limitSizes src dst
    match vppGetGcd fuel src dst with
    | none => none
    | some gcd =>
      if src / gcd > 2048 then vppCheckScaleRatio fuel src dst 2048 32 else some (src, dst)

end Apc8750.Vpp
