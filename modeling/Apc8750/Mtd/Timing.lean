import Apc8750.Library.Whiles
import Mathlib.Algebra.Order.Floor.Div
import Mathlib.Data.Nat.ModEq
import Mathlib.Tactic.Ring

namespace Apc8750.Mtd

def sourceClock : Nat := 25
def maxSpeedMhz : Nat := 65
def maxReadDelay : Nat := 9
def maxWriteDelay : Nat := 9

def u32 (n : Nat) : Nat := n % 2 ^ 32

def pllFactor (reg : Nat) : Nat :=
  (((reg >>> 16) &&& 0xFF) + 1) / ((((reg >>> 8) &&& 0x3F) + 1) * 1 <<< (reg &&& 7))

structure Times where
  tREA : Nat
  tREH : Nat
  tWP : Nat
  tADL : Nat

def times (spec : Nat) : Times :=
  ⟨(spec >>> 24) &&& 0xFF, (spec >>> 16) &&& 0xFF, (spec >>> 8) &&& 0xFF, spec &&& 0xFF⟩

def firstDivisor (pll : Nat) : Nat :=
  ((List.range' 1 15).find? fun i => maxSpeedMhz ≥ pll * sourceClock / i).getD 0

def clockOf (pll divisor : Nat) : Nat := u32 (1000 * divisor) / (pll * sourceClock)

/-- The loops over `T1` and `T2`: the first number of clocks below `n` that covers the access time.
-/
def firstT (clk need n : Nat) : Option Nat := (List.range' 1 (n - 1)).find? fun t => u32 (t * clk) ≥ need

def holdRound (clk tREH i : Nat) : Option (Nat ⊕ Nat) :=
  if u32 (i * clk) ≤ tREH then some (.inl (u32 (i + 1))) else some (.inr i)

def holdCount (fuel clk tREH : Nat) : Option Nat := Whiles.run (holdRound clk tREH) fuel 1

structure Setting where
  T : Nat
  clk : Nat
  divisor : Nat
  hold : Nat
  deriving DecidableEq

def pageTime (writesize : Nat) (s : Setting) : Nat := u32 (s.clk * (s.T + s.hold) * writesize)

structure Search where
  div2 : Nat
  Ttmp : Nat
  best : Setting

def searchRound (fuel pll writesize : Nat) (t : Times) (s : Search) : Option (Search ⊕ Setting) :=
  if s.Ttmp > 1 ∧ s.best.clk ≠ 0 then
    let div2 := u32 (s.div2 + 1)
    let clk2 := clockOf pll div2
    match firstT clk2 (t.tREA + maxReadDelay) s.Ttmp with
    | none => some (.inl { s with div2 })
    | some T2 => (holdCount fuel clk2 t.tREH).map fun hold2 =>
      let next := ⟨T2, clk2, div2, hold2⟩
      .inl ⟨div2, T2, if pageTime writesize s.best > pageTime writesize next then next else s.best⟩
  else some (.inr s.best)

/-- One round of the loop for the write count, on `i` and `*Thold`. -/
def writeRound (t : Times) (clk : Nat) : Nat × Nat → Option ((Nat × Nat) ⊕ Nat)
  | (i, thold) =>
    if u32 ((i * 2 + 2) * clk) ≤ u32 (t.tADL + 2 ^ 32 - t.tWP) ∨ u32 (i * clk) ≤ t.tWP + maxWriteDelay then
      some (.inl (u32 (i + 1), u32 (thold + 0x100)))
    else some (.inr thold)

structure Result where
  ret : Nat
  T : Nat
  divisor : Nat
  thold : Nat
  deriving DecidableEq

def Setting.result (s : Setting) (pll thold : Nat) : Result where
  ret := if maxSpeedMhz < pll * sourceClock / s.divisor ∨ s.clk = 0 ∨ s.T = 0 ∨ s.clk > 45 then 1 else 0
  T := s.T
  divisor := s.divisor
  thold := thold

/-- `wmt_calc_clock` for a factor and the times; also `none` when it divides by zero. -/
def calcClock (fuel pll writesize : Nat) (t : Times) : Option Result :=
  let div1 := firstDivisor pll
  if pll * sourceClock = 0 then none
  else
    let clk1 := clockOf pll div1
    let T1 := (firstT clk1 (t.tREA + maxReadDelay) 10).getD 10
    (holdCount fuel clk1 t.tREH).bind fun hold =>
      (Whiles.run (searchRound fuel pll writesize t) fuel ⟨div1, T1, ⟨T1, clk1, div1, hold⟩⟩).bind fun best =>
        (Whiles.run (writeRound t best.clk) fuel (1, best.hold ||| 0x100)).map (best.result pll)

def wmtCalcClock (fuel reg spec writesize : Nat) : Option Result :=
  calcClock fuel (pllFactor reg) writesize (times spec)

theorem u32_of_lt (h : n < 2 ^ 32) : u32 n = n := Nat.mod_eq_of_lt h

structure Times.Small (t : Times) : Prop where
  tREA : t.tREA ≤ 255
  tREH : t.tREH ≤ 255
  tWP : t.tWP ≤ 255
  tADL : t.tADL ≤ 255

theorem times_small (spec : Nat) : (times spec).Small :=
  ⟨Nat.and_le_right,Nat.and_le_right,Nat.and_le_right,Nat.and_le_right⟩

section Loops

theorem firstT_eq (pos : 0 < clk) (small : clk ≤ 400) (some_need : 0 < need) (le : n ≤ 10) :
    firstT clk need n = if need ⌈/⌉ clk < n then some (need ⌈/⌉ clk) else none := by
  have covers : ∀ i, i ≤ 10 → (need ≤ u32 (i * clk) ↔ need ⌈/⌉ clk ≤ i) := by
    intro i hi
    have := Nat.mul_le_mul hi small
    rw [u32_of_lt (by omega),ceilDiv_le_iff_le_mul pos,Nat.mul_comm]
  have one : 1 ≤ need ⌈/⌉ clk := by
    by_contra none
    have zero : need ⌈/⌉ clk ≤ 0 := by omega
    rw [ceilDiv_le_iff_le_mul pos] at zero
    omega
  unfold firstT
  split
  · rw [List.find?_range'_eq_some]
    refine ⟨by simpa using (covers _ (by omega)).mpr le_rfl,?_,fun j _ less => ?_⟩
    · rw [List.mem_range'_1]
      omega
    · simpa using mt (covers j (by omega)).mp (by omega)
  · rw [List.find?_range'_eq_none]
    intro i _ less
    simpa using mt (covers i (by omega)).mp (by omega)

theorem holdRun (pos : 0 < clk) (small : clk ≤ 400) (le : tREH ≤ 255) (before : i ≤ tREH / clk + 1)
    (enough : tREH / clk + 1 < i + fuel) :
    Whiles.run (holdRound clk tREH) fuel i = some (tREH / clk + 1) := by
  induction fuel generalizing i with
  | zero => omega
  | succ fuel ih =>
    have most := Nat.div_mul_le_self tREH clk
    have bound := Nat.mul_le_mul_right clk before
    rw [Nat.add_mul] at bound
    have whole : u32 (i * clk) = i * clk := u32_of_lt (by omega)
    have round_iff : u32 (i * clk) ≤ tREH ↔ i ≤ tREH / clk := by rw [whole,Nat.le_div_iff_mul_le pos]
    by_cases more : i ≤ tREH / clk
    · have := Nat.div_le_self tREH clk
      have next : u32 (i + 1) = i + 1 := u32_of_lt (by omega)
      have round : holdRound clk tREH i = some (.inl (i + 1)) := by
        rw [holdRound,if_pos (round_iff.mpr more),next]
      simp only [Whiles.run,round]
      exact ih (by omega) (by omega)
    · have round : holdRound clk tREH i = some (.inr i) := by rw [holdRound,if_neg (mt round_iff.mp more)]
      simp only [Whiles.run,round]
      exact congrArg some (by omega)

theorem holdCount_eq (pos : 0 < clk) (small : clk ≤ 400) (le : tREH ≤ 255) (enough : 256 ≤ fuel) :
    holdCount fuel clk tREH = some (tREH / clk + 1) := by
  have := Nat.div_le_self tREH clk
  exact holdRun pos small le (Nat.le_add_left 1 _) (by omega)

theorem holdCount_mono (le : m ≤ n) (h : holdCount m clk tREH = some hold) :
    holdCount n clk tREH = some hold :=
  Whiles.run_mono le h

theorem holdCount_zero (fuel tREH : Nat) : holdCount fuel 0 tREH = none := by
  cases done : holdCount fuel 0 tREH with
  | none => rfl
  | some hold =>
    refine absurd ⟨fuel,done⟩ (Whiles.not_ends (I := fun _ => True) (fun i _ => ?_) trivial)
    exact ⟨u32 (i + 1),by simp [holdRound,u32],trivial⟩

end Loops

def Stops (t : Times) (clk i : Nat) : Prop :=
  u32 (t.tADL + 2 ^ 32 - t.tWP) < u32 ((i * 2 + 2) * clk) ∧ t.tWP + maxWriteDelay < u32 (i * clk)

section Write

theorem writeRound_stop (stops : Stops t clk i) (thold : Nat) : writeRound t clk (i,thold) = some (.inr thold) :=
  if_neg (not_or.mpr ⟨not_le.mpr stops.1,not_le.mpr stops.2⟩)

theorem writeRound_go (goes : ¬ Stops t clk i) (hold : Nat) :
    writeRound t clk (i, u32 (hold + 256 * i)) = some (.inl (u32 (i + 1), u32 (hold + 256 * u32 (i + 1)))) := by
  have go : u32 ((i * 2 + 2) * clk) ≤ u32 (t.tADL + 2 ^ 32 - t.tWP) ∨ u32 (i * clk) ≤ t.tWP + maxWriteDelay := by
    by_contra stops
    push Not at stops
    exact goes stops
  have next : u32 (u32 (hold + 256 * i) + 0x100) = u32 (hold + 256 * u32 (i + 1)) := by
    simp only [u32]
    omega
  simp only [writeRound]
  rw [if_pos go,next]

theorem write_ends (hold : Nat) (lt : n < 2 ^ 32) (stops : Stops t clk n) (from_one : 1 ≤ n) :
    ∃ thold, Whiles.Ends (writeRound t clk) (1, u32 (hold + 256 * 1)) thold ∧
      ∃ i ≤ n, Stops t clk i ∧ thold = u32 (hold + 256 * i) := by
  refine Whiles.ends_of_measure (I := fun s => s.1 ≤ n ∧ s.2 = u32 (hold + 256 * s.1)) (fun s => n - s.1) ?_
    ⟨from_one,rfl⟩
  rintro ⟨i,thold⟩ ⟨le,eq⟩
  simp only at le eq
  subst eq
  by_cases here : Stops t clk i
  · exact .inr ⟨_,writeRound_stop here _,i,le,here,rfl⟩
  · have ne : i ≠ n := fun same => here (same ▸ stops)
    have next : u32 (i + 1) = i + 1 := u32_of_lt (by omega)
    refine .inl ⟨_,writeRound_go here hold,⟨?_,rfl⟩,?_⟩ <;> simp only [next] <;> omega

theorem stops_of_ends (h : Whiles.Ends (writeRound t clk) (1, u32 (hold + 256 * 1)) thold) :
    ∃ i < 2 ^ 32, Stops t clk i ∧ thold = u32 (hold + 256 * i) := by
  refine h.induct (I := fun s => s.1 < 2 ^ 32 ∧ s.2 = u32 (hold + 256 * s.1))
    (Q := fun thold => ∃ i < 2 ^ 32, Stops t clk i ∧ thold = u32 (hold + 256 * i)) ?_ ?_ ⟨show 1 < 2 ^ 32 by decide,rfl⟩
  · rintro ⟨i,thold⟩ next ⟨lt,eq⟩ step
    simp only at lt eq
    subst eq
    by_cases here : Stops t clk i
    · rw [writeRound_stop here] at step
      cases step
    · rw [writeRound_go here] at step
      cases step
      exact ⟨Nat.mod_lt _ (Nat.two_pow_pos 32),rfl⟩
  · rintro ⟨i,thold⟩ result ⟨lt,eq⟩ step
    simp only at lt eq
    subst eq
    by_cases here : Stops t clk i
    · rw [writeRound_stop here] at step
      cases step
      exact ⟨i,lt,here,rfl⟩
    · rw [writeRound_go here] at step
      cases step

theorem stops_iff (small : t.Small) (le : t.tWP ≤ t.tADL) (hclk : clk ≤ 400) (hi : i ≤ 265) :
    Stops t clk i ↔ t.tADL - t.tWP < (i * 2 + 2) * clk ∧ t.tWP + 9 < i * clk := by
  have := small.tADL
  have first := Nat.mul_le_mul (show i * 2 + 2 ≤ 532 by omega) hclk
  have second := Nat.mul_le_mul hi hclk
  have difference : u32 (t.tADL + 2 ^ 32 - t.tWP) = t.tADL - t.tWP := by
    simp only [u32]
    omega
  unfold Stops maxWriteDelay
  rw [difference,u32_of_lt (show (i * 2 + 2) * clk < 2 ^ 32 by omega),u32_of_lt (show i * clk < 2 ^ 32 by omega)]

theorem stops_below (small : t.Small) (lt : t.tADL < t.tWP) : Stops t clk i ↔
      2 ^ 32 < (t.tWP - t.tADL) + u32 ((i * 2 + 2) * clk) ∧ t.tWP + 9 < u32 (i * clk) := by
  have := small.tWP
  have difference : u32 (t.tADL + 2 ^ 32 - t.tWP) = 2 ^ 32 - (t.tWP - t.tADL) := by
    simp only [u32]
    omega
  unfold Stops maxWriteDelay
  rw [difference]
  omega

theorem stops_gcd (small : t.Small) (lt : t.tADL < t.tWP) (stops : Stops t clk i) :
    2 * Nat.gcd clk (2 ^ 31) < t.tWP - t.tADL := by
  obtain ⟨near,_⟩ := (stops_below small lt).mp stops
  have below : u32 ((i * 2 + 2) * clk) < 2 ^ 32 := Nat.mod_lt _ (Nat.two_pow_pos 32)
  have divides : 2 * Nat.gcd clk (2 ^ 31) ∣ 2 ^ 32 := by
    rw [show (2 : Nat) ^ 32 = 2 * 2 ^ 31 from rfl]
    exact Nat.mul_dvd_mul_left 2 (Nat.gcd_dvd_right clk _)
  have product : 2 * Nat.gcd clk (2 ^ 31) ∣ (i * 2 + 2) * clk := by
    rw [show (i * 2 + 2) * clk = 2 * (clk * (i + 1)) by ring]
    exact Nat.mul_dvd_mul_left 2 (Dvd.dvd.mul_right (Nat.gcd_dvd_left clk _) _)
  have rest := Nat.dvd_sub divides ((Nat.dvd_mod_iff divides).mpr product)
  have := Nat.le_of_dvd (by unfold u32 at below; omega) rest
  unfold u32 at near
  omega

theorem exists_stop (small : t.Small) (lt : t.tADL < t.tWP) (pos : 0 < clk) (hclk : clk ≤ 400)
    (h : 2 * Nat.gcd clk (2 ^ 31) < t.tWP - t.tADL) : ∃ n, 1 ≤ n ∧ n < 2 ^ 32 ∧ Stops t clk n := by
  have := small.tWP
  have gcd_pos : 0 < Nat.gcd clk (2 ^ 31) := Nat.gcd_pos_of_pos_left _ pos
  have gcd_le : Nat.gcd clk (2 ^ 31) ≤ clk := Nat.gcd_le_left _ pos
  obtain ⟨k,k_lt,reduced⟩ := Nat.exists_mul_mod_eq_gcd (show Nat.gcd clk (2 ^ 31) < 2 ^ 31 by omega)
  have k_pos : 0 < k := by
    by_contra zero
    rw [Nat.eq_zero_of_not_pos zero,Nat.mul_zero] at reduced
    omega
  -- `2 ^ 32 - k` counts give the negative of the greatest common divisor.
  have whole : clk * (2 ^ 32 - k) + clk * k = clk * 2 ^ 32 := by
    rw [← Nat.mul_add,Nat.sub_add_cancel (by omega)]
  have one_less : (2 ^ 32 - k - 1) * clk + clk = clk * (2 ^ 32 - k) := by
    rw [← Nat.succ_mul,Nat.mul_comm]
    congr 1
    omega
  have double : ((2 ^ 32 - k - 1) * 2 + 2) * clk = 2 * (clk * (2 ^ 32 - k)) := by
    rw [← one_less]
    ring
  have top : clk * (2 ^ 32 - k) % 2 ^ 31 = 2 ^ 31 - Nat.gcd clk (2 ^ 31) := by
    generalize clk * (2 ^ 32 - k) = x at whole
    generalize clk * k = y at whole reduced
    omega
  refine ⟨2 ^ 32 - k - 1,by omega,by omega,(stops_below small lt).mpr ?_⟩
  rw [double]
  generalize clk * (2 ^ 32 - k) = x at top one_less
  generalize (2 ^ 32 - k - 1) * clk = y at one_less
  unfold u32
  constructor <;> omega

end Write

end Apc8750.Mtd
