import Mathlib.Data.Rat.Floor
import Apc8750.Clock.Divide
import Apc8750.Clock.Optimal

namespace Apc8750.Clock

variable {dev : Dev} {r : Regs} {no offs : Nat}

/-- Five bits with 32 as 0, and on SD/MMC a divider by 64. -/
def hwDivisor (dev : Dev) (byte : Nat) : Nat :=
  (if byte % 32 = 0 then 32 else byte % 32) *
    if isSdmmc dev && decide (byte / 32 % 2 = 1) then 64 else 1

def pllRate (word : Nat) : ℚ := pllFreq word / pllBase word

def clockRate (dev : Dev) (r : Regs) : ℚ :=
  if (calcPllNum dev).1 < 5 then
    pllRate (r.pll (calcPllNum dev).1) / hwDivisor dev (r.divByte (calcPllNum dev).2)
  else (calcPllNum dev).2 * 1000000

/-- At no time during the stores is the device faster than both before and after them. -/
def NoOverclock (dev : Dev) (r : Regs) (writes : List Write) : Prop :=
  ∀ q ∈ writes.scanl Regs.write r,
    clockRate dev q ≤ max (clockRate dev r) (clockRate dev (writes.foldl Regs.write r))

/-- The two bytes are in the order of their divisors, or the PLL goes the other way. -/
def InOrder (dev : Dev) (old new newDiv oldPll newPll : Nat) : Prop :=
  (old < new → hwDivisor dev old ≤ newDiv ∨ pllRate oldPll ≤ pllRate newPll) ∧
    (new < old → newDiv ≤ hwDivisor dev old ∨ pllRate newPll ≤ pllRate oldPll)

theorem hwDivisor_pos (dev : Dev) (byte : Nat) : 0 < hwDivisor dev byte := by
  unfold hwDivisor
  apply Nat.mul_pos
  · split <;> omega
  · split <;> decide

theorem pllRate_pos (word : Nat) : 0 < pllRate word := by
  have := (pllFreq_bounds word).1
  have := pllBase_pos word
  unfold pllRate
  apply div_pos <;> exact_mod_cast (by omega)

theorem mixed_le {F G : ℚ} {d e : Nat} (hF : 0 < F) (hd : 0 < d) (he : 0 < e) :
    F / e ≤ max (F / d) (G / e) ↔ d ≤ e ∨ F ≤ G := by
  have hd' : (0 : ℚ) < d := by exact_mod_cast hd
  have he' : (0 : ℚ) < e := by exact_mod_cast he
  rw [le_max_iff,div_le_div_iff_of_pos_left hF he' hd',div_le_div_iff_of_pos_right he']
  norm_cast

theorem clockRate_eq (hd : calcPllNum dev = (no,offs)) (hn : no < 5) (r : Regs) :
    clockRate dev r = pllRate (r.pll no) / hwDivisor dev (r.divByte offs) := by
  unfold clockRate
  rw [hd,if_pos hn]

theorem noOverclock_one (dev : Dev) (r : Regs) (a : Write) : NoOverclock dev r [a] := by
  intro q hq
  simp only [List.scanl_cons,List.scanl_nil,List.mem_cons,List.not_mem_nil,or_false] at hq
  rcases hq with rfl | rfl
  · exact le_max_left _ _
  · exact le_max_right _ _

theorem noOverclock_two (dev : Dev) (r : Regs) (a b : Write) : NoOverclock dev r [a,b] ↔
    clockRate dev (r.write a) ≤ max (clockRate dev r) (clockRate dev ((r.write a).write b)) := by
  unfold NoOverclock
  simp only [List.scanl_cons,List.scanl_nil,List.mem_cons,List.not_mem_nil,or_false,
    List.foldl_cons,List.foldl_nil]
  constructor
  · intro h
    exact h _ (.inr (.inl rfl))
  rintro h q (rfl | rfl | rfl)
  · exact le_max_left _ _
  · exact h
  · exact le_max_right _ _

theorem pllWrites_inOrder (hd : calcPllNum dev = (no,offs)) (hn : no < 5) (new divWord word : Nat) :
    NoOverclock dev r (pllWrites no offs (r.divByte offs) new divWord word) ↔
      InOrder dev (r.divByte offs) new (hwDivisor dev (divWord % 256)) (r.pll no) word := by
  have posOld := hwDivisor_pos dev (r.divByte offs)
  have posNew := hwDivisor_pos dev (divWord % 256)
  have divisor (q : Regs) : clockRate dev (q.write (.divisor offs divWord)) =
      pllRate (q.pll no) / hwDivisor dev (divWord % 256) := by
    rw [clockRate_eq hd hn]
    simp only [Regs.write,Regs.divByte,Function.update_self]
  have pll (q : Regs) : clockRate dev (q.write (.pll no word)) =
      pllRate word / hwDivisor dev (q.divByte offs) := by
    rw [clockRate_eq hd hn]
    simp only [Regs.write,Regs.divByte,Function.update_self]
  unfold InOrder pllWrites
  rcases Nat.lt_trichotomy (r.divByte offs) new with lt | eq | gt
  · rw [if_pos lt,if_neg lt.not_gt,imp_iff_right lt,← mixed_le (pllRate_pos _) posOld posNew]
    simp only [List.append_nil,List.cons_append,List.nil_append,lt.not_gt,false_imp_iff,and_true]
    rw [noOverclock_two,divisor,pll,clockRate_eq hd hn]
    simp only [Regs.write,Regs.divByte,Function.update_self]
  · rw [if_neg eq.not_lt,if_neg eq.not_gt]
    refine iff_of_true ?_ ⟨fun h => absurd h eq.not_lt,fun h => absurd h eq.not_gt⟩
    exact noOverclock_one dev r (.pll no word)
  · rw [if_neg gt.not_gt,if_pos gt,imp_iff_right gt,← mixed_le (pllRate_pos _) posNew posOld]
    simp only [List.cons_append,List.nil_append,gt.not_gt,false_imp_iff,true_and]
    rw [noOverclock_two,divisor,pll,clockRate_eq hd hn,max_comm]
    simp only [Regs.write,Function.update_self]

/-- The first admitted setting closest to the request, if it is closer than the sentinel. -/
def closest (no f : Nat) : Setting :=
  match (settings (pllDivisors no)).argmin (cost no f) with
  | none => ⟨1, 1, 1, 1⟩
  | some s => if cost no f s < limit then s else ⟨1, 1, 1, 1⟩

theorem pllSearch_closest (no f : Nat) : (pllSearch no f (pllDivisors no)).best = closest no f := by
  unfold closest
  rcases pllSearch_best no f (pllDivisors no) with ⟨start,all⟩ | ⟨best,less⟩
  · rw [start]
    split
    · rfl
    · rename_i s first
      rw [if_neg (all s (List.argmin_mem first)).not_gt]
  · rw [Option.mem_def.mp best]
    exact (if_pos less).symm

def manuWrites (r : Regs) (dev : Dev) (divf divr divq devDiv : Int) : List Write :=
  pllWrites (calcPllNum dev).1 (calcPllNum dev).2 (r.divByte (calcPllNum dev).2)
    (devDiv % 2 ^ 32).toNat
    ((if isSdmmc dev && decide (devDiv / 32 % 2 = 1) then 32 else 0) + (devDiv % 32).toNat)
    (pllWord (manuSetting divf divr divq devDiv))

def manuDivisor (dev : Dev) (devDiv : Int) : Nat :=
  hwDivisor dev ((if isSdmmc dev && decide (devDiv / 32 % 2 = 1) then 32 else 0) +
    (devDiv % 32).toNat)

theorem clockRate_select (dev : Dev) (r : Regs) (offs byte : Nat) :
    clockRate dev (r.write (.select offs byte)) = clockRate dev r := by
  unfold clockRate
  rw [write_divByte_select]
  rfl

theorem noOverclock_cons (h : clockRate dev (r.write a) = clockRate dev r) :
    NoOverclock dev r (a :: ws) ↔ NoOverclock dev (r.write a) ws := by
  unfold NoOverclock
  rw [List.scanl_cons,List.foldl_cons,h]
  constructor
  · intro all q hq
    exact all q (List.mem_cons_of_mem _ hq)
  intro all q hq
  rcases List.mem_cons.mp hq with rfl | hq
  · exact le_max_left _ _
  · exact all q hq

theorem hwDivisor_stored (pos : 0 < div) (le : div ≤ 32) :
    hwDivisor dev (divisorWord dev false div % 256) = div := by
  have field : divisorWord dev false div % 256 = if div = 32 then 0 else div := by
    unfold divisorWord
    rw [if_neg Bool.false_ne_true]
    have : (if div = 32 then 0 else div) < 32 := by split <;> omega
    generalize (if div = 32 then 0 else div) = k at this ⊢
    split <;> omega
  rw [field]
  unfold hwDivisor
  by_cases wrapped : div = 32
  · simp [wrapped]
  · rw [if_neg wrapped,if_neg (by omega),Nat.mod_eq_of_lt (by omega),Nat.div_eq_of_lt (by omega)]
    simp

theorem setPllDivisor_fails (h : 0 ≤ (setPllDivisor dev unit freq r).ret) :
    (calcPllNum dev).1 < 5 ∧ UnitOk unit ∧ r.clk dev.id = true := by
  unfold setPllDivisor at h
  obtain ⟨no,offs,hd,kinds⟩ := calcPllNum_cases dev
  simp only [hd] at h ⊢
  by_cases unknown : no = 5
  · rw [if_pos unknown] at h
    exact absurd h (by decide)
  by_cases none : no = 6
  · rw [if_neg unknown,if_pos none] at h
    exact absurd h (by decide)
  by_cases bad : unit ≠ 0 ∧ unit ≠ 1 ∧ unit ≠ 2
  · rw [if_neg unknown,if_neg none,if_pos bad] at h
    exact absurd h (by decide : ¬ (0 : Int) ≤ -1)
  by_cases off : r.clk dev.id = false
  · rw [if_neg unknown,if_neg none,if_neg bad,if_pos off] at h
    exact absurd h (by decide : ¬ (0 : Int) ≤ -1)
  refine ⟨by omega,?_,by simpa using off⟩
  by_contra no
  exact bad (not_unitOk.mpr no)

theorem writes_congr (ws : List Write) (pll : q.pll = r.pll) (div : q.div = r.div) :
    (ws.foldl Regs.write q).pll = (ws.foldl Regs.write r).pll ∧
      (ws.foldl Regs.write q).div = (ws.foldl Regs.write r).div := by
  induction ws generalizing q r with
  | nil => exact ⟨pll,div⟩
  | cons w ws ih =>
    apply ih <;> cases w <;> simp [Regs.write,pll,div]

theorem manu_stores (c : Clk) (h : Accepted dev divf divr divq devDiv) :
    (manuPllDivisor c dev divf divr divq devDiv).2.regs.pll =
        ((manuWrites c.regs dev divf divr divq devDiv).foldl Regs.write c.regs).pll ∧
      (manuPllDivisor c dev divf divr divq devDiv).2.regs.div =
        ((manuWrites c.regs dev divf divr divq devDiv).foldl Regs.write c.regs).div := by
  obtain ⟨ranges,checks,known⟩ := h
  unfold manuPllDivisor
  dsimp only
  rw [if_neg (by simp [ranges]),if_neg (by simp [checks]),if_neg known]
  apply writes_congr
  · split
    · unfold enableDevClk
      split <;> rfl
    · rfl
  split
  · unfold enableDevClk
    split <;> rfl
  · rfl

theorem manuWord_byte (dev : Dev) (devDiv : Int) :
    hwDivisor dev (((if isSdmmc dev && decide (devDiv / 32 % 2 = 1) then 32 else 0) +
      (devDiv % 32).toNat) % 256) = manuDivisor dev devDiv := by
  unfold manuDivisor
  rw [Nat.mod_eq_of_lt]
  split <;> omega

theorem noOverclock_fixed (h : ¬ (calcPllNum dev).1 < 5) (r : Regs) (ws : List Write) :
    NoOverclock dev r ws := by
  intro q _
  apply le_max_of_le_left
  unfold clockRate
  rw [if_neg h,if_neg h]

theorem setPll_inOrder (hd : calcPllNum dev = (no,offs)) (hn : no < 5) (hu : UnitOk unit)
    (on : r.clk dev.id = true) (freq : Int) :
    NoOverclock dev r (setPllDivisor dev unit freq r).writes ↔
      InOrder dev (r.divByte offs) (closest no (target unit freq)).div
        (closest no (target unit freq)).div (r.pll no) (pllWord (closest no (target unit freq))) := by
  have bounds := best_div_bounds no (target unit freq)
  rw [(setPllDivisor_result freq hd hn hu on).2,selectWrite,noOverclock_cons (clockRate_select ..),
    ← write_divByte_select r offs (if dev = .sdtv then 1 else 0) offs,
    pllWrites_inOrder hd hn,hwDivisor_stored bounds.1 bounds.2,pllSearch_closest]
  rfl

theorem manu_inOrder (hd : calcPllNum dev = (no,offs)) (hn : no < 5) (divf divr divq devDiv : Int) :
    NoOverclock dev r (manuWrites r dev divf divr divq devDiv) ↔
      InOrder dev (r.divByte offs) (devDiv % 2 ^ 32).toNat (manuDivisor dev devDiv) (r.pll no)
        (pllWord (manuSetting divf divr divq devDiv)) := by
  unfold manuWrites
  simp only [hd]
  rw [pllWrites_inOrder hd hn,manuWord_byte]

/-- No device runs faster in between exactly if the two bytes are in the order of their divisors, or
the PLL changes the other way. -/
theorem no_transient_overclock (c : Clk) (dev : Dev) :
    (∀ unit freq : Int, 0 ≤ (setPllDivisor dev unit freq c.regs).ret →
      (NoOverclock dev c.regs (setPllDivisor dev unit freq c.regs).writes ↔
        InOrder dev (c.regs.divByte (calcPllNum dev).2)
          (closest (calcPllNum dev).1 (target unit freq)).div
          (closest (calcPllNum dev).1 (target unit freq)).div (c.regs.pll (calcPllNum dev).1)
          (pllWord (closest (calcPllNum dev).1 (target unit freq))))) ∧
    ∀ divf divr divq devDiv : Int, Accepted dev divf divr divq devDiv →
      ((manuPllDivisor c dev divf divr divq devDiv).2.regs.pll =
          ((manuWrites c.regs dev divf divr divq devDiv).foldl Regs.write c.regs).pll ∧
        (manuPllDivisor c dev divf divr divq devDiv).2.regs.div =
          ((manuWrites c.regs dev divf divr divq devDiv).foldl Regs.write c.regs).div) ∧
      (NoOverclock dev c.regs (manuWrites c.regs dev divf divr divq devDiv) ↔
        ((calcPllNum dev).1 < 5 → InOrder dev (c.regs.divByte (calcPllNum dev).2)
          (devDiv % 2 ^ 32).toNat (manuDivisor dev devDiv) (c.regs.pll (calcPllNum dev).1)
          (pllWord (manuSetting divf divr divq devDiv)))) := by
  constructor
  · intro unit freq ok
    obtain ⟨hn, hu, on⟩ := setPllDivisor_fails ok
    exact setPll_inOrder (Prod.mk.eta.symm) hn hu on freq
  intro divf divr divq devDiv accepted
  refine ⟨manu_stores c accepted, ?_⟩
  by_cases hn : (calcPllNum dev).1 < 5
  · rw [imp_iff_right hn]
    exact manu_inOrder (Prod.mk.eta.symm) hn divf divr divq devDiv
  · exact iff_of_true (noOverclock_fixed hn _ _) fun h => absurd h hn

theorem no_transient_overclock_nand :
    NoOverclock .nand gigahertz.regs (manuWrites gigahertz.regs .nand 59 0 0 20) ∧
      NoOverclock .nand gigahertz.regs (setPllDivisor .nand 2 100 gigahertz.regs).writes := by
  have both := no_transient_overclock gigahertz .nand
  constructor
  · apply ((both.2 59 0 0 20 ⟨by decide, by decide, by decide⟩).2).mpr
    intro _
    exact ⟨fun _ => .inl (by decide), fun h => absurd h (by decide)⟩
  have ok : 0 ≤ (setPllDivisor .nand 2 100 gigahertz.regs).ret := by
    have bounds := best_div_bounds 1 (target 2 100)
    have sane := pllSearch_sane 1 (target 2 100) (pllDivisors 1)
    rw [(setPllDivisor_result 100 rfl (by decide) (.inr (.inr rfl)) rfl).1,
      freq_eq sane (by omega), toInt_small (root_div_lt sane _)]
    exact Int.natCast_nonneg _
  apply (both.1 2 100 ok).mpr
  have pos : 0 < (closest 1 (target 2 100)).div := by
    rw [← pllSearch_closest]
    exact (best_div_bounds 1 (target 2 100)).1
  exact ⟨fun _ => .inl pos, fun h => absurd pos (Nat.not_lt.mpr (Nat.le_of_lt_succ h))⟩

def wrapped : Regs := ⟨fun _ => 79 * 2 ^ 16, fun _ => 0, fun _ => true⟩

/-- From 2000 MHz by 32 to 1000 MHz by 16 the device runs at 125 MHz in between. -/
theorem wrapped_divisor_first :
    ¬ NoOverclock .nand wrapped (manuWrites wrapped .nand 39 0 0 16) := by
  rw [manu_inOrder rfl (by decide)]
  intro h
  rcases h.1 (by decide) with divisors | plls
  · exact absurd divisors (by decide)
  have old : pllRate (wrapped.pll 1) = 2000000000 := by
    have freq : pllFreq (wrapped.pll 1) = 2000000000 := by decide
    have base : pllBase (wrapped.pll 1) = 1 := by decide
    norm_num [pllRate, freq, base]
  have new : pllRate (pllWord (manuSetting 39 0 0 16)) = 1000000000 := by
    have freq : pllFreq (pllWord (manuSetting 39 0 0 16)) = 1000000000 := by decide
    have base : pllBase (pllWord (manuSetting 39 0 0 16)) = 1 := by decide
    norm_num [pllRate, freq, base]
  rw [old, new] at plls
  norm_num at plls

end Apc8750.Clock
