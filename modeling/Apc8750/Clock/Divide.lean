import Apc8750.Library.Runs
import Apc8750.Clock.RoundTrip

namespace Apc8750.Clock

inductive Call where
  | auto (dev : Dev) (cmd : Cmd) (unit freq : Int)
  | manu (dev : Dev) (divf divr divq devDiv : Int)
  deriving DecidableEq

def Call.run (c : Clk) : Call → Reply × Clk
  | .auto dev cmd unit freq => autoPllDivisor c dev cmd unit freq
  | .manu dev divf divr divq devDiv => manuPllDivisor c dev divf divr divq devDiv

def step (c : Clk) (call : Call) : Option (Reply × Clk) := some (call.run c)

def DividesByZero (divs : List Nat) : Prop := ∃ d ∈ divs, d % 2 ^ 32 = 0

instance (divs : List Nat) : Decidable (DividesByZero divs) :=
  inferInstanceAs (Decidable (∃ d ∈ divs, d % 2 ^ 32 = 0))

def Accepted (dev : Dev) (divf divr divq devDiv : Int) : Prop :=
  manuRanges divf divr divq = true ∧ manuChecks dev divf divr devDiv = true ∧ (calcPllNum dev).1 ≠ 5

/-- The divisor that a call reads from a register or is given is not zero in the
bits the call uses. -/
def DivOk (c : Clk) : Call → Prop
  | .auto dev .getFreq _ _ =>
    (calcPllNum dev).1 < 5 → c.regs.divByte (calcPllNum dev).2 % 32 ≠ 0
  | .auto dev .setPll unit _ =>
    (calcPllNum dev).1 < 5 → UnitOk unit → c.regs.divByte (calcPllNum dev).2 ≠ 0
  | .auto _ _ _ _ => True
  | .manu dev divf divr divq devDiv => Accepted dev divf divr divq devDiv → devDiv % 32 ≠ 0

variable {dev : Dev} {unit freq : Int} {r : Regs} {s : Setting} {no offs : Nat} {c : Clk}

theorem dividesByZero_nil : ¬ DividesByZero [] := by
  rintro ⟨_,h,_⟩
  exact absurd h List.not_mem_nil

theorem not_dividesByZero {divs : List Nat} (h : ∀ d ∈ divs, 0 < d ∧ d < 2 ^ 32) :
    ¬ DividesByZero divs := by
  rintro ⟨d,hd,zero⟩
  have := h d hd
  omega

theorem calcPllNum_le (dev : Dev) : (calcPllNum dev).1 ≤ 6 := by cases dev <;> decide

theorem calcPllNum_cases (dev : Dev) :
    ∃ no offs, calcPllNum dev = (no,offs) ∧ (no < 5 ∨ no = 5 ∨ no = 6) := by
  have := calcPllNum_le dev
  exact ⟨(calcPllNum dev).1,_,rfl,by omega⟩

theorem getDivisor_pos : 0 < getDivisor dev byte ↔ byte % 32 ≠ 0 := by
  rw [← Nat.pos_iff_ne_zero]
  unfold getDivisor
  split
  · split <;> omega
  · rfl

theorem getFreq_divides (dev : Dev) (r : Regs) : DividesByZero (getFreq dev r).divs ↔
    (calcPllNum dev).1 < 5 ∧ r.divByte (calcPllNum dev).2 % 32 = 0 := by
  unfold getFreq
  obtain ⟨no,offs,hd,lt | rfl | rfl⟩ := calcPllNum_cases dev
  · simp only [hd]
    rw [if_neg lt.ne,if_neg (by omega),and_iff_right lt]
    have small : pllBase (r.pll no) * getDivisor dev (r.divByte offs)
        < 2 ^ 32 :=
      (Nat.mul_le_mul (pllBase_le _) (getDivisor_le dev _)).trans_lt (by decide)
    have pos := pllBase_pos (r.pll no)
    unfold DividesByZero
    simp only [List.mem_singleton,exists_eq_left]
    rw [Nat.mod_eq_of_lt small,Nat.mul_eq_zero,or_iff_right pos.ne']
    constructor
    · intro zero
      by_contra ne
      exact absurd zero (getDivisor_pos.mpr ne).ne'
    · intro zero
      by_contra ne
      exact getDivisor_pos.mp (Nat.pos_of_ne_zero ne) zero
  · simp [hd,fail,dividesByZero_nil]
  · simp [hd,dividesByZero_nil]

theorem setDivisor_divides (dev : Dev) (unit freq : Int) (r : Regs) :
    ¬ DividesByZero (setDivisor dev unit freq r).divs := by
  have bounds : ∀ no f word i, i ∈ tries dev no →
      0 < tryBase dev f word i ∧ tryBase dev f word i < 2 ^ 32 := by
    intro no f word i hi
    have range := List.mem_range'_1.mp (List.mem_filter.mp hi).1
    refine ⟨?_,tryBase_lt (by omega)⟩
    apply Nat.mul_pos (pllBase_pos word)
    apply Nat.mul_pos (by omega)
    split <;> decide
  unfold setDivisor
  obtain ⟨no,offs,hd,lt | rfl | rfl⟩ := calcPllNum_cases dev
  · simp only [hd]
    rw [if_neg lt.ne,if_neg (by omega)]
    split
    · exact dividesByZero_nil
    generalize target unit freq = f
    have tried : ∀ p d, d ∈ ((tries dev no).takeWhile p).map
        (tryBase dev f (r.pll no)) → 0 < d ∧ d < 2 ^ 32 := by
      intro p d hd
      obtain ⟨i,hi,rfl⟩ := List.mem_map.mp hd
      exact bounds _ _ _ i (List.takeWhile_subset _ hi)
    split
    · exact not_dividesByZero (tried _)
    rename_i div found
    apply not_dividesByZero
    intro d hd
    rcases List.mem_append.mp hd with hd | hd
    · exact tried _ d hd
    · rw [List.mem_singleton.mp hd]
      exact bounds _ _ _ div (List.mem_of_find?_eq_some found)
  · simp [hd,fail,dividesByZero_nil]
  · simp [hd,fail,dividesByZero_nil]

theorem Setting.Sane.base_bounds (h : s.Sane) (hdiv : 0 < s.div ∧ s.div < 256) :
    0 < s.base ∧ s.base < 2 ^ 32 := by
  have le : s.base ≤ 256 * (2 * 2 ^ 7) := by
    unfold Setting.base
    rw [Nat.mul_assoc]
    exact Nat.mul_le_mul hdiv.2.le h.base_le
  refine ⟨?_,le.trans_lt (by decide)⟩
  exact Nat.mul_pos (Nat.mul_pos hdiv.1 (Nat.succ_pos _)) (Nat.two_pow_pos _)

section
variable {f : Nat} {divs : List Nat} (hv : ∀ vd ∈ divs, 0 < vd ∧ vd < 256)
include hv

theorem pllSearch_bounds {d : Nat}
    (hd : d ∈ (pllSearch no f divs).divs) : 0 < d ∧ d < 2 ^ 32 := by
  apply pllLoop_divs (P := fun d => 0 < d ∧ d < 2 ^ 32) (by simp) _ d hd
  intro s hs
  obtain ⟨_,hr,hq,hvd⟩ := mem_loopOrder.mp hs
  have hp : 2 ^ s.divq ≤ 2 ^ 7 := Nat.pow_le_pow_right (by decide) hq
  have le : s.base ≤ 256 * 2 * 2 ^ 7 :=
    Nat.mul_le_mul (Nat.mul_le_mul (hv _ hvd).2.le (Nat.succ_le_succ hr)) hp
  refine ⟨⟨Nat.succ_pos _,by omega⟩,?_,le.trans_lt (by decide)⟩
  exact Nat.mul_pos (Nat.mul_pos (hv _ hvd).1 (Nat.succ_pos _)) (Nat.two_pow_pos _)

theorem search_divides (hs : s.Sane) (hdiv : 0 < s.div ∧ s.div < 256) :
    ¬ DividesByZero ((pllSearch no f divs).divs ++ [s.divr + 1,s.base]) := by
  apply not_dividesByZero
  intro d hd
  have hr := hs.divr
  rcases List.mem_append.mp hd with hd | hd
  · exact pllSearch_bounds hv hd
  simp only [List.mem_cons,List.not_mem_nil,or_false] at hd
  rcases hd with rfl | rfl
  · omega
  · exact hs.base_bounds hdiv

end

theorem setPllSpeed_divides (dev : Dev) (unit freq : Int) (r : Regs) :
    DividesByZero (setPllSpeed dev unit freq r).divs ↔
      (calcPllNum dev).1 < 5 ∧ UnitOk unit ∧ r.divByte (calcPllNum dev).2 = 0 := by
  unfold setPllSpeed
  obtain ⟨no,offs,hd,lt | rfl | rfl⟩ := calcPllNum_cases dev
  · simp only [hd]
    rw [if_neg lt.ne,if_neg (by omega),and_iff_right lt]
    by_cases bad : unit ≠ 0 ∧ unit ≠ 1 ∧ unit ≠ 2
    · rw [if_pos bad]
      exact iff_of_false dividesByZero_nil fun h => not_unitOk.mp bad h.1
    rw [if_neg bad,and_iff_right (not_not.mp (not_unitOk.not.mp bad))]
    have byte_lt : r.divByte offs < 256 := Nat.mod_lt _ (by decide)
    generalize r.divByte offs = vd at *
    have sane : Setting.Sane { (pllSearch no (target unit freq) [vd]).best with
        div := vd } := by
      obtain ⟨a,b,c,d,e⟩ := pllSearch_sane no (target unit freq) [vd]
      exact ⟨a,b,c,d,e⟩
    constructor
    · intro divides
      by_contra ne
      have pos := Nat.pos_of_ne_zero ne
      refine search_divides ?_ sane ⟨pos,byte_lt⟩ divides
      intro vd' h
      rw [List.mem_singleton.mp h]
      exact ⟨pos,byte_lt⟩
    · rintro rfl
      refine ⟨0,?_,rfl⟩
      apply List.mem_append_right
      unfold Setting.base
      dsimp only
      rw [Nat.zero_mul,Nat.zero_mul]
      exact List.mem_cons_of_mem _ (List.mem_singleton_self 0)
  · simp [hd,fail,dividesByZero_nil]
  · simp [hd,fail,dividesByZero_nil]

theorem setPllDivisor_divides (dev : Dev) (unit freq : Int) (r : Regs) :
    ¬ DividesByZero (setPllDivisor dev unit freq r).divs := by
  have search : ∀ no, ¬ DividesByZero ((pllSearch no (target unit freq) (pllDivisors no)).divs ++
      [(pllSearch no (target unit freq) (pllDivisors no)).best.divr + 1,
        (pllSearch no (target unit freq) (pllDivisors no)).best.base]) := by
    intro no
    have bounds := best_div_bounds no (target unit freq)
    apply search_divides _ (pllSearch_sane _ _ _) ⟨bounds.1,by omega⟩
    intro vd h
    have := pllDivisors_bounds h
    omega
  unfold setPllDivisor
  obtain ⟨no,offs,hd,lt | rfl | rfl⟩ := calcPllNum_cases dev
  · simp only [hd]
    rw [if_neg lt.ne,if_neg (by omega)]
    split
    · exact dividesByZero_nil
    · split
      · exact search no
      · exact search no
  · simp [hd,fail,dividesByZero_nil]
  · simp [hd,fail,dividesByZero_nil]

theorem manuRanges_bounds (h : manuRanges divf divr divq = true) :
    (0 ≤ divf ∧ divf ≤ 255) ∧ (0 ≤ divr ∧ divr ≤ 1) ∧ (0 ≤ divq ∧ divq ≤ 7) := by
  simpa [manuRanges,and_assoc] using h

theorem manu_divides (c : Clk) (dev : Dev) (divf divr divq devDiv : Int) :
    DividesByZero (manuPllDivisor c dev divf divr divq devDiv).1.divs ↔
      Accepted dev divf divr divq devDiv ∧ devDiv % 32 = 0 := by
  unfold manuPllDivisor Accepted
  dsimp only
  by_cases ranges : manuRanges divf divr divq = false
  · rw [if_pos ranges,ranges]
    exact iff_of_false dividesByZero_nil (by simp)
  rw [if_neg ranges]
  have ranges' : manuRanges divf divr divq = true := by simpa using ranges
  obtain ⟨_,hr,hq⟩ := manuRanges_bounds ranges'
  have first : ¬ DividesByZero [(manuSetting divf divr divq devDiv).divr + 1] := by
    apply not_dividesByZero
    intro d hd
    rw [List.mem_singleton.mp hd]
    unfold manuSetting
    dsimp only
    omega
  by_cases checks : manuChecks dev divf divr devDiv = false
  · rw [if_pos checks,checks]
    exact iff_of_false first (by simp)
  rw [if_neg checks]
  have checks' : manuChecks dev divf divr devDiv = true := by simpa using checks
  by_cases unknown : (calcPllNum dev).1 = 5
  · rw [if_pos unknown]
    exact iff_of_false first fun h => h.1.2.2 unknown
  rw [if_neg unknown,and_iff_right ⟨ranges',checks',unknown⟩]
  dsimp only
  generalize hk : (if (isSdmmc dev && decide (devDiv / 32 % 2 = 1)) = true then 64 else 1) = k
  have hk : 0 < k ∧ k ≤ 64 := by
    rw [← hk]
    split <;> decide
  have hp : 2 ^ (manuSetting divf divr divq devDiv).divq ≤ 2 ^ 7 :=
    Nat.pow_le_pow_right (by decide) (by unfold manuSetting; dsimp only; omega)
  have hd : (manuSetting divf divr divq devDiv).div ≤ 31 := by
    unfold manuSetting
    dsimp only
    omega
  have hr' : (manuSetting divf divr divq devDiv).divr + 1 ≤ 2 := by
    unfold manuSetting
    dsimp only
    omega
  have small : (manuSetting divf divr divq devDiv).base * k < 2 ^ 32 :=
    (Nat.mul_le_mul (Nat.mul_le_mul (Nat.mul_le_mul hd hr') hp) hk.2).trans_lt (by decide)
  have zero : devDiv % 32 = 0 ↔ (manuSetting divf divr divq devDiv).base * k % 2 ^ 32 = 0 := by
    rw [Nat.mod_eq_of_lt small,Nat.mul_eq_zero,or_iff_left hk.1.ne']
    unfold Setting.base
    rw [Nat.mul_eq_zero,or_iff_left (Nat.two_pow_pos _).ne',Nat.mul_eq_zero,
      or_iff_left (Nat.succ_ne_zero _)]
    unfold manuSetting
    dsimp only
    omega
  rw [zero]
  constructor
  · rintro ⟨d,hd,h⟩
    simp only [List.mem_cons,List.not_mem_nil,or_false] at hd
    rcases hd with rfl | rfl
    · exact absurd ⟨_,List.mem_singleton_self _,h⟩ first
    · exact h
  · exact fun h => ⟨_,List.mem_cons_of_mem _ (List.mem_singleton_self _),h⟩

theorem call_divides (c : Clk) (call : Call) :
    ¬ DividesByZero (call.run c).1.divs ↔ DivOk c call := by
  cases call with
  | manu dev divf divr divq devDiv =>
    unfold Call.run DivOk
    rw [manu_divides]
    simp only [not_and,ne_eq]
  | auto dev cmd unit freq =>
    cases cmd with
    | clkDisable | clkEnable =>
      unfold Call.run DivOk autoPllDivisor
      dsimp only
      split <;> simp [DividesByZero]
    | getFreq =>
      unfold Call.run DivOk autoPllDivisor Clk.finish
      rw [getFreq_divides]
      simp only [not_and,ne_eq]
    | setPll =>
      unfold Call.run DivOk autoPllDivisor Clk.finish
      rw [setPllSpeed_divides]
      simp only [not_and,ne_eq]
    | setDiv => exact iff_of_true (setDivisor_divides dev unit freq c.regs) trivial
    | setPllDiv => exact iff_of_true (setPllDivisor_divides dev unit freq c.regs) trivial

end Apc8750.Clock
