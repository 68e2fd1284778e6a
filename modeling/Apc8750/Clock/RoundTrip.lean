import Apc8750.Clock.Fields

namespace Apc8750.Clock

variable {dev : Dev} {unit freq : Int} {r : Regs} {s : Setting} {no offs : Nat}

def ReadsBack (dev : Dev) (r : Regs) (res : Result) : Prop :=
  0 ≤ res.ret → (getFreq dev (res.writes.foldl Regs.write r)).ret = res.ret

theorem readsBack_fail (h : res.ret = -1) : ReadsBack dev r res := by
  intro hr
  rw [h] at hr
  exact absurd hr (by decide)

section SetDiv

theorem tryFreq_last (dev : Dev) (f word : Nat) :
    0 < tryFreq dev f word 32 ∧ tryFreq dev f word 32 < 2 ^ 31 := by
  obtain ⟨low,high⟩ := pllFreq_bounds word
  have pos := pllBase_pos word
  have small := pllBase_le word
  unfold tryFreq
  rw [doDiv_eq (tryBase_lt le_rfl)]
  unfold tryBase
  generalize pllFreq word = n at *
  generalize pllBase word = d at *
  generalize hk : (if by64 dev f n then 64 else 1) = k
  have hk : 1 ≤ k ∧ k ≤ 64 := by
    rw [← hk]
    split <;> decide
  have base_le : d * (32 * k) ≤ 16777216 :=
    (Nat.mul_le_mul small (Nat.mul_le_mul_left 32 hk.2)).trans (by decide)
  have base_ge : 32 ≤ d * (32 * k) :=
    (by decide : 32 ≤ 1 * (32 * 1)).trans (Nat.mul_le_mul pos (Nat.mul_le_mul_left 32 hk.1))
  constructor
  · apply Nat.div_pos (base_le.trans (by omega)) (by omega)
  · apply (Nat.div_le_div_left base_ge (by decide)).trans_lt
    omega

theorem getFreq_stored (hd : calcPllNum dev = (no,offs)) (hn : no < 5) (hdiv : div ≤ 32) :
    (getFreq dev ([selectWrite dev offs,Write.divisor offs
      (divisorWord dev (by64 dev f (pllFreq (r.pll no))) div)].foldl Regs.write r)).ret =
      if div = 32 then 0 else toInt (tryFreq dev f (r.pll no) div) := by
  rw [getFreq_ret hd hn]
  have regs : ∀ word, ([selectWrite dev offs,Write.divisor offs word].foldl Regs.write r).pll =
      r.pll := fun _ => rfl
  have byte : ∀ word, ([selectWrite dev offs,Write.divisor offs word].foldl
      Regs.write r).divByte offs = word % 256 := by
    intro word
    simp [Regs.write,selectWrite,Regs.divByte]
  have sd : by64 dev f (pllFreq (r.pll no)) = true → isSdmmc dev = true := by
    intro h
    exact (Bool.and_eq_true_iff.mp h).1
  rw [regs,byte,getDivisor_stored sd hdiv]
  split
  · rw [Nat.zero_mul,Nat.mul_zero,doDiv_zero]
    rfl
  · rfl

theorem setDivisor_readsBack (hd : calcPllNum dev = (no,offs)) (hn : no < 5) :
    ReadsBack dev r (setDivisor dev unit freq r) ↔
      ¬ (r.clk dev.id = true ∧ Only32 dev no (target unit freq) (r.pll no)) := by
  unfold setDivisor
  simp only [hd]
  rw [if_neg hn.ne,if_neg (by omega)]
  by_cases off : r.clk dev.id = false
  · rw [if_pos off,off]
    exact iff_of_true (readsBack_fail rfl) (by simp)
  rw [if_neg off]
  have on : r.clk dev.id = true := by simpa using off
  generalize target unit freq = f
  rcases find_cases dev no f (r.pll no) with ⟨div,found,_,lt,other⟩ | ⟨found,only⟩ | ⟨found,other⟩
  · rw [found]
    apply iff_of_true
    · intro _
      dsimp only
      rw [getFreq_stored hd hn lt.le,if_neg lt.ne]
    · exact fun h => other h.2
  · rw [found]
    apply iff_of_false
    · intro back
      obtain ⟨pos,small⟩ := tryFreq_last dev f (r.pll no)
      have h := back (by dsimp only; rw [toInt_small small]; exact Int.natCast_nonneg _)
      dsimp only at h
      rw [getFreq_stored hd hn le_rfl,if_pos rfl,toInt_small small] at h
      omega
    · exact not_not.mpr ⟨on,only⟩
  · rw [found]
    exact iff_of_true (readsBack_fail rfl) fun h => other h.2

end SetDiv

section SetPll

def UnitOk (unit : Int) : Prop := unit = 0 ∨ unit = 1 ∨ unit = 2

theorem not_unitOk : (unit ≠ 0 ∧ unit ≠ 1 ∧ unit ≠ 2) ↔ ¬ UnitOk unit := by
  unfold UnitOk
  simp only [not_or,ne_eq]

theorem getDivisor_ne (h : 32 ≤ byte) (hb : byte < 256) : getDivisor dev byte ≠ byte := by
  unfold getDivisor
  split
  · split <;> omega
  · omega

theorem root_div_ne (h : s.Sane) {a b : Nat} (ha : a ≤ 2048) (hb : 0 < b ∧ b ≤ 2048) (ne : a ≠ b) :
    s.root / a ≠ s.root / b := by
  have root := h.root_ge
  rcases Nat.eq_zero_or_pos a with rfl | pos
  · rw [Nat.div_zero]
    exact (Nat.div_pos (hb.2.trans (by omega)) hb.1).ne
  have square : ∀ x, x ≤ 2048 → x * x ≤ s.root := fun x hx =>
    (Nat.mul_le_mul hx hx).trans (by omega)
  rcases Nat.lt_or_gt_of_ne ne with lt | gt
  · exact (div_ne_div pos lt (square b hb.2)).symm
  · exact div_ne_div hb.1 gt (square a ha)

theorem root_div_lt (h : s.Sane) (d : Nat) : s.root / d < 2 ^ 31 :=
  (Nat.div_le_self _ _).trans_lt h.root_lt

theorem setPllSpeed_readsBack (hd : calcPllNum dev = (no,offs)) (hn : no < 5) :
    ReadsBack dev r (setPllSpeed dev unit freq r) ↔ (UnitOk unit → r.divByte offs < 32) := by
  unfold setPllSpeed
  simp only [hd]
  rw [if_neg hn.ne,if_neg (by omega)]
  by_cases bad : unit ≠ 0 ∧ unit ≠ 1 ∧ unit ≠ 2
  · rw [if_pos bad]
    exact iff_of_true (readsBack_fail rfl) fun ok => absurd ok (not_unitOk.mp bad)
  rw [if_neg bad]
  have ok : UnitOk unit := by
    by_contra h
    exact bad (not_unitOk.mpr h)
  have byte_lt : r.divByte offs < 256 := Nat.mod_lt _ (by decide)
  generalize hs : ({ (pllSearch no (target unit freq) [r.divByte offs]).best with
    div := r.divByte offs } : Setting) = s
  have sane : s.Sane := by
    obtain ⟨a,b,c,d,e⟩ := pllSearch_sane no (target unit freq) [r.divByte offs]
    exact hs ▸ ⟨a,b,c,d,e⟩
  have div : s.div = r.divByte offs := by rw [← hs]
  have get := getFreq_pll (r := [selectWrite dev offs,Write.pll no (pllWord s)].foldl Regs.write r)
    hd hn sane (Function.update_self _ _ _)
  have byte : ([selectWrite dev offs,Write.pll no (pllWord s)].foldl Regs.write r).divByte offs =
      r.divByte offs := write_divByte_select r offs _ offs
  have lt := root_div_lt sane
  unfold ReadsBack
  dsimp only
  rw [get,byte,freq_eq sane (by omega),div,imp_iff_right ok,toInt_inj (lt _) (lt _),
    imp_iff_right (by rw [toInt_small (lt _)]; exact Int.natCast_nonneg _)]
  constructor
  · intro h
    by_contra big
    exact root_div_ne sane (getDivisor_le dev _) ⟨by omega,by omega⟩ (getDivisor_ne (by omega) byte_lt) h
  · intro h
    rw [getDivisor_small h]

end SetPll

section SetPllDiv

theorem best_div_bounds (no f : Nat) : 0 < (pllSearch no f (pllDivisors no)).best.div ∧
    (pllSearch no f (pllDivisors no)).best.div ≤ 32 := by
  rcases pllSearch_best no f (pllDivisors no) with ⟨h,_⟩ | ⟨h,_⟩
  · rw [h]
    decide
  · exact pllDivisors_bounds (mem_settings.mp (List.argmin_mem h)).2.2.2.1

theorem pllWrites_regs (dev : Dev) (no offs old div divWord pllWord : Nat) (r : Regs) :
    ((selectWrite dev offs :: pllWrites no offs old div divWord pllWord).foldl Regs.write r).pll no =
      pllWord ∧
    ((selectWrite dev offs :: pllWrites no offs old div divWord pllWord).foldl
      Regs.write r).divByte offs = if old = div then r.divByte offs else divWord % 256 := by
  unfold pllWrites
  rcases Nat.lt_trichotomy old div with lt | eq | gt
  · rw [if_pos lt,if_neg lt.not_gt,if_neg lt.ne]
    simp [Regs.write,Regs.divByte,selectWrite]
  · rw [if_neg eq.not_lt,if_neg eq.not_gt,if_pos eq]
    refine ⟨Function.update_self _ _ _,?_⟩
    exact write_divByte_select r offs _ offs
  · rw [if_neg gt.not_gt,if_pos gt,if_neg gt.ne']
    simp [Regs.write,Regs.divByte,selectWrite]

theorem setPllDivisor_readsBack (hd : calcPllNum dev = (no,offs)) (hn : no < 5) :
    ReadsBack dev r (setPllDivisor dev unit freq r) ↔
      ¬ (UnitOk unit ∧ r.clk dev.id = true ∧ Best32 no (target unit freq)) := by
  unfold setPllDivisor
  simp only [hd]
  rw [if_neg hn.ne,if_neg (by omega)]
  by_cases bad : unit ≠ 0 ∧ unit ≠ 1 ∧ unit ≠ 2
  · rw [if_pos bad]
    exact iff_of_true (readsBack_fail rfl) fun h => absurd h.1 (not_unitOk.mp bad)
  rw [if_neg bad]
  have ok : UnitOk unit := by
    by_contra h
    exact bad (not_unitOk.mpr h)
  by_cases off : r.clk dev.id = false
  · rw [if_pos off,off]
    exact iff_of_true (readsBack_fail rfl) (by simp)
  rw [if_neg off,← best_div]
  have on : r.clk dev.id = true := by simpa using off
  have sane := pllSearch_sane no (target unit freq) (pllDivisors no)
  have bounds := best_div_bounds no (target unit freq)
  generalize (pllSearch no (target unit freq) (pllDivisors no)).best = s at *
  obtain ⟨pll,byte⟩ := pllWrites_regs dev no offs (r.divByte offs) s.div
    (divisorWord dev false s.div) (pllWord s) r
  have get := getFreq_pll hd hn sane pll
  have stored : getDivisor dev (if r.divByte offs = s.div then r.divByte offs
      else divisorWord dev false s.div % 256) = if s.div = 32 then 0 else s.div := by
    split
    · rename_i eq
      rw [eq]
      split
      · rename_i h
        rw [h]
        unfold getDivisor
        split <;> rfl
      · exact getDivisor_small (by omega)
    · rw [getDivisor_stored (by simp) bounds.2]
      exact Nat.mul_one _
  have lt := root_div_lt sane
  unfold ReadsBack
  dsimp only
  rw [get,byte,stored,freq_eq sane (by omega),toInt_inj (lt _) (lt _),
    imp_iff_right (by rw [toInt_small (lt _)]; exact Int.natCast_nonneg _)]
  by_cases h : s.div = 32
  · rw [if_pos h]
    apply iff_of_false
    · exact root_div_ne sane (by omega) ⟨by omega,by omega⟩ (by omega)
    · exact not_not.mpr ⟨ok,on,h⟩
  · rw [if_neg h]
    exact iff_of_true rfl fun bad => h bad.2.2

end SetPllDiv

/-- After a setting command that returns a frequency, `GET_FREQ` returns it. -/
def RoundTrips (c : Clk) (dev : Dev) (cmd : Cmd) (unit freq : Int) : Prop :=
  0 ≤ (autoPllDivisor c dev cmd unit freq).1.ret →
    (autoPllDivisor (autoPllDivisor c dev cmd unit freq).2 dev .getFreq 0 0).1.ret =
      (autoPllDivisor c dev cmd unit freq).1.ret

/-- A setting is read back unless it stores the divisor 32 or `SET_PLL` finds more than a divisor in
its byte. -/
theorem set_then_get (c : Clk) (dev : Dev) (unit freq : Int) (hd : (calcPllNum dev).1 < 5) :
    (RoundTrips c dev .setDiv unit freq ↔ ¬ (c.regs.clk dev.id = true ∧
      Only32 dev (calcPllNum dev).1 (target unit freq) (c.regs.pll (calcPllNum dev).1))) ∧
    (RoundTrips c dev .setPll unit freq ↔
      (UnitOk unit → c.regs.divByte (calcPllNum dev).2 < 32)) ∧
    (RoundTrips c dev .setPllDiv unit freq ↔ ¬ (UnitOk unit ∧ c.regs.clk dev.id = true ∧
      Best32 (calcPllNum dev).1 (target unit freq))) :=
  ⟨setDivisor_readsBack rfl hd, setPllSpeed_readsBack rfl hd, setPllDivisor_readsBack rfl hd⟩

def gigahertz : Clk := ⟨⟨fun _ => 39 * 2 ^ 16, fun _ => 1, fun _ => true⟩, fun _ => 1⟩

theorem set_then_get_spi : (calcPllNum .spi0).1 < 5 ∧
    RoundTrips gigahertz .spi0 .setDiv 2 100 ∧ RoundTrips gigahertz .spi0 .setPll 2 100 := by
  obtain ⟨div, pll, _⟩ := set_then_get gigahertz .spi0 2 100 (by decide)
  refine ⟨by decide, div.mpr ?_, pll.mpr fun _ => by decide⟩
  rintro ⟨_, _, others⟩
  exact absurd (others 10 (by decide) (by decide)) (by decide +kernel)

/-- `SET_DIV` of 31.25 MHz stores the divisor 32 and `GET_FREQ` then returns 0. -/
theorem divisor_32_lost :
    (autoPllDivisor gigahertz .spi0 .setDiv 0 31250000).1.ret = 31250000 ∧
    (autoPllDivisor (autoPllDivisor gigahertz .spi0 .setDiv 0 31250000).2 .spi0 .getFreq 0 0).1.ret
      = 0 ∧ ¬ RoundTrips gigahertz .spi0 .setDiv 0 31250000 := by
  have values : (autoPllDivisor gigahertz .spi0 .setDiv 0 31250000).1.ret = 31250000 ∧
      (autoPllDivisor (autoPllDivisor gigahertz .spi0 .setDiv 0 31250000).2 .spi0 .getFreq 0 0).1.ret
        = 0 := by decide +kernel
  refine ⟨values.1, values.2, ?_⟩
  unfold RoundTrips
  rw [values.1, values.2]
  decide

end Apc8750.Clock
