import Mathlib.Order.Bounds.Basic
import Apc8750.Clock.RoundTrip

namespace Apc8750.Clock

variable {dev : Dev} {unit freq : Int} {r : Regs} {s t : Setting} {no offs : Nat}

def IntRange (n : Int) : Prop := -2 ^ 31 ≤ n ∧ n < 2 ^ 31

def wanted (unit freq : Int) : Int :=
  freq * (if unit = 1 then 1000 else if unit = 2 then 1000000 else 1)

theorem target_wraps (unit : Int) (h : IntRange freq) :
    (target unit freq : Int) = wanted unit freq + if freq < 0 then 2 ^ 64 else 0 := by
  obtain ⟨low,high⟩ := h
  unfold target wanted toLlu
  split <;> split
  · omega
  · omega
  · split <;> omega
  · split <;> omega

theorem target_cases (unit : Int) (h : IntRange freq) :
    (0 ≤ freq ∧ (target unit freq : Int) = wanted unit freq) ∨
      (freq < 0 ∧ wanted unit freq < 0 ∧ 2 ^ 63 ≤ target unit freq) := by
  have value := target_wraps unit h
  obtain ⟨low,_⟩ := h
  rcases lt_or_ge freq 0 with neg | pos
  · have range : -(2 ^ 31 * 1000000) ≤ wanted unit freq ∧ wanted unit freq < 0 := by
      unfold wanted
      split
      · omega
      · split <;> omega
    rw [if_pos neg] at value
    exact .inr ⟨neg,range.2,by omega⟩
  · rw [if_neg pos.not_gt,add_zero] at value
    exact .inl ⟨pos,value⟩

section SetPllDivisor

/-- The registers of a device hold a setting. The divisor has five bits, with 32 as 0. -/
structure Programmed (dev : Dev) (r : Regs) (s : Setting) : Prop where
  pll : r.pll (calcPllNum dev).1 = pllWord s
  div : r.divByte (calcPllNum dev).2 % 32 = s.div % 32

theorem setPllDivisor_result (freq : Int) (hd : calcPllNum dev = (no,offs)) (hn : no < 5)
    (hu : UnitOk unit) (on : r.clk dev.id = true) :
    (setPllDivisor dev unit freq r).ret =
        toInt (pllSearch no (target unit freq) (pllDivisors no)).best.freq ∧
      (setPllDivisor dev unit freq r).writes = selectWrite dev offs :: pllWrites no offs
        (r.divByte offs) (pllSearch no (target unit freq) (pllDivisors no)).best.div
        (divisorWord dev false (pllSearch no (target unit freq) (pllDivisors no)).best.div)
        (pllWord (pllSearch no (target unit freq) (pllDivisors no)).best) := by
  have hu' : ¬(unit ≠ 0 ∧ unit ≠ 1 ∧ unit ≠ 2) := fun bad => not_unitOk.mp bad hu
  unfold setPllDivisor
  simp only [hd]
  rw [if_neg (by omega),if_neg (by omega),if_neg hu',if_neg (by simp [on])]
  exact ⟨rfl,rfl⟩

theorem programmed (r : Regs) (hd : calcPllNum dev = (no,offs)) (hs : s.div ≤ 32) :
    Programmed dev ((selectWrite dev offs :: pllWrites no offs (r.divByte offs) s.div
      (divisorWord dev false s.div) (pllWord s)).foldl Regs.write r) s := by
  obtain ⟨pll,byte⟩ := pllWrites_regs dev no offs (r.divByte offs) s.div
    (divisorWord dev false s.div) (pllWord s) r
  constructor <;> rw [hd]
  · exact pll
  rw [byte]
  split
  · rename_i same
    rw [same]
  have field : (if s.div = 32 then 0 else s.div) = s.div % 32 := by
    split <;> omega
  unfold divisorWord
  rw [field,if_neg Bool.false_ne_true]
  split <;> omega

end SetPllDivisor

section SetDivisor

/-- 1 to 32, of which PLL C has only the even ones and 1, and on SD/MMC 64 times as much. -/
def multipliers (dev : Dev) : List Nat :=
  tries dev (calcPllNum dev).1 ++
    if isSdmmc dev then (tries dev (calcPllNum dev).1).map (64 * ·) else []

def rate (word m : Nat) : Nat := pllFreq word / (pllBase word * m)

/-- The largest frequency not above the request that a divisor gives, or a failure. -/
structure Fastest (dev : Dev) (unit freq : Int) (r : Regs) : Prop where
  found : ∀ m ∈ multipliers dev, (rate (r.pll (calcPllNum dev).1) m : Int) ≤ wanted unit freq →
    ∃ f : Nat, (setDivisor dev unit freq r).ret = f ∧
      IsGreatest { f | ∃ m ∈ multipliers dev, rate (r.pll (calcPllNum dev).1) m = f ∧
        (f : Int) ≤ wanted unit freq } f
  none : (∀ m ∈ multipliers dev, wanted unit freq < rate (r.pll (calcPllNum dev).1) m) →
    (setDivisor dev unit freq r).ret = -1 ∧
      ((setDivisor dev unit freq r).writes.foldl Regs.write r).divByte (calcPllNum dev).2 =
        r.divByte (calcPllNum dev).2

/-- The frequencies fit, and SD/MMC divides by 64 exactly if it must. -/
structure Divisible (dev : Dev) (unit freq : Int) (word : Nat) : Prop where
  positive : 0 ≤ freq
  fits : ∀ m ∈ multipliers dev, (rate word m : Int) ≤ wanted unit freq → rate word m < 2 ^ 31
  by64 : isSdmmc dev = true →
    (wanted unit freq ≤ pllFreq word / 64 ↔ wanted unit freq < rate word 32)

theorem rate_anti (word : Nat) (pos : 0 < m) (h : m ≤ m') : rate word m' ≤ rate word m :=
  Nat.div_le_div_left (Nat.mul_le_mul_left _ h) (Nat.mul_pos (pllBase_pos word) pos)

theorem tries_range (h : i ∈ tries dev no) : 0 < i ∧ i ≤ 32 := by
  have range := List.mem_range'_1.mp (List.mem_filter.mp h).1
  omega

theorem mem_tries_32 (dev : Dev) (no : Nat) : 32 ∈ tries dev no := by
  obtain ⟨init,split,_⟩ := tries_split dev no
  rw [split]
  simp

theorem mem_tries_1 (dev : Dev) (no : Nat) : 1 ∈ tries dev no := by
  unfold tries
  generalize isSdmmc dev = b
  generalize (no == 2) = b'
  cases b <;> cases b' <;> decide

def scaled (dev : Dev) (f word i : Nat) : Nat := if by64 dev f (pllFreq word) then 64 * i else i

theorem scaled_pos (pos : 0 < i) : 0 < scaled dev f word i := by
  unfold scaled
  split <;> omega

theorem tryFreq_rate (hi : i ≤ 32) : tryFreq dev f word i = rate word (scaled dev f word i) := by
  unfold tryFreq
  rw [doDiv_eq (tryBase_lt hi)]
  unfold tryBase rate scaled
  split
  · rw [Nat.mul_comm i]
  · rw [Nat.mul_one]

theorem sorted_tries (dev : Dev) (no : Nat) : (tries dev no).Pairwise (· < ·) :=
  List.Pairwise.filter _ List.pairwise_lt_range'

theorem sorted_multipliers (dev : Dev) : (multipliers dev).Pairwise (· < ·) := by
  unfold multipliers
  split
  · refine List.pairwise_append.mpr ⟨sorted_tries _ _,?_,fun a ha b hb => ?_⟩
    · exact List.pairwise_map.mpr ((sorted_tries _ _).imp fun h => by omega)
    obtain ⟨i,hi,rfl⟩ := List.mem_map.mp hb
    have := tries_range ha
    have := tries_range hi
    omega
  · rw [List.append_nil]
    exact sorted_tries _ _

theorem multipliers_pos (h : m ∈ multipliers dev) : 0 < m := by
  unfold multipliers at h
  rcases List.mem_append.mp h with h | h
  · exact (tries_range h).1
  split at h
  · obtain ⟨i,hi,rfl⟩ := List.mem_map.mp h
    have := tries_range hi
    omega
  · cases h

theorem find_greatest (h : (multipliers dev).find? (fun m => decide (rate word m ≤ T)) = some m) :
    m ∈ multipliers dev ∧ rate word m ≤ T ∧
      ∀ m' ∈ multipliers dev, rate word m' ≤ T → rate word m' ≤ rate word m := by
  have mem := List.mem_of_find?_eq_some h
  refine ⟨mem,by simpa using List.find?_some h,fun m' hm' fits => ?_⟩
  obtain ⟨_,pre,post,split,before⟩ := List.find?_eq_some_iff_append.mp h
  have sorted := sorted_multipliers dev
  rw [split] at sorted hm'
  rcases List.mem_append.mp hm' with early | late
  · have := before m' early
    simp [fits] at this
  apply rate_anti word (multipliers_pos mem)
  rcases List.mem_cons.mp late with rfl | late
  · exact le_rfl
  · exact ((List.pairwise_cons.mp (List.pairwise_append.mp sorted).2.1).1 m' late).le

theorem by64_off (h : isSdmmc dev = false) (f pll : Nat) : by64 dev f pll = false := by
  unfold by64
  rw [h,Bool.false_and]

theorem by64_on (h : isSdmmc dev = true) (f pll : Nat) : by64 dev f pll = decide (f ≤ pll / 64) := by
  unfold by64
  rw [h,Bool.true_and]

def chosen (dev : Dev) (no T word : Nat) : Option Nat :=
  (tries dev no).find? fun i => decide (rate word (scaled dev T word i) ≤ T)

theorem setDivisor_result (unit freq : Int) (hd : calcPllNum dev = (no,offs)) (hn : no < 5)
    (on : r.clk dev.id = true) :
    (chosen dev no (target unit freq) (r.pll no) = none ∧ (setDivisor dev unit freq r).ret = -1 ∧
      (setDivisor dev unit freq r).writes = [selectWrite dev offs]) ∨
    ∃ i, chosen dev no (target unit freq) (r.pll no) = some i ∧ (setDivisor dev unit freq r).ret =
        toInt (rate (r.pll no) (scaled dev (target unit freq) (r.pll no) i)) := by
  have same : (tries dev no).find? (fun i =>
      decide (tryFreq dev (target unit freq) (r.pll no) i ≤ target unit freq)) =
      chosen dev no (target unit freq) (r.pll no) := by
    unfold chosen
    rw [← List.head?_filter,← List.head?_filter]
    refine congrArg List.head? (List.filter_congr fun i hi => ?_)
    rw [tryFreq_rate (tries_range hi).2]
  unfold setDivisor
  simp only [hd]
  rw [if_neg (by omega),if_neg (by omega),if_neg (by simp [on]),same]
  cases found : chosen dev no (target unit freq) (r.pll no) with
  | none => exact .inl ⟨rfl,rfl,rfl⟩
  | some i =>
    refine .inr ⟨i,rfl,?_⟩
    dsimp only
    rw [tryFreq_rate (tries_range (List.mem_of_find?_eq_some found)).2]

theorem chosen_first (T word : Nat) (hd : calcPllNum dev = (no,offs))
    (h : isSdmmc dev = true → (T ≤ pllFreq word / 64 ↔ T < rate word 32)) :
    (chosen dev no T word).map (scaled dev T word) =
      (multipliers dev).find? fun m => decide (rate word m ≤ T) := by
  unfold chosen multipliers scaled
  rw [hd]
  dsimp only
  cases sd : isSdmmc dev with
  | false =>
    simp [by64_off sd]
  | true =>
    have need := h sd
    rw [by64_on sd,if_pos rfl,List.find?_append]
    by_cases large : T ≤ pllFreq word / 64
    · have above : (tries dev no).find? (fun m => decide (rate word m ≤ T)) = none := by
        apply List.find?_eq_none.mpr
        intro i hi
        have range := tries_range hi
        have := rate_anti word range.1 range.2
        have := need.mp large
        simp only [decide_eq_true_eq]
        omega
      simp only [large,decide_true,if_true]
      rw [above,Option.none_or,List.find?_map]
      rfl
    · have fits : ¬ T < rate word 32 := fun lt => large (need.mpr lt)
      simp only [large,decide_false,Bool.false_eq_true,if_false]
      cases found : (tries dev no).find? fun m => decide (rate word m ≤ T) with
      | none =>
        have := List.find?_eq_none.mp found 32 (mem_tries_32 dev no)
        simp only [decide_eq_true_eq] at this
        omega
      | some m => rfl

theorem toInt_lt (n : Nat) : toInt n < 2 ^ 31 := by
  unfold toInt
  split <;> omega

theorem rate_half (word : Nat) : rate word 64 < rate word 32 := by
  have pos : 0 < rate word 32 := by
    have := pllBase_le word
    have := (pllFreq_bounds word).1
    exact Nat.div_pos (by omega) (Nat.mul_pos (pllBase_pos word) (by decide))
  have half : rate word 64 = rate word 32 / 2 := by
    unfold rate
    rw [Nat.div_div_eq_div_mul,Nat.mul_assoc]
  omega

theorem rate_64 (word : Nat) : rate word 64 ≤ pllFreq word / 64 := by
  unfold rate
  rw [← Nat.div_div_eq_div_mul]
  exact Nat.div_le_div_right (Nat.div_le_self _ _)

theorem toInt_rate (word : Nat) (pos : 0 < m) : toInt (rate word m) ≠ -1 := by
  intro h
  have high := (pllFreq_bounds word).2
  have le : rate word m ≤ pllFreq word := Nat.div_le_self _ _
  have value : rate word m = 2 ^ 32 - 1 := by
    unfold toInt at h
    split at h <;> omega
  have scale := Nat.mul_pos (pllBase_pos word) pos
  unfold rate at value
  rcases Nat.lt_or_ge 1 (pllBase word * m) with two | one
  · have half : pllFreq word / (pllBase word * m) ≤ pllFreq word / 2 :=
      Nat.div_le_div_left two (by decide)
    omega
  have unscaled : pllBase word * m = 1 := by omega
  rw [unscaled,Nat.div_one] at value
  unfold pllFreq srcFreq at value
  omega

theorem Divisible.fastest (h : Divisible dev unit freq (r.pll no)) (hd : calcPllNum dev = (no,offs))
    (hn : no < 5) (on : r.clk dev.id = true) (int : IntRange freq) : Fastest dev unit freq r := by
  have request : (target unit freq : Int) = wanted unit freq := by
    rcases target_cases unit int with h' | h'
    · exact h'.2
    · exact absurd h.positive h'.1.not_ge
  have first := chosen_first (target unit freq) (r.pll no) hd fun sd => by
    have := h.by64 sd
    omega
  rcases setDivisor_result unit freq hd hn on with ⟨none,ret,writes⟩ | ⟨i,some,ret⟩
  · rw [none,Option.map_none] at first
    have above : ∀ m ∈ multipliers dev, wanted unit freq < rate (r.pll no) m := by
      intro m hm
      have := List.find?_eq_none.mp first.symm m hm
      simp only [decide_eq_true_eq] at this
      omega
    constructor <;> simp only [hd]
    · intro m hm fits
      exact absurd (above m hm) fits.not_gt
    · intro _
      rw [ret,writes]
      exact ⟨rfl,write_divByte_select r offs _ offs⟩
  · rw [some,Option.map_some] at first
    obtain ⟨mem,le,most⟩ := find_greatest first.symm
    generalize scaled dev (target unit freq) (r.pll no) i = m at *
    have fits : (rate (r.pll no) m : Int) ≤ wanted unit freq := by omega
    constructor <;> simp only [hd]
    · intro _ _ _
      rw [ret]
      refine ⟨rate (r.pll no) m,toInt_small (h.fits m mem fits),⟨m,mem,rfl,fits⟩,?_⟩
      rintro f ⟨m',hm',rfl,fits'⟩
      exact most m' hm' (by omega)
    · intro none
      exact absurd (none m mem) fits.not_gt

theorem mem_multipliers (hd : calcPllNum dev = (no,offs)) (h : i ∈ tries dev no) :
    i ∈ multipliers dev := by
  unfold multipliers
  rw [hd]
  exact List.mem_append_left _ h

theorem Fastest.divisible (h : Fastest dev unit freq r) (hd : calcPllNum dev = (no,offs))
    (hn : no < 5) (on : r.clk dev.id = true) (int : IntRange freq) :
    Divisible dev unit freq (r.pll no) := by
  obtain ⟨found,none⟩ := h
  simp only [hd] at found none
  have result := setDivisor_result unit freq hd hn on
  have high := (pllFreq_bounds (r.pll no)).2
  have tried : ∀ {i}, chosen dev no (target unit freq) (r.pll no) = some i → 0 < i ∧ i ≤ 32 :=
    fun h => tries_range (List.mem_of_find?_eq_some h)
  generalize r.pll no = word at *
  have positive : 0 ≤ freq := by
    rcases target_cases unit int with h | ⟨_,below,huge⟩
    · exact h.1
    -- a negative request is taken for a huge one, which every divisor keeps to
    have ret := (none fun m _ => by omega).1
    rcases result with ⟨nothing,_⟩ | ⟨i,some,value⟩
    · have above := List.find?_eq_none.mp nothing 32 (mem_tries_32 dev no)
      have le : rate word (scaled dev (target unit freq) word 32) ≤ pllFreq word :=
        Nat.div_le_self _ _
      simp only [decide_eq_true_eq] at above
      omega
    · rw [value] at ret
      exact absurd ret (toInt_rate word (scaled_pos (tried some).1))
  have request : (target unit freq : Int) = wanted unit freq := by
    rcases target_cases unit int with h | h
    · exact h.2
    · omega
  refine ⟨positive,fun m hm le => ?_,fun sd => ⟨fun large => ?_,fun need => ?_⟩⟩
  · obtain ⟨f,ret,greatest⟩ := found m hm le
    have most := greatest.2 ⟨m,hm,rfl,le⟩
    rcases result with ⟨_,value,_⟩ | ⟨i,_,value⟩
    · omega
    · have := toInt_lt (rate word (scaled dev (target unit freq) word i))
      omega
  · by_contra fits
    -- only multiples of 64 are tried, and all of them are slower than the divisor 32
    obtain ⟨f,ret,greatest⟩ := found 32 (mem_multipliers hd (mem_tries_32 dev no)) (by omega)
    have most := greatest.2 ⟨32,mem_multipliers hd (mem_tries_32 dev no),rfl,by omega⟩
    rcases result with ⟨_,value,_⟩ | ⟨i,some,value⟩
    · omega
    have used : scaled dev (target unit freq) word i = 64 * i := by
      unfold scaled
      rw [by64_on sd,if_pos (decide_eq_true (by omega))]
    have slower : rate word (64 * i) ≤ rate word 64 :=
      rate_anti word (by decide) (by have := tried some; omega)
    have small := rate_64 word
    have half := rate_half word
    rw [used,toInt_small (by omega)] at value
    omega
  · by_contra small
    have unused : by64 dev (target unit freq) (pllFreq word) = false := by
      rw [by64_on sd]
      exact decide_eq_false (by omega)
    have slow := rate_64 word
    have mem : 64 ∈ multipliers dev := by
      unfold multipliers
      rw [hd,sd,if_pos rfl]
      exact List.mem_append_right _ (List.mem_map.mpr ⟨1,mem_tries_1 dev no,rfl⟩)
    obtain ⟨f,ret,_⟩ := found 64 mem (by omega)
    rcases result with ⟨_,value,_⟩ | ⟨i,some,_⟩
    · omega
    have fits := List.find?_some some
    have above := rate_anti word (tried some).1 (tried some).2
    simp only [scaled,unused,Bool.false_eq_true,if_false,decide_eq_true_eq] at fits
    omega

/-- `set_divisor` is right exactly where its result fits and the divider by 64 is used where it is
needed. -/
theorem fastest_divisor (hd : calcPllNum dev = (no, offs)) (hn : no < 5) (on : r.clk dev.id = true)
    (int : IntRange freq) :
    Fastest dev unit freq r ↔ Divisible dev unit freq (r.pll no) :=
  ⟨fun h => h.divisible hd hn on int, fun h => h.fastest hd hn on int⟩

theorem fastest_divisor_spi : Fastest .spi0 2 10 gigahertz.regs :=
  (fastest_divisor rfl (by decide) rfl ⟨by decide, by decide⟩).mpr
    ⟨by decide, fun _ _ le => by
      have : wanted 2 10 = 10000000 := by decide
      omega, by decide⟩

/-- For an SD card at 25 MHz from 1000 MHz, the divider by 64 would do and is not tried. -/
theorem sd_clock_refused : (setDivisor .sdmmc0 2 25 gigahertz.regs).ret = -1 ∧
    ¬ Fastest .sdmmc0 2 25 gigahertz.regs := by
  have ret : (setDivisor .sdmmc0 2 25 gigahertz.regs).ret = -1 := by decide
  refine ⟨ret, fun h => ?_⟩
  obtain ⟨f, value, _⟩ := h.found 64 (by decide) (by decide)
  omega

end SetDivisor

end Apc8750.Clock
