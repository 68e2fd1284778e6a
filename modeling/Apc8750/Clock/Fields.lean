import Mathlib.Data.List.TakeWhile
import Mathlib.Tactic.Ring
import Apc8750.Clock.Search

namespace Apc8750.Clock

variable {dev : Dev} {freq : Int} {r : Regs} {s : Setting} {no offs : Nat}

theorem doDiv_eq {n base : Nat} (h : base < 2 ^ 32) : doDiv n base = n / base := by
  unfold doDiv
  rw [Nat.mod_eq_of_lt h]

theorem doDiv_zero (n : Nat) : doDiv n 0 = 0 := Nat.div_zero n

theorem toInt_small (h : n < 2 ^ 31) : toInt n = n := by
  unfold toInt
  rw [if_pos] <;> omega

theorem toInt_inj (hm : m < 2 ^ 31) (hn : n < 2 ^ 31) : toInt m = toInt n ↔ m = n := by
  rw [toInt_small hm,toInt_small hn]
  exact Int.ofNat_inj

theorem div_ne_div (ha : 0 < a) (hab : a < b) (hx : b * b ≤ x) : x / b ≠ x / a := by
  intro h
  have hb : 0 < b := ha.trans hab
  have large : b ≤ x / b := (Nat.le_div_iff_mul_le hb).mpr hx
  have low : x / b * b ≤ x := Nat.div_mul_le_self x b
  have high : x < (x / b + 1) * a := by
    rw [h,Nat.mul_comm]
    exact Nat.lt_mul_div_succ x ha
  have step : (x / b + 1) * a ≤ (x / b + 1) * (b - 1) := Nat.mul_le_mul_left _ (Nat.le_pred_of_lt hab)
  have expand : (x / b + 1) * (b - 1) + (x / b + 1) = x / b * b + b := by
    obtain ⟨b,rfl⟩ := Nat.exists_eq_succ_of_ne_zero hb.ne'
    rw [Nat.succ_sub_one,← Nat.mul_succ,Nat.add_mul,Nat.one_mul]
  omega

theorem write_divByte_select (r : Regs) (offs byte o : Nat) :
    (r.write (.select offs byte)).divByte o = r.divByte o := by
  simp only [Regs.divByte,Regs.write]
  by_cases h : o = offs
  · subst h
    rw [Function.update_self]
    omega
  · rw [Function.update_of_ne h]

theorem getFreq_ret (hd : calcPllNum dev = (no,offs)) (hn : no < 5) (r : Regs) :
    (getFreq dev r).ret = toInt (doDiv (pllFreq (r.pll no))
      (pllBase (r.pll no) * getDivisor dev (r.divByte offs))) := by
  unfold getFreq
  simp only [hd]
  rw [if_neg hn.ne,if_neg (by omega)]

theorem getDivisor_stored (hb : b = true → isSdmmc dev = true) (hdiv : div ≤ 32) :
    getDivisor dev (divisorWord dev b div % 256) =
      (if div = 32 then 0 else div) * (if b then 64 else 1) := by
  have field : ∀ k, (if div = 32 then 0 else div) = k → k < 32 := by
    rintro k rfl
    split <;> omega
  unfold divisorWord
  generalize hk : (if div = 32 then 0 else div) = k at *
  have hk := field k rfl
  have low : ((if dev = .sdtv then 0x10000 else 0) + (if b then 32 else 0) + k) % 256 =
      (if b then 32 else 0) + k := by
    split <;> split <;> omega
  rw [low]
  unfold getDivisor
  cases b with
  | false =>
    rw [if_neg Bool.false_ne_true,if_neg Bool.false_ne_true,Nat.zero_add,Nat.mod_eq_of_lt hk,
      Nat.div_eq_of_lt hk]
    split
    · rfl
    · rw [Nat.mul_one]
  | true =>
    rw [if_pos (hb rfl),if_pos rfl,if_pos rfl]
    have h1 : (32 + k) % 32 = k := by omega
    have h2 : (32 + k) / 32 % 2 = 1 := by omega
    rw [h1,h2,if_pos rfl]

theorem getDivisor_le (dev : Dev) (byte : Nat) : getDivisor dev byte ≤ 2048 := by
  have : byte % 32 < 32 := Nat.mod_lt _ (by decide)
  unfold getDivisor
  split
  · split <;> omega
  · omega

theorem getDivisor_small (h : byte < 32) : getDivisor dev byte = byte := by
  unfold getDivisor
  rw [Nat.mod_eq_of_lt h,Nat.div_eq_of_lt h]
  split
  · exact Nat.mul_one byte
  · rfl

theorem pllBase_pos (word : Nat) : 0 < pllBase word :=
  Nat.mul_pos (Nat.succ_pos _) (Nat.two_pow_pos _)

theorem pllBase_le (word : Nat) : pllBase word ≤ 64 * 2 ^ 7 := by
  apply Nat.mul_le_mul
  · exact Nat.succ_le_of_lt (Nat.mod_lt _ (by decide))
  · exact Nat.pow_le_pow_right (by decide) (Nat.le_of_lt_succ (Nat.mod_lt _ (by decide)))

theorem pllFreq_bounds (word : Nat) : 25000000 ≤ pllFreq word ∧ pllFreq word ≤ 6400000000 := by
  have h : pllDivf word < 256 := Nat.mod_lt _ (by decide)
  unfold pllFreq srcFreq
  omega

theorem tries_split (dev : Dev) (no : Nat) :
    ∃ init, tries dev no = init ++ [32] ∧ ∀ i ∈ init, 0 < i ∧ i < 32 := by
  unfold tries
  generalize isSdmmc dev = b
  generalize (no == 2) = b'
  cases b <;> cases b' <;>
    first
    | exact ⟨List.range' 1 31,by decide,by decide⟩
    | exact ⟨[1,2,4,6,8,10,12,14,16,18,20,22,24,26,28,30],by decide,by decide⟩

/-- Of the divisors that `set_divisor` tries, only 32 keeps to the request. -/
def Only32 (dev : Dev) (no freq word : Nat) : Prop :=
  tryFreq dev freq word 32 ≤ freq ∧ ∀ i ∈ tries dev no, i ≠ 32 → freq < tryFreq dev freq word i

theorem tryBase_lt (hi : i ≤ 32) : tryBase dev f word i < 2 ^ 32 := by
  have h1 := pllBase_le word
  have h2 : i * (if by64 dev f (pllFreq word) then 64 else 1) ≤ 32 * 64 := by
    apply Nat.mul_le_mul hi
    split <;> decide
  calc tryBase dev f word i ≤ 64 * 2 ^ 7 * (32 * 64) := Nat.mul_le_mul h1 h2
    _ < 2 ^ 32 := by decide

theorem find_cases (dev : Dev) (no f word : Nat) :
    let found := (tries dev no).find? fun i => decide (tryFreq dev f word i ≤ f)
    (∃ div, found = some div ∧ 0 < div ∧ div < 32 ∧ ¬ Only32 dev no f word) ∨
    (found = some 32 ∧ Only32 dev no f word) ∨ (found = none ∧ ¬ Only32 dev no f word) := by
  obtain ⟨init,split,range⟩ := tries_split dev no
  unfold Only32
  rw [split]
  dsimp only
  rw [List.find?_append]
  cases found : init.find? fun i => decide (tryFreq dev f word i ≤ f) with
  | some div =>
    have mem := List.mem_of_find?_eq_some found
    have fits : tryFreq dev f word div ≤ f := by
      simpa using List.find?_some found
    refine .inl ⟨div,rfl,(range div mem).1,(range div mem).2,?_⟩
    rintro ⟨_,others⟩
    exact absurd (others div (List.mem_append_left _ mem) (range div mem).2.ne) fits.not_gt
  | none =>
    rw [Option.none_or]
    apply Or.inr
    by_cases fits : tryFreq dev f word 32 ≤ f
    · refine .inl ⟨List.find?_cons_of_pos (by simpa using fits),fits,?_⟩
      intro i hi ne
      rcases List.mem_append.mp hi with hi | hi
      · simpa using List.find?_eq_none.mp found i hi
      · exact absurd (List.mem_singleton.mp hi) ne
    · refine .inr ⟨?_,fun h => fits h.1⟩
      rw [List.find?_cons_of_neg (by simpa using fits),List.find?_nil]

/-- The fields fit a PLL word, and the frequency before the divisor is between 7.8 and 2025 MHz. -/
structure Setting.Sane (s : Setting) : Prop where
  divf : s.divf < 256
  divr : s.divr ≤ 1
  divq : s.divq ≤ 7
  low : 7812500 * ((s.divr + 1) * 2 ^ s.divq) ≤ srcFreq * (s.divf + 1) * 1000000
  high : srcFreq * (s.divf + 1) * 1000000 < 2147483648 * ((s.divr + 1) * 2 ^ s.divq)

theorem sane_start : Setting.Sane ⟨1,1,1,1⟩ := by
  constructor <;> decide

theorem settings_bounds (h : s ∈ settings divs) : 2 ^ s.divq ≤ 2 ^ 7 ∧ 1 ≤ 2 ^ s.divq ∧
    40 * (s.divr + 1) ≤ s.divf + 1 ∧ s.divf + 1 < 81 * (s.divr + 1) := by
  obtain ⟨_,_,hq,_,ha⟩ := mem_settings.mp h
  obtain ⟨low,high⟩ := of_decide_eq_true ha
  exact ⟨Nat.pow_le_pow_right (by decide) hq,Nat.one_le_two_pow,
    (Nat.le_div_iff_mul_le (Nat.succ_pos _)).mp low,
    (Nat.div_lt_iff_lt_mul (Nat.succ_pos _)).mp (Nat.lt_succ_of_le high)⟩

theorem sane_of_mem (h : s ∈ settings divs) : s.Sane := by
  obtain ⟨hf,hr,hq,_,_⟩ := mem_settings.mp h
  obtain ⟨hp,hp',low,high⟩ := settings_bounds h
  refine ⟨hf,hr,hq,?_,?_⟩
  · calc 7812500 * ((s.divr + 1) * 2 ^ s.divq) ≤ 7812500 * ((s.divr + 1) * 2 ^ 7) :=
          Nat.mul_le_mul_left _ (Nat.mul_le_mul_left _ hp)
      _ ≤ srcFreq * (s.divf + 1) * 1000000 := by
          unfold srcFreq
          omega
  · calc srcFreq * (s.divf + 1) * 1000000 < 2147483648 * ((s.divr + 1) * 1) := by
          unfold srcFreq
          omega
      _ ≤ 2147483648 * ((s.divr + 1) * 2 ^ s.divq) :=
          Nat.mul_le_mul_left _ (Nat.mul_le_mul_left _ hp')

theorem pllSearch_sane (no freq : Nat) (divs : List Nat) : (pllSearch no freq divs).best.Sane := by
  rcases pllSearch_best no freq divs with ⟨h,_⟩ | ⟨h,_⟩
  · rw [h]
    exact sane_start
  · exact sane_of_mem (List.argmin_mem h)

theorem base_pos (s : Setting) : 0 < (s.divr + 1) * 2 ^ s.divq :=
  Nat.mul_pos (Nat.succ_pos _) (Nat.two_pow_pos _)

theorem Setting.Sane.base_le (h : s.Sane) : (s.divr + 1) * 2 ^ s.divq ≤ 2 * 2 ^ 7 :=
  Nat.mul_le_mul (Nat.succ_le_succ h.divr) (Nat.pow_le_pow_right (by decide) h.divq)

def Setting.root (s : Setting) : Nat :=
  srcFreq * (s.divf + 1) * 1000000 / ((s.divr + 1) * 2 ^ s.divq)

theorem Setting.Sane.root_ge (h : s.Sane) : 7812500 ≤ s.root :=
  (Nat.le_div_iff_mul_le (base_pos s)).mpr h.low

theorem Setting.Sane.root_lt (h : s.Sane) : s.root < 2 ^ 31 :=
  (Nat.div_lt_iff_lt_mul (base_pos s)).mpr h.high

theorem root_doDiv (h : s.Sane) {div : Nat} (hdiv : div ≤ 2048) :
    doDiv (srcFreq * (s.divf + 1) * 1000000) ((s.divr + 1) * 2 ^ s.divq * div) = s.root / div := by
  rw [doDiv_eq,Setting.root,Nat.div_div_eq_div_mul]
  calc (s.divr + 1) * 2 ^ s.divq * div ≤ 2 * 2 ^ 7 * 2048 := Nat.mul_le_mul h.base_le hdiv
    _ < 2 ^ 32 := by decide

theorem freq_eq (h : s.Sane) (hdiv : s.div ≤ 2048) : s.freq = s.root / s.div := by
  rw [← root_doDiv h hdiv,Setting.freq,Setting.base,Nat.mul_comm _ s.div,Nat.mul_assoc s.div]

theorem pllWord_fields (h : s.Sane) : pllFreq (pllWord s) = srcFreq * (s.divf + 1) * 1000000 ∧
    pllBase (pllWord s) = (s.divr + 1) * 2 ^ s.divq := by
  have hf := h.divf
  have hr := h.divr
  have hq := h.divq
  have divf : pllDivf (pllWord s) = s.divf := by
    unfold pllDivf pllWord
    omega
  have divr : pllDivr (pllWord s) = s.divr := by
    unfold pllDivr pllWord
    omega
  have divq : pllDivq (pllWord s) = s.divq := by
    unfold pllDivq pllWord
    omega
  unfold pllFreq pllBase
  rw [divf,divr,divq]
  exact ⟨rfl,rfl⟩

theorem getFreq_pll (hd : calcPllNum dev = (no,offs)) (hn : no < 5) (h : s.Sane)
    (hp : r.pll no = pllWord s) :
    (getFreq dev r).ret = toInt (s.root / getDivisor dev (r.divByte offs)) := by
  obtain ⟨hf,hb⟩ := pllWord_fields h
  rw [getFreq_ret hd hn,hp,hf,hb,root_doDiv h (getDivisor_le dev _)]

/-- A setting with the divisor 32 comes as close to the request as any other. -/
def Best32 (no freq : Nat) : Prop :=
  ∃ s ∈ settings (pllDivisors no), s.div = 32 ∧ s.divq = 7 ∧ cost no freq s < limit ∧
    ∀ t ∈ settings (pllDivisors no), cost no freq s ≤ cost no freq t

def outer : List (Nat × Nat) :=
  [1, 0].flatMap fun dr => [7, 6, 5, 4, 3, 2, 1, 0].map fun dq => (dr, dq)

def block (divs : List Nat) (p : Nat × Nat) : List Setting :=
  divs.flatMap fun vd => row ⟨0, p.1, p.2, vd⟩ (List.range 256)

theorem settings_blocks (divs : List Nat) : settings divs = outer.flatMap (block divs) := by
  simp only [settings,loopOrder,outer,block,List.flatMap_assoc,List.flatMap_map]

theorem mem_block (h : s ∈ block divs p) : (s.divr,s.divq) = p := by
  obtain ⟨vd,_,hs⟩ := List.mem_flatMap.mp h
  obtain ⟨df,_,rfl,_⟩ := mem_row.mp hs
  rfl

theorem outer_before : ∀ p ∈ outer, p.2 < 7 → (p.1, p.2 + 1) ∈ outer.takeWhile (· ≠ p) := by decide

theorem mem_outer (hr : dr ≤ 1) (hq : dq ≤ 7) : (dr,dq) ∈ outer := by
  simp only [outer,List.mem_flatMap,List.mem_map,Prod.mk.injEq]
  exact ⟨dr,by simp; omega,dq,by simp; omega,rfl,rfl⟩

theorem idxOf_larger {divs : List Nat} (ht : t ∈ settings divs) (hs : s ∈ settings divs)
    (hr : t.divr = s.divr) (hq : t.divq = s.divq + 1) :
    (settings divs).idxOf t < (settings divs).idxOf s := by
  have hs' := mem_settings.mp hs
  have ht' := mem_settings.mp ht
  have before := outer_before (s.divr,s.divq) (mem_outer hs'.2.1 hs'.2.2.1) (by dsimp only; omega)
  rw [settings_blocks,← List.takeWhile_append_dropWhile (p := (· ≠ (s.divr,s.divq))) (l := outer),
    List.flatMap_append]
  apply First.idxOf_append_lt
  · apply List.mem_flatMap.mpr
    refine ⟨_,before,?_⟩
    apply List.mem_flatMap.mpr
    refine ⟨t.div,ht'.2.2.2.1,mem_row.mpr ⟨t.divf,List.mem_range.mpr ht'.1,?_,ht'.2.2.2.2⟩⟩
    cases t
    simp_all
  · intro h
    obtain ⟨p,hp,hb⟩ := List.mem_flatMap.mp h
    have ne := List.mem_takeWhile_imp hp
    rw [mem_block hb] at ne
    simp at ne

theorem mem_pllDivisors (no : Nat) : 32 ∈ pllDivisors no ∧ 16 ∈ pllDivisors no := by
  unfold pllDivisors
  generalize (no == 2) = b
  cases b <;> decide

theorem pllDivisors_bounds (h : vd ∈ pllDivisors no) : 0 < vd ∧ vd ≤ 32 := by
  have := List.mem_reverse.mp (List.mem_filter.mp h).1
  rw [List.mem_range'_1] at this
  omega

theorem settings_first (no : Nat) :
    ∃ rest, settings (pllDivisors no) = row ⟨0,1,7,32⟩ (List.range 256) ++ rest := by
  have head : ∃ tail, pllDivisors no = 32 :: tail := by
    unfold pllDivisors
    generalize (no == 2) = b
    cases b <;> exact ⟨_,rfl⟩
  obtain ⟨tail,h⟩ := head
  refine ⟨?_,?_⟩
  rotate_left
  · rw [settings_blocks,h]
    simp only [outer,List.flatMap_cons,List.map_cons,List.cons_append,block,List.append_assoc]
    rfl

theorem freq_twin (hs : s.div = 32) :
    Setting.freq { s with divq := s.divq + 1, div := 16 } = s.freq := by
  unfold Setting.freq Setting.base
  dsimp only
  rw [hs,Nat.pow_succ]
  congr 1
  ring

theorem freq_double (hr : s.divr = 0) (hq : s.divq = 7) (hs : s.div = 32) :
    Setting.freq { s with divf := 2 * s.divf + 1, divr := 1 } = s.freq := by
  unfold Setting.freq Setting.base
  dsimp only
  rw [hr,hq,hs,doDiv_eq (by decide),doDiv_eq (by decide)]
  unfold srcFreq
  omega

theorem cost_congr {f : Nat} (h : t.freq = s.freq) : cost no f t = cost no f s := by
  unfold cost
  rw [h]

theorem best_div (no f : Nat) : (pllSearch no f (pllDivisors no)).best.div = 32 ↔ Best32 no f := by
  rcases pllSearch_best no f (pllDivisors no) with ⟨start,all⟩ | ⟨best,less⟩
  · rw [start]
    apply iff_of_false (by decide)
    rintro ⟨s,hs,_,_,lt,_⟩
    exact absurd (all s hs) (Nat.not_le.mpr lt)
  generalize (pllSearch no f (pllDivisors no)).best = m at *
  obtain ⟨mem,least,first⟩ := List.mem_argmin_iff.mp best
  have hm := mem_settings.mp mem
  constructor
  · intro div
    refine ⟨m,mem,div,?_,less,least⟩
    by_contra ne
    have lt : m.divq < 7 := by omega
    have same : cost no f { m with divq := m.divq + 1, div := 16 } = cost no f m :=
      cost_congr (freq_twin div)
    have twin : { m with divq := m.divq + 1, div := 16 } ∈ settings (pllDivisors no) :=
      mem_settings.mpr ⟨hm.1,hm.2.1,lt,(mem_pllDivisors no).2,hm.2.2.2.2⟩
    exact absurd (first _ twin same.le) (Nat.not_le.mpr (idxOf_larger twin mem rfl rfl))
  · rintro ⟨s,hs,div,hq,_,least'⟩
    obtain ⟨rest,split⟩ := settings_first no
    have hs' := mem_settings.mp hs
    have early : ∃ t ∈ row ⟨0,1,7,32⟩ (List.range 256), cost no f t = cost no f s := by
      rcases Nat.le_one_iff_eq_zero_or_eq_one.mp hs'.2.1 with hr | hr
      · obtain ⟨low,high⟩ := of_decide_eq_true hs'.2.2.2.2
        rw [hr,Nat.zero_add,Nat.div_one] at low high
        unfold srcFreq at low high
        refine ⟨_,mem_row.mpr ⟨2 * s.divf + 1,?_,rfl,?_⟩,?_⟩
        · rw [List.mem_range]
          omega
        · apply decide_eq_true
          unfold srcFreq
          dsimp only
          omega
        · apply cost_congr
          rw [← freq_double hr hq div,div,hq]
      · refine ⟨s,mem_row.mpr ⟨s.divf,List.mem_range.mpr hs'.1,?_,hs'.2.2.2.2⟩,rfl⟩
        cases s
        simp_all
    obtain ⟨t,ht,same⟩ := early
    have memT : t ∈ settings (pllDivisors no) := split ▸ List.mem_append_left _ ht
    have le := first t memT (same.le.trans (least' m mem))
    rw [split] at le
    obtain ⟨df,_,rfl,_⟩ := mem_row.mp (First.mem_of_idxOf_le ht le)
    rfl

end Apc8750.Clock
