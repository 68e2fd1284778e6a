import Apc8750.Mtd.Search

namespace Apc8750.Mtd

section Writes

variable {t : Times} {clk hold thold : Nat}

/-- The loop for the write count ends, also where `tADL - tWP` wraps. -/
def Writes (t : Times) (clk : Nat) : Prop := t.tWP ≤ t.tADL ∨ 2 * Nat.gcd clk (2 ^ 31) < t.tWP - t.tADL

theorem stops_plain (small : t.Small) (pos : 0 < clk) (bound : clk ≤ 400) (le : t.tWP ≤ t.tADL) :
    Stops t clk 265 := by
  have := small.tWP
  have := small.tADL
  exact (stops_iff small le bound le_rfl).mpr ⟨by omega,by omega⟩

theorem writes_iff (small : t.Small) (pos : 0 < clk) (bound : clk ≤ 400) :
    (∃ thold, Whiles.Ends (writeRound t clk) (1, u32 (hold + 256 * 1)) thold) ↔ Writes t clk := by
  constructor
  · rintro ⟨thold,ends⟩
    rcases Nat.lt_or_ge t.tADL t.tWP with lt | le
    · obtain ⟨i,_,stops,_⟩ := stops_of_ends ends
      exact .inr (stops_gcd small lt stops)
    · exact .inl le
  rintro (le | divisor)
  · obtain ⟨thold,ends,_⟩ := write_ends hold (by decide) (stops_plain small pos bound le) (by decide)
    exact ⟨thold,ends⟩
  · obtain ⟨n,one,lt,stops⟩ := exists_stop small (by omega) pos bound divisor
    obtain ⟨thold,ends,_⟩ := write_ends hold lt stops one
    exact ⟨thold,ends⟩

theorem write_covers (small : t.Small) (pos : 0 < clk) (short : clk ≤ 45) (byte : hold < 256)
    (ends : Whiles.Ends (writeRound t clk) (1, u32 (hold + 256 * 1)) thold) :
    thold &&& 0xFF = hold ∧ t.tWP + maxWriteDelay < (thold >>> 8) * clk ∧
      (t.tADL : Int) - t.tWP < ((2 * (thold >>> 8) + 2) * clk : Nat) := by
  have low : ∀ i, u32 (hold + 256 * i) &&& 0xFF = hold := by
    intro i
    rw [show 0xFF = 2 ^ 8 - 1 from rfl,Nat.and_two_pow_sub_one_eq_mod,u32]
    omega
  have high : ∀ i, u32 (hold + 256 * i) >>> 8 = i % 2 ^ 24 := by
    intro i
    rw [Nat.shiftRight_eq_div_pow,u32]
    omega
  rcases Nat.lt_or_ge t.tADL t.tWP with lt | le
  · obtain ⟨i,_,stops,rfl⟩ := stops_of_ends ends
    obtain ⟨near,_⟩ := (stops_below small lt).mp stops
    rw [low,high]
    refine ⟨rfl,?_,?_⟩
    · by_contra few
      have := small.tWP
      have split : (i * 2 + 2) * clk = 2 ^ 25 * (i / 2 ^ 24 * clk) + 2 * (i % 2 ^ 24 * clk) + 2 * clk := by
        conv_lhs => rw [← Nat.div_add_mod i (2 ^ 24)]
        ring
      rw [split] at near
      generalize i / 2 ^ 24 * clk = a at near
      generalize i % 2 ^ 24 * clk = b at near few
      unfold maxWriteDelay at few
      unfold u32 at near
      omega
    · omega
  · obtain ⟨thold',ends',i,near,stops,rfl⟩ :=
      write_ends hold (by decide) (stops_plain small pos (by omega) le) (by decide)
    obtain rfl := ends.unique ends'
    obtain ⟨setup,pulse⟩ := (stops_iff small le (by omega) near).mp stops
    rw [low,high,Nat.mod_eq_of_lt (by omega)]
    refine ⟨rfl,pulse,?_⟩
    rw [Nat.mul_comm i 2] at setup
    omega

end Writes

section Calc

variable {pll writesize fuel d thold : Nat} {t : Times} {r : Result}

theorem calc_zero (zero : pll = 0) : calcClock fuel pll writesize t = none :=
  if_pos (by rw [zero,Nat.zero_mul])

theorem calc_large (large : 40 ≤ pll) : calcClock fuel pll writesize t = none := by
  have clock : clockOf pll (firstDivisor pll) = 0 := by
    rw [firstDivisor_zero large]
    exact Nat.zero_div _
  simp only [calcClock]
  rw [clock,holdCount_zero]
  split <;> rfl

theorem calc_mono {m n : Nat} (le : m ≤ n) (h : calcClock m pll writesize t = some r) :
    calcClock n pll writesize t = some r := by
  simp only [calcClock] at h ⊢
  by_cases zero : pll * sourceClock = 0
  · rw [if_pos zero] at h
    cases h
  rw [if_neg zero] at h ⊢
  obtain ⟨hold,holds,h⟩ := Option.bind_eq_some_iff.mp h
  obtain ⟨best,searched,h⟩ := Option.bind_eq_some_iff.mp h
  obtain ⟨thold,written,rfl⟩ := Option.map_eq_some_iff.mp h
  have searched' := Whiles.run_mono le (Whiles.run_congr (searchRound_mono le) searched)
  rw [holdCount_mono le holds,Option.bind_some,searched',Option.bind_some,Whiles.run_mono le written]
  rfl

variable (pos : 0 < pll) (lt : pll < 40) (small : t.Small)

include pos lt small

theorem calc_eq (enough : 256 ≤ fuel) : calcClock fuel pll writesize t =
    (Whiles.run (searchRound fuel pll writesize t) fuel (start pll t)).bind fun best =>
      (Whiles.run (writeRound t best.clk) fuel (1, best.hold ||| 0x100)).map (best.result pll) := by
  obtain ⟨_,le,long,short,_⟩ := first_of_lt pos lt
  have clock : clockOf pll (firstDivisor pll) = nanoseconds pll (firstDivisor pll) := clockOf_eq (by omega)
  have found : (firstT (nanoseconds pll (firstDivisor pll)) (t.tREA + maxReadDelay) 10).getD 10 =
      (settingAt pll t (firstDivisor pll)).T := by
    rw [firstT_eq (by omega) (by omega) (by unfold maxReadDelay; omega) le_rfl,settingAt]
    split
    · rename_i fewer
      rw [Option.getD_some,min_eq_right fewer.le]
    · rename_i more
      rw [Option.getD_none,min_eq_left (not_lt.mp more)]
  have some_clock : ¬ pll * sourceClock = 0 := by
    unfold sourceClock
    omega
  simp only [calcClock]
  rw [if_neg some_clock,clock,found,holdCount_eq (by omega) (by omega) small.tREH enough]
  rfl

theorem hold_or (h : firstDivisor pll ≤ d) : (settingAt pll t d).hold ≤ 18 ∧
    (settingAt pll t d).hold ||| 0x100 = u32 ((settingAt pll t d).hold + 256 * 1) := by
  have long := nanoseconds_pos pos lt h
  have few : (settingAt pll t d).hold ≤ 18 := by
    have : t.tREH / nanoseconds pll d ≤ 255 / 15 := Nat.div_le_div small.tREH long (by decide)
    simp only [settingAt]
    omega
  have either := Nat.two_pow_add_eq_or_of_lt (show (settingAt pll t d).hold < 2 ^ 8 by omega) 1
  rw [u32_of_lt (by omega),Nat.or_comm,Nat.add_comm]
  exact ⟨few,either.symm⟩

/-- The loop for the write count, on the setting of a divisor, ends with this `*Thold`. -/
def WriteEnds (pll : Nat) (t : Times) (d thold : Nat) : Prop :=
  Whiles.Ends (writeRound t (nanoseconds pll d)) (1, u32 ((settingAt pll t d).hold + 256 * 1)) thold

theorem calc_iff (chosen : Chosen pll writesize t d) : (∃ fuel, calcClock fuel pll writesize t = some r) ↔
    ∃ thold, WriteEnds pll t d thold ∧ (settingAt pll t d).result pll thold = r := by
  have word := (hold_or pos lt small chosen.first_le).2
  have found : ∀ fuel, 256 ≤ fuel →
      Whiles.Ends (searchRound fuel pll writesize t) (start pll t) (settingAt pll t d) := by
    intro fuel enough
    obtain ⟨best,ends,e,chosen',rfl⟩ := search_ends writesize pos lt small enough
    rwa [chosen.unique chosen']
  constructor
  · rintro ⟨fuel,h⟩
    have more := calc_mono (Nat.le_max_left fuel 256) h
    have enough : 256 ≤ max fuel 256 := Nat.le_max_right _ _
    rw [calc_eq pos lt small enough] at more
    obtain ⟨best,searched,more⟩ := Option.bind_eq_some_iff.mp more
    obtain rfl := Whiles.Ends.unique ⟨_,searched⟩ (found _ enough)
    obtain ⟨thold,written,rfl⟩ := Option.map_eq_some_iff.mp more
    rw [word] at written
    exact ⟨thold,⟨_,written⟩,rfl⟩
  · rintro ⟨thold,⟨m,written⟩,rfl⟩
    obtain ⟨n,searched⟩ := found 256 le_rfl
    have enough : 256 ≤ max 256 (max m n) := Nat.le_max_left _ _
    refine ⟨max 256 (max m n),?_⟩
    have searched' := Whiles.run_mono (show n ≤ max 256 (max m n) by omega)
      (Whiles.run_congr (searchRound_mono enough) searched)
    have written' := Whiles.run_mono (show m ≤ max 256 (max m n) by omega) written
    rw [calc_eq pos lt small enough,searched',Option.bind_some,word]
    exact Option.map_eq_some_iff.mpr ⟨thold,written',rfl⟩

end Calc

structure Programmed (pll : Nat) (t : Times) (r : Result) : Prop where
  speed : pll * sourceClock / r.divisor ≤ maxSpeedMhz
  access : t.tREA + maxReadDelay ≤ r.T * nanoseconds pll r.divisor
  hold : t.tREH < (r.thold &&& 0xFF) * nanoseconds pll r.divisor
  pulse : t.tWP + maxWriteDelay < (r.thold >>> 8) * nanoseconds pll r.divisor
  setup : (t.tADL : Int) - t.tWP < ((2 * (r.thold >>> 8) + 2) * nanoseconds pll r.divisor : Nat)

/-- A first divisor whose ten clocks suffice or are replaced, and a write loop that ends. -/
structure Suits (pll writesize : Nat) (t : Times) : Prop where
  pos : 0 < pll
  lt : pll < 40
  reads : t.tREA + maxReadDelay ≤ 10 * nanoseconds pll (firstDivisor pll) ∨
    ∃ d, Candidate pll t d ∧ cost pll writesize t d < cost pll writesize t (firstDivisor pll)
  writes : ∃ d, Chosen pll writesize t d ∧ Writes t (nanoseconds pll d)

section Sound

variable {pll writesize d thold : Nat} {t : Times} (pos : 0 < pll) (lt : pll < 40)

include pos lt

theorem Chosen.slow (h : Chosen pll writesize t d) : pll * sourceClock / d ≤ maxSpeedMhz :=
  (Nat.div_le_div_left h.first_le (first_of_lt pos lt).pos).trans (first_of_lt pos lt).slow

theorem result_ok (h : Chosen pll writesize t d) :
    ((settingAt pll t d).result pll thold).ret = 0 ↔ nanoseconds pll d ≤ 45 := by
  have slow := h.slow pos lt
  have long := nanoseconds_pos pos lt h.first_le
  have count := one_le_count (t := t) pos lt h.first_le
  change (if maxSpeedMhz < pll * sourceClock / d ∨ nanoseconds pll d = 0 ∨ (settingAt pll t d).T = 0 ∨
      nanoseconds pll d > 45 then 1 else 0) = 0 ↔ _
  split
  · exact iff_of_false Nat.one_ne_zero (by omega)
  · exact iff_of_true rfl (by omega)

theorem Chosen.covers_iff (h : Chosen pll writesize t d) :
    (nanoseconds pll d ≤ 45 → t.tREA + maxReadDelay ≤ (settingAt pll t d).T * nanoseconds pll d) ↔
      t.tREA + maxReadDelay ≤ 10 * nanoseconds pll (firstDivisor pll) ∨
        ∃ d, Candidate pll t d ∧ cost pll writesize t d < cost pll writesize t (firstDivisor pll) := by
  obtain ⟨o,kept,rfl⟩ := h
  obtain ⟨_,_,long,short,_⟩ := first_of_lt pos lt
  cases o with
  | none =>
    have dear : ¬ ∃ d, Candidate pll t d ∧ cost pll writesize t d < cost pll writesize t (firstDivisor pll) := by
      rintro ⟨d,candidate,less⟩
      exact absurd (kept d candidate) (not_le.mpr less)
    rw [Option.getD_none,or_iff_left dear,forall_prop_of_true (by omega),settingAt]
    constructor
    · exact fun covers => covers.trans (Nat.mul_le_mul_right _ (min_le_left _ _))
    intro covers
    rw [Nat.mul_comm] at covers ⊢
    rw [min_eq_right ((ceilDiv_le_iff_le_mul (by omega)).mpr covers)]
    exact (ceilDiv_le_iff_le_mul (by omega)).mp le_rfl
  | some d =>
    exact iff_of_true (fun _ => Candidate.covers pos lt kept.1) (.inr ⟨d,kept.1,kept.2.1⟩)

variable (small : t.Small)

include small

theorem chosen_exists (writesize : Nat) : ∃ d, Chosen pll writesize t d := by
  obtain ⟨_,_,d,chosen,_⟩ := search_ends writesize pos lt small (le_refl 256)
  exact ⟨d,chosen⟩

theorem programmed_iff (h : Chosen pll writesize t d) (short : nanoseconds pll d ≤ 45)
    (ends : WriteEnds pll t d thold) : Programmed pll t ((settingAt pll t d).result pll thold) ↔
      t.tREA + maxReadDelay ≤ (settingAt pll t d).T * nanoseconds pll d := by
  refine ⟨fun programmed => programmed.access,fun access => ?_⟩
  have long := nanoseconds_pos pos lt h.first_le
  have few := (hold_or pos lt small h.first_le).1
  obtain ⟨low,pulse,setup⟩ := write_covers small (by omega) short (by omega) ends
  refine ⟨h.slow pos lt,access,?_,pulse,setup⟩
  change _ < (thold &&& 0xFF) * nanoseconds pll d
  rw [low]
  exact Nat.lt_mul_of_div_lt (Nat.lt_succ_self _) (by omega)

omit pos lt

theorem sound_iff (pll writesize : Nat) (extra : Nat → Prop) :
    (∃ fuel r, calcClock fuel pll writesize t = some r ∧
        (r.ret = 0 → Programmed pll t r ∧ extra r.divisor)) ↔
      Suits pll writesize t ∧
        ∃ d, Chosen pll writesize t d ∧ (nanoseconds pll d ≤ 45 → extra d) := by
  constructor
  · rintro ⟨fuel,r,h,sound⟩
    have pos : 0 < pll := by
      by_contra zero
      rw [calc_zero (Nat.eq_zero_of_not_pos zero)] at h
      cases h
    have lt : pll < 40 := by
      by_contra large
      rw [calc_large (not_lt.mp large)] at h
      cases h
    obtain ⟨d,chosen⟩ := chosen_exists pos lt small writesize
    obtain ⟨thold,ends,rfl⟩ := (calc_iff pos lt small chosen).mp ⟨fuel,h⟩
    rw [result_ok pos lt chosen] at sound
    have long := nanoseconds_pos pos lt chosen.first_le
    have bound := chosen.bound pos lt small
    refine ⟨⟨pos,lt,?_,d,chosen,?_⟩,d,chosen,fun short => (sound short).2⟩
    · exact (chosen.covers_iff pos lt).mp fun short => (sound short).1.access
    · exact (writes_iff small (by omega) (by omega)).mp ⟨thold,ends⟩
  · rintro ⟨⟨pos,lt,reads,e,chosen',writes⟩,d,chosen,more⟩
    obtain rfl := chosen.unique chosen'
    have long := nanoseconds_pos pos lt chosen.first_le
    have bound := chosen.bound pos lt small
    obtain ⟨thold,ends⟩ := (writes_iff small (by omega) (by omega)).mpr writes
    obtain ⟨fuel,h⟩ := (calc_iff pos lt small chosen).mpr ⟨thold,ends,rfl⟩
    refine ⟨fuel,_,h,fun accepted => ?_⟩
    have short := (result_ok pos lt chosen).mp accepted
    have covers := (chosen.covers_iff pos lt).mpr reads short
    exact ⟨(programmed_iff pos lt small chosen short ends).mpr covers,more short⟩

end Sound

/-- `wmt_calc_clock` programs what the chip needs exactly under `Suits`, without rounding in the
second part. -/
theorem calc_clock_sound (reg spec writesize : Nat) :
    ((∃ fuel r, wmtCalcClock fuel reg spec writesize = some r ∧
        (r.ret = 0 → Programmed (pllFactor reg) (times spec) r)) ↔
      Suits (pllFactor reg) writesize (times spec)) ∧
    ((∃ fuel r, wmtCalcClock fuel reg spec writesize = some r ∧
        (r.ret = 0 → Programmed (pllFactor reg) (times spec) r ∧
          pllFactor reg * sourceClock ≤ maxSpeedMhz * r.divisor)) ↔
      Suits (pllFactor reg) writesize (times spec) ∧
        ∃ d, Chosen (pllFactor reg) writesize (times spec) d ∧
          (nanoseconds (pllFactor reg) d ≤ 45 → pllFactor reg * sourceClock ≤ maxSpeedMhz * d)) := by
  have small := times_small spec
  refine ⟨?_, sound_iff small _ writesize fun d => pllFactor reg * sourceClock ≤ maxSpeedMhz * d⟩
  have plain := sound_iff small (pllFactor reg) writesize fun _ => True
  simp only [and_true, implies_true] at plain
  exact plain.trans ⟨And.left, fun suits => ⟨suits, chosen_exists suits.pos suits.lt small writesize⟩⟩

/-- Factors of zero and 40, and ten clocks that are too short. -/
theorem calc_clock_unsound :
    (∀ fuel, wmtCalcClock fuel 0x00000007 0x140A0C46 2048 = none) ∧
      (∀ fuel, wmtCalcClock fuel 0x00270000 0x140A0C46 2048 = none) ∧
      wmtCalcClock 300 0x00260000 0xFF000000 2048 = some ⟨0, 10, 15, 0x101⟩ ∧
        10 * nanoseconds (pllFactor 0x00260000) 15 < (times 0xFF000000).tREA + maxReadDelay := by
  refine ⟨fun fuel => calc_zero ?_, fun fuel => calc_large ?_, ?_, ?_⟩
  · decide
  · decide
  · decide +kernel
  · decide

end Apc8750.Mtd
