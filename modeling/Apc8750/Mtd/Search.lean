import Apc8750.Library.Scans
import Apc8750.Mtd.Timing

namespace Apc8750.Mtd

def nanoseconds (pll d : Nat) : Nat := 1000 * d / (pll * sourceClock)

def settingAt (pll : Nat) (t : Times) (d : Nat) : Setting where
  T := min 10 ((t.tREA + maxReadDelay) ⌈/⌉ nanoseconds pll d)
  clk := nanoseconds pll d
  divisor := d
  hold := t.tREH / nanoseconds pll d + 1

def Candidate (pll : Nat) (t : Times) (d : Nat) : Prop :=
  firstDivisor pll < d ∧ (settingAt pll t d).T < (settingAt pll t (d - 1)).T

def cost (pll writesize : Nat) (t : Times) (d : Nat) : Nat := pageTime writesize (settingAt pll t d)

def Chosen (pll writesize : Nat) (t : Times) (d : Nat) : Prop :=
  ∃ o, Scans.Kept (cost pll writesize t) (· < ·) (cost pll writesize t (firstDivisor pll))
    {d | Candidate pll t d} o ∧ d = o.getD (firstDivisor pll)

section Divisors

theorem nanoseconds_eq (pll d : Nat) : nanoseconds pll d = 40 * d / pll := by
  unfold nanoseconds sourceClock
  rw [show 1000 * d = 40 * d * 25 by ring]
  exact Nat.mul_div_mul_right _ _ (by decide)

theorem nanoseconds_mono (le : d ≤ e) : nanoseconds pll d ≤ nanoseconds pll e :=
  Nat.div_le_div_right (Nat.mul_le_mul_left 1000 le)

theorem nanoseconds_succ (pos : 0 < pll) : nanoseconds pll (d + 1) ≤ nanoseconds pll d + 40 := by
  rw [nanoseconds_eq,nanoseconds_eq,← Nat.add_mul_div_right _ _ pos]
  exact Nat.div_le_div_right (by omega)

theorem divisor_le (pos : 0 < pll) (lt : pll < 40) (short : nanoseconds pll d < 264) : d ≤ 257 := by
  rw [nanoseconds_eq,Nat.div_lt_iff_lt_mul pos] at short
  omega

theorem clockOf_eq (le : d ≤ 1000) : clockOf pll d = nanoseconds pll d := by
  unfold clockOf nanoseconds
  rw [u32_of_lt (by omega)]

structure First (pll : Nat) : Prop where
  pos : 0 < firstDivisor pll
  le : firstDivisor pll ≤ 15
  long : 15 ≤ nanoseconds pll (firstDivisor pll)
  short : nanoseconds pll (firstDivisor pll) ≤ 40
  slow : pll * sourceClock / firstDivisor pll ≤ maxSpeedMhz

theorem first_of_lt (pos : 0 < pll) (lt : pll < 40) : First pll := by
  have all : ∀ p < 40, 0 < p → 0 < firstDivisor p ∧ firstDivisor p ≤ 15 ∧ 15 ≤ nanoseconds p (firstDivisor p) ∧
      nanoseconds p (firstDivisor p) ≤ 40 ∧ p * sourceClock / firstDivisor p ≤ maxSpeedMhz := by decide
  obtain ⟨h₁,h₂,h₃,h₄,h₅⟩ := all pll lt pos
  exact ⟨h₁,h₂,h₃,h₄,h₅⟩

theorem firstDivisor_zero (large : 40 ≤ pll) : firstDivisor pll = 0 := by
  have none : (List.range' 1 15).find? (fun i => decide (maxSpeedMhz ≥ pll * sourceClock / i)) = none := by
    rw [List.find?_range'_eq_none]
    intro i one fifteen
    have : 66 ≤ pll * sourceClock / i := by
      rw [Nat.le_div_iff_mul_le (by omega),sourceClock]
      omega
    simp only [maxSpeedMhz]
    simpa using by omega
  rw [firstDivisor,none]
  rfl

end Divisors

section Counts

variable (pos : 0 < pll) (lt : pll < 40)

include pos lt

theorem nanoseconds_pos (le : firstDivisor pll ≤ d) : 15 ≤ nanoseconds pll d :=
  (first_of_lt pos lt).long.trans (nanoseconds_mono le)

theorem one_le_count (le : firstDivisor pll ≤ d) : 1 ≤ (settingAt pll t d).T := by
  have long := nanoseconds_pos pos lt le
  by_contra none
  have zero : (t.tREA + maxReadDelay) ⌈/⌉ nanoseconds pll d ≤ 0 := by
    simp only [settingAt] at none
    omega
  rw [ceilDiv_le_iff_le_mul (by omega),maxReadDelay] at zero
  omega

theorem count_anti (from_first : firstDivisor pll ≤ d) (le : d ≤ e) :
    (settingAt pll t e).T ≤ (settingAt pll t d).T := by
  have long := nanoseconds_pos pos lt from_first
  have longer : nanoseconds pll d ≤ nanoseconds pll e := nanoseconds_mono le
  refine min_le_min le_rfl ?_
  rw [ceilDiv_le_iff_le_mul (by omega)]
  exact ((ceilDiv_le_iff_le_mul (by omega)).mp le_rfl).trans (Nat.mul_le_mul_right _ longer)

theorem short_of_count (small : t.Small) (le : firstDivisor pll ≤ d) (more : 1 < (settingAt pll t d).T) :
    nanoseconds pll d < 264 ∧ d ≤ 257 := by
  have long := nanoseconds_pos pos lt le
  have := small.tREA
  have uncovered : ¬ (t.tREA + maxReadDelay) ⌈/⌉ nanoseconds pll d ≤ 1 := by
    simp only [settingAt] at more
    omega
  rw [ceilDiv_le_iff_le_mul (by omega),maxReadDelay] at uncovered
  have short : nanoseconds pll d < 264 := by omega
  exact ⟨short,divisor_le pos lt short⟩

theorem Candidate.covers (h : Candidate pll t d) :
    t.tREA + maxReadDelay ≤ (settingAt pll t d).T * nanoseconds pll d := by
  have long := nanoseconds_pos pos lt h.1.le
  have fewer := h.2
  have whole : (settingAt pll t d).T = (t.tREA + maxReadDelay) ⌈/⌉ nanoseconds pll d := by
    simp only [settingAt] at fewer ⊢
    omega
  rw [whole,Nat.mul_comm]
  exact (ceilDiv_le_iff_le_mul (by omega)).mp le_rfl

theorem Candidate.bound (small : t.Small) (h : Candidate pll t d) : nanoseconds pll d ≤ 304 ∧ d ≤ 258 := by
  have := h.1
  have previous : firstDivisor pll ≤ d - 1 := by omega
  have many := (one_le_count (t := t) pos lt h.1.le).trans_lt h.2
  obtain ⟨short,le⟩ := short_of_count pos lt small previous many
  have step := nanoseconds_succ (d := d - 1) pos
  rw [Nat.sub_add_cancel (by omega)] at step
  omega

end Counts

def start (pll : Nat) (t : Times) : Search :=
  ⟨firstDivisor pll, (settingAt pll t (firstDivisor pll)).T, settingAt pll t (firstDivisor pll)⟩

structure Searching (pll writesize : Nat) (t : Times) (s : Search) : Prop where
  start : firstDivisor pll ≤ s.div2
  reach : s.div2 ≤ 258
  count : s.Ttmp = (settingAt pll t s.div2).T
  kept : ∃ o, Scans.Kept (cost pll writesize t) (· < ·) (cost pll writesize t (firstDivisor pll))
    {d | Candidate pll t d ∧ d ≤ s.div2} o ∧ s.best = settingAt pll t (o.getD (firstDivisor pll))

section Search

theorem pageTime_kept : pageTime writesize (settingAt pll t (o.getD (firstDivisor pll))) =
    Scans.least (cost pll writesize t) (cost pll writesize t (firstDivisor pll)) o := by
  cases o <;> rfl

theorem kept_from (h : Scans.Kept (cost pll writesize t) (· < ·) (cost pll writesize t (firstDivisor pll)) seen o)
    (candidates : ∀ d ∈ seen, Candidate pll t d) : firstDivisor pll ≤ o.getD (firstDivisor pll) := by
  cases o with
  | none => exact le_rfl
  | some d => exact (candidates d h.1).1.le

theorem searching_start (pos : 0 < pll) (lt : pll < 40) : Searching pll writesize t
    ⟨firstDivisor pll,(settingAt pll t (firstDivisor pll)).T,settingAt pll t (firstDivisor pll)⟩ where
  start := le_rfl
  reach := (first_of_lt pos lt).le.trans (by decide)
  count := rfl
  kept := by
    refine ⟨none,?_,rfl⟩
    rintro d ⟨candidate,le⟩
    exact absurd candidate.1 (not_lt.mpr le)

theorem Searching.skip (h : Searching pll writesize t s)
    (same : (settingAt pll t (s.div2 + 1)).T = (settingAt pll t s.div2).T) (short : s.div2 ≤ 257) :
    Searching pll writesize t { s with div2 := s.div2 + 1 } where
  start := h.start.trans (Nat.le_succ _)
  reach := Nat.succ_le_succ short
  count := h.count.trans same.symm
  kept := by
    obtain ⟨o,kept,best⟩ := h.kept
    refine ⟨o,?_,best⟩
    have seen : {d | Candidate pll t d ∧ d ≤ s.div2 + 1} = {d | Candidate pll t d ∧ d ≤ s.div2} := by
      ext d
      refine ⟨fun mem => ⟨mem.1,?_⟩,fun mem => ⟨mem.1,mem.2.trans (Nat.le_succ _)⟩⟩
      by_contra behind
      obtain rfl : d = s.div2 + 1 := by have := mem.2; omega
      exact absurd mem.1.2 (by rw [Nat.add_sub_cancel,same]; exact lt_irrefl _)
    simpa only [seen] using kept

theorem Searching.compare (h : Searching pll writesize t s) (short : s.div2 ≤ 257)
    (fewer : (settingAt pll t (s.div2 + 1)).T < (settingAt pll t s.div2).T) :
    Searching pll writesize t ⟨s.div2 + 1,(settingAt pll t (s.div2 + 1)).T,
      if pageTime writesize s.best > pageTime writesize (settingAt pll t (s.div2 + 1)) then
        settingAt pll t (s.div2 + 1)
      else s.best⟩ where
  start := h.start.trans (Nat.le_succ _)
  reach := Nat.succ_le_succ short
  count := rfl
  kept := by
    obtain ⟨o,kept,best⟩ := h.kept
    have candidate : Candidate pll t (s.div2 + 1) := ⟨Nat.lt_succ_of_le h.start,by rwa [Nat.add_sub_cancel]⟩
    have seen : {d | Candidate pll t d ∧ d ≤ s.div2 + 1} =
        insert (s.div2 + 1) {d | Candidate pll t d ∧ d ≤ s.div2} := by
      ext d
      constructor
      · rintro ⟨here,le⟩
        rcases Nat.le_succ_iff.mp le with le | rfl
        · exact .inr ⟨here,le⟩
        · exact .inl rfl
      · rintro (rfl | ⟨here,le⟩)
        · exact ⟨candidate,le_rfl⟩
        · exact ⟨here,le.trans (Nat.le_succ _)⟩
    have next := kept.insert (i := s.div2 + 1) (fun j mem => by have := mem.2; omega) (lt_irrefl _)
    refine ⟨_,by simpa only [seen] using next,?_⟩
    have cheaper_iff : pageTime writesize s.best > pageTime writesize (settingAt pll t (s.div2 + 1)) ↔
        cost pll writesize t (s.div2 + 1) <
          Scans.least (cost pll writesize t) (cost pll writesize t (firstDivisor pll)) o := by
      rw [best,pageTime_kept]
      rfl
    by_cases cheaper : pageTime writesize s.best > pageTime writesize (settingAt pll t (s.div2 + 1))
    · simp only [if_pos cheaper,if_pos (cheaper_iff.mp cheaper),Option.getD_some]
    · simp only [if_neg cheaper,if_neg (mt cheaper_iff.mpr cheaper)]
      exact best

theorem search_round (pos : 0 < pll) (lt : pll < 40) (small : t.Small) (enough : 256 ≤ fuel)
    (h : Searching pll writesize t s) :
    (∃ next, searchRound fuel pll writesize t s = some (.inl next) ∧ Searching pll writesize t next ∧
      258 - next.div2 < 258 - s.div2) ∨
    ∃ best, searchRound fuel pll writesize t s = some (.inr best) ∧
      ∃ d, Chosen pll writesize t d ∧ best = settingAt pll t d := by
  obtain ⟨o,kept,best⟩ := h.kept
  have clock : s.best.clk ≠ 0 := by
    have := nanoseconds_pos pos lt (kept_from kept fun d mem => mem.1)
    rw [best]
    exact Nat.ne_of_gt (Nat.lt_of_lt_of_le (by decide) this)
  by_cases more : 1 < (settingAt pll t s.div2).T
  · left
    obtain ⟨short,le⟩ := short_of_count pos lt small h.start more
    have longer := nanoseconds_succ (d := s.div2) pos
    have long := nanoseconds_pos (d := s.div2 + 1) pos lt (h.start.trans (Nat.le_succ _))
    have div2 : u32 (s.div2 + 1) = s.div2 + 1 := u32_of_lt (by omega)
    have clk2 : clockOf pll (s.div2 + 1) = nanoseconds pll (s.div2 + 1) := clockOf_eq (by omega)
    have most : (settingAt pll t s.div2).T ≤ 10 := min_le_left _ _
    have found : firstT (nanoseconds pll (s.div2 + 1)) (t.tREA + maxReadDelay) (settingAt pll t s.div2).T = _ :=
      firstT_eq (by omega) (by omega) (by unfold maxReadDelay; omega) most
    have hold : holdCount fuel (nanoseconds pll (s.div2 + 1)) t.tREH = _ :=
      holdCount_eq (by omega) (by omega) small.tREH enough
    have unfolded := searchRound.eq_def fuel pll writesize t s
    rw [if_pos ⟨by rw [h.count]; exact more,clock⟩] at unfolded
    simp only [div2,clk2,h.count] at unfolded
    by_cases fewer : (t.tREA + maxReadDelay) ⌈/⌉ nanoseconds pll (s.div2 + 1) < (settingAt pll t s.div2).T
    · rw [if_pos fewer] at found
      have count : (settingAt pll t (s.div2 + 1)).T = (t.tREA + maxReadDelay) ⌈/⌉ nanoseconds pll (s.div2 + 1) :=
        min_eq_right (fewer.le.trans most)
      simp only [found,hold,Option.map_some,← count] at unfolded
      exact ⟨_,unfolded,h.compare le (count ▸ fewer),by simp only; omega⟩
    rw [if_neg fewer] at found
    have falls : (settingAt pll t (s.div2 + 1)).T ≤ (settingAt pll t s.div2).T :=
      count_anti pos lt h.start (Nat.le_succ _)
    have same : (settingAt pll t (s.div2 + 1)).T = (settingAt pll t s.div2).T :=
      le_antisymm falls (le_min most (not_lt.mp fewer))
    simp only [found] at unfolded
    rw [← h.count] at unfolded
    exact ⟨_,unfolded,h.skip same le,by simp only; omega⟩
  · right
    have unfolded : searchRound fuel pll writesize t s = some (.inr s.best) := by
      rw [searchRound,if_neg (by rw [h.count]; omega)]
    refine ⟨_,unfolded,_,⟨o,?_,rfl⟩,best⟩
    have seen : {d | Candidate pll t d} = {d | Candidate pll t d ∧ d ≤ s.div2} := by
      ext d
      refine ⟨fun mem => ⟨mem,?_⟩,fun mem => mem.1⟩
      by_contra behind
      have fewer := mem.2.trans_le (count_anti (t := t) pos lt h.start (show s.div2 ≤ d - 1 by omega))
      have := one_le_count (t := t) pos lt mem.1.le
      omega
    rwa [seen]

theorem search_ends (writesize : Nat) (pos : 0 < pll) (lt : pll < 40) (small : t.Small) (enough : 256 ≤ fuel) :
    ∃ best, Whiles.Ends (searchRound fuel pll writesize t)
      ⟨firstDivisor pll,(settingAt pll t (firstDivisor pll)).T,settingAt pll t (firstDivisor pll)⟩ best ∧
      ∃ d, Chosen pll writesize t d ∧ best = settingAt pll t d :=
  Whiles.ends_of_measure (fun s => 258 - s.div2) (fun _ h => search_round pos lt small enough h)
    (searching_start pos lt)

theorem searchRound_mono (le : m ≤ n) (s : Search) (x : Search ⊕ Setting)
    (h : searchRound m pll writesize t s = some x) : searchRound n pll writesize t s = some x := by
  unfold searchRound at h ⊢
  by_cases more : s.Ttmp > 1 ∧ s.best.clk ≠ 0
  · rw [if_pos more] at h ⊢
    simp only at h ⊢
    split at h
    · exact h
    · obtain ⟨hold,done,result⟩ := Option.map_eq_some_iff.mp h
      rw [holdCount_mono le done]
      exact congrArg some result
  · rw [if_neg more] at h ⊢
    exact h

theorem Chosen.unique (h : Chosen pll writesize t d) (h' : Chosen pll writesize t e) : d = e := by
  obtain ⟨o,kept,rfl⟩ := h
  obtain ⟨o',kept',rfl⟩ := h'
  rw [kept.unique (fun i j => (lt_trichotomy i j).elim (.inr ∘ .inl) (Or.imp id .inr)) kept']

theorem Chosen.first_le (h : Chosen pll writesize t d) : firstDivisor pll ≤ d := by
  obtain ⟨o,kept,rfl⟩ := h
  exact kept_from kept fun _ mem => mem

theorem Chosen.bound (pos : 0 < pll) (lt : pll < 40) (small : t.Small) (h : Chosen pll writesize t d) :
    nanoseconds pll d ≤ 304 := by
  obtain ⟨o,kept,rfl⟩ := h
  cases o with
  | none => exact (first_of_lt pos lt).short.trans (by decide)
  | some d => exact (Candidate.bound pos lt small kept.1).1

end Search

end Apc8750.Mtd
