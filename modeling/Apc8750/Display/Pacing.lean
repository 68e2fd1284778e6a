import Apc8750.Display.Model
import Apc8750.Vpp.Model
import Mathlib.Algebra.BigOperators.Intervals
import Mathlib.Data.Nat.Factorization.Basic
import Mathlib.Tactic.Linarith
import Mathlib.Tactic.Ring

namespace Apc8750.Display
open Apc8750.Vpp Finset

def Sync.spread (x : Sync) (total frame : Nat) : Sync :=
  let step := total / frame
  let substep := if total % frame ≠ 0 then frame / (total % frame) else 0
  if step = substep then
    { x with frame, step := step + 1, substep := wrap (total - (step + 1) * frame), cnt := 1, vsync := step + 1 }
  else { x with frame, step, substep, cnt := 1, vsync := step }

/-- `vpp_fbsync_cal_fps` with the rates of the display and of the source. -/
def fbsyncCalFps (fuel : Nat) (govrh govw : Int) (x : Sync) : Option Sync :=
  (vppGetGcd fuel govrh govw).map fun gcd =>
    let total := unsigned govrh / unsigned gcd
    let frame := unsigned govw / unsigned gcd
    x.spread total (if frame > total then total else frame)

variable {x : Sync} {total frame : Nat}

def waitFor (x : Sync) (cnt : Int) : Int :=
  if x.substep < 0 then if cnt ≤ -x.substep then x.step - 1 else x.step
  else if x.substep ≠ 0 ∧ cnt ≠ 1 ∧ cnt.tmod x.substep = 0 then x.step + 1
  else x.step

/-- The syncs the `n`-th next frame waits for: `fbsync_vsync` when so many frames have been shown.
-/
def wait (x : Sync) (n : Nat) : Int := (Sync.next^[n] x).vsync

theorem next_spec (started : 1 ≤ x.cnt) : x.next.frame = x.frame ∧ x.next.step = x.step ∧ x.next.substep = x.substep ∧
    x.next.cnt = (if x.cnt + 1 > x.frame then 1 else x.cnt + 1) ∧ x.next.vsync = waitFor x x.next.cnt := by
  unfold Sync.next waitFor
  by_cases wraps : x.cnt + 1 > x.frame
  · simp only [if_pos wraps]
    by_cases negative : x.substep < 0
    · by_cases early : (1 : Int) ≤ -x.substep
      · simp [negative,early]
      · simp [negative,early]
    · simp [negative]
  have later : x.cnt + 1 ≠ 1 := by omega
  simp only [if_neg wraps]
  by_cases negative : x.substep < 0
  · by_cases early : x.cnt + 1 ≤ -x.substep
    · simp [negative,early]
    · simp [negative,early]
  by_cases extra : x.substep ≠ 0 ∧ (x.cnt + 1).tmod x.substep = 0
  · simp [negative,extra,later]
  · have none : ¬ (x.substep ≠ 0 ∧ x.cnt + 1 ≠ 1 ∧ (x.cnt + 1).tmod x.substep = 0) := by tauto
    simp only [if_neg negative,if_neg extra,if_neg none,and_self]

structure Started (x : Sync) (frame : Nat) : Prop where
  some : 0 < frame
  frame : x.frame = frame
  cnt : x.cnt = 1

theorem iterate_next (h : Started x frame) (n : Nat) :
    (Sync.next^[n] x).frame = x.frame ∧ (Sync.next^[n] x).step = x.step ∧ (Sync.next^[n] x).substep = x.substep ∧
      (Sync.next^[n] x).cnt = ((n % frame : Nat) : Int) + 1 := by
  induction n with
  | zero => exact ⟨rfl,rfl,rfl,by simp [h.cnt]⟩
  | succ n ih =>
    obtain ⟨same,step,substep,cnt⟩ := ih
    obtain ⟨same',step',substep',cnt',_⟩ := next_spec (x := Sync.next^[n] x) (by omega)
    rw [Function.iterate_succ_apply']
    refine ⟨same'.trans same,step'.trans step,substep'.trans substep,?_⟩
    have lt := Nat.mod_lt n h.some
    rw [cnt',cnt,same,h.frame,← Nat.mod_add_mod]
    by_cases last : n % frame + 1 = frame
    · rw [if_pos (by omega),last,Nat.mod_self]
      rfl
    · have next : (n % frame + 1) % frame = n % frame + 1 := Nat.mod_eq_of_lt (by omega)
      rw [if_neg (by omega),next]
      rfl

theorem wait_zero : wait x 0 = x.vsync := rfl

theorem wait_succ (h : Started x frame) (n : Nat) : wait x (n + 1) = waitFor x (((n + 1) % frame : Nat) + 1) := by
  obtain ⟨_,step,substep,cnt⟩ := iterate_next h n
  obtain ⟨_,_,_,_,vsync⟩ := next_spec (x := Sync.next^[n] x) (by omega)
  have later := (iterate_next h (n + 1)).2.2.2
  rw [Function.iterate_succ_apply'] at later
  rw [wait,Function.iterate_succ_apply',vsync,later,waitFor,waitFor,step,substep]

def period (x : Sync) (frame k : Nat) : Int := ∑ i ∈ range frame, wait x (k * frame + i)

theorem period_later (h : Started x frame) (k : Nat) :
    period x frame (k + 1) = ∑ i ∈ range frame, waitFor x (i + 1) := by
  refine sum_congr rfl fun i hi => ?_
  have lt := mem_range.mp hi
  have pos : 0 < (k + 1) * frame := Nat.mul_pos (Nat.succ_pos k) h.some
  obtain ⟨m,hm⟩ : ∃ m, (k + 1) * frame + i = m + 1 := ⟨(k + 1) * frame + i - 1,by omega⟩
  rw [hm,wait_succ h,← hm,Nat.mul_add_mod',Nat.mod_eq_of_lt lt]

theorem period_first (h : Started x frame) :
    period x frame 0 = x.vsync - waitFor x 1 + ∑ i ∈ range frame, waitFor x (i + 1) := by
  obtain ⟨n,rfl⟩ : ∃ n, frame = n + 1 := ⟨frame - 1,by have := h.some; omega⟩
  have rest : ∑ i ∈ range n, wait x (0 * (n + 1) + (i + 1)) = ∑ i ∈ range n, waitFor x ((i + 1 : Nat) + 1) := by
    refine sum_congr rfl fun i hi => ?_
    have lt := mem_range.mp hi
    rw [Nat.zero_mul,Nat.zero_add,wait_succ h,Nat.mod_eq_of_lt (by omega)]
  rw [period,sum_range_succ',sum_range_succ',rest,Nat.zero_mul,Nat.zero_add,wait_zero,Nat.cast_zero,zero_add]
  omega

theorem sum_step_extra (s step : Int) (P : Nat → Prop) [DecidablePred P] (n : Nat) :
    ∑ i ∈ range n, (if P i then step + s else step) = n * step + s * #{i ∈ range n | P i} := by
  have each (i : Nat) : (if P i then step + s else step) = step + if P i then s else 0 := by
    split <;> omega
  simp only [each,sum_add_distrib,sum_const,card_range,nsmul_eq_mul,sum_ite]
  ring

theorem sum_less {less : Nat} (substep : x.substep = -less) (some : 0 < less) (le : less ≤ frame) :
    ∑ i ∈ range frame, waitFor x (i + 1) = frame * x.step - less := by
  have each (i : Nat) : waitFor x (i + 1) = if i < less then x.step + -1 else x.step := by
    rw [waitFor,if_pos (by omega),substep]
    split <;> split <;> omega
  have count : {i ∈ range frame | i < less} = range less := by
    ext i
    simp only [mem_filter,mem_range]
    omega
  simp only [each]
  rw [sum_step_extra,count,card_range]
  omega

theorem sum_more {every : Nat} (substep : x.substep = every) (some : 0 < every) (frames : 0 < frame) :
    ∑ i ∈ range frame, waitFor x (i + 1) = frame * x.step + (frame / every : Nat) - if every = 1 then 1 else 0 := by
  have each (i : Nat) : waitFor x (i + 1) = if i ≠ 0 ∧ every ∣ i + 1 then x.step + 1 else x.step := by
    have divides : ((i : Int) + 1).tmod every = 0 ↔ every ∣ i + 1 := by
      rw [← Int.dvd_iff_tmod_eq_zero]
      exact_mod_cast Int.natCast_dvd_natCast
    rw [waitFor,if_neg (by omega),substep]
    refine if_congr ⟨fun h => ⟨by omega,divides.mp h.2.2⟩,fun h => ⟨by omega,by omega,divides.mpr h.2⟩⟩ rfl rfl
  simp only [each]
  rw [sum_step_extra,one_mul]
  by_cases one : every = 1
  · have count : {i ∈ range frame | i ≠ 0 ∧ every ∣ i + 1} = (range frame).erase 0 := by
      ext i
      simp [one,and_comm]
    rw [count,card_erase_of_mem (mem_range.mpr frames),card_range,if_pos one,one,Nat.div_one]
    omega
  · have count : {i ∈ range frame | i ≠ 0 ∧ every ∣ i + 1} = {i ∈ range frame | every ∣ i + 1} := by
      refine filter_congr fun i _ => ⟨And.right,fun dvd => ⟨?_,dvd⟩⟩
      rintro rfl
      exact one (Nat.dvd_one.mp dvd)
    rw [count,Nat.card_multiples,if_neg one,sub_zero]

theorem sum_same (substep : x.substep = 0) : ∑ i ∈ range frame, waitFor x (i + 1) = frame * x.step := by
  simp [waitFor,substep]

def Spreads (frame rest : Nat) : Prop := frame / (rest + 1) < frame / rest ∨ rest + 1 = frame

theorem spreads_iff {rest : Nat} (some : 0 < rest) (less : rest < frame) :
    frame / (frame / rest) = rest + (if frame / rest = 1 then 1 else 0) ↔ Spreads frame rest := by
  have whole : frame / rest * rest ≤ frame := Nat.div_mul_le_self frame rest
  have pos : 0 < frame / rest := Nat.div_pos less.le some
  unfold Spreads
  rw [Nat.div_lt_iff_lt_mul (Nat.succ_pos rest)]
  by_cases one : frame / rest = 1
  · rw [one,if_pos rfl,Nat.div_one]
    omega
  rw [if_neg one,Nat.add_zero]
  constructor
  · intro eq
    left
    rw [Nat.mul_comm]
    exact (Nat.div_lt_iff_lt_mul pos).mp (by omega)
  intro spreads
  refine Nat.div_eq_of_lt_le (by rwa [Nat.mul_comm]) ?_
  rcases spreads with lt | last
  · rwa [Nat.mul_comm] at lt
  have twice : 2 * rest ≤ frame / rest * rest := Nat.mul_le_mul_right rest (by omega)
  obtain rfl : rest = 1 := by omega
  rw [← last]
  decide

inductive Paced (total frame : Nat) (x : Sync) : Prop where
  | even (rest : total % frame = 0) (step : x.step = (total / frame : Nat)) (substep : x.substep = 0)
  | more (rest : total % frame ≠ 0) (apart : total / frame ≠ frame / (total % frame))
      (step : x.step = (total / frame : Nat)) (substep : x.substep = (frame / (total % frame) : Nat))
  | less (rest : total % frame ≠ 0) (equal : total / frame = frame / (total % frame))
      (step : x.step = (total / frame : Nat) + 1) (substep : x.substep = -(frame - total % frame : Nat))

theorem unsigned_cast {n : Nat} (int : n < 2 ^ 31) : unsigned n = n := by
  unfold unsigned
  omega

theorem spread_started (x : Sync) (total : Nat) (frames : 0 < frame) : Started (x.spread total frame) frame ∧
    (x.spread total frame).vsync = (x.spread total frame).step := by
  by_cases equal : total / frame = if total % frame ≠ 0 then frame / (total % frame) else 0
  · simp only [Sync.spread,if_pos equal]
    exact ⟨⟨frames,rfl,rfl⟩,trivial⟩
  · simp only [Sync.spread,if_neg equal]
    exact ⟨⟨frames,rfl,rfl⟩,trivial⟩

theorem spread_paced (x : Sync) (frames : 0 < frame) (le : frame ≤ total) (int : total < 2 ^ 31) :
    Paced total frame (x.spread total frame) := by
  have step : 0 < total / frame := Nat.div_pos le frames
  by_cases rest : total % frame = 0
  · have apart : ¬ total / frame = 0 := by omega
    simp only [Sync.spread,rest,ne_eq,not_true,if_false,if_neg apart]
    exact .even rest rfl rfl
  by_cases equal : total / frame = frame / (total % frame)
  · have lt := Nat.mod_lt total frames
    have split := Nat.div_add_mod total frame
    have negative : (total : Int) - ((total / frame : Nat) + 1) * frame = -(frame - total % frame : Nat) := by
      have whole : (frame : Int) * (total / frame : Nat) + (total % frame : Nat) = total := by exact_mod_cast split
      push_cast [Nat.cast_sub lt.le] at whole ⊢
      linarith
    simp only [Sync.spread,rest,ne_eq,not_false_eq_true,if_true,if_pos equal]
    refine .less rest equal rfl ?_
    simp only [negative]
    exact wrap_eq (by omega) (by omega)
  · simp only [Sync.spread,rest,ne_eq,not_false_eq_true,if_true,if_neg equal]
    exact .more rest equal rfl rfl

theorem fbsyncCalFps_spread {r w : Nat} (pos : 0 < w) (le : w ≤ r) (int : r < 2 ^ 31) (x : Sync) :
    ∃ fuel, fbsyncCalFps fuel r w x = some (x.spread (r / r.gcd w) (w / r.gcd w)) := by
  obtain ⟨g,⟨fuel,done⟩,rfl⟩ := gcd_ends (a := r) (b := w) (by omega) (by omega) (by omega) (by omega)
  have small : r.gcd w ≤ w := Nat.gcd_le_right r pos
  have fewer : w / r.gcd w ≤ r / r.gcd w := Nat.div_le_div_right le
  refine ⟨fuel,?_⟩
  rw [fbsyncCalFps,vppGetGcd,done,Option.map_some]
  simp only [Int.gcd_natCast_natCast,unsigned_cast int,unsigned_cast (n := w) (by omega),
    unsigned_cast (n := r.gcd w) (by omega),if_neg (not_lt.mpr fewer)]

/-- The rates whose syncs come out in every period, and in every period but the first. -/
def Exact (total frame : Nat) : Prop :=
  total % frame = 0 ∨ total / frame ≠ frame / (total % frame) ∧ Spreads frame (total % frame)

def ExactLater (total frame : Nat) : Prop :=
  total % frame = 0 ∨ total / frame = frame / (total % frame) ∨ Spreads frame (total % frame)

section
variable (h : Paced total frame x)
include h

theorem Paced.sum (frames : 0 < frame) :
    ∑ i ∈ range frame, waitFor x (i + 1) = total ↔ ExactLater total frame := by
  have lt := Nat.mod_lt total frames
  have split : (frame : Int) * (total / frame : Nat) + (total % frame : Nat) = total := by
    exact_mod_cast Nat.div_add_mod total frame
  cases h with
  | even rest step substep =>
    refine iff_of_true ?_ (.inl rest)
    rw [sum_same substep,step]
    omega
  | less rest equal step substep =>
    refine iff_of_true ?_ (.inr (.inl equal))
    rw [sum_less substep (by omega) (by omega),step,mul_add]
    omega
  | more rest apart step substep =>
    have every : 0 < frame / (total % frame) := Nat.div_pos lt.le (by omega)
    rw [sum_more substep every frames,step,ExactLater]
    simp only [rest,apart,false_or]
    rw [← spreads_iff (by omega) lt]
    split_ifs <;> omega

theorem Paced.first (frames : 0 < frame) :
    x.step - waitFor x 1 = if total % frame ≠ 0 ∧ total / frame = frame / (total % frame) then 1 else 0 := by
  have lt := Nat.mod_lt total frames
  cases h with
  | even rest step substep => simp [waitFor,substep,rest]
  | less rest equal step substep =>
    rw [if_pos ⟨rest,equal⟩,waitFor,if_pos (by omega),if_pos (by omega)]
    omega
  | more rest apart step substep =>
    have positive : ¬ x.substep < 0 := substep ▸ not_lt.mpr (Int.natCast_nonneg _)
    rw [if_neg fun both => apart both.2,waitFor,if_neg positive,if_neg (by simp)]
    omega

theorem Paced.sum_first (started : Started x frame) (vsync : x.vsync = x.step) :
    period x frame 0 = total ↔ Exact total frame := by
  rw [period_first started,vsync,h.first started.some]
  have sum := h.sum started.some
  by_cases equal : total % frame ≠ 0 ∧ total / frame = frame / (total % frame)
  · rw [if_pos equal,sum.mpr (.inr (.inl equal.2))]
    refine iff_of_false (by omega) ?_
    rintro (even | ⟨apart,_⟩)
    · exact equal.1 even
    · exact apart equal.2
  · rw [if_neg equal,zero_add,sum,ExactLater,Exact]
    tauto

theorem Paced.wait_near (started : Started x frame) (vsync : x.vsync = x.step) (n : Nat) :
    wait x n = (total / frame : Nat) ∨ total % frame ≠ 0 ∧ wait x n = (total / frame : Nat) + 1 := by
  have near : ∀ cnt, waitFor x cnt = (total / frame : Nat) ∨
      total % frame ≠ 0 ∧ waitFor x cnt = (total / frame : Nat) + 1 := by
    intro cnt
    have lt := Nat.mod_lt total started.some
    cases h with
    | even rest step substep => exact .inl (by simp [waitFor,substep,step])
    | less rest equal step substep =>
      rw [waitFor,if_pos (by omega),step]
      split
      · exact .inl (by omega)
      · exact .inr ⟨rest,rfl⟩
    | more rest apart step substep =>
      have positive : ¬ x.substep < 0 := substep ▸ not_lt.mpr (Int.natCast_nonneg _)
      rw [waitFor,if_neg positive,step]
      split
      · exact .inr ⟨rest,rfl⟩
      · exact .inl rfl
  cases n with
  | zero =>
    rw [wait_zero,vsync]
    cases h with
    | even rest step substep => exact .inl step
    | less rest equal step substep => exact .inr ⟨rest,step⟩
    | more rest apart step substep => exact .inl step
  | succ n =>
    rw [wait_succ started]
    exact near _

end

theorem div_up (pos : 0 < b) (rest : a % b ≠ 0) : (a + b - 1) / b = a / b + 1 := by
  have lt := Nat.mod_lt a pos
  have split := Nat.div_add_mod' a b
  refine Nat.div_eq_of_lt_le ?_ ?_
  · rw [Nat.add_mul]
    omega
  · rw [Nat.succ_mul,Nat.add_mul]
    omega

theorem ratio_reduced {r w : Nat} (pos : 0 < w) : r / r.gcd w / (w / r.gcd w) = r / w ∧
    (r / r.gcd w % (w / r.gcd w) ≠ 0 → (r + w - 1) / w = r / w + 1) := by
  have divisor : 0 < r.gcd w := Nat.gcd_pos_of_pos_right r pos
  have display : r.gcd w * (r / r.gcd w) = r := Nat.mul_div_cancel' (Nat.gcd_dvd_left r w)
  have source : r.gcd w * (w / r.gcd w) = w := Nat.mul_div_cancel' (Nat.gcd_dvd_right r w)
  have down := Nat.mul_div_mul_left (r / r.gcd w) (w / r.gcd w) divisor
  have rest := Nat.mul_mod_mul_left (r.gcd w) (r / r.gcd w) (w / r.gcd w)
  rw [display,source] at down rest
  refine ⟨down.symm,fun some => div_up pos ?_⟩
  rw [rest]
  exact Nat.mul_ne_zero divisor.ne' some

/-- Every frame waits for the ratio of the rates, rounded, and the waits of a period add up for
rates that spread. -/
theorem pacing_exact {r w : Nat} (pos : 0 < w) (le : w ≤ r) (int : r < 2 ^ 31) (x : Sync) :
    ∃ fuel y, fbsyncCalFps fuel r w x = some y ∧
      (∀ n, wait y n = (r / w : Nat) ∨ wait y n = ((r + w - 1) / w : Nat)) ∧
      ((∀ k, period y (w / r.gcd w) k = (r / r.gcd w : Nat)) ↔ Exact (r / r.gcd w) (w / r.gcd w)) ∧
      ((∀ k, period y (w / r.gcd w) (k + 1) = (r / r.gcd w : Nat)) ↔ ExactLater (r / r.gcd w) (w / r.gcd w)) := by
  obtain ⟨fuel, done⟩ := fbsyncCalFps_spread pos le int x
  have divisor : 0 < r.gcd w := Nat.gcd_pos_of_pos_right r pos
  have frames : 0 < w / r.gcd w := Nat.div_pos (Nat.gcd_le_right r pos) divisor
  have bound : r / r.gcd w < 2 ^ 31 := (Nat.div_le_self r _).trans_lt int
  have paced := spread_paced x frames (Nat.div_le_div_right le) bound
  obtain ⟨started, vsync⟩ := spread_started x (r / r.gcd w) frames
  have later := paced.sum frames
  refine ⟨fuel, _, done, fun n => ?_, ?_, ?_⟩
  · obtain ⟨down, up⟩ := ratio_reduced (r := r) pos
    rcases paced.wait_near started vsync n with eq | ⟨rest, eq⟩
    · rw [down] at eq
      exact .inl eq
    · rw [down] at eq
      rw [up rest]
      exact .inr eq
  · rw [← paced.sum_first started vsync]
    refine ⟨fun all => all 0, fun first k => ?_⟩
    cases k with
    | zero => exact first
    | succ k =>
      rw [period_later started, later]
      rcases (paced.sum_first started vsync).mp first with even | ⟨_, spreads⟩
      · exact .inl even
      · exact .inr (.inr spreads)
  · simp only [period_later started, forall_const]
    exact later

def unpaced : Sync := ⟨true, 0, 0, 0, 0, 0, 0⟩

theorem pacing_exact_video : ∃ fuel y, fbsyncCalFps fuel 60 50 unpaced = some y ∧
    ∀ k, period y 5 k = (6 : Nat) := by
  obtain ⟨fuel, y, done, _, all, _⟩ : ∃ fuel y, fbsyncCalFps fuel (60 : Nat) (50 : Nat) unpaced = some y ∧ _ :=
    pacing_exact (by decide) (by decide) (by decide) unpaced
  exact ⟨fuel, y, done, all.mpr (.inr ⟨by decide, .inl (by decide)⟩)⟩

/-- 60 syncs and 24 frames: the first two frames wait for 3 each, where 5 are to be spread over two.
-/
theorem pacing_film_late : ∃ y, fbsyncCalFps 20 60 24 unpaced = some y ∧ period y 2 0 = 6 :=
  ⟨unpaced.spread 5 2, by decide +kernel, by decide +kernel⟩

end Apc8750.Display
