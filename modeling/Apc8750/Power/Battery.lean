import Apc8750.Library.Runs
import Mathlib.Algebra.Group.Int.Defs
import Mathlib.Algebra.Order.Group.Nat

namespace Apc8750.Power.Battery

/-- The thresholds of discharging from the highest on, and the two of charging. -/
structure Params where
  operation : Bool
  adcUsed : Bool
  chargeMax : Int
  chargeMin : Int
  levels : List Int
  count : levels.length = 11
  decreasing : levels.Pairwise (· > ·)
  charge : chargeMin < chargeMax
  ints : ∀ x ∈ chargeMax :: chargeMin :: levels, -2 ^ 31 ≤ x ∧ x < 2 ^ 31

inductive Status where
  | unknown
  | charging
  | discharging
  | full
  deriving DecidableEq

structure State where
  low : Bool := false
  dcin : Bool := true
  status : Status := .unknown
  capacity : Int := 30
  tempCapacity : Nat := 0
  charingFirstUpdate : Nat := 0
  discharingFirstUpdate : Nat := 0
  capacityFirstUpdate : Nat := 0

/-- The three input pins, and the reading of `hx_batt_read`. -/
structure Input where
  low : Bool
  dcin : Bool
  charging : Bool
  adc : BitVec 16

/-- `x * n / d` on `int`s. -/
def scale (x n d : Int) : Int := ((x.bmod (2 ^ 32) * n).bmod (2 ^ 32)).tdiv (d.bmod (2 ^ 32))

/-- The ten segments, from the highest on. -/
def segments (adc : Int) : List Int → Int
  | high :: low :: rest =>
    if adc > low then scale (adc - low) 10 (high - low) + 10 * rest.length
    else segments adc (low :: rest)
  | _ => 0

/-- The result is an `unsigned int`. -/
def wmtReadCapacity (p : Params) (status : Status) (adc : BitVec 16) : Nat :=
  let capacity :=
    if status = .discharging then
      if (adc.toNat : Int) > p.levels.headD 0 then 100 else segments adc.toNat p.levels
    else scale (adc.toNat - p.chargeMin) 100 (p.chargeMax - p.chargeMin)
  (capacity % 2 ^ 32).toNat

/-- The end of both branches. `bat_temp_capacity` is unsigned. -/
def report (s : State) : State :=
  { s with capacity :=
      if s.tempCapacity < 0 ∨ s.tempCapacity > 100 then if s.tempCapacity < 0 then 0 else 100
      else s.tempCapacity }

def charge (s : State) (percent : Nat) : State :=
  let s := if s.charingFirstUpdate ≠ 0 then s else
    let s :=
      if s.tempCapacity > percent then { s with tempCapacity := percent }
      else if s.capacityFirstUpdate = 0 then { s with capacityFirstUpdate := 1 }
      else { s with charingFirstUpdate := s.charingFirstUpdate + 1, capacityFirstUpdate := 0 }
    { s with discharingFirstUpdate := 0 }
  let s := if s.tempCapacity < percent then { s with tempCapacity := percent } else s
  report { s with tempCapacity := percent }

def discharge (s : State) (percent : Nat) : State :=
  let s := if s.discharingFirstUpdate ≠ 0 then s else
    let s :=
      if s.tempCapacity ≤ percent then { s with tempCapacity := percent }
      else if s.capacityFirstUpdate = 0 then { s with capacityFirstUpdate := 1 }
      else { s with discharingFirstUpdate := s.discharingFirstUpdate + 1, capacityFirstUpdate := 0 }
    { s with charingFirstUpdate := 0 }
  report (if s.tempCapacity > percent then { s with tempCapacity := percent } else s)

/-- `wmt_bat_update` up to the notification. -/
def update (p : Params) (s : State) (i : Input) : State :=
  if p.operation = false then { s with status := .full, capacity := 100 }
  else
    let status := if i.charging then .charging else .discharging
    let s := { s with low := i.low, dcin := i.dcin, status }
    if i.low ∧ i.dcin = false then { s with capacity := 0 }
    else if p.adcUsed = false then
      { s with capacity := if i.dcin ∧ status ≠ .discharging then 50 else 100 }
    else if i.dcin then
      if status = .discharging then { s with capacity := 100, status := .full }
      else charge s (wmtReadCapacity p status i.adc)
    else discharge s (wmtReadCapacity p status i.adc)

/-- The reply tells whether `power_supply_changed` is called. -/
def wmtBatUpdate (p : Params) (s : State) (i : Input) : Option (Bool × State) :=
  let t := update p s i
  some (t.low || t.dcin != s.dcin || t.status != s.status || t.capacity != s.capacity ||
    decide (t.capacity ≤ 0), t)

/-- No threshold is negative, and the percentage of a charging battery not either. -/
structure Regular (p : Params) (charging : Bool) (adc : BitVec 16) : Prop where
  levels : ∀ x ∈ p.chargeMin :: p.levels, 0 ≤ x
  near : charging = true → (p.chargeMin - adc.toNat) * 100 < p.chargeMax - p.chargeMin

theorem report_capacity (s : State) : (report s).capacity = min s.tempCapacity 100 := by
  simp only [report]
  split <;> omega

theorem charge_capacity (s : State) (percent : Nat) : (charge s percent).capacity = min percent 100 :=
  report_capacity _

theorem discharge_capacity (s : State) (percent : Nat) : (discharge s percent).capacity =
    min (if s.discharingFirstUpdate = 0 then percent else min s.tempCapacity percent) 100 := by
  simp only [discharge,report_capacity]
  by_cases first : s.discharingFirstUpdate = 0
  · by_cases less : s.tempCapacity ≤ percent
    · simp [first,less]
    · by_cases none : s.capacityFirstUpdate = 0 <;> simp [first,less,none,Nat.lt_of_not_le less]
  · by_cases less : s.tempCapacity ≤ percent
    · simp [first,Nat.not_lt.mpr less,Nat.min_eq_left less]
    · simp [first,Nat.lt_of_not_le less,Nat.min_eq_right (Nat.le_of_not_le less)]

/-- What is reported does not depend on the reading, or is the percentage up to a limit. -/
theorem update_cases (p : Params) (s : State) (low dcin charging : Bool) :
    (∃ c, 0 ≤ c ∧ c ≤ 100 ∧ ∀ adc, (update p s ⟨low,dcin,charging,adc⟩).capacity = c) ∨
    ∃ top : Nat, top ≤ 100 ∧ ∀ adc, (update p s ⟨low,dcin,charging,adc⟩).capacity =
      min top (wmtReadCapacity p (if charging then .charging else .discharging) adc) := by
  cases operation : p.operation with
  | false => exact .inl ⟨100,by simp [update,operation]⟩
  | true =>
    by_cases empty : low ∧ dcin = false
    · exact .inl ⟨0,by simp [update,operation,empty]⟩
    cases adc : p.adcUsed with
    | false =>
      refine .inl ⟨if dcin ∧ charging then 50 else 100,?_⟩
      cases dcin <;> cases charging <;> simp_all [update]
    | true =>
      cases dcin with
      | false =>
        have high : low = false := by simpa using empty
        refine .inr ⟨if s.discharingFirstUpdate = 0 then 100 else min s.tempCapacity 100,?_,fun a => ?_⟩
        · split <;> omega
        · simp [update,operation,adc,high,discharge_capacity]
          split <;> omega
      | true =>
        cases charging with
        | false => exact .inl ⟨100,by simp [update,operation,adc]⟩
        | true =>
          refine .inr ⟨100,le_rfl,fun a => ?_⟩
          simp [update,operation,adc,charge_capacity,Nat.min_comm]

theorem scale_eq (num : -2 ^ 31 ≤ x ∧ x < 2 ^ 31) (prod : x * n < 2 ^ 31) (near : -d < x * n)
    (pos : 0 < d) (int : d < 2 ^ 31) : scale x n d = if 0 ≤ x * n then x * n / d else 0 := by
  have same (y : Int) (low : -2 ^ 31 ≤ y) (high : y < 2 ^ 31) : y.bmod (2 ^ 32) = y :=
    Int.bmod_eq_of_le (by omega) (by omega)
  rw [scale,same x num.1 num.2,same (x * n) (by omega) prod,same d (by omega) int]
  split
  · exact Int.tdiv_eq_ediv_of_nonneg (by assumption)
  · rw [← Int.neg_neg (x * n),Int.neg_tdiv,Int.tdiv_eq_zero_of_lt (by omega) (by omega)]
    rfl

structure Falling (l : List Int) : Prop where
  decreasing : l.Pairwise (· > ·)
  ints : ∀ x ∈ l, 0 ≤ x ∧ x < 2 ^ 31

theorem Falling.tail (h : Falling (high :: l)) : Falling l :=
  ⟨h.decreasing.of_cons,fun x mem => h.ints x (.tail _ mem)⟩

theorem Falling.less (h : Falling (high :: low :: rest)) : low < high :=
  List.rel_of_pairwise_cons h.decreasing List.mem_cons_self

theorem Falling.segment (h : Falling (high :: low :: rest)) (above : adc > low)
    (small : adc ≤ 65535) :
    segments adc (high :: low :: rest) = (adc - low) * 10 / (high - low) + 10 * rest.length := by
  have step := h.less
  have top := h.ints high (by simp)
  have bottom := h.ints low (by simp)
  rw [segments,if_pos above,scale_eq (by omega) (by omega) (by omega) (by omega) (by omega),
    if_pos (by omega)]

theorem Falling.bounds (h : Falling (high :: rest)) (adc : Int) (le : adc ≤ high) (small : adc ≤ 65535) :
    0 ≤ segments adc (high :: rest) ∧ segments adc (high :: rest) ≤ 10 * rest.length := by
  induction rest generalizing high with
  | nil => simp [segments]
  | cons low rest ih =>
    by_cases above : adc > low
    · have step := h.less
      have part := Int.ediv_nonneg (show 0 ≤ (adc - low) * 10 by omega) (show 0 ≤ high - low by omega)
      have whole : (adc - low) * 10 / (high - low) ≤ 10 :=
        Int.ediv_le_of_le_mul (by omega) (by omega)
      rw [h.segment above small,List.length_cons]
      omega
    · have rest := ih h.tail (by omega)
      rw [segments,if_neg above,List.length_cons]
      omega

theorem Falling.mono (h : Falling (high :: rest)) (less : a ≤ b) (le : b ≤ high) (small : b ≤ 65535) :
    segments a (high :: rest) ≤ segments b (high :: rest) := by
  induction rest generalizing high with
  | nil => simp [segments]
  | cons low rest ih =>
    by_cases above : b > low
    · have step := h.less
      rw [h.segment above small]
      by_cases both : a > low
      · rw [h.segment both (by omega)]
        have := Int.ediv_le_ediv (show 0 < high - low by omega)
          (show (a - low) * 10 ≤ (b - low) * 10 by omega)
        omega
      have part := Int.ediv_nonneg (show 0 ≤ (b - low) * 10 by omega) (show 0 ≤ high - low by omega)
      have top := (h.tail.bounds a (by omega) (by omega)).2
      rw [segments,if_neg both]
      omega
    · rw [segments,if_neg (by omega),segments,if_neg above]
      exact ih h.tail (by omega)

theorem Regular.falling (r : Regular p charging adc) : Falling p.levels where
  decreasing := p.decreasing
  ints x mem := ⟨r.levels x (.tail _ mem),(p.ints x (.tail _ (.tail _ mem))).2⟩

theorem Regular.discharging (r : Regular p charging adc) : ∃ high rest, p.levels = high :: rest ∧
    rest.length = 10 ∧ Falling (high :: rest) := by
  have falling := r.falling
  have count := p.count
  cases levels : p.levels with
  | nil => simp [levels] at count
  | cons high rest => exact ⟨high,rest,rfl,by simpa [levels] using count,levels ▸ falling⟩

theorem read_discharging (r : Regular p charging a) (less : a ≤ b) :
    wmtReadCapacity p .discharging a ≤ wmtReadCapacity p .discharging b := by
  obtain ⟨high,rest,levels,ten,falling⟩ := r.discharging
  have less : a.toNat ≤ b.toNat := less
  have inside := b.isLt
  simp only [wmtReadCapacity,levels,List.headD_cons,if_true]
  split <;> split
  · omega
  · omega
  · have bounds := falling.bounds a.toNat (by omega) (by omega)
    omega
  · have bounds := falling.bounds a.toNat (by omega) (by omega)
    have bounds' := falling.bounds b.toNat (by omega) (by omega)
    have mono := falling.mono (a := a.toNat) (b := b.toNat) (by omega) (by omega) (by omega)
    omega

theorem read_charging (r : Regular p true adc) : wmtReadCapacity p .charging adc =
    (max 0 (adc.toNat - p.chargeMin) * 100 / (p.chargeMax - p.chargeMin)).toNat := by
  have near := r.near rfl
  have zero := r.levels p.chargeMin (by simp)
  have top := p.ints p.chargeMax (by simp)
  have bottom := p.ints p.chargeMin (by simp)
  have charge := p.charge
  have inside := adc.isLt
  simp only [wmtReadCapacity,reduceCtorEq,if_false]
  rw [scale_eq (by omega) (by omega) (by omega) (by omega) (by omega)]
  split
  · rename_i above
    rw [Int.max_eq_right (by omega),Int.emod_eq_of_lt (Int.ediv_nonneg above (by omega))]
    exact Int.lt_of_le_of_lt (Int.ediv_le_self _ above) (by omega)
  · rw [Int.max_eq_left (by omega)]
    simp

theorem read_mono (r : Regular p charging a) (less : a ≤ b) :
    wmtReadCapacity p (if charging then .charging else .discharging) a ≤
      wmtReadCapacity p (if charging then .charging else .discharging) b := by
  cases charging with
  | false => exact read_discharging r less
  | true =>
    have less : a.toNat ≤ b.toNat := less
    have near := r.near rfl
    have charge := p.charge
    have higher : Regular p true b := ⟨r.levels,fun _ => by omega⟩
    simp only [if_true,read_charging r,read_charging higher]
    refine Int.toNat_le_toNat (Int.ediv_le_ediv (by omega) ?_)
    omega

/-- The capacity is within 0..100, monotone in regular readings, and 0 below `batt_charge_min` while
charging. -/
theorem capacity_sound (p : Params)
    (run : Runs.Run (wmtBatUpdate p) (fun _ _ => True) {} trace s) :
    (0 ≤ s.capacity ∧ s.capacity ≤ 100) ∧
    (∀ low dcin charging a b, a ≤ b → Regular p charging a →
      (update p s ⟨low, dcin, charging, a⟩).capacity ≤ (update p s ⟨low, dcin, charging, b⟩).capacity) ∧
    ∀ low a, p.operation = true → p.adcUsed = true → (a.toNat : Int) < p.chargeMin → Regular p true a →
      (update p s ⟨low, true, true, a⟩).capacity = 0 := by
  refine ⟨?_, fun low dcin charging a b less r => ?_, fun low a operation adc below r => ?_⟩
  · refine run.invariant (I := fun s => 0 ≤ s.capacity ∧ s.capacity ≤ 100) (by simp)
      fun {t i _ _} _ _ done => ?_
    cases done
    rcases update_cases p t i.low i.dcin i.charging with ⟨c, zero, hundred, const⟩ | ⟨top, hundred, limited⟩
    · rw [const i.adc]
      exact ⟨zero, hundred⟩
    · rw [limited i.adc]
      omega
  · rcases update_cases p s low dcin charging with ⟨c, _, _, const⟩ | ⟨top, _, limited⟩
    · rw [const, const]
    · have mono := read_mono r less
      rw [limited, limited]
      omega
  · have none : wmtReadCapacity p .charging a = 0 := by
      rw [read_charging r, Int.max_eq_left (by omega)]
      simp
    simp [update, operation, adc, charge_capacity, none]

def midLevels : List Int := [0xB29, 0xB11, 0xAFE, 0xACA, 0xAAB, 0xA94, 0xA80, 0xA64, 0xA40, 0xA1B, 0x972]

theorem midLevels_decreasing : midLevels.Pairwise (· > ·) := by decide

theorem midLevels_ints : ∀ x ∈ 0xB78 :: 0x972 :: midLevels, -2 ^ 31 ≤ x ∧ x < 2 ^ 31 := by decide

def mid : Params where
  operation := true
  adcUsed := true
  chargeMax := 0xB78
  chargeMin := 0x972
  levels := midLevels
  count := rfl
  decreasing := midLevels_decreasing
  charge := by decide
  ints := midLevels_ints

theorem capacity_sound_mid : ∃ trace s, Runs.Run (wmtBatUpdate mid) (fun _ _ => True) {} trace s ∧
    s.capacity ≤ 100 ∧ (update mid s ⟨false, true, true, 0x971⟩).capacity = 0 := by
  have run : Runs.Run (wmtBatUpdate mid) (fun _ _ => True) {} _ _ :=
    .next .start (a := ⟨false, false, false, 0xA00⟩) trivial rfl
  have ⟨bounds, _, empty⟩ := capacity_sound mid run
  exact ⟨_, _, run, bounds.2, empty false 0x971 rfl rfl (by decide) ⟨by decide, by decide⟩⟩

/-- While charging a reading far below `batt_charge_min` is reported as 100. -/
theorem empty_reported_full : (update mid {} ⟨false, true, true, 0x900⟩).capacity = 100 ∧
    (update mid {} ⟨false, true, true, 0x972⟩).capacity = 0 := by
  decide

end Apc8750.Power.Battery
