import Apc8750.Vout.Table

namespace Apc8750.Vout
open Apc8750.Edid

structure Limits where
  resx : Nat
  resy : Nat
  fps : Nat
  deriving DecidableEq

def countRows : List VppTiming → Option Nat
  | [] => none
  | t :: rest => if t.pixelClock = 0 then some 0 else (countRows rest).map (· + 1)

def askedWord (f : Nat) (t : VppTiming) : BitVec 32 :=
  BitVec.ofNat 32 f &&& edidTmrFreq ||| flag edidTmrInterlace t.interlaced

def tryRow (info : EdidInfo) (limits : Limits) (ratio : Int) (t : VppTiming) : Except Fault (Option Limits) :=
  let h := lines t
  if limits.resy < h then .ok none
  else
    let w := t.hpixel
    if limits.resx < w then .ok none
    else
      let f := vppGetVideoModeFps t
      if limits.fps < f then .ok none
      else do
        let wide ← voutCheckRatio169 w h
        if ratio ≠ (if wide then 1 else 0) then return none
        else if (edidFindSupport info w h (askedWord f t)).1 ≠ 0 then return some ⟨w, h, f⟩
        else return none

/-- The loop of `vout_find_edid_support_mode` over the rows below `n`. -/
def searchDown (info : EdidInfo) (limits : Limits) (ratio : Int) (n : Nat) : Option (Nat × Limits) :=
  if 0 < n then
    match row (n - 1) with
    | none => none
    | some t =>
      match tryRow info limits ratio t with
      | .error _ => none
      | .ok (some found) => some (1, found)
      | .ok none => searchDown info limits ratio (if t.interlaced then n - 2 else n - 1)
  else some (0, limits)
termination_by n
decreasing_by split <;> omega

def voutFindEdidSupportMode (info : EdidInfo) (limits : Limits) (ratio : Int) : Option (Nat × Limits) := do
  searchDown info limits ratio (← countRows vppVideoModeTable)

def Wide (t : VppTiming) : Prop := 15 ≤ t.hpixel * 10 / lines t

instance : Decidable (Wide t) := inferInstanceAs (Decidable (15 ≤ _))

structure Acceptable (info : EdidInfo) (limits : Limits) (ratio : Int) (t : VppTiming) : Prop where
  width : t.hpixel ≤ limits.resx
  height : lines t ≤ limits.resy
  rate : vppGetVideoModeFps t ≤ limits.fps
  aspect : ratio = if Wide t then 1 else 0
  supported : (edidFindSupport info t.hpixel (lines t) (askedWord (vppGetVideoModeFps t) t)).1 ≠ 0

def taken (t : VppTiming) : Limits := ⟨t.hpixel, lines t, vppGetVideoModeFps t⟩

theorem tryRow_spec (info : EdidInfo) (limits : Limits) (ratio : Int) (drawn : lines t ≠ 0) :
    tryRow info limits ratio t = .ok (some (taken t)) ∧ Acceptable info limits ratio t ∨
      tryRow info limits ratio t = .ok none ∧ ¬ Acceptable info limits ratio t := by
  have aspect : voutCheckRatio169 t.hpixel (lines t) = .ok (decide (Wide t)) := by
    rw [voutCheckRatio169,divide,if_neg drawn]
    rfl
  simp only [tryRow,aspect]
  split
  case isTrue high => exact .inr ⟨rfl,fun h => absurd h.height (by omega)⟩
  case isFalse low =>
    split
    case isTrue wide => exact .inr ⟨rfl,fun h => absurd h.width (by omega)⟩
    case isFalse narrow =>
      split
      case isTrue fast => exact .inr ⟨rfl,fun h => absurd h.rate (by omega)⟩
      case isFalse slow =>
        simp only [bind,Except.bind,decide_eq_true_eq]
        by_cases same : ratio = if Wide t then 1 else 0
        case neg => exact .inr ⟨if_pos same,fun h => same h.aspect⟩
        case pos =>
          rw [if_neg (not_not.mpr same)]
          split
          case isTrue found => exact .inl ⟨rfl,by omega,by omega,by omega,same,found⟩
          case isFalse missing => exact .inr ⟨rfl,fun h => missing h.supported⟩

/-- The rows below `n` do not end between the two rows of an interlaced mode. -/
def PairsWhole (n : Nat) : Prop := ((List.range n).countP fun k => (mode k).interlaced) % 2 = 0

instance : Decidable (PairsWhole n) := inferInstanceAs (Decidable (_ = 0))

def Twins (t u : VppTiming) : Prop :=
  t.interlaced = u.interlaced ∧ frame t = frame u ∧ vppGetVideoModeFps t = vppGetVideoModeFps u

instance : Decidable (Twins t u) := inferInstanceAs (Decidable (_ ∧ _))

theorem table_count : countRows vppVideoModeTable = some modeCount := rfl

theorem table_drawn : ∀ k < modeCount, lines (mode k) ≠ 0 := by decide +kernel

theorem table_whole : PairsWhole modeCount := by decide +kernel

theorem table_pairs : ∀ k < modeCount, PairsWhole (k + 1) →
    if (mode k).interlaced then 0 < k ∧ Twins (mode (k - 1)) (mode k) ∧ PairsWhole (k - 1) else PairsWhole k := by
  decide +kernel

theorem Twins.acceptable (h : Twins t u) (ok : Acceptable info limits ratio t) : Acceptable info limits ratio u := by
  obtain ⟨marked,size,rate⟩ := h
  obtain ⟨width,height⟩ := frame_eq_iff.mp size
  obtain ⟨w,h,r,a,s⟩ := ok
  simp only [Wide,askedWord,width,height,marked,rate] at w h r a s
  exact ⟨w,h,r,a,s⟩

/-- The result of a search of the rows below `n`: the last one that is acceptable. -/
def FoundBelow (info : EdidInfo) (limits : Limits) (ratio : Int) (n : Nat) (result : Nat × Limits) : Prop :=
  (∃ k < n, Acceptable info limits ratio (mode k) ∧ (∀ j < n, Acceptable info limits ratio (mode j) → j ≤ k) ∧
    result = (1, taken (mode k))) ∨
  (∀ k < n, ¬ Acceptable info limits ratio (mode k)) ∧ result = (0, limits)

theorem FoundBelow.extend (h : FoundBelow info limits ratio m result) (le : m ≤ n)
    (none : ∀ k, m ≤ k → k < n → ¬ Acceptable info limits ratio (mode k)) :
    FoundBelow info limits ratio n result := by
  rcases h with ⟨k,lt,ok,last,eq⟩ | ⟨empty,eq⟩
  · refine .inl ⟨k,by omega,ok,fun j hj acceptable => ?_,eq⟩
    by_cases low : j < m
    · exact last j low acceptable
    · exact absurd acceptable (none j (by omega) hj)
  refine .inr ⟨fun k hk => ?_,eq⟩
  by_cases low : k < m
  · exact empty k low
  · exact none k (by omega) hk

theorem searchDown_found (info : EdidInfo) (limits : Limits) (ratio : Int) (n : Nat) (inside : n ≤ modeCount) (whole : PairsWhole n) :
    ∃ result, searchDown info limits ratio n = some result ∧ FoundBelow info limits ratio n result := by
  induction n using Nat.strong_induction_on with
  | _ n ih =>
    cases n with
    | zero =>
      rw [searchDown]
      exact ⟨_,rfl,.inr ⟨fun k hk => absurd hk (Nat.not_lt_zero k),rfl⟩⟩
    | succ k =>
      have pairs := table_pairs k inside whole
      rw [searchDown,if_pos (Nat.succ_pos k),Nat.add_sub_cancel,row_eq inside]
      rcases tryRow_spec info limits ratio (table_drawn k inside) with ⟨eq,ok⟩ | ⟨eq,bad⟩
      · simp only [eq]
        exact ⟨_,rfl,.inl ⟨k,Nat.lt_succ_self k,ok,fun j hj _ => Nat.le_of_lt_succ hj,rfl⟩⟩
      simp only [eq]
      split at pairs
      · rename_i interlaced
        obtain ⟨pos,twins,whole'⟩ := pairs
        rw [if_pos interlaced,show k + 1 - 2 = k - 1 by omega]
        obtain ⟨result,done,found⟩ := ih (k - 1) (by omega) (by omega) whole'
        refine ⟨result,done,found.extend (by omega) fun j low high ok => ?_⟩
        have either : j = k - 1 ∨ j = k := by omega
        rcases either with rfl | rfl
        · exact bad (twins.acceptable ok)
        · exact bad ok
      · rename_i progressive
        rw [if_neg progressive]
        obtain ⟨result,done,found⟩ := ih k (Nat.lt_succ_self k) (by omega) pairs
        refine ⟨result,done,found.extend (by omega) fun j low high ok => ?_⟩
        obtain rfl : j = k := by omega
        exact bad ok

/-- The search ends with the last row within the limits, of the right shape and supported, if there
is one. -/
theorem edid_mode_found (info : EdidInfo) (limits : Limits) (ratio : Int) :
    ∃ ret out, voutFindEdidSupportMode info limits ratio = some (ret, out) ∧
      (ret = 1 ↔ ∃ k < modeCount, Acceptable info limits ratio (mode k)) ∧
      (ret = 1 → ∃ k < modeCount, Acceptable info limits ratio (mode k) ∧
        (∀ j < modeCount, Acceptable info limits ratio (mode j) → j ≤ k) ∧ out = taken (mode k)) ∧
      (ret ≠ 1 → ret = 0 ∧ out = limits) := by
  obtain ⟨⟨ret, out⟩, done, found⟩ := searchDown_found info limits ratio modeCount le_rfl table_whole
  refine ⟨ret, out, ?_, ?_⟩
  · rw [voutFindEdidSupportMode, table_count]
    exact done
  rcases found with ⟨k, lt, ok, last, eq⟩ | ⟨empty, eq⟩
  · cases eq
    exact ⟨iff_of_true rfl ⟨k, lt, ok⟩, fun _ => ⟨k, lt, ok, last, rfl⟩, fun ne => absurd rfl ne⟩
  cases eq
  refine ⟨iff_of_false Nat.zero_ne_one ?_, fun one => absurd one Nat.zero_ne_one, fun _ => ⟨rfl, rfl⟩⟩
  rintro ⟨k, lt, ok⟩
  exact empty k lt ok

end Apc8750.Vout
