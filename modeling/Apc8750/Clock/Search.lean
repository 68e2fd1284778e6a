import Apc8750.Library.First
import Apc8750.Clock.Model

namespace Apc8750.Clock

def Setting.admitted (s : Setting) : Bool :=
  decide (1000 / srcFreq ≤ (s.divf + 1) / (s.divr + 1) ∧
    (s.divf + 1) / (s.divr + 1) ≤ 2000 / srcFreq)

def row (s : Setting) (dfs : List Nat) : List Setting :=
  (dfs.map fun df => { s with divf := df }).filter Setting.admitted

def settings (divs : List Nat) : List Setting :=
  (loopOrder divs).flatMap fun s => row s (List.range 256)

/-- How far a setting is off the request. One above it does not count, except on
PLL C. -/
def cost (no freq : Nat) (s : Setting) : Nat :=
  if s.freq ≤ freq then freq - s.freq else if no = 2 then s.freq - freq else limit

/-- The search has kept the first best of the settings seen, none of them an exact
match. -/
inductive Tracks (no freq : Nat) (done : List Setting) (v : Search) : Prop where
  | none (best : v.best = ⟨1, 1, 1, 1⟩) (minor : v.minMinor = limit)
      (all : ∀ s ∈ done, limit ≤ cost no freq s)
  | some (best : v.best ∈ done.argmin (cost no freq)) (minor : v.minMinor = cost no freq v.best)
      (pos : 0 < v.minMinor) (less : v.minMinor < limit)

structure Found (no freq : Nat) (done : List Setting) (v : Search) : Prop where
  best : v.best ∈ done.argmin (cost no freq)
  exact : cost no freq v.best = 0

variable {no freq : Nat} {s : Setting} {v : Search}

theorem freq_mono (df df' : Nat) (h : df ≤ df') :
    Setting.freq { s with divf := df } ≤ Setting.freq { s with divf := df' } := by
  apply Nat.div_le_div_right
  apply Nat.mul_le_mul_right
  apply Nat.mul_le_mul_left
  exact Nat.succ_le_succ h

theorem Tracks.least (h : Tracks no freq done v) (hs : s ∈ done) :
    v.minMinor ≤ cost no freq s := by
  cases h with
  | none _ minor all =>
    rw [minor]
    exact all s hs
  | some best minor _ _ =>
    rw [minor]
    exact List.le_of_mem_argmin hs best

theorem limit_pos : 0 < limit := by decide

section
variable (h : Tracks no freq done v)
include h

theorem Tracks.pos : 0 < v.minMinor := by
  cases h with
  | none _ minor _ =>
    rw [minor]
    exact limit_pos
  | some _ _ pos _ => exact pos

theorem Tracks.le_limit : v.minMinor ≤ limit := by
  cases h with
  | none _ minor _ => exact minor.le
  | some _ _ _ less => exact less.le

theorem Tracks.append (hm : ∀ s ∈ more, v.minMinor ≤ cost no freq s) : Tracks no freq (done ++ more)
    v := by
  cases h with
  | none best minor all =>
    apply Tracks.none best minor
    intro s hs
    rcases List.mem_append.mp hs with hs | hs
    · exact all s hs
    · rw [← minor]
      exact hm s hs
  | some best minor pos less =>
    apply Tracks.some _ minor pos less
    apply First.argmin_append best
    intro s hs
    rw [← minor]
    exact hm s hs

theorem Tracks.improve (pos : 0 < cost no freq s) :
    Tracks no freq (done ++ [s]) (v.improve s (cost no freq s)) := by
  unfold Search.improve
  split
  · rename_i better
    apply Tracks.some _ rfl pos (better.trans_le h.le_limit)
    exact First.argmin_concat_of_lt fun t ht => better.trans_le (h.least ht)
  rename_i worse
  apply h.append
  intro t ht
  rw [List.mem_singleton.mp ht]
  exact Nat.le_of_not_lt worse

end

theorem improve_le (v : Search) (s : Setting) (minor : Nat) :
    (v.improve s minor).minMinor ≤ minor := by
  unfold Search.improve
  split
  · exact le_rfl
  · rename_i worse
    exact Nat.le_of_not_lt worse

theorem Tracks.find (h : Tracks no freq done v) (hs : cost no freq s = 0) :
    Found no freq (done ++ [s]) { v with best := s } := by
  refine ⟨?_,hs⟩
  apply First.argmin_concat_of_lt
  intro t ht
  rw [hs]
  exact h.pos.trans_le (h.least ht)

theorem Found.append (h : Found no freq done v) : Found no freq (done ++ more) v := by
  refine ⟨First.argmin_append h.best fun s _ => ?_,h.exact⟩
  rw [h.exact]
  exact Nat.zero_le _

theorem Tracks.record (h : Tracks no freq done v) (divs : List Nat) :
    Tracks no freq done { v with divs := divs } := by
  cases h with
  | none best minor all => exact .none best minor all
  | some best minor pos less => exact .some best minor pos less

theorem row_cons (s : Setting) (df : Nat) (dfs : List Nat) :
    row s (df :: dfs) = (if Setting.admitted { s with divf := df } then [{ s with divf := df }] else [])
      ++ row s dfs := by
  unfold row
  rw [List.map_cons,List.filter_cons]
  split <;> rfl

theorem mem_row : t ∈ row s dfs ↔
    ∃ df ∈ dfs, t = { s with divf := df } ∧ t.admitted = true := by
  simp only [row,List.mem_filter,List.mem_map]
  constructor
  · rintro ⟨⟨df,hdf,rfl⟩,ha⟩
    exact ⟨df,hdf,rfl,ha⟩
  · rintro ⟨df,hdf,rfl,ha⟩
    exact ⟨⟨df,hdf,rfl⟩,ha⟩

theorem row_nil (hd : ∀ d ∈ dfs, df < d) (h : 2000 / srcFreq < (df + 1) / (s.divr + 1)) :
    row s dfs = [] := by
  apply List.eq_nil_iff_forall_not_mem.mpr
  intro t ht
  obtain ⟨d,hd',rfl,ha⟩ := mem_row.mp ht
  have hle : (df + 1) / (s.divr + 1) ≤ (d + 1) / (s.divr + 1) :=
    Nat.div_le_div_right (Nat.succ_le_succ (hd d hd').le)
  exact absurd (of_decide_eq_true ha).2 (Nat.not_le.mpr (h.trans_le hle))

theorem row_above (hd : ∀ d ∈ dfs, df < d) (h : freq < Setting.freq { s with divf := df })
    (ht : t ∈ row s dfs) : cost no freq { s with divf := df } ≤ cost no freq t := by
  obtain ⟨d,hd',rfl,_⟩ := mem_row.mp ht
  have hm := freq_mono (s := s) df d (hd d hd').le
  unfold cost
  rw [if_neg (Nat.not_le.mpr h),if_neg (Nat.not_le.mpr (h.trans_le hm))]
  split
  · exact Nat.sub_le_sub_right hm freq
  · exact le_rfl

def Kept (no freq : Nat) (done : List Setting) : Except Search Search → Prop
  | .ok v => Tracks no freq done v
  | .error v => Found no freq done v

theorem dfLoop_kept (hs : 10 ≤ srcFreq / (s.divr + 1)) (hd : dfs.Pairwise (· < ·))
    (h : Tracks no freq done v) : Kept no freq (done ++ row s dfs) (dfLoop no freq s dfs v) := by
  induction dfs generalizing done v with
  | nil => simpa [row,dfLoop,Kept] using h
  | cons df dfs ih =>
    obtain ⟨first,rest⟩ := List.pairwise_cons.mp hd
    have h1 := h.record (v.divs ++ [s.divr + 1])
    have h2 := h1.record (v.divs ++ [s.divr + 1] ++ [s.base])
    rw [row_cons,← List.append_assoc]
    unfold dfLoop tryDf
    dsimp only
    rw [if_neg (Nat.not_lt.mpr hs)]
    by_cases low : 1000 / srcFreq > (df + 1) / (s.divr + 1)
    · have out : Setting.admitted { s with divf := df } = false :=
        decide_eq_false fun a => absurd a.1 (Nat.not_le.mpr low)
      rw [if_pos low,out,if_neg Bool.false_ne_true,List.append_nil]
      exact ih rest h1
    rw [if_neg low]
    by_cases high : 2000 / srcFreq < (df + 1) / (s.divr + 1)
    · have out : Setting.admitted { s with divf := df } = false :=
        decide_eq_false fun a => absurd a.2 (Nat.not_le.mpr high)
      rw [if_pos high,out,if_neg Bool.false_ne_true,List.append_nil,row_nil first high,
        List.append_nil]
      exact h1
    rw [if_neg high]
    have into : Setting.admitted { s with divf := df } = true :=
      decide_eq_true ⟨Nat.le_of_not_lt low,Nat.le_of_not_lt high⟩
    rw [if_pos into]
    rcases Nat.lt_trichotomy (Setting.freq { s with divf := df }) freq with below | equal | above
    · have hc : cost no freq { s with divf := df } = freq - Setting.freq { s with divf := df } :=
        if_pos below.le
      rw [if_neg below.ne,if_pos below,← hc]
      apply ih rest
      apply h2.improve
      rw [hc]
      exact Nat.sub_pos_of_lt below
    · have hc : cost no freq { s with divf := df } = 0 := by
        unfold cost
        rw [if_pos equal.le,equal,Nat.sub_self]
      rw [if_pos equal]
      exact Found.append (h2.find hc)
    rw [if_neg above.ne',if_neg above.not_gt]
    by_cases pllC : no = 2
    · have hc : cost no freq { s with divf := df } = Setting.freq { s with divf := df } - freq := by
        unfold cost
        rw [if_neg above.not_ge,if_pos pllC]
      rw [if_pos pllC,← hc]
      have h3 := h2.improve (hc ▸ Nat.sub_pos_of_lt above)
      exact h3.append fun t ht => (improve_le _ _ _).trans (row_above first above ht)
    have hc : cost no freq { s with divf := df } = limit := by
      unfold cost
      rw [if_neg above.not_ge,if_neg pllC]
    rw [if_neg pllC,List.append_assoc]
    apply h2.append
    intro t ht
    rcases List.mem_append.mp ht with ht | ht
    · rw [List.mem_singleton.mp ht,hc]
      exact h2.le_limit
    · exact (hc ▸ h2.le_limit).trans (row_above first above ht)

theorem pllLoop_kept (hs : ∀ s ∈ rest, 10 ≤ srcFreq / (s.divr + 1)) (h : Tracks no freq done v) :
    let all := done ++ rest.flatMap fun s => row s (List.range 256)
    Tracks no freq all (pllLoop no freq rest v) ∨ Found no freq all (pllLoop no freq rest v) := by
  induction rest generalizing done v with
  | nil => exact .inl (by simpa [pllLoop] using h)
  | cons s rest ih =>
    have inner := dfLoop_kept (hs s (by simp)) (List.pairwise_lt_range (n := 256)) h
    simp only [List.flatMap_cons,← List.append_assoc]
    unfold pllLoop
    split <;> rename_i w eq <;> rw [eq] at inner
    · exact ih (fun t ht => hs t (List.mem_cons_of_mem _ ht)) inner
    · exact .inr inner.append

theorem mem_loopOrder : s ∈ loopOrder divs ↔
    s.divf = 0 ∧ s.divr ≤ 1 ∧ s.divq ≤ 7 ∧ s.div ∈ divs := by
  simp only [loopOrder,List.mem_flatMap,List.mem_map]
  constructor
  · rintro ⟨dr,hdr,dq,hdq,vd,hvd,rfl⟩
    simp only [List.mem_cons,List.not_mem_nil,or_false] at hdr hdq
    refine ⟨rfl,?_,?_,hvd⟩ <;> dsimp only <;> omega
  rintro ⟨hf,hr,hq,hvd⟩
  refine ⟨s.divr,by simp; omega,s.divq,by simp; omega,s.div,hvd,?_⟩
  cases s
  simp_all

theorem mem_settings : s ∈ settings divs ↔
    s.divf < 256 ∧ s.divr ≤ 1 ∧ s.divq ≤ 7 ∧ s.div ∈ divs ∧ s.admitted = true := by
  simp only [settings,List.mem_flatMap,mem_row,List.mem_range]
  constructor
  · rintro ⟨t,ht,df,hdf,rfl,ha⟩
    obtain ⟨_,hr,hq,hd⟩ := mem_loopOrder.mp ht
    exact ⟨hdf,hr,hq,hd,ha⟩
  · rintro ⟨hf,hr,hq,hd,ha⟩
    exact ⟨{ s with divf := 0 },mem_loopOrder.mpr ⟨rfl,hr,hq,hd⟩,s.divf,hf,rfl,ha⟩

theorem pllSearch_best (no freq : Nat) (divs : List Nat) :
    ((pllSearch no freq divs).best = ⟨1,1,1,1⟩ ∧ ∀ s ∈ settings divs, limit ≤ cost no freq s) ∨
    ((pllSearch no freq divs).best ∈ (settings divs).argmin (cost no freq) ∧
      cost no freq (pllSearch no freq divs).best < limit) := by
  have start : Tracks no freq [] ⟨⟨1,1,1,1⟩,limit,[]⟩ := .none rfl rfl (by simp)
  have ref : ∀ s ∈ loopOrder divs, 10 ≤ srcFreq / (s.divr + 1) := by
    intro s hs
    obtain ⟨_,hr,_⟩ := mem_loopOrder.mp hs
    rcases Nat.le_one_iff_eq_zero_or_eq_one.mp hr with h | h <;> rw [h] <;> decide
  have kept := pllLoop_kept ref start
  rw [List.nil_append] at kept
  unfold settings pllSearch
  rcases kept with h | h
  · cases h with
    | none best _ all => exact .inl ⟨best,all⟩
    | some best minor _ less =>
      rw [minor] at less
      exact .inr ⟨best,less⟩
  · refine .inr ⟨h.best,?_⟩
    rw [h.exact]
    exact limit_pos

def Flow.search : Flow → Search
  | .next v | .leave v | .find v => v

def ended : Except Search Search → Search
  | .ok v | .error v => v

theorem improve_divs (v : Search) (s : Setting) (minor : Nat) :
    (Flow.next (v.improve s minor)).search.divs = v.divs ∧
    (Flow.leave (v.improve s minor)).search.divs = v.divs := by
  unfold Search.improve
  split <;> exact ⟨rfl,rfl⟩

theorem tryDf_search (no freq : Nat) (s : Setting) (v : Search) :
    (tryDf no freq s v).search.divs = v.divs ++ [s.divr + 1] ∨
    (tryDf no freq s v).search.divs = v.divs ++ [s.divr + 1] ++ [s.base] := by
  unfold tryDf
  dsimp only
  by_cases ref : srcFreq / (s.divr + 1) < 10
  · rw [if_pos ref]
    exact .inl rfl
  rw [if_neg ref]
  by_cases low : 1000 / srcFreq > (s.divf + 1) / (s.divr + 1)
  · rw [if_pos low]
    exact .inl rfl
  rw [if_neg low]
  by_cases high : 2000 / srcFreq < (s.divf + 1) / (s.divr + 1)
  · rw [if_pos high]
    exact .inl rfl
  rw [if_neg high]
  apply Or.inr
  by_cases equal : s.freq = freq
  · rw [if_pos equal]
    rfl
  rw [if_neg equal]
  by_cases below : s.freq < freq
  · rw [if_pos below]
    exact (improve_divs _ _ _).1
  rw [if_neg below]
  by_cases pllC : no = 2
  · rw [if_pos pllC]
    exact (improve_divs _ _ _).2
  · rw [if_neg pllC]
    rfl

theorem tryDf_divs (no freq : Nat) {P : Nat → Prop} (hr : P (s.divr + 1)) (hb : P s.base)
    (hv : ∀ d ∈ v.divs, P d) : ∀ d ∈ (tryDf no freq s v).search.divs, P d := by
  intro d hd
  rcases tryDf_search no freq s v with h | h <;> rw [h] at hd
  · rcases List.mem_append.mp hd with hd | hd
    · exact hv d hd
    · exact List.mem_singleton.mp hd ▸ hr
  rcases List.mem_append.mp hd with hd | hd
  · rcases List.mem_append.mp hd with hd | hd
    · exact hv d hd
    · exact List.mem_singleton.mp hd ▸ hr
  · exact List.mem_singleton.mp hd ▸ hb

theorem dfLoop_divs (no freq : Nat) (dfs : List Nat) {P : Nat → Prop} (hr : P (s.divr + 1)) (hb : P s.base)
    (hv : ∀ d ∈ v.divs, P d) :
    ∀ d ∈ (ended (dfLoop no freq s dfs v)).divs, P d := by
  induction dfs generalizing v with
  | nil => exact hv
  | cons df dfs ih =>
    have inner := tryDf_divs no freq (s := { s with divf := df }) hr hb hv
    unfold dfLoop
    generalize tryDf no freq { s with divf := df } v = flow at inner
    cases flow with
    | next w => exact ih inner
    | leave w => exact inner
    | find w => exact inner

theorem pllLoop_divs {P : Nat → Prop} {rest : List Setting} (hv : ∀ d ∈ v.divs, P d)
    (hs : ∀ s ∈ rest, P (s.divr + 1) ∧ P s.base) : ∀ d ∈ (pllLoop no freq rest v).divs, P d := by
  induction rest generalizing v with
  | nil => exact hv
  | cons s rest ih =>
    have inner := dfLoop_divs no freq (List.range 256) (hs s (by simp)).1 (hs s (by simp)).2 hv
    unfold pllLoop
    generalize dfLoop no freq s (List.range 256) v = result at inner
    cases result with
    | ok w => exact ih inner fun t ht => hs t (List.mem_cons_of_mem _ ht)
    | error w => exact inner

end Apc8750.Clock
