import Apc8750.Gmp.Blocks

namespace Apc8750.Gmp
open Function
open Tiles (Tiled)

variable {pool : Pool} {d d' : Descs} {bs bs' : List Nat}

theorem orderLoop_le_iff (val k : Nat) : orderLoop val ≤ k ↔ val < 2 ^ k := by
  induction val using Nat.strong_induction_on generalizing k with
  | _ val ih =>
    unfold orderLoop
    split
    · rename_i h0
      simp [h0,Nat.two_pow_pos]
    rename_i h0
    have hhalf : val >>> 1 = val / 2 := by simp [Nat.shiftRight_eq_div_pow]
    rw [hhalf]
    cases k with
    | zero => simp; omega
    | succ k =>
      rw [Nat.succ_le_succ_iff,ih (val / 2) (by omega),Nat.pow_succ]
      omega

theorem gmpGetOrder_le_iff (size k : Nat) : gmpGetOrder size ≤ k ↔ size ≤ 2 ^ k * 2 ^ gmpShift := by
  have hpos : 0 < 2 ^ k * 2 ^ gmpShift := Nat.mul_pos (Nat.two_pow_pos _) (Nat.two_pow_pos _)
  unfold gmpGetOrder
  split
  · rename_i h0
    simp [h0]
  · rw [orderLoop_le_iff,Nat.shiftRight_eq_div_pow,Nat.div_lt_iff_lt_mul (Nat.two_pow_pos _)]
    omega

theorem initDescs_laid (hi : i < pool.nr) :
    Laid pool.nr (initDescs pool d) i (List.range' i (pool.nr - i)) := by
  have hnr : ∀ j < pool.nr, gmpNr (initDescs pool d j) = 1 := by
    intro j hj
    rw [initDescs,if_pos hj,gmpNr_eq]
    rfl
  have htail : ∀ j < pool.nr, (initDescs pool d j).tail = decide (j + 1 = pool.nr) := by
    intro j hj
    rw [initDescs,if_pos hj]
  refine ⟨?_,fun j hj => ?_⟩
  · obtain ⟨m,hm⟩ : ∃ m, pool.nr - i = m + 1 := ⟨pool.nr - i - 1,by omega⟩
    rw [hm]
    induction m generalizing i with
    | zero => exact .single (by rw [htail i hi]; simp; omega) (by simp only [hnr i hi]; omega)
    | succ m ih =>
      rw [List.range'_succ]
      refine .cons (by rw [htail i hi]; simp; omega) ?_
      simp only [hnr i hi]
      exact ih (by omega) (by omega)
  · have hj := List.mem_range'_1.mp hj
    rw [hnr j (by omega)]
    exact Nat.one_dvd j

theorem initDescs_next (hj : j + 1 < pool.nr) : nextGmdesc (initDescs pool d) j = some (j + 1) := by
  have hmark : ¬ decide (j + 1 = pool.nr) = true := by simp; omega
  rw [nextGmdesc,initDescs,if_pos (Nat.lt_of_succ_lt hj),if_neg hmark,gmpNr_eq]
  rfl

theorem initDescs_addressed : Addressed pool (initDescs pool d) := by
  intro j hj
  rw [initDescs,if_pos hj,Nat.shiftLeft_eq]

theorem prevLoop_singles (hsingle : ∀ j < p, nextGmdesc d j = some (j + 1)) (hle : next ≤ p)
    (hfuel : p < next + fuel) (q : Nat) :
    prevLoop d p fuel q next = some (if next = p then q else p - 1) := by
  induction fuel generalizing next q with
  | zero => omega
  | succ fuel ih =>
    unfold prevLoop
    split
    · rfl
    simp only [hsingle next (by omega)]
    rw [ih (by omega) (by omega)]
    congr 1
    split <;> omega

theorem prevGmdesc_singles (hsingle : ∀ j < p, nextGmdesc d j = some (j + 1)) (hfuel : p < fuel) :
    prevGmdesc fuel d p = some (if p = 0 then none else some (p - 1)) := by
  unfold prevGmdesc
  split
  · rfl
  · rw [prevLoop_singles hsingle (Nat.zero_le p) (by omega),if_neg (by omega)]
    rfl

theorem resetLoop_returns (contents : Descs) (hm : 2 * pool.nr ≤ mergeFuel) (hfuel : p < fuel)
    (hp : p < pool.nr) (h : Laid pool.nr d p bs) (hg : Greedy pool.nr d bs.tail)
    (hfree : ∀ j ∈ bs, (d j).used = false) (ha : Addressed pool d)
    (hbelow : ∀ j < p, d j = initDescs pool contents j) :
    ∃ d' bs', resetLoop mergeFuel fuel d p = some d' ∧ Laid pool.nr d' 0 bs' ∧ Greedy pool.nr d' bs' ∧
      (∀ j ∈ bs', (d' j).used = false) ∧ Addressed pool d' := by
  induction p generalizing fuel d bs with
  | zero =>
    obtain ⟨fuel,rfl⟩ : ∃ f, fuel = f + 1 := ⟨fuel - 1,by omega⟩
    obtain ⟨r,d',bs',hmerge,hmerged⟩ := gmpMerge_returns hm h ha
    refine ⟨d',bs',?_,hmerged.laid,hmerged.greedy hfree hg,hmerged.unused hfree,hmerged.addressed ha⟩
    simp only [resetLoop,hmerge,prevGmdesc,if_true]
  | succ p ih =>
    obtain ⟨fuel,rfl⟩ : ∃ f, fuel = f + 1 := ⟨fuel - 1,by omega⟩
    obtain ⟨r,d',bs',hmerge,hmerged⟩ := gmpMerge_returns hm h ha
    have hbelow' : ∀ j < p + 1, d' j = initDescs pool contents j := fun j hj =>
      (hmerged.below j hj).trans (hbelow j hj)
    have hsingle : ∀ j < p + 1, nextGmdesc d' j = some (j + 1) := by
      intro j hj
      have hnext := initDescs_next (d := contents) (show j + 1 < pool.nr by omega)
      rw [nextGmdesc,hbelow' j hj]
      exact hnext
    have hprev := prevGmdesc_singles hsingle (show p + 1 < mergeFuel by omega)
    have hlaid : Laid pool.nr d' p (p :: bs') := by
      have hself := hbelow' p (Nat.lt_succ_self p)
      rw [initDescs,if_pos (by omega)] at hself
      refine ⟨.cons (by rw [hself]; simp; omega) ?_,fun j hj => ?_⟩
      · have hone : p + gmpNr (d' p) = p + 1 := by rw [hself,gmpNr_eq]; rfl
        simp only [hone]
        exact hmerged.laid.tiled
      rcases List.mem_cons.mp hj with rfl | hj
      · rw [hself,gmpNr_eq]
        exact Nat.one_dvd _
      · exact hmerged.laid.aligned j hj
    have hfree' : ∀ j ∈ p :: bs', (d' j).used = false := by
      intro j hj
      rcases List.mem_cons.mp hj with rfl | hj
      · rw [hbelow' _ (Nat.lt_succ_self _),initDescs,if_pos (by omega)]
      · exact hmerged.unused hfree j hj
    simp only [resetLoop,hmerge,hprev,if_neg (Nat.succ_ne_zero p),Nat.add_sub_cancel]
    exact ih (by omega) (by omega) hlaid (hmerged.greedy hfree hg) hfree' (hmerged.addressed ha)
      (fun j hj => hbelow' j (by omega))

structure Grounded (pool : Pool) (d : Descs) (bs : List Nat) : Prop where
  laid : Laid pool.nr d 0 bs
  addressed : Addressed pool d
  used : (d 0).used = true
  owner : (d 0).owner = -1
  room : sizeofGmdesc * pool.nr ≤ gmpSize (d 0)

theorem Laid.zero_mem (h : Laid n d 0 bs) : 0 ∈ bs := by
  obtain ⟨rest,rfl⟩ := h.tiled.eq_cons
  exact List.mem_cons_self

theorem Grounded.same (h : Grounded pool d bs) (hs : Same pool.nr d 0 bs d' bs') :
    Grounded pool d' bs' := by
  have hzero := (hs.stays 0 h.laid.zero_mem h.used).2
  exact ⟨hs.laid,hs.addressed h.addressed,hzero ▸ h.used,hzero ▸ h.owner,hzero ▸ h.room⟩

theorem Grounded.congr (h : Grounded pool d bs) (hzero : d' 0 = d 0)
    (hpa : ∀ j, (d' j).pa = (d j).pa) (horder : ∀ j ∈ bs, (d' j).order = (d j).order)
    (htail : ∀ j ∈ bs, (d' j).tail = (d j).tail) : Grounded pool d' bs :=
  ⟨h.laid.congr horder htail,fun j hj => (hpa j).trans (h.addressed j hj),hzero ▸ h.used,
    hzero ▸ h.owner,hzero ▸ h.room⟩

theorem Grounded.of_first (h : Laid pool.nr d 0 bs) (ha : Addressed pool d)
    (hroom : sizeofGmdesc * pool.nr ≤ gmpSize (d 0))
    (hzero : d' 0 = { d 0 with used := true, owner := -1 }) (hother : ∀ j ≠ 0, d' j = d j) :
    Grounded pool d' bs := by
  have hsame (j : Nat) : (d' j).pa = (d j).pa ∧ (d' j).order = (d j).order ∧ (d' j).tail = (d j).tail := by
    by_cases hj : j = 0
    · subst hj
      rw [hzero]
      exact ⟨rfl,rfl,rfl⟩
    · rw [hother j hj]
      exact ⟨rfl,rfl,rfl⟩
  refine ⟨h.congr (fun j _ => (hsame j).2.1) (fun j _ => (hsame j).2.2),
    fun j hj => (hsame j).1.trans (ha j hj),?_,?_,?_⟩ <;> rw [hzero]
  exact hroom

theorem Greedy.full (hg : Greedy n d bs) (h : Laid n d i bs) (hj : j ∈ bs) : Full d bs j := by
  rintro ⟨hdvd,hrun⟩
  have := Nat.two_pow_pos ((d j).order + 1)
  have hlast := (hrun (j + 2 ^ ((d j).order + 1) - 1) (by omega) (by omega)).lt h
  exact hg j hj ⟨hdvd,by omega⟩

theorem gmpReset_grounded (hnr : 0 < pool.nr) (hfuel : 2 * pool.nr ≤ fuel) (d : Descs) (pid : Nat) :
    ∃ d' bs, gmpReset fuel pool d pid = some (0,d') ∧ Grounded pool d' bs ∧ ∀ j ∈ bs, Full d' bs j := by
  have hlast : pool.nr - (pool.nr - 1) = 1 := by omega
  have hinit := initDescs_laid (d := d) (show pool.nr - 1 < pool.nr by omega)
  rw [hlast] at hinit
  obtain ⟨e,bs,hloop,hlaid,hg,hfree,ha⟩ := resetLoop_returns d hfuel
    (show pool.nr - 1 < fuel by omega) (by omega) hinit (fun j hj => absurd hj (by simp))
    (fun j hj => by
      have := List.mem_range'_1.mp hj
      rw [initDescs,if_pos (by omega)]) initDescs_addressed (fun _ _ => rfl)
  obtain ⟨rest,rfl⟩ := hlaid.tiled.eq_cons
  have hlarge : pool.nr < 2 ^ ((e 0).order + 1) := by
    by_contra hsmall
    exact hg 0 List.mem_cons_self ⟨Nat.dvd_zero _,by omega⟩
  have hfit : gmpGetOrder (sizeofGmdesc * pool.nr) ≤ (e 0).order := by
    rw [gmpGetOrder_le_iff]
    rw [Nat.pow_succ] at hlarge
    simp only [sizeofGmdesc,gmpShift]
    omega
  have hsmall : (e 0).order < fuel := by
    have hend : 0 + gmpNr (e 0) ≤ pool.nr := (hlaid.tiled.bounds List.mem_cons_self).2
    rw [gmpNr_eq] at hend
    have := Nat.lt_two_pow_self (n := (e 0).order)
    omega
  obtain ⟨d',new,hsplit,hsame,hnew,horder,hunused⟩ := splitLoop_returns _ fuel (by omega) hlaid ha
    (hfree 0 List.mem_cons_self) hfit
  obtain ⟨fuel,rfl⟩ : ∃ f, fuel = f + 1 := ⟨fuel - 1,by omega⟩
  have hfirst : (e 0).used = false ∧ (e 0).order ≥ gmpGetOrder (sizeofGmdesc * pool.nr) :=
    ⟨hfree 0 List.mem_cons_self,hfit⟩
  have halloc : gmpAlloc (fuel + 1) e (sizeofGmdesc * pool.nr) pid = some ((d' 0).pa, 0,
      update d' 0 { d' 0 with used := true, owner := pid }) := by
    simp only [gmpAlloc,allocLoop,if_pos hfirst,hsplit,Option.map_some,hunused,Bool.false_eq_true,
      if_false]
  have hroom : sizeofGmdesc * pool.nr ≤ gmpSize (d' 0) := by
    rw [gmpSize,gmpNr_eq,horder,Nat.shiftLeft_eq]
    exact (gmpGetOrder_le_iff _ _).mp (Nat.le_refl _)
  refine ⟨update d' 0 { d' 0 with used := true, owner := -1 },0 :: new,?_,
    .of_first hsame.laid (hsame.addressed ha) hroom (update_self _ _ _) ?_,
    fun j hj => full_taken hlaid (fun j hj => hg.full hlaid hj) hsame hnew (-1) hj⟩
  · rw [gmpReset,if_neg (by omega),hloop]
    simp only [halloc,Option.map_some,update_self,update_idem]
  · exact fun j hj => update_of_ne hj _ _

def Backs (d : Descs) (bs : List Nat) (b : Block) : Prop :=
  ∃ j ∈ bs, j ≠ 0 ∧ (d j).used = true ∧ (d j).pa = b.pa ∧ (d j).order = b.order ∧ (d j).owner = b.owner

structure PoolOk (pool : Pool) (s : State) (bs : List Nat) : Prop extends Grounded pool s.descs bs where
  full : ∀ j ∈ bs, Full s.descs bs j
  live : ∀ b ∈ s.live, Backs s.descs bs b
  nodup : (s.live.map Block.pa).Nodup
  splits : s.failedSplits = 0

theorem Backs.same {b : Block} (h : Backs d bs b) (hs : Same pool.nr d 0 bs d' bs') : Backs d' bs' b := by
  obtain ⟨j,hj,hne,hused,hb⟩ := h
  obtain ⟨hj',he⟩ := hs.stays j hj hused
  exact ⟨j,hj',hne,he ▸ hused,he ▸ hb⟩

theorem Backs.of_eq (h : Backs d bs b) (hsame : ∀ j ∈ bs, (d j).used = true →
    (d j).pa = b.pa → (d j).owner = b.owner → d' j = d j) : Backs d' bs b := by
  obtain ⟨j,hj,hne,hused,hpa,horder,howner⟩ := h
  have he := hsame j hj hused hpa howner
  exact ⟨j,hj,hne,he ▸ hused,he ▸ hpa,he ▸ horder,he ▸ howner⟩

theorem Addressed.inj (h : Addressed pool d) (hi : i < pool.nr) (hj : j < pool.nr)
    (he : (d i).pa = (d j).pa) : i = j := by
  rw [h i hi,h j hj] at he
  simp only [gmpShift] at he
  omega

theorem PoolOk.reset (hnr : 0 < pool.nr) (hfuel : 2 * pool.nr ≤ fuel) (h : s.failedSplits = 0)
    (pid : Nat) : ∃ t bs, step pool fuel s (.reset pid) = some t ∧ PoolOk pool t bs := by
  obtain ⟨d,bs,hreset,hg,hfull⟩ := gmpReset_grounded hnr hfuel s.descs pid
  refine ⟨⟨d,[],s.failedSplits + 0⟩,bs,by simp only [step,hreset,Option.map_some],hg,hfull,nofun,
    List.nodup_nil,h⟩

theorem Grounded.gmpAlloc (hfuel : 2 * pool.nr ≤ fuel) (h : Grounded pool d bs) (size pid : Nat) :
    (gmpAlloc fuel d size pid = some (0, 0, d) ∧
        ∀ j ∈ bs, (d j).used = false → (d j).order < gmpGetOrder size) ∨
      ∃ p d' bs', gmpAlloc fuel d size pid =
          some ((d' p).pa, 0, update d' p { d' p with used := true, owner := pid }) ∧
        (d' p).pa ≠ 0 ∧ p ≠ 0 ∧ p ∈ bs' ∧ Same pool.nr d 0 bs d' bs' ∧ Halved p d bs d' bs' ∧
        (d' p).order = gmpGetOrder size ∧ (d' p).used = false := by
  have hlen := h.laid.length_le
  have hzero := h.laid.lt h.laid.zero_mem
  rcases allocLoop_returns (gmpGetOrder size) (show pool.nr < fuel by omega)
    (show bs.length ≤ fuel by omega) h.laid h.addressed with
    ⟨hnone,hsmall⟩ | ⟨p,d',bs',hloop,hs,hnew,hp,horder,hfree⟩
  · exact .inl ⟨by simp only [Gmp.gmpAlloc,hnone],hsmall⟩
  have hg := h.same hs
  have hne : p ≠ 0 := by
    intro he
    rw [he,hg.used] at hfree
    cases hfree
  have hpa := hg.addressed p (hg.laid.lt hp)
  have hpos : (d' p).pa ≠ 0 := by
    have := Nat.mul_pos (Nat.pos_of_ne_zero hne) (Nat.two_pow_pos gmpShift)
    omega
  refine .inr ⟨p,d',bs',?_,hpos,hne,hp,hs,hnew,horder,hfree⟩
  simp only [Gmp.gmpAlloc,hloop,hfree,Bool.false_eq_true,if_false]

theorem Grounded.update (h : Grounded pool d bs) (hne : p ≠ 0) (used : Bool) (owner : Int) :
    Grounded pool (update d p { d p with used := used, owner := owner }) bs := by
  have hsame (j : Nat) : (Function.update d p { d p with used := used, owner := owner } j).pa = (d j).pa ∧
      (Function.update d p { d p with used := used, owner := owner } j).order = (d j).order ∧
      (Function.update d p { d p with used := used, owner := owner } j).tail = (d j).tail := by
    by_cases hj : j = p
    · subst hj
      simp
    · simp [hj]
  exact h.congr (Function.update_of_ne hne.symm _ _) (fun j => (hsame j).1) (fun j _ => (hsame j).2.1)
    (fun j _ => (hsame j).2.2)

theorem PoolOk.alloc (hfuel : 2 * pool.nr ≤ fuel) (h : PoolOk pool s bs) (size pid : Nat) :
    ∃ t bs', step pool fuel s (.alloc size pid) = some t ∧ PoolOk pool t bs' := by
  rcases h.toGrounded.gmpAlloc hfuel size pid with
    ⟨hnone,_⟩ | ⟨p,d,bs',halloc,hpos,hne,hp,hs,hnew,horder,hfree⟩
  · refine ⟨⟨s.descs,s.live,s.failedSplits + 0⟩,bs,?_,h.toGrounded,h.full,h.live,h.nodup,h.splits⟩
    simp only [step,hnone,Option.map_some,if_true]
  have hg := h.toGrounded.same hs
  refine ⟨⟨update d p { d p with used := true, owner := pid },
    ⟨(d p).pa,gmpGetOrder size,pid⟩ :: s.live,s.failedSplits + 0⟩,bs',?_,hg.update hne true pid,
    fun j hj => full_taken h.laid h.full hs hnew pid hj,?_,?_,h.splits⟩
  · simp only [step,halloc,Option.map_some,if_neg hpos]
  · intro b hb
    rcases List.mem_cons.mp hb with rfl | hb
    · exact ⟨p,hp,hne,by simp,by simp,by simpa using horder,by simp⟩
    refine ((h.live b hb).same hs).of_eq fun j _ hused _ _ => update_of_ne ?_ _ _
    intro he
    rw [he,hfree] at hused
    cases hused
  · refine List.nodup_cons.mpr ⟨fun hmem => ?_,h.nodup⟩
    obtain ⟨b,hb,he⟩ := List.mem_map.mp hmem
    obtain ⟨j,hj,_,hused,hpa',_⟩ := (h.live b hb).same hs
    have hjp := hg.addressed.inj (hg.laid.lt hj) (hg.laid.lt hp) (hpa'.trans he)
    rw [hjp,hfree] at hused
    cases hused

theorem PoolOk.giveBack (keep : Block → Bool) (hfuel : 2 * pool.nr ≤ fuel) (h : PoolOk pool s bs)
    (hg : Grounded pool d bs) (hkeep : ∀ b ∈ s.live, keep b = true → Backs d bs b) :
    ∃ d' bs', defrag fuel fuel d 0 = some d' ∧
      PoolOk pool ⟨d',s.live.filter keep,s.failedSplits⟩ bs' := by
  have hlen := hg.laid.length_le
  obtain ⟨d',bs',hloop,hs,hfull⟩ := defrag_returns hfuel (show bs.length ≤ fuel by omega) hg.laid
    hg.addressed
  refine ⟨d',bs',hloop,hg.same hs,hfull,fun b hb => ?_,?_,h.splits⟩
  · obtain ⟨hb,hk⟩ := List.mem_filter.mp hb
    exact (hkeep b hb hk).same hs
  · exact h.nodup.sublist (List.filter_sublist.map _)

theorem PoolOk.free (hfuel : 2 * pool.nr ≤ fuel) (h : PoolOk pool s bs) (pa pid : Nat) :
    ∃ t bs', step pool fuel s (.free pa pid) = some t ∧ PoolOk pool t bs' := by
  have hlen := h.laid.length_le
  rcases freeLoop_returns pa pid (show bs.length ≤ fuel by omega) h.laid with
    ⟨p,hp,hloop,hfound⟩ | ⟨hloop,_⟩
  · have hne : p ≠ 0 := by
      intro he
      have := hfound.2
      rw [he,h.owner] at this
      omega
    have hg : Grounded pool (release s.descs p) bs := h.toGrounded.update hne false 0
    obtain ⟨d',bs',hdefrag,hok⟩ := h.giveBack (fun b => ! (b.pa == pa && b.owner == pid)) hfuel hg
      fun b hb hk => (h.live b hb).of_eq fun j _ _ hpa howner => release_other fun he => by
        subst he
        rw [hfound.1] at hpa
        rw [hfound.2] at howner
        have howner : b.owner = pid := by omega
        simp [← hpa,howner] at hk
    exact ⟨_,bs',by simp only [step,gmpFree,hloop,hdefrag,Option.map_some],hok⟩
  · obtain ⟨d',bs',hdefrag,hok⟩ := h.giveBack (fun b => ! (b.pa == pa && b.owner == pid)) hfuel
      h.toGrounded fun b hb _ => h.live b hb
    exact ⟨_,bs',by simp only [step,gmpFree,hloop,hdefrag,Option.map_some],hok⟩

theorem PoolOk.invalidate (hfuel : 2 * pool.nr ≤ fuel) (h : PoolOk pool s bs) (pid : Nat) :
    ∃ t bs', step pool fuel s (.invalidate pid) = some t ∧ PoolOk pool t bs' := by
  have hlen := h.laid.length_le
  obtain ⟨d,hloop,hin,hout⟩ := invalidateLoop_returns pid (show bs.length ≤ fuel by omega) h.laid
  have hsame (j : Nat) : (d j).pa = (s.descs j).pa ∧ (d j).order = (s.descs j).order ∧
      (d j).tail = (s.descs j).tail := by
    by_cases hj : j ∈ bs
    · rw [hin j hj,invalidated]
      split <;> exact ⟨rfl,rfl,rfl⟩
    · rw [hout j hj]
      exact ⟨rfl,rfl,rfl⟩
  have hzero : d 0 = s.descs 0 := by
    rw [hin 0 h.laid.zero_mem,invalidated,h.owner,if_neg (by omega)]
  have hg := h.toGrounded.congr hzero (fun j => (hsame j).1) (fun j _ => (hsame j).2.1)
    (fun j _ => (hsame j).2.2)
  obtain ⟨d',bs',hdefrag,hok⟩ := h.giveBack (fun b => ! (b.owner == pid)) hfuel hg
    fun b hb hk => (h.live b hb).of_eq fun j hj _ _ howner => by
      rw [hin j hj,invalidated,howner,if_neg]
      intro he
      have he : b.owner = pid := by omega
      simp [he] at hk
  exact ⟨_,bs',by simp only [step,gmpInvalidate,hloop,hdefrag,Option.map_some],hok⟩

theorem PoolOk.step (hnr : 0 < pool.nr) (hfuel : 2 * pool.nr ≤ fuel) (h : PoolOk pool s bs) (op : Op) :
    ∃ t bs', step pool fuel s op = some t ∧ PoolOk pool t bs' := by
  cases op with
  | reset pid => exact PoolOk.reset hnr hfuel h.splits pid
  | alloc size pid => exact h.alloc hfuel size pid
  | free pa pid => exact h.free hfuel pa pid
  | invalidate pid => exact h.invalidate hfuel pid

theorem PoolOk.run (hnr : 0 < pool.nr) (hfuel : 2 * pool.nr ≤ fuel) (h : PoolOk pool s bs)
    (ops : List Op) : ∃ t bs', ops.foldlM (Gmp.step pool fuel) s = some t ∧ PoolOk pool t bs' := by
  induction ops generalizing s bs with
  | nil => exact ⟨s,bs,rfl,h⟩
  | cons op ops ih =>
    obtain ⟨t,bs',hstep,hok⟩ := h.step hnr hfuel op
    obtain ⟨u,cs,hrest,hok'⟩ := ih hok
    exact ⟨u,cs,by rw [List.foldlM_cons,hstep]; exact hrest,hok'⟩

/-- The blocks `bs` are those of the walk over the descriptors, and they partition the pool. -/
structure Partition (pool : Pool) (d : Descs) (bs : List Nat) : Prop where
  walked : blocks d pool.nr 0 = some bs
  first : bs.head? = some 0
  aligned : ∀ j ∈ bs, 2 ^ (d j).order ∣ j
  address : ∀ j ∈ bs, (d j).pa = pool.pa + j * 2 ^ gmpShift
  tail : ∀ j ∈ bs, (d j).tail = true ↔ bs.getLast? = some j
  adjacent : bs.IsChain fun j k => j + gmpNr (d j) = k
  ends : ∀ j, bs.getLast? = some j → (j + gmpNr (d j)) * 2 ^ gmpShift = pool.len

def Block.stop (b : Block) : Nat := b.pa + 2 ^ b.order * 2 ^ gmpShift

theorem Laid.blocks_eq (h : Laid n d i bs) (hfuel : bs.length ≤ fuel) : blocks d fuel i = some bs := by
  induction fuel generalizing i bs with
  | zero =>
    obtain ⟨rest,rfl⟩ := h.tiled.eq_cons
    simp at hfuel
  | succ fuel ih =>
    obtain ⟨rest,rfl⟩ := h.tiled.eq_cons
    unfold blocks
    split
    · rename_i hlast
      rw [(h.last hlast).2]
    · rename_i q hq
      rw [ih (h.next hq).2 (by simpa using hfuel)]
      rfl

theorem Grounded.partition (hmul : 2 ^ gmpShift ∣ pool.len) (h : Grounded pool d bs) :
    Partition pool d bs := by
  have hlen := h.laid.length_le
  obtain ⟨rest,hrest⟩ := h.laid.tiled.eq_cons
  refine ⟨h.laid.blocks_eq (by omega),by rw [hrest]; rfl,fun j hj => ?_,
    fun j hj => h.addressed j (h.laid.lt hj),fun j hj => ?_,h.laid.tiled.chain,fun j hj => ?_⟩
  · rw [← gmpNr_eq]
    exact h.laid.aligned j hj
  · exact h.laid.tiled.marked_iff (h.laid.tiled.nodup fun j _ => gmpNr_pos (d j)) hj
  · have hend : j + gmpNr (d j) = pool.nr := h.laid.tiled.ends hj
    rw [hend,Pool.nr,Nat.shiftRight_eq_div_pow,Nat.div_mul_cancel hmul]

theorem Backs.place (h : Backs d bs b) (hg : Grounded pool d bs) :
    ∃ j ∈ bs, j ≠ 0 ∧ b.pa = pool.pa + j * 2 ^ gmpShift ∧
      b.stop = pool.pa + (j + gmpNr (d j)) * 2 ^ gmpShift := by
  obtain ⟨j,hj,hne,_,hpa,horder,_⟩ := h
  have hpa := hpa.symm.trans (hg.addressed j (hg.laid.lt hj))
  refine ⟨j,hj,hne,hpa,?_⟩
  rw [Block.stop,hpa,← horder,gmpNr_eq,Nat.add_mul,Nat.add_assoc]

theorem Grounded.disjoint (hg : Grounded pool d bs) (ha : Backs d bs a) (hb : Backs d bs b)
    (hne : a.pa ≠ b.pa) : a.stop ≤ b.pa ∨ b.stop ≤ a.pa := by
  obtain ⟨j,hj,_,hpa,hstop⟩ := ha.place hg
  obtain ⟨k,hk,_,hpb,hstop'⟩ := hb.place hg
  have hjk : j ≠ k := by
    intro he
    rw [hpa,hpb,he] at hne
    exact hne rfl
  rw [hstop,hstop',hpa,hpb]
  rcases hg.laid.tiled.disjoint hj hk hjk with hbefore | hbehind
  · exact .inl (Nat.add_le_add_left (Nat.mul_le_mul_right _ hbefore) _)
  · exact .inr (Nat.add_le_add_left (Nat.mul_le_mul_right _ hbehind) _)

theorem Grounded.inside (hmul : 2 ^ gmpShift ∣ pool.len) (hg : Grounded pool d bs)
    (hb : Backs d bs b) :
    pool.pa + sizeofGmdesc * pool.nr ≤ b.pa ∧ b.stop ≤ pool.pa + pool.len := by
  obtain ⟨j,hj,hne,hpa,hstop⟩ := hb.place hg
  rw [hstop,hpa]
  constructor
  · have hroom := hg.room
    have hbefore : 0 + gmpNr (d 0) ≤ j := by
      rcases hg.laid.tiled.disjoint hg.laid.zero_mem hj hne.symm with hbefore | hbehind
      · exact hbefore
      · have hbehind : j + gmpNr (d j) ≤ 0 := hbehind
        have := gmpNr_pos (d j)
        omega
    rw [Nat.zero_add] at hbefore
    rw [gmpSize,Nat.shiftLeft_eq] at hroom
    exact Nat.add_le_add_left (Nat.le_trans hroom (Nat.mul_le_mul_right _ hbefore)) _
  · have hend : j + gmpNr (d j) ≤ pool.nr := (hg.laid.tiled.bounds hj).2
    have hwhole : pool.nr * 2 ^ gmpShift = pool.len := by
      rw [Pool.nr,Nat.shiftRight_eq_div_pow,Nat.div_mul_cancel hmul]
    exact Nat.add_le_add_left (hwhole ▸ Nat.mul_le_mul_right _ hend) _

/-- Every sequence of calls leaves the pool partitioned into blocks, the allocated ones disjoint. -/
theorem pool_partitioned (pool : Pool) (hlen : 0 < pool.len) (hmul : 2 ^ gmpShift ∣ pool.len)
    (fuel : Nat) (hfuel : 2 * pool.nr ≤ fuel) (contents : Descs) (pid : Nat) (ops : List Op) :
    ∃ s bs, run pool fuel contents pid ops = some s ∧ Partition pool s.descs bs ∧
      s.live.Pairwise (fun a b => a.stop ≤ b.pa ∨ b.stop ≤ a.pa) ∧
      (∀ b ∈ s.live, pool.pa + sizeofGmdesc * pool.nr ≤ b.pa ∧ b.stop ≤ pool.pa + pool.len) ∧
      s.failedSplits = 0 := by
  have hnr : 0 < pool.nr := by
    obtain ⟨m, hm⟩ := hmul
    rw [Pool.nr, hm, Nat.shiftRight_eq_div_pow, Nat.mul_div_cancel_left _ (Nat.two_pow_pos _)]
    by_contra h0
    rw [Nat.eq_zero_of_not_pos h0] at hm
    omega
  obtain ⟨t, cs, hreset, hstart⟩ := PoolOk.reset (s := ⟨contents, [], 0⟩) hnr hfuel rfl pid
  obtain ⟨s, bs, hrun, hok⟩ := hstart.run hnr hfuel ops
  refine ⟨s, bs, ?_, hok.partition hmul, ?_, fun b hb => hok.inside hmul (hok.live b hb), hok.splits⟩
  · rw [run, List.foldlM_cons, hreset]
    exact hrun
  · refine (List.pairwise_map.mp hok.nodup).imp_of_mem fun ha hb hne => ?_
    exact hok.disjoint (hok.live _ ha) (hok.live _ hb) hne

theorem pool_partitioned_small : ∃ s bs,
    run ⟨0x10000000, 5 * 65536⟩ 10 (fun _ => ⟨0, 0, false, 0, false⟩) 1
      [.alloc 100000 7, .free 0x10020000 8, .free 0x10020000 7] = some s ∧
      Partition ⟨0x10000000, 5 * 65536⟩ s.descs bs := by
  obtain ⟨s, bs, hrun, hpart, _⟩ := pool_partitioned ⟨0x10000000, 5 * 65536⟩ (by decide) (by decide) 10
    (by decide) (fun _ => ⟨0, 0, false, 0, false⟩) 1 [.alloc 100000 7, .free 0x10020000 8, .free 0x10020000 7]
  exact ⟨s, bs, hrun, hpart⟩

end Apc8750.Gmp
