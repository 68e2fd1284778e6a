import Apc8750.Gmp.Merge

namespace Apc8750.Gmp
open Tiles (Tiled)

theorem Laid.congr (h : Laid n d i bs) (horder : ∀ j ∈ bs, (d' j).order = (d j).order)
    (htail : ∀ j ∈ bs, (d' j).tail = (d j).tail) : Laid n d' i bs := by
  have hwidth : ∀ j ∈ bs, gmpNr (d' j) = gmpNr (d j) := fun j hj => by
    rw [gmpNr_eq,gmpNr_eq,horder j hj]
  exact ⟨h.tiled.congr hwidth htail,fun j hj => by rw [hwidth j hj]; exact h.aligned j hj⟩

def halves (d : Descs) (i k : Nat) : Descs := fun j =>
  if j = i then { d i with order := k, tail := false }
  else if j = i + 2 ^ k then
    { d (i + 2 ^ k) with order := k, used := (d i).used, tail := (d i).tail }
  else d j

theorem halves_other (hi : j ≠ i) (hp : j ≠ i + 2 ^ k) : halves d i k j = d j := by
  rw [halves,if_neg hi,if_neg hp]

theorem halves_self : halves d i k i = { d i with order := k, tail := false } := if_pos rfl

theorem halves_new : halves d i k (i + 2 ^ k) =
    { d (i + 2 ^ k) with order := k, used := (d i).used, tail := (d i).tail } := by
  have := Nat.two_pow_pos k
  rw [halves,if_neg (by omega),if_pos rfl]

theorem gmpSplit_eq (horder : (d i).order = k + 1)
    (hpa : (d (i + 2 ^ k)).pa = (d i).pa + 2 ^ k * 2 ^ gmpShift) :
    gmpSplit d i = (0, halves d i k) := by
  have hne : i + 2 ^ k ≠ i := by
    have := Nat.two_pow_pos k
    omega
  have hsize : gmpSize { d i with order := k } = 2 ^ k * 2 ^ gmpShift := by
    rw [gmpSize,gmpNr_eq,Nat.shiftLeft_eq]
  simp only [gmpSplit,horder,ne_eq,Nat.succ_ne_zero,not_false_eq_true,if_true,Nat.add_sub_cancel,
    Function.update_self,gmpNr_eq,hsize,Function.update_of_ne hne,Function.update_of_ne hne.symm,hpa,
    not_true_eq_false,if_false,Prod.mk.injEq,true_and]
  funext j
  unfold halves
  by_cases hi : j = i
  · subst hi
    simp
  by_cases hp : j = i + 2 ^ k
  · subst hp
    simp [hpa]
  · simp [hi,hp]

theorem halves_behind (h : Laid n d i (i :: rest)) (horder : (d i).order = k + 1) (hj : j ∈ rest) :
    halves d i k j = d j := by
  have hpos := Nat.two_pow_pos k
  have hstart : i + gmpNr (d i) ≤ j := (List.pairwise_cons.mp h.tiled.pairwise).1 j hj
  rw [gmpNr_eq,horder,Nat.pow_succ] at hstart
  exact halves_other (by omega) (by omega)

theorem halves_same (h : Laid n d i (i :: rest)) (hfree : (d i).used = false)
    (horder : (d i).order = k + 1) :
    Same n d i (i :: rest) (halves d i k) (i :: (i + 2 ^ k) :: rest) := by
  have hpos := Nat.two_pow_pos k
  have hwhole : gmpNr (d i) = 2 ^ k + 2 ^ k := by
    rw [gmpNr_eq,horder,Nat.pow_succ]
    omega
  have hdvd : 2 ^ k ∣ i := by
    have := h.aligned i List.mem_cons_self
    rw [hwhole,← Nat.two_mul] at this
    exact Nat.dvd_trans (Nat.dvd_mul_left _ _) this
  have hbehind : ∀ j ∈ rest, halves d i k j = d j := fun j hj => halves_behind h horder hj
  have hnew : Tiled (fun j => gmpNr (halves d i k j)) (fun j => (halves d i k j).tail) n (i + 2 ^ k)
      ((i + 2 ^ k) :: rest) := by
    have hmark : (halves d i k (i + 2 ^ k)).tail = (d i).tail := by rw [halves_new]
    have hend : i + 2 ^ k + gmpNr (halves d i k (i + 2 ^ k)) = i + gmpNr (d i) := by
      have horder' : (halves d i k (i + 2 ^ k)).order = k := by rw [halves_new]
      rw [hwhole,gmpNr_eq,horder',Nat.add_assoc]
    cases h.tiled with
    | single marked ends => exact .single (hmark.trans marked) (hend.trans ends)
    | cons unmarked hrest =>
      refine .cons (hmark.trans unmarked) ?_
      simp only [hend]
      exact hrest.congr (fun j hj => by rw [hbehind j hj]) (fun j hj => by rw [hbehind j hj])
  refine ⟨⟨.cons (by rw [halves_self]) ?_,?_⟩,fun j hj => halves_other (by omega) (by omega),?_,?_,?_⟩
  · rw [halves_self,gmpNr_eq]
    exact hnew
  · intro j hj
    rcases List.mem_cons.mp hj with rfl | hj
    · rw [halves_self,gmpNr_eq]
      exact hdvd
    rcases List.mem_cons.mp hj with rfl | hj
    · rw [halves_new,gmpNr_eq]
      exact Nat.dvd_add hdvd (Nat.dvd_refl _)
    · rw [hbehind j hj]
      exact h.aligned j (List.mem_cons_of_mem _ hj)
  · intro j
    unfold halves
    split
    · rename_i he
      rw [he]
    split
    · rename_i he
      rw [he]
    · rfl
  · intro j hj hu
    rcases List.mem_cons.mp hj with rfl | hj
    · exact absurd (hfree.symm.trans hu) (by decide)
    · exact ⟨List.mem_cons_of_mem _ (List.mem_cons_of_mem _ hj),hbehind j hj⟩
  · intro j hj hu
    rcases List.mem_cons.mp hj with rfl | hj
    · rw [halves_self] at hu
      exact absurd (hfree.symm.trans hu) (by decide)
    rcases List.mem_cons.mp hj with rfl | hj
    · rw [halves_new] at hu
      exact absurd (hfree.symm.trans hu) (by decide)
    · exact ⟨List.mem_cons_of_mem _ hj,hbehind j hj⟩

/-- Other than `p`, which is split, blocks are as they were or second halves. -/
def Halved (p : Nat) (d : Descs) (bs : List Nat) (d' : Descs) (bs' : List Nat) : Prop :=
  ∀ j ∈ bs', j ≠ p → (j ∈ bs ∧ d' j = d j) ∨ ¬ 2 ^ ((d' j).order + 1) ∣ j

theorem Halved.cons (h : Halved p d rest d' bs') (hi : d' i = d i) :
    Halved p d (i :: rest) d' (i :: bs') := by
  intro j hj hne
  rcases List.mem_cons.mp hj with rfl | hj
  · exact .inl ⟨List.mem_cons_self,hi⟩
  · exact (h j hj hne).imp_left fun hold => ⟨List.mem_cons_of_mem _ hold.1,hold.2⟩

theorem halves_halved (h : Laid n d i (i :: rest)) (horder : (d i).order = k + 1)
    (hs : Halved i (halves d i k) (i :: (i + 2 ^ k) :: rest) d' bs') : Halved i d (i :: rest) d' bs' := by
  intro j hj hne
  refine (hs j hj hne).elim (fun hold => ?_) .inr
  rcases List.mem_cons.mp hold.1 with rfl | hmem
  · exact absurd rfl hne
  rcases List.mem_cons.mp hmem with rfl | hrest
  · right
    have haligned := h.aligned i List.mem_cons_self
    rw [gmpNr_eq,horder] at haligned
    have hnew : (d' (i + 2 ^ k)).order = k := by rw [hold.2,halves_new]
    rw [hnew]
    intro hdvd
    have := behind_order_le haligned hdvd
    omega
  · exact .inl ⟨List.mem_cons_of_mem _ hrest,hold.2.trans (halves_behind h horder hrest)⟩

theorem splitLoop_returns (order fuel : Nat) (hfuel : (d i).order < fuel + order) (h : Laid pool.nr d i (i :: rest))
    (ha : Addressed pool d) (hfree : (d i).used = false) (hge : order ≤ (d i).order) :
    ∃ d' new, splitLoop order fuel d i = some (0,d') ∧ Same pool.nr d i (i :: rest) d' (i :: new) ∧
      Halved i d (i :: rest) d' (i :: new) ∧ (d' i).order = order ∧ (d' i).used = false := by
  induction fuel generalizing d rest with
  | zero => omega
  | succ fuel ih =>
    unfold splitLoop
    split
    · rename_i hgt
      obtain ⟨k,hk⟩ : ∃ k, (d i).order = k + 1 := ⟨(d i).order - 1,by omega⟩
      have hend : i + gmpNr (d i) ≤ pool.nr := (h.tiled.bounds List.mem_cons_self).2
      have hpos := Nat.two_pow_pos k
      rw [gmpNr_eq,hk,Nat.pow_succ] at hend
      have hpa : (d (i + 2 ^ k)).pa = (d i).pa + 2 ^ k * 2 ^ gmpShift := by
        rw [ha _ (by omega),ha i (by omega),Nat.add_mul,Nat.add_assoc]
      have hsame := halves_same h hfree hk
      have horder : (halves d i k i).order = k := by rw [halves_self]
      have hfree' : (halves d i k i).used = false := by rw [halves_self]; exact hfree
      obtain ⟨d',new,hloop,hs,hnew,hend⟩ := ih (by omega) hsame.laid (hsame.addressed ha) hfree' (by omega)
      simp only [gmpSplit_eq hk hpa,hloop]
      exact ⟨d',new,rfl,hsame.trans hs,halves_halved h hk hnew,hend⟩
    · exact ⟨d,rest,rfl,.refl h,fun j hj _ => .inl ⟨hj,rfl⟩,by omega,hfree⟩

theorem allocLoop_returns (order : Nat) (hs : pool.nr < splitFuel) (hfuel : bs.length ≤ fuel)
    (h : Laid pool.nr d i bs) (ha : Addressed pool d) :
    (allocLoop splitFuel order fuel d i = some (none, 0, d) ∧
        ∀ j ∈ bs, (d j).used = false → (d j).order < order) ∨
      ∃ p d' bs', allocLoop splitFuel order fuel d i = some (some p, 0, d') ∧
        Same pool.nr d i bs d' bs' ∧ Halved p d bs d' bs' ∧ p ∈ bs' ∧ (d' p).order = order ∧
        (d' p).used = false := by
  induction fuel generalizing d i bs with
  | zero =>
    obtain ⟨rest,rfl⟩ := h.tiled.eq_cons
    simp at hfuel
  | succ fuel ih =>
    obtain ⟨rest,rfl⟩ := h.tiled.eq_cons
    unfold allocLoop
    split
    · rename_i hfit
      have hsmall : (d i).order < splitFuel := by
        have hend : i + gmpNr (d i) ≤ pool.nr := (h.tiled.bounds List.mem_cons_self).2
        rw [gmpNr_eq] at hend
        have := Nat.lt_two_pow_self (n := (d i).order)
        omega
      obtain ⟨d',new,hloop,hsame,hnew,horder,hfree⟩ := splitLoop_returns order
        splitFuel (by omega) h ha hfit.1 hfit.2
      exact .inr ⟨i,d',_,by rw [hloop]; rfl,hsame,hnew,List.mem_cons_self,horder,hfree⟩
    · rename_i hunfit
      have hfirst (hfree : (d i).used = false) : (d i).order < order := by
        by_contra hge
        exact hunfit ⟨hfree,by omega⟩
      split
      · rename_i hlast
        refine .inl ⟨rfl,fun j hj => ?_⟩
        rw [(h.last hlast).2,List.mem_singleton] at hj
        exact hj ▸ hfirst
      rename_i q hq
      obtain ⟨_,hrest⟩ := h.next hq
      rcases ih (by simpa using hfuel) hrest ha with
        ⟨hnone,hsmall⟩ | ⟨p,d',bs',hloop,hsame,hnew,hp,hfound⟩
      · refine .inl ⟨hnone,fun j hj => ?_⟩
        rcases List.mem_cons.mp hj with rfl | hj
        · exact hfirst
        · exact hsmall j hj
      · exact .inr ⟨p,d',_,hloop,.cons h hq hsame,hnew.cons (hsame.below i (next_lt hq)),
          List.mem_cons_of_mem _ hp,hfound⟩

theorem full_taken (hl : Laid n d i bs) (hfull : ∀ j ∈ bs, Full d bs j) (hs : Same n d i bs d' bs')
    (hh : Halved p d bs d' bs') (owner : Int) (hj : j ∈ bs') :
    Full (Function.update d' p { d' p with used := true, owner := owner }) bs' j := by
  generalize he : Function.update d' p { d' p with used := true, owner := owner } = e
  have hself : e p = { d' p with used := true, owner := owner } := by rw [← he,Function.update_self]
  have hother (k : Nat) (hk : k ≠ p) : e k = d' k := by rw [← he,Function.update_of_ne hk]
  have hfree (u : Nat) (h : FreeUnit e bs' u) : FreeUnit d bs u := by
    obtain ⟨k,hk,hunused,hku⟩ := h
    have hkp : k ≠ p := by
      rintro rfl
      rw [hself] at hunused
      cases hunused
    rw [hother k hkp] at hunused hku
    exact (hs.freeUnit hl).mp ⟨k,hk,hunused,hku⟩
  rintro ⟨hdvd,hrun⟩
  by_cases hjp : j = p
  · subst hjp
    obtain ⟨k,hk,hunused,hku⟩ := hrun j (Nat.le_refl j) (by have := Nat.two_pow_pos ((e j).order + 1); omega)
    have hpos := gmpNr_pos (d' j)
    have hsame : k = j := by
      by_contra hne
      rw [hother k hne] at hku
      exact hne (hs.laid.unique hk hj hku ⟨Nat.le_refl j,by omega⟩)
    rw [hsame,hself] at hunused
    cases hunused
  · rw [hother j hjp] at hdvd hrun
    rcases hh j hj hjp with ⟨hold,hsame⟩ | hodd
    · rw [hsame] at hdvd hrun
      exact hfull j hold ⟨hdvd,fun u hl hu => hfree u (hrun u hl hu)⟩
    · exact hodd hdvd

theorem freeLoop_returns (pa pid : Nat) (hfuel : bs.length ≤ fuel) (h : Laid n d i bs) :
    (∃ p ∈ bs, freeLoop pa pid fuel d i = some (some p) ∧ (d p).pa = pa ∧ (d p).owner = pid) ∨
      freeLoop pa pid fuel d i = some none ∧ ∀ p ∈ bs, ¬ ((d p).pa = pa ∧ (d p).owner = pid) := by
  induction fuel generalizing i bs with
  | zero =>
    obtain ⟨rest,rfl⟩ := h.tiled.eq_cons
    simp at hfuel
  | succ fuel ih =>
    obtain ⟨rest,rfl⟩ := h.tiled.eq_cons
    unfold freeLoop
    split
    · rename_i hfound
      exact .inl ⟨i,List.mem_cons_self,rfl,hfound⟩
    rename_i hnot
    split
    · rename_i hlast
      refine .inr ⟨rfl,fun p hp => ?_⟩
      rw [(h.last hlast).2,List.mem_singleton] at hp
      exact hp ▸ hnot
    rename_i q hq
    obtain ⟨_,hrest⟩ := h.next hq
    rcases ih (by simpa using hfuel) hrest with ⟨p,hp,hfound⟩ | ⟨hnone,hno⟩
    · exact .inl ⟨p,List.mem_cons_of_mem _ hp,hfound⟩
    refine .inr ⟨hnone,fun p hp => ?_⟩
    rcases List.mem_cons.mp hp with rfl | hp
    · exact hnot
    · exact hno p hp

/-- What `gmp_invalidate` leaves of a descriptor that it comes by. -/
def invalidated (pid : Nat) (g : Gmdesc) : Gmdesc :=
  if g.owner = pid then { g with used := false, owner := 0 } else g

theorem release_self : release d p p = { d p with used := false, owner := 0 } := by
  simp [release]

theorem release_other (h : j ≠ p) : release d p j = d j := by
  simp [release,h]

theorem invalidateLoop_returns (pid : Nat) (hfuel : bs.length ≤ fuel) (h : Laid n d i bs) :
    ∃ d', invalidateLoop pid fuel d i = some d' ∧ (∀ j ∈ bs, d' j = invalidated pid (d j)) ∧
      ∀ j, j ∉ bs → d' j = d j := by
  induction fuel generalizing d i bs with
  | zero =>
    obtain ⟨rest,rfl⟩ := h.tiled.eq_cons
    simp at hfuel
  | succ fuel ih =>
    obtain ⟨rest,rfl⟩ := h.tiled.eq_cons
    generalize hd : (if (d i).owner = pid then release d i else d) = d'
    have hi : d' i = invalidated pid (d i) := by
      rw [← hd,invalidated]
      split
      · exact release_self
      · rfl
    have hother : ∀ j ≠ i, d' j = d j := by
      intro j hj
      rw [← hd]
      split
      · exact release_other hj
      · rfl
    have hnext : nextGmdesc d' i = nextGmdesc d i := by
      have horder : (d' i).order = (d i).order ∧ (d' i).tail = (d i).tail := by
        rw [hi,invalidated]
        split <;> exact ⟨rfl,rfl⟩
      simp only [nextGmdesc,gmpNr_eq,horder]
    have hbehind : ∀ j ∈ rest, j ≠ i := by
      intro j hj he
      have := (List.pairwise_cons.mp h.tiled.pairwise).1 j hj
      have := gmpNr_pos (d i)
      omega
    simp only [invalidateLoop,hd,hnext]
    split
    · rename_i hlast
      obtain ⟨_,rfl⟩ := h.last hlast
      refine ⟨d',rfl,fun j hj => ?_,fun j hj => hother j (by simpa using hj)⟩
      rw [List.mem_singleton.mp hj]
      exact hi
    rename_i q hq
    obtain ⟨_,hrest⟩ := h.next hq
    have hrest' : Laid n d' q rest := hrest.congr (fun j hj => by rw [hother j (hbehind j hj)])
      (fun j hj => by rw [hother j (hbehind j hj)])
    obtain ⟨e,hloop,hin,hout⟩ := ih (by simpa using hfuel) hrest'
    refine ⟨e,hloop,fun j hj => ?_,fun j hj => ?_⟩
    · rcases List.mem_cons.mp hj with rfl | hj
      · rw [hout _ fun hmem => hbehind _ hmem rfl,hi]
      · rw [hin j hj,hother j (hbehind j hj)]
    · rw [hout j fun hmem => hj (List.mem_cons_of_mem _ hmem),
        hother j fun he => hj (he ▸ List.mem_cons_self)]

end Apc8750.Gmp
