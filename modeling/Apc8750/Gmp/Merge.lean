import Apc8750.Gmp.Model
import Mathlib.Algebra.Order.Group.Nat
import Mathlib.Algebra.GroupWithZero.Nat

namespace Apc8750.Gmp
open Tiles (Tiled)

@[simp]
theorem gmpNr_eq (g : Gmdesc) : gmpNr g = 2 ^ g.order := by
  rw [gmpNr,Nat.one_shiftLeft]

theorem gmpNr_pos (g : Gmdesc) : 0 < gmpNr g := by
  rw [gmpNr_eq]
  exact Nat.two_pow_pos _

/-- The blocks `bs` are laid out from `i` to the end of the array, each at a multiple of
its size. -/
structure Laid (n : Nat) (d : Descs) (i : Nat) (bs : List Nat) : Prop where
  tiled : Tiled (fun j => gmpNr (d j)) (fun j => (d j).tail) n i bs
  aligned : ∀ j ∈ bs, gmpNr (d j) ∣ j

def Addressed (pool : Pool) (d : Descs) : Prop :=
  ∀ j < pool.nr, (d j).pa = pool.pa + j * 2 ^ gmpShift

def Greedy (n : Nat) (d : Descs) (bs : List Nat) : Prop :=
  ∀ j ∈ bs, ¬ (2 ^ ((d j).order + 1) ∣ j ∧ j + 2 ^ ((d j).order + 1) ≤ n)

def FreeUnit (d : Descs) (bs : List Nat) (u : Nat) : Prop :=
  ∃ j ∈ bs, (d j).used = false ∧ j ≤ u ∧ u < j + gmpNr (d j)

/-- From `a` on there are as many free units as in a block of order `k`. -/
def FreeRun (d : Descs) (bs : List Nat) (a k : Nat) : Prop :=
  ∀ u, a ≤ u → u < a + 2 ^ k → FreeUnit d bs u

def Full (d : Descs) (bs : List Nat) (j : Nat) : Prop :=
  ¬ (2 ^ ((d j).order + 1) ∣ j ∧ FreeRun d bs j ((d j).order + 1))

/-- From `d` to `d'`, free blocks from `i` on have been joined or split: the used ones are
the same. -/
structure Same (n : Nat) (d : Descs) (i : Nat) (bs : List Nat) (d' : Descs) (bs' : List Nat) : Prop where
  laid : Laid n d' i bs'
  below : ∀ j < i, d' j = d j
  pa : ∀ j, (d' j).pa = (d j).pa
  stays : ∀ j ∈ bs, (d j).used = true → j ∈ bs' ∧ d' j = d j
  back : ∀ j ∈ bs', (d' j).used = true → j ∈ bs ∧ d' j = d j

theorem Laid.lt (h : Laid n d i bs) (hj : j ∈ bs) : j < n := by
  have hend : j + gmpNr (d j) ≤ n := (h.tiled.bounds hj).2
  have := gmpNr_pos (d j)
  omega

theorem Laid.covers (h : Laid n d i bs) (hi : i ≤ u) (hu : u < n) :
    ∃ j ∈ bs, j ≤ u ∧ u < j + gmpNr (d j) := h.tiled.covers hi hu

theorem Laid.unique (h : Laid n d i bs) (hj : j ∈ bs) (hk : k ∈ bs) (hju : j ≤ u ∧ u < j + gmpNr (d j))
    (hku : k ≤ u ∧ u < k + gmpNr (d k)) : j = k := by
  by_contra hne
  have hapart : j + gmpNr (d j) ≤ k ∨ k + gmpNr (d k) ≤ j := h.tiled.disjoint hj hk hne
  omega

theorem Laid.not_free (h : Laid n d i bs) (hj : j ∈ bs) (hused : (d j).used = true)
    (hu : j ≤ u ∧ u < j + gmpNr (d j)) : ¬ FreeUnit d bs u := by
  rintro ⟨k,hk,hfree,hku⟩
  rw [← h.unique hj hk hu hku,hused] at hfree
  cases hfree

theorem FreeUnit.lt (h : FreeUnit d bs u) (hl : Laid n d i bs) : u < n := by
  obtain ⟨j,hj,_,_,hu⟩ := h
  have hend : j + gmpNr (d j) ≤ n := (hl.tiled.bounds hj).2
  omega

theorem FreeRun.mono (h : FreeRun d bs a k) (hle : e' ≤ k) : FreeRun d bs a e' := by
  intro u hl hu
  have := Nat.pow_le_pow_right (n := 2) (by decide) hle
  exact h u hl (by omega)

theorem FreeUnit.behind (h : FreeUnit d (i :: rest) u) (hu : i + gmpNr (d i) ≤ u) : FreeUnit d rest u := by
  obtain ⟨j,hj,hfree,hju⟩ := h
  rcases List.mem_cons.mp hj with rfl | hj
  · omega
  · exact ⟨j,hj,hfree,hju⟩

theorem Laid.full_used (h : Laid n d i bs) (hj : j ∈ bs) (hused : (d j).used = true) : Full d bs j := by
  rintro ⟨_,hrun⟩
  have := gmpNr_pos (d j)
  have := Nat.two_pow_pos ((d j).order + 1)
  exact h.not_free hj hused ⟨Nat.le_refl j,by omega⟩ (hrun j (Nat.le_refl j) (by omega))

theorem Same.refl (h : Laid n d i bs) : Same n d i bs d bs :=
  ⟨h,fun _ _ => rfl,fun _ => rfl,fun _ hj _ => ⟨hj,rfl⟩,fun _ hj _ => ⟨hj,rfl⟩⟩

theorem Same.trans (h : Same n d i bs d' bs') (h' : Same n d' i bs' e cs) : Same n d i bs e cs where
  laid := h'.laid
  below := fun j hj => (h'.below j hj).trans (h.below j hj)
  pa := fun j => (h'.pa j).trans (h.pa j)
  stays := by
    intro j hj hu
    obtain ⟨hj',he⟩ := h.stays j hj hu
    obtain ⟨hj'',he'⟩ := h'.stays j hj' (he ▸ hu)
    exact ⟨hj'',he'.trans he⟩
  back := by
    intro j hj hu
    obtain ⟨hj',he⟩ := h'.back j hj hu
    obtain ⟨hj'',he'⟩ := h.back j hj' (he ▸ hu)
    exact ⟨hj'',he.trans he'⟩

theorem Laid.next (h : Laid n d i (i :: rest)) (hp : nextGmdesc d i = some p) :
    p = i + gmpNr (d i) ∧ Laid n d p rest := by
  unfold nextGmdesc at hp
  split at hp
  · cases hp
  rename_i htail
  cases hp
  refine ⟨rfl,?_,fun j hj => h.aligned j (List.mem_cons_of_mem _ hj)⟩
  cases h.tiled with
  | single marked => exact absurd marked htail
  | cons _ hrest => exact hrest

theorem Laid.last (h : Laid n d i (i :: rest)) (hp : nextGmdesc d i = none) :
    i + gmpNr (d i) = n ∧ rest = [] := by
  unfold nextGmdesc at hp
  split at hp
  · rename_i htail
    cases h.tiled with
    | single _ ends => exact ⟨ends,rfl⟩
    | cons unmarked => exact absurd (htail.symm.trans unmarked) (by decide)
  · cases hp

theorem next_lt (hp : nextGmdesc d i = some p) : i < p := by
  unfold nextGmdesc at hp
  split at hp
  · cases hp
  · cases hp
    have := gmpNr_pos (d i)
    omega

theorem Same.cons (h : Laid n d i (i :: rest)) (hp : nextGmdesc d i = some p)
    (hs : Same n d p rest d' bs') : Same n d i (i :: rest) d' (i :: bs') := by
  have hlt := next_lt hp
  have hsame := hs.below i hlt
  have htail : (d i).tail = false := by
    unfold nextGmdesc at hp
    split at hp
    · cases hp
    · rename_i htail
      simpa using htail
  refine ⟨⟨.cons (by rw [hsame]; exact htail) ?_,?_⟩,fun j hj => hs.below j (Nat.lt_trans hj hlt),
    hs.pa,?_,?_⟩
  · rw [hsame,← (h.next hp).1]
    exact hs.laid.tiled
  · intro j hj
    rcases List.mem_cons.mp hj with rfl | hj
    · rw [hsame]
      exact h.aligned _ List.mem_cons_self
    · exact hs.laid.aligned j hj
  · intro j hj hu
    rcases List.mem_cons.mp hj with rfl | hj
    · exact ⟨List.mem_cons_self,hsame⟩
    · obtain ⟨hj',he⟩ := hs.stays j hj hu
      exact ⟨List.mem_cons_of_mem _ hj',he⟩
  · intro j hj hu
    rcases List.mem_cons.mp hj with rfl | hj
    · exact ⟨List.mem_cons_self,hsame⟩
    · obtain ⟨hj',he⟩ := hs.back j hj hu
      exact ⟨List.mem_cons_of_mem _ hj',he⟩

theorem unaligned_iff (haligned : 2 ^ k ∣ i) :
    (i * 2 ^ gmpShift) >>> (k + gmpShift) &&& 1 ≠ 0 ↔ ¬ 2 ^ (k + 1) ∣ i := by
  obtain ⟨m,rfl⟩ := haligned
  have hquot : (2 ^ k * m * 2 ^ gmpShift) >>> (k + gmpShift) = m := by
    rw [Nat.shiftRight_eq_div_pow,Nat.pow_add,Nat.mul_right_comm,
      Nat.mul_div_cancel_left _ (Nat.mul_pos (Nat.two_pow_pos _) (Nat.two_pow_pos _))]
  rw [hquot,Nat.and_one_is_mod,Nat.pow_succ,Nat.mul_dvd_mul_iff_left (Nat.two_pow_pos k)]
  omega

theorem Addressed.start (h : Addressed pool d) (hi : i < pool.nr) :
    (d i).pa - (d 0).pa = i * 2 ^ gmpShift := by
  rw [h i hi,h 0 (Nat.zero_lt_of_lt hi)]
  omega

theorem Same.addressed (h : Same n d i bs d' bs') (ha : Addressed pool d) : Addressed pool d' :=
  fun j hj => (h.pa j).trans (ha j hj)

theorem join_other (hi : j ≠ i) (hp : j ≠ p) : join d i p j = d j := by
  simp [join,hi,hp]

theorem join_self (hne : i ≠ p) :
    join d i p i = { d i with order := (d i).order + 1, tail := (d p).tail } := by
  simp [join,hne]

theorem join_pa (d : Descs) (i p j : Nat) : (join d i p j).pa = (d j).pa := by
  unfold join
  by_cases hp : j = p
  · subst hp
    by_cases hi : j = i
    · simp [hi]
    · simp [hi]
  by_cases hi : j = i
  · subst hi
    simp [hp]
  · simp [hp,hi]

theorem join_same (h : Laid n d i (i :: rest)) (hp : nextGmdesc d i = some p)
    (hi : (d i).used = false) (hu : (d p).used = false) (horder : (d p).order = (d i).order)
    (haligned : 2 ^ ((d i).order + 1) ∣ i) :
    ∃ tail, rest = p :: tail ∧ Same n d i (i :: rest) (join d i p) (i :: tail) := by
  obtain ⟨hpi,hrest⟩ := h.next hp
  obtain ⟨tail,rfl⟩ := hrest.tiled.eq_cons
  have hwidth : gmpNr (d p) = gmpNr (d i) := by simp [horder]
  have hpos := gmpNr_pos (d i)
  have hne : i ≠ p := by omega
  have hdouble : gmpNr (join d i p i) = gmpNr (d i) + gmpNr (d p) := by
    rw [join_self hne,hwidth,gmpNr_eq,gmpNr_eq,Nat.pow_succ]
    omega
  have hbehind : ∀ j ∈ tail, join d i p j = d j := by
    intro j hj
    cases hrest.tiled with
    | single => cases hj
    | cons _ htail =>
      have hstart : p + gmpNr (d p) ≤ j := (htail.bounds hj).1
      exact join_other (by omega) (by omega)
  refine ⟨tail,rfl,⟨?_,?_⟩,fun j hj => join_other (by omega) (by omega),join_pa d i p,?_,?_⟩
  · have hmark : (join d i p i).tail = (d p).tail := by rw [join_self hne]
    cases hrest.tiled with
    | single marked ends =>
      have hend : p + gmpNr (d p) = n := ends
      exact .single (hmark.trans marked) (show i + gmpNr (join d i p i) = n by omega)
    | cons unmarked htail =>
      refine .cons (hmark.trans unmarked) ?_
      have hnext : i + gmpNr (join d i p i) = p + gmpNr (d p) := by omega
      simp only [hnext]
      exact htail.congr (fun j hj => by rw [hbehind j hj]) (fun j hj => by rw [hbehind j hj])
  · intro j hj
    rcases List.mem_cons.mp hj with rfl | hj
    · rw [join_self hne,gmpNr_eq]
      exact haligned
    · rw [hbehind j hj]
      exact h.aligned j (List.mem_cons_of_mem _ (List.mem_cons_of_mem _ hj))
  · intro j hj hused
    rcases List.mem_cons.mp hj with rfl | hj
    · exact absurd (hi.symm.trans hused) (by decide)
    rcases List.mem_cons.mp hj with rfl | hj
    · exact absurd (hu.symm.trans hused) (by decide)
    · exact ⟨List.mem_cons_of_mem _ hj,hbehind j hj⟩
  · intro j hj hused
    rcases List.mem_cons.mp hj with rfl | hj
    · rw [join_self hne] at hused
      exact absurd (hi.symm.trans hused) (by decide)
    · exact ⟨List.mem_cons_of_mem _ (List.mem_cons_of_mem _ hj),hbehind j hj⟩

/-- Joined blocks, the first of them as large as can be. -/
structure Merged (n : Nat) (d : Descs) (i : Nat) (bs : List Nat) (d' : Descs) (bs' : List Nat) : Prop
    extends Same n d i bs d' bs' where
  length : bs'.length ≤ bs.length
  full : Full d' bs' i
  greedy : (∀ j ∈ bs, (d j).used = false) → Greedy n d bs.tail → Greedy n d' bs'

theorem Same.unused (h : Same n d i bs d' bs') (hfree : ∀ j ∈ bs, (d j).used = false) :
    ∀ j ∈ bs', (d' j).used = false := by
  intro j hj
  by_contra hu
  have hu : (d' j).used = true := by simpa using hu
  obtain ⟨hj',he⟩ := h.back j hj hu
  rw [he,hfree j hj'] at hu
  cases hu

theorem Same.freeUnit (h : Same n d i bs d' bs') (hl : Laid n d i bs) :
    FreeUnit d' bs' u ↔ FreeUnit d bs u := by
  constructor
  · intro hfree
    obtain ⟨j,hj,_,hju⟩ := id hfree
    obtain ⟨k,hk,hku⟩ := hl.covers (Nat.le_trans (h.laid.tiled.bounds hj).1 hju.1) (hfree.lt h.laid)
    refine ⟨k,hk,?_,hku⟩
    by_contra hused
    have hused : (d k).used = true := by simpa using hused
    obtain ⟨hk',he⟩ := h.stays k hk hused
    exact h.laid.not_free hk' (he ▸ hused) (he ▸ hku) hfree
  · intro hfree
    obtain ⟨j,hj,_,hju⟩ := id hfree
    obtain ⟨k,hk,hku⟩ := h.laid.covers (Nat.le_trans (hl.tiled.bounds hj).1 hju.1) (hfree.lt hl)
    refine ⟨k,hk,?_,hku⟩
    by_contra hused
    have hused : (d' k).used = true := by simpa using hused
    obtain ⟨hk',he⟩ := h.back k hk hused
    exact hl.not_free hk' (he ▸ hused) (he ▸ hku) hfree

theorem Same.full (h : Same n d i bs d' bs') (hl : Laid n d i bs) (he : d' j = d j)
    (hf : Full d bs j) : Full d' bs' j := by
  rintro ⟨hdvd,hrun⟩
  rw [he] at hdvd hrun
  exact hf ⟨hdvd,fun u hj hu => (h.freeUnit hl).mp (hrun u hj hu)⟩

theorem Full.cons (hf : Full d rest j) (hl : Laid n d i (i :: rest)) (hj : j ∈ rest) :
    Full d (i :: rest) j := by
  rintro ⟨hdvd,hrun⟩
  have hbefore : i + gmpNr (d i) ≤ j := (List.pairwise_cons.mp hl.tiled.pairwise).1 j hj
  exact hf ⟨hdvd,fun u hju hu => (hrun u hju hu).behind (Nat.le_trans hbefore hju)⟩

theorem Greedy.tail (h : Greedy n d bs) : Greedy n d bs.tail :=
  fun j hj => h j (List.mem_of_mem_tail hj)

theorem Merged.trans (h : Merged n d i bs d' bs') (h' : Merged n d' i bs' e cs) : Merged n d i bs e cs :=
  ⟨h.toSame.trans h'.toSame,Nat.le_trans h'.length h.length,h'.full,fun hfree hg =>
    h'.greedy (h.unused hfree) (h.greedy hfree hg).tail⟩

theorem Merged.stuck (h : Laid n d i (i :: rest)) (hfull : Full d (i :: rest) i) :
    Merged n d i (i :: rest) d (i :: rest) := by
  refine ⟨.refl h,Nat.le_refl _,hfull,fun hfree hg j hj => ?_⟩
  rcases List.mem_cons.mp hj with rfl | hj
  · rintro ⟨hdvd,hroom⟩
    refine hfull ⟨hdvd,fun u hl hu => ?_⟩
    obtain ⟨k,hk,hplace⟩ := h.covers hl (Nat.lt_of_lt_of_le hu hroom)
    exact ⟨k,hk,hfree k hk,hplace⟩
  · exact hg j hj

theorem behind_order_le (haligned : 2 ^ (k + 1) ∣ i) (hp : 2 ^ e' ∣ i + 2 ^ k) : e' ≤ k := by
  by_contra hgt
  have hk : 2 ^ (k + 1) ∣ i + 2 ^ k := Nat.dvd_trans (Nat.pow_dvd_pow 2 (by omega)) hp
  have hself : 2 ^ (k + 1) ∣ 2 ^ k := (Nat.dvd_add_right haligned).mp hk
  have := Nat.le_of_dvd (Nat.two_pow_pos k) hself
  rw [Nat.pow_succ] at this
  have := Nat.two_pow_pos k
  omega

theorem behind_aligned (haligned : 2 ^ (k + 1) ∣ i) (hlt : e' < k) : 2 ^ (e' + 1) ∣ i + 2 ^ k :=
  Nat.dvd_add (Nat.dvd_trans (Nat.pow_dvd_pow 2 (by omega)) haligned) (Nat.pow_dvd_pow 2 (by omega))

theorem Merged.cons (h : Laid n d i (i :: rest)) (hp : nextGmdesc d i = some p)
    (haligned : 2 ^ ((d i).order + 1) ∣ i) (hm : Merged n d p rest d' bs')
    (horder : (d' p).order ≠ (d' i).order) : Merged n d i (i :: rest) d' (i :: bs') := by
  have hi := hm.below i (next_lt hp)
  have hpi := (h.next hp).1
  obtain ⟨tail,rfl⟩ := hm.laid.tiled.eq_cons
  rw [gmpNr_eq] at hpi
  rw [hi] at horder
  have hpd : 2 ^ (d' p).order ∣ i + 2 ^ (d i).order := by
    rw [← hpi,← gmpNr_eq]
    exact hm.laid.aligned p List.mem_cons_self
  have hlt : (d' p).order < (d i).order := Nat.lt_of_le_of_ne (behind_order_le haligned hpd) horder
  have hpa : 2 ^ ((d' p).order + 1) ∣ p := by
    rw [hpi]
    exact hpi ▸ behind_aligned haligned hlt
  have hmono := Nat.pow_le_pow_right (n := 2) (by decide) (Nat.succ_le_of_lt hlt)
  refine ⟨.cons h hp hm.toSame,Nat.succ_le_succ hm.length,?_,fun hall hg j hj => ?_⟩
  · rintro ⟨_,hrun⟩
    rw [hi] at hrun
    refine hm.full ⟨hpa,fun u hl hu => ?_⟩
    refine FreeUnit.behind (hrun u (by omega) ?_) ?_
    · rw [Nat.pow_succ]
      omega
    · rw [hi,gmpNr_eq]
      omega
  · have hg' := hm.greedy (fun j hj => hall j (List.mem_cons_of_mem _ hj)) hg.tail
    rcases List.mem_cons.mp hj with rfl | hj
    · rintro ⟨_,hroom⟩
      rw [hi,Nat.pow_succ] at hroom
      exact hg' p List.mem_cons_self ⟨hpa,by omega⟩
    · exact hg' j hj

theorem Merged.join (h : Laid n d i (i :: rest)) (hp : nextGmdesc d i = some p)
    (hm : Merged n d p rest d' (p :: cs)) (hj : Same n d' i (i :: p :: cs) (join d' i p) (i :: cs))
    (hw : Merged n (join d' i p) i (i :: cs) e bs') :
    Merged n d i (i :: rest) e bs' ∧ bs'.length < (i :: rest).length := by
  have hsame := (Same.cons h hp hm.toSame).trans hj
  have hlt := next_lt hp
  have hlen := hm.length
  have hlen' := hw.length
  simp only [List.length_cons] at hlen hlen'
  refine ⟨⟨hsame.trans hw.toSame,by simp only [List.length_cons]; omega,hw.full,fun hall hg => ?_⟩,
    by simp only [List.length_cons]; omega⟩
  refine hw.greedy (hsame.unused hall) fun j hj => ?_
  have hg' := hm.greedy (fun j hj => hall j (List.mem_cons_of_mem _ hj)) hg.tail
  have hbehind : p + gmpNr (d' p) ≤ j := (List.pairwise_cons.mp hm.laid.tiled.pairwise).1 j hj
  have := gmpNr_pos (d' p)
  rw [join_other (by omega) (by omega)]
  exact hg' j (List.mem_cons_of_mem _ hj)

/-- With fuel for the blocks it returns, and with zero there is a block less. -/
def MergeReturns (pool : Pool) (len : Nat) : Prop :=
  ∀ fuel d i bs, 2 * len ≤ fuel → bs.length = len → Laid pool.nr d i bs → Addressed pool d →
    ∃ r d' bs', gmpMerge fuel d i = some (r, d') ∧ Merged pool.nr d i bs d' bs' ∧
      (r = 0 → bs'.length < bs.length)

def WhileReturns (pool : Pool) (len : Nat) : Prop :=
  ∀ fuel d i bs, 2 * len + 1 ≤ fuel → bs.length = len → Laid pool.nr d i bs → Addressed pool d →
    ∃ d' bs', mergeWhile fuel d i = some d' ∧ Merged pool.nr d i bs d' bs'

theorem gmpMerge_step (hmerge : ∀ l < len, MergeReturns pool l)
    (hwhile : ∀ l < len, WhileReturns pool l) : MergeReturns pool len := by
  intro fuel d i bs hfuel hlen h ha
  obtain ⟨rest,rfl⟩ := h.tiled.eq_cons
  obtain ⟨fuel,rfl⟩ : ∃ f, fuel = f + 1 := ⟨fuel - 1,by simp at hlen; omega⟩
  have hi := h.lt List.mem_cons_self
  have hdvd : 2 ^ (d i).order ∣ i := by
    rw [← gmpNr_eq]
    exact h.aligned i List.mem_cons_self
  have htest := unaligned_iff hdvd
  unfold gmpMerge
  simp only [ha.start hi]
  split
  · rename_i hno
    refine ⟨_,_,_,rfl,.stuck h ?_,fun h0 => absurd h0 (by decide)⟩
    rcases hno with hused | hunaligned
    · exact h.full_used List.mem_cons_self hused
    · exact fun hmore => htest.mp hunaligned hmore.1
  rename_i hyes
  simp only [not_or,htest,Decidable.not_not,Bool.not_eq_true] at hyes
  split
  · rename_i hlast
    have hend := (h.last hlast).1
    rw [gmpNr_eq] at hend
    refine ⟨_,_,_,rfl,.stuck h fun hmore => ?_,fun h0 => absurd h0 (by decide)⟩
    have hdouble := Nat.pow_succ 2 (d i).order
    have := Nat.two_pow_pos (d i).order
    have := (hmore.2 pool.nr (by omega) (by omega)).lt h
    omega
  rename_i p hp
  obtain ⟨hpi,hrest⟩ := h.next hp
  obtain ⟨tail,rfl⟩ := hrest.tiled.eq_cons
  split
  · rename_i hused
    refine ⟨_,_,_,rfl,.stuck h fun hmore => ?_,fun h0 => absurd h0 (by decide)⟩
    have hdouble := Nat.pow_succ 2 (d i).order
    have hpos := gmpNr_pos (d p)
    have hpos' := Nat.two_pow_pos (d i).order
    rw [gmpNr_eq] at hpi
    exact h.not_free (List.mem_cons_of_mem _ List.mem_cons_self) hused ⟨Nat.le_refl p,by omega⟩
      (hmore.2 p (by omega) (by omega))
  rename_i hfree
  obtain ⟨r,d',bs',hrec,hm,_⟩ := hmerge (len - 1) (by simp at hlen; omega) fuel d p (p :: tail)
    (by omega) (by simp at hlen ⊢; omega) hrest ha
  simp only [hrec]
  obtain ⟨tail',rfl⟩ := hm.laid.tiled.eq_cons
  have hi := hm.below i (next_lt hp)
  split
  · rename_i horder
    have hp' : nextGmdesc d' i = some p := by rw [nextGmdesc,hi]; exact hp
    have hfree' : (d' p).used = false := by
      by_contra hu
      have hu : (d' p).used = true := by simpa using hu
      rw [(hm.back p List.mem_cons_self hu).2] at hu
      exact hfree hu
    have hsame := Same.cons h hp hm.toSame
    obtain ⟨_,he,hjoin⟩ := join_same hsame.laid hp' (by rw [hi]; exact hyes.1) hfree' horder
      (by rw [hi]; exact hyes.2)
    cases he
    have hless : (i :: tail').length < len := by
      have := hm.length
      simp only [List.length_cons] at hlen this ⊢
      omega
    obtain ⟨e,cs,hloop,hw⟩ := hwhile _ hless fuel _ i (i :: tail') (by omega) rfl hjoin.laid
      ((hsame.trans hjoin).addressed ha)
    obtain ⟨hall,hshort⟩ := Merged.join h hp hm hjoin hw
    exact ⟨0,e,cs,by rw [hloop]; rfl,hall,fun _ => hshort⟩
  · rename_i horder
    exact ⟨_,d',_,rfl,.cons h hp hyes.2 hm horder,fun h0 => absurd h0 (by decide)⟩

theorem mergeWhile_step (hmerge : MergeReturns pool len) (hwhile : ∀ l < len, WhileReturns pool l) :
    WhileReturns pool len := by
  intro fuel d i bs hfuel hlen h ha
  obtain ⟨fuel,rfl⟩ : ∃ f, fuel = f + 1 := ⟨fuel - 1,by omega⟩
  obtain ⟨r,d',bs',hm,hmerged,hless⟩ := hmerge fuel d i bs (by omega) hlen h ha
  simp only [mergeWhile,hm]
  split
  · rename_i hr
    have hless := hless hr
    obtain ⟨e,cs,hloop,hw⟩ := hwhile bs'.length (by omega) fuel d' i bs' (by omega) rfl hmerged.laid
      (hmerged.addressed ha)
    exact ⟨e,cs,hloop,hmerged.trans hw⟩
  · exact ⟨d',bs',rfl,hmerged⟩

theorem merge_returns (pool : Pool) (len : Nat) : MergeReturns pool len ∧ WhileReturns pool len := by
  induction len using Nat.strong_induction_on with
  | _ len ih =>
    have hmerge := gmpMerge_step (fun l hl => (ih l hl).1) (fun l hl => (ih l hl).2)
    exact ⟨hmerge,mergeWhile_step hmerge fun l hl => (ih l hl).2⟩

theorem Laid.length_le (h : Laid n d i bs) : i + bs.length ≤ n :=
  h.tiled.length_le fun j _ => gmpNr_pos (d j)

theorem gmpMerge_returns (hfuel : 2 * pool.nr ≤ fuel) (h : Laid pool.nr d i bs)
    (ha : Addressed pool d) :
    ∃ r d' bs', gmpMerge fuel d i = some (r,d') ∧ Merged pool.nr d i bs d' bs' := by
  have hlen := h.length_le
  obtain ⟨r,d',bs',hm,hmerged,_⟩ := (merge_returns pool bs.length).1 fuel d i bs (by omega) rfl h ha
  exact ⟨r,d',bs',hm,hmerged⟩

theorem defrag_returns (hm : 2 * pool.nr ≤ mergeFuel) (hfuel : bs.length ≤ fuel)
    (h : Laid pool.nr d i bs) (ha : Addressed pool d) :
    ∃ d' bs', defrag mergeFuel fuel d i = some d' ∧ Same pool.nr d i bs d' bs' ∧
      ∀ j ∈ bs', Full d' bs' j := by
  induction fuel generalizing d i bs with
  | zero =>
    obtain ⟨rest,rfl⟩ := h.tiled.eq_cons
    simp at hfuel
  | succ fuel ih =>
    obtain ⟨r,d',bs',hmerge,hmerged⟩ := gmpMerge_returns hm h ha
    obtain ⟨rest,rfl⟩ := hmerged.laid.tiled.eq_cons
    simp only [defrag,hmerge]
    split
    · rename_i hlast
      refine ⟨d',_,rfl,hmerged.toSame,fun j hj => ?_⟩
      rw [(hmerged.laid.last hlast).2,List.mem_singleton] at hj
      exact hj ▸ hmerged.full
    rename_i q hq
    obtain ⟨_,hrest⟩ := hmerged.laid.next hq
    have hlen := hmerged.length
    obtain ⟨e,cs,hloop,hsame',hfull⟩ := ih (by simp at hlen; omega) hrest (hmerged.addressed ha)
    have hcons := Same.cons hmerged.laid hq hsame'
    refine ⟨e,_,hloop,hmerged.toSame.trans hcons,fun j hj => ?_⟩
    rcases List.mem_cons.mp hj with rfl | hj
    · exact hcons.full hmerged.laid (hsame'.below _ (next_lt hq)) hmerged.full
    · exact (hfull j hj).cons hcons.laid hj

end Apc8750.Gmp
