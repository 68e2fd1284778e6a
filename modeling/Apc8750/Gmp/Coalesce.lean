import Apc8750.Gmp.Pool
import Mathlib.Order.Bounds.Basic
import Mathlib.Data.List.Chain
import Mathlib.Data.List.Sort

namespace Apc8750.Gmp

/-- A free block at an even multiple of its size is not followed by a free block of the same
size. -/
def Coalesced (d : Descs) (bs : List Nat) : Prop :=
  bs.IsChain fun j k => ¬ ((d j).used = false ∧ 2 ^ ((d j).order + 1) ∣ j ∧
    (d k).used = false ∧ (d k).order = (d j).order)

def Restored (pool : Pool) (d : Descs) (bs : List Nat) (d' : Descs) : Prop :=
  blocks d' pool.nr 0 = some bs ∧ ∀ j ∈ bs, (d' j).order = (d j).order ∧ (d' j).used = (d j).used

theorem own_run (hj : j ∈ bs) (hfree : (d j).used = false) : FreeRun d bs j (d j).order :=
  fun u hl hu => ⟨j,hj,hfree,hl,by rwa [gmpNr_eq]⟩

theorem Laid.coalesced (h : Laid n d i bs) (hfull : ∀ j ∈ bs, Full d bs j) : Coalesced d bs := by
  refine List.IsChain.imp_of_mem_imp (fun j k hj hk hnext => ?_) h.tiled.chain
  rintro ⟨hfree,hdvd,hfree',horder⟩
  refine hfull j hj ⟨hdvd,fun u hl hu => ?_⟩
  rw [Nat.pow_succ] at hu
  rw [gmpNr_eq] at hnext
  by_cases hfirst : u < k
  · exact own_run hj hfree u hl (by omega)
  · exact own_run hk hfree' u (by omega) (by rw [horder]; omega)

theorem Laid.aligned_run (h : Laid n d i bs) (hfull : ∀ j ∈ bs, Full d bs j) (ha : 2 ^ k ∣ a)
    (hrun : FreeRun d bs a k) :
    ∃ j ∈ bs, (d j).used = false ∧ j ≤ a ∧ a + 2 ^ k ≤ j + gmpNr (d j) := by
  have hpos := Nat.two_pow_pos k
  obtain ⟨j,hj,hfree,hstart,hend⟩ := hrun a (Nat.le_refl a) (by omega)
  refine ⟨j,hj,hfree,hstart,?_⟩
  have hplace := h.aligned j hj
  rw [gmpNr_eq] at hplace hend ⊢
  by_cases hle : k ≤ (d j).order
  · have hpow := Nat.pow_dvd_pow 2 hle
    have hdvd : 2 ^ k ∣ j + 2 ^ (d j).order - a :=
      Nat.dvd_sub (Nat.dvd_add (Nat.dvd_trans hpow hplace) hpow) ha
    have := Nat.le_of_dvd (by omega) hdvd
    omega
  · have hpow := Nat.pow_dvd_pow 2 (show (d j).order ≤ k by omega)
    have hdvd : 2 ^ (d j).order ∣ a - j := Nat.dvd_sub (Nat.dvd_trans hpow ha) hplace
    have hzero := Nat.eq_zero_of_dvd_of_lt hdvd (by omega)
    obtain rfl : a = j := by omega
    exact absurd ⟨Nat.dvd_trans (Nat.pow_dvd_pow 2 (by omega)) ha,hrun.mono (by omega)⟩ (hfull a hj)

section
variable (h : Same n d i bs d' bs') (hl : Laid n d i bs)
include h hl

theorem Same.symm : Same n d' i bs' d bs where
  laid := hl
  below := fun j hj => (h.below j hj).symm
  pa := fun j => (h.pa j).symm
  stays := fun j hj hu => ⟨(h.back j hj hu).1,(h.back j hj hu).2.symm⟩
  back := fun j hj hu => ⟨(h.stays j hj hu).1,(h.stays j hj hu).2.symm⟩

theorem Same.freeRun : FreeRun d' bs' a k ↔ FreeRun d bs a k :=
  forall_congr' fun _ => imp_congr_right fun _ => imp_congr_right fun _ => h.freeUnit hl

theorem Same.determined (hfull : ∀ j ∈ bs, Full d bs j)
    (hfull' : ∀ j ∈ bs', Full d' bs' j) (hj : j ∈ bs) :
    j ∈ bs' ∧ (d' j).order = (d j).order ∧ (d' j).used = (d j).used := by
  by_cases hused : (d j).used = true
  · obtain ⟨hj',he⟩ := h.stays j hj hused
    exact ⟨hj',by rw [he],by rw [he]⟩
  have hfree : (d j).used = false := by simpa using hused
  have haligned {e : Descs} {cs : List Nat} (hc : Laid n e i cs) {m : Nat} (hm : m ∈ cs) :
      2 ^ (e m).order ∣ m := by
    rw [← gmpNr_eq]
    exact hc.aligned m hm
  obtain ⟨k,hk,hkfree,hkj,hjk⟩ := h.laid.aligned_run hfull' (haligned hl hj)
    ((h.freeRun hl).mpr (own_run hj hfree))
  obtain ⟨m,hm,_,hmk,hkm⟩ := hl.aligned_run hfull (haligned h.laid hk)
    ((h.freeRun hl).mp (own_run hk hkfree))
  rw [gmpNr_eq] at hjk
  have hpos := gmpNr_pos (d j)
  have hpos' := Nat.two_pow_pos (d j).order
  obtain rfl : m = j := hl.unique hm hj ⟨by omega,by omega⟩ ⟨Nat.le_refl j,by omega⟩
  obtain rfl : k = m := by omega
  rw [gmpNr_eq] at hkm
  refine ⟨hk,Nat.pow_right_injective (Nat.le_refl 2) ?_,hkfree.trans hfree.symm⟩
  show 2 ^ (d' k).order = 2 ^ (d k).order
  omega

end

theorem Laid.sorted (h : Laid n d i bs) : bs.Pairwise (· < ·) := by
  refine h.tiled.pairwise.imp fun {j k} hjk => ?_
  have hjk : j + gmpNr (d j) ≤ k := hjk
  have := gmpNr_pos (d j)
  omega

theorem Same.restored (h : Same pool.nr d 0 bs d' bs') (hl : Laid pool.nr d 0 bs)
    (hfull : ∀ j ∈ bs, Full d bs j) (hfull' : ∀ j ∈ bs', Full d' bs' j) : Restored pool d bs d' := by
  have hsame : bs' = bs := h.laid.sorted.eq_of_mem_iff hl.sorted fun j =>
    ⟨fun hj => ((h.symm hl).determined h.laid hfull' hfull hj).1,
      fun hj => (h.determined hl hfull hfull' hj).1⟩
  have hlen := h.laid.length_le
  refine ⟨?_,fun j hj => (h.determined hl hfull hfull' hj).2⟩
  rw [h.laid.blocks_eq (by omega),hsame]

theorem PoolOk.alloc_fails (h : PoolOk pool s bs)
    (hsmall : ∀ j ∈ bs, (s.descs j).used = false → (s.descs j).order < k) (ha : 2 ^ k ∣ a) :
    ¬ FreeRun s.descs bs a k := by
  intro hrun
  obtain ⟨j,hj,hfree,hstart,hend⟩ := h.laid.aligned_run h.full ha hrun
  have hpow := Nat.pow_lt_pow_right (show 1 < 2 by decide) (hsmall j hj hfree)
  rw [gmpNr_eq] at hend
  omega

theorem Grounded.freed (hfuel : 2 * pool.nr ≤ fuel) (h : Grounded pool d bs) (hp : p ∈ bs) (hne : p ≠ 0)
    (hfree : (d p).used = false) (pid : Nat) :
    ∃ d' bs', gmpFree fuel (Function.update d p { d p with used := true, owner := pid }) (d p).pa pid =
      some d' ∧ Same pool.nr d 0 bs d' bs' ∧ ∀ j ∈ bs', Full d' bs' j := by
  generalize he : Function.update d p { d p with used := true, owner := (pid : Int) } = e
  have hself : e p = { d p with used := true, owner := pid } := by rw [← he,Function.update_self]
  have hg : Grounded pool e bs := he ▸ h.update hne true pid
  have hlen := h.laid.length_le
  have hfound : freeLoop (d p).pa pid fuel e 0 = some (some p) := by
    rcases freeLoop_returns (d p).pa pid (show bs.length ≤ fuel by omega) hg.laid with
      ⟨q,hq,hloop,hpa,_⟩ | ⟨_,hnone⟩
    · have hpq : (e q).pa = (e p).pa := by rw [hpa,hself]
      rw [hloop,hg.addressed.inj (hg.laid.lt hq) (hg.laid.lt hp) hpq]
    · exact absurd (by rw [hself]; exact ⟨rfl,rfl⟩) (hnone p hp)
  have hback : release e p = Function.update d p { d p with used := false, owner := 0 } := by
    rw [release,hself,← he,Function.update_idem]
  have hgiven : Grounded pool (release e p) bs := by
    rw [hback]
    exact h.update hne false 0
  have hsame : Same pool.nr d 0 bs (release e p) bs := by
    have hother (j : Nat) (hj : j ≠ p) : release e p j = d j := by
      rw [hback,Function.update_of_ne hj]
    refine ⟨hgiven.laid,fun j hj => absurd hj (Nat.not_lt_zero j),fun j => ?_,fun j hj hused => ?_,
      fun j hj hused => ?_⟩
    · by_cases hj : j = p
      · rw [hj,hback,Function.update_self]
      · rw [hother j hj]
    · refine ⟨hj,hother j fun hjp => ?_⟩
      rw [hjp,hfree] at hused
      cases hused
    · refine ⟨hj,hother j fun hjp => ?_⟩
      rw [hjp,hback,Function.update_self] at hused
      cases hused
  obtain ⟨d',bs',hloop,hs,hfull⟩ := defrag_returns hfuel (show bs.length ≤ fuel by omega)
    hgiven.laid hgiven.addressed
  exact ⟨d',bs',by simp only [gmpFree,hfound,hloop],hsame.trans hs,hfull⟩

/-- The blocks are always coalesced, and `gmp_free` takes back exactly what `gmp_alloc` took. -/
theorem always_coalesced (pool : Pool) (hnr : 0 < pool.nr) (fuel : Nat) (hfuel : 2 * pool.nr ≤ fuel)
    (contents : Descs) (pid : Nat) (ops : List Op) :
    ∃ s bs, run pool fuel contents pid ops = some s ∧ blocks s.descs pool.nr 0 = some bs ∧
      Coalesced s.descs bs ∧
      ∀ size owner, ∃ pa failed d, gmpAlloc fuel s.descs size owner = some (pa, failed, d) ∧
        (pa = 0 → ∀ order, IsLeast { k | size ≤ 2 ^ k * 2 ^ gmpShift } order →
          ∀ a, 2 ^ order ∣ a → ¬ FreeRun s.descs bs a order) ∧
        (pa ≠ 0 → ∃ d', gmpFree fuel d pa owner = some d' ∧ Restored pool s.descs bs d') := by
  obtain ⟨t, cs, hreset, hstart⟩ := PoolOk.reset (s := ⟨contents, [], 0⟩) hnr hfuel rfl pid
  obtain ⟨s, bs, hrun, hok⟩ := hstart.run hnr hfuel ops
  have hlen := hok.laid.length_le
  refine ⟨s, bs, ?_, hok.laid.blocks_eq (by omega), hok.laid.coalesced hok.full, fun size owner => ?_⟩
  · rw [run, List.foldlM_cons, hreset]
    exact hrun
  rcases hok.toGrounded.gmpAlloc hfuel size owner with
    ⟨hnone, hsmall⟩ | ⟨p, d, bs', halloc, hpos, hne, hp, hs, _, _, hfree⟩
  · refine ⟨0, 0, s.descs, hnone, fun _ order hleast a ha => ?_, fun h => absurd rfl h⟩
    have horder : order = gmpGetOrder size :=
      Nat.le_antisymm (hleast.2 ((gmpGetOrder_le_iff _ _).mp (Nat.le_refl _)))
        ((gmpGetOrder_le_iff _ _).mpr hleast.1)
    rw [horder] at ha ⊢
    exact hok.alloc_fails hsmall ha
  · refine ⟨_, 0, _, halloc, fun h => absurd h hpos, fun _ => ?_⟩
    obtain ⟨d', cs, hgmpFree, hback, hfull⟩ := (hok.toGrounded.same hs).freed hfuel hp hne hfree owner
    exact ⟨d', hgmpFree, (hs.trans hback).restored hok.laid hok.full hfull⟩

theorem always_coalesced_small : ∃ s bs,
    run ⟨0x10000000, 5 * 65536⟩ 10 (fun _ => ⟨0, 0, false, 0, false⟩) 1
      [.alloc 100000 7, .alloc 1000 8, .free 0x10020000 7] = some s ∧ Coalesced s.descs bs := by
  obtain ⟨s, bs, hrun, _, hcoalesced, _⟩ := always_coalesced ⟨0x10000000, 5 * 65536⟩ (by decide) 10
    (by decide) (fun _ => ⟨0, 0, false, 0, false⟩) 1 [.alloc 100000 7, .alloc 1000 8, .free 0x10020000 7]
  exact ⟨s, bs, hrun, hcoalesced⟩

end Apc8750.Gmp
