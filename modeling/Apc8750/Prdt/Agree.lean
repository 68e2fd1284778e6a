import Apc8750.Prdt.Pages

namespace Apc8750.Prdt
open MemBlock (pageSize)

variable {mm : Mm} {vma : VmArea} {a : Nat}

def Mapped (mm : Mm) (user size : Nat) : Prop :=
  ∀ a, user ≤ a → a < user + size → (mm.pte (a / pageSize)).present = true

structure Request (mm : Mm) (user size items : Nat) : Prop where
  covered : Covered mm user size
  mapped : Mapped mm user size
  pos : 0 < size
  pages : size ≤ 2560 * pageSize
  entries : size / pageSize + 2 ≤ items

/-- Memory in an ordinary area the task may write, that a write leaves in its frame. -/
structure PlainPage (mm : Mm) (addr : Nat) : Prop where
  ordinary : ∀ vma ∈ mm.mmap, vma.Has addr →
    vma.io = false ∧ vma.pfnmap = false ∧ vma.write = true
  valid : mm.pfnValid (mm.pte (addr / pageSize)).pfn = true
  kept : (mm.pte (addr / pageSize)).write = true ∨
    mm.fault (addr / pageSize) = some (mm.pte (addr / pageSize)).pfn

/-- All three give tables for the same bytes, ended by their last entries only. -/
def Agree (mm : Mm) (user size items : Nat) : Prop :=
  ∃ t₀ t₁ t₂, userToPrdt 0 mm user size (some items) = .done t₀ ∧
    userToPrdt 1 mm user size (some items) = .done t₁ ∧
    userToPrdt 2 mm user size (some items) = .done t₂ ∧
    bytes t₀ = bytes t₁ ∧ bytes t₁ = bytes t₂ ∧ EdtLast t₀ ∧ EdtLast t₁ ∧ EdtLast t₂

theorem has_page (hm : vma ∈ mm.mmap) (h : vma.Has a) : vma.Has (a / pageSize * pageSize) := by
  obtain ⟨_,⟨p,hp⟩,⟨q,hq⟩,_⟩ := mm.proper vma hm
  obtain ⟨hl,hu⟩ := h
  simp only [VmArea.Has,pageSize] at *
  omega

theorem getUserPage_eq (hm : vma ∈ mm.mmap) (h : vma.Has a) :
    getUserPage mm a = if vma.io || vma.pfnmap || !vma.write then none
      else followPage mm (a / pageSize) := by
  have hpage := has_page hm h
  have hfind : findExtendVma mm a = some vma := by
    rw [findExtendVma,findVma_has hm hpage]
    simpa [Option.filter] using hpage.1
  simp only [getUserPage,hfind]

theorem followPage_mapped (h : (mm.pte a).present = true) : followPage mm a = some (mapped mm a) ↔
      (mm.pte a).write = true ∨ mm.fault a = some (mm.pte a).pfn := by
  rw [followPage,mapped,h]
  cases (mm.pte a).write <;> simp

theorem plainPage_iff (hm : vma ∈ mm.mmap) (h : vma.Has a)
    (hmap : (mm.pte (a / pageSize)).present = true) :
    PlainPage mm a ↔ mm.pfnValid (mapped mm (a / pageSize)) = true ∧
      getUserPage mm a = some (mapped mm (a / pageSize)) := by
  rw [getUserPage_eq hm h]
  constructor
  · intro hplain
    obtain ⟨hio,hpfn,hwrite⟩ := hplain.ordinary vma hm h
    refine ⟨hplain.valid,?_⟩
    simp only [hio,hpfn,hwrite,Bool.or_self,Bool.not_true,Bool.false_eq_true,↓reduceIte]
    exact (followPage_mapped hmap).mpr hplain.kept
  intro ⟨hvalid,hget⟩
  split at hget
  · cases hget
  rename_i hflags
  refine ⟨?_,hvalid,(followPage_mapped hmap).mp hget⟩
  intro vma' hm' h'
  have hsame := (findVma_has hm h).symm.trans (findVma_has hm' h')
  cases hsame
  simpa [and_assoc] using hflags

theorem roomy_of_fits (hmax : size ≤ 2560 * pageSize) (hitems : size / pageSize + 2 ≤ items)
    (hfit : pagesSpanned user size ≤ nrPages size) : Roomy user size items := by
  intro a hl hu
  rw [nrPages_eq hmax] at hfit
  simp only [pagesSpanned,pageSize] at *
  omega

theorem userToPrdt2_cases (hsize : 0 < size) (hitems : size / pageSize + 2 ≤ items)
    (hdirect : directMapped mm user = false) :
    (userToPrdt2 mm user size (some items) = .failed MemBlock.efault ∧ ¬ Gettable mm user size) ∨
      ∃ table, userToPrdt2 mm user size (some items) = .done table ∧ Gettable mm user size ∧
        bytes table = buffer (got mm) user size ∧ EdtLast table := by
  unfold userToPrdt2
  simp only [hdirect,Bool.false_eq_true,↓reduceIte,if_neg (Nat.not_lt.mpr hitems)]
  rcases prdt2Loop_cases Table.holds_empty user (Nat.le_refl size) with
    ⟨he,hno⟩ | ⟨t,he,hall,hholds,hend⟩
  · rw [he]
    exact Or.inl ⟨rfl,hno⟩
  · rw [he]
    rw [List.nil_append] at hholds
    exact Or.inr ⟨_,rfl,hall,hholds.bytes,hholds.edtLast (hend (by omega))⟩

theorem Gettable.notDirect (h : Gettable mm user size) (hsize : 0 < size) :
    directMapped mm user = false := by
  have hpage := h user (Nat.le_refl user) (by omega)
  obtain ⟨pfn,hpfn⟩ := Option.isSome_iff_exists.mp hpage
  simp only [getUserPage] at hpfn
  split at hpfn
  · cases hpfn
  rename_i vma hfound
  obtain ⟨hvma,hstart⟩ := Option.filter_eq_some_iff.mp hfound
  have hm := List.mem_of_find?_eq_some hvma
  have hend : user / pageSize * pageSize < vma.vmEnd := by simpa using List.find?_some hvma
  obtain ⟨_,⟨p,hp⟩,⟨q,hq⟩,_⟩ := mm.proper vma hm
  have hhas : vma.Has user := by
    simp only [decide_eq_true_eq] at hstart
    simp only [VmArea.Has,pageSize] at *
    omega
  rw [directMapped,findVma_has hm hhas]
  split at hpfn
  · cases hpfn
  · rename_i hflags
    simp_all

theorem userToPrdt2_sized (h : userToPrdt2 mm user size (some items) = .done table) :
    (∀ prd ∈ table, 1 ≤ prd.size ∧ prd.size ≤ 65535) ∧ table.length ≤ items := by
  unfold userToPrdt2 at h
  split at h
  · cases h
  simp only at h
  split at h
  · cases h
  rename_i hitems
  split at h
  · cases h
  rename_i t hloop
  cases h
  have hspan : size ≠ 0 → pagesSpanned user size ≤ items := by
    intro _
    simp only [pagesSpanned,pageSize] at *
    omega
  obtain ⟨hsizes,hfew⟩ := prdt2Loop_sized Table.sized_empty user hspan hloop
  exact ⟨hsizes,Nat.zero_add items ▸ hfew⟩

/-- If `get_user_pages` can get the buffer, the table of `__user_to_prdt2` describes its bytes. -/
theorem prdt2_exact (hsize : 0 < size) (hall : Gettable mm user size)
    (hitems : size / pageSize + 2 ≤ items) :
    ∃ table, userToPrdt2 mm user size (some items) = .done table ∧ table.length ≤ items ∧
      bytes table = buffer (got mm) user size ∧
      (∀ prd ∈ table, 1 ≤ prd.size ∧ prd.size ≤ 65535) ∧ EdtLast table := by
  rcases userToPrdt2_cases hsize hitems (hall.notDirect hsize) with
    ⟨_, hno⟩ | ⟨table, hdone, _, hbytes, hlast⟩
  · exact absurd hall hno
  · obtain ⟨hsizes, hfew⟩ := userToPrdt2_sized hdone
    exact ⟨table, hdone, hfew, hbytes, hsizes, hlast⟩

theorem userToPrdt1_done (hsize : 0 < size) (hmax : size ≤ 2560 * pageSize)
    (hitems : size / pageSize + 2 ≤ items) (hdirect : directMapped mm user = false)
    (hall : Gettable mm user size) (hfit : pagesSpanned user size ≤ nrPages size) :
    ∃ table, userToPrdt1 mm user size (some items) = .done table ∧
      bytes table = buffer (got mm) user size ∧ EdtLast table := by
  have hpages : nrPages size ≤ 2560 ∧ nrPages size ≠ 0 := by
    rw [nrPages_eq hmax]
    simp only [pageSize] at hmax ⊢
    omega
  have hsome : getUserPages mm user (nrPages size) ≠ [] := by
    obtain ⟨n,hn⟩ := Nat.exists_eq_succ_of_ne_zero hpages.2
    obtain ⟨pfn,hpfn⟩ := Option.isSome_iff_exists.mp (hall user (Nat.le_refl _) (by omega))
    rw [hn,getUserPages,hpfn]
    exact List.cons_ne_nil _ _
  have hok : ¬ (size / pageSize + 2 > items ∨ nrPages size > 2560) := by omega
  unfold userToPrdt1
  simp only [hdirect,Bool.false_eq_true,↓reduceIte,if_neg hok,if_neg hsome]
  obtain ⟨hholds,hend⟩ := prdt1Loop_holds mm (getUserPages mm user (nrPages size))
    Table.holds_empty (Nat.le_refl size) 0 user (fun _ => rfl)
  rw [List.nil_append] at hholds
  refine ⟨_,rfl,?_,hholds.edtLast (hend (Or.inl (by omega)))⟩
  rw [hholds.bytes]
  exact buffer_congr (fun a hl hu => pinned_got hall hmax hfit hl hu)

/-- On a buffer of as many pages as its size the methods agree if and only if all are plain. -/
theorem prdt_methods_agree (h : Request mm user size items)
    (hfit : pagesSpanned user size ≤ nrPages size) :
    Agree mm user size items ↔ ∀ a, user ≤ a → a < user + size → PlainPage mm a := by
  obtain ⟨hcov, hmap, hsize, hmax, hitems⟩ := h
  have hroom := roomy_of_fits hmax hitems hfit
  have hplain : ∀ a, user ≤ a → a < user + size →
      (PlainPage mm a ↔ mm.pfnValid (mapped mm (a / pageSize)) = true ∧
        getUserPage mm a = some (mapped mm (a / pageSize))) := by
    intro a hl hu
    obtain ⟨vma, hm, hhas⟩ := hcov a hl hu
    exact plainPage_iff hm hhas (hmap a hl hu)
  constructor
  · rintro ⟨t₀, t₁, t₂, h₀, _, h₂, h₀₁, h₁₂, _⟩ a hl hu
    rcases userToPrdt0_cases hcov hsize hitems hroom with ⟨he, _⟩ | ⟨t, he, hbytes, _, hvalid⟩
    · cases he.symm.trans h₀
    cases he.symm.trans h₀
    have hdirect : directMapped mm user = false := by
      cases hd : directMapped mm user with
      | false => rfl
      | true => simp [userToPrdt, userToPrdt2, hd] at h₂
    rcases userToPrdt2_cases hsize hitems hdirect with ⟨he₂, _⟩ | ⟨t', he₂, hall, hbytes₂, _⟩
    · cases he₂.symm.trans h₂
    cases he₂.symm.trans h₂
    have hframes := buffer_inj (hbytes.symm.trans ((h₀₁.trans h₁₂).trans hbytes₂)) a hl hu
    obtain ⟨pfn, hpfn⟩ := Option.isSome_iff_exists.mp (hall a hl hu)
    rw [hplain a hl hu, hframes, hpfn, getUserPage_got hpfn, ← getUserPage_got hpfn, ← hframes]
    exact ⟨hvalid a hl hu, rfl⟩
  · intro hall
    have hget : ∀ a, user ≤ a → a < user + size →
        getUserPage mm a = some (mapped mm (a / pageSize)) :=
      fun a hl hu => ((hplain a hl hu).mp (hall a hl hu)).2
    have hgettable : Gettable mm user size := fun a hl hu => by rw [hget a hl hu]; rfl
    have hsame : buffer (mapped mm) user size = buffer (got mm) user size :=
      buffer_congr (fun a hl hu => (getUserPage_got (hget a hl hu)).symm)
    have hdirect : directMapped mm user = false := by
      obtain ⟨vma, hm, hhas⟩ := hcov user (Nat.le_refl _) (by omega)
      have hio := ((hall user (Nat.le_refl _) (by omega)).ordinary vma hm hhas).1
      simp [directMapped, findVma_has hm hhas, hio]
    obtain ⟨t₁, h₁, hb₁, he₁⟩ := userToPrdt1_done hsize hmax hitems hdirect hgettable hfit
    rcases userToPrdt0_cases hcov hsize hitems hroom with ⟨_, a, hl, hu, hbad⟩ | ⟨t₀, h₀, hb₀, he₀, _⟩
    · have hgood := ((hplain a hl hu).mp (hall a hl hu)).1
      rw [hbad] at hgood
      cases hgood
    rcases userToPrdt2_cases hsize hitems hdirect with ⟨_, hno⟩ | ⟨t₂, h₂, _, hb₂, he₂⟩
    · exact absurd hgettable hno
    exact ⟨t₀, t₁, t₂, h₀, h₁, h₂, hb₀.trans (hsame.trans hb₁.symm), hb₁.trans hb₂.symm, he₀, he₁, he₂⟩

def smallMm (vmPgoff : Nat) (io : Bool) : Mm where
  mmap := [⟨65536, 73728, vmPgoff, io, io, true⟩]
  proper := by
    intro vma hvma
    rw [List.mem_singleton.mp hvma]
    exact ⟨show 65536 < 73728 by decide, show 4096 ∣ 65536 by decide,
      show 4096 ∣ 73728 by decide, show 73728 ≤ 0xBF000000 by decide⟩
  ordered := List.pairwise_singleton _ _
  pte := fun page => ⟨if page = 16 then 100 else 200, true, true⟩
  fault := fun _ => none
  pfnValid := fun pfn => decide (pfn.val < 131072)
  nullPfn := 851968

theorem smallMm_request (vmPgoff : Nat) (io : Bool) (hl : 65536 ≤ user) (hu : user + size ≤ 73728)
    (hpos : 0 < size) (hitems : size / pageSize + 2 ≤ items) :
    Request (smallMm vmPgoff io) user size items := by
  refine ⟨?_,fun _ _ _ => rfl,hpos,by simp only [pageSize]; omega,hitems⟩
  intro a ha hb
  refine ⟨_,List.mem_singleton.mpr rfl,?_,?_⟩
  · exact Nat.le_trans hl ha
  · exact Nat.lt_of_lt_of_le hb hu

theorem prdt_methods_agree_small : Agree (smallMm 0 false) 65536 8192 4 := by
  refine (prdt_methods_agree (smallMm_request 0 false (Nat.le_refl _) (Nat.le_refl _) (by decide)
    (by decide)) (by decide +kernel)).mpr ?_
  intro a _ _
  refine ⟨?_, ?_, Or.inl rfl⟩
  · intro vma hvma _
    rw [List.mem_singleton.mp hvma]
    exact ⟨rfl, rfl, rfl⟩
  · simp only [smallMm]
    split <;> decide

theorem prdt2_exact_small : ∃ table, userToPrdt2 (smallMm 0 false) 69631 2 (some 2) = .done table ∧
    bytes table = buffer (got (smallMm 0 false)) 69631 2 := by
  have hall : Gettable (smallMm 0 false) 69631 2 := by
    intro a hl hu
    obtain rfl | rfl : a = 69631 ∨ a = 69632 := by omega
    · decide +kernel
    · decide +kernel
  obtain ⟨table, hdone, _, hbytes, _⟩ :=
    prdt2_exact (by decide) hall (show 2 / pageSize + 2 ≤ 2 by decide)
  exact ⟨table, hdone, hbytes⟩

/-- A block of `mb_mmap`, and two bytes across a page boundary. -/
theorem prdt_methods_differ :
    (Request (smallMm 512 true) 65536 4096 3 ∧ ¬ Agree (smallMm 512 true) 65536 4096 3) ∧
      Request (smallMm 0 false) 69631 2 3 ∧ ¬ Agree (smallMm 0 false) 69631 2 3 := by
  refine ⟨⟨smallMm_request 512 true (by decide) (by decide) (by decide) (by decide), ?_⟩,
    smallMm_request 0 false (by decide) (by decide) (by decide) (by decide), ?_⟩
  · rintro ⟨_, _, _, _, h₁, _⟩
    have hbug : userToPrdt 1 (smallMm 512 true) 65536 4096 (some 3) = .bug := by decide +kernel
    rw [hbug] at h₁
    cases h₁
  rintro ⟨t₀, t₁, _, h₀, h₁, _, h₀₁, _⟩
  have h₀' : userToPrdt 0 (smallMm 0 false) 69631 2 (some 3) =
      .done [⟨413695, 1, false⟩, ⟨819200, 1, true⟩] := by decide +kernel
  have h₁' : userToPrdt 1 (smallMm 0 false) 69631 2 (some 3) =
      .done [⟨413695, 1, false⟩, ⟨3489660928, 1, true⟩] := by decide +kernel
  rw [h₀'] at h₀
  rw [h₁'] at h₁
  cases h₀
  cases h₁
  have hne : bytes [⟨413695, 1, false⟩, ⟨819200, 1, true⟩] ≠
      bytes [⟨413695, 1, false⟩, ⟨3489660928, 1, true⟩] := by decide +kernel
  exact hne h₀₁

end Apc8750.Prdt
