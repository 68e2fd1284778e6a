import Apc8750.Prdt.Walk

namespace Apc8750.Prdt
open MemBlock (pageSize)

variable {size ptr a : Nat}

def got (mm : Mm) (page : Nat) : Pfn := (getUserPage mm (page * pageSize)).getD mm.nullPfn

theorem getUserPage_page (mm : Mm) (addr : Nat) :
    getUserPage mm (addr / pageSize * pageSize) = getUserPage mm addr := by
  simp only [getUserPage,findExtendVma,Nat.mul_div_cancel _ (show 0 < pageSize by decide)]

theorem getUserPage_got (h : getUserPage mm a = some pfn) : got mm (a / pageSize) = pfn := by
  rw [got,getUserPage_page,h]
  rfl

theorem pgSize_fits (ptr size : Nat) : ptr % pageSize + pgSize ptr size ≤ pageSize := by
  have := Nat.mod_lt ptr (show 0 < pageSize by decide)
  simp only [pgSize]
  omega

theorem pgSize_pos (ptr : Nat) (h : size ≠ 0) : 0 < pgSize ptr size := by
  have := Nat.mod_lt ptr (show 0 < pageSize by decide)
  simp only [pgSize]
  omega

theorem buffer_page (f : Nat → Pfn) (ptr size : Nat) :
    span (add32 (phys (f (ptr / pageSize))) (ptr % pageSize)) (pgSize ptr size) ++
      buffer f (ptr + pgSize ptr size) (size - pgSize ptr size) = buffer f ptr size := by
  have hle : pgSize ptr size ≤ size := Nat.min_le_right _ _
  rw [span_page f ptr _ (pgSize_fits ptr size),← buffer_add,Nat.add_sub_cancel' hle]

theorem pages_split {P : Nat → Prop} (hpage : ∀ a b, a / pageSize = b / pageSize → P a → P b)
    (hsize : size ≠ 0) :
    (∀ a, ptr ≤ a → a < ptr + size → P a) ↔ P ptr ∧ ∀ a, ptr + pgSize ptr size ≤ a →
        a < ptr + pgSize ptr size + (size - pgSize ptr size) → P a := by
  have hle : pgSize ptr size ≤ size := Nat.min_le_right _ _
  have hfit := pgSize_fits ptr size
  constructor
  · intro h
    exact ⟨h ptr (Nat.le_refl _) (by omega),fun a hl hu => h a (by omega) (by omega)⟩
  intro ⟨hptr,hrest⟩ a hl hu
  by_cases hin : a < ptr + pgSize ptr size
  · refine hpage ptr a ?_ hptr
    simp only [pageSize] at *
    omega
  · exact hrest a (by omega) (by omega)

def Gettable (mm : Mm) (user size : Nat) : Prop :=
  ∀ a, user ≤ a → a < user + size → (getUserPage mm a).isSome = true

theorem gettable_split (hsize : size ≠ 0) : Gettable mm ptr size ↔
    (getUserPage mm ptr).isSome = true ∧
      Gettable mm (ptr + pgSize ptr size) (size - pgSize ptr size) := by
  refine pages_split (P := fun a => (getUserPage mm a).isSome = true) ?_ hsize
  intro a b hab ha
  rw [← getUserPage_page,← hab,getUserPage_page]
  exact ha

theorem prdt2Loop_cases (ht : t.Holds l) (ptr : Nat) (hfuel : size ≤ fuel) :
    (prdt2Loop mm fuel ptr size t = none ∧ ¬ Gettable mm ptr size) ∨
      ∃ t', prdt2Loop mm fuel ptr size t = some t' ∧ Gettable mm ptr size ∧
        t'.Holds (l ++ buffer (got mm) ptr size) ∧ (size ≠ 0 → t'.Ended) := by
  induction fuel generalizing ptr size t l with
  | zero =>
    have h0 : size = 0 := by omega
    subst h0
    refine Or.inr ⟨t,rfl,?_,?_,fun h => absurd rfl h⟩
    · intro a hl hu
      omega
    · simpa [buffer] using ht
  | succ fuel ih =>
    unfold prdt2Loop
    by_cases h0 : size = 0
    · subst h0
      refine Or.inr ⟨t,by simp,?_,?_,fun h => absurd rfl h⟩
      · intro a hl hu
        omega
      · simpa [buffer] using ht
    rw [if_neg h0]
    cases hget : getUserPage mm ptr with
    | none =>
      refine Or.inl ⟨rfl,fun hall => ?_⟩
      have := ((gettable_split h0).mp hall).1
      rw [hget] at this
      cases this
    | some pfn =>
      have hpos := pgSize_pos ptr h0
      have hle : pgSize ptr size ≤ size := Nat.min_le_right _ _
      obtain ⟨hput,hended⟩ := ht.putPage
        (add32 (phys pfn) (ptr % pageSize)) (pgSize ptr size)
      rw [← getUserPage_got hget] at hput hended ⊢
      rw [gettable_split h0,hget]
      simp only [Option.isSome_some,true_and]
      have hless : size - pgSize ptr size ≤ fuel := by omega
      rcases ih hput (ptr + pgSize ptr size) hless with ⟨he,hno⟩ | ⟨t',he,hall,hholds,hend⟩
      · exact Or.inl ⟨he,hno⟩
      refine Or.inr ⟨t',he,hall,?_,fun _ => ?_⟩
      · rw [List.append_assoc,buffer_page] at hholds
        exact hholds
      by_cases hrest : size - pgSize ptr size = 0
      · rw [hrest] at he
        cases fuel <;> simp only [prdt2Loop,↓reduceIte,Option.some.injEq] at he <;>
          exact he ▸ hended
      · exact hend hrest

def pagesSpanned (user size : Nat) : Nat := (user % pageSize + size + (pageSize - 1)) / pageSize

theorem pagesSpanned_page (ptr : Nat) (h : size - pgSize ptr size ≠ 0) :
    pagesSpanned (ptr + pgSize ptr size) (size - pgSize ptr size) + 1 = pagesSpanned ptr size := by
  simp only [pagesSpanned,pgSize,pageSize] at h ⊢
  omega

theorem prdt2Loop_sized (ht : t.Sized n) (ptr : Nat) (hk : size ≠ 0 → pagesSpanned ptr size ≤ k)
    (h : prdt2Loop mm fuel ptr size t = some t') : t'.Sized (n + k) := by
  induction fuel generalizing ptr size t n k with
  | zero =>
    cases h
    exact ⟨ht.sizes,Nat.le_trans ht.few (Nat.le_add_right _ _)⟩
  | succ fuel ih =>
    unfold prdt2Loop at h
    split at h
    · cases h
      exact ⟨ht.sizes,Nat.le_trans ht.few (Nat.le_add_right _ _)⟩
    rename_i h0
    split at h
    · cases h
    rename_i pfn _
    have hpage := Nat.le_trans (Nat.le_add_left _ _) (pgSize_fits ptr size)
    have hput := ht.putPage (add32 (phys pfn) (ptr % pageSize)) (pgSize_pos ptr h0) hpage
    have hspan : 0 < pagesSpanned ptr size := by
      simp only [pagesSpanned,pageSize]
      omega
    obtain ⟨k,rfl⟩ := Nat.exists_eq_add_of_lt (Nat.lt_of_lt_of_le hspan (hk h0))
    rw [Nat.zero_add,Nat.add_comm k,← Nat.add_assoc]
    refine ih hput _ (fun hrest => ?_) h
    have hone := pagesSpanned_page ptr hrest
    have hall := hk h0
    omega

/-- From the page `first` on: those it has got, and then null pointers. -/
def pinned (mm : Mm) (pgUser : List Pfn) (first page : Nat) : Pfn :=
  pgUser[page - first]?.getD mm.nullPfn

theorem prdt1Loop_holds (mm : Mm) (pgUser : List Pfn) (ht : t.Holds l) (hfuel : size ≤ fuel)
    (pgIdx ptr : Nat) (hidx : size ≠ 0 → ptr / pageSize = first + pgIdx) :
    (prdt1Loop mm pgUser fuel pgIdx ptr size t).Holds
        (l ++ buffer (pinned mm pgUser first) ptr size) ∧
      (size ≠ 0 ∨ t.Ended → (prdt1Loop mm pgUser fuel pgIdx ptr size t).Ended) := by
  induction fuel generalizing pgIdx ptr size t l with
  | zero =>
    have h0 : size = 0 := by omega
    subst h0
    refine ⟨?_,fun h => h.resolve_left (fun h => h rfl)⟩
    simpa [buffer,prdt1Loop] using ht
  | succ fuel ih =>
    unfold prdt1Loop
    by_cases h0 : size = 0
    · subst h0
      refine ⟨?_,fun h => h.resolve_left (fun h => h rfl)⟩
      simpa [buffer] using ht
    rw [if_neg h0]
    have hpage : pinned mm pgUser first (ptr / pageSize) = pgUser[pgIdx]?.getD mm.nullPfn := by
      rw [pinned,hidx h0,Nat.add_sub_cancel_left]
    have hpos := pgSize_pos ptr h0
    have hle : pgSize ptr size ≤ size := Nat.min_le_right _ _
    simp only [← hpage]
    obtain ⟨hput,hended⟩ := ht.putPage
      (add32 (phys (pinned mm pgUser first (ptr / pageSize))) (ptr % pageSize)) (pgSize ptr size)
    have hnext : size - pgSize ptr size ≠ 0 →
        (ptr + pgSize ptr size) / pageSize = first + (pgIdx + 1) := by
      intro hmore
      have hptr := hidx h0
      simp only [pgSize,pageSize] at hmore hptr ⊢
      omega
    obtain ⟨hholds,hend⟩ := ih hput (by omega) (pgIdx + 1) (ptr + pgSize ptr size) hnext
    rw [List.append_assoc,buffer_page] at hholds
    exact ⟨hholds,fun _ => hend (Or.inr hended)⟩

theorem getUserPages_eq (n : Nat)
    (h : ∀ i, i < n → (getUserPage mm (start + i * pageSize)).isSome = true) :
    getUserPages mm start n = (List.range n).map (fun i => got mm (start / pageSize + i)) := by
  induction n generalizing start with
  | zero => rfl
  | succ n ih =>
    have h0 := h 0 (Nat.succ_pos n)
    rw [Nat.zero_mul,Nat.add_zero] at h0
    obtain ⟨pfn,hpfn⟩ := Option.isSome_iff_exists.mp h0
    have hrest : ∀ i, i < n → (getUserPage mm (start + pageSize + i * pageSize)).isSome = true := by
      intro i hi
      have hnext := h (i + 1) (by omega)
      rwa [Nat.succ_mul,Nat.add_comm (i * pageSize),← Nat.add_assoc] at hnext
    unfold getUserPages
    rw [hpfn,ih hrest,List.range_succ_eq_map,List.map_cons,List.map_map,Nat.add_zero,
      getUserPage_got hpfn]
    simp only [List.cons.injEq,true_and]
    apply List.map_congr_left
    intro i _
    rw [Nat.add_div_right _ (show 0 < pageSize by decide),Function.comp_apply,Nat.succ_add_eq_add_succ]

theorem nrPages_eq (h : size ≤ 2560 * pageSize) : nrPages size = (size + (pageSize - 1)) / pageSize := by
  rw [nrPages,add32_small]
  simp only [pageSize] at h ⊢
  omega

theorem pinned_got (hall : Gettable mm user size) (hmax : size ≤ 2560 * pageSize)
    (hfit : pagesSpanned user size ≤ nrPages size) (hl : user ≤ a) (hu : a < user + size) :
    pinned mm (getUserPages mm user (nrPages size)) (user / pageSize) (a / pageSize) =
      got mm (a / pageSize) := by
  have hasked : ∀ i, i < nrPages size → (getUserPage mm (user + i * pageSize)).isSome = true := by
    intro i hi
    rw [nrPages_eq hmax] at hi
    refine hall _ (Nat.le_add_right _ _) ?_
    simp only [pageSize] at hi ⊢
    omega
  have hin : a / pageSize - user / pageSize < nrPages size := by
    refine Nat.lt_of_lt_of_le ?_ hfit
    simp only [pagesSpanned,pageSize]
    omega
  have hle : user / pageSize ≤ a / pageSize := Nat.div_le_div_right hl
  rw [pinned,getUserPages_eq _ hasked,List.getElem?_map,List.getElem?_range hin]
  simp only [Option.map_some,Option.getD_some,Nat.add_sub_cancel' hle]

end Apc8750.Prdt
