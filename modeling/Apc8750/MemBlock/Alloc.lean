import Apc8750.MemBlock.Accounts

namespace Apc8750.MemBlock
open State Gaps

variable {s t : State} {a : MbArea} {b : MbStruct} {u : MbUser} {cfg : Config} {o : AllocOutcome}
  {size tgid pages : Nat}

def FreeRun (a : MbArea) (pages z : Nat) : Prop :=
  Free mbStart mbEnd a.pgi.pfnEnd a.pgi.pfnStart a.mbList pages z

/-- `b` is new in `a`, at the lowest free frames of the first area that has enough. -/
structure FirstFit (s t : State) (pages : Nat) (before : List MbArea) (a : MbArea)
    (after : List MbArea) (front : List MbStruct) (b : MbStruct) (back : List MbStruct) : Prop where
  areas : s.mbaList = before ++ a :: after
  blocks : a.mbList = front ++ back
  none : ∀ c ∈ before, ∀ z, ¬ FreeRun c pages z
  free : FreeRun a pages b.pgi.pfnStart
  least : ∀ z, FreeRun a pages z → b.pgi.pfnStart ≤ z
  ends : b.pgi.pfnEnd = b.pgi.pfnStart + pages
  phys : b.phys = a.phys + (b.pgi.pfnStart - a.pgi.pfnStart) * pageSize
  virt : b.virt = a.virt + (b.pgi.pfnStart - a.pgi.pfnStart) * pageSize
  others : ∃ largest, t.mbaList = before ++ { a with
    mbList := front ++ b :: back
    nrMb := a.nrMb + 1
    totFreePages := a.totFreePages - pages
    maxAvailablePages := largest } :: after

theorem AreaOk.available_iff (ha : AreaOk a) (hp : 0 < pages) :
    pages ≤ a.maxAvailablePages ↔ ∃ z, FreeRun a pages z := by
  rw [ha.available]
  exact ha.laid.le_largest_iff hp

theorem AreaOk.place_least (ha : AreaOk a) (hp : 0 < pages) (fits : pages ≤ a.maxAvailablePages) :
    ∃ front back, a.mbList = front ++ back ∧ place pages a = (lastEnd mbEnd a.pgi.pfnStart front,
        firstStart mbStart a.pgi.pfnEnd back, front.length) ∧
      lastEnd mbEnd a.pgi.pfnStart front + pages ≤ firstStart mbStart a.pgi.pfnEnd back ∧
      FreeRun a pages (lastEnd mbEnd a.pgi.pfnStart front) ∧
      ∀ z, FreeRun a pages z → lastEnd mbEnd a.pgi.pfnStart front ≤ z := by
  obtain ⟨front,back,hcut,hplace,hleast⟩ := place_cut ha.laid hp
  obtain ⟨z,hz⟩ := (ha.available_iff hp).mp fits
  have hroom := (hleast z hz).2
  refine ⟨front,back,hcut,hplace,hroom,?_,fun z hz => (hleast z hz).1⟩
  unfold FreeRun
  rw [hcut]
  exact (hcut ▸ ha.laid).free_cut hroom

theorem pageAlign_zero : pageAlign 0 = 0 := by decide

theorem mbAllocMb_fits (size : Nat) (hs : AreasOk s.mbaList) (ha : a ∈ s.mbaList)
    (hp : 0 < pageAlign size / pageSize) (fits : pageAlign size / pageSize ≤ a.maxAvailablePages) :
    ∃ front back, a.mbList = front ++ back ∧
      FreeRun a (pageAlign size / pageSize) (lastEnd mbEnd a.pgi.pfnStart front) ∧
      (∀ z, FreeRun a (pageAlign size / pageSize) z → lastEnd mbEnd a.pgi.pfnStart front ≤ z) ∧
      ∀ slab, mbAllocMb s a.ptr size slab = (s.allocMb slab).map fun p =>
        (p, carve s a (front ++ newMb a p (lastEnd mbEnd a.pgi.pfnStart front)
          (pageAlign size / pageSize) (pageAlign size) :: back) (pageAlign size / pageSize)) := by
  obtain ⟨front,back,hcut,hplace,hroom,hfree,hleast⟩ := (hs.each a ha).place_least hp fits
  refine ⟨front,back,hcut,hfree,hleast,fun slab => ?_⟩
  have hsize : size ≠ 0 := by
    rintro rfl
    rw [pageAlign_zero] at hp
    exact Nat.lt_irrefl 0 hp
  unfold mbAllocMb
  rw [show s.derefMba a.ptr = some a from Keyed.find_of_mem hs.distinct ha]
  simp only [hplace]
  rw [if_neg hsize,if_neg (Nat.not_lt.mpr fits),if_neg (by omega),hcut]
  simp only [insertIdx_cut]

theorem chooseMba_first (cfg : Config) (o : AllocOutcome) (hs : HostOk s) (hp : 0 < pages)
    (fits : pages ≤ s.maxAvailablePages) :
    ∃ before a after, s.mbaList = before ++ a :: after ∧ pages ≤ a.maxAvailablePages ∧
      (∀ c ∈ before, ¬ pages ≤ c.maxAvailablePages) ∧
      chooseMba cfg s pages o = (some a.ptr, s) := by
  have hne : s.mbaList ≠ [] := by
    intro hnil
    rw [hs.available,hnil] at fits
    exact absurd fits (Nat.not_le.mpr hp)
  obtain ⟨c,hc,hpeak⟩ := Keyed.peak_mem (g := MbArea.maxAvailablePages) hne
  have hsome : (s.mbaList.find? fun e => decide (pages ≤ e.maxAvailablePages)).isSome := by
    rw [List.find?_isSome]
    refine ⟨c,hc,?_⟩
    rw [hs.available] at fits
    exact decide_eq_true (hpeak ▸ fits)
  obtain ⟨a,hfind⟩ := Option.isSome_iff_exists.mp hsome
  obtain ⟨hfits,before,after,hsplit,hskip⟩ := List.find?_eq_some_iff_append.mp hfind
  refine ⟨before,a,after,hsplit,by simpa using hfits,by simpa using hskip,?_⟩
  unfold chooseMba
  rw [if_neg (Nat.not_lt.mpr fits),hfind]
  rfl

theorem modifyMb_middle {before after : List MbArea} {front back : List MbStruct}
    (hl : s.mbaList = before ++ a :: after) (hb : a.mbList = front ++ b :: back)
    (hmine : ∀ d ∈ front ++ back, d.ptr ≠ b.ptr)
    (hothers : ∀ c ∈ before ++ after, ∀ d ∈ c.mbList, d.ptr ≠ b.ptr) (f : MbStruct → MbStruct) :
    (s.modifyMb b.ptr f).mbaList = before ++ { a with mbList := front ++ f b :: back } :: after := by
  have hstay : ∀ l : List MbStruct, (∀ d ∈ l, d.ptr ≠ b.ptr) →
      l.map (fun d => if d.ptr = b.ptr then f d else d) = l := fun l hl => Keyed.modify_absent hl f
  have hkeep : ∀ l : List MbArea, (∀ c ∈ l, c ∈ before ++ after) → l.map (fun c => { c with
      mbList := c.mbList.map fun d => if d.ptr = b.ptr then f d else d }) = l := by
    intro l hsub
    conv_rhs => rw [← List.map_id l]
    refine List.map_congr_left fun c hc => ?_
    rw [hstay c.mbList (hothers c (hsub c hc))]
    rfl
  simp only [modifyMb,mapBlocks,hl,List.map_append,List.map_cons,hb,
    hkeep before fun c => List.mem_append_left _,hkeep after fun c => List.mem_append_right _,
    hstay front fun d hd => hmine d (List.mem_append_left _ hd),
    hstay back fun d hd => hmine d (List.mem_append_right _ hd),if_pos]

theorem mbDoAlloc_chosen {p r q : Nat} (tgid : Nat) (name : String)
    (hpages : 0 < pageAlign size / pageSize) (hu : s.allocMbu o.mbu = some p)
    (hc : chooseMba cfg s (pageAlign size / pageSize) o = (some q, t)) (ht : DriverOk t)
    {w : State} (hm : mbAllocMb t q (pageAlign size) o.mb = some (r,w)) (hb : b ∈ w.blocks)
    (hptr : b.ptr = r) :
    mbDoAlloc cfg s size tgid (some name) o = (b.phys, (linkMbu w r
      ⟨p,r,tgid,0,b.size,shortName name⟩).modifyMb r fun b => { b with creator := some p }) := by
  have hw := (ht.allocMb (by rwa [pageAlign_idem]) hm).1
  have hderef := hw.derefMb hb
  rw [hptr] at hderef
  unfold mbDoAlloc
  simp only [if_neg (Nat.ne_of_gt hpages),hu,hc,hm,hderef]

theorem DriverOk.first_fit (hs : DriverOk s) (hpages : 0 < pageAlign size / pageSize)
    (fits : pageAlign size / pageSize ≤ s.maxAvailablePages) {p r : Nat}
    (hu : s.allocMbu o.mbu = some p) (hr : s.allocMb o.mb = some r) (name : String) :
    ∃ t before a after front b back,
      mbDoAlloc cfg s size tgid (some name) o = (b.phys,t) ∧ b.phys ≠ 0 ∧
      FirstFit s t (pageAlign size / pageSize) before a after front b back := by
  obtain ⟨before,a,after,hl,hfits,hskip,hchoose⟩ :=
    chooseMba_first cfg o hs.host hpages fits
  have ha : a ∈ s.mbaList := by
    rw [hl]
    exact List.mem_append_cons_self
  have hok := hs.host.areas.each a ha
  obtain ⟨front,back,hcut,hfree,hleast,halloc⟩ := mbAllocMb_fits
    (pageAlign size) hs.host.areas ha (by rwa [pageAlign_idem]) (by rwa [pageAlign_idem])
  rw [pageAlign_idem] at hfree hleast halloc
  generalize hn : pageAlign size / pageSize = pages at *
  have hm := halloc o.mb
  rw [hr,Option.map_some] at hm
  have hfresh := allocMb_fresh hr
  let nb := newMb a r (lastEnd mbEnd a.pgi.pfnStart front) pages (pageAlign size)
  let u : MbUser := ⟨p,r,tgid,0,nb.size,shortName name⟩
  have hlist : (carve s a (front ++ nb :: back) pages).mbaList = before ++ { a with
      mbList := front ++ nb :: back
      nrMb := a.nrMb + 1
      totFreePages := a.totFreePages - pages
      maxAvailablePages := (zones a.pgi (front ++ nb :: back)).largest } :: after := by
    have hd := hs.host.areas.distinct
    simp only [carve,modifyMba]
    rw [hl] at hd ⊢
    exact (Keyed.middle hd).1 _
  have hmine : ∀ d ∈ front ++ back, d.ptr ≠ r := fun d hd =>
    hfresh d (mem_blocks.mpr ⟨a,ha,hcut ▸ hd⟩)
  have hothers : ∀ c ∈ before ++ after, ∀ d ∈ c.mbList, d.ptr ≠ r := by
    intro c hc d hd
    have hsub := (List.sublist_cons_self a after).append_left before
    exact hfresh d (mem_blocks.mpr ⟨c,hl ▸ hsub.subset hc,hd⟩)
  have hlinked := modifyMb_middle hlist rfl hmine hothers (addRecord u)
  have hdone := modifyMb_middle hlinked rfl hmine hothers fun b => { b with creator := some p }
  have hmem : nb ∈ (carve s a (front ++ nb :: back) pages).blocks := by
    rw [blocks,hlist]
    simp
  have hcall := mbDoAlloc_chosen tgid name (hn.symm ▸ hpages) hu (hn.symm ▸ hchoose) hs hm
    hmem rfl
  refine ⟨_,before,a,after,front,{ addRecord u nb with creator := some p },back,hcall,?_,
    hl,hcut,?_,hfree,hleast,rfl,rfl,?_,_,hdone⟩
  · show a.phys + _ ≠ 0
    have hlow := hok.low
    rw [hok.phys]
    unfold pageSize
    omega
  · intro c hc z hz
    have hcm : c ∈ s.mbaList := by
      rw [hl]
      exact List.mem_append_left _ hc
    exact hskip c hc (((hs.host.areas.each c hcm).available_iff hpages).mpr ⟨z,hz⟩)
  · show a.virt + (a.phys + _ - a.phys) = _
    rw [Nat.add_sub_cancel_left]
    rfl

theorem AreaOk.zone_found (ha : AreaOk a) (hp : 0 < pages) (fits : pages ≤ a.maxAvailablePages) :
    ¬ (place pages a).2.1 - (place pages a).1 < pages := by
  obtain ⟨front,back,_,hplace,hroom,_⟩ := ha.place_least hp fits
  rw [hplace]
  dsimp only
  omega

/-- A request for no more than the available pages gets the lowest free frames of the first area
with enough. -/
theorem alloc_first_fit {trace : List (Op × Reply)} (h : Reached cfg trace s)
    (hpages : 0 < pageAlign size / pageSize)
    (fits : pageAlign size / pageSize ≤ s.maxAvailablePages) {p r : Nat}
    (hu : s.allocMbu o.mbu = some p) (hr : s.allocMb o.mb = some r) (name : String) :
    (∀ a ∈ s.mbaList, ∀ n, 0 < n → n ≤ a.maxAvailablePages →
      ¬ (place n a).2.1 - (place n a).1 < n) ∧
    ∃ t before a after front b back,
      mbDoAlloc cfg s size tgid (some name) o = (b.phys, t) ∧ b.phys ≠ 0 ∧
      FirstFit s t (pageAlign size / pageSize) before a after front b back := by
  have hs := h.driverOk
  refine ⟨fun a ha n hn hfits => (hs.host.areas.each a ha).zone_found hn hfits, ?_⟩
  exact hs.first_fit hpages fits hu hr name

theorem alloc_first_fit_small : ∃ trace s t before a after front b back,
    Reached smallConfig trace s ∧
    mbDoAlloc smallConfig s 8192 0 (some "codec") ⟨some 40, none, none, some 41⟩ = (b.phys, t) ∧
    FirstFit s t 2 before a after front b back := by
  have h : (after smallConfig smallProbe smallOps).map (fun r => (decide (2 ≤ r.2.maxAvailablePages),
      r.2.allocMbu (some 40), r.2.allocMb (some 41))) = some (true, some 40, some 41) := by
    decide +kernel
  obtain ⟨⟨trace, s⟩, hrun, hfacts⟩ := Option.map_eq_some_iff.mp h
  simp only [Prod.mk.injEq, decide_eq_true_eq] at hfacts
  obtain ⟨fits, hu, hr⟩ := hfacts
  obtain ⟨_, t, before, a, after, front, b, back, hcall, _, hfit⟩ :=
    alloc_first_fit (o := ⟨some 40, none, none, some 41⟩) (.of_after hrun)
      (show 0 < pageAlign 8192 / pageSize by decide) fits hu hr "codec"
  exact ⟨trace, s, t, before, a, after, front, b, back, .of_after hrun, hcall, hfit⟩

structure Stranded (cfg : Config) (s : State) (size : Nat) (name : Option String)
    (o : AllocOutcome) : Prop where
  name : name ≠ none
  pages : 0 < pageAlign size / pageSize
  mbu : s.allocMbu o.mbu ≠ none
  short : s.maxAvailablePages < pageAlign size / pageSize
  dynamic : cfg.dynamicAllocate = true
  mba : s.allocMba o.mba ≠ none
  granted : mbAllocPages s (pageAlign size / pageSize) o.pages ≠ none
  mb : s.allocMb o.mb = none

theorem sub32_one (hn : 0 < n) (hlt : n < 2 ^ 32) : sub32 n 1 = n - 1 := by
  unfold sub32
  omega

theorem le_two_pow_getOrder (hn : 0 < n) (hlt : n * pageSize < 2 ^ 32) :
    n ≤ 2 ^ getOrder (n * pageSize) := by
  have hrest : sub32 (n * pageSize) 1 / pageSize = n - 1 := by
    rw [sub32_one (Nat.mul_pos hn (by decide)) hlt]
    unfold pageSize
    omega
  unfold getOrder
  simp only [hrest]
  split
  · omega
  · rename_i hne
    have := Nat.lt_log2_self (n := n - 1)
    omega

theorem mbAllocPages_enough {run : PageRun} (hn : 0 < pages) (hlt : pages * pageSize < 2 ^ 32)
    (h : mbAllocPages s pages grant = some run) : pages ≤ run.nrPages := by
  unfold mbAllocPages at h
  rw [if_neg (Nat.ne_of_gt hn)] at h
  simp only at h
  split at h
  · cases h
  · obtain ⟨pfn,_,rfl⟩ := Option.map_eq_some_iff.mp h
    refine (le_two_pow_getOrder hn hlt).trans ?_
    exact Nat.pow_le_pow_right (by decide) (Nat.le_max_left _ _)

theorem chooseMba_cases (hp : 0 < pages) (h : chooseMba cfg s pages o = (r,t)) :
    (t = s ∧ ¬ (s.maxAvailablePages < pages ∧ cfg.dynamicAllocate = true ∧
      s.allocMba o.mba ≠ none ∧ mbAllocPages s pages o.pages ≠ none)) ∨
    ∃ q run, s.maxAvailablePages < pages ∧ cfg.dynamicAllocate = true ∧
      s.allocMba o.mba = some q ∧ mbAllocPages s pages o.pages = some run ∧ r = some q ∧
      t = enlist s (newMba q run) := by
  unfold chooseMba at h
  split at h
  · rename_i hshort
    cases hdyn : cfg.dynamicAllocate with
    | false =>
      rw [hdyn,if_neg (by simp)] at h
      cases h
      exact Or.inl ⟨rfl,by simp⟩
    | true =>
      rw [hdyn,if_pos rfl,mbAllocMba,if_neg (Nat.ne_of_gt hp)] at h
      cases hmba : s.allocMba o.mba with
      | none =>
        rw [hmba] at h
        cases h
        exact Or.inl ⟨rfl,by simp⟩
      | some q =>
        cases hrun : mbAllocPages s pages o.pages with
        | none =>
          rw [hmba,hrun] at h
          cases h
          exact Or.inl ⟨rfl,by simp⟩
        | some run =>
          rw [hmba,hrun] at h
          cases h
          exact Or.inr ⟨q,run,hshort,rfl,rfl,rfl,rfl,rfl⟩
  · rename_i hfits
    cases h
    exact Or.inl ⟨rfl,fun hs => hfits hs.1⟩

section
variable (hpages : 0 < pageAlign size / pageSize) (hu : s.allocMbu o.mbu = some p)
  (hc : chooseMba cfg s (pageAlign size / pageSize) o = (some q, t))
include hpages hu hc

theorem mbDoAlloc_refused (hm : mbAllocMb t q (pageAlign size) o.mb = none) :
    mbDoAlloc cfg s size tgid (some name) o = (0,t) := by
  unfold mbDoAlloc
  simp only [if_neg (Nat.ne_of_gt hpages),hu,hc,hm]

theorem mbDoAlloc_served (ht : DriverOk t)
    (hm : mbAllocMb t q (pageAlign size) o.mb = some (r,w)) :
    (mbDoAlloc cfg s size tgid (some name) o).1 ≠ 0 := by
  obtain ⟨_,_,b,hperm,hptr,_,_,hphys,_⟩ := ht.allocMb (by rwa [pageAlign_idem]) hm
  rw [mbDoAlloc_chosen _ _ hpages hu hc ht hm (hperm.mem_iff.mpr List.mem_cons_self) hptr]
  exact Nat.ne_of_gt hphys

end

theorem newMba_fits {q : Nat} {run : PageRun} (hs : HostOk (enlist s (newMba q run)))
    (hpages : 0 < pageAlign size / pageSize)
    (hrun : mbAllocPages s (pageAlign size / pageSize) o.pages = some run) :
    (mbAllocMb (enlist s (newMba q run)) q (pageAlign size) o.mb = none ↔
      s.allocMb o.mb = none) := by
  have hlt : pageAlign size / pageSize * pageSize < 2 ^ 32 := by
    rw [← pageAlign_pages]
    exact Nat.lt_of_le_of_lt (Nat.div_mul_le_self _ _) (Nat.mod_lt _ (by decide))
  have henough := mbAllocPages_enough hpages hlt hrun
  have hmem : newMba q run ∈ (enlist s (newMba q run)).mbaList :=
    List.mem_append_cons_self
  obtain ⟨_,_,_,_,_,halloc⟩ := mbAllocMb_fits (pageAlign size) hs.areas hmem
    (by rwa [pageAlign_idem]) (by rwa [pageAlign_idem])
  have hblocks : (enlist s (newMba q run)).allocMb o.mb = s.allocMb o.mb := by
    unfold allocMb
    rw [blocks_enlist rfl]
  have hcall := halloc o.mb
  rw [hblocks] at hcall
  rw [show mbAllocMb (enlist s (newMba q run)) q (pageAlign size) o.mb = _ from hcall,
    Option.map_eq_none_iff]

theorem alloc_atomic_chosen (hs : DriverOk s) (hpages : 0 < pageAlign size / pageSize) {p : Nat}
    (hu : s.allocMbu o.mbu = some p) (name : String) :
    ((mbDoAlloc cfg s size tgid (some name) o).1 = 0 →
      (mbDoAlloc cfg s size tgid (some name) o).2 = s) ↔ ¬ Stranded cfg s size (some name) o := by
  cases hc : chooseMba cfg s (pageAlign size / pageSize) o with
  | mk r t =>
    have ht := (hs.chooseMba hc).1
    rcases chooseMba_cases hpages hc with ⟨rfl,hstay⟩ | ⟨q,run,hshort,hdyn,hmba,hrun,rfl,rfl⟩
    · refine iff_of_true (fun hzero => ?_) fun hc =>
        hstay ⟨hc.short,hc.dynamic,hc.mba,hc.granted⟩
      cases r with
      | none =>
        unfold mbDoAlloc
        simp only [if_neg (Nat.ne_of_gt hpages),hu,hc]
      | some q =>
        cases hm : mbAllocMb t q (pageAlign size) o.mb with
        | none => rw [mbDoAlloc_refused hpages hu hc hm]
        | some w => exact absurd hzero (mbDoAlloc_served hpages hu hc ht hm)
    · have hfail := newMba_fits (o := o) ht.host hpages hrun
      cases hm : mbAllocMb (enlist s (newMba q run)) q (pageAlign size) o.mb with
      | none =>
        rw [mbDoAlloc_refused hpages hu hc hm]
        refine iff_of_false (fun he => ?_) (not_not.mpr ⟨by simp,hpages,by simp [hu],hshort,hdyn,
          by simp [hmba],by simp [hrun],hfail.mp hm⟩)
        exact absurd (congrArg State.nrMba (he rfl)) (Nat.succ_ne_self _)
      | some w =>
        refine iff_of_true (fun hzero => ?_) fun hc => ?_
        · exact absurd hzero (mbDoAlloc_served hpages hu hc ht hm)
        · rw [hfail.mpr hc.mb] at hm
          cases hm

/-- A failed `mb_do_alloc` changes nothing, unless it has made a new area. -/
theorem alloc_atomic {trace : List (Op × Reply)} (h : Reached cfg trace s) (size tgid : Nat)
    (name : Option String) (o : AllocOutcome) :
    ((mbDoAlloc cfg s size tgid name o).1 = 0 → (mbDoAlloc cfg s size tgid name o).2 = s) ↔
      ¬ Stranded cfg s size name o := by
  have hs := h.driverOk
  have unchanged : mbDoAlloc cfg s size tgid name o = (0, s) → ¬ Stranded cfg s size name o →
      (((mbDoAlloc cfg s size tgid name o).1 = 0 → (mbDoAlloc cfg s size tgid name o).2 = s) ↔
        ¬ Stranded cfg s size name o) := by
    intro he hno
    exact iff_of_true (fun _ => by rw [he]) hno
  cases name with
  | none => exact unchanged rfl fun hc => hc.name rfl
  | some name =>
    rcases Nat.eq_zero_or_pos (pageAlign size / pageSize) with hzero | hpages
    · refine unchanged ?_ fun hc => absurd hc.pages (Nat.not_lt.mpr (Nat.le_of_eq hzero))
      unfold mbDoAlloc
      simp only [hzero, ↓reduceIte]
    cases hu : s.allocMbu o.mbu with
    | none =>
      refine unchanged ?_ fun hc => hc.mbu hu
      unfold mbDoAlloc
      simp only [if_neg (Nat.ne_of_gt hpages), hu]
    | some p => exact alloc_atomic_chosen hs hpages hu name

theorem alloc_atomic_small : ∃ trace s, Reached smallConfig trace s ∧
    ((mbDoAlloc smallConfig s 524288 0 (some "codec") ⟨some 20, some 2, none, some 30⟩).1 = 0 →
      (mbDoAlloc smallConfig s 524288 0 (some "codec") ⟨some 20, some 2, none, some 30⟩).2 = s) := by
  have h : (after smallConfig smallProbe []).map (fun r => mbAllocPages r.2 128 none) =
      some none := by
    decide +kernel
  obtain ⟨⟨trace, s⟩, hrun, hpages⟩ := Option.map_eq_some_iff.mp h
  refine ⟨trace, s, .of_after hrun, (alloc_atomic (.of_after hrun) _ _ _ _).mpr fun hc => ?_⟩
  exact hc.granted hpages

/-- The call fails, and the new area stays. -/
theorem alloc_strands_area : ∃ trace s, Reached smallConfig trace s ∧
    ∃ t, mbDoAlloc smallConfig s 524288 0 (some "codec") ⟨some 20, some 2, some 1024, none⟩ = (0, t) ∧
      s.nrMba = 1 ∧ t.nrMba = 2 := by
  have h : (after smallConfig smallProbe []).map (fun r =>
      (r.2.nrMba, (mbDoAlloc smallConfig r.2 524288 0 (some "codec")
        ⟨some 20, some 2, some 1024, none⟩).1, (mbDoAlloc smallConfig r.2 524288 0 (some "codec")
        ⟨some 20, some 2, some 1024, none⟩).2.nrMba)) = some (1, 0, 2) := by
    decide +kernel
  obtain ⟨⟨trace, s⟩, hrun, hfacts⟩ := Option.map_eq_some_iff.mp h
  simp only [Prod.mk.injEq] at hfacts
  exact ⟨trace, s, .of_after hrun, _, Prod.ext hfacts.2.1 rfl, hfacts.1, hfacts.2.2⟩

end Apc8750.MemBlock
