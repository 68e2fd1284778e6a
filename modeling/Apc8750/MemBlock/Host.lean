import Apc8750.MemBlock.Layout

namespace Apc8750.MemBlock
open State Gaps

theorem newMba_pgi (p pfn n : Nat) :
    (newMba p ⟨pfn * pageSize,pageOffset + pfn * pageSize,n⟩).pgi = ⟨pfn,pfn + n⟩ := by
  simp only [newMba,Nat.mul_div_cancel pfn (show 0 < pageSize by decide)]

theorem newMba_ok (hn : 0 < n) (hlow : 0 < pfn) (hhigh : pfn + n < 2 ^ 18) :
    AreaOk (newMba p ⟨pfn * pageSize,pageOffset + pfn * pageSize,n⟩) := by
  have hpgi := newMba_pgi p pfn n
  constructor
  · rw [hpgi]; rfl
  · exact hn
  · rw [hpgi]; exact hlow
  · rw [hpgi]; exact hhigh
  · rw [hpgi]; rfl
  · rfl
  · rw [hpgi]; exact Nat.le_add_right _ _
  · simp [newMba]
  · simp [newMba]
  · rfl
  · rw [hpgi]; simp [newMba,room,gaps]
  · rw [hpgi]; simp [newMba,largest,gaps]

theorem mbAllocMba_cases (h : mbAllocMba s pages slab grant = (r,t)) :
    (r = none ∧ t = s) ∨ ∃ p run, r = some p ∧ t = enlist s (newMba p run) ∧
      (∀ a ∈ s.mbaList, a.ptr ≠ p) ∧ AreaOk (newMba p run) ∧
      (∀ a ∈ s.mbaList, Apart a (newMba p run)) := by
  unfold mbAllocMba at h
  split at h
  · cases h; exact Or.inl ⟨rfl,rfl⟩
  split at h
  · cases h; exact Or.inl ⟨rfl,rfl⟩
  rename_i p hslab
  split at h
  · cases h; exact Or.inl ⟨rfl,rfl⟩
  rename_i run hrun
  cases h
  have hfresh : ∀ a ∈ s.mbaList, a.ptr ≠ p := by
    obtain ⟨_,hp⟩ := Option.filter_eq_some_iff.mp hslab
    simpa using hp
  unfold mbAllocPages at hrun
  split at hrun
  · cases hrun
  simp only at hrun
  split at hrun
  · cases hrun
  obtain ⟨pfn,hg,rfl⟩ := Option.map_eq_some_iff.mp hrun
  obtain ⟨_,hpfn⟩ := Option.filter_eq_some_iff.mp hg
  simp only [Bool.and_eq_true,decide_eq_true_eq,List.all_eq_true,Bool.or_eq_true] at hpfn
  obtain ⟨⟨hlow,hhigh⟩,hfree⟩ := hpfn
  have hpgi := newMba_pgi p pfn (2 ^ max (getOrder (pages * pageSize)) mbaMinOrder)
  refine Or.inr ⟨p,_,rfl,rfl,hfresh,newMba_ok (Nat.two_pow_pos _) hlow hhigh,?_⟩
  intro a ha
  rw [Apart,hpgi]
  exact (hfree a ha).symm

theorem SizeOk.enlist (hs : SizeOk s) (hfresh : ∀ b ∈ s.mbaList, b.ptr ≠ a.ptr)
    (ha : AreaOk a) (hapart : ∀ b ∈ s.mbaList, Apart b a) : SizeOk (enlist s a) := by
  refine ⟨⟨?_,?_,?_⟩,?_,?_⟩
  · intro b hb
    rcases List.mem_append.mp hb with hb | hb
    · exact hs.areas.each b hb
    · rw [List.mem_singleton.mp hb]
      exact ha
  · simp only [MemBlock.enlist,List.map_append,List.map_cons,List.map_nil]
    rw [List.nodup_append]
    refine ⟨hs.areas.distinct,by simp,?_⟩
    intro p hp q hq
    obtain ⟨b,hb,rfl⟩ := List.mem_map.mp hp
    rw [List.mem_singleton.mp hq]
    exact hfresh b hb
  · refine List.pairwise_append.mpr ⟨hs.areas.apart,by simp,?_⟩
    intro b hb c hc
    rw [List.mem_singleton.mp hc]
    exact hapart b hb
  · simp [MemBlock.enlist,hs.nrMba]
  · simp [MemBlock.enlist,hs.totPages]

theorem HostOk.enlist (hs : HostOk s) (hfresh : ∀ b ∈ s.mbaList, b.ptr ≠ a.ptr)
    (ha : AreaOk a) (hapart : ∀ b ∈ s.mbaList, Apart b a) : HostOk (enlist s a) := by
  refine ⟨hs.toSizeOk.enlist hfresh ha hapart,?_,?_⟩
  · simp [MemBlock.enlist,hs.totFree]
  · simp only [MemBlock.enlist,maxAvailable,Keyed.peak_append,hs.available]
    rfl

theorem HostOk.allocMba (hs : HostOk s) (h : mbAllocMba s pages slab grant = (r,t)) :
    HostOk t := by
  rcases mbAllocMba_cases h with ⟨_,rfl⟩ | ⟨p,run,_,rfl,hfresh,ha,hapart⟩
  · exact hs
  · exact hs.enlist hfresh ha hapart

theorem mbFreeMba_cases (h : mbFreeMba s q = (r,t)) :
    t = s ∨ ∃ mba ∈ s.mbaList, mba.ptr = q ∧ mba.nrMb = 0 ∧ mba.isStatic = false ∧
      t = disband s mba := by
  unfold mbFreeMba at h
  repeat' first | split at h | (cases h; exact Or.inl rfl)
  rename_i mba hf hnr hst
  cases h
  exact Or.inr ⟨mba,List.mem_of_find?_eq_some hf,Keyed.find_key hf,by simpa using hnr,
    by simpa using hst,rfl⟩

theorem HostOk.disband (hs : HostOk s) (ha : a ∈ s.mbaList) : HostOk (disband s a) := by
  obtain ⟨before,after,he,_,hrem,hn,htp,htf,_⟩ := hs.around ha
  have hdrop := (he ▸ hs.areas).drop
  refine ⟨⟨?_,?_,?_⟩,?_,rfl⟩
  · simpa only [MemBlock.disband,hrem] using hdrop
  · simp only [MemBlock.disband,hrem]
    omega
  · simp only [MemBlock.disband,hrem]
    omega
  · simp only [MemBlock.disband,hrem]
    omega

theorem HostOk.freeMba (hs : HostOk s) (h : mbFreeMba s q = (r,t)) : HostOk t := by
  rcases mbFreeMba_cases h with rfl | ⟨mba,hm,_,_,_,rfl⟩
  · exact hs
  · exact hs.disband hm

def retrieved (a : MbArea) (p : Nat) : MbArea :=
  let l := Keyed.remove MbStruct.ptr p a.mbList
  { a with
    mbList := l
    nrMb := a.nrMb - 1
    totFreePages := (zones a.pgi l).total
    maxAvailablePages := (zones a.pgi l).largest }

theorem AreaOk.retrieve (ha : AreaOk a) (hb : b ∈ a.mbList) : AreaOk (retrieved a b.ptr) := by
  obtain ⟨before,after,he,_,hrem⟩ := Keyed.split ha.distinct hb
  refine ⟨ha.ends,ha.pos,ha.low,ha.high,ha.phys,ha.virt,ha.laid.filter _,?_,?_,?_,?_,?_⟩
  · intro c hc
    exact ha.placed c (List.mem_of_mem_filter hc)
  · exact ha.distinct.sublist (List.filter_sublist.map _)
  · have hlen := congrArg List.length he
    simp only [List.length_append,List.length_cons] at hlen
    simp only [retrieved,hrem,ha.nrMb,List.length_append]
    omega
  · simp only [retrieved,zones_eq]
  · simp only [retrieved,zones_eq]

theorem mbFreeMb_cases (hs : HostOk s) (h : mbFreeMb s p = (r,t)) :
    (t = s ∧ ∀ mb, s.derefMb p = some mb → mb.count ≠ 0) ∨ ∃ mba ∈ s.mbaList, ∃ mb ∈ mba.mbList, mb.ptr = p ∧ mb.count = 0 ∧ r = 0 ∧
      ((mba.mbList = [mb] ∧ mba.isStatic = false ∧ t = disband s mba) ∨
        t = { s with
          mbaList := Keyed.modify MbArea.ptr mba.ptr (fun _ => retrieved mba p) s.mbaList
          totFreePages := s.totFreePages - mba.totFreePages + (retrieved mba p).totFreePages
          maxAvailablePages := max s.maxAvailablePages (retrieved mba p).maxAvailablePages }) := by
  unfold mbFreeMb at h
  split at h
  · rename_i hnone
    cases h
    exact Or.inl ⟨rfl,fun mb hmb => by rw [hnone] at hmb; cases hmb⟩
  rename_i mb hmb
  split at h
  · rename_i hcount
    cases h
    refine Or.inl ⟨rfl,fun c hc => ?_⟩
    rw [hmb] at hc
    cases hc
    exact hcount
  rename_i hcount
  obtain ⟨a,ha,hb⟩ := mem_blocks.mp (List.mem_of_find?_eq_some hmb)
  have hptr := Keyed.find_key hmb
  have harea := ((hs.areas.each a ha).placed mb hb).area
  have hmba : s.derefMba mb.mba = some a := by
    rw [harea]
    exact Keyed.find_of_mem hs.areas.distinct ha
  simp only [hmba] at h
  obtain ⟨before,after,he,hmod,hrem⟩ := Keyed.split hs.areas.distinct ha
  have hkey : ∀ c : MbArea, MbArea.ptr { c with
      mbList := Keyed.remove MbStruct.ptr p a.mbList, nrMb := c.nrMb - 1 } = c.ptr := fun _ => rfl
  refine Or.inr ⟨a,ha,mb,hb,hptr,by simpa using hcount,?_⟩
  split at h
  · rename_i hall
    exact absurd hptr (by simpa using List.all_eq_true.mp hall mb hb)
  split at h
  · rename_i hlast
    have hlist : a.mbList = [mb] := by
      have hlen := (hs.areas.each a ha).nrMb
      have hpos := List.length_pos_of_mem hb
      obtain ⟨c,hc⟩ := List.length_eq_one_iff.mp (show a.mbList.length = 1 by omega)
      rw [hc] at hb ⊢
      rw [List.mem_singleton.mp hb]
    have hfind := congrArg (Option.map (fun c : MbArea => { c with
      mbList := Keyed.remove MbStruct.ptr p a.mbList, nrMb := c.nrMb - 1 })) (harea ▸ hmba)
    simp only [mbFreeMba,derefMba,MemBlock.retrieve,modifyMba,Keyed.find_modify hkey] at h hfind
    rw [hfind] at h
    simp only [Option.map_some,hlast.1,hlast.2,ne_eq,not_true_eq_false,↓reduceIte,
      Bool.false_eq_true,Prod.mk.injEq] at h
    refine ⟨h.1.symm,Or.inl ⟨hlist,hlast.2,h.2.symm.trans ?_⟩⟩
    simp only [disband,Keyed.remove_modify hkey]
  · cases h
    refine ⟨rfl,Or.inr ?_⟩
    simp only [MemBlock.recount,MemBlock.retrieve,modifyMba]
    rw [Keyed.modify_modify hkey,hmod,hmod]
    rfl

theorem HostOk.freeMb (hs : HostOk s) (h : mbFreeMb s p = (r,t)) : HostOk t := by
  rcases mbFreeMb_cases hs h with ⟨rfl,_⟩ | ⟨a,ha,b,hb,rfl,_,_,⟨_,_,rfl⟩ | rfl⟩
  · exact hs
  · exact hs.disband ha
  obtain ⟨before,after,he,hm,_,hn,htp,htf,hmx⟩ := hs.around ha
  have hok := hs.areas.each a ha
  have hlist := he ▸ hs.areas
  have hgrow := hok.laid.largest_le_filter (fun c => c.ptr != b.ptr) (Nat.le_refl _)
  rw [← hok.available] at hgrow
  apply HostOk.put (hlist.replace (hok.retrieve hb) rfl rfl)
  · exact hm _
  · exact hn
  · exact htp
  · simp only
    omega
  · have hmax : a.maxAvailablePages ≤ (retrieved a b.ptr).maxAvailablePages := by
      simpa only [retrieved,zones_eq,Keyed.remove] using hgrow
    simp only
    omega

def frame (b : MbStruct) : MbStruct := { b with count := 0, creator := none, mbuList := [] }

theorem frame_fields (h : frame b = frame c) :
    b.ptr = c.ptr ∧ b.mba = c.mba ∧ b.pgi = c.pgi ∧ b.phys = c.phys ∧ b.virt = c.virt ∧
      b.size = c.size := by
  simpa [frame] using h

theorem AreaOk.mapBlocks (ha : AreaOk a) (hf : ∀ b, frame (f b) = frame b) :
    AreaOk { a with mbList := a.mbList.map f } := by
  have hst : ∀ b, mbStart (f b) = mbStart b := fun b => by
    rw [mbStart,(frame_fields (hf b)).2.2.1,mbStart]
  have hen : ∀ b, mbEnd (f b) = mbEnd b := fun b => by
    rw [mbEnd,(frame_fields (hf b)).2.2.1,mbEnd]
  refine ⟨ha.ends,ha.pos,ha.low,ha.high,ha.phys,ha.virt,ha.laid.map hst hen,?_,?_,?_,?_,?_⟩
  · intro c hc
    obtain ⟨b,hb,rfl⟩ := List.mem_map.mp hc
    obtain ⟨_,hmba,hpgi,hphys,hvirt,hsize⟩ := frame_fields (hf b)
    obtain ⟨h1,h2,h3,h4⟩ := ha.placed b hb
    exact ⟨hmba.trans h1,by rw [hphys,hpgi,h2],by rw [hvirt,hphys,h3],
      by rw [hsize,hpgi,h4]⟩
  · have hptr : MbStruct.ptr ∘ f = MbStruct.ptr := funext (fun b => (frame_fields (hf b)).1)
    simpa only [List.map_map,hptr] using ha.distinct
  · simpa using ha.nrMb
  · simpa only [room,gaps_map hst hen] using ha.free
  · simpa only [largest,gaps_map hst hen] using ha.available

theorem AreasOk.map (h : AreasOk l) (hok : ∀ a, AreaOk a → AreaOk (g a))
    (hptr : ∀ a, (g a).ptr = a.ptr) (hpgi : ∀ a, (g a).pgi = a.pgi) : AreasOk (l.map g) := by
  refine ⟨?_,?_,?_⟩
  · intro b hb
    obtain ⟨a,ha,rfl⟩ := List.mem_map.mp hb
    exact hok a (h.each a ha)
  · have hcomp : MbArea.ptr ∘ g = MbArea.ptr := funext hptr
    simpa only [List.map_map,hcomp] using h.distinct
  · refine List.pairwise_map.mpr (h.apart.imp ?_)
    intro a b hab
    simpa only [Apart,hpgi] using hab

structure Unnoticed (g : MbArea → MbArea) : Prop where
  ok : ∀ a, AreaOk a → AreaOk (g a)
  ptr : ∀ a, (g a).ptr = a.ptr
  pgi : ∀ a, (g a).pgi = a.pgi
  pages : ∀ a, (g a).pages = a.pages
  free : ∀ a, (g a).totFreePages = a.totFreePages
  available : ∀ a, (g a).maxAvailablePages = a.maxAvailablePages

theorem SizeOk.map (hs : SizeOk s) (hg : Unnoticed g) :
    SizeOk { s with mbaList := s.mbaList.map g, totStaticPages := n } := by
  refine ⟨hs.areas.map hg.ok hg.ptr hg.pgi,?_,?_⟩
  · simpa using hs.nrMba
  · have hcomp : MbArea.pages ∘ g = MbArea.pages := funext hg.pages
    simpa only [List.map_map,hcomp] using hs.totPages

theorem HostOk.map (hs : HostOk s) (hg : Unnoticed g) :
    HostOk { s with mbaList := s.mbaList.map g, totStaticPages := n } := by
  refine ⟨hs.toSizeOk.map hg,?_,?_⟩
  · have hcomp : MbArea.totFreePages ∘ g = MbArea.totFreePages := funext hg.free
    simpa only [List.map_map,hcomp] using hs.totFree
  · simpa only [maxAvailable,Keyed.peak,List.foldl_map,hg.available] using hs.available

theorem retag_unnoticed (p tgid : Nat) (fixed : Bool) :
    Unnoticed (fun a => if a.ptr = p then { a with isStatic := fixed, tgid := tgid } else a) := by
  constructor <;> intro a
  · intro ha
    split
    · exact ⟨ha.ends,ha.pos,ha.low,ha.high,ha.phys,ha.virt,ha.laid,ha.placed,ha.distinct,
        ha.nrMb,ha.free,ha.available⟩
    · exact ha
  all_goals split <;> rfl

theorem mapBlocks_unnoticed (hf : ∀ b, frame (f b) = frame b) :
    Unnoticed (fun a => { a with mbList := a.mbList.map f }) :=
  ⟨fun _ ha => ha.mapBlocks hf,fun _ => rfl,fun _ => rfl,fun _ => rfl,fun _ => rfl,
    fun _ => rfl⟩

section
variable (hs : HostOk s)
include hs

theorem HostOk.mapBlocks (hf : ∀ b, frame (f b) = frame b) :
    HostOk (s.mapBlocks f) := hs.map (mapBlocks_unnoticed hf)

theorem HostOk.modifyMb (hf : ∀ b, frame (f b) = frame b) :
    HostOk (s.modifyMb p f) := by
  apply hs.mapBlocks
  intro b
  split
  · exact hf b
  · rfl

theorem HostOk.listDelMbu : HostOk (s.listDelMbu p) :=
  hs.mapBlocks (fun _ => rfl)

theorem HostOk.linkMbu : HostOk (linkMbu s p u) :=
  hs.modifyMb (fun _ => rfl)

theorem HostOk.disownMb : HostOk (disownMb s p q) :=
  hs.listDelMbu.modifyMb (fun _ => rfl)

theorem HostOk.unlinkMbu : HostOk (unlinkMbu s p q) :=
  hs.listDelMbu.modifyMb (fun _ => rfl)

theorem HostOk.tasks {tasks : List MbTaskInfo} {files : List Filp} :
    HostOk { s with mbtiList := tasks, filps := files } :=
  ⟨⟨hs.areas,hs.nrMba,hs.totPages⟩,hs.totFree,hs.available⟩

theorem HostOk.markStatic : HostOk (markStatic s a tgid) :=
  hs.map (retag_unnoticed a.ptr tgid true)

theorem HostOk.unmark : HostOk (unmark s a) :=
  hs.map (retag_unnoticed a.ptr mbDefTgid false)

end

theorem foldl_total (n : Nat) (l : List MbArea) (h : ∀ a ∈ l, AreaOk a) :
    l.foldl (fun n a => n + (zones a.pgi a.mbList).total) n =
      n + (l.map MbArea.totFreePages).sum := by
  induction l generalizing n with
  | nil => rfl
  | cons a l ih =>
    have hf := (h a List.mem_cons_self).free
    have hz := congrArg Zones.total (zones_eq a.pgi a.mbList)
    simp only at hz
    rw [List.foldl_cons,ih _ (fun b hb => h b (List.mem_cons_of_mem _ hb)),List.map_cons,
      List.sum_cons,hz,hf,Nat.add_assoc]

theorem foldl_largest (m : Nat) (l : List MbArea) (h : ∀ a ∈ l, AreaOk a) :
    l.foldl (fun m a => max m (zones a.pgi a.mbList).largest) m =
      l.foldl (fun m a => max m a.maxAvailablePages) m := by
  induction l generalizing m with
  | nil => rfl
  | cons a l ih =>
    have hf := (h a List.mem_cons_self).available
    have hz := congrArg Zones.largest (zones_eq a.pgi a.mbList)
    simp only at hz
    rw [List.foldl_cons,List.foldl_cons,ih _ (fun b hb => h b (List.mem_cons_of_mem _ hb)),hz,
      hf]

theorem SizeOk.update (hs : SizeOk s) : HostOk (mbUpdateMbah s) := by
  refine ⟨⟨hs.areas,hs.nrMba,hs.totPages⟩,?_,?_⟩
  · exact (foldl_total 0 s.mbaList hs.areas.each).trans (Nat.zero_add _)
  · exact foldl_largest 0 s.mbaList hs.areas.each

end Apc8750.MemBlock
