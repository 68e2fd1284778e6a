import Apc8750.Library.Gaps
import Apc8750.Library.Runs
import Apc8750.MemBlock.Device

namespace Apc8750.MemBlock
open State Gaps

variable {s t : State} {a : MbArea} {b : MbStruct}

def mbStart (b : MbStruct) : Nat := b.pgi.pfnStart

def mbEnd (b : MbStruct) : Nat := b.pgi.pfnEnd

structure Placed (mba : Nat) (b : MbStruct) : Prop where
  area : b.mba = mba
  phys : b.phys = b.pgi.pfnStart * pageSize
  virt : b.virt = pageOffset + b.phys
  size : b.size = (b.pgi.pfnEnd - b.pgi.pfnStart) * pageSize

structure AreaOk (a : MbArea) : Prop where
  ends : a.pgi.pfnEnd = a.pgi.pfnStart + a.pages
  pos : 0 < a.pages
  low : 0 < a.pgi.pfnStart
  high : a.pgi.pfnEnd < 2 ^ 18
  phys : a.phys = a.pgi.pfnStart * pageSize
  virt : a.virt = pageOffset + a.phys
  laid : Laid mbStart mbEnd a.pgi.pfnEnd a.pgi.pfnStart a.mbList
  placed : ∀ b ∈ a.mbList, Placed a.ptr b
  distinct : (a.mbList.map MbStruct.ptr).Nodup
  nrMb : a.nrMb = a.mbList.length
  free : a.totFreePages = room mbStart mbEnd a.pgi.pfnEnd a.pgi.pfnStart a.mbList
  available : a.maxAvailablePages =
    largest mbStart mbEnd a.pgi.pfnEnd a.pgi.pfnStart a.mbList

def Apart (a b : MbArea) : Prop := a.pgi.pfnEnd ≤ b.pgi.pfnStart ∨ b.pgi.pfnEnd ≤ a.pgi.pfnStart

structure AreasOk (l : List MbArea) : Prop where
  each : ∀ a ∈ l, AreaOk a
  distinct : (l.map MbArea.ptr).Nodup
  apart : l.Pairwise Apart

structure SizeOk (s : State) : Prop where
  areas : AreasOk s.mbaList
  nrMba : s.nrMba = s.mbaList.length
  totPages : s.totPages = (s.mbaList.map MbArea.pages).sum

structure HostOk (s : State) : Prop extends SizeOk s where
  totFree : s.totFreePages = (s.mbaList.map MbArea.totFreePages).sum
  available : s.maxAvailablePages = maxAvailable s.mbaList

theorem zones_walk (top low : Nat) (z : Zones) (l : List MbStruct) :
    let r := l.foldl (fun (r : Zones × Nat) entry =>
      (⟨max (entry.pgi.pfnStart - r.2) r.1.largest,r.1.total + (entry.pgi.pfnStart - r.2)⟩,
        entry.pgi.pfnEnd)) (z,low)
    (⟨max (top - r.2) r.1.largest,r.1.total + (top - r.2)⟩ : Zones) =
      ⟨max (largest mbStart mbEnd top low l) z.largest,z.total + room mbStart mbEnd top low l⟩ := by
  induction l generalizing z low with
  | nil => simp [largest,room,gaps]
  | cons b l ih =>
    simp only [List.foldl_cons]
    have h := ih b.pgi.pfnEnd
      ⟨max (b.pgi.pfnStart - low) z.largest,z.total + (b.pgi.pfnStart - low)⟩
    simp only at h
    rw [h,largest_cons]
    simp only [room,gaps,List.sum_cons,mbStart,mbEnd,Zones.mk.injEq]
    omega

theorem zones_eq (pgi : PageInfo) (l : List MbStruct) :
    zones pgi l = ⟨largest mbStart mbEnd pgi.pfnEnd pgi.pfnStart l,
      room mbStart mbEnd pgi.pfnEnd pgi.pfnStart l⟩ := by
  have h := zones_walk pgi.pfnEnd pgi.pfnStart ⟨0,0⟩ l
  simpa [zones] using h

theorem zoneSearch_stops (h : Laid mbStart mbEnd top low l) (i next ze : Nat) (hz : ze ≤ low) :
    (∃ before e after, l = before ++ e :: after ∧ pages ≤ mbStart e - lastEnd mbEnd low before ∧
      (∀ z, Free mbStart mbEnd top low l pages z → lastEnd mbEnd low before ≤ z) ∧
      zoneSearch pages i next low ze l = (lastEnd mbEnd low before, mbStart e, i + before.length)) ∨
    ∃ ze' next', zoneSearch pages i next low ze l = (lastEnd mbEnd low l, ze', next') ∧
      (∀ z, Free mbStart mbEnd top low l pages z → lastEnd mbEnd low l ≤ z) ∧
      ze' ≤ lastEnd mbEnd low l := by
  induction l generalizing low i next ze with
  | nil => exact Or.inr ⟨ze,next,rfl,fun z hz => hz.1,hz⟩
  | cons b l ih =>
    unfold zoneSearch
    split
    · rename_i hroom
      exact Or.inl ⟨[],b,l,rfl,hroom,fun z hz => hz.1,rfl⟩
    rename_i hroom
    have hbehind : ∀ {z}, Free mbStart mbEnd top low (b :: l) pages z →
        Free mbStart mbEnd top (mbEnd b) l pages z := fun hz => hz.behind (Nat.not_le.mp hroom)
    rcases ih h.2.2 (i + 1) i b.pgi.pfnStart (Nat.le_of_lt h.2.1) with
      ⟨before,e,after,he,hroom,hleast,hr⟩ | ⟨ze',next',hr,hleast,hle⟩
    · refine Or.inl ⟨b :: before,e,after,by simp [he],hroom,
        fun z hz => hleast z (hbehind hz),?_⟩
      rw [show b.pgi.pfnEnd = mbEnd b from rfl,hr]
      simp [lastEnd,Nat.add_assoc,Nat.add_comm 1]
    · exact Or.inr ⟨ze',next',hr,fun z hz => hleast z (hbehind hz),hle⟩

theorem place_cut (h : Laid mbStart mbEnd mba.pgi.pfnEnd mba.pgi.pfnStart mba.mbList)
    (hp : 0 < pages) :
    ∃ before after, mba.mbList = before ++ after ∧
      place pages mba = (lastEnd mbEnd mba.pgi.pfnStart before,
        firstStart mbStart mba.pgi.pfnEnd after, before.length) ∧
      ∀ z, Free mbStart mbEnd mba.pgi.pfnEnd mba.pgi.pfnStart mba.mbList pages z →
        lastEnd mbEnd mba.pgi.pfnStart before ≤ z ∧
        lastEnd mbEnd mba.pgi.pfnStart before + pages ≤ firstStart mbStart mba.pgi.pfnEnd after := by
  unfold place
  rcases zoneSearch_stops h 0 mba.mbList.length mba.pgi.pfnStart (Nat.le_refl _) with
    ⟨before,e,after,he,hroom,hleast,hr⟩ | ⟨ze,next,hr,hleast,hle⟩
  · refine ⟨before,e :: after,he,?_,fun z hz => ⟨hleast z hz,?_⟩⟩
    · rw [hr]
      simp only [firstStart,Nat.zero_add]
      rw [if_neg (by omega)]
    · simp only [firstStart]
      omega
  · refine ⟨mba.mbList,[],by simp,?_,fun z hz => ⟨hleast z hz,?_⟩⟩
    · rw [hr]
      simp only [hle,↓reduceIte,firstStart]
    · exact Nat.le_trans (Nat.add_le_add_right (hleast z hz) pages) hz.2.1

theorem insertIdx_cut (before after : List α) (x : α) :
    (before ++ after).insertIdx before.length x = before ++ x :: after := by
  induction before with
  | nil => rfl
  | cons y before ih => simp [ih]

theorem mbAllocMb_cases (hs : AreasOk s.mbaList) (hp : 0 < pageAlign size / pageSize)
    (h : mbAllocMb s q size slab = some (p,t)) :
    ∃ mba ∈ s.mbaList, ∃ before after, mba.ptr = q ∧ mba.mbList = before ++ after ∧
      s.allocMb slab = some p ∧
      lastEnd mbEnd mba.pgi.pfnStart before + pageAlign size / pageSize ≤
        firstStart mbStart mba.pgi.pfnEnd after ∧
      t = carve s mba (before ++ newMb mba p (lastEnd mbEnd mba.pgi.pfnStart before)
        (pageAlign size / pageSize) (pageAlign size) :: after) (pageAlign size / pageSize) := by
  unfold mbAllocMb at h
  split at h
  · cases h
  rename_i mba hf
  have hm : mba ∈ s.mbaList := List.mem_of_find?_eq_some hf
  obtain ⟨before,after,hcut,hplace,_⟩ := place_cut (hs.each mba hm).laid hp
  simp only [hplace] at h
  repeat' first | split at h | cases h
  rename_i hroom
  obtain ⟨p',hslab,he⟩ := Option.map_eq_some_iff.mp h
  rw [hcut,insertIdx_cut] at he
  cases he
  exact ⟨mba,hm,before,after,Keyed.find_key hf,hcut,hslab,by omega,rfl⟩

section
variable (h : AreasOk (before ++ a :: after))
include h

theorem AreasOk.exchange (ha : AreaOk a')
    (hptr : a'.ptr = a.ptr) (hap : ∀ c ∈ before ++ after, Apart c a') :
    AreasOk (before ++ a' :: after) := by
  refine ⟨?_,?_,?_⟩
  · intro b hb
    rcases List.mem_append.mp hb with hb | hb
    · exact h.each b (List.mem_append_left _ hb)
    · rcases List.mem_cons.mp hb with rfl | hb
      · exact ha
      · exact h.each b (List.mem_append_right _ (List.mem_cons_of_mem _ hb))
  · simpa only [List.map_append,List.map_cons,hptr] using h.distinct
  have hall := h.apart
  simp only [List.pairwise_append,List.pairwise_cons,List.mem_cons] at hall ⊢
  refine ⟨hall.1,⟨?_,hall.2.1.2⟩,?_⟩
  · intro b hb
    exact (hap b (List.mem_append_right _ hb)).symm
  · rintro b hb c (rfl | hc)
    · exact hap b (List.mem_append_left _ hb)
    · exact hall.2.2 b hb c (Or.inr hc)

theorem AreasOk.apart_others :
    ∀ c ∈ before ++ after, Apart c a := by
  intro c hc
  have hall := h.apart
  simp only [List.pairwise_append,List.pairwise_cons,List.mem_cons] at hall
  rcases List.mem_append.mp hc with hc | hc
  · exact hall.2.2 c hc a (Or.inl rfl)
  · exact (hall.2.1.1 c hc).symm

theorem AreasOk.replace (ha : AreaOk a')
    (hptr : a'.ptr = a.ptr) (hpgi : a'.pgi = a.pgi) : AreasOk (before ++ a' :: after) := by
  apply h.exchange ha hptr
  intro c hc
  simpa only [Apart,hpgi] using h.apart_others c hc

theorem AreasOk.drop : AreasOk (before ++ after) := by
  have hsub : (before ++ after).Sublist (before ++ a :: after) :=
    (List.Sublist.refl before).append (List.sublist_cons_self a after)
  exact ⟨fun b hb => h.each b (hsub.subset hb),h.distinct.sublist (hsub.map _),
    h.apart.sublist hsub⟩

end

theorem HostOk.around (h : HostOk s) (ha : a ∈ s.mbaList) :
    ∃ before after, s.mbaList = before ++ a :: after ∧
      (∀ f, Keyed.modify MbArea.ptr a.ptr f s.mbaList = before ++ f a :: after) ∧
      Keyed.remove MbArea.ptr a.ptr s.mbaList = before ++ after ∧
      s.nrMba = (before ++ after).length + 1 ∧
      s.totPages = ((before ++ after).map MbArea.pages).sum + a.pages ∧
      s.totFreePages = ((before ++ after).map MbArea.totFreePages).sum + a.totFreePages ∧
      s.maxAvailablePages = max a.maxAvailablePages (maxAvailable (before ++ after)) := by
  obtain ⟨before,after,he,hm,hr⟩ := Keyed.split h.areas.distinct ha
  refine ⟨before,after,he,hm,hr,?_,?_,?_,?_⟩
  · rw [h.nrMba,he]
    simp only [List.length_append,List.length_cons]
    omega
  · rw [h.totPages,he]
    simp only [List.map_append,List.map_cons,List.sum_append,List.sum_cons]
    omega
  · rw [h.totFree,he]
    simp only [List.map_append,List.map_cons,List.sum_append,List.sum_cons]
    omega
  · rw [h.available,he]
    simp only [maxAvailable,Keyed.peak_append,Keyed.peak_cons]
    omega

theorem HostOk.put (ha : AreasOk (before ++ a :: after)) (hl : s.mbaList = before ++ a :: after)
    (hn : s.nrMba = (before ++ after).length + 1)
    (hp : s.totPages = ((before ++ after).map MbArea.pages).sum + a.pages)
    (hf : s.totFreePages = ((before ++ after).map MbArea.totFreePages).sum + a.totFreePages)
    (hm : s.maxAvailablePages = max a.maxAvailablePages (maxAvailable (before ++ after))) :
    HostOk s := by
  refine ⟨⟨hl ▸ ha,?_,?_⟩,?_,?_⟩
  · rw [hn,hl]
    simp only [List.length_append,List.length_cons]
    omega
  · rw [hp,hl]
    simp only [List.map_append,List.map_cons,List.sum_append,List.sum_cons]
    omega
  · rw [hf,hl]
    simp only [List.map_append,List.map_cons,List.sum_append,List.sum_cons]
    omega
  · rw [hm,hl]
    simp only [maxAvailable,Keyed.peak_append,Keyed.peak_cons]
    omega

theorem newMb_placed (ha : AreaOk a) (hz : a.pgi.pfnStart ≤ zs) :
    Placed a.ptr (newMb a p zs pages (pages * pageSize)) := by
  have hphys := ha.phys
  refine ⟨rfl,?_,?_,?_⟩
  · simp only [newMb,hphys,← Nat.add_mul]
    congr 1
    omega
  · simp only [newMb,ha.virt]
    omega
  · simp [newMb]

theorem AreaOk.carve (ha : AreaOk a) (hcut : a.mbList = before ++ after) (hp : 0 < pages)
    (hroom : lastEnd mbEnd a.pgi.pfnStart before + pages ≤ firstStart mbStart a.pgi.pfnEnd after)
    (hfresh : ∀ b ∈ a.mbList, b.ptr ≠ p)
    (hb : b = newMb a p (lastEnd mbEnd a.pgi.pfnStart before) pages (pages * pageSize)) :
    AreaOk { a with
      mbList := before ++ b :: after
      nrMb := a.nrMb + 1
      totFreePages := a.totFreePages - pages
      maxAvailablePages := (zones a.pgi (before ++ b :: after)).largest } := by
  have hstart : mbStart b = lastEnd mbEnd a.pgi.pfnStart before := by rw [hb]; rfl
  have hend : mbEnd b = lastEnd mbEnd a.pgi.pfnStart before + pages := by rw [hb]; rfl
  have hlaid := ha.laid
  rw [hcut] at hlaid
  have hlaid' := hlaid.insert (x := b) (Nat.le_of_eq hstart.symm) (by omega) (by omega)
  have hlow : a.pgi.pfnStart ≤ lastEnd mbEnd a.pgi.pfnStart before := by
    have := (hlaid'.separated.1 b (by simp)).1
    omega
  refine ⟨ha.ends,ha.pos,ha.low,ha.high,ha.phys,ha.virt,hlaid',?_,?_,?_,?_,?_⟩
  · intro c hc
    rcases List.mem_append.mp hc with hc | hc
    · exact ha.placed c (hcut ▸ List.mem_append_left _ hc)
    rcases List.mem_cons.mp hc with rfl | hc
    · rw [hb]
      exact newMb_placed (a := a) ha hlow
    · exact ha.placed c (hcut ▸ List.mem_append_right _ hc)
  · have hd := ha.distinct
    have hptr : b.ptr = p := by rw [hb]; rfl
    rw [hcut] at hd hfresh
    simp only [List.map_append,List.map_cons]
    rw [List.nodup_middle]
    refine List.nodup_cons.mpr ⟨?_,by simpa using hd⟩
    rw [← List.map_append,hptr]
    intro hm
    obtain ⟨c,hc,he⟩ := List.mem_map.mp hm
    exact hfresh c hc he
  · simp only [ha.nrMb,hcut,List.length_append,List.length_cons]
    omega
  · have h1 := hlaid.room_add_used
    have h2 := hlaid'.room_add_used
    rw [used_insert] at h2
    have hf := ha.free
    rw [hcut] at hf
    simp only at hf ⊢
    omega
  · simp only [zones_eq]

theorem pageAlign_pages (n : Nat) : pageAlign n = pageAlign n / pageSize * pageSize := by
  unfold pageAlign
  rw [Nat.mul_div_cancel _ (by decide)]

theorem pageAlign_idem (n : Nat) : pageAlign (pageAlign n) = pageAlign n := by
  have h : pageAlign n < 2 ^ 32 :=
    Nat.lt_of_le_of_lt (Nat.div_mul_le_self _ _) (Nat.mod_lt _ (by decide))
  obtain ⟨k,hk⟩ : ∃ k, pageAlign n = k * 4096 := ⟨_,pageAlign_pages n⟩
  rw [hk] at h ⊢
  unfold pageAlign pageSize
  omega

theorem allocMb_fresh (h : s.allocMb slab = some p) : ∀ b ∈ s.blocks, b.ptr ≠ p := by
  obtain ⟨_,hp⟩ := Option.filter_eq_some_iff.mp h
  simpa using hp

theorem mem_blocks : b ∈ s.blocks ↔ ∃ a ∈ s.mbaList, b ∈ a.mbList := List.mem_flatMap

theorem HostOk.allocMb (hs : HostOk s) (hp : 0 < pageAlign size / pageSize)
    (h : mbAllocMb s q size slab = some (p,t)) : HostOk t := by
  obtain ⟨a,ha,front,back,rfl,hcut,hslab,hroom,rfl⟩ := mbAllocMb_cases hs.areas hp h
  obtain ⟨before,after,he,hm,_,hn,htp,htf,hmx⟩ := hs.around ha
  have hok := hs.areas.each a ha
  have hfresh : ∀ b ∈ a.mbList, b.ptr ≠ p := fun b hb =>
    allocMb_fresh hslab b (mem_blocks.mpr ⟨a,ha,hb⟩)
  rw [pageAlign_pages size] at hroom ⊢
  rw [Nat.mul_div_cancel _ (by decide)] at hroom ⊢
  have hnew := hok.carve hcut hp hroom hfresh rfl
  have hbound : pageAlign size / pageSize ≤ a.totFreePages := by
    have h1 := hok.laid.room_add_used
    have h2 := hnew.laid.room_add_used
    simp only [used_insert] at h2
    rw [hok.free]
    rw [← hcut] at h2
    simp only [mbEnd,mbStart,newMb] at h2
    omega
  have hlist := he ▸ hs.areas
  apply HostOk.put (hlist.replace hnew rfl rfl)
  · exact hm _
  · exact hn
  · exact htp
  · simp only [MemBlock.carve,modifyMba]
    omega
  · simp only [MemBlock.carve,modifyMba,hm]
    simp only [maxAvailable,Keyed.peak_append,Keyed.peak_cons]
    omega

end Apc8750.MemBlock
