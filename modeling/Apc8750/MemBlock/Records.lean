import Apc8750.MemBlock.Host

namespace Apc8750.MemBlock
open State

variable {s t : State} {a : MbArea} {b c : MbStruct} {u v : MbUser} {cfg : Config}
  {l before after : List MbStruct}

structure BlockOk (b : MbStruct) : Prop where
  count : b.count = b.mbuList.length
  back : ∀ u ∈ b.mbuList, u.mb = b.ptr
  creator : ∀ p, b.creator = some p → ∃ u ∈ b.mbuList, u.ptr = p ∧ u.addr = 0

structure RecordsOk (l : List MbStruct) : Prop where
  each : ∀ b ∈ l, BlockOk b
  blocks : (l.map MbStruct.ptr).Nodup
  users : ((l.flatMap MbStruct.mbuList).map MbUser.ptr).Nodup

theorem RecordsOk.perm (h : RecordsOk l) (hp : m.Perm l) : RecordsOk m :=
  ⟨fun b hb => h.each b (hp.mem_iff.mp hb),(hp.map _).nodup_iff.mpr h.blocks,
    ((hp.flatMap_right _).map _).nodup_iff.mpr h.users⟩

theorem RecordsOk.mine (h : RecordsOk l) (hb : b ∈ l) : (b.mbuList.map MbUser.ptr).Nodup := by
  obtain ⟨before,after,rfl⟩ := List.append_of_mem hb
  have hu := h.users
  simp only [List.flatMap_append,List.flatMap_cons,List.map_append] at hu
  exact (List.nodup_append.mp (List.nodup_append.mp hu).2.1).1

section
variable (h : RecordsOk (before ++ b :: after))
include h

theorem RecordsOk.others (hu : u ∈ b.mbuList) :
    ∀ c ∈ before ++ after, ∀ v ∈ c.mbuList, v.ptr ≠ u.ptr := by
  have hn := h.users
  simp only [List.flatMap_append,List.flatMap_cons,List.map_append,List.nodup_append] at hn
  obtain ⟨_,⟨_,_,hright⟩,hleft⟩ := hn
  have hum := List.mem_map_of_mem (f := MbUser.ptr) hu
  intro c hc v hv he
  have hvm : ∀ {m : List MbStruct}, c ∈ m → u.ptr ∈ (m.flatMap MbStruct.mbuList).map MbUser.ptr :=
    fun hm => he ▸ List.mem_map_of_mem (List.mem_flatMap.mpr ⟨c,hm,hv⟩)
  rcases List.mem_append.mp hc with hc | hc
  · exact hleft _ (hvm hc) _ (List.mem_append_left _ hum) rfl
  · exact hright _ hum _ (hvm hc) rfl

theorem RecordsOk.fewer (hb : BlockOk b')
    (hptr : b'.ptr = b.ptr) (hsub : b'.mbuList.Sublist b.mbuList) :
    RecordsOk (before ++ b' :: after) := by
  refine ⟨?_,?_,?_⟩
  · intro c hc
    rcases List.mem_append.mp hc with hc | hc
    · exact h.each c (List.mem_append_left _ hc)
    · rcases List.mem_cons.mp hc with rfl | hc
      · exact hb
      · exact h.each c (List.mem_append_right _ (List.mem_cons_of_mem _ hc))
  · simpa only [List.map_append,List.map_cons,hptr] using h.blocks
  · refine h.users.sublist (List.Sublist.map _ ?_)
    simp only [List.flatMap_append,List.flatMap_cons]
    exact (List.Sublist.refl _).append (hsub.append (List.Sublist.refl _))

theorem RecordsOk.without : RecordsOk (before ++ after) := by
  have hsub : (before ++ after).Sublist (before ++ b :: after) :=
    (List.Sublist.refl before).append (List.sublist_cons_self b after)
  refine ⟨fun c hc => h.each c (hsub.subset hc),h.blocks.sublist (hsub.map _),
    h.users.sublist (List.Sublist.map _ ?_)⟩
  simp only [List.flatMap_append,List.flatMap_cons]
  exact (List.Sublist.refl _).append (List.sublist_append_right _ _)

end

theorem RecordsOk.cons (h : RecordsOk l) (hb : BlockOk b) (hfresh : ∀ c ∈ l, c.ptr ≠ b.ptr)
    (hmine : (b.mbuList.map MbUser.ptr).Nodup)
    (hnew : ∀ u ∈ b.mbuList, ∀ c ∈ l, ∀ v ∈ c.mbuList, v.ptr ≠ u.ptr) : RecordsOk (b :: l) := by
  refine ⟨?_,?_,?_⟩
  · intro c hc
    rcases List.mem_cons.mp hc with rfl | hc
    · exact hb
    · exact h.each c hc
  · refine List.nodup_cons.mpr ⟨?_,h.blocks⟩
    intro hm
    obtain ⟨c,hc,he⟩ := List.mem_map.mp hm
    exact hfresh c hc he
  simp only [List.flatMap_cons,List.map_append]
  refine List.nodup_append.mpr ⟨hmine,h.users,?_⟩
  intro p hp q hq he
  obtain ⟨u,hu,rfl⟩ := List.mem_map.mp hp
  obtain ⟨v,hv,rfl⟩ := List.mem_map.mp hq
  obtain ⟨c,hc,hv⟩ := List.mem_flatMap.mp hv
  exact hnew u hu c hc v hv he.symm

def addRecord (u : MbUser) (b : MbStruct) : MbStruct :=
  { b with mbuList := b.mbuList ++ [u], count := b.count + 1 }

def dropRecord (p : Nat) (b : MbStruct) : MbStruct :=
  { b with mbuList := Keyed.remove MbUser.ptr p b.mbuList, count := b.count - 1 }

def disown (p : Nat) (b : MbStruct) : MbStruct := { dropRecord p b with creator := none }

theorem BlockOk.addRecord (h : BlockOk b) (hu : u.mb = b.ptr) : BlockOk (addRecord u b) := by
  refine ⟨?_,?_,?_⟩
  · simp [MemBlock.addRecord,h.count]
  · intro v hv
    rcases List.mem_append.mp hv with hv | hv
    · exact h.back v hv
    · rw [List.mem_singleton.mp hv]
      exact hu
  · intro p hp
    obtain ⟨v,hv,hrest⟩ := h.creator p hp
    exact ⟨v,List.mem_append_left _ hv,hrest⟩

theorem length_remove (hn : (b.mbuList.map MbUser.ptr).Nodup) (hu : u ∈ b.mbuList) :
    (Keyed.remove MbUser.ptr u.ptr b.mbuList).length + 1 = b.mbuList.length := by
  obtain ⟨before,after,he,_,hrem⟩ := Keyed.split hn hu
  rw [hrem,he]
  simp only [List.length_append,List.length_cons]
  omega

section
variable (h : BlockOk b) (hn : (b.mbuList.map MbUser.ptr).Nodup) (hu : u ∈ b.mbuList)
include h hn hu

theorem BlockOk.dropRecord (hc : b.creator ≠ some u.ptr) : BlockOk (dropRecord u.ptr b) := by
  refine ⟨?_,?_,?_⟩
  · have hlen := length_remove hn hu
    simp only [MemBlock.dropRecord,h.count]
    omega
  · intro v hv
    exact h.back v (List.mem_of_mem_filter hv)
  · intro p hp
    obtain ⟨v,hv,rfl,haddr⟩ := h.creator p hp
    have hne : v.ptr ≠ u.ptr := fun he => hc (he ▸ hp)
    exact ⟨v,List.mem_filter.mpr ⟨hv,by simpa using hne⟩,rfl,haddr⟩

theorem BlockOk.disown : BlockOk (disown u.ptr b) := by
  refine ⟨?_,?_,?_⟩
  · have hlen := length_remove hn hu
    simp only [MemBlock.disown,MemBlock.dropRecord,h.count]
    omega
  · intro v hv
    exact h.back v (List.mem_of_mem_filter hv)
  · intro p hp
    cases hp

end

section
variable (h : RecordsOk l) (hb : b ∈ l)
include h hb

theorem RecordsOk.not_creator (hu : u ∈ b.mbuList)
    (haddr : u.addr ≠ 0) : b.creator ≠ some u.ptr := by
  intro hc
  obtain ⟨v,hv,he,h0⟩ := (h.each b hb).creator _ hc
  have huniq := Keyed.find_of_mem (h.mine hb) hu
  rw [← he,Keyed.find_of_mem (h.mine hb) hv] at huniq
  cases huniq
  exact haddr h0

theorem RecordsOk.addRecord (hu : u.mb = b.ptr) (hfresh : ∀ c ∈ l, ∀ v ∈ c.mbuList, v.ptr ≠ u.ptr) :
    RecordsOk (Keyed.modify MbStruct.ptr b.ptr (addRecord u) l) := by
  obtain ⟨before,after,rfl,hm,_⟩ := Keyed.split h.blocks hb
  rw [hm]
  have hn := h.mine hb
  have hok := (h.each b hb).addRecord hu
  refine RecordsOk.perm ?_ List.perm_middle
  refine h.without.cons hok ?_ ?_ ?_
  · have hd := Keyed.others h.blocks
    exact hd
  · simp only [MemBlock.addRecord,List.map_append,List.map_cons,List.map_nil]
    refine List.nodup_append.mpr ⟨hn,by simp,?_⟩
    intro p hp q hq he
    obtain ⟨v,hv,rfl⟩ := List.mem_map.mp hp
    exact hfresh b hb v hv (he.trans (List.mem_singleton.mp hq))
  intro v hv c hc w hw
  rcases List.mem_append.mp hv with hv | hv
  · exact h.others hv c hc w hw
  · rw [List.mem_singleton.mp hv]
    have hsub := (List.sublist_cons_self b after).append_left before
    exact hfresh c (hsub.subset hc) w hw

theorem RecordsOk.modify {f : MbStruct → MbStruct}
    (hok : BlockOk (f b)) (hptr : (f b).ptr = b.ptr) (hsub : (f b).mbuList.Sublist b.mbuList) :
    RecordsOk (Keyed.modify MbStruct.ptr b.ptr f l) := by
  obtain ⟨before,after,rfl,hm,_⟩ := Keyed.split h.blocks hb
  rw [hm]
  exact h.fewer hok hptr hsub

theorem RecordsOk.dropRecord (hu : u ∈ b.mbuList) (hc : b.creator ≠ some u.ptr) :
    RecordsOk (Keyed.modify MbStruct.ptr b.ptr (dropRecord u.ptr) l) :=
  h.modify hb ((h.each b hb).dropRecord (h.mine hb) hu hc) rfl List.filter_sublist

theorem RecordsOk.disown (hu : u ∈ b.mbuList) :
    RecordsOk (Keyed.modify MbStruct.ptr b.ptr (disown u.ptr) l) :=
  h.modify hb ((h.each b hb).disown (h.mine hb) hu) rfl List.filter_sublist

theorem RecordsOk.remove :
    RecordsOk (Keyed.remove MbStruct.ptr b.ptr l) := by
  obtain ⟨before,after,rfl,_,hr⟩ := Keyed.split h.blocks hb
  rw [hr]
  exact h.without

end

theorem blocks_mapBlocks (f : MbStruct → MbStruct) : (s.mapBlocks f).blocks = s.blocks.map f := by
  simp only [blocks,mapBlocks,List.flatMap_map,List.map_flatMap]

theorem blocks_modifyMb (p : Nat) (f : MbStruct → MbStruct) :
    (s.modifyMb p f).blocks = Keyed.modify MbStruct.ptr p f s.blocks := blocks_mapBlocks _

theorem blocks_linkMbu : (linkMbu s p u).blocks = Keyed.modify MbStruct.ptr p (addRecord u) s.blocks :=
  blocks_mapBlocks _

theorem blocks_unlink (hr : RecordsOk s.blocks) (hb : b ∈ s.blocks) (hu : u ∈ b.mbuList)
    (f : MbStruct → MbStruct) :
    ((s.listDelMbu u.ptr).modifyMb b.ptr f).blocks = Keyed.modify MbStruct.ptr b.ptr
      (fun c => f { c with mbuList := Keyed.remove MbUser.ptr u.ptr c.mbuList }) s.blocks := by
  rw [blocks_modifyMb,listDelMbu,blocks_mapBlocks]
  obtain ⟨before,after,he,hm,_⟩ := Keyed.split hr.blocks hb
  have hother := (he ▸ hr).others hu
  have hstay : ∀ m : List MbStruct, (∀ c ∈ m, c ∈ before ++ after) →
      m.map (fun c => { c with mbuList := Keyed.remove MbUser.ptr u.ptr c.mbuList }) = m := by
    intro m hsub
    conv_rhs => rw [← List.map_id m]
    refine List.map_congr_left (fun c hc => ?_)
    rw [Keyed.remove_absent (hother c (hsub c hc))]
    rfl
  have hmap : s.blocks.map (fun c =>
      { c with mbuList := Keyed.remove MbUser.ptr u.ptr c.mbuList }) =
      Keyed.modify MbStruct.ptr b.ptr (fun c =>
        { c with mbuList := Keyed.remove MbUser.ptr u.ptr c.mbuList }) s.blocks := by
    rw [hm,he,List.map_append,List.map_cons,hstay before (fun c => List.mem_append_left _),
      hstay after (fun c => List.mem_append_right _)]
  rw [hmap]
  exact Keyed.modify_modify (fun _ => rfl)

theorem blocks_enlist (ha : a.mbList = []) : (enlist s a).blocks = s.blocks := by
  simp [blocks,enlist,ha]

theorem blocks_disband (hs : HostOk s) (ha : a ∈ s.mbaList) (hnil : a.mbList = []) :
    (disband s a).blocks = s.blocks := by
  obtain ⟨before,after,he,_,hrem⟩ := Keyed.split hs.areas.distinct ha
  simp only [blocks,disband,hrem]
  rw [he]
  simp [hnil]

theorem blocks_mbAllocMba (h : mbAllocMba s pages slab grant = (r,t)) : t.blocks = s.blocks := by
  rcases mbAllocMba_cases h with ⟨_,rfl⟩ | ⟨p,run,_,rfl,_⟩
  · rfl
  · exact blocks_enlist rfl

theorem blocks_mbFreeMba (hs : HostOk s) (h : mbFreeMba s q = (r,t)) : t.blocks = s.blocks := by
  rcases mbFreeMba_cases h with rfl | ⟨a,ha,_,hnr,_,rfl⟩
  · rfl
  · have hlen := (hs.areas.each a ha).nrMb
    exact blocks_disband hs ha (List.eq_nil_of_length_eq_zero (hlen.symm.trans hnr))

theorem blocks_retag (p tgid n : Nat) (fixed : Bool) :
    State.blocks { s.modifyMba p (fun a => { a with isStatic := fixed, tgid := tgid }) with
      totStaticPages := n } = s.blocks := by
  simp only [blocks,modifyMba,Keyed.modify,List.flatMap_map]
  congr 1
  funext a
  split <;> rfl

theorem blocks_mbFreeMb (hs : HostOk s) (hn : (s.blocks.map MbStruct.ptr).Nodup)
    (hb : b ∈ s.blocks) (hc : b.count = 0) (h : mbFreeMb s b.ptr = (r,t)) :
    r = 0 ∧ t.blocks = Keyed.remove MbStruct.ptr b.ptr s.blocks := by
  have hfind : s.derefMb b.ptr = some b := Keyed.find_of_mem hn hb
  rcases mbFreeMb_cases hs h with ⟨_,hno⟩ | ⟨a,ha,c,hcm,hptr,_,hr,hcase⟩
  · exact absurd hc (hno b hfind)
  refine ⟨hr,?_⟩
  obtain ⟨front,back,he,hmod,hrem⟩ := Keyed.split hs.areas.distinct ha
  have hsplit : s.blocks = front.flatMap MbArea.mbList ++ (a.mbList ++ back.flatMap MbArea.mbList) := by
    rw [blocks,he]
    simp
  have hout : ∀ d ∈ front.flatMap MbArea.mbList ++ back.flatMap MbArea.mbList, d.ptr ≠ b.ptr := by
    rw [hsplit] at hn
    simp only [List.map_append,List.nodup_append] at hn
    have hcin : b.ptr ∈ a.mbList.map MbStruct.ptr := hptr ▸ List.mem_map_of_mem hcm
    intro d hd he
    rcases List.mem_append.mp hd with hd | hd
    · exact hn.2.2 _ (List.mem_map_of_mem hd) _ (List.mem_append_left _ hcin) he
    · exact hn.2.1.2.2 _ hcin _ (List.mem_map_of_mem hd) he.symm
  rw [hsplit,Keyed.remove_append,Keyed.remove_append,
    Keyed.remove_absent (fun d hd => hout d (List.mem_append_left _ hd)),
    Keyed.remove_absent (l := back.flatMap _) (fun d hd => hout d (List.mem_append_right _ hd))]
  rcases hcase with ⟨hone,_,rfl⟩ | rfl
  · simp only [blocks,disband,hrem,hone,← hptr]
    simp [Keyed.remove]
  · simp only [blocks,hmod]
    simp [retrieved]

theorem blocks_mbAllocMb (hs : HostOk s) (hp : 0 < pageAlign size / pageSize)
    (h : mbAllocMb s q size slab = some (p,t)) :
    ∃ b, t.blocks.Perm (b :: s.blocks) ∧ b.ptr = p ∧ b.count = 0 ∧ b.creator = none ∧
      b.mbuList = [] ∧ 0 < b.phys ∧ ∀ c ∈ s.blocks, c.ptr ≠ p := by
  obtain ⟨a,ha,front,back,rfl,hcut,hslab,hroom,rfl⟩ := mbAllocMb_cases hs.areas hp h
  obtain ⟨before,after,he,hm,_⟩ := Keyed.split hs.areas.distinct ha
  refine ⟨newMb a p (Gaps.lastEnd mbEnd a.pgi.pfnStart front) (pageAlign size / pageSize)
    (pageAlign size),?_,rfl,rfl,rfl,rfl,?_,allocMb_fresh hslab⟩
  · simp only [blocks,carve,modifyMba,hm]
    rw [he]
    simp only [List.flatMap_append,List.flatMap_cons,hcut]
    rw [List.append_assoc,List.cons_append,← List.append_assoc,← List.append_assoc]
    refine List.perm_middle.trans (List.Perm.cons _ ?_)
    simp
  · have hphys := (hs.areas.each a ha).phys
    have hlow := (hs.areas.each a ha).low
    simp only [newMb,hphys]
    exact Nat.add_pos_left (Nat.mul_pos hlow (by decide)) _

theorem allocMbu_fresh (h : s.allocMbu slab = some p) :
    ∀ c ∈ s.blocks, ∀ v ∈ c.mbuList, v.ptr ≠ p := by
  obtain ⟨_,hp⟩ := Option.filter_eq_some_iff.mp h
  simp only [users,List.all_eq_true,List.mem_flatMap,bne_iff_ne] at hp
  exact fun c hc v hv => hp v ⟨c,hc,hv⟩

end Apc8750.MemBlock
