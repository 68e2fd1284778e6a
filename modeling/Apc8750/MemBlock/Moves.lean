import Apc8750.MemBlock.Owners

namespace Apc8750.MemBlock
open State

def held (tgid : Nat) (l : List MbStruct) : Nat :=
  (l.flatMap MbStruct.mbuList).countP (fun u => u.tgid == tgid)

theorem held_append : held k (l ++ m) = held k l + held k m := by
  simp [held,List.countP_append]

theorem held_cons :
    held k (b :: l) = b.mbuList.countP (fun u => u.tgid == k) + held k l := by
  simp [held,List.countP_append]

theorem held_perm (h : l.Perm m) : held k l = held k m :=
  (h.flatMap_right MbStruct.mbuList).countP_eq _

theorem held_eq_zero : held k l = 0 ↔ ∀ b ∈ l, ∀ u ∈ b.mbuList, u.tgid ≠ k := by
  simp only [held,List.countP_eq_zero,List.mem_flatMap,beq_iff_eq]
  exact ⟨fun h b hb u hu => h u ⟨b,hb,hu⟩,fun h u ⟨b,hb,hu⟩ => h b hb u hu⟩

def Used (l : List MbStruct) : Prop := ∀ b ∈ l, b.mbuList ≠ []

/-- Only records of `tgid` come or go, `n` more in the end, and no block loses its last one. -/
structure Moves (tgid : Nat) (l m : List MbStruct) (n : Int) : Prop where
  own : (held tgid m : Int) = held tgid l + n
  others : ∀ k, k ≠ tgid → held k m = held k l
  used : Used l → Used m

theorem Moves.refl (tgid : Nat) (l : List MbStruct) : Moves tgid l l 0 :=
  ⟨by simp,fun _ _ => rfl,id⟩

theorem Moves.trans (h : Moves tgid l m i) (h' : Moves tgid m n j) : Moves tgid l n (i + j) :=
  ⟨by rw [h'.own,h.own]; omega,fun k hk => (h'.others k hk).trans (h.others k hk),
    fun hl => h'.used (h.used hl)⟩

theorem countP_single (k : Nat) (u : MbUser) :
    [u].countP (fun u => u.tgid == k) = if u.tgid = k then 1 else 0 := by
  simp [List.countP_cons]

theorem Moves.create (hb : Created b u) (hp : m.Perm (b :: l)) : Moves u.tgid l m 1 := by
  have hheld : ∀ k, held k m = (if u.tgid = k then 1 else 0) + held k l := by
    intro k
    rw [held_perm hp,held_cons,hb.list,countP_single]
  refine ⟨?_,?_,?_⟩
  · rw [hheld,if_pos rfl]
    omega
  · intro k hk
    rw [hheld,if_neg (Ne.symm hk),Nat.zero_add]
  · intro hl c hc
    rcases List.mem_cons.mp (hp.mem_iff.mp hc) with rfl | hc
    · simp [hb.list]
    · exact hl c hc

section
variable (hr : RecordsOk l) (hb : b ∈ l)
include hr hb

theorem Moves.modify (hown : ((f b).mbuList.countP (fun u => u.tgid == tgid) : Int) =
      b.mbuList.countP (fun u => u.tgid == tgid) + i)
    (hother : ∀ k, k ≠ tgid → (f b).mbuList.countP (fun u => u.tgid == k) =
      b.mbuList.countP (fun u => u.tgid == k)) (hf : (f b).mbuList ≠ []) :
    Moves tgid l (Keyed.modify MbStruct.ptr b.ptr f l) i := by
  obtain ⟨before,after,hl,hmod,_⟩ := Keyed.split hr.blocks hb
  rw [hmod f,hl]
  refine ⟨?_,?_,?_⟩
  · simp only [held_append,held_cons]
    omega
  · intro k hk
    simp only [held_append,held_cons,hother k hk]
  intro hu c hc
  rcases List.mem_append.mp hc with hc | hc
  · exact hu c (List.mem_append_left _ hc)
  · rcases List.mem_cons.mp hc with rfl | hc
    · exact hf
    · exact hu c (List.mem_append_right _ (List.mem_cons_of_mem _ hc))

theorem Moves.add (u : MbUser) :
    Moves u.tgid l (Keyed.modify MbStruct.ptr b.ptr (addRecord u) l) 1 := by
  refine .modify hr hb ?_ ?_ (by simp [addRecord])
  · simp [addRecord,List.countP_append]
  · intro k hk
    simp [addRecord,List.countP_append,Ne.symm hk]

theorem Moves.drop (hu : u ∈ b.mbuList)
    (hf : (f b).mbuList = Keyed.remove MbUser.ptr u.ptr b.mbuList) (hlen : b.mbuList.length ≠ 1) :
    Moves u.tgid l (Keyed.modify MbStruct.ptr b.ptr f l) (-1) := by
  have hcount := fun k => Keyed.countP_remove (hr.mine hb) hu (fun u => u.tgid == k)
  refine .modify hr hb ?_ ?_ ?_
  · rw [hf,hcount u.tgid,if_pos (beq_self_eq_true _)]
    omega
  · intro k hk
    rw [hf,hcount k,if_neg (by simpa using Ne.symm hk),Nat.add_zero]
  · intro hnil
    have hlen' := length_remove (hr.mine hb) hu
    rw [← hf,hnil] at hlen'
    simp only [List.length_nil] at hlen'
    omega

theorem Moves.free (hone : b.mbuList = [u]) :
    Moves u.tgid l (Keyed.remove MbStruct.ptr b.ptr l) (-1) := by
  obtain ⟨before,after,hl,_,hrem⟩ := Keyed.split hr.blocks hb
  have hheld : ∀ k, held k l = (if u.tgid = k then 1 else 0) + held k (before ++ after) := by
    intro k
    rw [hl,held_append,held_cons,hone,countP_single,held_append]
    omega
  rw [hrem]
  refine ⟨?_,?_,?_⟩
  · rw [hheld,if_pos rfl]
    omega
  · intro k hk
    rw [hheld,if_neg (Ne.symm hk),Nat.zero_add]
  · intro hu c hc
    refine hu c (hl ▸ ?_)
    rcases List.mem_append.mp hc with hc | hc
    · exact List.mem_append_left _ hc
    · exact List.mem_append_right _ (List.mem_cons_of_mem _ hc)

end

section
variable (hs : DriverOk s)
include hs

theorem Moves.doAlloc (h : mbDoAlloc cfg s size tgid name o = (r,t)) :
    Moves tgid s.blocks t.blocks (if r ≠ 0 then 1 else 0) := by
  obtain ⟨_,_,⟨rfl,he⟩ | ⟨b,u,hb,rfl,_,hr,hp⟩⟩ := mbDoAlloc_cases hs h
  · exact he ▸ .refl tgid _
  · rw [if_pos hr]
    exact .create hb hp

theorem Moves.doGet (h : mbDoGet s addr tgid name slab = (r,t)) :
    Moves tgid s.blocks t.blocks (if r = 0 then 1 else 0) := by
  obtain ⟨_,_,⟨hr,rfl⟩ | ⟨b,hb,u,rfl,rfl,he⟩⟩ := mbDoGet_cases hs h
  · rw [if_neg hr]
    exact .refl tgid _
  · exact he ▸ .add hs.records hb u

theorem Moves.doPut (h : mbDoPut s addr tgid name = some (r,t)) :
    Moves tgid s.blocks t.blocks (if r = 0 then -1 else 0) := by
  obtain ⟨_,_,⟨hr,rfl⟩ | ⟨b,hb,u,hu,rfl,_,rfl,⟨hlen,he⟩ | ⟨hone,he⟩⟩⟩ :=
    mbDoPut_cases hs h
  · rw [if_neg hr]
    exact .refl tgid _
  · exact he ▸ .drop hs.records hb hu rfl hlen
  · exact he ▸ .free hs.records hb hone

theorem Moves.doFree (h : mbDoFree s addr tgid name = some (r,t)) :
    ∃ k, Moves k s.blocks t.blocks (if r = 0 then -1 else 0) ∧
      (CallerCreated s addr tgid → k = tgid) := by
  obtain ⟨_,_,⟨hr,rfl,_⟩ | ⟨b,hb,u,hu,hphys,hcr,hv,rfl,hlist⟩⟩ := mbDoFree_cases hs h
  · rw [if_neg hr]
    exact ⟨tgid,.refl tgid _,fun _ => rfl⟩
  refine ⟨u.tgid,?_,fun hc => hc b hb hphys hv u hu hcr⟩
  rcases hlist with ⟨hlen,he⟩ | ⟨hone,he⟩
  · exact he ▸ .drop hs.records hb hu rfl hlen
  · exact he ▸ .free hs.records hb hone

theorem Moves.mmap (h : mbMmap s fd vma slab remap = (r,t)) :
    t = s ∨ ∃ f ∈ s.filps, f.fd = fd ∧ Moves f.privateData s.blocks t.blocks 1 := by
  obtain ⟨_,_,rfl | ⟨f,hf,b,hb,u,hfd,htgid,he⟩⟩ := mbMmap_cases hs h
  · exact Or.inl rfl
  · exact Or.inr ⟨f,hf,hfd,htgid ▸ he ▸ .add hs.records hb u⟩

end

/-- No mapping that the task has at `value` is the only record of its block. -/
def SharedAt (s : State) (value tgid : Nat) : Prop :=
  ∀ b ∈ s.blocks, b.mbuList.length = 1 → ∀ u ∈ b.mbuList,
    ¬ (u.tgid = tgid ∧ u.addr = value ∧ u.size ≠ 0)

theorem Moves.unlink (hs : DriverOk s) (hg : SharedAt s value tgid) (hb : b ∈ s.blocks)
    (hu : u ∈ b.mbuList) (htgid : u.tgid = tgid) (haddr : u.addr = value) (hsize : u.size ≠ 0)
    (hne : b.creator ≠ some u.ptr) :
    Moves tgid s.blocks (unlinkMbu s u.ptr b.ptr).blocks (-1) := by
  rw [(hs.unlink hb hu hne).2,← htgid]
  exact .drop hs.records hb hu rfl (fun hlen => hg b hb hlen u hu ⟨htgid,haddr,hsize⟩)

theorem Moves.freeUnmap (hs : DriverOk s) (hg : SharedAt s value tgid)
    (h : mbioFreeUnmap s value tgid = some (size, phys, t)) :
    ∃ i, Moves tgid s.blocks t.blocks i := by
  rcases mbioFreeUnmap_cases hs h with ⟨rfl,_⟩ | ⟨b,hb,u,hu,htgid,haddr,hsize,hne,rfl,_⟩
  · exact ⟨0,.refl tgid _⟩
  · exact ⟨-1,.unlink hs hg hb hu htgid haddr hsize hne⟩

def Shared (s : State) (tgid : Nat) : Cmd → Prop
  | .unmap value | .free value => SharedAt s value tgid
  | _ => True

def FreesOwnBlocks (s : State) (tgid : Nat) : Cmd → Prop
  | .free value => OwnFree s value tgid
  | _ => True

theorem Moves.command (hs : DriverOk s) (hg : Shared s tgid cmd)
    (h : mbCommand cfg s tgid cur name cmd = some (r,t)) : SameTasks s t ∧
      ∃ w k i j, Moves tgid s.blocks w i ∧ Moves k w t.blocks j ∧
        (FreesOwnBlocks s tgid cmd → k = tgid) := by
  have one : ∀ {t : State} {i : Int}, SameTasks s t → Moves tgid s.blocks t.blocks i →
      SameTasks s t ∧ ∃ w k i j, Moves tgid s.blocks w i ∧ Moves k w t.blocks j ∧
        (FreesOwnBlocks s tgid cmd → k = tgid) :=
    fun ht hm => ⟨ht,_,tgid,_,0,hm,.refl tgid _,fun _ => rfl⟩
  cases cmd with
  | malloc value o =>
    simp only [mbCommand] at h
    split at h <;> cases h <;>
      exact one (mbDoAlloc_cases hs Prod.mk.eta.symm).2.1 (.doAlloc hs Prod.mk.eta.symm)
  | free value =>
    obtain ⟨⟨size,phys,w⟩,hw,h⟩ := Option.bind_eq_some_iff.mp h
    obtain ⟨⟨ret,w'⟩,hf,h⟩ := Option.bind_eq_some_iff.mp h
    cases h
    have hs' := mbioFreeUnmap_ok hs hw
    obtain ⟨i,hi⟩ := Moves.freeUnmap hs hg hw
    obtain ⟨k,hk,hown⟩ := Moves.doFree hs' hf
    have ht : SameTasks s w := by
      rcases mbioFreeUnmap_cases hs hw with ⟨rfl,_⟩ | ⟨_,_,_,_,_,_,_,_,rfl,_⟩
      · exact .refl _
      · exact ⟨rfl,rfl⟩
    exact ⟨ht.trans (mbDoFree_cases hs' hf).2.1,_,k,i,_,hi,hk,
      fun hfree => hown (OwnFree.callerCreated hfree hs hw)⟩
  | unmap value =>
    obtain ⟨⟨ret,size,w⟩,hw,h⟩ := Option.map_eq_some_iff.mp h
    cases h
    rcases mbioUnmap_cases hs hw with rfl | ⟨b,hb,u,hu,htgid,haddr,hsize,hne,rfl⟩
    · exact one (.refl _) (.refl tgid _)
    · exact one ⟨rfl,rfl⟩ (.unlink hs hg hb hu htgid haddr hsize hne)
  | get value slab =>
    cases h
    exact one (mbDoGet_cases hs Prod.mk.eta.symm).2.1 (.doGet hs Prod.mk.eta.symm)
  | put value =>
    obtain ⟨⟨ret,w⟩,hw,h⟩ := Option.map_eq_some_iff.mp h
    cases h
    exact one (mbDoPut_cases hs hw).2.1 (.doPut hs hw)
  | prefetch value os =>
    obtain ⟨w,hw,h⟩ := Option.map_eq_some_iff.mp h
    cases h
    obtain ⟨_,ht,he⟩ := mbioPrefetch_cases hs hw
    exact one (i := 0) ht (he ▸ Moves.refl tgid _)
  | forceReset =>
    obtain ⟨w,hw,h⟩ := Option.map_eq_some_iff.mp h
    cases h
    obtain ⟨_,ht,hnil,hnone⟩ := forceReset_cases hs hw
    have hzero : ∀ k, held k s.blocks = 0 := fun k => held_eq_zero.mpr (fun b hb u hu => by
      rw [hnone b hb] at hu
      cases hu)
    refine one (i := 0) ht ⟨?_,?_,?_⟩
    · rw [hnil,hzero]
      rfl
    · intro k _
      rw [hnil,hzero]
      rfl
    · rw [hnil]
      exact fun _ b hb => by cases hb
  | mbsize value | mbUserCount value =>
    simp only [mbCommand] at h
    split at h <;> cases h <;> exact one (.refl _) (.refl tgid _)
  | maxAvailableSize | userToVirt value | userToPhys value | staticSize =>
    cases h
    exact one (.refl _) (.refl tgid _)

theorem held_stopped (hk : k ≠ tgid) :
    (stopped tgid b).mbuList.countP (fun u => u.tgid == k) =
      b.mbuList.countP (fun u => u.tgid == k) := by
  simp only [stopped,List.countP_filter]
  refine List.countP_congr (fun u _ => ?_)
  by_cases he : u.tgid = k
  · simp [keeps,he,hk]
  · simp [he]

theorem recyclable_list (h : recyclable tgid b = true) : ∃ u, b.mbuList = [u] ∧ u.tgid = tgid := by
  unfold recyclable at h
  split at h
  · rename_i u hl
    simp only [Bool.and_eq_true,beq_iff_eq] at h
    exact ⟨u,hl,h.2⟩
  · cases h

theorem held_settle (hk : k ≠ tgid) (l : List MbStruct) :
    held k (l.filterMap (settle tgid)) = held k l := by
  induction l with
  | nil => rfl
  | cons b l ih =>
    rw [held_cons,← held_stopped hk]
    by_cases hr : recyclable tgid (stopped tgid b) = true
    · obtain ⟨u,hl,ht⟩ := recyclable_list hr
      have hnone : settle tgid b = none := by simp [settle,hr]
      rw [List.filterMap_cons_none hnone,ih,hl,countP_single,if_neg (by omega),Nat.zero_add]
    · have hsome : settle tgid b = some (stopped tgid b) := by simp [settle,hr]
      rw [List.filterMap_cons_some hsome,held_cons,ih]

def Unshared (l : List MbStruct) (tgid : Nat) : Prop :=
  ∀ b ∈ l, ∀ u ∈ b.mbuList, b.creator = some u.ptr → u.tgid = tgid →
    ∀ v ∈ b.mbuList, v.tgid = tgid

theorem mem_stopped (hu : u ∈ (stopped tgid b).mbuList) :
    u ∈ b.mbuList ∧ (u.tgid = tgid → b.creator = some u.ptr) := by
  obtain ⟨hu,hkeep⟩ := List.mem_filter.mp hu
  refine ⟨hu,fun ht => ?_⟩
  simpa [keeps,ht] using hkeep

theorem held_settle_own (hr : RecordsOk l) (h : Unshared l tgid) :
    held tgid (l.filterMap (settle tgid)) = 0 := by
  refine held_eq_zero.mpr (fun c hc u hu ht => ?_)
  obtain ⟨b,hb,hset⟩ := List.mem_filterMap.mp hc
  unfold settle at hset
  split at hset
  · cases hset
  rename_i hkeep
  cases hset
  obtain ⟨hub,hcr⟩ := mem_stopped hu
  have hcr := hcr ht
  have hall : ∀ v ∈ (stopped tgid b).mbuList, v = u := by
    intro v hv
    obtain ⟨hvb,hvc⟩ := mem_stopped hv
    have hptr : v.ptr = u.ptr :=
      Option.some.inj ((hvc (h b hb u hub hcr ht v hvb)).symm.trans hcr)
    have hfind := Keyed.find_of_mem (hr.mine hb) hvb
    rw [hptr,Keyed.find_of_mem (hr.mine hb) hub] at hfind
    exact (Option.some.inj hfind).symm
  have hnodup : (stopped tgid b).mbuList.Nodup := (hr.mine hb).of_map.filter _
  have hone : (stopped tgid b).mbuList = [u] :=
    List.perm_singleton.mp ((List.perm_ext_iff_of_nodup hnodup (List.nodup_singleton u)).mpr
      (fun v => ⟨fun hv => List.mem_singleton.mpr (hall v hv),
        fun hv => List.mem_singleton.mp hv ▸ hu⟩))
  refine hkeep ?_
  have hcr' : (stopped tgid b).creator = some u.ptr := hcr
  simp [recyclable,hone,hcr',ht]

def AtLastClose (s : State) (fd : Nat) (P : Nat → Prop) : Prop :=
  ∀ f ∈ s.filps, f.fd = fd → ∀ m ∈ s.mbtiList, m.tgid = f.privateData → m.count = 1 → P m.tgid

/-- Every block without a creator has a record of a task other than `tgid`. -/
def HeldByOthers (l : List MbStruct) (tgid : Nat) : Prop :=
  ∀ b ∈ l, b.creator = none → ∃ u ∈ b.mbuList, u.tgid ≠ tgid

theorem Used.settle (hl : ∀ b ∈ l, BlockOk b) (h : HeldByOthers l tgid) :
    Used (l.filterMap (settle tgid)) := by
  intro c hc
  obtain ⟨b,hb,hset⟩ := List.mem_filterMap.mp hc
  unfold MemBlock.settle at hset
  split at hset <;> cases hset
  cases hcr : b.creator with
  | none =>
    obtain ⟨u,hu,ht⟩ := h b hb hcr
    exact List.ne_nil_of_mem (List.mem_filter.mpr ⟨hu,by simp [keeps,ht]⟩)
  | some p =>
    obtain ⟨u,hu,rfl,_⟩ := (hl b hb).creator p hcr
    exact List.ne_nil_of_mem (mem_stopped_creator hu hcr tgid)

/-- No call drops the last record of a block by unmapping, or closes with the only records of a
block without creator. -/
def Tidy (s : State) : Op → Prop
  | .ioctl fd _ cmd => ∀ f ∈ s.filps, f.fd = fd → Shared s f.privateData cmd
  | .release fd => AtLastClose s fd (HeldByOthers s.blocks)
  | _ => True

theorem Used.step (hl : Used s.blocks) (hs : DriverOk s) (hg : Tidy s op)
    (h : step cfg s op = some (r,t)) : Used t.blocks := by
  cases op with
  | doAlloc size tgid name o => cases h; exact (Moves.doAlloc hs Prod.mk.eta.symm).used hl
  | doGet addr tgid name slab => cases h; exact (Moves.doGet hs Prod.mk.eta.symm).used hl
  | «open» fd tgid name slab => cases h; exact (mbOpen_blocks Prod.mk.eta.symm).1.symm ▸ hl
  | doFree addr tgid name =>
    obtain ⟨⟨ret,w⟩,hw,h⟩ := Option.map_eq_some_iff.mp h
    cases h
    obtain ⟨k,hk,_⟩ := Moves.doFree hs hw
    exact hk.used hl
  | doPut addr tgid name =>
    obtain ⟨⟨ret,w⟩,hw,h⟩ := Option.map_eq_some_iff.mp h
    cases h
    exact (Moves.doPut hs hw).used hl
  | mmap fd vma slab remap =>
    cases h
    rcases Moves.mmap hs (Prod.mk.eta (p := mbMmap s fd vma slab remap)).symm with he | ⟨f,_,_,hm⟩
    · exact he.symm ▸ hl
    · exact hm.used hl
  | ioctl fd cur cmd =>
    simp only [MemBlock.step,mbIoctl] at h
    split at h
    · cases h; exact hl
    rename_i f hf
    have hg := hg f (List.mem_of_find?_eq_some hf) (Keyed.find_key hf)
    obtain ⟨_,_,_,_,_,h₁,h₂,_⟩ := Moves.command hs hg h
    exact h₂.used (h₁.used hl)
  | release fd =>
    obtain ⟨_,w,hw,_,hcase⟩ := mbRelease_cases hs cfg fd
    simp only [MemBlock.step,hw,Option.map_some,Option.some.injEq,Prod.mk.injEq] at h
    obtain ⟨_,rfl⟩ := h
    rcases hcase with ⟨rfl,_⟩ | ⟨f,hf,hfd,_,⟨_,he,_⟩ | ⟨m,hm,ht,⟨_,he,_⟩ | ⟨hlast,he,_⟩⟩⟩
    · exact hl
    · exact he ▸ hl
    · exact he ▸ hl
    · rw [he]
      exact .settle hs.records.each (hg f hf hfd m hm ht hlast)

end Apc8750.MemBlock
