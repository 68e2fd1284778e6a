import Mathlib.Data.List.Pairwise
import Apc8750.MemBlock.Records

namespace Apc8750.MemBlock
open State

variable {s t : State} {a : MbArea} {b c : MbStruct} {u v : MbUser} {cfg : Config}
  {l : List MbStruct}

theorem visitMba_some (h : s.mbaList.findSome? (visitMba st addr tgid) = some r) :
    ∃ b ∈ s.blocks, ∃ u ∈ b.mbuList, visitMbu st addr tgid b u = some r ∧
      (st.phys = true → addr = b.phys) := by
  obtain ⟨a,ha,hv⟩ := List.exists_of_findSome?_eq_some h
  unfold visitMba at hv
  split at hv
  · cases hv
  obtain ⟨b,hb,hv⟩ := List.exists_of_findSome?_eq_some hv
  unfold visitMb at hv
  split at hv
  · cases hv
  rename_i hphys
  split at hv
  · cases hv
  obtain ⟨u,hu,hv⟩ := List.exists_of_findSome?_eq_some hv
  refine ⟨b,mem_blocks.mpr ⟨a,ha,hb⟩,u,hu,hv,?_⟩
  intro hst
  by_contra hcon
  exact hphys ⟨hst,hcon⟩

theorem mbFindMbu_some (h : mbFindMbu s addr tgid st = some p) :
    addr ≠ 0 ∧ ∃ b ∈ s.blocks, ∃ u ∈ b.mbuList, visitMbu st addr tgid b u = some (some p) ∧
      (st.phys = true → addr = b.phys) := by
  unfold mbFindMbu at h
  split at h
  · cases h
  rename_i hne
  obtain ⟨r,hr,rfl⟩ : ∃ r, s.mbaList.findSome? (visitMba st addr tgid) = some r ∧
      r = some p := by
    simpa [Option.join_eq_some_iff] using h
  exact ⟨fun h0 => hne (Or.inl h0),visitMba_some hr⟩

theorem mbFindMbu_mmap (h : mbFindMbu s value tgid userMmap = some p) :
    ∃ b ∈ s.blocks, ∃ u ∈ b.mbuList, p = u.ptr ∧ u.tgid = tgid ∧ u.addr = value ∧
      u.addr ≠ 0 ∧ u.size ≠ 0 := by
  obtain ⟨hne,b,hb,u,hu,hv,_⟩ := mbFindMbu_some h
  refine ⟨b,hb,u,hu,?_⟩
  simp only [visitMbu,userMmap,Bool.false_eq_true,true_and,false_and,↓reduceIte] at hv
  repeat' first | split at hv | cases hv
  simp_all

theorem mbFindMbu_getPut (h : mbFindMbu s addr tgid (putFind tgid) = some p) :
    ∃ b ∈ s.blocks, ∃ u ∈ b.mbuList, p = u.ptr ∧ u.tgid = tgid ∧ u.addr ≠ 0 ∧ u.size = 0 := by
  obtain ⟨_,b,hb,u,hu,hv,_⟩ := mbFindMbu_some h
  refine ⟨b,hb,u,hu,?_⟩
  unfold putFind at hv
  split at hv <;>
  · simp only [visitMbu,physGetPut,userGetPut,Bool.false_eq_true,true_and,false_and,
      ↓reduceIte] at hv
    repeat' first | split at hv | cases hv
    simp_all

theorem visitMbu_creator (addr tgid : Nat) (b : MbStruct) (u : MbUser) :
    visitMbu physCreator addr tgid b u = if u.tgid = tgid then some b.creator else none := by
  simp [visitMbu,physCreator]

theorem mbFindMbu_creator (h : mbFindMbu s addr tgid physCreator = some p) :
    ∃ b ∈ s.blocks, b.phys = addr ∧ b.creator = some p ∧ ∃ v ∈ b.mbuList, v.tgid = tgid := by
  obtain ⟨_,b,hb,v,hv,hf,hphys⟩ := mbFindMbu_some h
  rw [visitMbu_creator] at hf
  split at hf
  · rename_i htgid
    exact ⟨b,hb,(hphys rfl).symm,Option.some.inj hf,v,hv,htgid⟩
  · cases hf

structure DriverOk (s : State) : Prop where
  host : HostOk s
  records : RecordsOk s.blocks

theorem DriverOk.derefMb (hs : DriverOk s) (hb : b ∈ s.blocks) : s.derefMb b.ptr = some b :=
  Keyed.find_of_mem hs.records.blocks hb

theorem DriverOk.derefMbu (hs : DriverOk s) (hb : b ∈ s.blocks) (hu : u ∈ b.mbuList) :
    s.derefMbu u.ptr = some u :=
  Keyed.find_of_mem hs.records.users (List.mem_flatMap.mpr ⟨b,hb,hu⟩)

section
variable (hs : HostOk s) (hb : b ∈ s.blocks)
include hs hb

theorem HostOk.frame_inj (hc : c ∈ s.blocks)
    (hfb : b.pgi.pfnStart ≤ f ∧ f < b.pgi.pfnEnd) (hfc : c.pgi.pfnStart ≤ f ∧ f < c.pgi.pfnEnd) :
    b = c := by
  obtain ⟨a,ha,hb⟩ := mem_blocks.mp hb
  obtain ⟨a',ha',hc⟩ := mem_blocks.mp hc
  obtain ⟨hin,hsep⟩ := (hs.areas.each a ha).laid.separated
  have hinb := hin b hb
  have hinc := (hs.areas.each a' ha').laid.separated.1 c hc
  simp only [mbStart,mbEnd] at hinb hinc hsep
  have : Std.Symm Apart := ⟨fun _ _ h => h.symm⟩
  have haa : a = a' := by
    by_contra hne
    have := hs.areas.apart.forall ha ha' hne
    simp only [Apart] at this
    omega
  subst haa
  by_contra hne
  have : Std.Symm (fun x y : MbStruct =>
      x.pgi.pfnEnd ≤ y.pgi.pfnStart ∨ y.pgi.pfnEnd ≤ x.pgi.pfnStart) := ⟨fun _ _ h => h.symm⟩
  have hapart := (hsep.imp fun {x y} h =>
    (Or.inl h : x.pgi.pfnEnd ≤ y.pgi.pfnStart ∨ y.pgi.pfnEnd ≤ x.pgi.pfnStart)).forall hb hc hne
  omega

theorem HostOk.placed :
    Placed b.mba b ∧ 0 < b.pgi.pfnStart ∧ b.pgi.pfnStart < b.pgi.pfnEnd := by
  obtain ⟨a,ha,hba⟩ := mem_blocks.mp hb
  have hok := hs.areas.each a ha
  have hin := hok.laid.separated.1 b hba
  have hplaced := hok.placed b hba
  simp only [mbStart,mbEnd] at hin
  exact ⟨hplaced.area ▸ hplaced,Nat.lt_of_lt_of_le hok.low hin.1,hin.2.1⟩

theorem HostOk.phys_inj (hc : c ∈ s.blocks)
    (he : b.phys = c.phys) : b = c := by
  obtain ⟨hplaced,_,hpos⟩ := hs.placed hb
  obtain ⟨hplaced',_,hpos'⟩ := hs.placed hc
  have hpfn : b.pgi.pfnStart = c.pgi.pfnStart := by
    rw [hplaced.phys,hplaced'.phys] at he
    exact Nat.eq_of_mul_eq_mul_right (by decide) he
  exact hs.frame_inj hb hc ⟨Nat.le_refl _,hpos⟩ ⟨Nat.le_of_eq hpfn.symm,hpfn ▸ hpos'⟩

end

theorem HostOk.inArea (hs : HostOk s) (ha : a ∈ s.mbaList) (hb : b ∈ a.mbList) :
    b.phys ≠ 0 ∧ inArea a b.phys true = true := by
  have hok := hs.areas.each a ha
  obtain ⟨h1,h2,h3⟩ := hok.laid.separated.1 b hb
  have hphys := (hok.placed b hb).phys
  have haphys := hok.phys
  have hends := hok.ends
  have hlow := hok.low
  simp only [mbStart,mbEnd,pageSize] at h1 h2 h3 hphys haphys
  simp only [MemBlock.inArea,↓reduceIte,Bool.and_eq_true,decide_eq_true_eq,pageSize]
  omega

theorem mbFindMbu_creator_eq (hs : DriverOk s) (hb : b ∈ s.blocks) (hv : v ∈ b.mbuList) :
    mbFindMbu s b.phys v.tgid physCreator = b.creator := by
  obtain ⟨a,ha,hba⟩ := mem_blocks.mp hb
  obtain ⟨hne,hin⟩ := hs.host.inArea ha hba
  have hstop : (s.mbaList.findSome? (visitMba physCreator b.phys v.tgid)).isSome := by
    simp only [List.findSome?_isSome_iff]
    refine ⟨a,ha,?_⟩
    simp only [visitMba,physCreator,hin,Bool.not_true,Bool.and_false,Bool.false_eq_true,
      ↓reduceIte,List.findSome?_isSome_iff]
    refine ⟨b,hba,?_⟩
    simp only [visitMb,ne_eq,not_true_eq_false,and_false,Bool.false_eq_true,false_and,
      ↓reduceIte,List.findSome?_isSome_iff]
    exact ⟨v,hv,by simp [visitMbu]⟩
  obtain ⟨r,hr⟩ := Option.isSome_iff_exists.mp hstop
  obtain ⟨c,hc,u,_,hu,hphys⟩ := visitMba_some hr
  have hbc : b = c := hs.host.phys_inj hb hc (hphys rfl)
  subst hbc
  rw [visitMbu_creator] at hu
  split at hu <;> cases hu
  rw [mbFindMbu,hr,if_neg (by simp [hne,physCreator])]
  rfl

structure SameTasks (s t : State) : Prop where
  mbtiList : t.mbtiList = s.mbtiList
  filps : t.filps = s.filps

theorem SameTasks.refl (s : State) : SameTasks s s := ⟨rfl,rfl⟩

theorem SameTasks.trans {w : State} (h : SameTasks s t) (k : SameTasks t w) : SameTasks s w :=
  ⟨k.1.trans h.1,k.2.trans h.2⟩

section
variable (hs : DriverOk s)
include hs

theorem DriverOk.unlink (hb : b ∈ s.blocks) (hu : u ∈ b.mbuList)
    (hc : b.creator ≠ some u.ptr) : DriverOk (unlinkMbu s u.ptr b.ptr) ∧
      (unlinkMbu s u.ptr b.ptr).blocks =
        Keyed.modify MbStruct.ptr b.ptr (dropRecord u.ptr) s.blocks := by
  have he : (unlinkMbu s u.ptr b.ptr).blocks =
      Keyed.modify MbStruct.ptr b.ptr (dropRecord u.ptr) s.blocks :=
    blocks_unlink hs.records hb hu _
  exact ⟨⟨hs.host.unlinkMbu,he ▸ hs.records.dropRecord hb hu hc⟩,he⟩

theorem mbioUnmap_cases (h : mbioUnmap s value tgid = some (r, size, t)) :
    t = s ∨ ∃ b ∈ s.blocks, ∃ u ∈ b.mbuList, u.tgid = tgid ∧ u.addr = value ∧ u.size ≠ 0 ∧
      b.creator ≠ some u.ptr ∧ t = unlinkMbu s u.ptr b.ptr := by
  unfold mbioUnmap at h
  split at h
  · cases h; exact Or.inl rfl
  rename_i p hf
  obtain ⟨b,hb,u,hu,rfl,htgid,haddr,hne,hsize⟩ := mbFindMbu_mmap hf
  rw [hs.derefMbu hb hu] at h
  have hback := (hs.records.each b hb).back u hu
  simp only [hback,Option.some.injEq,Prod.mk.injEq] at h
  exact Or.inr ⟨b,hb,u,hu,htgid,haddr,hsize,hs.records.not_creator hb hu hne, h.2.2.symm⟩

theorem mbioFreeUnmap_cases (h : mbioFreeUnmap s value tgid = some (size, phys, t)) :
    (t = s ∧ phys = value) ∨ ∃ b ∈ s.blocks, ∃ u ∈ b.mbuList, u.tgid = tgid ∧ u.addr = value ∧
      u.size ≠ 0 ∧ b.creator ≠ some u.ptr ∧ t = unlinkMbu s u.ptr b.ptr ∧ phys = b.phys := by
  unfold mbioFreeUnmap at h
  split at h
  · cases h; exact Or.inl ⟨rfl,rfl⟩
  rename_i p hf
  obtain ⟨b,hb,u,hu,rfl,htgid,haddr,hne,hsize⟩ := mbFindMbu_mmap hf
  rw [hs.derefMbu hb hu] at h
  have hback := (hs.records.each b hb).back u hu
  simp only [hback,hs.derefMb hb,Option.some.injEq,Prod.mk.injEq] at h
  exact Or.inr ⟨b,hb,u,hu,htgid,haddr,hsize,hs.records.not_creator hb hu hne, h.2.2.symm,h.2.1.symm⟩

theorem mbioFreeUnmap_ok (h : mbioFreeUnmap s value tgid = some (size, phys, t)) : DriverOk t := by
  rcases mbioFreeUnmap_cases hs h with ⟨rfl,_⟩ | ⟨b,hb,u,hu,_,_,_,hc,rfl,_⟩
  · exact hs
  · exact (hs.unlink hb hu hc).1

theorem DriverOk.freeMb (hb : b ∈ s.blocks) (hc : b.count = 0)
    (h : mbFreeMb s b.ptr = (r,t)) : DriverOk t ∧ SameTasks s t ∧ r = 0 ∧
      t.blocks = Keyed.remove MbStruct.ptr b.ptr s.blocks := by
  obtain ⟨hr,he⟩ := blocks_mbFreeMb hs.host hs.records.blocks hb hc h
  refine ⟨⟨hs.host.freeMb h,he ▸ hs.records.remove hb⟩,?_,hr,he⟩
  rcases mbFreeMb_cases hs.host h with ⟨rfl,_⟩ | ⟨a,_,c,_,_,_,_,⟨_,_,rfl⟩ | rfl⟩
  · exact .refl t
  · exact ⟨rfl,rfl⟩
  · exact ⟨rfl,rfl⟩

end

theorem mem_modify_self {f : MbStruct → MbStruct} (hb : b ∈ l) :
    f b ∈ Keyed.modify MbStruct.ptr b.ptr f l :=
  List.mem_map.mpr ⟨b,hb,if_pos rfl⟩

theorem singleton_of_length_one (hu : u ∈ b.mbuList) (h : b.mbuList.length = 1) :
    b.mbuList = [u] := by
  obtain ⟨v,hv⟩ := List.length_eq_one_iff.mp h
  rw [hv] at hu ⊢
  rw [List.mem_singleton.mp hu]

section
variable (hs : DriverOk s)
include hs

theorem DriverOk.dropCreator (hb : b ∈ s.blocks) (hu : u ∈ b.mbuList) :
    DriverOk (disownMb s u.ptr b.ptr) ∧ (disownMb s u.ptr b.ptr).blocks =
      Keyed.modify MbStruct.ptr b.ptr (disown u.ptr) s.blocks := by
  have he : (disownMb s u.ptr b.ptr).blocks =
      Keyed.modify MbStruct.ptr b.ptr (disown u.ptr) s.blocks := blocks_unlink hs.records hb hu _
  exact ⟨⟨hs.host.disownMb,he ▸ hs.records.disown hb hu⟩,he⟩

theorem mbDoFree_found (hb : b ∈ s.blocks) (hu : u ∈ b.mbuList)
    (ha : addr ≠ 0) (hf : mbFindMbu s addr tgid physCreator = some u.ptr) (name : String) :
    mbDoFree s addr tgid (some name) =
      some (if b.mbuList.length ≠ 1 then (0, disownMb s u.ptr b.ptr)
        else mbFreeMb (disownMb s u.ptr b.ptr) b.ptr) := by
  have hok := hs.records.each b hb
  obtain ⟨hs',he⟩ := hs.dropCreator hb hu
  have hmem : disown u.ptr b ∈ (disownMb s u.ptr b.ptr).blocks := he ▸ mem_modify_self hb
  have hderef : (disownMb s u.ptr b.ptr).derefMb b.ptr = some (disown u.ptr b) := hs'.derefMb hmem
  have hcount : (disown u.ptr b).count = (b.mbuList.length : Int) - 1 := by
    simp only [MemBlock.disown,dropRecord,hok.count]
  have hzero : (disown u.ptr b).count ≠ 0 ↔ b.mbuList.length ≠ 1 := by omega
  simp only [mbDoFree,ha,hf,hs.derefMbu hb hu,hok.back u hu,hderef,hzero,or_self,
    reduceCtorEq,↓reduceIte]
  split
  · rfl
  · rfl

theorem mbDoFree_cases (h : mbDoFree s addr tgid name = some (r,t)) :
    DriverOk t ∧ SameTasks s t ∧ ((r ≠ 0 ∧ t = s ∧
        (addr = 0 ∨ name = none ∨ mbFindMbu s addr tgid physCreator = none)) ∨
      ∃ b ∈ s.blocks, ∃ u ∈ b.mbuList, b.phys = addr ∧ b.creator = some u.ptr ∧
      (∃ v ∈ b.mbuList, v.tgid = tgid) ∧ r = 0 ∧
      ((b.mbuList.length ≠ 1 ∧ t.blocks = Keyed.modify MbStruct.ptr b.ptr (disown u.ptr) s.blocks) ∨
        (b.mbuList = [u] ∧ t.blocks = Keyed.remove MbStruct.ptr b.ptr s.blocks))) := by
  by_cases harg : addr = 0 ∨ name = none
  · rw [mbDoFree,if_pos harg] at h
    cases h
    exact ⟨hs,.refl s,Or.inl ⟨by decide,rfl,harg.imp_right Or.inl⟩⟩
  cases hf : mbFindMbu s addr tgid physCreator with
  | none =>
    rw [mbDoFree,if_neg harg,hf] at h
    cases h
    exact ⟨hs,.refl s,Or.inl ⟨by decide,rfl,Or.inr (Or.inr rfl)⟩⟩
  | some p =>
    obtain ⟨b,hb,hphys,hcr,hv⟩ := mbFindMbu_creator hf
    have hok := hs.records.each b hb
    obtain ⟨u,hu,rfl,_⟩ := hok.creator p hcr
    obtain ⟨hs',he⟩ := hs.dropCreator hb hu
    have htasks : SameTasks s (disownMb s u.ptr b.ptr) := ⟨rfl,rfl⟩
    obtain ⟨ha,hname⟩ := not_or.mp harg
    obtain ⟨n,rfl⟩ := Option.ne_none_iff_exists'.mp hname
    rw [mbDoFree_found hs hb hu ha hf] at h
    split at h
    · rename_i hne
      cases h
      exact ⟨hs',htasks,Or.inr ⟨b,hb,u,hu,hphys,hcr,hv,rfl,Or.inl ⟨hne,he⟩⟩⟩
    rename_i hone
    have hmem : disown u.ptr b ∈ (disownMb s u.ptr b.ptr).blocks := he ▸ mem_modify_self hb
    have hzero : (disown u.ptr b).count = 0 := by
      have hcount := hok.count
      simp only [MemBlock.disown,dropRecord]
      omega
    obtain ⟨hs'',htasks',hr,he'⟩ := hs'.freeMb hmem hzero (Option.some.inj h)
    refine ⟨hs'',htasks.trans htasks', Or.inr ⟨b,hb,u,hu,hphys,hcr,hv,hr,Or.inr ⟨?_,?_⟩⟩⟩
    · exact singleton_of_length_one hu (by omega)
    · rw [he',he]
      exact Keyed.remove_modify (fun _ => rfl)

theorem mbDoPut_found (hb : b ∈ s.blocks) (hu : u ∈ b.mbuList) (hne : u.addr ≠ 0)
    (ha : addr ≠ 0) (hf : mbFindMbu s addr tgid (putFind tgid) = some u.ptr) (name : String) :
    ∃ t, mbDoPut s addr tgid (some name) = some (0,t) ∧ DriverOk t ∧ SameTasks s t ∧
      ((b.mbuList.length ≠ 1 ∧
          t.blocks = Keyed.modify MbStruct.ptr b.ptr (dropRecord u.ptr) s.blocks) ∨
        (b.mbuList = [u] ∧ t.blocks = Keyed.remove MbStruct.ptr b.ptr s.blocks)) := by
  have hok := hs.records.each b hb
  obtain ⟨hs',he⟩ := hs.unlink hb hu (hs.records.not_creator hb hu hne)
  have htasks : SameTasks s (unlinkMbu s u.ptr b.ptr) := ⟨rfl,rfl⟩
  have hlen := hok.count
  have hpos := List.length_pos_of_mem hu
  unfold mbDoPut
  simp only [ha,hf,hs.derefMbu hb hu,hok.back u hu,hs.derefMb hb,or_self,reduceCtorEq,
    ↓reduceIte,show b.count ≠ 0 by omega]
  split
  · rename_i hz
    have hmem : dropRecord u.ptr b ∈ (unlinkMbu s u.ptr b.ptr).blocks := he ▸ mem_modify_self hb
    have hcount : (dropRecord u.ptr b).count = b.count - 1 := rfl
    obtain ⟨hs'',htasks',_,he'⟩ := hs'.freeMb hmem (hcount.trans hz) Prod.mk.eta.symm
    refine ⟨_,rfl,hs'',htasks.trans htasks',Or.inr ⟨?_,?_⟩⟩
    · exact singleton_of_length_one hu (by omega)
    · refine he'.trans ?_
      rw [he]
      exact Keyed.remove_modify (fun _ => rfl)
  · rename_i hz
    exact ⟨_,rfl,hs',htasks,Or.inl ⟨by omega,he⟩⟩

theorem mbDoPut_cases (h : mbDoPut s addr tgid name = some (r,t)) :
    DriverOk t ∧ SameTasks s t ∧ ((r ≠ 0 ∧ t = s) ∨ ∃ b ∈ s.blocks, ∃ u ∈ b.mbuList,
      u.tgid = tgid ∧ b.creator ≠ some u.ptr ∧ r = 0 ∧
      ((b.mbuList.length ≠ 1 ∧
          t.blocks = Keyed.modify MbStruct.ptr b.ptr (dropRecord u.ptr) s.blocks) ∨
        (b.mbuList = [u] ∧ t.blocks = Keyed.remove MbStruct.ptr b.ptr s.blocks))) := by
  by_cases harg : addr = 0 ∨ name = none
  · rw [mbDoPut,if_pos harg] at h
    cases h
    exact ⟨hs,.refl s,Or.inl ⟨by decide,rfl⟩⟩
  cases hf : mbFindMbu s addr tgid (putFind tgid) with
  | none =>
    rw [mbDoPut,if_neg harg,hf] at h
    cases h
    exact ⟨hs,.refl s,Or.inl ⟨by decide,rfl⟩⟩
  | some p =>
    obtain ⟨b,hb,u,hu,rfl,htgid,hne,_⟩ := mbFindMbu_getPut hf
    obtain ⟨ha,hname⟩ := not_or.mp harg
    obtain ⟨n,rfl⟩ := Option.ne_none_iff_exists'.mp hname
    obtain ⟨w,hw,hok,htasks,hcase⟩ := mbDoPut_found hs hb hu hne ha hf n
    rw [hw] at h
    cases h
    exact ⟨hok,htasks,Or.inr ⟨b,hb,u,hu,htgid,hs.records.not_creator hb hu hne,rfl,hcase⟩⟩

theorem DriverOk.link (hb : b ∈ s.blocks) (hslab : s.allocMbu slab = some p)
    (hp : u.ptr = p) (hu : u.mb = b.ptr) : DriverOk (linkMbu s b.ptr u) ∧
      SameTasks s (linkMbu s b.ptr u) ∧
      (linkMbu s b.ptr u).blocks = Keyed.modify MbStruct.ptr b.ptr (addRecord u) s.blocks := by
  subst hp
  exact ⟨⟨hs.host.linkMbu,blocks_linkMbu ▸ hs.records.addRecord hb hu (allocMbu_fresh hslab)⟩,
    ⟨rfl,rfl⟩,blocks_linkMbu⟩

end

theorem mbFindMb_mem (h : mbFindMb s addr type = some b) : b ∈ s.blocks := by
  unfold mbFindMb at h
  split at h
  · cases h
  obtain ⟨a,ha,hf⟩ := List.exists_of_findSome?_eq_some h
  split at hf
  · exact mem_blocks.mpr ⟨a,ha,List.mem_of_find?_eq_some hf⟩
  · cases hf

theorem getTarget_mem (hs : DriverOk s) (h : getTarget s addr tgid = some q) :
    ∃ b ∈ s.blocks, b.ptr = q := by
  unfold getTarget at h
  split at h
  · obtain ⟨u,hu,rfl⟩ := Option.map_eq_some_iff.mp h
    obtain ⟨p,hf,hd⟩ := Option.bind_eq_some_iff.mp hu
    obtain ⟨b,hb,v,hv,rfl,_⟩ := mbFindMbu_mmap hf
    rw [hs.derefMbu hb hv] at hd
    cases hd
    exact ⟨b,hb,((hs.records.each b hb).back u hv).symm⟩
  · obtain ⟨b,hb,rfl⟩ := Option.map_eq_some_iff.mp h
    exact ⟨b,mbFindMb_mem hb,rfl⟩

theorem mbDoGet_cases (hs : DriverOk s) (h : mbDoGet s addr tgid name slab = (r,t)) :
    DriverOk t ∧ SameTasks s t ∧ ((r ≠ 0 ∧ t = s) ∨ ∃ b ∈ s.blocks, ∃ u, u.tgid = tgid ∧ r = 0 ∧
      t.blocks = Keyed.modify MbStruct.ptr b.ptr (addRecord u) s.blocks) := by
  unfold mbDoGet at h
  repeat' first | split at h | (cases h; exact ⟨hs,.refl s,Or.inl ⟨by decide,rfl⟩⟩)
  rename_i hslab _ q hq
  cases h
  obtain ⟨b,hb,rfl⟩ := getTarget_mem hs hq
  obtain ⟨hs',htasks,he⟩ := hs.link hb hslab (u := ⟨_,b.ptr,tgid,addr,0,_⟩) rfl rfl
  exact ⟨hs',htasks,Or.inr ⟨b,hb,_,rfl,rfl,he⟩⟩

theorem mbMmap_cases (hs : DriverOk s) (h : mbMmap s fd vma slab remap = (r,t)) :
    DriverOk t ∧ SameTasks s t ∧ (t = s ∨ ∃ f ∈ s.filps, ∃ b ∈ s.blocks, ∃ u,
      f.fd = fd ∧ u.tgid = f.privateData ∧
      t.blocks = Keyed.modify MbStruct.ptr b.ptr (addRecord u) s.blocks) := by
  unfold mbMmap at h
  simp only at h
  repeat' first | split at h | (cases h; exact ⟨hs,.refl s,Or.inl rfl⟩)
  rename_i f hf _ p hslab _ b hb _ _
  cases h
  have hmem := mbFindMb_mem hb
  obtain ⟨hs',htasks,he⟩ := hs.link hmem hslab
    (u := ⟨p,b.ptr,f.privateData,vma.vmStart,vma.vmEnd - vma.vmStart,_⟩) rfl rfl
  exact ⟨hs',htasks,Or.inr ⟨f,List.mem_of_find?_eq_some hf,b,hmem,_,Keyed.find_key hf,rfl, he⟩⟩

theorem mbAllocMba_tasks (h : mbAllocMba s pages slab grant = (r,t)) : SameTasks s t := by
  rcases mbAllocMba_cases h with ⟨_,rfl⟩ | ⟨p,run,_,rfl,_⟩
  · exact .refl t
  · exact ⟨rfl,rfl⟩

theorem DriverOk.allocMba (hs : DriverOk s) (h : mbAllocMba s pages slab grant = (r,t)) :
    DriverOk t :=
  ⟨hs.host.allocMba h,blocks_mbAllocMba h ▸ hs.records⟩

theorem DriverOk.chooseMba (hs : DriverOk s) (h : chooseMba cfg s pages o = (r,t)) :
    DriverOk t ∧ SameTasks s t ∧ t.blocks = s.blocks := by
  unfold MemBlock.chooseMba at h
  split at h
  · split at h
    · exact ⟨hs.allocMba h,mbAllocMba_tasks h,blocks_mbAllocMba h⟩
    · cases h; exact ⟨hs,.refl s,rfl⟩
  · cases h; exact ⟨hs,.refl s,rfl⟩

structure Created (b : MbStruct) (u : MbUser) : Prop where
  list : b.mbuList = [u]
  count : b.count = 1
  creator : b.creator = some u.ptr
  back : u.mb = b.ptr
  addr : u.addr = 0

theorem Created.blockOk (h : Created b u) : BlockOk b := by
  refine ⟨by rw [h.count,h.list]; rfl,?_,?_⟩
  · intro v hv
    rw [h.list] at hv
    rw [List.mem_singleton.mp hv]
    exact h.back
  intro p hp
  rw [h.creator] at hp
  cases hp
  exact ⟨u,by simp [h.list],rfl,h.addr⟩

theorem create_blocks (hp : t.blocks.Perm (b :: l)) (hmb : u.mb = b.ptr) (haddr : u.addr = 0)
    (hc : b.count = 0) (hnil : b.mbuList = []) (hfresh : ∀ c ∈ l, c.ptr ≠ b.ptr) :
    ∃ b', Created b' u ∧ b'.ptr = b.ptr ∧ b'.phys = b.phys ∧
      ((linkMbu t b.ptr u).modifyMb b.ptr (fun b => { b with creator := some u.ptr })).blocks.Perm
        (b' :: l) := by
  refine ⟨{ addRecord u b with creator := some u.ptr },⟨?_,?_,rfl,hmb,haddr⟩,rfl,rfl,?_⟩
  · simp [addRecord,hnil]
  · simp [addRecord,hc]
  · rw [blocks_modifyMb,blocks_linkMbu,Keyed.modify_modify (f := addRecord u) (fun _ => rfl)]
    refine (hp.map _).trans (List.Perm.of_eq ?_)
    refine (Keyed.modify_hit _ l).trans ?_
    rw [Keyed.modify_absent hfresh]

theorem DriverOk.allocMb (hs : DriverOk s) (hp : 0 < pageAlign size / pageSize)
    (h : mbAllocMb s q size slab = some (p,t)) : DriverOk t ∧ SameTasks s t ∧
      ∃ b, t.blocks.Perm (b :: s.blocks) ∧ b.ptr = p ∧ b.count = 0 ∧ b.mbuList = [] ∧
        0 < b.phys ∧ ∀ c ∈ s.blocks, c.ptr ≠ p := by
  obtain ⟨b,hperm,rfl,hcount,hcr,hnil,hphys,hfresh⟩ := blocks_mbAllocMb hs.host hp h
  have hempty : BlockOk b := ⟨by simp [hcount,hnil],by simp [hnil],by simp [hcr]⟩
  refine ⟨⟨hs.host.allocMb hp h,?_⟩,?_,b,hperm,rfl,hcount,hnil,hphys,hfresh⟩
  · exact (hs.records.cons hempty hfresh (by simp [hnil]) (by simp [hnil])).perm hperm
  · obtain ⟨_,_,_,_,_,_,_,_,rfl⟩ := mbAllocMb_cases hs.host.areas hp h
    exact ⟨rfl,rfl⟩

theorem mbDoAlloc_cases (hs : DriverOk s) (h : mbDoAlloc cfg s size tgid name o = (r,t)) :
    DriverOk t ∧ SameTasks s t ∧ ((r = 0 ∧ t.blocks = s.blocks) ∨ ∃ b u, Created b u ∧
      u.tgid = tgid ∧ b.phys = r ∧ r ≠ 0 ∧ t.blocks.Perm (b :: s.blocks)) := by
  unfold mbDoAlloc at h
  split at h
  · cases h; exact ⟨hs,.refl s,Or.inl ⟨rfl,rfl⟩⟩
  rename_i name
  simp only at h
  split at h
  · cases h; exact ⟨hs,.refl s,Or.inl ⟨rfl,rfl⟩⟩
  rename_i hpages
  split at h
  · cases h; exact ⟨hs,.refl s,Or.inl ⟨rfl,rfl⟩⟩
  rename_i p hslab
  split at h
  · rename_i hc
    cases h
    obtain ⟨hs',htasks,he⟩ := hs.chooseMba hc
    exact ⟨hs',htasks,Or.inl ⟨rfl,he⟩⟩
  rename_i q s₁ hc
  obtain ⟨hs₁,ht₁,he₁⟩ := hs.chooseMba hc
  split at h
  · cases h; exact ⟨hs₁,ht₁,Or.inl ⟨rfl,he₁⟩⟩
  rename_i m s₂ hm
  have hpos : 0 < pageAlign (pageAlign size) / pageSize := by
    rw [pageAlign_idem]
    exact Nat.pos_of_ne_zero hpages
  obtain ⟨hs₂,ht₂,b,hperm,rfl,hcount,hnil,hphys,hfresh⟩ := hs₁.allocMb hpos hm
  rw [he₁] at hperm hfresh
  rw [hs₂.derefMb (hperm.mem_iff.mpr List.mem_cons_self)] at h
  cases h
  obtain ⟨b',hnew,hptr,hph,hperm'⟩ := create_blocks
    (u := ⟨p,b.ptr,tgid,0,b.size,shortName name⟩) hperm rfl rfl hcount hnil hfresh
  refine ⟨⟨hs₂.host.linkMbu.modifyMb (fun _ => rfl),?_⟩,ht₁.trans ⟨ht₂.1,ht₂.2⟩,
    Or.inr ⟨b',_,hnew,rfl,hph,by omega,hperm'⟩⟩
  refine (hs.records.cons hnew.blockOk (hptr ▸ hfresh) (by simp [hnew.list]) ?_).perm hperm'
  intro v hv
  rw [hnew.list] at hv
  rw [List.mem_singleton.mp hv]
  exact allocMbu_fresh hslab

end Apc8750.MemBlock
