import Apc8750.MemBlock.Owners
import Apc8750.MemBlock.Search

namespace Apc8750.MemBlock
open State

variable {s : State} {b c : MbStruct} {tgid : Nat}

structure SamePlace (c b : MbStruct) : Prop where
  ptr : c.ptr = b.ptr
  phys : c.phys = b.phys
  virt : c.virt = b.virt
  size : c.size = b.size

theorem SamePlace.trans (h : SamePlace d c) (h' : SamePlace c b) : SamePlace d b :=
  ⟨h.ptr.trans h'.ptr,h.phys.trans h'.phys,h.virt.trans h'.virt,h.size.trans h'.size⟩

def Within (l m : List MbStruct) : Prop := ∀ c ∈ m, ∃ b ∈ l, SamePlace c b

/-- A block of `m` at the address of one of `l` is that block. -/
def Stays (l m : List MbStruct) : Prop := ∀ b ∈ l, ∀ c ∈ m, c.ptr = b.ptr → SamePlace c b

theorem Within.refl (l : List MbStruct) : Within l l := fun c hc => ⟨c,hc,rfl,rfl,rfl,rfl⟩

theorem Within.modify (hf : ∀ b, SamePlace (f b) b) :
    Within l (Keyed.modify MbStruct.ptr p f l) := by
  intro c hc
  rcases Keyed.mem_modify hc with ⟨hc,_⟩ | ⟨b,hb,_,rfl⟩
  · exact ⟨c,hc,rfl,rfl,rfl,rfl⟩
  · exact ⟨b,hb,hf b⟩

theorem Within.remove : Within l (Keyed.remove MbStruct.ptr p l) :=
  fun c hc => ⟨c,List.mem_of_mem_filter hc,rfl,rfl,rfl,rfl⟩

theorem Within.settle : Within l (l.filterMap (settle tgid)) := by
  intro c hc
  obtain ⟨b,hb,he⟩ := List.mem_filterMap.mp hc
  refine ⟨b,hb,?_⟩
  unfold MemBlock.settle at he
  split at he
  · cases he
  · cases he
    exact ⟨rfl,rfl,rfl,rfl⟩

theorem Within.stays (h : Within l m) (hl : RecordsOk l) : Stays l m := by
  intro b hb c hc hptr
  obtain ⟨d,hd,hcd⟩ := h c hc
  have hbd := hl.block_inj hb hd (hptr.symm.trans hcd.ptr)
  exact hbd ▸ hcd

theorem Stays.then (h : Stays l m) (h' : Within m n) : Stays l n := by
  intro b hb d hd hptr
  obtain ⟨c,hc,hdc⟩ := h' d hd
  exact hdc.trans (h b hb c hc (hdc.ptr.symm.trans hptr))

theorem Edit.stays (he : Edit l m) (hl : RecordsOk l) (hm : RecordsOk m) : Stays l m := by
  cases he with
  | keep => exact (Within.refl _).stays hl
  | create hp =>
    intro d hd c hc hptr
    have hdm : d ∈ m := hp.mem_iff.mpr (List.mem_cons_of_mem _ hd)
    rw [hm.block_inj hc hdm hptr]
    exact ⟨rfl,rfl,rfl,rfl⟩
  | add q v => exact Within.stays (.modify fun _ => ⟨rfl,rfl,rfl,rfl⟩) hl
  | drop hb hne => exact Within.stays (.modify fun _ => ⟨rfl,rfl,rfl,rfl⟩) hl
  | put hb hone hne => exact Within.remove.stays hl

theorem Take.within (h : Take l m) : Within l m := by
  cases h with
  | disown q r => exact .modify fun _ => ⟨rfl,rfl,rfl,rfl⟩
  | free q => exact .remove
  | settle tgid => exact .settle
  | reset => exact fun _ hc => absurd hc List.not_mem_nil

theorem Stays.step (hs : DriverOk s) (h : step cfg s op = some (r,t)) : Stays s.blocks t.blocks := by
  obtain ⟨_,m,hm,he,rfl | ⟨_,taken⟩⟩ := step_effect hs h
  · exact he.stays hs.records hm
  · exact (he.stays hs.records hm).then taken.within

def Inside (type : FindType) (b : MbStruct) (addr : Nat) : Prop :=
  let start := if type == .phys then b.phys else b.virt
  start ≤ addr ∧ addr < start + b.size

theorem mbFindMb_inside (h : mbFindMb s p type = some b) : b ∈ s.blocks ∧ Inside type b p := by
  refine ⟨mbFindMb_mem h,?_⟩
  unfold mbFindMb at h
  split at h
  · cases h
  obtain ⟨a,_,hf⟩ := List.exists_of_findSome?_eq_some h
  split at hf
  · simpa [Inside] using List.find?_some hf
  · cases hf

theorem HostOk.inside_frame (hs : HostOk s) (hb : b ∈ s.blocks) (h : Inside type b p) :
    let frame := (if type == .phys then p else p - pageOffset) / pageSize
    b.pgi.pfnStart ≤ frame ∧ frame < b.pgi.pfnEnd := by
  obtain ⟨hplaced,_,hpos⟩ := hs.placed hb
  have hphys := hplaced.phys
  have hvirt := hplaced.virt
  have hsize := hplaced.size
  cases type <;> simp only [Inside,pageSize,beq_self_eq_true,reduceCtorEq,beq_iff_eq,
    ↓reduceIte] at h hphys hsize ⊢ <;> omega

theorem HostOk.inside_area (hs : HostOk s) (ha : a ∈ s.mbaList) (hb : b ∈ a.mbList)
    (h : Inside type b p) : p ≠ 0 ∧ MemBlock.inArea a p (type == .phys) = true := by
  have hok := hs.areas.each a ha
  obtain ⟨h1,h2,h3⟩ := hok.laid.separated.1 b hb
  have hplaced := hok.placed b hb
  have hphys := hplaced.phys
  have hvirt := hplaced.virt
  have hsize := hplaced.size
  have haphys := hok.phys
  have havirt := hok.virt
  have hends := hok.ends
  have hlow := hok.low
  simp only [mbStart,mbEnd,pageSize] at h1 h2 h3 hphys haphys hsize
  cases type <;> simp only [Inside,MemBlock.inArea,pageSize,beq_self_eq_true,reduceCtorEq,
    beq_iff_eq,↓reduceIte,Bool.and_eq_true,decide_eq_true_eq] at h ⊢ <;> omega

theorem HostOk.mbFindMb_eq (hs : HostOk s) (hb : b ∈ s.blocks) (h : Inside type b p) :
    mbFindMb s p type = some b := by
  have hfound : (mbFindMb s p type).isSome := by
    obtain ⟨a,ha,hba⟩ := mem_blocks.mp hb
    obtain ⟨hne,hin⟩ := hs.inside_area ha hba h
    unfold mbFindMb
    rw [if_neg hne,List.findSome?_isSome_iff]
    refine ⟨a,ha,?_⟩
    rw [if_pos hin,List.find?_isSome]
    exact ⟨b,hba,by simpa [Inside] using h⟩
  obtain ⟨c,hc⟩ := Option.isSome_iff_exists.mp hfound
  obtain ⟨hcs,hci⟩ := mbFindMb_inside hc
  rw [hc,hs.frame_inj hcs hb (hs.inside_frame hcs hci) (hs.inside_frame hb h)]

theorem HostOk.roundTrip (hs : HostOk s) (hb : b ∈ s.blocks) (h : Inside .phys b p) :
    mbDoVirtToPhys s (mbDoPhysToVirt s p) = p := by
  have hphys : mbDoPhysToVirt s p = b.virt + (p - b.phys) := by
    rw [mbDoPhysToVirt,hs.mbFindMb_eq hb h]
  have hle : b.phys ≤ p := h.1
  have hlt : p < b.phys + b.size := h.2
  have hvirt : Inside .virt b (b.virt + (p - b.phys)) := by
    constructor <;> simp only [reduceCtorEq,beq_iff_eq,↓reduceIte] <;> omega
  rw [hphys,mbDoVirtToPhys,hs.mbFindMb_eq hb hvirt]
  simp only
  omega

def recordAt (user tgid : Nat) (b : MbStruct) : Bool :=
  b.mbuList.any fun v => v.tgid == tgid && v.addr == user

theorem hit_userAll :
    hit userAll user tgid b v = true ↔ (v.tgid == tgid && v.addr == user) = true := by
  simp only [hit,userAll,Bool.not_false,Bool.true_or,Bool.true_and,visitMbu]
  split_ifs <;> simp_all
  omega

theorem DriverOk.userTo_first (hs : DriverOk s) {user : Nat} (hu : user ≠ 0)
    {before after : List MbStruct} (hl : s.blocks = before ++ b :: after)
    (hb : recordAt user tgid b = true) (hbefore : ∀ c ∈ before, recordAt user tgid c = false) :
    mbDoUserToPhys s user tgid = b.phys ∧ mbDoUserToVirt s user tgid = b.virt := by
  have hmem : b ∈ s.blocks := hl ▸ List.mem_append_cons_self
  obtain ⟨v,hv,hat⟩ := List.any_eq_true.mp hb
  have hfind : (b.mbuList.find? (hit userAll user tgid b)).isSome :=
    List.find?_isSome.mpr ⟨v,hv,hit_userAll.mpr hat⟩
  obtain ⟨m,hm⟩ := Option.isSome_iff_exists.mp hfind
  have hmb := List.mem_of_find?_eq_some hm
  have hfirst : firstRecord (hit userAll user tgid) s.blocks = some m := by
    rw [firstRecord,List.findSome?_eq_some_iff]
    refine ⟨before,b,after,hl,hm,?_⟩
    intro c hc
    rw [List.find?_eq_none]
    intro x hx hxhit
    exact List.any_eq_false.mp (hbefore c hc) x hx (hit_userAll.mp hxhit)
  have hderef : ((mbFindMbu s user tgid userAll).bind s.derefMbu).bind (fun u => s.derefMb u.mb) =
      some b := by
    rw [hs.host.mbFindMbu_first hu rfl rfl rfl,hfirst,Option.map_some,Option.bind_some,
      hs.derefMbu hmem hmb,Option.bind_some,(hs.records.each b hmem).back m hmb,hs.derefMb hmem]
  simp [mbDoUserToPhys,mbDoUserToVirt,hderef]

/-- A mapped address is translated to its byte, and translations of blocks can be undone. -/
structure Translated (w : State) (user tgid off virt : Nat) : Prop where
  phys : mbDoUserToPhys w user tgid = off
  virt : mbDoUserToVirt w user tgid = virt
  back : ∀ b ∈ w.blocks, ∀ p, b.phys ≤ p → p < b.phys + b.size →
    mbDoVirtToPhys w (mbDoPhysToVirt w p) = p

/-- The search for the address meets no other block before the one at `ptr`. -/
def Foremost (w : State) (user tgid ptr : Nat) : Prop :=
  ∃ before c after, w.blocks = before ++ c :: after ∧ c.ptr = ptr ∧
    ∀ d ∈ before, recordAt user tgid d = false

theorem DriverOk.translated_iff (hw : DriverOk w) (hc : c ∈ w.blocks) (hplace : SamePlace c b)
    (hu : u ∈ c.mbuList) (hin : Inside .phys b off) :
    Translated w u.addr u.tgid off (b.virt + (off - b.phys)) ↔
      u.addr ≠ 0 ∧ off = b.phys ∧ Foremost w u.addr u.tgid b.ptr := by
  have hat : recordAt u.addr u.tgid c = true := List.any_eq_true.mpr ⟨u,hu,by simp⟩
  have hinc : Inside .phys c off := by
    simpa only [Inside,hplace.phys,hplace.virt,hplace.size] using hin
  constructor
  · intro h
    have hne : u.addr ≠ 0 := by
      intro hzero
      obtain ⟨a,ha,hca⟩ := mem_blocks.mp hc
      have hphys := h.phys
      rw [mbDoUserToPhys,mbFindMbu,if_pos (Or.inl hzero)] at hphys
      exact (hw.host.inside_area ha hca hinc).1 hphys.symm
    have hfirst : (w.blocks.find? (recordAt u.addr u.tgid)).isSome :=
      List.find?_isSome.mpr ⟨c,hc,hat⟩
    obtain ⟨d,hd⟩ := Option.isSome_iff_exists.mp hfirst
    obtain ⟨hatd,before,rest,hl,hbefore⟩ := List.find?_eq_some_iff_append.mp hd
    simp only [Bool.not_eq_true'] at hbefore
    have hdm := List.mem_of_find?_eq_some hd
    have hphys : d.phys = off := (hw.userTo_first hne hl hatd hbefore).1.symm.trans h.phys
    have hind : Inside .phys d off := by
      obtain ⟨hplaced,_,hpos⟩ := hw.host.placed hdm
      have hsize := hplaced.size
      simp only [pageSize] at hsize
      constructor <;> simp only [beq_self_eq_true,↓reduceIte] <;> omega
    have hdc : d = c := hw.host.frame_inj hdm hc (hw.host.inside_frame hdm hind)
      (hw.host.inside_frame hc hinc)
    exact ⟨hne,hphys.symm.trans (hdc ▸ hplace.phys),before,d,rest,hl,hdc ▸ hplace.ptr,hbefore⟩
  · rintro ⟨hne,hoff,before,d,rest,hl,hptr,hbefore⟩
    have hdm : d ∈ w.blocks := hl ▸ List.mem_append_cons_self
    have hdc : d = c := hw.records.block_inj hdm hc (hptr.trans hplace.ptr.symm)
    obtain ⟨hphys,hvirt⟩ := hw.userTo_first hne hl (hdc ▸ hat) hbefore
    refine ⟨?_,?_,fun b hb p hle hlt => hw.host.roundTrip hb ⟨hle,hlt⟩⟩
    · rw [hphys,hdc,hplace.phys,hoff]
    · rw [hvirt,hdc,hplace.virt,hoff,Nat.sub_self,Nat.add_zero]

def Linked (v : State) (u : MbUser) : Prop := ∃ c ∈ v.blocks, u ∈ c.mbuList

theorem DriverOk.linked (hs : DriverOk s) (h : Linked s u) :
    ∃ c ∈ s.blocks, u ∈ c.mbuList ∧ c.ptr = u.mb := by
  obtain ⟨c,hc,hu⟩ := h
  exact ⟨c,hc,hu,((hs.records.each c hc).back u hu).symm⟩

theorem linked_stays (hs : DriverOk s) (hb : b ∈ s.blocks) (hu : u ∈ b.mbuList)
    (hrun : Runs.Run (step cfg) (fun v _ => Linked v u) s later w) (hw : Linked w u) :
    DriverOk w ∧ ∃ c ∈ w.blocks, u ∈ c.mbuList ∧ SamePlace c b := by
  have hinv : DriverOk w ∧ ∀ c ∈ w.blocks, c.ptr = b.ptr → SamePlace c b := by
    apply hrun.invariant (I := fun v => DriverOk v ∧ ∀ c ∈ v.blocks, c.ptr = b.ptr → SamePlace c b)
    · exact ⟨hs,fun c hc => (Within.refl _).stays hs.records b hb c hc⟩
    rintro v op r v' ⟨hv,hall⟩ hlinked hstep
    refine ⟨hv.step hstep,?_⟩
    intro c hc hptr
    obtain ⟨d,hd,hud,hdptr⟩ := hv.linked hlinked
    have hdb : d.ptr = b.ptr := hdptr.trans ((hs.records.each b hb).back u hu)
    exact (Stays.step hv hstep d hd c hc (hptr.trans hdb.symm)).trans (hall d hd hdb)
  obtain ⟨hok,hall⟩ := hinv
  obtain ⟨c,hc,huc,hptr⟩ := hok.linked hw
  exact ⟨hok,c,hc,huc,hall c hc (hptr.trans ((hs.records.each b hb).back u hu))⟩

theorem mbMmap_linked (hs : DriverOk s) (h : mbMmap s fd vma slab remap = (0,t)) :
    DriverOk t ∧ ∃ b u, mbFindMb s (vma.vmPgoff * pageSize % 2 ^ 32) .phys = some b ∧
      t = linkMbu s b.ptr u ∧ u.addr = vma.vmStart ∧
      (∃ f, s.filps.find? (fun f => f.fd == fd) = some f ∧ u.tgid = f.privateData) ∧
      addRecord u b ∈ t.blocks := by
  unfold mbMmap at h
  simp only at h
  repeat' first | split at h | (cases h; done)
  rename_i f hf _ p hslab _ b hb _ _
  cases h
  have hmem := mbFindMb_mem hb
  obtain ⟨ht,_,he⟩ := hs.link hmem hslab
    (u := ⟨p,b.ptr,f.privateData,vma.vmStart,vma.vmEnd - vma.vmStart,_⟩) rfl rfl
  obtain ⟨before,rest,hl,hm,_⟩ := Keyed.split hs.records.blocks hmem
  refine ⟨ht,b,_,hb,rfl,rfl,⟨f,hf,rfl⟩,?_⟩
  rw [he,hm]
  exact List.mem_append_cons_self

/-- A mapping is translated exactly when it starts where the block does, not at zero, and no earlier
block hides it. -/
theorem mapping_translated {trace : List (Op × Reply)} (h : Reached cfg trace s) {vma : Vma}
    {fd : Nat} {slab : Option Nat} {remap : Bool} (hm : mbMmap s fd vma slab remap = (0, t)) :
    ∃ b u, mbFindMb s (vma.vmPgoff * pageSize % 2 ^ 32) .phys = some b ∧
      t = linkMbu s b.ptr u ∧ Linked t u ∧ u.addr = vma.vmStart ∧
      (∃ f, s.filps.find? (fun f => f.fd == fd) = some f ∧ u.tgid = f.privateData) ∧
      ∀ later w, Runs.Run (step cfg) (fun v _ => Linked v u) t later w → Linked w u →
        (Translated w vma.vmStart u.tgid (vma.vmPgoff * pageSize % 2 ^ 32)
            (b.virt + (vma.vmPgoff * pageSize % 2 ^ 32 - b.phys)) ↔
          vma.vmStart ≠ 0 ∧ vma.vmPgoff * pageSize % 2 ^ 32 = b.phys ∧
            Foremost w vma.vmStart u.tgid b.ptr) := by
  obtain ⟨ht, b, u, hb, hlink, haddr, htask, hmem⟩ := mbMmap_linked h.driverOk hm
  have hin := (mbFindMb_inside hb).2
  have hu : u ∈ (addRecord u b).mbuList := List.mem_append_cons_self
  refine ⟨b, u, hb, hlink, ⟨_, hmem, hu⟩, haddr, htask, ?_⟩
  intro later w hrun hw
  obtain ⟨hok, c, hc, huc, hplace⟩ := linked_stays ht hmem hu hrun hw
  have hiff := hok.translated_iff hc (b := b) ⟨hplace.ptr, hplace.phys, hplace.virt, hplace.size⟩
    huc hin
  rwa [haddr] at hiff

def taskBlock : List Op :=
  [.open 3 7 "player" true, .ioctl 3 7 (.malloc 8192 ⟨some 20, none, none, some 30⟩)]

theorem mapping_translated_start : ∃ trace s t, Reached smallConfig trace s ∧
    mbMmap s 3 ⟨65536, 73728, 512⟩ (some 21) true = (0, t) ∧
    Translated t 65536 7 2097152 (0xC0000000 + 2097152) := by
  let creator : MbUser := ⟨20, 30, 7, 0, 8192, "player"⟩
  let block : MbStruct :=
    ⟨30, 1, ⟨512, 514⟩, 2097152, 0xC0000000 + 2097152, 8192, 1, some 20, [creator]⟩
  let mapped : MbUser := ⟨21, 30, 7, 65536, 8192, "player"⟩
  have h : (after smallConfig smallProbe taskBlock).map (fun r =>
      (mbFindMb r.2 2097152 .phys, r.2.filps.find? (fun f => f.fd == 3),
        (mbMmap r.2 3 ⟨65536, 73728, 512⟩ (some 21) true).1,
        (mbMmap r.2 3 ⟨65536, 73728, 512⟩ (some 21) true).2.blocks)) =
      some (some block, some ⟨3, 7⟩, 0, [addRecord mapped block]) := by
    decide +kernel
  obtain ⟨⟨trace, s⟩, hrun, hfacts⟩ := Option.map_eq_some_iff.mp h
  simp only [Prod.mk.injEq] at hfacts
  obtain ⟨hfind, hfilp, hzero, hblocks⟩ := hfacts
  have hreach := Reached.of_after hrun
  have hmap : mbMmap s 3 ⟨65536, 73728, 512⟩ (some 21) true =
      (0, (mbMmap s 3 ⟨65536, 73728, 512⟩ (some 21) true).2) := Prod.ext hzero rfl
  obtain ⟨b, u, hb, _, hlinked, _, ⟨f, hf, htask⟩, hall⟩ := mapping_translated hreach hmap
  cases hfind.symm.trans hb
  cases hfilp.symm.trans hf
  refine ⟨trace, s, _, hreach, hmap, ?_⟩
  have hexact := (hall [] _ .start hlinked).mpr
    ⟨by decide, by decide, [], addRecord mapped block, [], hblocks, rfl, by simp⟩
  have hoff : 512 * pageSize % 2 ^ 32 = 2097152 := by decide
  simp only [hoff, htask, block, Nat.sub_self, Nat.add_zero] at hexact
  exact hexact

theorem inner_mapping_mistranslated : ∃ trace s t, Reached smallConfig trace s ∧
    mbMmap s 3 ⟨65536, 69632, 513⟩ (some 21) true = (0, t) ∧ 513 * pageSize = 2101248 ∧
    mbDoUserToPhys t 65536 7 = 2097152 := by
  have h : (after smallConfig smallProbe taskBlock).map (fun r =>
      ((mbMmap r.2 3 ⟨65536, 69632, 513⟩ (some 21) true).1,
        mbDoUserToPhys (mbMmap r.2 3 ⟨65536, 69632, 513⟩ (some 21) true).2 65536 7)) =
      some (0, 2097152) := by
    decide +kernel
  obtain ⟨⟨trace, s⟩, hrun, hfacts⟩ := Option.map_eq_some_iff.mp h
  simp only [Prod.mk.injEq] at hfacts
  exact ⟨trace, s, _, .of_after hrun, Prod.ext hfacts.1 rfl, rfl, hfacts.2⟩

end Apc8750.MemBlock
