import Apc8750.MemBlock.Accounts

namespace Apc8750.MemBlock
open State

variable {b c : MbStruct} {u v : MbUser} {l : List MbStruct} {p : Nat}

def CreatorIn (l : List MbStruct) (p : Nat) (u : MbUser) : Prop :=
  ∃ b ∈ l, b.ptr = p ∧ b.creator = some u.ptr ∧ u ∈ b.mbuList

theorem RecordsOk.block_inj (h : RecordsOk l) (hb : b ∈ l) (hc : c ∈ l) (he : b.ptr = c.ptr) :
    b = c := by
  have hfind := Keyed.find_of_mem h.blocks hb
  rw [he,Keyed.find_of_mem h.blocks hc] at hfind
  exact (Option.some.inj hfind).symm

section
variable (h : CreatorIn l p u)
include h

theorem CreatorIn.cons (hp : m.Perm (b :: l)) : CreatorIn m p u := by
  obtain ⟨c,hc,hrest⟩ := h
  exact ⟨c,hp.mem_iff.mpr (List.mem_cons_of_mem _ hc),hrest⟩

theorem CreatorIn.addRecord :
    CreatorIn (Keyed.modify MbStruct.ptr q (addRecord v) l) p u := by
  obtain ⟨c,hc,hptr,hcr,hu⟩ := h
  refine ⟨_,List.mem_map_of_mem hc,?_⟩
  split
  · exact ⟨hptr,hcr,List.mem_append_left _ hu⟩
  · exact ⟨hptr,hcr,hu⟩

theorem CreatorIn.modify_other (hne : q ≠ p) :
    CreatorIn (Keyed.modify MbStruct.ptr q f l) p u := by
  obtain ⟨c,hc,hptr,hrest⟩ := h
  refine ⟨c,List.mem_map.mpr ⟨c,hc,if_neg ?_⟩,hptr,hrest⟩
  exact fun he => hne (he.symm.trans hptr)

theorem CreatorIn.remove_other (hne : q ≠ p) :
    CreatorIn (Keyed.remove MbStruct.ptr q l) p u := by
  obtain ⟨c,hc,hptr,hrest⟩ := h
  refine ⟨c,List.mem_filter.mpr ⟨hc,?_⟩,hptr,hrest⟩
  simpa [hptr] using hne.symm

theorem CreatorIn.dropRecord (hr : RecordsOk l) (hb : b ∈ l) (hne : b.creator ≠ some v.ptr) :
    CreatorIn (Keyed.modify MbStruct.ptr b.ptr (dropRecord v.ptr) l) p u := by
  by_cases hbp : b.ptr = p
  · obtain ⟨c,hc,hptr,hcr,hu⟩ := h
    have hbc := hr.block_inj hb hc (hbp.trans hptr.symm)
    subst hbc
    refine ⟨_,mem_modify_self hb,hptr,hcr,List.mem_filter.mpr ⟨hu,?_⟩⟩
    rw [hcr] at hne
    simpa using fun he => hne (congrArg some he)
  · exact h.modify_other hbp

theorem CreatorIn.put (hr : RecordsOk l) (hb : b ∈ l)
    (hone : b.mbuList = [v]) (hne : b.creator ≠ some v.ptr) :
    CreatorIn (Keyed.remove MbStruct.ptr b.ptr l) p u := by
  refine h.remove_other (fun hbp => ?_)
  obtain ⟨c,hc,hptr,hcr,hu⟩ := h
  have hbc := hr.block_inj hb hc (hbp.trans hptr.symm)
  subst hbc
  rw [hone] at hu
  rw [List.mem_singleton.mp hu] at hcr
  exact hne hcr

theorem CreatorIn.edit (hr : RecordsOk l) (he : Edit l m) : CreatorIn m p u := by
  cases he with
  | keep => exact h
  | create hp => exact h.cons hp
  | add q v => exact h.addRecord
  | drop hb hne => exact h.dropRecord hr hb hne
  | put hb hone hne => exact h.put hr hb hone hne

end

theorem CreatorIn.step (hc : CreatorIn s.blocks p u) (hs : DriverOk s)
    (h : step cfg s op = some (r,t)) (hop : freesCreators op = false) :
    CreatorIn t.blocks p u := by
  obtain ⟨_,m,_,he,rfl | ⟨hfrees,_⟩⟩ := step_effect hs h
  · exact hc.edit hs.records he
  · rw [hop] at hfrees
    cases hfrees

theorem mem_stopped_creator (hu : u ∈ b.mbuList) (hcr : b.creator = some u.ptr) (tgid : Nat) :
    u ∈ (stopped tgid b).mbuList :=
  List.mem_filter.mpr ⟨hu,by simp [keeps,hcr]⟩

theorem CreatorIn.release (hc : CreatorIn s.blocks p u) (hs : DriverOk s)
    (h : mbRelease cfg s fd = some (r,t)) (hf : ∀ f ∈ s.filps, f.fd = fd → f.privateData ≠ u.tgid) :
    CreatorIn t.blocks p u := by
  obtain ⟨_,w,hw,_,hcase⟩ := mbRelease_cases hs cfg fd
  rw [hw] at h
  cases h
  rcases hcase with ⟨rfl,_⟩ | ⟨f,hfm,hfd,_,⟨_,he,_⟩ | ⟨k,_,hk,⟨_,he,_⟩ | ⟨_,he,_⟩⟩⟩
  · exact hc
  · exact he ▸ hc
  · exact he ▸ hc
  obtain ⟨b,hb,hptr,hcr,hu⟩ := hc
  have hstay : recyclable k.tgid (stopped k.tgid b) = false := by
    have hmem := mem_stopped_creator hu hcr k.tgid
    unfold recyclable
    split
    · rename_i v hl
      rw [hl] at hmem
      have hne := hf f hfm hfd
      rw [← List.mem_singleton.mp hmem,hk]
      simpa using fun _ he => hne he.symm
    · rfl
  refine ⟨stopped k.tgid b,?_,hptr,hcr,mem_stopped_creator hu hcr k.tgid⟩
  rw [he]
  exact List.mem_filterMap.mpr ⟨b,hb,by simp [settle,hstay]⟩

/-- As many as the use count, each pointing back, the creator among them. -/
def Accounted (b : MbStruct) : Prop :=
  b.count = b.mbuList.length ∧ (∀ u ∈ b.mbuList, u.mb = b.ptr) ∧
    ∀ p, b.creator = some p → ∃ u ∈ b.mbuList, u.ptr = p

/-- Counts, back pointers and creators agree with the lists, and only `mb_do_free` and
`MBIO_FORCE_RESET` remove creators. -/
theorem records_match_blocks (h : Reached cfg trace s) :
    (∀ b ∈ s.blocks, Accounted b) ∧
      (∀ b ∈ s.blocks, ∀ u ∈ b.mbuList, b.creator = some u.ptr →
        (∀ op r t, step cfg s op = some (r, t) → freesCreators op = false →
          CreatorIn t.blocks b.ptr u) ∧
        (∀ value tgid size phys t, mbioFreeUnmap s value tgid = some (size, phys, t) →
          CreatorIn t.blocks b.ptr u) ∧
        (∀ tgid, (stopUsers tgid b).creator = some u.ptr ∧ u ∈ (stopUsers tgid b).mbuList) ∧
        (∀ fd r t, (∀ f ∈ s.filps, f.fd = fd → f.privateData ≠ u.tgid) →
          step cfg s (.release fd) = some (r, t) → CreatorIn t.blocks b.ptr u)) := by
  have hs := h.driverOk
  refine ⟨?_, ?_⟩
  · intro b hb
    have hok := hs.records.each b hb
    refine ⟨hok.count, hok.back, fun p hp => ?_⟩
    obtain ⟨u, hu, hptr, _⟩ := hok.creator p hp
    exact ⟨u, hu, hptr⟩
  intro b hb u hu hcr
  have hc : CreatorIn s.blocks b.ptr u := ⟨b, hb, rfl, hcr, hu⟩
  refine ⟨fun op r t hstep hop => hc.step hs hstep hop,
    fun value tgid size phys t hfree => hc.edit hs.records (freeUnmap_edit hs hfree), ?_, ?_⟩
  · intro tgid
    rw [stopUsers_eq hs.records hb]
    exact ⟨hcr, mem_stopped_creator hu hcr tgid⟩
  intro fd r t hf hstep
  obtain ⟨⟨ret, w⟩, hw, he⟩ := Option.map_eq_some_iff.mp hstep
  cases he
  exact hc.release hs hw hf

theorem records_match_blocks_small : ∃ trace s, Reached smallConfig trace s ∧
    s.users.length = 2 ∧ ∀ b ∈ s.blocks, Accounted b := by
  have h : (after smallConfig smallProbe smallOps).map (fun r => r.2.users.length) = some 2 := by
    decide +kernel
  obtain ⟨⟨trace, s⟩, hrun, hlen⟩ := Option.map_eq_some_iff.mp h
  exact ⟨trace, s, .of_after hrun, hlen, (records_match_blocks (.of_after hrun)).1⟩

/-- Whatever creator record an `mb_do_free` by `tgid` removes is of `tgid`. -/
def FreesOwn (s : State) (addr tgid : Nat) (name : String) : Prop :=
  ∀ r t, mbDoFree s addr tgid (some name) = some (r, t) → ∀ b ∈ s.blocks, ∀ u ∈ b.mbuList,
    b.creator = some u.ptr → ¬ CreatorIn t.blocks b.ptr u → u.tgid = tgid

/-- It has no record there, or created the block, or nobody did. -/
def CallerCreated (s : State) (addr tgid : Nat) : Prop :=
  ∀ b ∈ s.blocks, b.phys = addr → (∃ v ∈ b.mbuList, v.tgid = tgid) →
    ∀ u ∈ b.mbuList, b.creator = some u.ptr → u.tgid = tgid

theorem not_creatorIn_disown :
    ¬ CreatorIn (Keyed.modify MbStruct.ptr p (disown v.ptr) l) p u := by
  rintro ⟨c,hc,hptr,hcr,_⟩
  rcases Keyed.mem_modify hc with ⟨_,hne⟩ | ⟨d,_,_,rfl⟩
  · exact hne hptr
  · cases hcr

theorem not_creatorIn_remove : ¬ CreatorIn (Keyed.remove MbStruct.ptr p l) p u := by
  rintro ⟨c,hc,hptr,_⟩
  have hne := (List.mem_filter.mp hc).2
  simp [hptr] at hne

theorem freesOwn_iff (hs : DriverOk s) (addr tgid : Nat) (name : String) :
    FreesOwn s addr tgid name ↔ CallerCreated s addr tgid := by
  constructor
  · intro h b hb hphys ⟨v,hv,hvt⟩ u hu hcr
    subst hphys hvt
    obtain ⟨a,ha,hba⟩ := mem_blocks.mp hb
    have hfind := (mbFindMbu_creator_eq hs hb hv).trans hcr
    have heq := mbDoFree_found hs hb hu (hs.host.inArea ha hba).1 hfind name
    obtain ⟨⟨r,t⟩,hrt⟩ : ∃ x, mbDoFree s b.phys v.tgid (some name) = some x := ⟨_,heq⟩
    refine h r t hrt b hb u hu hcr ?_
    obtain ⟨_,_,⟨_,_,hno⟩ | ⟨c,hc,w,_,hcphys,_,_,_,⟨_,he⟩ | ⟨_,he⟩⟩⟩ :=
      mbDoFree_cases hs hrt
    · simp [(hs.host.inArea ha hba).1,hfind] at hno
    · rw [he,← hs.host.phys_inj hc hb hcphys]
      exact not_creatorIn_disown
    · rw [he,← hs.host.phys_inj hc hb hcphys]
      exact not_creatorIn_remove
  · intro h r t hrt b hb u hu hcr hgone
    have hin : CreatorIn s.blocks b.ptr u := ⟨b,hb,rfl,hcr,hu⟩
    obtain ⟨_,_,⟨_,rfl,_⟩ | ⟨c,hc,w,hw,hphys,hcw,hv,_,hlist⟩⟩ := mbDoFree_cases hs hrt
    · exact absurd hin hgone
    by_cases hcb : c.ptr = b.ptr
    · have := hs.records.block_inj hc hb hcb
      subst this
      exact h c hb hphys hv u hu hcr
    · rcases hlist with ⟨_,he⟩ | ⟨_,he⟩
      · exact absurd (he ▸ hin.modify_other hcb) hgone
      · exact absurd (he ▸ hin.remove_other hcb) hgone

/-- The task created the block that `MBIO_FREE` of `value` goes for. -/
def OwnFree (s : State) (value tgid : Nat) : Prop :=
  ∀ b ∈ s.blocks, (b.phys = value ∨ ∃ v ∈ b.mbuList, v.tgid = tgid ∧ v.addr = value) →
    (∃ v ∈ b.mbuList, v.tgid = tgid) → ∀ u ∈ b.mbuList, b.creator = some u.ptr → u.tgid = tgid

/-- A task other than `tgid` makes an `ioctl`, and `MBIO_FREE` only on its own
blocks. -/
def ByOthers (tgid : Nat) (s : State) (op : Op) : Prop :=
  ∃ fd cur cmd, op = .ioctl fd cur cmd ∧ ∀ f ∈ s.filps, f.fd = fd → f.privateData ≠ tgid ∧
    ∀ value, cmd = .free value → OwnFree s value f.privateData

theorem freeUnmap_target (hs : DriverOk s)
    (h : mbioFreeUnmap s value tgid = some (size, phys, t)) (hc : c ∈ t.blocks)
    (hphys : c.phys = phys) : ∃ b ∈ s.blocks, b.ptr = c.ptr ∧ b.creator = c.creator ∧
      (∀ v ∈ c.mbuList, v ∈ b.mbuList) ∧
      (b.phys = value ∨ ∃ v ∈ b.mbuList, v.tgid = tgid ∧ v.addr = value) := by
  rcases mbioFreeUnmap_cases hs h with ⟨rfl,rfl⟩ | ⟨b,hb,v,hv,htgid,haddr,_,hne,rfl,rfl⟩
  · exact ⟨c,hc,rfl,rfl,fun _ hv => hv,Or.inl hphys⟩
  rw [(hs.unlink hb hv hne).2] at hc
  rcases Keyed.mem_modify hc with ⟨hc,hptr⟩ | ⟨d,hd,hptr,rfl⟩
  · exact absurd (congrArg MbStruct.ptr (hs.host.phys_inj hc hb hphys)) hptr
  · have := hs.records.block_inj hd hb hptr
    subst this
    exact ⟨d,hd,rfl,rfl,fun _ hw => List.mem_of_mem_filter hw,Or.inr ⟨v,hv,htgid,haddr⟩⟩

theorem OwnFree.callerCreated (h : OwnFree s value tgid) (hs : DriverOk s)
    (hw : mbioFreeUnmap s value tgid = some (size, phys, t)) : CallerCreated t phys tgid := by
  intro c hc hphys ⟨x,hx,hxt⟩ u hu hcr
  obtain ⟨b,hb,_,hbc,hsub,hval⟩ := freeUnmap_target hs hw hc hphys
  exact h b hb hval ⟨x,hsub x hx,hxt⟩ u (hsub u hu) (hbc.trans hcr)

theorem CreatorIn.byOthers (hc : CreatorIn s.blocks p u) (hs : DriverOk s)
    (hg : ByOthers u.tgid s op) (h : MemBlock.step cfg s op = some (r,t)) :
    CreatorIn t.blocks p u := by
  obtain ⟨fd,cur,cmd,rfl,hg⟩ := hg
  cases hcmd : freesCreators (.ioctl fd cur cmd) with
  | false => exact hc.step hs h hcmd
  | true =>
    simp only [MemBlock.step,mbIoctl] at h
    split at h
    · cases h; exact hc
    rename_i f hf
    obtain ⟨hother,hfree⟩ := hg f (List.mem_of_find?_eq_some hf) (Keyed.find_key hf)
    cases cmd with
    | forceReset =>
      obtain ⟨w,hw,_⟩ := Option.map_eq_some_iff.mp h
      obtain ⟨b,hb,_,_,hu⟩ := hc
      rw [(forceReset_cases hs hw).2.2.2 b hb] at hu
      cases hu
    | free value =>
      obtain ⟨⟨size,phys,w⟩,hw,h⟩ := Option.bind_eq_some_iff.mp h
      obtain ⟨⟨ret,w'⟩,hdo,h⟩ := Option.bind_eq_some_iff.mp h
      cases h
      have hc' := hc.edit hs.records (freeUnmap_edit hs hw)
      have hs' := mbioFreeUnmap_ok hs hw
      obtain ⟨_,_,⟨_,rfl,_⟩ | ⟨c,hcm,v,hv,hphys,hcv,⟨x,hx,hxt⟩,_,hlist⟩⟩ :=
        mbDoFree_cases hs' hdo
      · exact hc'
      have hne : c.ptr ≠ p := by
        intro hcp
        obtain ⟨d,hd,hdp,hdc,hud⟩ := hc'
        have := hs'.records.block_inj hd hcm (hdp.trans hcp.symm)
        subst this
        exact hother ((hfree value rfl).callerCreated hs hw d hd hphys ⟨x,hx,hxt⟩ u hud hdc).symm
      rcases hlist with ⟨_,he⟩ | ⟨_,he⟩
      · exact he ▸ hc'.modify_other hne
      · exact he ▸ hc'.remove_other hne
    | _ => cases hcmd

/-- `mb_do_free` removes only the caller's creator records exactly when it has no record on
another's block. -/
theorem creator_freed_by_owner (h : Reached cfg trace s) :
    (∀ addr tgid name, FreesOwn s addr tgid name ↔ CallerCreated s addr tgid) ∧
      (∀ value tgid size phys w name, mbioFreeUnmap s value tgid = some (size, phys, w) →
        (FreesOwn w phys tgid name ↔ CallerCreated w phys tgid)) ∧
      ∀ b ∈ s.blocks, ∀ u ∈ b.mbuList, b.creator = some u.ptr → ∀ later t,
        Runs.Run (step cfg) (ByOthers u.tgid) s later t →
        ∃ b' ∈ t.blocks, b'.ptr = b.ptr ∧ b'.creator = b.creator := by
  have hs := h.driverOk
  refine ⟨freesOwn_iff hs, ?_, ?_⟩
  · intro value tgid size phys w name hw
    exact freesOwn_iff (mbioFreeUnmap_ok hs hw) phys tgid name
  intro b hb u hu hcr later t hrun
  have hinv : DriverOk t ∧ CreatorIn t.blocks b.ptr u :=
    hrun.invariant (I := fun s => DriverOk s ∧ CreatorIn s.blocks b.ptr u)
      ⟨hs, b, hb, rfl, hcr, hu⟩
      (fun hi hg hstep => ⟨hi.1.step hstep, hi.2.byOthers hi.1 hg hstep⟩)
  obtain ⟨b', hb', hptr, hcr', _⟩ := hinv.2
  exact ⟨b', hb', hptr, hcr'.trans hcr.symm⟩

theorem creator_freed_by_owner_small : ∃ trace s, Reached smallConfig trace s ∧
    s.blocks.map (fun b => (b.phys, b.mbuList.map MbUser.tgid)) = [(2105344, [0]), (4194304, [0])] ∧
    (FreesOwn s 2105344 0 "codec" ↔ CallerCreated s 2105344 0) := by
  have h : (after smallConfig smallProbe smallOps).map (fun r =>
      r.2.blocks.map (fun b => (b.phys, b.mbuList.map MbUser.tgid))) =
      some [(2105344, [0]), (4194304, [0])] := by decide +kernel
  obtain ⟨⟨trace, s⟩, hrun, hblocks⟩ := Option.map_eq_some_iff.mp h
  exact ⟨trace, s, .of_after hrun, hblocks,
    (creator_freed_by_owner (.of_after hrun)).1 2105344 0 "codec"⟩

/-- Each block by its address, its creator, and the addresses and tasks of its
records. -/
def holders (s : State) : List (Nat × Option Nat × List (Nat × Nat)) :=
  s.blocks.map (fun b => (b.phys, b.creator, b.mbuList.map (fun u => (u.ptr, u.tgid))))

def strangerOps : List Op :=
  [.open 3 7 "player" true,
    .ioctl 3 7 (.malloc 8192 ⟨some 20, none, none, some 30⟩),
    .open 4 8 "viewer" true,
    .mmap 4 ⟨65536, 73728, 512⟩ (some 21) true]

/-- After that an `MBIO_FREE` by task 8 succeeds and leaves the block of task 7
without a creator. -/
theorem creator_freed_by_stranger : ∃ trace s r t, Reached smallConfig trace s ∧
    holders s = [(2097152, some 20, [(20, 7), (21, 8)])] ∧
    step smallConfig s (.ioctl 4 8 (.free 2097152)) = some (r, t) ∧ r.ret = 0 ∧
    holders t = [(2097152, none, [(21, 8)])] := by
  have h : (after smallConfig smallProbe strangerOps).bind (fun x =>
      (step smallConfig x.2 (.ioctl 4 8 (.free 2097152))).map (fun y =>
        (holders x.2, y.1.ret, holders y.2))) =
      some ([(2097152, some 20, [(20, 7), (21, 8)])], 0, [(2097152, none, [(21, 8)])]) := by rfl
  obtain ⟨⟨trace, s⟩, hrun, hs⟩ := Option.bind_eq_some_iff.mp h
  obtain ⟨⟨r, t⟩, hstep, he⟩ := Option.map_eq_some_iff.mp hs
  simp only [Prod.mk.injEq] at he
  exact ⟨trace, s, r, t, .of_after hrun, he.1, hstep, he.2.1, he.2.2⟩

end Apc8750.MemBlock
