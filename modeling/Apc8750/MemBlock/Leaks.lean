import Mathlib.Algebra.Ring.Int.Defs
import Apc8750.MemBlock.Moves

namespace Apc8750.MemBlock
open State

/-- The files of each task are counted, and none is of the kernel. -/
structure TasksOk (s : State) : Prop where
  tasks : (s.mbtiList.map MbTaskInfo.tgid).Nodup
  files : (s.filps.map Filp.fd).Nodup
  counts : ∀ m ∈ s.mbtiList, m.count = s.filps.countP (fun f => f.privateData == m.tgid)
  known : ∀ f ∈ s.filps, ∃ m ∈ s.mbtiList, m.tgid = f.privateData
  user : ∀ f ∈ s.filps, f.privateData ≠ mbDefTgid

theorem SameTasks.tasksOk (h : SameTasks s t) (hs : TasksOk s) : TasksOk t := by
  obtain ⟨h₁,h₂,h₃,h₄,h₅⟩ := hs
  rw [← h.mbtiList,← h.filps] at *
  exact ⟨h₁,h₂,h₃,h₄,h₅⟩

theorem TasksOk.addFile (hs : TasksOk s) (hfd : ∀ g ∈ s.filps, g.fd ≠ f.fd)
    (hu : f.privateData ≠ mbDefTgid) (hfil : t.filps = s.filps ++ [f])
    (htasks : (t.mbtiList.map MbTaskInfo.tgid).Nodup)
    (hcount : ∀ m ∈ t.mbtiList, m.count = (s.filps.countP (fun g => g.privateData == m.tgid) : Int) +
      if f.privateData = m.tgid then 1 else 0)
    (hknown : ∀ g ∈ t.filps, ∃ m ∈ t.mbtiList, m.tgid = g.privateData) : TasksOk t := by
  refine ⟨htasks,?_,?_,hknown,?_⟩
  · rw [hfil,List.map_append,List.nodup_append]
    refine ⟨hs.files,by simp,?_⟩
    intro x hx y hy
    obtain ⟨g,hg,rfl⟩ := List.mem_map.mp hx
    rw [List.mem_singleton.mp hy]
    exact hfd g hg
  · intro m hm
    rw [hcount m hm,hfil]
    simp only [List.countP_append,List.countP_singleton,beq_iff_eq]
    split <;> simp
  intro g hg
  rw [hfil] at hg
  rcases List.mem_append.mp hg with hg | hg
  · exact hs.user g hg
  · rw [List.mem_singleton.mp hg]
    exact hu

theorem TasksOk.open (hs : TasksOk s) (hu : tgid ≠ mbDefTgid)
    (h : mbOpen s fd tgid name slab = (r,t)) :
    TasksOk t ∧ ∀ f ∈ s.filps, f ∈ t.filps := by
  unfold mbOpen at h
  split at h
  · cases h; exact ⟨hs,fun _ hf => hf⟩
  rename_i hfd
  have hfd : ∀ g ∈ s.filps, g.fd ≠ fd := by simpa using hfd
  split at h
  · rename_i hold
    obtain ⟨m,hm,ht⟩ := List.any_eq_true.mp hold
    have ht := beq_iff_eq.mp ht
    cases h
    refine ⟨hs.addFile (f := ⟨fd,tgid⟩) hfd hu rfl ?_ ?_ ?_,fun f => List.mem_append_left _⟩
    · rw [Keyed.map_key_modify]
      · exact hs.tasks
      · exact fun _ => rfl
    · intro x hx
      rcases Keyed.mem_modify hx with ⟨hx,hne⟩ | ⟨y,hy,hk,rfl⟩
      · rw [hs.counts x hx,if_neg (Ne.symm hne),Int.add_zero]
      · rw [if_pos hk.symm,hs.counts y hy]
    intro g hg
    obtain ⟨x,hx,hxt⟩ : ∃ x ∈ s.mbtiList, x.tgid = g.privateData := by
      rcases List.mem_append.mp hg with hg | hg
      · exact hs.known g hg
      · rw [List.mem_singleton.mp hg]
        exact ⟨m,hm,ht⟩
    refine ⟨_,List.mem_map_of_mem hx,?_⟩
    split <;> exact hxt
  · rename_i hnew
    have hnew : ∀ m ∈ s.mbtiList, m.tgid ≠ tgid := by simpa using hnew
    split at h
    · cases h
      refine ⟨hs.addFile (f := ⟨fd,tgid⟩) hfd hu rfl ?_ ?_ ?_,fun f => List.mem_append_left _⟩
      · rw [List.map_append,List.nodup_append]
        refine ⟨hs.tasks,by simp,?_⟩
        intro x hx y hy
        obtain ⟨m,hm,rfl⟩ := List.mem_map.mp hx
        rw [List.mem_singleton.mp hy]
        exact hnew m hm
      · intro x hx
        rcases List.mem_append.mp hx with hx | hx
        · rw [hs.counts x hx,if_neg (Ne.symm (hnew x hx)),Int.add_zero]
        rw [List.mem_singleton.mp hx]
        have hnone : s.filps.countP (fun g => g.privateData == tgid) = 0 := by
          simp only [List.countP_eq_zero,beq_iff_eq]
          intro g hg he
          obtain ⟨m,hm,hmt⟩ := hs.known g hg
          exact hnew m hm (hmt.trans he)
        simp [hnone]
      · intro g hg
        rcases List.mem_append.mp hg with hg | hg
        · obtain ⟨m,hm,hmt⟩ := hs.known g hg
          exact ⟨m,List.mem_append_left _ hm,hmt⟩
        · rw [List.mem_singleton.mp hg]
          exact ⟨_,List.mem_append_cons_self,rfl⟩
    · cases h; exact ⟨hs,fun _ hf => hf⟩

section
variable (hs : TasksOk s) (hf : f ∈ s.filps)
include hs hf

theorem TasksOk.closing (k : Nat) :
    s.filps.countP (fun g => g.privateData == k) =
      (Keyed.remove Filp.fd f.fd s.filps).countP (fun g => g.privateData == k) +
        if f.privateData = k then 1 else 0 := by
  simpa using Keyed.countP_remove hs.files hf (fun g => g.privateData == k)

theorem TasksOk.left (hm : m ∈ s.mbtiList) (ht : m.tgid = f.privateData) :
    m.count = 1 ↔ ∀ g ∈ Keyed.remove Filp.fd f.fd s.filps, g.privateData ≠ m.tgid := by
  have hcount := hs.counts m hm
  rw [hs.closing hf,if_pos ht.symm] at hcount
  have hzero := List.countP_eq_zero (p := fun g : Filp => g.privateData == m.tgid)
    (l := Keyed.remove Filp.fd f.fd s.filps)
  simp only [beq_iff_eq] at hzero
  rw [← hzero]
  omega

theorem TasksOk.release (hm : m ∈ s.mbtiList)
    (ht : m.tgid = f.privateData) (hfil : t.filps = Keyed.remove Filp.fd f.fd s.filps)
    (hmbti : (m.count ≠ 1 ∧ t.mbtiList = Keyed.modify MbTaskInfo.tgid m.tgid
        (fun t => { t with count := t.count - 1 }) s.mbtiList) ∨
      (m.count = 1 ∧ t.mbtiList = Keyed.remove MbTaskInfo.tgid m.tgid s.mbtiList)) :
    TasksOk t := by
  have hfiles : (t.filps.map Filp.fd).Nodup := hfil ▸ hs.files.sublist (List.filter_sublist.map _)
  have huser : ∀ g ∈ t.filps, g.privateData ≠ mbDefTgid := fun g hg =>
    hs.user g (List.mem_of_mem_filter (hfil ▸ hg))
  have hold : ∀ x ∈ s.mbtiList, x.tgid ≠ m.tgid →
      x.count = t.filps.countP (fun g => g.privateData == x.tgid) := by
    intro x hx hne
    rw [hs.counts x hx,hs.closing hf,if_neg (fun he => hne (he.symm.trans ht.symm)),hfil]
    rfl
  rcases hmbti with ⟨_,hlist⟩ | ⟨hlast,hlist⟩
  · refine ⟨?_,hfiles,?_,?_,huser⟩
    · rw [hlist,Keyed.map_key_modify]
      · exact hs.tasks
      · exact fun _ => rfl
    · intro x hx
      rw [hlist] at hx
      rcases Keyed.mem_modify hx with ⟨hx,hne⟩ | ⟨y,hy,hk,rfl⟩
      · exact hold x hx hne
      have hcount := hs.counts y hy
      rw [hs.closing hf,if_pos (ht.symm.trans hk.symm),← hfil] at hcount
      simp only
      omega
    · intro g hg
      obtain ⟨x,hx,hxt⟩ := hs.known g (List.mem_of_mem_filter (hfil ▸ hg))
      rw [hlist]
      refine ⟨_,List.mem_map_of_mem hx,?_⟩
      split <;> exact hxt
  · refine ⟨hlist ▸ hs.tasks.sublist (List.filter_sublist.map _),hfiles,?_,?_,huser⟩
    · intro x hx
      rw [hlist] at hx
      obtain ⟨hx,hne⟩ := List.mem_filter.mp hx
      exact hold x hx (by simpa using hne)
    intro g hg
    obtain ⟨x,hx,hxt⟩ := hs.known g (List.mem_of_mem_filter (hfil ▸ hg))
    have hne := (hs.left hf hm ht).mp hlast g (hfil ▸ hg)
    exact ⟨x,hlist ▸ List.mem_filter.mpr ⟨hx,by simpa [hxt] using hne⟩,hxt⟩

end

/-- How many more records the kernel holds, going by what the call returned. -/
def kernelTook : Op × Reply → Int
  | (.doAlloc .., r) => if r.ret ≠ 0 then 1 else 0
  | (.doGet .., r) => if r.ret = 0 then 1 else 0
  | (.doFree .., r) | (.doPut .., r) => if r.ret = 0 then -1 else 0
  | _ => 0

/-- Its `mb_alloc` and `mb_get` that succeeded, less its `mb_free` and `mb_put`. -/
def kernelHolds (trace : List (Op × Reply)) : Int := (trace.map kernelTook).sum

/-- The kernel calls under `MB_DEF_TGID` and no task does, only the creator frees a block, and the
last close of a task finds no one else on its blocks. -/
def Fair (s : State) : Op → Prop
  | .doAlloc _ tgid _ _ | .doGet _ tgid _ _ | .doPut _ tgid _ => tgid = mbDefTgid
  | .doFree addr tgid _ => tgid = mbDefTgid ∧ CallerCreated s addr tgid
  | .open _ tgid _ _ => tgid ≠ mbDefTgid
  | .ioctl fd _ cmd => ∀ f ∈ s.filps, f.fd = fd → FreesOwnBlocks s f.privateData cmd
  | .release fd => AtLastClose s fd (Unshared s.blocks)
  | .mmap .. => True

/-- The kernel has the records of its calls, the others are of tasks with open files. -/
structure Balanced (trace : List (Op × Reply)) (s : State) : Prop where
  driver : DriverOk s
  tasks : TasksOk s
  used : Used s.blocks
  kernel : (held mbDefTgid s.blocks : Int) = kernelHolds trace
  opened : ∀ k, k ≠ mbDefTgid → (∀ f ∈ s.filps, f.privateData ≠ k) → held k s.blocks = 0

theorem kernelHolds_append (trace : List (Op × Reply)) (e : Op × Reply) :
    kernelHolds (trace ++ [e]) = kernelHolds trace + kernelTook e := by
  simp [kernelHolds]

section
variable (hs : Balanced trace s)
include hs

theorem Balanced.kernelCall (ht : DriverOk t) (hsame : SameTasks s t)
    (hm : Moves mbDefTgid s.blocks t.blocks (kernelTook e)) : Balanced (trace ++ [e]) t := by
  refine ⟨ht,hsame.tasksOk hs.tasks,hm.used hs.used,?_,?_⟩
  · rw [kernelHolds_append,hm.own,hs.kernel]
  · intro k hk hnone
    rw [hm.others k hk]
    exact hs.opened k hk (hsame.filps ▸ hnone)

theorem Balanced.userCall (ht : DriverOk t) (hsame : SameTasks s t)
    (hf : f ∈ s.filps) (hm : Moves f.privateData s.blocks t.blocks i) (he : kernelTook e = 0) :
    Balanced (trace ++ [e]) t := by
  refine ⟨ht,hsame.tasksOk hs.tasks,hm.used hs.used,?_,?_⟩
  · rw [kernelHolds_append,he,Int.add_zero,hm.others _ (hs.tasks.user f hf).symm,hs.kernel]
  intro k hk hnone
  rw [hsame.filps] at hnone
  rw [hm.others k (hnone f hf).symm]
  exact hs.opened k hk hnone

theorem Balanced.idle (he : kernelTook e = 0) : Balanced (trace ++ [e]) s :=
  ⟨hs.driver,hs.tasks,hs.used,by rw [kernelHolds_append,he,Int.add_zero,hs.kernel],hs.opened⟩

theorem Balanced.release (hg : Tidy s (.release fd))
    (hfair : Fair s (.release fd)) (h : mbRelease cfg s fd = some (r,t)) :
    Balanced (trace ++ [(.release fd, ⟨r,0⟩)]) t := by
  obtain ⟨_,w,hw,hok,hcase⟩ := mbRelease_cases hs.driver cfg fd
  rw [hw] at h
  cases h
  rcases hcase with ⟨rfl,_⟩ | ⟨f,hf,rfl,hfil,⟨_,_,hno⟩ | ⟨m,hm,ht,hcase⟩⟩
  · exact hs.idle rfl
  · obtain ⟨m,hm,ht⟩ := hs.tasks.known f hf
    exact absurd ht (hno m hm)
  have htasks : TasksOk t := hs.tasks.release hf hm ht hfil
    (hcase.imp (fun h => ⟨h.1,h.2.2⟩) (fun h => ⟨h.1,h.2.2⟩))
  have hleft := hs.tasks.left hf hm ht
  rw [← hfil] at hleft
  have hother : ∀ k, k ≠ m.tgid → (∀ g ∈ t.filps, g.privateData ≠ k) →
      ∀ g ∈ s.filps, g.privateData ≠ k := by
    intro k hk hnone g hg
    by_cases hfd : g.fd = f.fd
    · rw [List.inj_on_of_nodup_map hs.tasks.files hg hf hfd,← ht]
      exact hk.symm
    · exact hnone g (hfil ▸ List.mem_filter.mpr ⟨hg,by simpa using hfd⟩)
  rcases hcase with ⟨hmore,he,_⟩ | ⟨hlast,he,_⟩
  · refine ⟨hok,htasks,he ▸ hs.used,?_,?_⟩
    · rw [kernelHolds_append,he,hs.kernel]
      simp [kernelTook]
    intro k hk hnone
    rw [he]
    refine hs.opened k hk (hother k ?_ hnone)
    rintro rfl
    exact hmore (hleft.mpr hnone)
  refine ⟨hok,htasks,?_,?_,?_⟩
  · rw [he]
    exact .settle hs.driver.records.each (hg f hf rfl m hm ht hlast)
  · rw [kernelHolds_append,he,held_settle (ht ▸ (hs.tasks.user f hf).symm),hs.kernel]
    simp [kernelTook]
  intro k hk hnone
  rw [he]
  by_cases hkm : k = m.tgid
  · rw [hkm]
    exact held_settle_own hs.driver.records (hfair f hf rfl m hm ht hlast)
  · rw [held_settle hkm]
    exact hs.opened k hk (hother k hkm hnone)

theorem Balanced.step (hg : Tidy s op) (hfair : Fair s op)
    (h : step cfg s op = some (r,t)) : Balanced (trace ++ [(op,r)]) t := by
  have hok := hs.driver.step h
  cases op with
  | doAlloc size tgid name o =>
    cases h
    cases hfair
    have hm := Moves.doAlloc hs.driver
      (Prod.mk.eta (p := mbDoAlloc cfg s size mbDefTgid name o)).symm
    refine hs.kernelCall hok (mbDoAlloc_cases hs.driver Prod.mk.eta.symm).2.1 ?_
    simpa only [kernelTook,ne_eq,Int.natCast_eq_zero] using hm
  | doGet addr tgid name slab =>
    cases h
    cases hfair
    exact hs.kernelCall hok (mbDoGet_cases hs.driver Prod.mk.eta.symm).2.1
      (.doGet hs.driver Prod.mk.eta.symm)
  | doFree addr tgid name =>
    obtain ⟨⟨ret,w⟩,hw,h⟩ := Option.map_eq_some_iff.mp h
    cases h
    obtain ⟨rfl,hown⟩ := hfair
    obtain ⟨k,hk,hkt⟩ := Moves.doFree hs.driver hw
    rw [hkt hown] at hk
    exact hs.kernelCall hok (mbDoFree_cases hs.driver hw).2.1 hk
  | doPut addr tgid name =>
    obtain ⟨⟨ret,w⟩,hw,h⟩ := Option.map_eq_some_iff.mp h
    cases h
    cases hfair
    exact hs.kernelCall hok (mbDoPut_cases hs.driver hw).2.1 (.doPut hs.driver hw)
  | «open» fd tgid name slab =>
    cases h
    obtain ⟨htasks,hkeep⟩ := hs.tasks.open hfair Prod.mk.eta.symm
    have he := (mbOpen_blocks (Prod.mk.eta (p := mbOpen s fd tgid name slab)).symm).1
    refine ⟨hok,htasks,he ▸ hs.used,?_,?_⟩
    · rw [kernelHolds_append,he,hs.kernel]
      simp [kernelTook]
    · intro k hk hnone
      rw [he]
      exact hs.opened k hk (fun f hf => hnone f (hkeep f hf))
  | mmap fd vma slab remap =>
    cases h
    have hsame := (mbMmap_cases hs.driver (Prod.mk.eta (p := mbMmap s fd vma slab remap)).symm).2.1
    rcases Moves.mmap hs.driver (Prod.mk.eta (p := mbMmap s fd vma slab remap)).symm with
      he | ⟨f,hf,_,hm⟩
    · rw [he]
      exact hs.idle rfl
    · exact hs.userCall hok hsame hf hm rfl
  | ioctl fd cur cmd =>
    simp only [MemBlock.step,mbIoctl] at h
    split at h
    · cases h; exact hs.idle rfl
    rename_i f hf
    have hmem := List.mem_of_find?_eq_some hf
    have hfd := Keyed.find_key hf
    obtain ⟨hsame,w,k,i,j,h₁,h₂,hown⟩ := Moves.command hs.driver (hg f hmem hfd) h
    rw [hown (hfair f hmem hfd)] at h₂
    exact hs.userCall hok hsame hmem (h₁.trans h₂) rfl
  | release fd =>
    obtain ⟨⟨ret,w⟩,hw,h⟩ := Option.map_eq_some_iff.mp h
    cases h
    exact hs.release hg hfair hw

end

theorem probeBind_tasks : SameTasks s (probeBind s bound p).2 := by
  unfold probeBind combindMba
  repeat' first | split | exact ⟨rfl,rfl⟩

theorem probeRound_tasks : SameTasks s (probeRound cfg s bound o).2 := by
  unfold probeRound
  generalize probePages cfg s = pages
  split
  · exact mbAllocMba_tasks (by assumption)
  rename_i h
  split
  · exact mbAllocMba_tasks h
  · rename_i w _ a _
    have hmark : SameTasks w (markStatic w a mbDefTgid) := ⟨rfl,rfl⟩
    exact ((mbAllocMba_tasks h).trans hmark).trans probeBind_tasks

theorem probeLoop_tasks (h : probeLoop cfg s bound os = some t) : SameTasks s t := by
  induction os generalizing s bound with
  | nil =>
    unfold probeLoop at h
    split at h <;> cases h
    exact .refl _
  | cons o os ih =>
    unfold probeLoop at h
    split at h
    · exact probeRound_tasks.trans (ih h)
    · cases h
      exact .refl _

theorem mbProbe_balanced (h : mbProbe cfg os = some s) : Balanced [] s := by
  have hnil := (mbProbe_ok h).2
  have hdriver := mbProbe_driverOk h
  obtain ⟨w,hw,rfl⟩ := Option.map_eq_some_iff.mp h
  obtain ⟨hmbti,hfilps⟩ := probeLoop_tasks hw
  refine ⟨hdriver,?_,by simp [Used,hnil],by simp [hnil,held,kernelHolds],by simp [hnil,held]⟩
  refine ⟨?_,?_,?_,?_,?_⟩ <;>
    simp [mbUpdateMbah,hmbti,hfilps,emptyHost]

theorem Balanced.noBlocks (hs : Balanced trace s) (hclosed : s.filps = [])
    (hkernel : kernelHolds trace = 0) : s.blocks = [] := by
  have hzero : ∀ k, held k s.blocks = 0 := by
    intro k
    by_cases hk : k = mbDefTgid
    · have := hs.kernel
      rw [hkernel] at this
      rw [hk]
      omega
    · exact hs.opened k hk (by simp [hclosed])
  by_contra hne
  obtain ⟨b,hb⟩ := List.exists_mem_of_ne_nil _ hne
  obtain ⟨u,hu⟩ := List.exists_mem_of_ne_nil _ (hs.used b hb)
  exact held_eq_zero.mp (hzero u.tgid) b hb u hu rfl

/-- With `Tidy` callers no block is left without a user; with `Fair` ones all areas are free in the
end. -/
theorem no_block_leaks (h : mbProbe cfg os = some s) :
    (∀ trace t, Runs.Run (step cfg) Tidy s trace t → ∀ b ∈ t.blocks, b.count ≠ 0) ∧
      ∀ trace t, Runs.Run (step cfg) (fun s op => Tidy s op ∧ Fair s op) s trace t →
        t.filps = [] → kernelHolds trace = 0 →
        (∀ a ∈ t.mbaList, a.isStatic = true → a.totFreePages = a.pages) ∧
          t.totFreePages = t.totPages := by
  have h₀ := mbProbe_balanced h
  refine ⟨?_, ?_⟩
  · intro trace t hrun b hb
    have hinv : DriverOk t ∧ Used t.blocks :=
      hrun.invariant (I := fun s => DriverOk s ∧ Used s.blocks) ⟨h₀.driver, h₀.used⟩
        (fun hi hg hstep => ⟨hi.1.step hstep, hi.2.step hi.1 hg hstep⟩)
    rw [(hinv.1.records.each b hb).count]
    simpa using hinv.2 b hb
  intro trace t hrun hclosed hkernel
  have hbal : Balanced trace t :=
    hrun.trace_invariant h₀ (fun hi hg hstep => hi.step hg.1 hg.2 hstep)
  have hnil := List.flatMap_eq_nil_iff.mp (hbal.noBlocks hclosed hkernel)
  have hacc := hbal.driver.host.accounted
  have hfree : ∀ a ∈ t.mbaList, a.totFreePages = a.pages := by
    intro a ha
    simpa [hnil a ha] using (hacc.areas a ha).totFree
  refine ⟨fun a ha _ => hfree a ha, ?_⟩
  rw [hacc.totFree, hacc.totPages, List.map_congr_left hfree]

instance (tgid : Nat) : (cmd : Cmd) → Decidable (Shared s tgid cmd)
  | .unmap value | .free value => inferInstanceAs (Decidable (∀ b ∈ s.blocks,
      b.mbuList.length = 1 → ∀ u ∈ b.mbuList, ¬ (u.tgid = tgid ∧ u.addr = value ∧ u.size ≠ 0)))
  | .malloc .. | .mbsize _ | .maxAvailableSize | .get .. | .put _ | .userToVirt _
  | .userToPhys _ | .prefetch .. | .staticSize | .mbUserCount _ | .forceReset =>
    inferInstanceAs (Decidable True)

instance (tgid : Nat) : (cmd : Cmd) → Decidable (FreesOwnBlocks s tgid cmd)
  | .free value => inferInstanceAs (Decidable (∀ b ∈ s.blocks,
      (b.phys = value ∨ ∃ v ∈ b.mbuList, v.tgid = tgid ∧ v.addr = value) →
      (∃ v ∈ b.mbuList, v.tgid = tgid) → ∀ u ∈ b.mbuList, b.creator = some u.ptr → u.tgid = tgid))
  | .malloc .. | .unmap _ | .mbsize _ | .maxAvailableSize | .get .. | .put _ | .userToVirt _
  | .userToPhys _ | .prefetch .. | .staticSize | .mbUserCount _ | .forceReset =>
    inferInstanceAs (Decidable True)

instance (fd : Nat) (P : Nat → Prop) [DecidablePred P] : Decidable (AtLastClose s fd P) :=
  inferInstanceAs (Decidable (∀ f ∈ s.filps, f.fd = fd → ∀ m ∈ s.mbtiList,
    m.tgid = f.privateData → m.count = 1 → P m.tgid))

instance : DecidablePred (HeldByOthers l) := fun tgid =>
  inferInstanceAs (Decidable (∀ b ∈ l, b.creator = none → ∃ u ∈ b.mbuList, u.tgid ≠ tgid))

instance : DecidablePred (Unshared l) := fun tgid =>
  inferInstanceAs (Decidable (∀ b ∈ l, ∀ u ∈ b.mbuList, b.creator = some u.ptr → u.tgid = tgid →
    ∀ v ∈ b.mbuList, v.tgid = tgid))

instance : (op : Op) → Decidable (Tidy s op)
  | .ioctl fd _ cmd => inferInstanceAs
      (Decidable (∀ f ∈ s.filps, f.fd = fd → Shared s f.privateData cmd))
  | .release fd => inferInstanceAs (Decidable (AtLastClose s fd (HeldByOthers s.blocks)))
  | .doAlloc .. | .doFree .. | .doGet .. | .doPut .. | .open .. | .mmap .. =>
    inferInstanceAs (Decidable True)

instance : (op : Op) → Decidable (Fair s op)
  | .doAlloc _ tgid _ _ | .doGet _ tgid _ _ | .doPut _ tgid _ =>
    inferInstanceAs (Decidable (tgid = mbDefTgid))
  | .doFree addr tgid _ => inferInstanceAs (Decidable (tgid = mbDefTgid ∧ ∀ b ∈ s.blocks,
      b.phys = addr → (∃ v ∈ b.mbuList, v.tgid = tgid) →
      ∀ u ∈ b.mbuList, b.creator = some u.ptr → u.tgid = tgid))
  | .open _ tgid _ _ => inferInstanceAs (Decidable (tgid ≠ mbDefTgid))
  | .ioctl fd _ cmd => inferInstanceAs
      (Decidable (∀ f ∈ s.filps, f.fd = fd → FreesOwnBlocks s f.privateData cmd))
  | .release fd => inferInstanceAs (Decidable (AtLastClose s fd (Unshared s.blocks)))
  | .mmap .. => inferInstanceAs (Decidable True)

def fairOps : List Op := smallOps ++
  [.doGet 2105344 0 (some "codec") (some 24), .doFree 2105344 0 (some "codec"),
    .doPut 2105344 0 (some "codec"), .doFree 4194304 0 (some "codec"),
    .ioctl 3 7 (.malloc 4096 ⟨some 25, none, none, some 33⟩), .release 3]

theorem no_block_leaks_small : ∃ s trace t, mbProbe smallConfig smallProbe = some s ∧
    Runs.Run (step smallConfig) (fun s op => Tidy s op ∧ Fair s op) s trace t ∧
    trace.length = 12 ∧ t.mbaList.length = 1 ∧
    ∀ a ∈ t.mbaList, a.isStatic = true → a.totFreePages = a.pages := by
  have h : ((mbProbe smallConfig smallProbe).bind (fun s => Runs.exec (step smallConfig)
      (fun s op => decide (Tidy s op ∧ Fair s op)) s [] fairOps)).map
      (fun r => (r.1.length, r.2.mbaList.length, r.2.filps.length, kernelHolds r.1)) =
      some (12, 1, 0, 0) := by decide +kernel
  obtain ⟨⟨trace, t⟩, hrun, hend⟩ := Option.map_eq_some_iff.mp h
  obtain ⟨s, hprobe, hexec⟩ := Option.bind_eq_some_iff.mp hrun
  simp only [Prod.mk.injEq, List.length_eq_zero_iff] at hend
  have hrun : Runs.Run (step smallConfig) (fun s op => Tidy s op ∧ Fair s op) s trace t :=
    Runs.Run.start.exec (fun _ _ hg => of_decide_eq_true hg) hexec
  exact ⟨s, trace, t, hprobe, hrun, hend.1, hend.2.1,
    ((no_block_leaks hprobe).2 trace t hrun hend.2.2.1 hend.2.2.2).1⟩

def leakOps : List Op :=
  [.open 3 7 "player" true,
    .ioctl 3 7 (.malloc 8192 ⟨some 20, none, none, some 30⟩),
    .mmap 3 ⟨65536, 73728, 512⟩ (some 21) true,
    .ioctl 3 7 (.free 2097152), .ioctl 3 7 (.unmap 65536), .release 3]

/-- Each call succeeds, and the block stays on the list with a use count of zero. -/
theorem unmapped_block_leaks : ∃ trace s, Reached smallConfig trace s ∧
    (∀ e ∈ trace, e.2.ret = 0) ∧ s.filps = [] ∧ kernelHolds trace = 0 ∧
    (∃ b ∈ s.blocks, b.count = 0) ∧
    ∃ a ∈ s.mbaList, a.isStatic = true ∧ a.totFreePages + 2 = a.pages := by
  have h : (after smallConfig smallProbe leakOps).map (fun r =>
      (decide (∀ e ∈ r.1, e.2.ret = 0), r.2.filps, kernelHolds r.1,
        decide (∃ b ∈ r.2.blocks, b.count = 0),
        decide (∃ a ∈ r.2.mbaList, a.isStatic = true ∧ a.totFreePages + 2 = a.pages))) =
      some (true, [], 0, true, true) := by decide +kernel
  obtain ⟨⟨trace, s⟩, hrun, hend⟩ := Option.map_eq_some_iff.mp h
  simp only [Prod.mk.injEq, decide_eq_true_eq] at hend
  exact ⟨trace, s, .of_after hrun, hend⟩

end Apc8750.MemBlock
