import Apc8750.MemBlock.Probe
import Apc8750.MemBlock.Release

namespace Apc8750.MemBlock
open State

theorem mbOpen_blocks (h : mbOpen s fd tgid name slab = (r,t)) :
    t.blocks = s.blocks ∧ (DriverOk s → DriverOk t) := by
  unfold mbOpen at h
  repeat' first | split at h | (cases h; first | exact ⟨rfl,id⟩ | exact ⟨rfl,fun hs => hs.tasks⟩)

theorem blocks_markStatic : (markStatic s a tgid).blocks = s.blocks :=
  blocks_retag a.ptr tgid (s.totStaticPages + a.pages) true

theorem DriverOk.prefetchMba (hs : DriverOk s) : DriverOk (prefetchMba cur s pages o).2 ∧
    SameTasks s (prefetchMba cur s pages o).2 ∧
    (prefetchMba cur s pages o).2.blocks = s.blocks := by
  unfold MemBlock.prefetchMba
  split
  · rename_i h
    exact ⟨hs.allocMba h,mbAllocMba_tasks h,blocks_mbAllocMba h⟩
  rename_i h
  have hs' := hs.allocMba h
  have ht := mbAllocMba_tasks h
  split
  · exact ⟨hs',ht,blocks_mbAllocMba h⟩
  · exact ⟨⟨hs'.host.markStatic,blocks_markStatic.symm ▸ hs'.records⟩,⟨ht.1,ht.2⟩,
      blocks_markStatic.trans (blocks_mbAllocMba h)⟩

theorem DriverOk.prefetchRound (hs : DriverOk v.host) (cur order : Nat)
    (o : Option Nat × Option Nat) :
    DriverOk (prefetchRound cur order v o).host ∧
      SameTasks v.host (prefetchRound cur order v o).host ∧
      (prefetchRound cur order v o).host.blocks = v.host.blocks := hs.prefetchMba

theorem DriverOk.prefetchLoop (hs : DriverOk v.host) (h : prefetchLoop cur value v os = some t) :
    DriverOk t ∧ SameTasks v.host t ∧ t.blocks = v.host.blocks := by
  induction os generalizing v with
  | nil =>
    unfold MemBlock.prefetchLoop at h
    split at h <;> cases h
    exact ⟨hs,.refl _,rfl⟩
  | cons o os ih =>
    unfold MemBlock.prefetchLoop at h
    split at h
    · obtain ⟨hs',ht',he'⟩ := hs.prefetchRound cur (prefetchOrder value v.fetchSize) o
      obtain ⟨hs'',ht'',he''⟩ := ih hs' h
      exact ⟨hs'',ht'.trans ht'',he''.trans he'⟩
    · cases h
      exact ⟨hs,.refl _,rfl⟩

theorem mbioPrefetch_cases (hs : DriverOk s) (h : mbioPrefetch cfg s cur value os = some t) :
    DriverOk t ∧ SameTasks s t ∧ t.blocks = s.blocks := by
  unfold mbioPrefetch at h
  split at h
  · exact DriverOk.prefetchLoop (v := ⟨0,0,s⟩) hs h
  · cases h
    exact ⟨hs,.refl _,rfl⟩

theorem forceReset_cases (hs : DriverOk s) (h : forceReset fuel s = some t) :
    DriverOk t ∧ SameTasks s t ∧ t.blocks = [] ∧ ∀ b ∈ s.blocks, b.mbuList = [] := by
  induction fuel generalizing s with
  | zero => cases h
  | succ fuel ih =>
    unfold MemBlock.forceReset at h
    cases hhead : s.blocks.head? with
    | none =>
      have hnil := List.head?_eq_none_iff.mp hhead
      simp only [hhead,Option.some.injEq] at h
      subst h
      refine ⟨⟨hs.host.toSizeOk.update,hs.records⟩,⟨rfl,rfl⟩,hnil,?_⟩
      simp [hnil]
    | some b =>
      simp only [hhead] at h
      obtain ⟨_,husers,h⟩ := Option.bind_eq_some_iff.mp h
      have hb : b ∈ s.blocks := List.mem_of_head? hhead
      have hnil : b.mbuList = [] := by
        unfold forceResetUsers at husers
        split at husers
        · assumption
        · cases husers
      have hok : BlockOk (cleared b) := ⟨by simp [cleared,hnil],by simp [cleared,hnil],
        by simp [cleared]⟩
      have hblocks := blocks_modifyMb (s := s) b.ptr cleared
      have hs' : DriverOk (s.modifyMb b.ptr cleared) := ⟨hs.host.modifyMb (fun _ => rfl),
        hblocks ▸ hs.records.modify hb hok rfl (List.Sublist.refl _)⟩
      have ht : SameTasks s (s.modifyMb b.ptr cleared) := ⟨rfl,rfl⟩
      have hmem : cleared b ∈ (s.modifyMb b.ptr cleared).blocks := hblocks ▸ mem_modify_self hb
      obtain ⟨hs₂,ht₂,_,he⟩ := hs'.freeMb hmem rfl Prod.mk.eta.symm
      obtain ⟨hs₃,ht₃,hnone,hall⟩ := ih hs₂ h
      refine ⟨hs₃,(ht.trans ht₂).trans ht₃,hnone,?_⟩
      intro c hc
      by_cases hcb : c.ptr = b.ptr
      · have hfind := hs.derefMb hc
        rw [hcb,hs.derefMb hb] at hfind
        exact Option.some.inj hfind ▸ hnil
      · refine hall c (he ▸ ?_)
        rw [hblocks]
        exact List.mem_filter.mpr ⟨List.mem_map.mpr ⟨c,hc,if_neg hcb⟩,by simpa [cleared] using hcb⟩

/-- The calls that contain `mb_do_free` or are `MBIO_FORCE_RESET`. -/
def freesCreators : Op → Bool
  | .doFree .. | .release _ | .ioctl _ _ (.free _) | .ioctl _ _ .forceReset => true
  | _ => false

inductive Edit (l : List MbStruct) : List MbStruct → Prop where
  | keep : Edit l l
  | create {m : List MbStruct} {b : MbStruct} (hp : m.Perm (b :: l)) : Edit l m
  | add (p : Nat) (u : MbUser) : Edit l (Keyed.modify MbStruct.ptr p (addRecord u) l)
  | drop {b : MbStruct} {u : MbUser} (hb : b ∈ l) (hne : b.creator ≠ some u.ptr) :
      Edit l (Keyed.modify MbStruct.ptr b.ptr (dropRecord u.ptr) l)
  | put {b : MbStruct} {u : MbUser} (hb : b ∈ l) (hone : b.mbuList = [u]) (hne : b.creator ≠ some u.ptr) :
      Edit l (Keyed.remove MbStruct.ptr b.ptr l)

inductive Take (l : List MbStruct) : List MbStruct → Prop where
  | disown (p q : Nat) : Take l (Keyed.modify MbStruct.ptr p (disown q) l)
  | free (p : Nat) : Take l (Keyed.remove MbStruct.ptr p l)
  | settle (tgid : Nat) : Take l (l.filterMap (settle tgid))
  | reset : Take l []

def Effect (frees : Bool) (l : List MbStruct) (t : State) : Prop :=
  ∃ m, RecordsOk m ∧ Edit l m ∧ (t.blocks = m ∨ frees = true ∧ Take m t.blocks)

theorem Effect.edit (ht : DriverOk t) (h : Edit l t.blocks) : Effect frees l t :=
  ⟨_,ht.records,h,.inl rfl⟩

theorem Effect.same (ht : DriverOk t) (he : t.blocks = l) : Effect frees l t := .edit ht (he ▸ .keep)

section
variable (hs : DriverOk s)
include hs

theorem mbDoAlloc_effect (h : mbDoAlloc cfg s size tgid name o = (r,t)) :
    DriverOk t ∧ Effect frees s.blocks t := by
  obtain ⟨ht,_,⟨_,he⟩ | ⟨b,v,_,_,_,_,hp⟩⟩ := mbDoAlloc_cases hs h
  · exact ⟨ht,.same ht he⟩
  · exact ⟨ht,.edit ht (.create hp)⟩

theorem mbDoGet_effect (h : mbDoGet s addr tgid name slab = (r,t)) :
    DriverOk t ∧ Effect frees s.blocks t := by
  obtain ⟨ht,_,⟨_,rfl⟩ | ⟨b,_,v,_,_,he⟩⟩ := mbDoGet_cases hs h
  · exact ⟨ht,.same ht rfl⟩
  · exact ⟨ht,.edit ht (he ▸ .add _ v)⟩

theorem mbDoPut_effect (h : mbDoPut s addr tgid name = some (r,t)) :
    DriverOk t ∧ Effect frees s.blocks t := by
  obtain ⟨ht,_,⟨_,rfl⟩ | ⟨b,hb,v,_,_,hne,_,⟨_,he⟩ | ⟨hone,he⟩⟩⟩ := mbDoPut_cases hs h
  · exact ⟨ht,.same ht rfl⟩
  · exact ⟨ht,.edit ht (he ▸ .drop hb hne)⟩
  · exact ⟨ht,.edit ht (he ▸ .put hb hone hne)⟩

theorem mbMmap_effect (h : mbMmap s fd vma slab remap = (r,t)) :
    DriverOk t ∧ Effect frees s.blocks t := by
  obtain ⟨ht,_,rfl | ⟨f,_,b,_,v,_,_,he⟩⟩ := mbMmap_cases hs h
  · exact ⟨ht,.same ht rfl⟩
  · exact ⟨ht,.edit ht (he ▸ .add _ v)⟩

theorem unlink_edit (hb : b ∈ s.blocks) (hu : u ∈ b.mbuList)
    (hne : b.creator ≠ some u.ptr) : Edit s.blocks (unlinkMbu s u.ptr b.ptr).blocks :=
  (hs.unlink hb hu hne).2 ▸ .drop hb hne

theorem freeUnmap_edit (h : mbioFreeUnmap s value tgid = some (size, phys, t)) :
    Edit s.blocks t.blocks := by
  rcases mbioFreeUnmap_cases hs h with ⟨rfl,_⟩ | ⟨b,hb,v,hv,_,_,_,hne,rfl,_⟩
  · exact .keep
  · exact unlink_edit hs hb hv hne

theorem mbDoFree_effect (h : mbDoFree s addr tgid name = some (r,t))
    (before : Edit l s.blocks) : DriverOk t ∧ Effect true l t := by
  obtain ⟨ht,_,⟨_,rfl,_⟩ | ⟨b,_,v,_,_,_,_,_,⟨_,he⟩ | ⟨_,he⟩⟩⟩ := mbDoFree_cases hs h
  · exact ⟨ht,.edit ht before⟩
  · exact ⟨ht,_,hs.records,before,.inr ⟨rfl,he ▸ .disown _ _⟩⟩
  · exact ⟨ht,_,hs.records,before,.inr ⟨rfl,he ▸ .free _⟩⟩

theorem command_effect (h : mbCommand cfg s tgid cur name cmd = some (r,t)) :
    DriverOk t ∧ Effect (freesCreators (.ioctl fd cur cmd)) s.blocks t := by
  cases cmd with
  | malloc value o =>
    simp only [mbCommand] at h
    split at h <;> cases h <;> exact mbDoAlloc_effect hs Prod.mk.eta.symm
  | free value =>
    obtain ⟨⟨size,phys,w⟩,hw,h⟩ := Option.bind_eq_some_iff.mp h
    obtain ⟨⟨ret,w'⟩,hf,h⟩ := Option.bind_eq_some_iff.mp h
    cases h
    exact mbDoFree_effect (mbioFreeUnmap_ok hs hw) hf (freeUnmap_edit hs hw)
  | unmap value =>
    obtain ⟨⟨ret,size,w⟩,hw,h⟩ := Option.map_eq_some_iff.mp h
    cases h
    rcases mbioUnmap_cases hs hw with rfl | ⟨b,hb,u,hu,_,_,_,hc,rfl⟩
    · exact ⟨hs,.same hs rfl⟩
    · have ht := (hs.unlink hb hu hc).1
      exact ⟨ht,.edit ht (unlink_edit hs hb hu hc)⟩
  | get value slab => cases h; exact mbDoGet_effect hs Prod.mk.eta.symm
  | put value =>
    obtain ⟨⟨ret,w⟩,hw,h⟩ := Option.map_eq_some_iff.mp h
    cases h
    exact mbDoPut_effect hs hw
  | prefetch value os =>
    obtain ⟨w,hw,h⟩ := Option.map_eq_some_iff.mp h
    cases h
    obtain ⟨ht,_,he⟩ := mbioPrefetch_cases hs hw
    exact ⟨ht,.same ht he⟩
  | forceReset =>
    obtain ⟨w,hw,h⟩ := Option.map_eq_some_iff.mp h
    cases h
    obtain ⟨ht,_,he,_⟩ := forceReset_cases hs hw
    exact ⟨ht,_,hs.records,.keep,.inr ⟨rfl,he ▸ .reset⟩⟩
  | mbsize value | mbUserCount value =>
    simp only [mbCommand] at h
    split at h <;> cases h <;> exact ⟨hs,.same hs rfl⟩
  | maxAvailableSize | userToVirt value | userToPhys value | staticSize =>
    cases h
    exact ⟨hs,.same hs rfl⟩

theorem step_effect (h : step cfg s op = some (r,t)) :
    DriverOk t ∧ Effect (freesCreators op) s.blocks t := by
  cases op with
  | doAlloc size tgid name o => cases h; exact mbDoAlloc_effect hs Prod.mk.eta.symm
  | doGet addr tgid name slab => cases h; exact mbDoGet_effect hs Prod.mk.eta.symm
  | «open» fd tgid name slab =>
    cases h
    obtain ⟨he,hok⟩ := mbOpen_blocks (Prod.mk.eta (p := mbOpen s fd tgid name slab)).symm
    exact ⟨hok hs,.same (hok hs) he⟩
  | mmap fd vma slab remap => cases h; exact mbMmap_effect hs Prod.mk.eta.symm
  | doFree addr tgid name =>
    obtain ⟨⟨ret,w⟩,hw,h⟩ := Option.map_eq_some_iff.mp h
    cases h
    exact mbDoFree_effect hs hw .keep
  | doPut addr tgid name =>
    obtain ⟨⟨ret,w⟩,hw,h⟩ := Option.map_eq_some_iff.mp h
    cases h
    exact mbDoPut_effect hs hw
  | release fd =>
    obtain ⟨_,w,hw,ht,hcase⟩ := mbRelease_cases hs cfg fd
    simp only [MemBlock.step,hw,Option.map_some,Option.some.injEq,Prod.mk.injEq] at h
    obtain ⟨_,rfl⟩ := h
    rcases hcase with ⟨rfl,_⟩ | ⟨f,_,_,_,⟨_,he,_⟩ | ⟨k,_,_,⟨_,he,_⟩ | ⟨_,he,_⟩⟩⟩
    · exact ⟨ht,.same ht rfl⟩
    · exact ⟨ht,.same ht he⟩
    · exact ⟨ht,.same ht he⟩
    · exact ⟨ht,_,hs.records,.keep,.inr ⟨rfl,he ▸ .settle _⟩⟩
  | ioctl fd cur cmd =>
    simp only [MemBlock.step,mbIoctl] at h
    split at h
    · cases h; exact ⟨hs,.same hs rfl⟩
    · exact command_effect hs h

theorem DriverOk.step (h : step cfg s op = some (r,t)) : DriverOk t :=
  (step_effect hs h).1

end

/-- A call that faults or does not return ends the run before it. -/
def Reached (cfg : Config) (trace : List (Op × Reply)) (s : State) : Prop :=
  ∃ os s₀, mbProbe cfg os = some s₀ ∧ Runs.Run (step cfg) (fun _ _ => True) s₀ trace s

theorem mbProbe_driverOk (h : mbProbe cfg os = some s) : DriverOk s := by
  obtain ⟨hs,hnil⟩ := mbProbe_ok h
  exact ⟨hs,hnil ▸ ⟨by simp,by simp,by simp⟩⟩

theorem Reached.driverOk (h : Reached cfg trace s) : DriverOk s := by
  obtain ⟨os,s₀,hprobe,hrun⟩ := h
  exact hrun.invariant (mbProbe_driverOk hprobe) (fun hs _ hstep => hs.step hstep)

def after (cfg : Config) (os : List (Option Nat × Option Nat)) (ops : List Op) :
    Option (List (Op × Reply) × State) :=
  (mbProbe cfg os).bind (fun s => Runs.exec (step cfg) (fun _ _ => true) s [] ops)

theorem Reached.of_after (h : after cfg os ops = some (trace,s)) : Reached cfg trace s := by
  obtain ⟨s₀,hprobe,hexec⟩ := Option.bind_eq_some_iff.mp h
  exact ⟨os,s₀,hprobe,Runs.Run.start.exec (fun _ _ _ => trivial) hexec⟩

end Apc8750.MemBlock
