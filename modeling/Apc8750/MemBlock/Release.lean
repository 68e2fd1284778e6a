import Apc8750.MemBlock.Effects

namespace Apc8750.MemBlock
open State

variable {s : State} {b : MbStruct} {tgid : Nat}

theorem dropUsers_frame (fuel : Nat) (b : MbStruct) :
    frame (dropUsers tgid fuel b) = frame b := by
  induction fuel generalizing b with
  | zero => rfl
  | succ fuel ih =>
    unfold dropUsers
    split
    · rfl
    · exact ih _

def Scan.state : Scan → State
  | .finished s => s
  | .rescan s => s

/-- Whether a record outlives the last close of the task `tgid`. -/
def keeps (tgid : Nat) (b : MbStruct) (u : MbUser) : Bool :=
  !(u.tgid == tgid && b.creator != some u.ptr)

/-- A block without the records the task `tgid` has on it, its own creator apart. -/
def stopped (tgid : Nat) (b : MbStruct) : MbStruct :=
  { b with
    mbuList := b.mbuList.filter (keeps tgid b)
    count := (b.mbuList.filter (keeps tgid b)).length }

/-- A block whose only record is that of its creator, the task `tgid`. -/
def recyclable (tgid : Nat) (b : MbStruct) : Bool :=
  match b.mbuList with
  | [u] => b.creator == some u.ptr && u.tgid == tgid
  | _ => false

/-- What the last close of the task `tgid` leaves of a block. -/
def settle (tgid : Nat) (b : MbStruct) : Option MbStruct :=
  if recyclable tgid (stopped tgid b) then none else some (stopped tgid b)

theorem dropUsers_eq (h : BlockOk b) (hn : (b.mbuList.map MbUser.ptr).Nodup) (fuel : Nat)
    (hf : b.mbuList.length ≤ fuel) : dropUsers tgid fuel b = stopped tgid b := by
  induction fuel generalizing b with
  | zero =>
    have hnil := List.eq_nil_of_length_eq_zero (Nat.le_zero.mp hf)
    have hc := h.count
    rw [hnil] at hc
    cases b
    simp_all [dropUsers,stopped]
  | succ fuel ih =>
    unfold dropUsers
    split
    · rename_i hnone
      have hall : b.mbuList.filter (keeps tgid b) = b.mbuList :=
        List.filter_eq_self.mpr (fun u hu => by
          rw [keeps,Bool.eq_false_iff.mpr (List.find?_eq_none.mp hnone u hu)]
          rfl)
      rw [stopped,hall,← h.count]
    rename_i u hu
    have hmem := List.mem_of_find?_eq_some hu
    have hstale := List.find?_some hu
    simp only [Bool.and_eq_true,beq_iff_eq,bne_iff_ne] at hstale
    have hlen := length_remove hn hmem
    have hstep := ih (b := dropRecord u.ptr b) (h.dropRecord hn hmem hstale.2)
      (hn.sublist (List.filter_sublist.map _)) (by simp only [dropRecord]; omega)
    refine hstep.trans ?_
    have hsame : (Keyed.remove MbUser.ptr u.ptr b.mbuList).filter (keeps tgid b) =
        b.mbuList.filter (keeps tgid b) := by
      rw [Keyed.remove,List.filter_filter]
      refine List.filter_congr (fun v hv => ?_)
      by_cases he : v.ptr = u.ptr
      · have hvu : v = u := by
          have h1 := Keyed.find_of_mem hn hv
          rw [he,Keyed.find_of_mem hn hmem] at h1
          exact (Option.some.inj h1).symm
        subst hvu
        simp [keeps,hstale.1,hstale.2]
      · simp [he]
    have hkeep : keeps tgid (dropRecord u.ptr b) = keeps tgid b := rfl
    simp only [stopped,hkeep]
    simp only [dropRecord,hsame]

theorem stopUsers_eq (h : RecordsOk l) (hb : b ∈ l) : stopUsers tgid b = stopped tgid b :=
  dropUsers_eq (h.each b hb) (h.mine hb) _ (Nat.le_refl _)

theorem stopped_stopped (tgid : Nat) (b : MbStruct) :
    stopped tgid (stopped tgid b) = stopped tgid b := by
  have hall : (stopped tgid b).mbuList.filter (keeps tgid (stopped tgid b)) =
      (stopped tgid b).mbuList :=
    List.filter_eq_self.mpr (fun u hu => (List.mem_filter.mp hu).2)
  rw [stopped,hall]
  rfl

theorem settle_stopped (tgid : Nat) (b : MbStruct) :
    settle tgid (stopped tgid b) = settle tgid b := by
  simp only [settle,stopped_stopped]

theorem BlockOk.stopped (h : BlockOk b) : BlockOk (stopped tgid b) := by
  refine ⟨rfl,fun u hu => h.back u (List.mem_of_mem_filter hu),?_⟩
  intro p hp
  obtain ⟨u,hu,rfl,haddr⟩ := h.creator p hp
  have hc : b.creator = some u.ptr := hp
  exact ⟨u,List.mem_filter.mpr ⟨hu,by simp [keeps,hc]⟩,rfl,haddr⟩

theorem recycles_eq (hs : DriverOk s) (hb : b ∈ s.blocks) : recycles s tgid b =
      some (if recyclable tgid b then b.mbuList.head? else none) := by
  have hok := hs.records.each b hb
  have hcount := hok.count
  unfold recycles recyclable
  split
  · rename_i hne
    match hl : b.mbuList with
    | [] => rfl
    | [u] =>
      rw [hl] at hcount
      exact absurd hcount hne
    | _ :: _ :: _ => rfl
  rename_i hone
  obtain ⟨u,hl⟩ : ∃ u, b.mbuList = [u] := List.length_eq_one_iff.mp (by omega)
  have hu : u ∈ b.mbuList := by simp [hl]
  cases hcr : b.creator with
  | none => simp [hl]
  | some p =>
    obtain ⟨v,hv,rfl,_⟩ := hok.creator p hcr
    rw [hl] at hv
    rw [List.mem_singleton.mp hv] at hcr ⊢
    simp only [hs.derefMbu hb hu,hl,Option.map_some,beq_self_eq_true,Bool.true_and,
      beq_iff_eq,List.head?_cons]

theorem mbFreeMb_length (hs : HostOk s) (h : mbFreeMb s p = (r,t)) :
    t.mbaList.length ≤ s.mbaList.length := by
  rcases mbFreeMb_cases hs h with ⟨rfl,_⟩ | ⟨a,_,c,_,_,_,_,⟨_,_,rfl⟩ | rfl⟩
  · exact Nat.le_refl _
  · exact List.length_filter_le _ _
  · exact Nat.le_of_eq (List.length_map _)

/-- What a pass of `mb_release` works off: areas to give up and blocks. -/
def weight (s : State) : Nat := s.mbaList.length + s.blocks.length

theorem mbDoFree_recycle (hs : DriverOk s) (hb : b ∈ s.blocks) (hr : recyclable tgid b = true)
    (name : String) : ∃ r t, mbDoFree s b.phys tgid (some name) = some (r,t) ∧ DriverOk t ∧
      SameTasks s t ∧ t.blocks = Keyed.remove MbStruct.ptr b.ptr s.blocks ∧
      weight t < weight s := by
  obtain ⟨u,hl,hcr,rfl⟩ : ∃ u, b.mbuList = [u] ∧ b.creator = some u.ptr ∧ u.tgid = tgid := by
    unfold recyclable at hr
    split at hr
    · rename_i u hl
      exact ⟨u,hl,by simpa using hr⟩
    · cases hr
  have hu : u ∈ b.mbuList := by simp [hl]
  obtain ⟨a,ha,hba⟩ := mem_blocks.mp hb
  have hfind := (mbFindMbu_creator_eq hs hb hu).trans hcr
  have heq := mbDoFree_found hs hb hu (hs.host.inArea ha hba).1 hfind name
  rw [if_neg (by simp [hl])] at heq
  obtain ⟨hs',he⟩ := hs.dropCreator hb hu
  obtain ⟨⟨r,t⟩,hfree⟩ : ∃ x, mbFreeMb (disownMb s u.ptr b.ptr) b.ptr = x := ⟨_,rfl⟩
  have hmem : disown u.ptr b ∈ (disownMb s u.ptr b.ptr).blocks := he ▸ mem_modify_self hb
  have hzero : (disown u.ptr b).count = 0 := by
    have hcount := (hs.records.each b hb).count
    rw [hl] at hcount
    simp [disown,dropRecord,hcount]
  obtain ⟨hs'',htasks,_,he'⟩ := hs'.freeMb hmem hzero hfree
  have hblocks : t.blocks = Keyed.remove MbStruct.ptr b.ptr s.blocks := by
    rw [he',he]
    exact Keyed.remove_modify (fun _ => rfl)
  refine ⟨r,t,by rw [heq,hfree],hs'',⟨htasks.1,htasks.2⟩,hblocks,?_⟩
  have hlen := mbFreeMb_length hs'.host hfree
  have hareas : (disownMb s u.ptr b.ptr).mbaList.length = s.mbaList.length := by
    simp [disownMb,listDelMbu,modifyMb,mapBlocks]
  obtain ⟨before,after,hsplit,_,hrem⟩ := Keyed.split hs.records.blocks hb
  unfold weight
  rw [hblocks,hrem,hsplit]
  simp only [List.length_append,List.length_cons]
  omega

/-- No block of `here` has anything left to do, or the pass has recycled something. -/
inductive Passed (tgid : Nat) (s : State) (here : MbStruct → Bool) : Scan → Prop where
  | finished {t : State} (ok : DriverOk t) (tasks : SameTasks s t)
      (areas : t.mbaList.map MbArea.ptr = s.mbaList.map MbArea.ptr)
      (blocks : t.blocks = s.blocks.map (fun b => if here b then stopped tgid b else b))
      (left : ∀ b ∈ t.blocks, here b = true → recyclable tgid b = false) :
      Passed tgid s here (.finished t)
  | rescan {t : State} (ok : DriverOk t) (tasks : SameTasks s t) (less : weight t < weight s)
      (blocks : t.blocks.filterMap (settle tgid) = s.blocks.filterMap (settle tgid)) :
      Passed tgid s here (.rescan t)

theorem Passed.ok (h : Passed tgid s here r) : DriverOk r.state := by
  cases h <;> assumption

theorem areas_modifyMb (p : Nat) (f : MbStruct → MbStruct) :
    (s.modifyMb p f).mbaList.map MbArea.ptr = s.mbaList.map MbArea.ptr := by
  simp [modifyMb,mapBlocks]

theorem weight_modifyMb (p : Nat) (f : MbStruct → MbStruct) :
    weight (s.modifyMb p f) = weight s := by
  rw [weight,blocks_modifyMb]
  simp [Keyed.modify,modifyMb,mapBlocks,weight]

theorem DriverOk.stop (hs : DriverOk s) (hb : b ∈ s.blocks) (tgid : Nat) :
    DriverOk (s.modifyMb b.ptr (stopUsers tgid)) ∧ (s.modifyMb b.ptr (stopUsers tgid)).blocks =
        Keyed.modify MbStruct.ptr b.ptr (stopped tgid) s.blocks := by
  obtain ⟨before,after,_,hmod,_⟩ := Keyed.split hs.records.blocks hb
  have he : (s.modifyMb b.ptr (stopUsers tgid)).blocks =
      Keyed.modify MbStruct.ptr b.ptr (stopped tgid) s.blocks := by
    rw [blocks_modifyMb,hmod,hmod,stopUsers_eq hs.records hb]
  refine ⟨⟨hs.host.modifyMb (fun b => dropUsers_frame _ b),?_⟩,he⟩
  rw [he]
  exact hs.records.modify hb (hs.records.each b hb).stopped rfl List.filter_sublist

theorem filterMap_settle_map (P : MbStruct → Prop) [DecidablePred P] (l : List MbStruct) :
    (l.map (fun b => if P b then stopped tgid b else b)).filterMap (settle tgid) =
      l.filterMap (settle tgid) := by
  rw [List.filterMap_map]
  congr 1
  funext b
  simp only [Function.comp_apply]
  split
  · exact settle_stopped tgid b
  · rfl

theorem mem_ptr_modify (hp : ∃ b ∈ l, b.ptr = p) :
    ∃ b ∈ Keyed.modify MbStruct.ptr q (stopped tgid) l, b.ptr = p := by
  obtain ⟨b,hb,rfl⟩ := hp
  refine ⟨_,List.mem_map_of_mem hb,?_⟩
  split <;> rfl

theorem scanMbs_passed (hs : DriverOk s) (tgid : Nat) (ps : List Nat)
    (hps : ∀ p ∈ ps, ∃ b ∈ s.blocks, b.ptr = p) :
    ∃ r, scanMbs tgid ps s = some r ∧ Passed tgid s (fun b => decide (b.ptr ∈ ps)) r := by
  induction ps generalizing s with
  | nil => exact ⟨_,rfl,.finished hs (.refl s) rfl (by simp) (by simp)⟩
  | cons p ps ih =>
    obtain ⟨b,hb,rfl⟩ := hps p List.mem_cons_self
    obtain ⟨hs',he⟩ := hs.stop hb tgid
    have hmem : stopped tgid b ∈ (s.modifyMb b.ptr (stopUsers tgid)).blocks :=
      he ▸ mem_modify_self hb
    have hderef : (s.modifyMb b.ptr (stopUsers tgid)).derefMb b.ptr = some (stopped tgid b) :=
      hs'.derefMb hmem
    have htasks : SameTasks s (s.modifyMb b.ptr (stopUsers tgid)) := ⟨rfl,rfl⟩
    have hweight := weight_modifyMb (s := s) b.ptr (stopUsers tgid)
    have hareas := areas_modifyMb (s := s) b.ptr (stopUsers tgid)
    unfold scanMbs
    simp only [hderef,recycles_eq hs' hmem]
    generalize s.modifyMb b.ptr (stopUsers tgid) = s' at *
    cases hrec : recyclable tgid (stopped tgid b) with
    | true =>
      obtain ⟨u,hl⟩ : ∃ u, (stopped tgid b).mbuList = [u] := by
        unfold recyclable at hrec
        split at hrec
        · rename_i u hl
          exact ⟨u,hl⟩
        · cases hrec
      obtain ⟨r,t,hfree,hok,hsame,hblocks,hless⟩ := mbDoFree_recycle hs' hmem hrec u.theUser
      simp only [↓reduceIte,hl,List.head?_cons,hfree,Option.map_some]
      refine ⟨_,rfl,.rescan hok (htasks.trans hsame) (hweight ▸ hless) ?_⟩
      obtain ⟨before,after,hsplit,_,hrem⟩ := Keyed.split hs'.records.blocks hmem
      have hgone : settle tgid (stopped tgid b) = none := by
        rw [settle,stopped_stopped,if_pos hrec]
      rw [← filterMap_settle_map (fun c => c.ptr = b.ptr) s.blocks,← Keyed.modify,← he,hblocks,
        hrem,hsplit]
      simp only [List.filterMap_append,List.filterMap_cons,hgone]
    | false =>
      obtain ⟨r,hscan,hpass⟩ := ih hs' (fun p hp => he ▸ mem_ptr_modify
        (hps p (List.mem_cons_of_mem _ hp)))
      simp only [Bool.false_eq_true,↓reduceIte]
      refine ⟨r,hscan,?_⟩
      cases hpass with
      | finished ok tasks areas blocks left =>
        refine .finished ok (htasks.trans tasks) (areas.trans hareas) ?_ ?_
        · rw [blocks,he,Keyed.modify,List.map_map]
          refine List.map_congr_left (fun c _ => ?_)
          by_cases hc : c.ptr = b.ptr
          · simp [hc,stopped_stopped,show (stopped tgid c).ptr = c.ptr from rfl]
          · simp [hc]
        intro c hc hin
        rcases List.mem_cons.mp (of_decide_eq_true hin) with hcb | hin
        · rw [blocks] at hc
          obtain ⟨d,hd,rfl⟩ := List.mem_map.mp hc
          have hdb : d = stopped tgid b := by
            have hptr : d.ptr = (stopped tgid b).ptr := by
              split at hcb <;> exact hcb
            have hfind := hs'.derefMb hd
            rw [hptr,hs'.derefMb hmem] at hfind
            exact (Option.some.inj hfind).symm
          subst hdb
          split
          · rw [stopped_stopped]
            exact hrec
          · exact hrec
        · exact left c hc (decide_eq_true hin)
      | rescan ok tasks less blocks =>
        refine .rescan ok (htasks.trans tasks) (hweight ▸ less) ?_
        rw [blocks,he,Keyed.modify,filterMap_settle_map]

theorem blocks_unmark : (unmark s a).blocks = s.blocks :=
  blocks_retag a.ptr mbDefTgid (s.totStaticPages - a.pages) false

theorem DriverOk.unmark (hs : DriverOk s) : DriverOk (unmark s a) :=
  ⟨hs.host.unmark,blocks_unmark.symm ▸ hs.records⟩

theorem unmark_freeMba (hs : DriverOk s) (ha : a ∈ s.mbaList) (hnr : a.nrMb = 0) :
    DriverOk (mbFreeMba (unmark s a) a.ptr).2 ∧ SameTasks s (mbFreeMba (unmark s a) a.ptr).2 ∧
      (mbFreeMba (unmark s a) a.ptr).2.blocks = s.blocks ∧
      weight (mbFreeMba (unmark s a) a.ptr).2 < weight s := by
  have hs' := hs.unmark (a := a)
  have hfind := congrArg (Option.map unmarked) (Keyed.find_of_mem hs.host.areas.distinct ha)
  have hderef : (MemBlock.unmark s a).derefMba a.ptr = some (unmarked a) :=
    (Keyed.find_modify (f := unmarked) (fun _ => rfl)).trans hfind
  have heq : mbFreeMba (MemBlock.unmark s a) a.ptr =
      (0, disband (MemBlock.unmark s a) (unmarked a)) := by
    rw [mbFreeMba,hderef]
    simp [hnr,unmarked]
  have hblocks := (blocks_mbFreeMba hs'.host heq).trans blocks_unmark
  rw [heq]
  refine ⟨⟨hs'.host.freeMba heq,hblocks ▸ hs.records⟩,⟨rfl,rfl⟩,hblocks,?_⟩
  obtain ⟨before,after,hsplit,_,hrem⟩ := Keyed.split hs.host.areas.distinct ha
  have hless : (disband (MemBlock.unmark s a) (unmarked a)).mbaList = before ++ after := by
    rw [← hrem]
    exact Keyed.remove_modify (fun _ => rfl)
  rw [weight,weight,hblocks,hless,hsplit]
  simp only [List.length_append,List.length_cons]
  omega

theorem HostOk.mem_area (hs : HostOk s) (ha : a ∈ s.mbaList) (hb : b ∈ s.blocks) :
    b.mba = a.ptr ↔ b ∈ a.mbList := by
  obtain ⟨a',ha',hba⟩ := mem_blocks.mp hb
  have hplace := ((hs.areas.each a' ha').placed b hba).area
  refine ⟨fun h => ?_,fun h => ((hs.areas.each a ha).placed b h).area⟩
  have h1 := Keyed.find_of_mem hs.areas.distinct ha
  rw [← h,hplace,Keyed.find_of_mem hs.areas.distinct ha'] at h1
  exact Option.some.inj h1 ▸ hba

theorem Passed.trans (h : Passed tgid s p (.finished m)) (k : Passed tgid m q r)
    (hq : ∀ b, q (stopped tgid b) = q b) : Passed tgid s (fun b => p b || q b) r := by
  cases h with
  | finished ok tasks areas blocks left =>
  cases k with
  | finished ok' tasks' areas' blocks' left' =>
    refine .finished ok' (tasks.trans tasks') (areas'.trans areas) ?_ ?_
    · rw [blocks',blocks,List.map_map]
      refine List.map_congr_left (fun b _ => ?_)
      cases h1 : p b <;> cases h2 : q b <;> simp [h1,h2,hq,stopped_stopped]
    intro b hb hin
    by_cases hqb : q b = true
    · exact left' b hb hqb
    rw [blocks'] at hb
    obtain ⟨c,hc,rfl⟩ := List.mem_map.mp hb
    by_cases hqc : q c = true
    · rw [if_pos hqc,hq] at hqb
      exact absurd hqc hqb
    · rw [if_neg hqc] at hin ⊢
      exact left c hc (by simpa [hqc] using hin)
  | rescan ok' tasks' less' blocks' =>
    refine .rescan ok' (tasks.trans tasks') ?_ ?_
    · have hlen := congrArg List.length areas
      simp only [List.length_map] at hlen
      have hlen' := congrArg List.length blocks
      rw [List.length_map] at hlen'
      unfold weight at less' ⊢
      omega
    · rw [blocks',blocks,filterMap_settle_map (fun b => p b = true)]

theorem Passed.congr (h : Passed tgid m p r) (hp : ∀ b, p (stopped tgid b) = p b)
    (hpq : ∀ b ∈ s.blocks, p b = q b) (hb : m.blocks = s.blocks) (ht : SameTasks s m)
    (ha : m.mbaList.map MbArea.ptr = s.mbaList.map MbArea.ptr) : Passed tgid s q r := by
  cases h with
  | finished ok tasks areas blocks left =>
    refine .finished ok (ht.trans tasks) (areas.trans ha) ?_ ?_
    · rw [blocks,hb]
      exact List.map_congr_left (fun b hin => by rw [hpq b hin])
    intro b hin hqb
    refine left b hin ?_
    rw [blocks,hb] at hin
    obtain ⟨c,hc,rfl⟩ := List.mem_map.mp hin
    have := hpq c hc
    split at hqb
    · rename_i hpc
      rw [if_pos hpc,hp]
      exact hpc
    · rw [← this] at hqb
      exact absurd hqb (by assumption)
  | rescan ok tasks less blocks =>
    refine .rescan ok (ht.trans tasks) ?_ (hb ▸ blocks)
    have hlen := congrArg List.length ha
    simp only [List.length_map] at hlen
    unfold weight at less ⊢
    rw [hb] at less
    omega

section
variable (hs : DriverOk s)
include hs

theorem scanMbas_passed (cfg : Config) (tgid : Nat) (qs : List Nat)
    (hqs : ∀ q ∈ qs, ∃ a ∈ s.mbaList, a.ptr = q) :
    ∃ r, scanMbas cfg tgid qs s = some r ∧ Passed tgid s (fun b => decide (b.mba ∈ qs)) r := by
  induction qs generalizing s with
  | nil => exact ⟨_,rfl,.finished hs (.refl s) rfl (by simp) (by simp)⟩
  | cons q qs ih =>
    obtain ⟨a,ha,rfl⟩ := hqs q List.mem_cons_self
    have hderef : s.derefMba a.ptr = some a := Keyed.find_of_mem hs.host.areas.distinct ha
    unfold scanMbas
    simp only [hderef]
    by_cases hgive : (cfg.dynamicAllocate && a.tgid == tgid) = true ∧ a.nrMb = 0
    · obtain ⟨hok,htasks,hblocks,hless⟩ := unmark_freeMba hs ha hgive.2
      rw [if_pos hgive,if_pos hgive.1]
      exact ⟨_,rfl,.rescan hok htasks hless (by rw [hblocks])⟩
    rw [if_neg hgive]
    obtain ⟨s', hdef,hs',htasks,hblocks,hareas⟩ : ∃ s',
        (if cfg.dynamicAllocate && a.tgid == tgid then unmark s a else s) = s' ∧ DriverOk s' ∧
        SameTasks s s' ∧ s'.blocks = s.blocks ∧
        s'.mbaList.map MbArea.ptr = s.mbaList.map MbArea.ptr := by
      split
      · exact ⟨_,rfl,hs.unmark,⟨rfl,rfl⟩,blocks_unmark,Keyed.map_key_modify (fun _ => rfl)⟩
      · exact ⟨_,rfl,hs,.refl s,rfl,rfl⟩
    rw [hdef]
    obtain ⟨r,hscan,hpass⟩ := scanMbs_passed hs' tgid (a.mbList.map MbStruct.ptr)
      (fun p hp => by
        obtain ⟨b,hb,rfl⟩ := List.mem_map.mp hp
        exact ⟨b,hblocks ▸ mem_blocks.mpr ⟨a,ha,hb⟩,rfl⟩)
    have hpass' : Passed tgid s (fun b => decide (b.mba = a.ptr)) r := by
      refine hpass.congr (fun _ => rfl) ?_ hblocks htasks hareas
      intro b hb
      simp only [decide_eq_decide,hs.host.mem_area ha hb]
      refine ⟨fun hm => ?_,fun hm => List.mem_map_of_mem hm⟩
      obtain ⟨c,hc,he⟩ := List.mem_map.mp hm
      have hfind := hs.derefMb hb
      rw [← he,hs.derefMb (mem_blocks.mpr ⟨a,ha,hc⟩)] at hfind
      exact Option.some.inj hfind ▸ hc
    rw [hscan]
    cases r with
    | rescan t =>
      cases hpass' with
      | rescan ok tasks less blocks => exact ⟨_,rfl,.rescan ok tasks less blocks⟩
    | finished t =>
      have hareas' : t.mbaList.map MbArea.ptr = s.mbaList.map MbArea.ptr := by
        cases hpass' with
        | finished ok tasks areas blocks left => exact areas
      obtain ⟨r,hrest,hpass₂⟩ := ih hpass'.ok (fun q hq => by
        obtain ⟨c,hc,rfl⟩ := hqs q (List.mem_cons_of_mem _ hq)
        have : c.ptr ∈ t.mbaList.map MbArea.ptr := hareas' ▸ List.mem_map_of_mem hc
        exact List.mem_map.mp this)
      refine ⟨r,hrest,(hpass'.trans hpass₂ (fun _ => rfl)).congr (fun _ => rfl) ?_ rfl (.refl s)
        rfl⟩
      intro b _
      simp

theorem releasePasses_eq (cfg : Config) (tgid fuel : Nat) (hf : weight s < fuel) :
    ∃ t, releasePasses cfg tgid fuel s = some t ∧ DriverOk t ∧ SameTasks s t ∧
      t.blocks = s.blocks.filterMap (settle tgid) := by
  induction fuel generalizing s with
  | zero => omega
  | succ fuel ih =>
    obtain ⟨r,hscan,hpass⟩ := scanMbas_passed hs cfg tgid
      (s.mbaList.map MbArea.ptr) (fun q hq => List.mem_map.mp hq)
    unfold releasePasses
    rw [hscan]
    cases hpass with
    | rescan ok tasks less blocks =>
      obtain ⟨t,ht,hok,htasks,he⟩ := ih ok (by omega)
      exact ⟨t,ht,hok,tasks.trans htasks,he.trans blocks⟩
    | @finished t ok tasks areas blocks left =>
      have hall : ∀ b ∈ s.blocks, b.mba ∈ s.mbaList.map MbArea.ptr := by
        intro b hb
        obtain ⟨a,ha,hba⟩ := mem_blocks.mp hb
        rw [((hs.host.areas.each a ha).placed b hba).area]
        exact List.mem_map_of_mem ha
      have hmap : t.blocks = s.blocks.map (stopped tgid) := by
        rw [blocks]
        exact List.map_congr_left (fun b hb => by rw [if_pos (decide_eq_true (hall b hb))])
      refine ⟨t,rfl,ok,tasks,?_⟩
      rw [hmap,← List.filterMap_eq_map]
      refine (List.filterMap_congr (fun b hb => ?_)).symm
      have hin : stopped tgid b ∈ t.blocks := hmap ▸ List.mem_map_of_mem hb
      have hstay := left _ hin (decide_eq_true (hall b hb))
      simp [settle,hstay]

theorem DriverOk.tasks {tasks : List MbTaskInfo} {files : List Filp} :
    DriverOk { s with mbtiList := tasks, filps := files } := ⟨hs.host.tasks,hs.records⟩

theorem lastRelease_eq (cfg : Config) (tgid : Nat) :
    ∃ t, lastRelease cfg s tgid = some t ∧ DriverOk t ∧ t.filps = s.filps ∧
      t.mbtiList = Keyed.remove MbTaskInfo.tgid tgid s.mbtiList ∧
      t.blocks = s.blocks.filterMap (settle tgid) := by
  obtain ⟨t,ht,hok,htasks,he⟩ := releasePasses_eq hs cfg tgid
    (releaseFuel s) (Nat.lt_succ_self _)
  refine ⟨_,Option.map_eq_some_iff.mpr ⟨t,ht,rfl⟩,?_,htasks.2,?_,he⟩
  · exact ⟨hok.host.toSizeOk.update.tasks,hok.records⟩
  · rw [htasks.1]

theorem mbRelease_cases (cfg : Config) (fd : Nat) :
    ∃ r t, mbRelease cfg s fd = some (r,t) ∧ DriverOk t ∧
      ((t = s ∧ ∀ f ∈ s.filps, f.fd ≠ fd) ∨ ∃ f ∈ s.filps, f.fd = fd ∧
        t.filps = Keyed.remove Filp.fd fd s.filps ∧
        ((t.mbtiList = s.mbtiList ∧ t.blocks = s.blocks ∧
            ∀ m ∈ s.mbtiList, m.tgid ≠ f.privateData) ∨
          ∃ m ∈ s.mbtiList, m.tgid = f.privateData ∧
          ((m.count ≠ 1 ∧ t.blocks = s.blocks ∧ t.mbtiList = Keyed.modify MbTaskInfo.tgid m.tgid
              (fun t => { t with count := t.count - 1 }) s.mbtiList) ∨
            (m.count = 1 ∧ t.blocks = s.blocks.filterMap (settle m.tgid) ∧
              t.mbtiList = Keyed.remove MbTaskInfo.tgid m.tgid s.mbtiList)))) := by
  unfold mbRelease
  cases hf : s.filps.find? (fun f => f.fd == fd) with
  | none =>
    exact ⟨_,_,rfl,hs,Or.inl ⟨rfl,fun f hin he => List.find?_eq_none.mp hf f hin (by simp [he])⟩⟩
  | some f =>
    have hfm := List.mem_of_find?_eq_some hf
    have hfd := Keyed.find_key hf
    cases hm : s.mbtiList.find? (fun t => t.tgid == f.privateData) with
    | none =>
      simp only [hm]
      exact ⟨_,_,rfl,hs.tasks,Or.inr ⟨f,hfm,hfd,rfl,Or.inl ⟨rfl,rfl,
        fun m hin he => List.find?_eq_none.mp hm m hin (by simp [he])⟩⟩⟩
    | some m =>
      have hmm := List.mem_of_find?_eq_some hm
      have htgid := Keyed.find_key hm
      rw [← htgid] at hm
      simp only [← htgid,hm]
      by_cases hlast : m.count - 1 ≠ 0
      · rw [if_pos hlast]
        exact ⟨_,_,rfl,hs.tasks,Or.inr ⟨f,hfm,hfd,rfl,Or.inr ⟨m,hmm,htgid,Or.inl
          ⟨by omega,rfl,rfl⟩⟩⟩⟩
      rw [if_neg hlast]
      have hs' : DriverOk { s with
          filps := Keyed.remove Filp.fd fd s.filps
          mbtiList := Keyed.modify MbTaskInfo.tgid m.tgid
            (fun t => { t with count := t.count - 1 }) s.mbtiList } := hs.tasks
      obtain ⟨t,ht,hok,hfiles,htasks,he⟩ := lastRelease_eq hs' cfg m.tgid
      refine ⟨0,t,by rw [ht]; rfl,hok,Or.inr ⟨f,hfm,hfd,hfiles,Or.inr ⟨m,hmm,htgid,Or.inr
        ⟨by omega,he,?_⟩⟩⟩⟩
      rw [htasks]
      exact Keyed.remove_modify (fun _ => rfl)

end

end Apc8750.MemBlock
