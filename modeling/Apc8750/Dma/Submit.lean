import Apc8750.Library.Masks
import Apc8750.Dma.Ring

namespace Apc8750.Dma
open Cyclic (next)

structure Descriptor where
  addr : BitVec 32
  size : Nat
  ends : Bool
  deriving DecidableEq

def Chan.descriptor (c : Chan) (slot : Nat) : Descriptor where
  addr := c.des0 (slot * 2 + 1)
  size := (c.des0 (slot * 2) &&& desReqcntMask).toNat
  ends := c.des0 (slot * 2) &&& desEnd != 0

def Chan.slots (c : Chan) (n : Nat) : List Nat :=
  (List.range n).map fun i => (next c.maxDes0cnt)^[i] c.des0cnt

def Chan.lastSlot (c : Chan) : Nat := if c.des0cnt ≥ 1 then c.des0cnt - 1 else c.maxDes0cnt - 1

/-- Descriptors of at most 32 KB that follow one another from `p` on, for `size` bytes. -/
def Covers : BitVec 32 → Nat → List Descriptor → Prop
  | _, size, [] => size = 0
  | p, size, d :: rest => d.addr = p ∧ d.size ≤ size32KB ∧ d.size ≤ size ∧
      Covers (p + BitVec.ofNat 32 d.size) (size - d.size) rest

/-- The descriptors written describe the buffer, and only the last one has the end mark. -/
structure Describes (c d : Chan) (ptr : BitVec 32) (size : Nat) (ret : Int) : Prop where
  count : ret = (ret.toNat : Int) ∧ d.pending = c.pending ++ c.slots ret.toNat
  covers : Covers ptr size ((c.slots ret.toNat).map d.descriptor)
  last : ∀ x ∈ (c.slots ret.toNat).getLast?, (d.descriptor x).ends = true
  earlier : ∀ x ∈ (c.slots ret.toNat).dropLast, (d.descriptor x).ends = false
  previous : (d.descriptor c.lastSlot).ends = false

theorem desEnd_bit (x : BitVec 32) : (x &&& desEnd != 0) = x.getLsbD 31 := by
  have shifted : desEnd = 1#32 <<< 31 := by decide
  rw [shifted]
  exact Masks.and_mask_bne

theorem reqCnt_ends (hsize : attr.size ≤ size32KB) (hf : format.getLsbD 31 = false) :
    (reqCnt attr format &&& desEnd != 0) = decide (attr.endDescript = 1) := by
  have small : attr.size.testBit 31 = false := by
    apply Nat.testBit_lt_two_pow
    unfold size32KB at hsize
    omega
  rw [desEnd_bit]
  unfold reqCnt
  simp only [BitVec.getLsbD_or,hf,BitVec.getLsbD_ofNat,small]
  by_cases he : attr.endDescript = 1 <;> by_cases hi : attr.interruptEn = 1 <;>
    simp [he,hi,desEnd,intenDes]

theorem reqCnt_size (hsize : attr.size ≤ size32KB) (hf : format &&& desReqcntMask = 0) :
    (reqCnt attr format &&& desReqcntMask).toNat = attr.size := by
  have flags : ∀ b : Bool, (if b = true then intenDes else 0) &&& desReqcntMask = 0 ∧
      (if b = true then desEnd else 0) &&& desReqcntMask = 0 := by decide
  have inten := (flags (decide (attr.interruptEn = 1))).1
  have ends := (flags (decide (attr.endDescript = 1))).2
  simp only [decide_eq_true_eq] at inten ends
  have mask : desReqcntMask.toNat = 2 ^ 16 - 1 := by decide
  unfold size32KB at hsize
  unfold reqCnt
  rw [BitVec.and_or_distrib_right,BitVec.and_or_distrib_right,BitVec.and_or_distrib_right,inten,
    ends,hf]
  rw [show (0 : BitVec 32) ||| 0 ||| 0 = 0#32 from rfl,BitVec.zero_or,BitVec.toNat_and,mask,
    Nat.and_two_pow_sub_one_eq_mod,BitVec.toNat_ofNat]
  omega

structure Wrote (c d : Chan) (ptr : BitVec 32) (k : Nat) (ends : Bool) : Prop where
  descriptor : d.descriptor c.des0cnt = ⟨ptr, k, ends⟩
  other : ∀ slot < c.maxDes0cnt, slot ≠ c.des0cnt → d.descriptor slot = c.descriptor slot

theorem createFmt0Descript_wrote (attr : DesAttribute) (ho : Open c cfg) (hsize : attr.size ≤ size32KB) :
    Wrote c (createFmt0Descript c cfg attr).2 attr.dataAddr attr.size
      (decide (attr.endDescript = 1)) := by
  simp only [createFmt0Descript,if_neg ho.used,if_neg ho.known, if_neg (size32KB_fits hsize)]
  constructor
  · simp only [Chan.descriptor,Function.update_self]
    rw [Function.update_of_ne (by omega),Function.update_self,reqCnt_size hsize (by decide),
      reqCnt_ends hsize (by decide)]
  intro slot _ hne
  simp only [Chan.descriptor]
  rw [Function.update_of_ne (by omega),Function.update_of_ne (by omega),
    Function.update_of_ne (by omega),Function.update_of_ne (by omega)]

theorem createFmt1Descript_wrote (attr : DesAttribute) (ho : Open c cfg) (hsize : attr.size ≤ size32KB)
    (hslot : ¬ c.des0cnt < c.maxDes0cnt - 1) :
    Wrote c (createFmt1Descript c cfg attr).2 attr.dataAddr attr.size
      (decide (attr.endDescript = 1)) := by
  have hlast : c.maxDes0cnt - 1 = c.des0cnt := by
    have := ho.slot
    omega
  have hformat : ∀ b : Bool, (if b = true then formatDes1 else 0).getLsbD 31 = false ∧
      (if b = true then formatDes1 else 0) &&& desReqcntMask = 0 := by decide
  have hfmt := hformat (decide (attr.fmt = 1))
  simp only [decide_eq_true_eq] at hfmt
  simp only [createFmt1Descript,if_neg ho.used,if_neg ho.known, if_neg (size32KB_fits hsize),hlast]
  constructor
  · simp only [Chan.descriptor]
    rw [Function.update_of_ne (by omega),Function.update_self,Function.update_of_ne (by omega),
      Function.update_of_ne (by omega),Function.update_self,reqCnt_size hsize hfmt.2,
      reqCnt_ends hsize hfmt.1]
  intro slot hmax hne
  simp only [Chan.descriptor]
  rw [Function.update_of_ne (by omega),Function.update_of_ne (by omega),
    Function.update_of_ne (by omega),Function.update_of_ne (by omega),
    Function.update_of_ne (by omega),Function.update_of_ne (by omega)]

theorem Wrote.of_accuSize (h : Wrote { c with accuSize := a } d ptr k ends) :
    Wrote c d ptr k ends :=
  ⟨h.descriptor,h.other⟩

theorem addOne_wrote (ho : Open c cfg) (attr : DesAttribute) (ptr : BitVec 32) (hk : k ≤ size32KB)
    (left : Nat) : ∃ ends, (left ≤ size32KB → ends = true) ∧
      Wrote c (addOne c cfg attr ptr k left).2 ptr k ends := by
  have hopen (a : BitVec 32) : Open { c with accuSize := a } cfg := ⟨ho.inUse,ho.device,ho.slot⟩
  refine ⟨decide ((if left ≤ size32KB then 1 else attr.endDescript) = 1),fun h => ?_,?_⟩
  · rw [if_pos h]
    rfl
  simp only [addOne]
  split
  · show Wrote c (createFmt0Descript _ cfg _).2 ptr k _
    exact Wrote.of_accuSize (createFmt0Descript_wrote _ (hopen _) hk)
  · rename_i hslot
    show Wrote c (createFmt1Descript _ cfg _).2 ptr k _
    exact Wrote.of_accuSize (createFmt1Descript_wrote _ (hopen _) hk hslot)

theorem addLoop_count (cfg : DeviceCfg) (size r i : Nat) (ptr : BitVec 32) (attr : DesAttribute)
    (c : Chan) : (addLoop cfg size r i ptr attr c).1 = i + needed r := by
  induction r using Nat.strong_induction_on generalizing i ptr attr c with
  | _ r ih =>
    by_cases hr : r = 0
    · subst hr
      rw [addLoop,if_pos rfl]
      rfl
    have hless : r - min r size32KB < r := by
      simp only [size32KB]
      omega
    have hstep := needed_step hr
    rw [addLoop,if_neg hr]
    simp only
    rw [ih _ hless]
    omega

theorem addOne_next (ho : Open c cfg) (attr : DesAttribute) (ptr : BitVec 32) (hk : k ≤ size32KB)
    (left : Nat) : Open (addOne c cfg attr ptr k left).2 cfg ∧
      (addOne c cfg attr ptr k left).2.des0cnt = next c.maxDes0cnt c.des0cnt ∧
      (addOne c cfg attr ptr k left).2.maxDes0cnt = c.maxDes0cnt := by
  have slot := ho.slot
  have ha := addOne_added ho attr ptr hk left
  exact ⟨ha.isOpen ho (by omega),ha.des0cnt.trans (Cyclic.ahead_one slot),ha.max⟩

theorem next_ne (two : 2 ≤ n) (h : i < n) : next n i ≠ i := by
  unfold Cyclic.next
  split <;> omega

theorem addLoop_single (cfg : DeviceCfg) (size i : Nat) (ptr : BitVec 32) (attr : DesAttribute)
    (c : Chan) (pos : r ≠ 0) (le : r ≤ size32KB) :
    (addLoop cfg size r i ptr attr c).2 =
      (addOne (if r = size then (clearLastDescript c cfg).2 else c) cfg attr
        (ptr + BitVec.ofNat 32 (r * i)) r 0).2 := by
  rw [addLoop,if_neg pos]
  simp only [Nat.min_eq_left le,Nat.sub_self]
  rw [addLoop,if_pos rfl]

theorem needed_one (pos : size ≠ 0) (le : size ≤ size32KB) : needed size = 1 := by
  unfold needed
  unfold size32KB at *
  split <;> omega

theorem two_le_needed (more : size32KB < size) : 2 ≤ needed size := by
  unfold needed
  unfold size32KB at *
  split <;> omega

theorem addLoop_early (cfg : DeviceCfg) (size r i : Nat) (ptr : BitVec 32) (attr : DesAttribute)
    (ho : Open c cfg) (two : 2 ≤ c.maxDes0cnt) (more : size32KB < r) (le : r ≤ size) :
    ((addLoop cfg size r i ptr attr c).2.descriptor
      ((next c.maxDes0cnt)^[needed r - 2] c.des0cnt)).ends = true := by
  induction r using Nat.strong_induction_on generalizing i ptr attr c with
  | _ r ih =>
    have hmin : min r size32KB = size32KB := Nat.min_eq_right (Nat.le_of_lt more)
    obtain ⟨c₁,p,hfirst,hopen,_,hround⟩ :=
      addLoop_round size i ptr attr ho (show r ≠ 0 by omega)
    have hcnt : c₁.des0cnt = c.des0cnt := hfirst.des0cnt.trans (if_pos ho.slot)
    have hmax := hfirst.max
    rw [hround]
    simp only [hmin]
    obtain ⟨ends,hends,hwrote⟩ := addOne_wrote hopen attr p le_rfl (r - size32KB)
    obtain ⟨hopen',hcnt',hmax'⟩ := addOne_next hopen attr p le_rfl (r - size32KB)
    generalize addOne c₁ cfg attr p size32KB (r - size32KB) = a at *
    have hstep := needed_step (show r ≠ 0 by omega)
    rw [hmin] at hstep
    by_cases last : r - size32KB ≤ size32KB
    · have hone := needed_one (show r - size32KB ≠ 0 by omega) last
      rw [addLoop_single cfg size (i + 1) p a.1 a.2 (by omega) last,if_neg (by unfold size32KB at *; omega),
        hstep,hone]
      obtain ⟨_,_,hlast⟩ := addOne_wrote hopen' a.1
        (p + BitVec.ofNat 32 ((r - size32KB) * (i + 1))) last 0
      have slot := ho.slot
      rw [hmax,hcnt] at hcnt'
      have other := hlast.other c.des0cnt (by omega) (by rw [hcnt']; exact (next_ne two slot).symm)
      have written := hwrote.descriptor
      rw [hcnt] at written
      show (Chan.descriptor _ c.des0cnt).ends = true
      rw [other,written]
      exact hends last
    · have hmore : size32KB < r - size32KB := by omega
      have two' := two_le_needed hmore
      have rest := ih (r - size32KB) (by unfold size32KB; omega) (i + 1) p a.1 hopen'
        (by omega) hmore (by omega)
      rw [hcnt',hmax',hmax,hcnt] at rest
      have count : needed r - 2 = (needed (r - size32KB) - 2) + 1 := by omega
      rw [count,Function.iterate_succ_apply]
      exact rest

theorem clearLastDescript_ends (ho : Open c cfg) :
    ((clearLastDescript c cfg).2.descriptor c.lastSlot).ends = false := by
  simp only [clearLastDescript,if_neg ho.used,if_neg ho.known,Chan.descriptor,Chan.lastSlot,
    Function.update_self]
  rw [BitVec.and_assoc,BitVec.and_comm (~~~desEnd)]
  have off : desEnd &&& ~~~desEnd = 0#32 := by decide
  rw [off,BitVec.and_zero]
  rfl

theorem describes_one (ho : Open c cfg) (two : 2 ≤ c.maxDes0cnt) (pos : size ≠ 0)
    (le : size ≤ size32KB) (ptr : BitVec 32) (stack : DesAttribute) :
    Describes c (addLoop cfg size size 0 ptr stack c).2 ptr size 1 := by
  have slot := ho.slot
  have hfirst := clearLastDescript_added ho
  have hopen := hfirst.isOpen ho (Nat.zero_le _)
  have hcnt := hfirst.des0cnt.trans (if_pos ho.slot)
  have cleared := clearLastDescript_ends ho
  have loop := addLoop_single cfg size 0 ptr stack c pos le
  rw [if_pos rfl,Nat.mul_zero,BitVec.add_zero] at loop
  rw [loop]
  have added := hfirst.trans (addOne_added hopen stack ptr le 0) ho (by omega)
  obtain ⟨ends,hends,hwrote⟩ := addOne_wrote hopen stack ptr le 0
  generalize (clearLastDescript c cfg).2 = c₁ at *
  generalize (addOne c₁ cfg stack ptr size 0).2 = d at *
  have written := hwrote.descriptor
  rw [show c₁.des0cnt = c.des0cnt from hcnt,hends (Nat.zero_le _)] at written
  have previous := hwrote.other c.lastSlot
  refine ⟨⟨rfl,?_⟩,?_,?_,?_,?_⟩
  · rw [added.pending,Nat.zero_add,Cyclic.arc_one slot]
    rfl
  · show Covers ptr size [d.descriptor c.des0cnt]
    rw [written]
    exact ⟨rfl,le,le_rfl,Nat.sub_self size⟩
  · intro x hx
    obtain rfl : c.des0cnt = x := Option.some.inj hx
    rw [written]
  · intro x hx
    cases hx
  rw [previous,cleared]
  · rw [hfirst.max]
    unfold Chan.lastSlot
    split <;> omega
  · rw [hcnt]
    unfold Chan.lastSlot
    split <;> omega

theorem mem_dropLast_slots (c : Chan) (two : 2 ≤ n) :
    (next c.maxDes0cnt)^[n - 2] c.des0cnt ∈ (c.slots n).dropLast := by
  obtain ⟨m,rfl⟩ := Nat.exists_eq_add_of_le two
  rw [Chan.slots,Nat.add_comm 2 m,List.range_succ,List.map_append,List.map_singleton,
    List.dropLast_concat]
  exact List.mem_map.mpr ⟨m,by simp,rfl⟩

theorem addDescript_accepted (h : 0 ≤ (addDescript c cfg ptr size stack).1) :
    (c.inUse = true ∧ c.deviceNo = cfg.deviceReqType) ∧
      (addDescript c cfg ptr size stack).1 = needed size ∧
      (addDescript c cfg ptr size stack).2 = (addLoop cfg size size 0 ptr stack c).2 := by
  by_cases hopen : c.inUse = true ∧ c.deviceNo = cfg.deviceReqType
  · refine ⟨hopen,?_⟩
    have used : ¬ c.inUse = false := by simp [hopen.1]
    have known : ¬ c.deviceNo ≠ cfg.deviceReqType := fun hne => hne hopen.2
    unfold addDescript at h ⊢
    rw [if_neg used,if_neg known] at h ⊢
    split at h
    · exact absurd h (by decide : ¬ 0 ≤ ebusy)
    rename_i room
    rw [if_neg room]
    refine ⟨?_,rfl⟩
    show (((addLoop cfg size size 0 ptr stack c).1 : Nat) : Int) = needed size
    rw [addLoop_count,Nat.zero_add]
  · exact absurd h (Int.not_le.mpr (addDescript_closed ptr size stack hopen).1)

def Shaped (c : Chan) : Prop :=
  c.inUse = true → c.des0cnt < c.maxDes0cnt ∧ 2 ≤ c.maxDes0cnt

theorem addLoop_induct {P : Chan → Prop}
    (clear : ∀ c, Open c cfg → P c → P (clearLastDescript c cfg).2)
    (one : ∀ c attr ptr k left, Open c cfg → k ≤ size32KB → P c → P (addOne c cfg attr ptr k left).2)
    (size r i : Nat) (ptr : BitVec 32) (attr : DesAttribute) (ho : Open c cfg) (h : P c) :
    P (addLoop cfg size r i ptr attr c).2 := by
  induction r using Nat.strong_induction_on generalizing i ptr attr c with
  | _ r ih =>
    rw [addLoop]
    split
    · exact h
    have first : P (if r = size then (clearLastDescript c cfg).2 else c) ∧
        Open (if r = size then (clearLastDescript c cfg).2 else c) cfg := by
      split
      · exact ⟨clear c ho h,(clearLastDescript_added ho).isOpen ho (Nat.zero_le _)⟩
      · exact ⟨h,ho⟩
    have small := Nat.min_le_right r size32KB
    exact ih _ (by unfold size32KB; omega) _ _ _ (addOne_next first.2 attr _ small _).1
      (one _ _ _ _ _ first.2 small first.1)

theorem addDescript_induct {P : Chan → Prop} (h : P c)
    (slot : c.inUse = true → c.deviceNo = cfg.deviceReqType → Open c cfg)
    (clear : ∀ d, Open d cfg → P d → P (clearLastDescript d cfg).2)
    (one : ∀ d attr ptr k left, Open d cfg → k ≤ size32KB → P d → P (addOne d cfg attr ptr k left).2) :
    P (addDescript c cfg ptr size stack).2 := by
  unfold Dma.addDescript
  split
  · exact h
  split
  · exact h
  split
  · exact h
  rename_i used known _
  exact addLoop_induct clear one size size 0 ptr stack (slot (by simpa using used) (not_not.mp known)) h

theorem start_induct {P : Chan → Prop} (h : P c)
    (added : P (addDescript c c.deviceCfg ptr size stack).2)
    (kept : ∀ d residue position run, P d →
      P { d with residueDes0cnt := residue, position := position, run := run }) :
    P (wmtStartDma c ptr size stack).2 := by
  unfold wmtStartDma
  split
  · exact h
  dsimp only
  split
  · exact added
  · split
    · exact kept _ _ _ _ added
    · exact kept _ _ _ _ added

theorem wake_induct {P : Chan → Prop} (h : P c)
    (added : P (addDescript c c.deviceCfg ptr size stack).2)
    (kept : ∀ d residue position run, P d →
      P { d with residueDes0cnt := residue, position := position, run := run }) :
    P (wmtWakeDma c ptr size stack).2 := by
  unfold wmtWakeDma
  split
  · exact h
  split
  · exact h
  split
  · exact kept _ _ _ _ added
  · exact h

section
variable (h : Shaped c)
include h

theorem Shaped.addDescript (cfg : DeviceCfg) (ptr : BitVec 32) (size : Nat)
    (stack : DesAttribute) : Shaped (addDescript c cfg ptr size stack).2 := by
  refine addDescript_induct h (fun used known => ⟨used,known,(h used).1⟩) (fun d ho hd _ => ?_)
    fun d attr ptr k left ho small hd _ => ?_
  · have added := clearLastDescript_added ho
    exact ⟨(added.isOpen ho (Nat.zero_le _)).slot,added.max.symm ▸ (hd ho.inUse).2⟩
  · obtain ⟨hopen,_,hmax⟩ := addOne_next ho attr ptr small left
    exact ⟨hopen.slot,hmax.symm ▸ (hd ho.inUse).2⟩

theorem Shaped.start (ptr : BitVec 32) (size : Nat) (stack : DesAttribute) :
    Shaped (wmtStartDma c ptr size stack).2 :=
  start_induct h (h.addDescript _ _ _ _) fun _ _ _ _ hd => hd

theorem Shaped.wake (ptr : BitVec 32) (size : Nat) (stack : DesAttribute) :
    Shaped (wmtWakeDma c ptr size stack).2 :=
  wake_induct h (h.addDescript _ _ _ _) fun _ _ _ _ hd => hd

theorem Shaped.countDown : Shaped (countDown c) := by
  unfold Dma.countDown
  split <;> exact h

theorem Shaped.revise (cfg : DeviceCfg) (regs : MemRegGroup) :
    Shaped (reviseDescript c cfg regs) := by
  obtain ⟨words,hw⟩ := reviseDescript_words c cfg regs
  rw [hw]
  exact h

theorem Shaped.resume (active : Bool) (regs : MemRegGroup) :
    Shaped (wmtResumeDma c active regs) := by
  have stopped : Shaped (if active then { c with run := false } else c) := by
    split <;> exact h
  unfold wmtResumeDma
  simp only
  generalize (if active then { c with run := false } else c) = e at stopped
  split
  · exact stopped
  · exact (stopped.revise e.deviceCfg regs :)

theorem Shaped.handler (channelSt : Nat) (active : Bool) (regs : MemRegGroup) :
    Shaped (dmaIrqHandler c channelSt active regs) := by
  unfold dmaIrqHandler
  split
  · exact (h.revise c.deviceCfg regs).countDown
  split
  · exact h.resume active regs
  · exact h.countDown

theorem Shaped.interrupt (hi : interrupt c channelSt active regs = some d) :
    Shaped d := by
  unfold Dma.interrupt at hi
  split at hi
  · cases hi
  split at hi
  · obtain ⟨e,hfin,rfl⟩ := Option.map_eq_some_iff.mp hi
    have kept : Shaped e := by
      unfold finish at hfin
      split at hfin
      · cases hfin
      · cases hfin
        exact h
    exact kept.handler channelSt active regs
  · cases hi
    exact h.handler channelSt active regs

theorem Shaped.clear : Shaped (wmtClearDma c) := by
  intro hu
  have two := (h hu).2
  exact ⟨show 0 < c.maxDes0cnt by omega,two⟩

theorem Shaped.release : Shaped (wmtFreeDma c) := by
  unfold wmtFreeDma
  split
  · exact h
  split
  · exact h
  · exact nofun

end

theorem shaped_step (h : ∀ ch, Shaped (s ch)) (hstep : step table s op = some (r,t)) :
    ∀ ch, Shaped (t ch) :=
  step_all h hstep
    (fun _ _ _ _ => (by decide : 0 < (maxDescriptSize - des1Size) / des0Size + 1 ∧
      2 ≤ (maxDescriptSize - des1Size) / des0Size + 1))
    (fun ch ptr size stack _ => (h ch).start ptr size.toNat stack)
    (fun ch ptr size stack _ => (h ch).wake ptr size.toNat stack)
    (fun ch _ _ _ _ he => (h ch).interrupt he) (fun ch => (h ch).clear) (fun ch => (h ch).release)

theorem reachable_shaped (h : Runs.Run (step table) (fun _ _ => True) (fun _ => unused) trace s)
    (ch : Nat) : Shaped (s ch) :=
  h.invariant (I := fun s => ∀ ch, Shaped (s ch)) (fun _ => nofun)
    (fun ht _ hs => shaped_step ht hs) ch

/-- The buffer is described exactly if one descriptor is enough. -/
theorem describes_buffer (shaped : Shaped c) (pos : size ≠ 0)
    (accepted : 0 ≤ (addDescript c cfg ptr size stack).1) :
    Describes c (addDescript c cfg ptr size stack).2 ptr size (addDescript c cfg ptr size stack).1 ↔
      size ≤ size32KB := by
  obtain ⟨hopen, ret, chan⟩ := addDescript_accepted accepted
  obtain ⟨slot, two⟩ := shaped hopen.1
  have ho : Open c cfg := ⟨hopen.1, hopen.2, slot⟩
  rw [ret, chan]
  constructor
  · intro h
    by_contra more
    have two' := two_le_needed (Nat.lt_of_not_le more)
    have early := addLoop_early cfg size size 0 ptr stack ho two (by omega) le_rfl
    have none := h.earlier ((next c.maxDes0cnt)^[needed size - 2] c.des0cnt)
      (mem_dropLast_slots c two')
    rw [none] at early
    cases early
  · intro le
    rw [needed_one pos le]
    exact describes_one ho two pos le ptr stack

def fresh : Chan where
  inUse := true
  deviceNo := 3
  deviceCfg := ⟨3, 0x1000⟩
  des0cnt := 0
  maxDes0cnt := 127
  residueDes0cnt := 0
  accuSize := 0
  des0 := fun _ => 0
  des0PhyAddr := 0
  run := false
  position := 0
  pending := []

theorem describes_buffer_page : Describes fresh
    (addDescript fresh ⟨3, 0x1000⟩ 0x10000#32 0x1000 ⟨0, 0, 0, 0, 0, 0⟩).2 0x10000#32 0x1000
    (addDescript fresh ⟨3, 0x1000⟩ 0x10000#32 0x1000 ⟨0, 0, 0, 0, 0, 0⟩).1 := by
  have room : ¬ ((fresh.maxDes0cnt : Int) - fresh.residueDes0cnt < needed 0x1000) := by decide
  have accepted : 0 ≤ (addDescript fresh ⟨3, 0x1000⟩ 0x10000#32 0x1000 ⟨0, 0, 0, 0, 0, 0⟩).1 := by
    rw [addDescript, if_neg (by decide), if_neg (by decide), if_neg room]
    exact Int.natCast_nonneg _
  exact (describes_buffer (fun _ => by decide) (by decide) accepted).mpr (by decide)

/-- The first of two descriptors has the end mark. -/
theorem two_descriptors_overlap :
    (addDescript fresh ⟨3, 0x1000⟩ 0x10000#32 0xA000 ⟨0, 0, 0, 0, 0, 0⟩).2.descriptor 0 =
        ⟨0x10000#32, 0x8000, true⟩ ∧
      (addDescript fresh ⟨3, 0x1000⟩ 0x10000#32 0xA000 ⟨0, 0, 0, 0, 0, 0⟩).2.descriptor 1 =
        ⟨0x12000#32, 0x2000, true⟩ := by
  have room : ¬ ((fresh.maxDes0cnt : Int) - fresh.residueDes0cnt < needed 0xA000) := by decide
  have first : addLoop ⟨3, 0x1000⟩ 0xA000 0xA000 0 0x10000#32 ⟨0, 0, 0, 0, 0, 0⟩ fresh =
      addLoop ⟨3, 0x1000⟩ 0xA000 0x2000 1 0x10000#32
        (addOne (clearLastDescript fresh ⟨3, 0x1000⟩).2 ⟨3, 0x1000⟩ ⟨0, 0, 0, 0, 0, 0⟩ 0x10000#32
          0x8000 0x2000).1
        (addOne (clearLastDescript fresh ⟨3, 0x1000⟩).2 ⟨3, 0x1000⟩ ⟨0, 0, 0, 0, 0, 0⟩ 0x10000#32
          0x8000 0x2000).2 := by
    rw [addLoop]
    rfl
  rw [addDescript, if_neg (by decide), if_neg (by decide), if_neg room]
  simp only
  rw [first, addLoop_single _ _ _ _ _ _ (by decide) (by decide)]
  decide

section Refused

structure Untouched (c d : Chan) : Prop where
  des0cnt : d.des0cnt = c.des0cnt
  residue : d.residueDes0cnt = c.residueDes0cnt
  accuSize : d.accuSize = c.accuSize
  words : ∀ w, d.des0 w = c.des0 w

theorem Untouched.refl (c : Chan) : Untouched c c := ⟨rfl,rfl,rfl,fun _ => rfl⟩

structure Takes (c : Chan) (size : Nat) : Prop where
  inUse : c.inUse = true
  device : c.deviceNo = c.deviceCfg.deviceReqType
  room : c.residueDes0cnt + needed size ≤ c.maxDes0cnt

theorem addDescript_refused (ptr : BitVec 32) (stack : DesAttribute) (h : ¬ Takes c size) :
    (addDescript c c.deviceCfg ptr size stack).1 < 0 ∧
      (addDescript c c.deviceCfg ptr size stack).2 = c := by
  by_cases hopen : c.inUse = true ∧ c.deviceNo = c.deviceCfg.deviceReqType
  · have full : (c.maxDes0cnt : Int) - c.residueDes0cnt < needed size := by
      by_contra room
      exact h ⟨hopen.1,hopen.2,by omega⟩
    rw [addDescript,if_neg (by simp [hopen.1]),if_neg (fun hne => hne hopen.2),if_pos full]
    exact ⟨(by decide : ebusy < 0),rfl⟩
  · exact addDescript_closed ptr size stack hopen

theorem addDescript_taken (ptr : BitVec 32) (stack : DesAttribute) (h : Takes c size) :
    0 ≤ (addDescript c c.deviceCfg ptr size stack).1 := by
  have room : ¬ ((c.maxDes0cnt : Int) - c.residueDes0cnt < needed size) := by
    have := h.room
    omega
  rw [addDescript,if_neg (by simp [h.inUse]),if_neg (fun hne => hne h.device),if_neg room]
  exact Int.natCast_nonneg _

/-- A refused start changes nothing; a refused wake-up unless `add_descript` refuses it. -/
theorem refused_untouched (c : Chan) (ptr : BitVec 32) (size : Nat) (stack : DesAttribute) :
    (size = 0 ∨ (addDescript c c.deviceCfg ptr size stack).1 < 0 →
      Untouched c (wmtStartDma c ptr size stack).2) ∧
    ((size = 0 ∨ c.deviceCfg.chunkSize < size ∨ c.run = false ∨
        (addDescript c c.deviceCfg ptr size stack).1 < 0 →
      Untouched c (wmtWakeDma c ptr size stack).2) ↔
      (size ≠ 0 → size ≤ c.deviceCfg.chunkSize → c.run = true → Takes c size)) := by
  have refused (h : (addDescript c c.deviceCfg ptr size stack).1 < 0) :
      (addDescript c c.deviceCfg ptr size stack).2 = c := by
    by_cases takes : Takes c size
    · exact absurd (addDescript_taken ptr stack takes) (Int.not_le.mpr h)
    · exact (addDescript_refused ptr stack takes).2
  constructor
  · intro h
    by_cases empty : size = 0
    · rw [wmtStartDma, if_pos empty]
      exact .refl c
    · have neg := h.resolve_left empty
      rw [wmtStartDma_refused empty neg (refused neg)]
      exact .refl c
  by_cases tried : size ≠ 0 ∧ size ≤ c.deviceCfg.chunkSize ∧ c.run = true
  · obtain ⟨pos, chunk, run⟩ := tried
    rw [wmtWakeDma, if_neg pos, if_neg (Nat.not_lt.mpr chunk), if_pos run]
    constructor
    · intro h _ _ _
      by_contra takes
      obtain ⟨neg, same⟩ := addDescript_refused ptr stack takes
      have residue : (addDescript c c.deviceCfg ptr size stack).2.residueDes0cnt +
          (addDescript c c.deviceCfg ptr size stack).1 = c.residueDes0cnt :=
        (h (.inr (.inr (.inr neg)))).residue
      rw [same] at residue
      omega
    · intro takes h
      have taken := addDescript_taken ptr stack (takes pos chunk run)
      rcases h with h | h | h | h
      · exact absurd h pos
      · omega
      · rw [run] at h
        cases h
      · omega
  · refine iff_of_true (fun _ => ?_) fun pos chunk run => absurd ⟨pos, chunk, run⟩ tried
    have same : (wmtWakeDma c ptr size stack).2 = c := by
      unfold wmtWakeDma
      split
      · rfl
      rename_i pos
      split
      · rfl
      · rename_i chunk
        rw [if_neg fun run => tried ⟨pos, Nat.not_lt.mp chunk, run⟩]
    rw [same]
    exact .refl c

def crowded : Chan := { fresh with residueDes0cnt := 127, run := true }

theorem refused_untouched_empty :
    Untouched crowded (wmtStartDma crowded 0 0 ⟨0, 0, 0, 0, 0, 0⟩).2 ∧
      Untouched crowded (wmtWakeDma crowded 0 0x2000 ⟨0, 0, 0, 0, 0, 0⟩).2 := by
  have both := refused_untouched crowded 0
  refine ⟨(both 0 _).1 (.inl rfl), (both 0x2000 _).2.mpr (fun _ chunk => ?_) (.inr (.inl ?_))⟩
  · exact absurd chunk (by decide)
  · decide

theorem busy_wake_miscounts :
    (wmtWakeDma crowded 0 0x1000 ⟨0, 0, 0, 0, 0, 0⟩).1 = ebusy ∧
      (wmtWakeDma crowded 0 0x1000 ⟨0, 0, 0, 0, 0, 0⟩).2.residueDes0cnt = 111 := by
  decide

end Refused

end Apc8750.Dma
