import Apc8750.Dma.Model

namespace Apc8750.Dma
open Cyclic (ahead arc next)

variable {c d e : Chan} {cfg : DeviceCfg} {attr stack : DesAttribute} {ptr : BitVec 32}
  {regs : MemRegGroup} {table : Nat → DeviceCfg} {n m size : Nat} {s t : State}

/-- No slot is written again before it is done, and the driver does not count too few. -/
structure RingOk (c : Chan) : Prop where
  fresh : c.pending.Nodup
  counted : c.pending.length ≤ c.residueDes0cnt
  lap : c.pending.length ≤ c.maxDes0cnt
  place : c.run = true → c.pending = arc c.maxDes0cnt c.position c.pending.length ∧
    c.des0cnt = ahead c.maxDes0cnt c.position c.pending.length

def Careful (s : State) : Op → Prop
  | .start ch _ size _ => (s ch).inUse = true → (s ch).deviceNo = (s ch).deviceCfg.deviceReqType →
    size.toNat ≠ 0 → (s ch).residueDes0cnt + needed size.toNat ≠ (s ch).maxDes0cnt
  | .wake ch _ size _ => (s ch).run = true → size.toNat ≠ 0 → size.toNat ≤ (s ch).deviceCfg.chunkSize →
    (s ch).residueDes0cnt + needed size.toNat ≤ (s ch).maxDes0cnt
  | _ => True

structure Frame (c d : Chan) : Prop where
  inUse : d.inUse = c.inUse
  deviceNo : d.deviceNo = c.deviceNo
  deviceCfg : d.deviceCfg = c.deviceCfg
  max : d.maxDes0cnt = c.maxDes0cnt
  residue : d.residueDes0cnt = c.residueDes0cnt
  run : d.run = c.run
  position : d.position = c.position

theorem Frame.trans (h : Frame c d) (h' : Frame d e) : Frame c e where
  inUse := h'.inUse.trans h.inUse
  deviceNo := h'.deviceNo.trans h.deviceNo
  deviceCfg := h'.deviceCfg.trans h.deviceCfg
  max := h'.max.trans h.max
  residue := h'.residue.trans h.residue
  run := h'.run.trans h.run
  position := h'.position.trans h.position

structure Added (n : Nat) (c d : Chan) : Prop extends Frame c d where
  des0cnt : d.des0cnt = ahead c.maxDes0cnt c.des0cnt n
  pending : d.pending = c.pending ++ arc c.maxDes0cnt c.des0cnt n

structure Open (c : Chan) (cfg : DeviceCfg) : Prop where
  inUse : c.inUse = true
  device : c.deviceNo = cfg.deviceReqType
  slot : c.des0cnt < c.maxDes0cnt

theorem Open.used (h : Open c cfg) : ¬ c.inUse = false := by
  simp [h.inUse]

theorem Open.known (h : Open c cfg) : ¬ c.deviceNo ≠ cfg.deviceReqType := fun hne => hne h.device

theorem Added.isOpen (h : Added n c d) (ho : Open c cfg) (hn : n ≤ c.maxDes0cnt) : Open d cfg where
  inUse := h.inUse.trans ho.inUse
  device := h.deviceNo.trans ho.device
  slot := by
    rw [h.des0cnt,h.max]
    exact Cyclic.ahead_lt ho.slot hn

theorem Added.trans (h : Added n c d) (h' : Added m d e) (ho : Open c cfg)
    (room : n + m ≤ c.maxDes0cnt) : Added (n + m) c e where
  toFrame := h.toFrame.trans h'.toFrame
  des0cnt := by rw [h'.des0cnt,h.max,h.des0cnt,Cyclic.ahead_ahead ho.slot room]
  pending := by
    rw [h'.pending,h.pending,h.max,h.des0cnt,List.append_assoc,Cyclic.arc_append ho.slot room]

theorem Added.refl (ho : Open c cfg) : Added 0 c c :=
  ⟨⟨rfl,rfl,rfl,rfl,rfl,rfl,rfl⟩,(if_pos ho.slot).symm,(List.append_nil _).symm⟩

theorem clearLastDescript_added (ho : Open c cfg) : Added 0 c (clearLastDescript c cfg).2 := by
  have hcnt : c.des0cnt = ahead c.maxDes0cnt c.des0cnt 0 := (if_pos ho.slot).symm
  simp only [clearLastDescript,if_neg ho.used,if_neg ho.known]
  exact ⟨⟨rfl,rfl,rfl,rfl,rfl,rfl,rfl⟩,hcnt,(List.append_nil _).symm⟩

theorem size32KB_fits (h : k ≤ size32KB) : ¬ k > size64KB - 1 :=
  Nat.not_lt.mpr (Nat.le_trans h (by decide))

theorem createFmt0Descript_added (attr : DesAttribute) (ho : Open c cfg) (hsize : attr.size ≤ size32KB)
    (hslot : c.des0cnt < c.maxDes0cnt - 1) : Added 1 c (createFmt0Descript c cfg attr).2 := by
  have hcnt : c.des0cnt + 1 = ahead c.maxDes0cnt c.des0cnt 1 := (if_pos (by omega)).symm
  simp only [createFmt0Descript,if_neg ho.used,if_neg ho.known, if_neg (size32KB_fits hsize)]
  exact ⟨⟨rfl,rfl,rfl,rfl,rfl,rfl,rfl⟩,hcnt,by rw [Cyclic.arc_one ho.slot]⟩

theorem createFmt1Descript_added (attr : DesAttribute) (ho : Open c cfg) (hsize : attr.size ≤ size32KB)
    (hslot : ¬ c.des0cnt < c.maxDes0cnt - 1) : Added 1 c (createFmt1Descript c cfg attr).2 := by
  have hlast : c.maxDes0cnt - 1 = c.des0cnt := by
    have := ho.slot
    omega
  have hcnt : 0 = ahead c.maxDes0cnt c.des0cnt 1 := by
    have := ho.slot
    rw [ahead,if_neg (by omega)]
    omega
  simp only [createFmt1Descript,if_neg ho.used,if_neg ho.known, if_neg (size32KB_fits hsize)]
  exact ⟨⟨rfl,rfl,rfl,rfl,rfl,rfl,rfl⟩,hcnt,by rw [Cyclic.arc_one ho.slot,hlast]⟩

theorem Added.of_accuSize (h : Added n { c with accuSize := a } d) : Added n c d :=
  ⟨⟨h.inUse,h.deviceNo,h.deviceCfg,h.max,h.residue,h.run,h.position⟩,h.des0cnt,h.pending⟩

theorem addOne_added (ho : Open c cfg) (attr : DesAttribute) (ptr : BitVec 32)
    (hsize : xferSize ≤ size32KB) (left : Nat) :
    Added 1 c (addOne c cfg attr ptr xferSize left).2 := by
  have hopen (a : BitVec 32) : Open { c with accuSize := a } cfg := ⟨ho.inUse,ho.device,ho.slot⟩
  simp only [addOne]
  split
  · rename_i hslot
    show Added 1 c (createFmt0Descript _ cfg _).2
    exact Added.of_accuSize (createFmt0Descript_added _ (hopen _) hsize hslot)
  · rename_i hslot
    show Added 1 c (createFmt1Descript _ cfg _).2
    exact Added.of_accuSize (createFmt1Descript_added _ (hopen _) hsize hslot)

theorem needed_step (h : size ≠ 0) : needed size = 1 + needed (size - min size size32KB) := by
  unfold needed
  split <;> split <;> simp only [size32KB] at * <;> omega

theorem addLoop_round (size i : Nat) (ptr : BitVec 32) (attr : DesAttribute) (ho : Open c cfg)
    (hr : r ≠ 0) : ∃ c₁ p, Added 0 c c₁ ∧ Open c₁ cfg ∧ r - min r size32KB < r ∧
      addLoop cfg size r i ptr attr c = addLoop cfg size (r - min r size32KB) (i + 1) p
        (addOne c₁ cfg attr p (min r size32KB) (r - min r size32KB)).1
        (addOne c₁ cfg attr p (min r size32KB) (r - min r size32KB)).2 := by
  have hfirst : Added 0 c (if r = size then (clearLastDescript c cfg).2 else c) := by
    split
    · exact clearLastDescript_added ho
    · exact .refl ho
  refine ⟨_,_,hfirst,hfirst.isOpen ho (Nat.zero_le _),?_,by rw [addLoop,if_neg hr]⟩
  simp only [size32KB]
  omega

theorem addLoop_added (cfg : DeviceCfg) (size r i : Nat) (ptr : BitVec 32) (attr : DesAttribute)
    (ho : Open c cfg) (room : needed r ≤ c.maxDes0cnt) :
    (addLoop cfg size r i ptr attr c).1 = i + needed r ∧
      Added (needed r) c (addLoop cfg size r i ptr attr c).2 := by
  induction r using Nat.strong_induction_on generalizing i ptr attr c with
  | _ r ih =>
    by_cases hr : r = 0
    · subst hr
      rw [addLoop,if_pos rfl]
      exact ⟨rfl,.refl ho⟩
    have hstep := needed_step hr
    obtain ⟨c₁,p,hfirst,hopen,hless,hround⟩ := addLoop_round size i ptr attr ho hr
    have hone := hfirst.trans (addOne_added hopen attr p (Nat.min_le_right r _)
      (r - min r size32KB)) ho (by omega)
    have hrest := ih _ hless (i + 1) p
      (addOne c₁ cfg attr p (min r size32KB) (r - min r size32KB)).1 (hone.isOpen ho (by omega))
      (by rw [hone.max]; omega)
    rw [hround]
    refine ⟨hrest.1.trans (by omega),?_⟩
    have hall := hone.trans hrest.2 ho (by omega)
    rwa [Nat.zero_add,← hstep] at hall

theorem addDescript_room (ho : Open c cfg) (ptr : BitVec 32) (stack : DesAttribute)
    (hres : 0 ≤ c.residueDes0cnt) (room : c.residueDes0cnt + needed size ≤ c.maxDes0cnt) :
    (addDescript c cfg ptr size stack).1 = needed size ∧
      Added (needed size) c (addDescript c cfg ptr size stack).2 := by
  have h := addLoop_added cfg size size 0 ptr stack ho (by omega)
  rw [addDescript,if_neg ho.used,if_neg ho.known,if_neg (by omega)]
  exact ⟨by simp [h.1],h.2⟩

theorem addDescript_full (ho : Open c cfg) (ptr : BitVec 32) (stack : DesAttribute)
    (full : c.maxDes0cnt < c.residueDes0cnt + needed size) :
    addDescript c cfg ptr size stack = (ebusy,c) := by
  rw [addDescript,if_neg ho.used,if_neg ho.known,if_pos (by omega)]

/-- Where the oldest unfinished descriptor is. A start sets an idle controller to the
first slot. -/
def oldest (c : Chan) : Nat := if c.run then c.position else 0

/-- The unfinished descriptors lie in order up to the next slot, and are counted. -/
structure Turning (c : Chan) : Prop where
  slot : oldest c < c.maxDes0cnt
  lap : c.pending.length ≤ c.maxDes0cnt
  pending : c.pending = arc c.maxDes0cnt (oldest c) c.pending.length
  next : c.des0cnt = ahead c.maxDes0cnt (oldest c) c.pending.length
  residue : c.residueDes0cnt = c.pending.length
  idle : c.run = false → c.pending = []
  device : c.run = true → c.deviceNo = c.deviceCfg.deviceReqType

structure ChanOk (c : Chan) : Prop where
  held : c.inUse = true → Turning c
  free : c.inUse = false → c.run = false ∧ c.pending = [] ∧ c.residueDes0cnt = 0

theorem ChanOk.ring (h : ChanOk c) : RingOk c := by
  rcases Bool.eq_false_or_eq_true c.inUse with hu | hu
  · have ht := h.held hu
    refine ⟨?_,Int.le_of_eq ht.residue.symm,ht.lap,fun hrun => ?_⟩
    · rw [ht.pending]
      exact Cyclic.arc_nodup ht.lap
    · have hp : oldest c = c.position := if_pos hrun
      exact ⟨hp ▸ ht.pending,hp ▸ ht.next⟩
  · obtain ⟨hrun,hp,hr⟩ := h.free hu
    refine ⟨hp ▸ List.nodup_nil,by simp [hp,hr],by rw [hp]; exact Nat.zero_le _,fun h => ?_⟩
    rw [hrun] at h
    cases h

theorem ChanOk.held_of_run (h : ChanOk c) (hrun : c.run = true) : c.inUse = true := by
  by_contra hu
  rw [(h.free (by simpa using hu)).1] at hrun
  cases hrun

theorem Turning.isOpen (h : Turning c) (hu : c.inUse = true)
    (hd : c.deviceNo = c.deviceCfg.deviceReqType) : Open c c.deviceCfg :=
  ⟨hu,hd,h.next ▸ Cyclic.ahead_lt h.slot h.lap⟩

theorem Turning.added (h : Turning c) (ho : Open c c.deviceCfg) (ha : Added n c d)
    (room : c.pending.length + n ≤ c.maxDes0cnt) :
    ChanOk { d with residueDes0cnt := c.residueDes0cnt + n, run := true, position := oldest c } := by
  have hlen : d.pending.length = c.pending.length + n := by simp [ha.pending]
  refine ⟨fun _ => ⟨?_,?_,?_,?_,?_,nofun,fun _ => ?_⟩,fun hu => ?_⟩
  · show oldest c < d.maxDes0cnt
    exact ha.max ▸ h.slot
  · show d.pending.length ≤ d.maxDes0cnt
    rw [hlen,ha.max]
    exact room
  · show d.pending = arc d.maxDes0cnt (oldest c) d.pending.length
    rw [hlen,ha.max,← Cyclic.arc_append h.slot room,← h.pending,← h.next,ha.pending]
  · show d.des0cnt = ahead d.maxDes0cnt (oldest c) d.pending.length
    rw [hlen,ha.max,← Cyclic.ahead_ahead h.slot room,← h.next,ha.des0cnt]
  · show c.residueDes0cnt + n = d.pending.length
    rw [hlen,h.residue]
    rfl
  · show d.deviceNo = d.deviceCfg.deviceReqType
    rw [ha.deviceNo,ha.deviceCfg]
    exact ho.device
  · exact absurd ((ha.inUse.trans ho.inUse).symm.trans hu) (by decide)

theorem wmtStartDma_refused (hsize : size ≠ 0)
    (h : (addDescript c c.deviceCfg ptr size stack).1 < 0)
    (hsame : (addDescript c c.deviceCfg ptr size stack).2 = c) :
    (wmtStartDma c ptr size stack).2 = c := by
  simp only [wmtStartDma,if_neg hsize,if_pos h]
  exact hsame

theorem addDescript_closed (ptr : BitVec 32) (size : Nat) (stack : DesAttribute)
    (h : ¬ (c.inUse = true ∧ c.deviceNo = cfg.deviceReqType)) :
    (addDescript c cfg ptr size stack).1 < 0 ∧ (addDescript c cfg ptr size stack).2 = c := by
  unfold addDescript
  split
  · exact ⟨(by decide : einval < 0),rfl⟩
  · rename_i hu
    rw [if_pos fun hd => h ⟨by simpa using hu,hd⟩]
    exact ⟨(by decide : enodev < 0),rfl⟩

theorem started_eq (k : Int) (hrun : d.run = c.run) (hpos : d.position = c.position) :
    (if d.run then { d with residueDes0cnt := k }
      else { d with residueDes0cnt := k, position := 0, run := true }) =
      { d with residueDes0cnt := k, run := true, position := oldest c } := by
  unfold oldest
  rw [← hrun,← hpos]
  cases d
  split <;> simp_all

theorem wmtStartDma_room (size : Nat) (ho : Open c c.deviceCfg) (ptr : BitVec 32) (stack : DesAttribute)
    (hsize : size ≠ 0) (hres : 0 ≤ c.residueDes0cnt)
    (room : c.residueDes0cnt + needed size ≤ c.maxDes0cnt) :
    ∃ d, Added (needed size) c d ∧ (wmtStartDma c ptr size stack).2 = { d with
      residueDes0cnt := min (c.residueDes0cnt + needed size) (c.maxDes0cnt - 1)
      run := true
      position := oldest c } := by
  obtain ⟨hret,ha⟩ := addDescript_room ho ptr stack hres room
  have hneg : ¬ (addDescript c c.deviceCfg ptr size stack).1 < 0 := by omega
  refine ⟨_,ha,?_⟩
  simp only [wmtStartDma,if_neg hsize,if_neg hneg]
  generalize addDescript c c.deviceCfg ptr size stack = r at hret ha
  have hmin : (if r.2.residueDes0cnt + r.1 > r.2.maxDes0cnt - 1 then (r.2.maxDes0cnt : Int) - 1
      else r.2.residueDes0cnt + r.1) = min (c.residueDes0cnt + needed size) (c.maxDes0cnt - 1) := by
    rw [hret,ha.residue,ha.max]
    split <;> omega
  rw [hmin]
  exact started_eq _ ha.run ha.position

theorem ChanOk.start (h : ChanOk c) (ptr : BitVec 32) (stack : DesAttribute)
    (hcare : c.inUse = true → c.deviceNo = c.deviceCfg.deviceReqType → size ≠ 0 →
      c.residueDes0cnt + needed size ≠ c.maxDes0cnt) :
    ChanOk (wmtStartDma c ptr size stack).2 := by
  by_cases hsize : size = 0
  · rw [wmtStartDma,if_pos hsize]
    exact h
  by_cases hopen : c.inUse = true ∧ c.deviceNo = c.deviceCfg.deviceReqType
  · have ht := h.held hopen.1
    have ho := ht.isOpen hopen.1 hopen.2
    have hres := ht.residue
    by_cases hfull : c.maxDes0cnt < c.residueDes0cnt + needed size
    · have hbusy := addDescript_full ho ptr stack hfull
      rw [wmtStartDma_refused hsize (by rw [hbusy]; exact (by decide : ebusy < 0)) (by rw [hbusy])]
      exact h
    have hleft := hcare hopen.1 hopen.2 hsize
    obtain ⟨d,ha,heq⟩ := wmtStartDma_room size ho ptr stack hsize (by omega) (Int.not_lt.mp hfull)
    have hok := ht.added ho ha (by omega)
    rwa [heq,Int.min_eq_left (by omega)]
  · have hno := addDescript_closed ptr size stack hopen
    rw [wmtStartDma_refused hsize hno.1 hno.2]
    exact h

theorem ChanOk.wake (h : ChanOk c) (ptr : BitVec 32) (stack : DesAttribute)
    (hcare : c.run = true → size ≠ 0 → size ≤ c.deviceCfg.chunkSize →
      c.residueDes0cnt + needed size ≤ c.maxDes0cnt) :
    ChanOk (wmtWakeDma c ptr size stack).2 := by
  unfold wmtWakeDma
  split
  · exact h
  split
  · exact h
  split
  · rename_i hsize hchunk hrun
    have hu := h.held_of_run hrun
    have ht := h.held hu
    have hres := ht.residue
    have ho := ht.isOpen hu (ht.device hrun)
    have room := hcare hrun hsize (by omega)
    obtain ⟨hret,ha⟩ := addDescript_room ho ptr stack (by omega) room
    have hok := ht.added ho ha (by omega)
    simp only
    generalize addDescript c c.deviceCfg ptr size stack = r at hret ha hok
    have hsame : { r.2 with residueDes0cnt := r.2.residueDes0cnt + r.1 } =
        { r.2 with residueDes0cnt := c.residueDes0cnt + needed size, run := true, position := oldest c } := by
      rw [hret,ha.residue,oldest,if_pos hrun,← ha.position,← ha.run.trans hrun]
    rw [hsame]
    exact hok
  · exact h

theorem reviseDescript_words (c : Chan) (cfg : DeviceCfg) (regs : MemRegGroup) :
    ∃ words, reviseDescript c cfg regs = { c with des0 := words } := by
  unfold reviseDescript
  split
  · exact ⟨c.des0,rfl⟩
  split
  · exact ⟨c.des0,rfl⟩
  simp only
  split
  · exact ⟨_,rfl⟩
  · exact ⟨c.des0,rfl⟩

theorem ChanOk.words (h : ChanOk c) (words : Nat → BitVec 32) : ChanOk { c with des0 := words } :=
  ⟨fun hu =>
    have ht := h.held hu
    ⟨ht.slot,ht.lap,ht.pending,ht.next,ht.residue,ht.idle,ht.device⟩,h.free⟩

theorem ChanOk.finish (h : ChanOk c) (hrun : c.run = true) (hf : finish c = some d) :
    ChanOk (countDown d) := by
  have hu := h.held_of_run hrun
  have ht := h.held hu
  have hpos : oldest c = c.position := if_pos hrun
  have hslot := hpos ▸ ht.slot
  have hres := ht.residue
  have hlap := ht.lap
  have hpending := hpos ▸ ht.pending
  have hnext := hpos ▸ ht.next
  unfold Dma.finish at hf
  split at hf
  · cases hf
  rename_i slot rest hp
  cases hf
  rw [hp,List.length_cons] at hres hlap hpending hnext
  rw [Nat.add_comm,← Cyclic.arc_append hslot (by omega),Cyclic.arc_one hslot,
    Cyclic.ahead_one hslot] at hpending
  rw [← Cyclic.ahead_next hslot (by omega)] at hnext
  have hrest := (List.cons.inj hpending).2
  have hold (k : Int) : oldest { c with
      pending := rest
      position := next c.maxDes0cnt c.position
      residueDes0cnt := k } = next c.maxDes0cnt c.position := if_pos hrun
  have hcount : c.residueDes0cnt > 0 := by omega
  rw [countDown,if_pos hcount]
  refine ⟨fun _ => ⟨?_,Nat.le_of_succ_le hlap,?_,?_,?_,?_,ht.device⟩,?_⟩
  · rw [hold]
    exact Cyclic.next_lt hslot
  · rw [hold]
    exact hrest
  · rw [hold]
    exact hnext
  · show c.residueDes0cnt - 1 = rest.length
    omega
  · intro hidle
    exact absurd (hrun.symm.trans hidle) (by decide)
  · intro hfree
    exact absurd (hu.symm.trans hfree) (by decide)

theorem countDown_words (c : Chan) (words : Nat → BitVec 32) :
    countDown { c with des0 := words } = { countDown c with des0 := words } := by
  simp only [countDown]
  split <;> rfl

theorem ChanOk.interrupt {channelSt : Nat} {active : Bool} (h : ChanOk c)
    (hi : interrupt c channelSt active regs = some d) : ChanOk d := by
  unfold Dma.interrupt at hi
  split at hi
  · cases hi
  rename_i hrun
  have hrun : c.run = true := by simpa using hrun
  split at hi
  · obtain ⟨e,hfin,rfl⟩ := Option.map_eq_some_iff.mp hi
    have hok := h.finish hrun hfin
    rename_i hst
    unfold dmaIrqHandler
    split
    · obtain ⟨words,hw⟩ := reviseDescript_words e e.deviceCfg regs
      rw [hw,countDown_words]
      exact hok.words words
    · rw [if_neg fun hne => hst.elim (by assumption) hne]
      exact hok
  · rename_i hst
    cases hi
    rw [dmaIrqHandler,if_neg fun hno => hst (.inl hno),if_pos fun hs => hst (.inr hs)]
    have hu := h.held_of_run hrun
    have hsame (cfg : DeviceCfg) : ∃ words, { reviseDescript (if active then { c with run := false } else c)
        cfg regs with run := true } = { c with des0 := words } := by
      obtain ⟨words,hw⟩ := reviseDescript_words (if active then { c with run := false } else c) cfg regs
      refine ⟨words,?_⟩
      rw [hw,← hrun]
      split <;> rfl
    have hused : ¬ (if active then { c with run := false } else c).inUse = false := by
      split <;> simp [hu]
    simp only [wmtResumeDma,if_neg hused]
    obtain ⟨words,hw⟩ := hsame (if active then { c with run := false } else c).deviceCfg
    rw [hw]
    exact h.words words

theorem Turning.of_idle (hrun : c.run = false) (hp : c.pending = []) (hcnt : c.des0cnt = 0)
    (hres : c.residueDes0cnt = 0) (hmax : 0 < c.maxDes0cnt) : Turning c := by
  have hold : oldest c = 0 := by simp [oldest,hrun]
  refine ⟨hold ▸ hmax,?_,?_,?_,?_,fun _ => hp,?_⟩
  · rw [hp]
    exact Nat.zero_le _
  · rw [hp]
    rfl
  · rw [hold,hp,hcnt]
    exact (if_pos hmax).symm
  · rw [hp,hres]
    rfl
  · intro h
    exact absurd (hrun.symm.trans h) (by decide)

theorem ChanOk.clear (h : ChanOk c) : ChanOk (wmtClearDma c) :=
  ⟨fun hu => .of_idle rfl rfl rfl rfl (Nat.zero_lt_of_lt (h.held hu).slot),fun _ => ⟨rfl,rfl,rfl⟩⟩

theorem ChanOk.release (h : ChanOk c) : ChanOk (wmtFreeDma c) := by
  unfold wmtFreeDma
  split
  · exact h
  split
  · exact h
  · exact ⟨nofun,fun _ => ⟨rfl,rfl,rfl⟩⟩

theorem requested_ok (table : Nat → DeviceCfg) (c : Chan) (device : Nat) (grant : Grant) :
    ChanOk (requested table c device grant) :=
  ⟨fun _ => .of_idle rfl rfl rfl rfl (by decide : 0 < (maxDescriptSize - des1Size) / des0Size + 1),nofun⟩

theorem onChannel_ok {ch : Nat} {call : Chan → Option (Int × Chan)} {r : Int}
    (h : onChannel s ch call = some (r,t)) :
    ∃ d, call (s ch) = some (r,d) ∧ t = Function.update s ch d := by
  unfold onChannel at h
  split at h
  · obtain ⟨p,hp,he⟩ := Option.map_eq_some_iff.mp h
    cases he
    exact ⟨p.2,hp,rfl⟩
  · cases h

theorem all_update {P : Chan → Prop} {ch : Nat} (h : ∀ x, P (s x)) (hd : P d) :
    ∀ x, P (Function.update s ch d x) :=
  (Function.forall_update_iff s fun _ c => P c).mpr ⟨hd,fun x _ => h x⟩

theorem step_all {P : Chan → Prop} {op : Op} {r : Int} (h : ∀ ch, P (s ch))
    (hstep : step table s op = some (r,t))
    (requests : ∀ c device grant, P (requested table c device grant))
    (starts : ∀ ch ptr size stack, op = .start ch ptr size stack →
      P (wmtStartDma (s ch) ptr size.toNat stack).2)
    (wakes : ∀ ch ptr size stack, op = .wake ch ptr size stack →
      P (wmtWakeDma (s ch) ptr size.toNat stack).2)
    (interrupts : ∀ ch channelSt active regs d, interrupt (s ch) channelSt active regs = some d → P d)
    (clears : ∀ ch, P (wmtClearDma (s ch))) (frees : ∀ ch, P (wmtFreeDma (s ch))) :
    ∀ ch, P (t ch) := by
  cases op <;> simp only [step] at hstep
  case request device grant =>
    unfold wmtRequestDma at hstep
    split at hstep
    · cases hstep
      exact h
    · cases hstep
      exact all_update h (requests _ device grant)
  all_goals
    obtain ⟨d,hd,rfl⟩ := onChannel_ok hstep
    refine all_update h ?_
  case start ch ptr size stack =>
    have hd : (wmtStartDma (s ch) ptr size.toNat stack).2 = d := congrArg Prod.snd (Option.some.inj hd)
    exact hd ▸ starts ch ptr size stack rfl
  case wake ch ptr size stack =>
    have hd : (wmtWakeDma (s ch) ptr size.toNat stack).2 = d := congrArg Prod.snd (Option.some.inj hd)
    exact hd ▸ wakes ch ptr size stack rfl
  case irq ch channelSt active regs =>
    obtain ⟨e,he,hed⟩ := Option.map_eq_some_iff.mp hd
    cases hed
    exact interrupts ch channelSt active regs d he
  case clear ch =>
    cases hd
    exact clears ch
  case free ch =>
    cases hd
    exact frees ch

theorem careful_step {op : Op} {r : Int} (h : ∀ ch, ChanOk (s ch)) (hcare : Careful s op)
    (hstep : step table s op = some (r,t)) : ∀ ch, ChanOk (t ch) := by
  refine step_all h hstep (requested_ok table) ?_ ?_ (fun ch _ _ _ _ he => (h ch).interrupt he)
    (fun ch => (h ch).clear) (fun ch => (h ch).release)
  · rintro ch ptr size stack rfl
    exact (h ch).start ptr stack hcare
  · rintro ch ptr size stack rfl
    exact (h ch).wake ptr stack hcare

theorem Turning.start_full (ht : Turning c) (ho : Open c c.deviceCfg) (ptr : BitVec 32)
    (stack : DesAttribute) (hsize : size ≠ 0) (hfull : c.residueDes0cnt + needed size = c.maxDes0cnt) :
    ∃ d, (wmtStartDma c ptr size stack).2 = d ∧ Open d d.deviceCfg ∧ d.maxDes0cnt = c.maxDes0cnt ∧
      d.residueDes0cnt = c.maxDes0cnt - 1 ∧ d.des0cnt = oldest c ∧
      d.pending = arc c.maxDes0cnt (oldest c) c.maxDes0cnt := by
  have hres := ht.residue
  have hslot := ht.slot
  obtain ⟨d,ha,heq⟩ := wmtStartDma_room size ho ptr stack hsize (by omega) (Int.le_of_eq hfull)
  have hall : c.pending.length + needed size = c.maxDes0cnt := by omega
  have hcnt : d.des0cnt = oldest c := by
    rw [ha.des0cnt,ht.next,Cyclic.ahead_ahead hslot (Nat.le_of_eq hall),hall,ahead,
      if_neg (by omega),Nat.add_sub_cancel]
  have hpending : d.pending = arc c.maxDes0cnt (oldest c) c.maxDes0cnt := by
    rw [ha.pending,ht.next]
    nth_rewrite 1 [ht.pending]
    rw [Cyclic.arc_append hslot (Nat.le_of_eq hall),hall]
  refine ⟨_,heq,⟨ha.inUse.trans ho.inUse,?_,?_⟩,ha.max,?_,hcnt,hpending⟩
  · show d.deviceNo = d.deviceCfg.deviceReqType
    rw [ha.deviceNo,ha.deviceCfg]
    exact ho.device
  · show d.des0cnt < d.maxDes0cnt
    rw [hcnt,ha.max]
    exact hslot
  · show min (c.residueDes0cnt + needed size) (c.maxDes0cnt - 1) = c.maxDes0cnt - 1
    omega

theorem RingOk.start_careful (h : ChanOk c) (ptr : BitVec 32) (stack : DesAttribute)
    (hring : RingOk (wmtStartDma c ptr size stack).2) (hu : c.inUse = true)
    (hd : c.deviceNo = c.deviceCfg.deviceReqType) (hsize : size ≠ 0) :
    c.residueDes0cnt + needed size ≠ c.maxDes0cnt := by
  intro hfull
  have ht := h.held hu
  obtain ⟨d,heq,_,_,hres,_,hpending⟩ := ht.start_full (ht.isOpen hu hd) ptr stack hsize hfull
  have hcounted := hring.counted
  rw [heq,hres,hpending,Cyclic.length_arc] at hcounted
  omega

theorem RingOk.wake_careful (h : ChanOk c) (ptr : BitVec 32) (stack : DesAttribute)
    (hring : RingOk (wmtWakeDma c ptr size stack).2) (hrun : c.run = true) (hsize : size ≠ 0)
    (hchunk : size ≤ c.deviceCfg.chunkSize) : c.residueDes0cnt + needed size ≤ c.maxDes0cnt := by
  by_contra hfull
  have hu := h.held_of_run hrun
  have ht := h.held hu
  have hres := ht.residue
  have hbusy := addDescript_full (ht.isOpen hu (ht.device hrun)) ptr stack (Int.not_le.mp hfull)
  have hcounted := hring.counted
  simp only [wmtWakeDma,if_neg hsize,if_neg (Nat.not_lt.mpr hchunk),if_pos hrun,hbusy,ebusy]
    at hcounted
  omega

theorem update_self {P : Chan → Prop} {ch : Nat} (h : ∀ x, P (Function.update s ch d x)) : P d :=
  ((Function.forall_update_iff s fun _ c => P c).mp h).1

theorem step_careful {op : Op} {r : Int} (h : ∀ ch, ChanOk (s ch))
    (hstep : step table s op = some (r,t)) (hring : ∀ ch, RingOk (t ch)) : Careful s op := by
  cases op <;> simp only [step] at hstep
  case start ch ptr size stack =>
    obtain ⟨d,hd,rfl⟩ := onChannel_ok hstep
    have hd : (wmtStartDma (s ch) ptr size.toNat stack).2 = d := congrArg Prod.snd (Option.some.inj hd)
    exact RingOk.start_careful (h ch) ptr stack (hd ▸ update_self hring)
  case wake ch ptr size stack =>
    obtain ⟨d,hd,rfl⟩ := onChannel_ok hstep
    have hd : (wmtWakeDma (s ch) ptr size.toNat stack).2 = d := congrArg Prod.snd (Option.some.inj hd)
    exact RingOk.wake_careful (h ch) ptr stack (hd ▸ update_self hring)
  all_goals exact trivial

/-- No ring is overrun as long as every start leaves a slot free and every wake-up finds room. -/
theorem ring_not_overrun {trace : List (Op × Int)}
    (h : Runs.Run (step table) Careful (fun _ => unused) trace s) :
    (∀ ch, RingOk (s ch)) ∧ ∀ op r t, step table s op = some (r, t) →
      ((∀ ch, RingOk (t ch)) ↔ Careful s op) := by
  have hok : ∀ ch, ChanOk (s ch) := by
    refine h.invariant (I := fun s : State => ∀ ch, ChanOk (s ch)) ?_ (fun ht hc hs => careful_step ht hc hs)
    exact fun _ => ⟨nofun, fun _ => ⟨rfl, rfl, rfl⟩⟩
  refine ⟨fun ch => (hok ch).ring, fun op r t hstep => ⟨step_careful hok hstep, fun hcare ch => ?_⟩⟩
  exact (careful_step hok hcare hstep ch).ring

def smallTable : Nat → DeviceCfg := fun device => ⟨device, 0x1000⟩

def smallGrant : Grant := ⟨fun _ => 0, 0x1000, 0x2000⟩

def noAttribute : DesAttribute := ⟨0, 0, 0, 0, 0, 0⟩

theorem ring_not_overrun_page : ∃ trace s,
    Runs.Run (step smallTable) Careful (fun _ => unused) trace s ∧ trace.length = 2 ∧
      ∀ ch, RingOk (s ch) := by
  have hrequest : step smallTable (fun _ => unused) (.request 0 smallGrant) =
      some (1, Function.update (fun _ => unused) 1 (requested smallTable unused 0 smallGrant)) := rfl
  have hcare : Careful (Function.update (fun _ => unused) 1 (requested smallTable unused 0 smallGrant))
      (.start 1 0 0x1000 noAttribute) := by
    intro _ _ _
    decide
  have hrun : Runs.Run (step smallTable) Careful (fun _ => unused) _ _ :=
    .next (.next .start (show Careful _ (.request 0 smallGrant) from trivial) hrequest) hcare rfl
  exact ⟨_, _, hrun, rfl, (ring_not_overrun hrun).1⟩

theorem smallStarts_run (first second : BitVec 32) : ∃ trace s,
    Runs.Run (step smallTable) (fun _ _ => True) (fun _ => unused) trace s ∧
      s 1 = (wmtStartDma (wmtStartDma (requested smallTable unused 0 smallGrant) 0 first.toNat
        noAttribute).2 0 second.toNat noAttribute).2 := by
  have hrequest : step smallTable (fun _ => unused) (.request 0 smallGrant) =
      some (1, Function.update (fun _ => unused) 1 (requested smallTable unused 0 smallGrant)) := rfl
  have hfirst : ∀ s ch size, ch < maxDmaChannels → step smallTable s (.start ch 0 size noAttribute) =
      some ((wmtStartDma (s ch) 0 size.toNat noAttribute).1,
        Function.update s ch (wmtStartDma (s ch) 0 size.toNat noAttribute).2) :=
    fun s ch size hch => if_pos hch
  have hch : 1 < maxDmaChannels := by decide
  refine ⟨_,_,.next (.next (.next .start trivial hrequest) trivial (hfirst _ 1 first hch)) trivial
    (hfirst _ 1 second hch),?_⟩
  simp only [Function.update_self]

/-- A second transfer is written into a slot that is not begun. -/
theorem full_ring_overwritten : ∃ trace s,
    Runs.Run (step smallTable) (fun _ _ => True) (fun _ => unused) trace s ∧
      (s 1).pending.length = 128 ∧ (s 1).maxDes0cnt = 127 ∧ (s 1).residueDes0cnt = 126 ∧
      ¬ (s 1).pending.Nodup := by
  obtain ⟨trace, s, hrun, hs⟩ := smallStarts_run 0x3F8000 0x1000
  have hturning := (requested_ok smallTable unused 0 smallGrant).held rfl
  have hall : (requested smallTable unused 0 smallGrant).residueDes0cnt +
      needed (0x3F8000 : BitVec 32).toNat = (requested smallTable unused 0 smallGrant).maxDes0cnt := by
    decide
  obtain ⟨d, hd, ho, hmax, hres, hcnt, hpending⟩ := hturning.start_full (hturning.isOpen rfl rfl) 0
    noAttribute (by decide) hall
  have hmax : d.maxDes0cnt = 127 := hmax
  have hres : d.residueDes0cnt = 126 := hres
  have hcnt : d.des0cnt = 0 := hcnt
  have hone : needed 0x1000 = 1 := by decide
  obtain ⟨e, he, heq⟩ := wmtStartDma_room 0x1000 ho 0 noAttribute (by decide) (by omega) (by omega)
  have hwritten : e.pending = arc 127 0 127 ++ [0] := by
    rw [he.pending, hpending, hmax, hcnt, hone]
    rfl
  refine ⟨trace, s, hrun, ?_⟩
  rw [hs, hd, show (0x1000 : BitVec 32).toNat = 0x1000 from rfl, heq]
  refine ⟨?_, he.max.trans hmax, ?_, ?_⟩
  · show e.pending.length = 128
    rw [hwritten]
    rfl
  · show min (d.residueDes0cnt + needed 0x1000) (d.maxDes0cnt - 1) = 126
    rw [hres, hmax, hone]
    rfl
  · show ¬ e.pending.Nodup
    rw [hwritten]
    have hmem : 0 ∈ arc 127 0 127 := List.mem_map.mpr ⟨0, List.mem_range.mpr (by decide), rfl⟩
    exact fun h => (List.nodup_append.mp h).2.2 0 hmem 0 List.mem_cons_self rfl

end Apc8750.Dma
