import Apc8750.Dma.Submit

namespace Apc8750.Dma.Layout
open Cyclic (arc)

inductive Call where
  | start (ptr size : BitVec 32) (stack : DesAttribute)
  | wake (ptr size : BitVec 32) (stack : DesAttribute)
  | finished
  | clear

/-- A channel and the slots written since `wmt_request_dma`. -/
structure Tracked where
  chan : Chan
  written : List Nat

def submitted (s : Tracked) (r : Int × Chan) : Int × Tracked :=
  (r.1, ⟨r.2, s.written ++ r.2.pending.drop s.chan.pending.length⟩)

/-- A submission, the interrupt of a finished descriptor, or `wmt_clear_dma`. -/
def step (s : Tracked) : Call → Option (Int × Tracked)
  | .start ptr size stack => some (submitted s (wmtStartDma s.chan ptr size.toNat stack))
  | .wake ptr size stack => some (submitted s (wmtWakeDma s.chan ptr size.toNat stack))
  | .finished => (finish s.chan).map fun c => (0, { s with chan := countDown c })
  | .clear => some (0, { s with chan := wmtClearDma s.chan })

/-- Slot 126 is a branch to the address kept for the table, the others are not. -/
def Formatted (c : Chan) (slot : Nat) : Prop :=
  (c.des0 (slot * 2)).getLsbD 30 = decide (slot = 126) ∧ (slot = 126 → c.des0 254 = c.des0PhyAddr)

/-- Where the controller goes from a slot of a table at `base`. -/
def follow (c : Chan) (base : BitVec 32) (slot : Nat) : Nat :=
  if (c.des0 (slot * 2)).getLsbD 30 then (c.des0 (slot * 2 + 2) - base).toNat / des0Size else slot + 1

/-- Nothing behind word 254 is written, slots written have their format, others at most lose the end
mark. -/
structure Table (words : Nat → BitVec 32) (base : BitVec 32) (written : List Nat) (c : Chan) : Prop where
  max : c.maxDes0cnt = 127
  addr : c.des0PhyAddr = base
  slot : c.des0cnt < 127
  outside : ∀ w, 255 ≤ w → c.des0 w = words w
  formatted : ∀ x ∈ written, x < 127 ∧ Formatted c x
  untouched : ∀ w < 255, min (w / 2) 126 ∉ written → c.des0 w ||| desEnd = words w ||| desEnd

structure Put (c d : Chan) : Prop where
  max : d.maxDes0cnt = c.maxDes0cnt
  addr : d.des0PhyAddr = c.des0PhyAddr
  other : ∀ w, 255 ≤ w ∨ min (w / 2) 126 ≠ c.des0cnt → d.des0 w = c.des0 w
  formatted : Formatted d c.des0cnt
  slot : d.des0cnt < 127

theorem reqCnt_format (small : attr.size ≤ size32KB) (format : BitVec 32) :
    (reqCnt attr format).getLsbD 30 = format.getLsbD 30 := by
  have low : attr.size.testBit 30 = false := by
    apply Nat.testBit_lt_two_pow
    unfold size32KB at small
    omega
  simp only [reqCnt,BitVec.getLsbD_or,BitVec.getLsbD_ofNat,low]
  by_cases ends : attr.endDescript = 1 <;> by_cases inten : attr.interruptEn = 1 <;>
    simp [ends,inten,desEnd,intenDes]

theorem Table.put (h : Table words base written c) (p : Put c d) :
    Table words base (written ++ [c.des0cnt]) d where
  max := p.max.trans h.max
  addr := p.addr.trans h.addr
  slot := p.slot
  outside w high := (p.other w (.inl high)).trans (h.outside w high)
  formatted x mem := by
    by_cases same : x = c.des0cnt
    · exact same ▸ ⟨h.slot,p.formatted⟩
    obtain ⟨inside,bit,branch⟩ := h.formatted x (by simpa [same] using mem)
    refine ⟨inside,?_,fun last => ?_⟩
    · rw [p.other (x * 2) (.inr (by omega)),bit]
    · rw [p.other 254 (.inr (by omega)),p.addr,branch last]
  untouched w low unwritten := by
    simp only [List.mem_append,List.mem_singleton,not_or] at unwritten
    rw [p.other w (.inr unwritten.2),h.untouched w low unwritten.1]

theorem Table.of_words (h : Table words base written c) (max : d.maxDes0cnt = c.maxDes0cnt)
    (slot : d.des0cnt < 127) (des0 : d.des0 = c.des0) (addr : d.des0PhyAddr = c.des0PhyAddr) :
    Table words base written d where
  max := max.trans h.max
  addr := addr.trans h.addr
  slot := slot
  outside := des0 ▸ h.outside
  formatted x mem := by
    have formatted := h.formatted x mem
    rw [Formatted,← des0,← addr] at formatted
    exact formatted
  untouched := des0 ▸ h.untouched

theorem unmarked_or (x : BitVec 32) : x &&& ~~~desEnd ||| desEnd = x ||| desEnd := by
  refine BitVec.eq_of_getLsbD_eq fun i inside => ?_
  simp only [BitVec.getLsbD_or,BitVec.getLsbD_and,BitVec.getLsbD_not,inside]
  cases desEnd.getLsbD i <;> simp

theorem Table.clearLast (h : Table words base written c) (ho : Open c cfg) :
    Table words base written (clearLastDescript c cfg).2 := by
  have max := h.max
  have slot := h.slot
  simp only [clearLastDescript,if_neg ho.used,if_neg ho.known]
  generalize last : (if c.des0cnt ≥ 1 then c.des0cnt - 1 else c.maxDes0cnt - 1) * 2 = n
  have inside : n < 254 := by
    split at last <;> omega
  refine ⟨max,h.addr,slot,fun w high => ?_,fun x mem => ?_,fun w low unwritten => ?_⟩
  · exact (Function.update_of_ne (by omega) ..).trans (h.outside w high)
  · obtain ⟨below,bit,branch⟩ := h.formatted x mem
    refine ⟨below,?_,fun branches => ?_⟩
    · by_cases same : x * 2 = n
      · simp [same,← bit,desEnd]
      · simpa [same] using bit
    · exact (Function.update_of_ne (by omega) ..).trans (branch branches)
  · by_cases same : w = n
    · simpa [same,unmarked_or] using h.untouched w low unwritten
    · simp [same,h.untouched w low unwritten]

theorem createFmt0_put (attr : DesAttribute) (ho : Open c cfg) (small : attr.size ≤ size32KB)
    (slot : c.des0cnt < 126) : Put c (createFmt0Descript c cfg attr).2 := by
  simp only [createFmt0Descript,if_neg ho.used,if_neg ho.known,if_neg (size32KB_fits small)]
  refine ⟨rfl,rfl,fun w other => ?_,⟨?_,by omega⟩,Nat.succ_lt_succ slot⟩
  · dsimp only
    rw [Function.update_of_ne (by omega),Function.update_of_ne (by omega)]
  · dsimp only
    rw [Function.update_of_ne (by omega),Function.update_self,reqCnt_format small]
    simp [slot.ne]

theorem createFmt1_put (attr : DesAttribute) (ho : Open c cfg) (small : attr.size ≤ size32KB)
    (max : c.maxDes0cnt = 127) (slot : c.des0cnt = 126) (branches : attr.fmt = 1)
    (addr : attr.branchAddr = c.des0PhyAddr) : Put c (createFmt1Descript c cfg attr).2 := by
  simp only [createFmt1Descript,if_neg ho.used,if_neg ho.known,if_neg (size32KB_fits small),max]
  refine ⟨max.symm,rfl,fun w other => ?_,⟨?_,fun _ => ?_⟩,Nat.succ_pos 126⟩
  · dsimp only
    rw [Function.update_of_ne (by omega),Function.update_of_ne (by omega),
      Function.update_of_ne (by omega)]
  · dsimp only
    rw [slot,Function.update_of_ne (by omega),Function.update_of_ne (by omega),Function.update_self,
      reqCnt_format small,if_pos branches]
    decide
  · simp [addr]

theorem Put.of_accuSize (p : Put { c with accuSize := a } d) : Put c d :=
  ⟨p.max,p.addr,p.other,p.formatted,p.slot⟩

theorem addOne_put (ho : Open c cfg) (max : c.maxDes0cnt = 127) (attr : DesAttribute)
    (ptr : BitVec 32) (small : k ≤ size32KB) (left : Nat) :
    Put c (addOne c cfg attr ptr k left).2 := by
  have open' (a : BitVec 32) : Open { c with accuSize := a } cfg := ⟨ho.inUse,ho.device,ho.slot⟩
  have slot := ho.slot
  simp only [addOne]
  split
  · exact Put.of_accuSize (createFmt0_put _ (open' _) small (by simp only at *; omega))
  · exact Put.of_accuSize (createFmt1_put _ (open' _) small max (by simp only at *; omega) rfl rfl)

def Grown (words : Nat → BitVec 32) (base : BitVec 32) (written : List Nat) (c d : Chan) : Prop :=
  ∃ new, d.pending = c.pending ++ new ∧ Table words base (written ++ new) d

theorem Table.grown (h : Table words base written c) : Grown words base written c c :=
  ⟨[],by simp,by simpa using h⟩

theorem Grown.of_words (h : Grown words base written c d) (max : e.maxDes0cnt = d.maxDes0cnt)
    (cnt : e.des0cnt = d.des0cnt) (des0 : e.des0 = d.des0) (addr : e.des0PhyAddr = d.des0PhyAddr)
    (pending : e.pending = d.pending) : Grown words base written c e := by
  obtain ⟨new,grown,table⟩ := h
  exact ⟨new,pending.trans grown,table.of_words max (cnt ▸ table.slot) des0 addr⟩

theorem Table.addDescript (h : Table words base written c) (cfg : DeviceCfg) (ptr : BitVec 32)
    (size : Nat) (stack : DesAttribute) :
    Grown words base written c (addDescript c cfg ptr size stack).2 := by
  refine addDescript_induct h.grown (fun used known => ⟨used,known,h.max ▸ h.slot⟩)
    (fun d ho grown => ?_) fun d attr ptr k left ho small grown => ?_
  · obtain ⟨new,pending,table⟩ := grown
    refine ⟨new,?_,table.clearLast ho⟩
    rw [(clearLastDescript_added ho).pending,pending]
    exact List.append_nil _
  obtain ⟨new,pending,table⟩ := grown
  refine ⟨new ++ [d.des0cnt],?_,?_⟩
  · rw [(addOne_added ho attr ptr small left).pending,Cyclic.arc_one ho.slot,pending,List.append_assoc]
  · rw [← List.append_assoc]
    exact table.put (addOne_put ho table.max attr ptr small left)

theorem Table.start (h : Table words base written c) (ptr : BitVec 32) (size : Nat) (stack : DesAttribute) :
    Grown words base written c (wmtStartDma c ptr size stack).2 :=
  start_induct h.grown (h.addDescript _ _ _ _) fun _ _ _ _ hd => hd.of_words rfl rfl rfl rfl rfl

theorem Table.wake (h : Table words base written c) (ptr : BitVec 32) (size : Nat) (stack : DesAttribute) :
    Grown words base written c (wmtWakeDma c ptr size stack).2 :=
  wake_induct h.grown (h.addDescript _ _ _ _) fun _ _ _ _ hd => hd.of_words rfl rfl rfl rfl rfl

theorem Table.submitted {r : Int × Chan} (grown : Grown words base s.written s.chan r.2) :
    Table words base (submitted s r).2.written (submitted s r).2.chan := by
  obtain ⟨new,pending,table⟩ := grown
  simpa [Layout.submitted,pending] using table

theorem Table.step (h : Table words base s.written s.chan) (done : step s call = some (r,t)) :
    Table words base t.written t.chan := by
  cases call with
  | start ptr size stack =>
    cases done
    exact .submitted (h.start ptr size.toNat stack)
  | wake ptr size stack =>
    cases done
    exact .submitted (h.wake ptr size.toNat stack)
  | finished =>
    obtain ⟨c,finished,eq⟩ := Option.map_eq_some_iff.mp done
    cases eq
    unfold finish at finished
    split at finished
    · cases finished
    · cases finished
      unfold countDown
      split <;> exact h.of_words rfl h.slot rfl rfl
  | clear =>
    cases done
    exact h.of_words rfl (Nat.succ_pos 126) rfl rfl

theorem requested_table (table : Nat → DeviceCfg) (c : Chan) (device : Nat) (grant : Grant) :
    Table grant.words (requested table c device grant).des0PhyAddr [] (requested table c device grant) :=
  ⟨rfl,rfl,Nat.succ_pos 126,fun _ _ => rfl,nofun,fun _ _ _ => rfl⟩

theorem Table.follow_eq (h : Table words base written c) (all : ∀ x < 127, x ∈ written) (inside : x < 127) :
    follow c base x = if x = 126 then 0 else x + 1 := by
  obtain ⟨_,bit,branch⟩ := h.formatted x (all x inside)
  rw [follow,bit]
  by_cases last : x = 126
  · simp [last,branch last,h.addr]
  · simp [last]

theorem Table.follows (h : Table words base written c) (all : ∀ x < 127, x ∈ written) (n : Nat) :
    (follow c base)^[n] 0 = n % 127 := by
  induction n with
  | zero => rfl
  | succ n ih =>
    rw [Function.iterate_succ_apply',ih,h.follow_eq all (Nat.mod_lt n (by decide))]
    split <;> omega

/-- The table is always laid out as it should. Once written the controller goes round it, except on
a channel for memory, whose second table takes the place of the first one's address. -/
theorem ring_layout (table : Nat → DeviceCfg) (c : Chan) (device : Nat) (grant : Grant)
    (run : Runs.Run step (fun _ _ => True) ⟨requested table c device grant, []⟩ trace s) :
    Table grant.words (if device = memoryDmaReq then grant.phyAddr1 else grant.phyAddr) s.written s.chan ∧
    (device ≠ memoryDmaReq → (∀ x < 127, x ∈ s.written) →
      ∀ n, (follow s.chan grant.phyAddr)^[n] 0 = n % 127) := by
  have laid := run.invariant (I := fun s => Table grant.words _ s.written s.chan)
    (requested_table table c device grant) fun h _ done => h.step done
  refine ⟨laid, fun device all n => ?_⟩
  rw [← laid.follows all n]
  simp [requested, device]

theorem whole_table (device : Nat) : ∃ trace s,
    Runs.Run step (fun _ _ => True) ⟨requested smallTable unused device smallGrant,[]⟩ trace s ∧
      ∀ x < 127, x ∈ s.written := by
  refine ⟨_,_,.next (a := .start 0 0x3F8000 noAttribute) .start trivial rfl,fun x inside => ?_⟩
  have all : needed (0x3F8000 : BitVec 32).toNat = 127 := by decide
  obtain ⟨d,added,eq⟩ := wmtStartDma_room (c := requested smallTable unused device smallGrant)
    (0x3F8000 : BitVec 32).toNat ⟨rfl,rfl,Nat.succ_pos 126⟩ 0 noAttribute (by decide) (Int.le_refl 0)
    (by rw [all]; exact Int.le_refl 127)
  have pending : d.pending = arc 127 0 127 := all ▸ added.pending
  simp only [eq]
  show x ∈ d.pending
  rw [pending]
  exact List.mem_map.mpr ⟨x,List.mem_range.mpr inside,by simp [Cyclic.ahead,inside]⟩

theorem ring_layout_whole : ∃ trace s,
    Runs.Run step (fun _ _ => True) ⟨requested smallTable unused 0 smallGrant, []⟩ trace s ∧
      ∀ n, (follow s.chan smallGrant.phyAddr)^[n] 0 = n % 127 := by
  obtain ⟨trace, s, run, all⟩ := whole_table 0
  exact ⟨trace, s, run, (ring_layout smallTable unused 0 smallGrant run).2 (by decide) all⟩

/-- On a channel for memory the last descriptor branches to the second table. -/
theorem memory_ring_left : ∃ trace s,
    Runs.Run step (fun _ _ => True) ⟨requested smallTable unused memoryDmaReq smallGrant, []⟩ trace s ∧
      126 ∈ s.written ∧ s.chan.des0 254 = smallGrant.phyAddr1 ∧
      follow s.chan smallGrant.phyAddr 126 = 512 := by
  obtain ⟨trace, s, run, all⟩ := whole_table memoryDmaReq
  have laid := run.invariant (I := fun s => Table smallGrant.words _ s.written s.chan)
    (requested_table smallTable unused memoryDmaReq smallGrant) fun h _ done => h.step done
  obtain ⟨_, bit, branch⟩ := laid.formatted 126 (all 126 (by decide))
  have second : s.chan.des0 254 = 0x2000 := (branch rfl).trans laid.addr
  refine ⟨trace, s, run, all 126 (by decide), second, ?_⟩
  rw [follow, bit]
  show (s.chan.des0 254 - 0x1000).toNat / 8 = 512
  rw [second]
  rfl

end Apc8750.Dma.Layout
