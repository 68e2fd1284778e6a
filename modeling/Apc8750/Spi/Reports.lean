import Apc8750.Spi.Model
import Mathlib.Algebra.BigOperators.Group.List.Basic

namespace Apc8750.Spi

def sentBytes (t : Transfer) (o : Outcome) : List (Option UInt8) :=
  if t.rx then (List.range t.len).map fun i => some (o.wire i) else []

structure FifoOk (t : Transfer) (o : Outcome) : Prop where
  resets : ∀ k, spiFifoSize * k < t.len → o.reset k = true
  arrived : t.rx = true → ∀ i < t.len, i % spiFifoSize < o.arrived (i / spiFifoSize)

structure DmaOk (t : Transfer) (o : Outcome) : Prop where
  reset : o.reset 0 = true
  tx : o.txRequest = true
  rx : t.rx = true → o.rxRequest = true ∧ o.wait = .done
  wait : o.wait ≠ .timeout

def TransferOk (hw : Hw) (m : Message) (t : Transfer) (o : Outcome) : Prop :=
  t.len ≠ 0 → if usesDma hw m t then DmaOk t o else FifoOk t o

/-- It has a context, and once the controller is set up all its transfers go well. -/
structure Sound (hw : Hw) (m : Message) (o : MessageOutcome) : Prop where
  context : m.context = true
  transfers : o.config = true → ∀ i t, m.transfers[i]? = some t → TransferOk hw m t (o.transfer i)

/-- `complete` is called once, zero stands for a whole transfer, and no chip select or channel is
left behind. -/
structure Honest (r : Report) : Prop where
  calls : r.calls = 1
  done : r.status = 0 → r.actualLength = (r.message.transfers.map Transfer.len).sum ∧
    r.stored = r.message.transfers.mapIdx fun i t => sentBytes t (r.outcome.transfer i)
  cs : r.after.cs = false
  channels : r.after.channels = r.before.channels

theorem poll_first (h : ∀ v, test v = true) (hn : 0 < n) : poll test reads n i = 0 := by
  obtain ⟨n,rfl⟩ := Nat.exists_eq_succ_of_ne_zero (Nat.ne_of_gt hn)
  rw [poll,if_pos (h _)]

theorem spiTxIsFinish_eq (sr : Nat → Nat) : spiTxIsFinish sr = 0 :=
  poll_first (by simp [srTfeiMask]) (by decide)

theorem spiRxIsFinish_eq (sr : Nat → Nat) : spiRxIsFinish sr = 0 :=
  poll_first (by simp [srRfeiMask]) (by decide)

def incoming (o : Outcome) (k n : Nat) : List (Option UInt8) :=
  (List.range n).map fun i => if i % spiFifoSize < o.arrived (k + i / spiFifoSize) then
    some (o.wire (spiFifoSize * k + i)) else none

theorem incoming_part (h : cnt ≤ spiFifoSize) : incoming o k cnt = readFifo o k cnt := by
  refine List.map_congr_left (fun i hi => ?_)
  have hi := List.mem_range.mp hi
  rw [Nat.mod_eq_of_lt (Nat.lt_of_lt_of_le hi h),Nat.div_eq_of_lt (Nat.lt_of_lt_of_le hi h),
    Nat.add_zero]

theorem incoming_add (o : Outcome) (k n : Nat) :
    incoming o k (spiFifoSize + n) = readFifo o k spiFifoSize ++ incoming o (k + 1) n := by
  rw [← incoming_part (Nat.le_refl _)]
  simp only [incoming,List.range_add,List.map_append,List.map_map]
  congr 1
  refine List.map_congr_left (fun i _ => ?_)
  have hpos : 0 < spiFifoSize := by decide
  simp only [Function.comp_apply,Nat.add_mod_left,Nat.add_div_left _ hpos,Nat.mul_add,Nat.mul_one,
    Nat.add_assoc,Nat.add_comm 1]

theorem remainder_eq (hcnt : cnt < spiFifoSize) :
    remainder t o k cnt stored = ⟨0,store t stored (incoming o k cnt)⟩ := by
  unfold remainder
  by_cases h0 : cnt = 0
  · subst h0
    simp [incoming,store]
  · rw [if_pos ⟨h0,hcnt⟩,if_neg (by simp [spiTxIsFinish_eq]),incoming_part (Nat.le_of_lt hcnt)]

theorem fifoLoop_spec (k cnt : Nat) (stored : List (Option UInt8)) (hfuel : cnt < spiFifoSize * fuel) :
    ((fifoLoop t o fuel k cnt stored).left = 0 ↔
        ∀ j, 0 < j → spiFifoSize * j < cnt → o.reset (k + j) = true) ∧
      ((fifoLoop t o fuel k cnt stored).left = 0 →
        (fifoLoop t o fuel k cnt stored).stored = store t stored (incoming o k cnt)) := by
  induction fuel generalizing k cnt stored with
  | zero => omega
  | succ fuel ih =>
    rw [fifoLoop]
    by_cases hcnt : cnt ≥ spiFifoSize
    · obtain ⟨n,rfl⟩ := Nat.exists_eq_add_of_le hcnt
      rw [if_pos hcnt,if_neg (by simp [spiTxIsFinish_eq])]
      simp only
      rw [if_neg (by simp [spiRxIsFinish_eq]),Nat.add_sub_cancel_left]
      cases hreset : o.reset (k + 1) with
      | false =>
        rw [if_pos rfl]
        refine ⟨⟨?_,?_⟩,?_⟩
        · rintro hleft j hj hlt
          have := Nat.mul_le_mul_left spiFifoSize hj
          have hleft : n = 0 := hleft
          omega
        · intro hall
          by_contra hn
          have hlt : spiFifoSize * 1 < spiFifoSize + n := by
            have hn : n ≠ 0 := hn
            omega
          rw [hall 1 (by decide) hlt] at hreset
          cases hreset
        · intro hleft
          have hleft : n = 0 := hleft
          subst hleft
          rw [incoming_add]
          simp [incoming]
      | true =>
        rw [if_neg (by decide)]
        rw [Nat.mul_succ] at hfuel
        obtain ⟨hiff,hstored⟩ := ih (k + 1) n (store t stored (readFifo o k spiFifoSize)) (by omega)
        refine ⟨hiff.trans ⟨?_,?_⟩,?_⟩
        · intro hall j hj hlt
          obtain rfl | hj : j = 1 ∨ 1 < j := by omega
          · exact hreset
          have hmul : spiFifoSize * j = spiFifoSize * (j - 1) + spiFifoSize := by
            rw [← Nat.mul_succ]
            congr 1
            omega
          have := hall (j - 1) (by omega) (by omega)
          rwa [show k + 1 + (j - 1) = k + j by omega] at this
        · intro hall j hj hlt
          have hmul : spiFifoSize * (j + 1) = spiFifoSize * j + spiFifoSize := Nat.mul_succ _ _
          have := hall (j + 1) (by omega) (by omega)
          rwa [← Nat.add_assoc,Nat.add_right_comm] at this
        · intro hleft
          rw [hstored hleft,incoming_add]
          unfold store
          split
          · rw [List.append_assoc]
          · rfl
    · rw [if_neg hcnt,remainder_eq (Nat.not_le.mp hcnt)]
      refine ⟨iff_of_true rfl ?_,fun _ => rfl⟩
      intro j hj hlt
      have := Nat.mul_le_mul_left spiFifoSize hj
      omega

theorem incoming_eq_sent (hrx : t.rx = true) :
    incoming o 0 t.len = sentBytes t o ↔ ∀ i < t.len, i % spiFifoSize < o.arrived (i / spiFifoSize) := by
  rw [sentBytes,if_pos hrx,incoming,List.map_inj_left]
  simp only [List.mem_range,Nat.zero_add,Nat.mul_zero]
  refine forall₂_congr (fun i _ => ?_)
  split
  · rename_i h
    exact iff_of_true rfl h
  · rename_i h
    exact iff_of_false (by simp) h

theorem writeRead_iff (hlen : t.len ≠ 0) :
    ((writeRead t o).left = 0 ∧ (writeRead t o).stored = sentBytes t o) ↔ FifoOk t o := by
  unfold writeRead
  cases hreset : o.reset 0 with
  | false =>
    rw [if_pos rfl]
    refine iff_of_false (fun h => hlen h.1) ?_
    intro h
    rw [h.resets 0 (by omega)] at hreset
    cases hreset
  | true =>
    rw [if_neg (by decide)]
    have hfuel : t.len < spiFifoSize * (t.len + 1) := by
      simp only [spiFifoSize]
      omega
    obtain ⟨hleft,hstored⟩ := fifoLoop_spec (t := t) (o := o) 0 t.len [] hfuel
    have hbytes : store t [] (incoming o 0 t.len) = sentBytes t o ↔
        (t.rx = true → ∀ i < t.len, i % spiFifoSize < o.arrived (i / spiFifoSize)) := by
      cases hrx : t.rx with
      | false => simp [store,sentBytes,hrx]
      | true =>
        rw [store,if_pos hrx,List.nil_append,incoming_eq_sent hrx]
        simp
    constructor
    · rintro ⟨h0,hs⟩
      rw [hstored h0] at hs
      refine ⟨?_,hbytes.mp hs⟩
      intro k hk
      rcases Nat.eq_zero_or_pos k with rfl | hpos
      · exact hreset
      · have := hleft.mp h0 k hpos hk
        rwa [Nat.zero_add] at this
    · intro h
      have h0 := hleft.mpr (fun j _ hlt => by rw [Nat.zero_add]; exact h.resets j hlt)
      exact ⟨h0,(hstored h0).trans (hbytes.mpr h.arrived)⟩

def needed (t : Transfer) : Nat := if t.rx then 2 else 1

structure Granted (t : Transfer) (o : Outcome) : Prop where
  reset : o.reset 0 = true
  tx : o.txRequest = true
  rx : t.rx = true → o.rxRequest = true

theorem dmaWriteRead_refused (h : ¬ Granted t o) :
    dmaWriteRead hw t o line = (⟨t.len,[]⟩, csInactive hw line) := by
  unfold dmaWriteRead
  cases hreset : o.reset 0 with
  | false => rfl
  | true =>
    cases htx : o.txRequest with
    | false => rfl
    | true =>
      cases hrx : t.rx with
      | false => exact absurd ⟨hreset,htx,fun he => by rw [hrx] at he; cases he⟩ h
      | true =>
        cases hreq : o.rxRequest with
        | false => rfl
        | true => exact absurd ⟨hreset,htx,fun _ => hreq⟩ h

theorem dmaWriteRead_granted (h : Granted t o) :
    dmaWriteRead hw t o line = dmaMove hw t o { csInactive hw line with
      channels := (csInactive hw line).channels + needed t } := by
  unfold dmaWriteRead needed
  simp only [h.reset,h.tx]
  cases hrx : t.rx with
  | false => rfl
  | true => simp [h.rx hrx]

theorem dmaMove_timeout (h : o.wait = .timeout) :
    dmaMove hw t o line = (⟨t.len,[]⟩, csActive hw line) := by
  rw [dmaMove,if_pos h]

theorem dmaMove_over (h : o.wait ≠ .timeout) :
    dmaMove hw t o line = (⟨0,if t.rx then dmaBuffer t o else []⟩, { csActive hw line with
      channels := (csActive hw line).channels - needed t }) := by
  unfold dmaMove needed
  simp only [if_neg h]
  cases t.rx <;> rfl

theorem csActive_channels : (csActive hw line).channels = line.channels := by
  unfold csActive
  split <;> rfl

theorem csInactive_channels : (csInactive hw line).channels = line.channels := by
  unfold csInactive
  split <;> rfl

def Undriven (hw : Hw) (line : Line) : Prop := hw.program = false → line.cs = false

theorem Undriven.csActive (h : Undriven hw line) : Undriven hw (csActive hw line) := by
  intro hp
  rw [Spi.csActive,if_neg (by simp [hp])]
  exact h hp

theorem Undriven.csInactive (h : Undriven hw line) : (csInactive hw line).cs = false := by
  unfold Spi.csInactive
  split
  · rfl
  · rename_i hp
    exact h (by simpa using hp)

theorem dmaBuffer_eq_sent (hlen : t.len ≠ 0) (hrx : t.rx = true) :
    dmaBuffer t o = sentBytes t o ↔ o.wait = .done := by
  rw [sentBytes,if_pos hrx,dmaBuffer,List.map_inj_left]
  constructor
  · intro h
    have := h 0 (List.mem_range.mpr (Nat.pos_of_ne_zero hlen))
    by_contra hwait
    simp [hwait] at this
  · intro h i _
    rw [if_pos h]

theorem dmaWriteRead_spec (hw : Hw) (t : Transfer) (o : Outcome) (line : Line) (hlen : t.len ≠ 0) :
    (Undriven hw line → Undriven hw (dmaWriteRead hw t o line).2) ∧
      line.channels ≤ (dmaWriteRead hw t o line).2.channels ∧
      ((dmaWriteRead hw t o line).1.left = 0 ∧ (dmaWriteRead hw t o line).1.stored = sentBytes t o ∧
        (dmaWriteRead hw t o line).2.channels = line.channels ↔ DmaOk t o) := by
  by_cases hg : Granted t o
  · rw [dmaWriteRead_granted hg]
    by_cases hwait : o.wait = .timeout
    · rw [dmaMove_timeout hwait]
      refine ⟨?_,?_,?_⟩
      · intro h
        exact Undriven.csActive fun _ => h.csInactive
      · rw [csActive_channels]
        simp only [csInactive_channels]
        omega
      · exact iff_of_false (fun h => hlen h.1) (fun h => h.wait hwait)
    rw [dmaMove_over hwait]
    refine ⟨?_,?_,?_⟩
    · intro h
      have hoff : Undriven hw { csInactive hw line with
        channels := (csInactive hw line).channels + needed t } := fun _ => h.csInactive
      exact hoff.csActive
    · simp only [csActive_channels,csInactive_channels]
      omega
    simp only [csActive_channels,csInactive_channels,true_and,Nat.add_sub_cancel,and_true]
    cases hrx : t.rx with
    | false =>
      refine iff_of_true (by simp [sentBytes,hrx]) ?_
      exact ⟨hg.reset,hg.tx,fun h => (by rw [hrx] at h; cases h),hwait⟩
    | true =>
      simp only [↓reduceIte]
      rw [dmaBuffer_eq_sent hlen hrx]
      exact ⟨fun h => ⟨hg.reset,hg.tx,fun _ => ⟨hg.rx hrx,h⟩,hwait⟩,fun h => (h.rx hrx).2⟩
  · rw [dmaWriteRead_refused hg]
    refine ⟨fun h _ => h.csInactive,Nat.le_of_eq csInactive_channels.symm,?_⟩
    exact iff_of_false (fun h => hlen h.1) (fun h => hg ⟨h.reset,h.tx,fun hrx => (h.rx hrx).1⟩)

theorem move_spec (hw : Hw) (m : Message) (t : Transfer) (o : Outcome) (line : Line) :
    (Undriven hw line → Undriven hw (move hw m t o line).2) ∧
      line.channels ≤ (move hw m t o line).2.channels ∧
      (t.len - (move hw m t o line).1.left = t.len ∧ (move hw m t o line).1.stored = sentBytes t o ∧
        (move hw m t o line).2.channels = line.channels ↔ TransferOk hw m t o) := by
  unfold move TransferOk
  by_cases hlen : t.len = 0
  · rw [if_pos hlen]
    refine ⟨id,Nat.le_refl _,iff_of_true ⟨by omega,?_,rfl⟩ (fun h => absurd hlen h)⟩
    simp [sentBytes,hlen]
  have hcount : ∀ n, t.len - n = t.len ↔ n = 0 := by omega
  rw [if_neg hlen,hcount]
  simp only [hlen,ne_eq,not_false_eq_true,forall_true_left]
  cases hdma : usesDma hw m t with
  | true =>
    simp only [↓reduceIte]
    exact dmaWriteRead_spec hw t o line hlen
  | false =>
    simp only [Bool.false_eq_true,↓reduceIte,and_true]
    exact ⟨id,Nat.le_refl _,writeRead_iff hlen⟩

structure LineOk (hw : Hw) (p : Progress) : Prop where
  undriven : Undriven hw p.line
  inactive : p.active = false → p.line.cs = false

theorem oneTransfer_spec (hp : LineOk hw p) (m : Message) (t : Transfer) (o : Outcome) :
    LineOk hw (oneTransfer hw m t o p) ∧ p.line.channels ≤ (oneTransfer hw m t o p).line.channels ∧
      (oneTransfer hw m t o p).actualLength ≤ p.actualLength + t.len ∧
      ∃ b, (oneTransfer hw m t o p).stored = p.stored ++ [b] ∧
        ((oneTransfer hw m t o p).actualLength = p.actualLength + t.len ∧ b = sentBytes t o ∧
          (oneTransfer hw m t o p).line.channels = p.line.channels ↔ TransferOk hw m t o) := by
  have hline : Undriven hw (if p.active then p.line else csActive hw p.line) ∧
      (if p.active then p.line else csActive hw p.line).channels = p.line.channels := by
    split
    · exact ⟨hp.undriven,rfl⟩
    · exact ⟨hp.undriven.csActive,csActive_channels⟩
  unfold oneTransfer
  generalize (if p.active then p.line else csActive hw p.line) = line at hline
  obtain ⟨hundriven,hchannels⟩ := hline
  obtain ⟨hkeeps,hle,hiff⟩ := move_spec hw m t o line
  have hafter : (if t.csChange then csInactive hw (move hw m t o line).2
      else (move hw m t o line).2).channels = (move hw m t o line).2.channels := by
    split
    · exact csInactive_channels
    · rfl
  refine ⟨⟨?_,?_⟩,?_,?_,_,rfl,?_⟩
  · simp only
    split
    · exact fun _ => (hkeeps hundriven).csInactive
    · exact hkeeps hundriven
  · intro hchange
    simp only [Bool.not_eq_false'] at hchange
    simp only [hchange,↓reduceIte]
    exact (hkeeps hundriven).csInactive
  · simp only
    rw [hafter,← hchannels]
    exact hle
  · exact Nat.add_le_add_left (Nat.sub_le _ _) _
  · simp only
    rw [hafter,Nat.add_right_inj,← hchannels]
    exact hiff

theorem transferLoop_spec (hw : Hw) (m : Message) (o : Nat → Outcome) (i : Nat) (ts : List Transfer)
    (hp : LineOk hw p) :
    LineOk hw (transferLoop hw m o i ts p) ∧
      p.line.channels ≤ (transferLoop hw m o i ts p).line.channels ∧
      (transferLoop hw m o i ts p).actualLength ≤ p.actualLength + (ts.map Transfer.len).sum ∧
      ∃ more, (transferLoop hw m o i ts p).stored = p.stored ++ more ∧
        ((transferLoop hw m o i ts p).actualLength = p.actualLength + (ts.map Transfer.len).sum ∧
          more = ts.mapIdx (fun j t => sentBytes t (o (i + j))) ∧
          (transferLoop hw m o i ts p).line.channels = p.line.channels ↔
            ∀ j t, ts[j]? = some t → TransferOk hw m t (o (i + j))) := by
  induction ts generalizing i p with
  | nil => exact ⟨hp,Nat.le_refl _,Nat.le_refl _,[],(List.append_nil _).symm,by simp [transferLoop]⟩
  | cons t ts ih =>
    obtain ⟨hp',hle,hcount,b,hb,hiff⟩ := oneTransfer_spec hp m t (o i)
    obtain ⟨hq,hle',hcount',more,hmore,hiff'⟩ := ih (i + 1) hp'
    rw [transferLoop,List.map_cons,List.sum_cons]
    refine ⟨hq,hle.trans hle',by omega,b :: more,?_,?_⟩
    · rw [hmore,hb,List.append_assoc,List.singleton_append]
    have hsplit : (∀ j t', (t :: ts)[j]? = some t' → TransferOk hw m t' (o (i + j))) ↔
        TransferOk hw m t (o i) ∧ ∀ j t', ts[j]? = some t' → TransferOk hw m t' (o (i + 1 + j)) := by
      constructor
      · intro h
        refine ⟨h 0 t rfl,fun j t' hj => ?_⟩
        have := h (j + 1) t' hj
        rwa [← Nat.add_assoc,Nat.add_right_comm] at this
      rintro ⟨h,hrest⟩ j t' hj
      cases j with
      | zero =>
        cases hj
        exact h
      | succ j =>
        rw [Nat.add_comm j 1,← Nat.add_assoc]
        exact hrest j t' hj
    have hrest : ts.mapIdx (fun j t => sentBytes t (o (i + (j + 1)))) =
        ts.mapIdx (fun j t => sentBytes t (o (i + 1 + j))) := by
      simp only [Nat.add_comm _ 1,← Nat.add_assoc]
    rw [hsplit,← hiff,← hiff',List.mapIdx_cons,List.cons.injEq,hrest,Nat.add_zero]
    constructor
    · rintro ⟨hlen,⟨hbytes,hmoved⟩,hchannels⟩
      exact ⟨⟨by omega,hbytes,by omega⟩,by omega,hmoved,by omega⟩
    · rintro ⟨⟨hlen,hbytes,hchannels⟩,hlen',hmoved,hchannels'⟩
      exact ⟨by omega,⟨hbytes,hmoved⟩,by omega⟩

theorem oneMessage_spec (hw : Hw) (hm : m.complete = true) (hcs : line.cs = false) (o : MessageOutcome) :
    (oneMessage hw m o line).after.cs = false ∧
      (Honest (oneMessage hw m o line) ↔ Sound hw m o) := by
  have hstart : LineOk hw ⟨line,false,0,[]⟩ := ⟨fun _ => hcs,fun _ => hcs⟩
  have hcalls : (oneMessage hw m o line).calls = 1 ↔ m.context = true := by
    simp only [oneMessage,hm,Bool.true_and]
    cases m.context <;> simp
  cases hconfig : o.config with
  | false =>
    have hafter : (oneMessage hw m o line).after = line := by simp [oneMessage,hconfig,eagain]
    have hstatus : (oneMessage hw m o line).status ≠ 0 := by simp [oneMessage,hconfig,eagain]
    have hcs' := (congrArg Line.cs hafter).trans hcs
    refine ⟨hcs',fun h => ⟨hcalls.mp h.calls,?_⟩,fun h => ⟨hcalls.mpr h.context,?_,hcs',?_⟩⟩
    · intro he
      rw [hconfig] at he
      cases he
    · exact fun h0 => absurd h0 hstatus
    · exact congrArg Line.channels hafter
  | true =>
    obtain ⟨hline,_,_,more,hstored,hiff⟩ := transferLoop_spec hw m o.transfer 0 m.transfers hstart
    generalize hp : transferLoop hw m o.transfer 0 m.transfers ⟨line,false,0,[]⟩ = p at *
    have hreport : oneMessage hw m o line = ⟨m,o,0,p.actualLength,p.stored,
        if m.complete && m.context then 1 else 0,line,
        if p.active then csInactive hw p.line else p.line⟩ := by
      simp [oneMessage,hconfig,hp]
    have hafter : (if p.active then csInactive hw p.line else p.line).cs = false ∧
        (if p.active then csInactive hw p.line else p.line).channels = p.line.channels := by
      split
      · exact ⟨hline.undriven.csInactive,csInactive_channels⟩
      · rename_i hactive
        exact ⟨hline.inactive (by simpa using hactive),rfl⟩
    simp only [List.nil_append,Nat.zero_add] at hstored hiff
    subst hstored
    rw [hreport] at hcalls ⊢
    refine ⟨hafter.1,fun h => ⟨hcalls.mp h.calls,fun _ => ?_⟩,fun h => ⟨hcalls.mpr h.context,?_,?_,?_⟩⟩
    · obtain ⟨hlen,hbytes⟩ := h.done rfl
      exact hiff.mp ⟨hlen,hbytes,hafter.2.symm.trans h.channels⟩
    · intro _
      obtain ⟨hlen,hbytes,_⟩ := hiff.mpr (h.transfers hconfig)
      exact ⟨hlen,hbytes⟩
    · exact hafter.1
    · exact hafter.2.trans (hiff.mpr (h.transfers hconfig)).2.2

/-- The messages that `wmt_spi_transfer` has accepted, as it has put them into the queue. -/
def accepted (hw : Hw) (trace : List (Op × Int)) : List Message :=
  trace.filterMap fun e => match e.1 with
    | .transfer m => if e.2 = 0 then some (prepared hw m) else none
    | .work _ => none

structure SpiOk (hw : Hw) (trace : List (Op × Int)) (s : State) : Prop where
  fifo : accepted hw trace = s.reports.map Report.message ++ s.queue
  complete : ∀ m ∈ s.queue, m.complete = true
  cs : s.line.cs = false
  reports : ∀ r ∈ s.reports, Honest r ↔ Sound hw r.message r.outcome

theorem SpiOk.step (h : SpiOk hw trace s) (hstep : step hw s op = some (r,t)) :
    SpiOk hw (trace ++ [(op,r)]) t := by
  cases op with
  | transfer m =>
    simp only [Spi.step,Option.some.injEq,wmtSpiTransfer] at hstep
    split at hstep
    · cases hstep
      refine ⟨?_,h.complete,h.cs,h.reports⟩
      simp only [accepted,List.filterMap_append]
      exact (List.append_nil _).trans h.fifo
    rename_i hok
    cases hstep
    refine ⟨?_,?_,h.cs,h.reports⟩
    · simp only [accepted,List.filterMap_append]
      rw [← List.append_assoc,← h.fifo]
      rfl
    intro m' hm'
    rcases List.mem_append.mp hm' with hm' | hm'
    · exact h.complete m' hm'
    rw [List.mem_singleton.mp hm']
    simp only [Bool.or_eq_true,Bool.not_eq_true',not_or] at hok
    have hcomplete : m.complete = true := by simpa using hok.1.2
    exact hcomplete
  | work o =>
    cases hstep
    have hsame : accepted hw (trace ++ [(Op.work o, 0)]) = accepted hw trace := by
      simp only [accepted,List.filterMap_append]
      exact List.append_nil _
    unfold workRound
    split
    · exact ⟨hsame.trans h.fifo,h.complete,h.cs,h.reports⟩
    rename_i m rest hqueue
    have hm := h.complete m (hqueue ▸ List.mem_cons_self)
    obtain ⟨hcs,hiff⟩ := oneMessage_spec hw hm h.cs o
    refine ⟨?_,?_,hcs,?_⟩
    · rw [hsame,h.fifo,hqueue,List.map_append,List.append_assoc]
      rfl
    · exact fun m' hm' => h.complete m' (hqueue ▸ List.mem_cons_of_mem _ hm')
    · intro r hr
      rcases List.mem_append.mp hr with hr | hr
      · exact h.reports r hr
      · rw [List.mem_singleton.mp hr]
        exact hiff

/-- Messages are done in order, and report the truth exactly with a context and transfers that go
well. -/
theorem spi_reports {trace : List (Op × Int)}
    (h : Runs.Run (step hw) (fun _ _ => True) idle trace s) :
    accepted hw trace = s.reports.map Report.message ++ s.queue ∧
      (∀ m rest, s.queue = m :: rest → ∀ o, (workRound hw s o).queue = rest ∧
        (workRound hw s o).reports = s.reports ++ [oneMessage hw m o s.line]) ∧
      ∀ r ∈ s.reports, Honest r ↔ Sound hw r.message r.outcome := by
  have hok : SpiOk hw trace s := by
    refine h.trace_invariant (I := SpiOk hw) ?_ (fun ht _ hstep => ht.step hstep)
    exact ⟨rfl, fun _ hm => absurd hm List.not_mem_nil, rfl, fun _ hr => absurd hr List.not_mem_nil⟩
  refine ⟨hok.fifo, ?_, hok.reports⟩
  intro m rest hqueue o
  rw [workRound, hqueue]
  exact ⟨rfl, rfl⟩

def smallHw : Hw := ⟨true, true, false, true, 4096, 20000, 100000000⟩

def smallMessage : Message := ⟨[⟨true, true, 40, false, 8, 1000000⟩], true, true, false, false, 5000000, 8⟩

def smallOutcome (reset : Nat → Bool) : MessageOutcome where
  config := true
  transfer := fun _ => ⟨reset, fun _ _ => 0, fun _ _ => 0, fun _ => 32, fun _ => 7, true, true, .done⟩

theorem smallMessage_run (o : MessageOutcome) : ∃ trace s,
    Runs.Run (step smallHw) (fun _ _ => True) idle trace s ∧
      s.reports = [oneMessage smallHw smallMessage o ⟨false,0⟩] := by
  have hqueued : step smallHw idle (.transfer smallMessage) =
      some (0, ⟨[smallMessage],⟨false,0⟩,[]⟩) := rfl
  have hserved : step smallHw ⟨[smallMessage],⟨false,0⟩,[]⟩ (.work o) =
      some (0, workRound smallHw ⟨[smallMessage],⟨false,0⟩,[]⟩ o) := rfl
  exact ⟨_,_,.next (.next .start trivial hqueued) trivial hserved,rfl⟩

theorem spi_reports_small : ∃ trace s,
    Runs.Run (step smallHw) (fun _ _ => True) idle trace s ∧ ∃ r ∈ s.reports, Honest r := by
  obtain ⟨trace, s, hrun, hreports⟩ := smallMessage_run (smallOutcome fun _ => true)
  have hmem : oneMessage smallHw smallMessage (smallOutcome fun _ => true) ⟨false, 0⟩ ∈ s.reports :=
    hreports ▸ List.mem_cons_self
  refine ⟨trace, s, hrun, _, hmem, ((spi_reports hrun).2.2 _ hmem).mpr ⟨rfl, fun _ i t ht _ => ?_⟩⟩
  have ht : t = ⟨true, true, 40, false, 8, 1000000⟩ :=
    List.mem_singleton.mp (List.mem_of_getElem? ht)
  subst ht
  exact ⟨fun _ _ => rfl, fun _ i _ => Nat.mod_lt i (by decide)⟩

/-- The reset of the FIFOs fails before the first byte, and the message reports success. -/
theorem failed_reset_hidden : ∃ trace s,
    Runs.Run (step smallHw) (fun _ _ => True) idle trace s ∧ ∃ r ∈ s.reports,
      r.status = 0 ∧ r.actualLength = 0 ∧ (r.message.transfers.map Transfer.len).sum = 40 := by
  obtain ⟨trace, s, hrun, hreports⟩ := smallMessage_run (smallOutcome fun _ => false)
  exact ⟨trace, s, hrun, _, hreports ▸ List.mem_cons_self, rfl, rfl, rfl⟩

end Apc8750.Spi
