import Apc8750.Mmc.Model

namespace Apc8750.Mmc

def Wakes (h : Host) (status0 status1 : BitVec 8) : Prop :=
  ¬ Inserted h status0 ∧ ¬ SdioOnly h status0 status1 ∧
    (status0 &&& h.mask0) ||| (status1 &&& h.mask1) ≠ 0

/-- The DMA interrupt does not end a command: it reports a success that nobody waits for. -/
def Silent (h : Host) (event : Nat) : Prop := event = evtSuccess ∧ h.dmaIntMask ≠ evtSuccess

/-- One interrupt per command at most, and none once the wait has timed out. -/
def Answered (h : Host) : Action → Prop
  | .card status0 status1 _ => Wakes h status0 status1 → h.flight ≠ none
  | .dma event _ => Silent h event ∨ h.flight = some .transfer
  | _ => True

structure Same (h k : Host) : Prop where
  mrq : k.mrq = h.mrq
  cmd : k.cmd = h.cmd
  doneData : k.doneData = h.doneData
  count : k.count = h.count
  pc : k.pc = h.pc
  next : k.next = h.next
  pending : k.pending = h.pending
  flight : k.flight = h.flight
  log : k.log = h.log
  opcode : k.opcode = h.opcode
  dmaIntMask : k.dmaIntMask = h.dmaIntMask

theorem Same.refl (h : Host) : Same h h := ⟨rfl,rfl,rfl,rfl,rfl,rfl,rfl,rfl,rfl,rfl,rfl⟩

theorem Same.trans (first : Same h k) (second : Same k l) : Same h l where
  mrq := second.mrq.trans first.mrq
  cmd := second.cmd.trans first.cmd
  doneData := second.doneData.trans first.doneData
  count := second.count.trans first.count
  pc := second.pc.trans first.pc
  next := second.next.trans first.next
  pending := second.pending.trans first.pending
  flight := second.flight.trans first.flight
  log := second.log.trans first.log
  opcode := second.opcode.trans first.opcode
  dmaIntMask := second.dmaIntMask.trans first.dmaIntMask

theorem setErrors_same (cmd : h.cmd = some req) (data : req.data.isSome) (e : Int) :
    ∃ k, setErrors h e = .ok k ∧ Same h k := by
  unfold setErrors
  rw [cmd]
  exact ⟨_,if_pos data,rfl,cmd.symm,rfl,rfl,rfl,rfl,rfl,rfl,rfl,rfl,rfl⟩

theorem fmtCheckRsp_same (cmd : h.cmd = some req) (rsp : List Nat) :
    ∃ k, fmtCheckRsp h rsp = .ok k ∧ Same h k := by
  unfold fmtCheckRsp
  rw [cmd]
  exact ⟨_,rfl,rfl,cmd.symm,rfl,rfl,rfl,rfl,rfl,rfl,rfl,rfl,rfl⟩

theorem regularErrors_same (cmd : h.cmd = some req)
    (data : h.opcode ∈ transferOpcodes → req.data.isSome) (status0 status1 : BitVec 8) :
    ∃ k, regularErrors h status0 status1 = .ok k ∧ Same h k := by
  have errors : h.opcode ∈ transferOpcodes → ∀ e, ∃ k, setErrors h e = .ok k ∧ Same h k :=
    fun mem => setErrors_same cmd (data mem)
  unfold regularErrors
  split
  · rename_i op
    exact errors (by rw [op]; decide) _
  split
  · rename_i op
    exact errors (by rcases op with op | op <;> rw [op] <;> decide) _
  split
  · rename_i op
    exact errors (by rw [op]; decide) _
  split
  · rename_i op
    have errors := errors (by rw [op]; decide)
    split
    · split
      · exact errors _
      · split
        · exact errors _
        · exact errors _
    · exact errors _
  · rw [cmd]
    dsimp only
    split
    · rename_i back
      exact setErrors_same cmd back.1 _
    · split
      · exact ⟨_,rfl,rfl,cmd.symm,rfl,rfl,rfl,rfl,rfl,rfl,rfl,rfl,rfl⟩
      · exact ⟨_,rfl,rfl,cmd.symm,rfl,rfl,rfl,rfl,rfl,rfl,rfl,rfl,rfl⟩

theorem regularIsr_quiet (quiet : ¬ Wakes h status0 status1) :
    regularIsr h status0 status1 rsp = .ok h := by
  unfold regularIsr
  split
  · rfl
  rename_i inserted
  split
  · rfl
  rename_i sdio
  split
  · rfl
  · rename_i some
    exact absurd ⟨inserted,sdio,some⟩ quiet

theorem regularIsr_wakes (rsp : List Nat) (wakes : Wakes h status0 status1) (cmd : h.cmd = some req)
    (data : h.opcode ∈ transferOpcodes → req.data.isSome) :
    ∃ k, regularIsr h status0 status1 rsp = .ok (wake k) ∧ Same h k := by
  obtain ⟨inserted,sdio,some⟩ := wakes
  obtain ⟨k,errors,same⟩ := regularErrors_same cmd data status0 status1
  obtain ⟨l,checked,same'⟩ := fmtCheckRsp_same (same.cmd.trans cmd) rsp
  unfold regularIsr
  rw [if_neg inserted,if_neg sdio,if_neg some,errors]
  change ∃ m, (fmtCheckRsp k rsp >>= _) = _ ∧ _
  rw [checked]
  refine ⟨disableInt l,rfl,same.trans (same'.trans ?_)⟩
  exact ⟨rfl,rfl,rfl,rfl,rfl,rfl,rfl,rfl,rfl,rfl,rfl⟩

theorem dmaIsr_silent (silent : Silent h event) : dmaIsr h event rsp = .ok { h with ier := false } := by
  obtain ⟨success,mask⟩ := silent
  have errors : dmaErrors h event = .ok h := (if_pos success).trans (if_neg mask)
  have checked : dmaRsp h rsp = .ok h := if_neg mask
  unfold dmaIsr
  rw [errors]
  change dmaRsp h rsp >>= _ = _
  rw [checked]
  exact if_neg (by simp [success,mask])

theorem dmaErrors_same (cmd : h.cmd = some req) (data : req.data.isSome) (event : Nat) :
    ∃ k, dmaErrors h event = .ok k ∧ Same h k := by
  unfold dmaErrors
  split
  · split
    · exact setErrors_same cmd data 0
    · exact ⟨h,rfl,.refl h⟩
  · exact setErrors_same cmd data eio

theorem dmaRsp_same (cmd : h.cmd = some req) (rsp : List Nat) :
    ∃ k, dmaRsp h rsp = .ok k ∧ Same h k := by
  unfold dmaRsp
  split
  · exact fmtCheckRsp_same cmd rsp
  · exact ⟨h,rfl,.refl h⟩

theorem dmaIsr_wakes (rsp : List Nat) (loud : ¬ Silent h event) (cmd : h.cmd = some req)
    (data : req.data.isSome) : ∃ k, dmaIsr h event rsp = .ok (wake k) ∧ Same h k := by
  obtain ⟨k,errors,same⟩ := dmaErrors_same cmd data event
  obtain ⟨l,checked,same'⟩ := dmaRsp_same (same.cmd.trans cmd) rsp
  have both := same.trans same'
  unfold dmaIsr
  rw [errors]
  change ∃ m, dmaRsp k rsp >>= _ = _ ∧ _
  rw [checked]
  refine ⟨{ l with ier := false },if_pos ?_,both.mrq,both.cmd,both.doneData,both.count,both.pc,
    both.next,both.pending,both.flight,both.log,both.opcode,both.dmaIntMask⟩
  by_contra quiet
  rw [not_or,not_not] at quiet
  exact loud ⟨quiet.1,by rw [← both.dmaIntMask]; exact quiet.2⟩

end Apc8750.Mmc
