import Apc8750.Mmc.Handlers
import Mathlib.Data.List.Range

namespace Apc8750.Mmc

def endings (log : List Event) : List Nat := log.filterMap fun e =>
  match e with
  | .ended id => some id
  | _ => none

def Live (log : List Event) : Prop :=
  ∀ before after id, log = before ++ .completed id :: after → .returned id ∉ before

def Pc.call : Pc → Option Call
  | .start call => some call
  | .top call _ _ => some call
  | .status call _ _ _ _ => some call
  | .data call _ _ _ => some call
  | .close call => some call
  | .finish call => some call
  | _ => none

def Pc.request : Pc → Option Request
  | .commandPrep req => some req
  | .commandIssue req => some req
  | .backPrep req => some req
  | .backDma req => some req
  | .backIssue req => some req
  | _ => none

def Pc.waits : Pc → Bool
  | .status _ _ _ _ .wait => true
  | .data _ _ _ .wait => true
  | _ => false

def Pc.armed : Pc → Bool
  | .status _ _ _ _ point => point ∈ [.soft, .prep, .issue]
  | .data _ _ _ point => point ∈ [.soft, .prep, .dma, .issue]
  | _ => false

def Pc.Fits (opcode : Nat) : Pc → Prop
  | .commandIssue req => opcode = req.opcode
  | .backPrep req => req.data.isSome
  | .backDma req => req.data.isSome
  | .backIssue req => req.data.isSome
  | _ => True

structure Accounts (h : Host) : Prop where
  ended : endings h.log ++ h.pending.toList = List.range h.next
  returned : ∀ id, .returned id ∈ h.log → id ∈ endings h.log
  live : Live h.log

/-- The thread is in `atsmb_start_data`, whose request is under way. -/
structure Inside (h : Host) (call : Call) : Prop where
  pc : h.pc.call = some call
  pending : h.pending = some call.id
  mrq : h.mrq = call.id
  cmd : h.cmd = some call.req
  data : call.req.data = some call.data

/-- None; left to an interrupt, or about to be; or in `atsmb_start_data`, with a command in flight
or not. -/
inductive Position (h : Host) : Prop where
  | rest (pc : h.pc = .idle) (pending : h.pending = none) (flight : h.flight = none)
  | away (pc : h.pc = .idle) (pending : h.pending = some h.mrq) (unset : h.doneData = none)
      (cmd : h.cmd = some req) (flying : h.flight = some flight)
      (data : h.opcode ∈ transferOpcodes ∨ flight = .transfer → req.data.isSome)
  | plain (pc : h.pc.request = some req) (pending : h.pending = some h.mrq)
      (unset : h.doneData = none) (cmd : h.cmd = some req) (flight : h.flight = none)
      (fits : h.pc.Fits h.opcode)
  | moving (inside : Inside h call) (flight : h.flight = none)
      (count : h.count ≤ h.pc.waits.toNat)
      (armed : h.pc.armed = true → h.doneData = some call.id)
  | flying (inside : Inside h call) (flight : h.flight = some f) (waits : h.pc.waits = true)
      (set : h.doneData = some call.id) (count : h.count = 0)

variable {h k : Host}

theorem endings_append (l m : List Event) : endings (l ++ m) = endings l ++ endings m :=
  List.filterMap_append

theorem Live.append {log : List Event} {e : Event} (live : Live log)
    (fresh : ∀ id, e = .completed id → .returned id ∉ log) : Live (log ++ [e]) := by
  intro before after id eq
  rcases List.eq_nil_or_concat after with none | ⟨init,last,snoc⟩
  · rw [none] at eq
    obtain ⟨same,one⟩ := List.append_inj' eq rfl
    rw [← same]
    exact fresh id (List.cons.inj one).1
  · rw [snoc,List.concat_eq_append,← List.cons_append,← List.append_assoc] at eq
    exact live before init id (List.append_inj' eq rfl).1

structure Quiet (h k : Host) : Prop where
  log : k.log = h.log
  pending : k.pending = h.pending
  next : k.next = h.next

section
variable (acc : Accounts h)
include acc

theorem Accounts.quiet (quiet : Quiet h k) : Accounts k where
  ended := by rw [quiet.log,quiet.pending,quiet.next]; exact acc.ended
  returned := by rw [quiet.log]; exact acc.returned
  live := by rw [quiet.log]; exact acc.live

theorem Accounts.not_ended {id : Nat} (pending : h.pending = some id) :
    id ∉ endings h.log := by
  have nodup : (endings h.log ++ [id]).Nodup := by
    have ended := acc.ended
    rw [pending] at ended
    exact ended ▸ List.nodup_range
  intro mem
  exact (List.nodup_append.mp nodup).2.2 id mem id (List.mem_singleton_self _) rfl

theorem Accounts.returned_append (new : ∀ j, e = .returned j → j ∈ endings h.log)
    (mem : .returned j ∈ h.log ++ [e]) : j ∈ endings (h.log ++ [e]) := by
  rw [endings_append]
  rcases List.mem_append.mp mem with mem | mem
  · exact List.mem_append_left _ (acc.returned j mem)
  · exact List.mem_append_left _ (new j (List.mem_singleton.mp mem).symm)

theorem Accounts.completed {id : Nat} (pending : h.pending = some id)
    (log : k.log = h.log ++ [.completed id]) (same : k.pending = h.pending) (next : k.next = h.next) :
    Accounts k where
  ended := by
    rw [log,same,next,endings_append,← acc.ended]
    exact congrArg (· ++ _) (List.append_nil _)
  returned j mem := by
    rw [log] at mem ⊢
    exact acc.returned_append (by simp) mem
  live := by
    rw [log]
    apply acc.live.append
    intro j eq
    cases eq
    exact fun mem => acc.not_ended pending (acc.returned _ mem)

theorem Accounts.end (pending : h.pending = some h.mrq) :
    Accounts (requestEnd h) where
  ended := by
    have ended := acc.ended
    rw [pending] at ended
    unfold requestEnd
    rw [endings_append]
    exact (List.append_nil _).trans ended
  returned _ mem := acc.returned_append (by simp) mem
  live := acc.live.append (by simp)

theorem Accounts.left {id : Nat} (ended : id ∈ endings h.log)
    (log : k.log = h.log ++ [.returned id]) (pending : k.pending = h.pending)
    (next : k.next = h.next) : Accounts k where
  ended := by
    rw [log,pending,next,endings_append,← acc.ended]
    exact congrArg (· ++ _) (List.append_nil _)
  returned j mem := by
    rw [log] at mem ⊢
    exact acc.returned_append (fun _ eq => by cases eq; exact ended) mem
  live := by
    rw [log]
    exact acc.live.append (by simp)

end

section
variable (inside : Inside h call) (pc : k.pc.call = some call) (quiet : Quiet h k)
  (mrq : k.mrq = h.mrq) (cmd : k.cmd = h.cmd)
include inside pc quiet mrq cmd

theorem Inside.to : Inside k call :=
  ⟨pc,quiet.pending.trans inside.pending,mrq.trans inside.mrq,cmd.trans inside.cmd,inside.data⟩

theorem Inside.moves (flight : k.flight = none)
    (count : k.count ≤ k.pc.waits.toNat) (armed : k.pc.armed = true → k.doneData = some call.id) :
    Position k ∧ Quiet h k :=
  ⟨.moving (inside.to pc quiet mrq cmd) flight count armed,quiet⟩

theorem Inside.flies (flight : k.flight = some f)
    (waits : k.pc.waits = true) (set : k.doneData = some call.id) (count : k.count = 0) :
    Position k ∧ Quiet h k :=
  ⟨.flying (inside.to pc quiet mrq cmd) flight waits set count,quiet⟩

end

theorem statusStep_position (inside : Inside h call) (pc : h.pc = .status call loop rest n point)
    (flight : h.flight = none) (count : h.count ≤ h.pc.waits.toNat)
    (armed : h.pc.armed = true → h.doneData = some call.id)
    (done : statusStep h call loop rest n point = some k) : Position k ∧ Quiet h k := by
  rw [pc] at count armed
  cases point with
  | arm =>
    cases done
    exact inside.moves rfl ⟨rfl,rfl,rfl⟩ rfl rfl flight count fun _ => rfl
  | soft | prep =>
    cases done
    exact inside.moves rfl ⟨rfl,rfl,rfl⟩ rfl rfl flight count fun _ => armed rfl
  | issue =>
    cases done
    exact inside.flies rfl ⟨rfl,rfl,rfl⟩ rfl rfl rfl rfl (armed rfl) (Nat.le_zero.mp count)
  | wait =>
    simp only [statusStep] at done
    split at done
    · cases done
    · cases done
      exact inside.moves rfl ⟨rfl,rfl,rfl⟩ rfl rfl flight (Nat.sub_le_sub_right count 1) (by simp [Pc.armed])
  | check | again =>
    simp only [statusStep] at done
    split at done <;> cases done <;>
      exact inside.moves rfl ⟨rfl,rfl,rfl⟩ rfl rfl flight count (by simp [Pc.armed])

theorem dataStep_position (inside : Inside h call) (pc : h.pc = .data call loop rest point)
    (flight : h.flight = none) (count : h.count ≤ h.pc.waits.toNat)
    (armed : h.pc.armed = true → h.doneData = some call.id)
    (done : dataStep resets h call loop rest point = some k) : Position k ∧ Quiet h k := by
  rw [pc] at count armed
  cases point with
  | arm =>
    cases done
    exact inside.moves rfl ⟨rfl,rfl,rfl⟩ rfl rfl flight count fun _ => rfl
  | soft | prep | dma =>
    cases done
    exact inside.moves rfl ⟨rfl,rfl,rfl⟩ rfl rfl flight count fun _ => armed rfl
  | issue =>
    cases done
    exact inside.flies rfl ⟨rfl,rfl,rfl⟩ rfl rfl rfl rfl (armed rfl) (Nat.le_zero.mp count)
  | wait =>
    simp only [dataStep] at done
    split at done
    · cases done
    · cases done
      exact inside.moves rfl ⟨rfl,rfl,rfl⟩ rfl rfl flight (Nat.sub_le_sub_right count 1) (by simp [Pc.armed])
  | select | reset | fail =>
    cases done
    exact inside.moves rfl ⟨rfl,rfl,rfl⟩ rfl rfl flight count (by simp [Pc.armed])
  | test | check =>
    simp only [dataStep] at done
    split at done <;> cases done <;>
      exact inside.moves rfl ⟨rfl,rfl,rfl⟩ rfl rfl flight count (by simp [Pc.armed])

theorem moving_step (acc : Accounts h) (inside : Inside h call) (flight : h.flight = none)
    (count : h.count ≤ h.pc.waits.toNat) (armed : h.pc.armed = true → h.doneData = some call.id)
    (done : threadStep resets h = some k) : Position k ∧ Accounts k ∧ k.next = h.next := by
  have here := inside.pc
  cases pc : h.pc with
  | idle | commandPrep | commandIssue | backPrep | backDma | backIssue => rw [pc] at here; cases here
  | start c =>
    rw [pc] at here count
    cases here
    simp only [threadStep,pc] at done
    cases done
    obtain ⟨position,quiet⟩ := inside.moves (k := { h with
      cmdError := 0, dataError := 0, pc := .top call 1 call.data.sg }) rfl ⟨rfl,rfl,rfl⟩ rfl rfl
      flight count (by simp [Pc.armed])
    exact ⟨position,acc.quiet quiet,quiet.next⟩
  | top c loop rest =>
    rw [pc] at here count
    cases here
    have moved : ∀ p : Pc, p.call = some call → p.armed = false → p.waits = false →
        Position { h with pc := p } ∧ Accounts { h with pc := p } ∧ h.next = h.next := by
      intro p calls bare runs
      have count : h.count ≤ p.waits.toNat := by rw [runs]; exact count
      obtain ⟨position,quiet⟩ := inside.moves (k := { h with pc := p }) calls ⟨rfl,rfl,rfl⟩ rfl rfl
        flight count (by simp [bare])
      exact ⟨position,acc.quiet quiet,quiet.next⟩
    simp only [threadStep,pc] at done
    split at done
    · split at done <;> cases done <;> exact moved _ rfl rfl rfl
    · cases done
      exact moved _ rfl rfl rfl
  | status c loop rest n point =>
    rw [pc] at here
    cases here
    simp only [threadStep,pc] at done
    obtain ⟨position,quiet⟩ := statusStep_position inside pc flight count armed done
    exact ⟨position,acc.quiet quiet,quiet.next⟩
  | data c loop rest point =>
    rw [pc] at here
    cases here
    simp only [threadStep,pc] at done
    obtain ⟨position,quiet⟩ := dataStep_position inside pc flight count armed done
    exact ⟨position,acc.quiet quiet,quiet.next⟩
  | close c =>
    rw [pc] at here count
    cases here
    simp only [threadStep,pc] at done
    cases done
    obtain ⟨position,quiet⟩ := inside.moves (k := { h with opcode := 0, pc := .finish call }) rfl
      ⟨rfl,rfl,rfl⟩ rfl rfl flight count (by simp [Pc.armed])
    exact ⟨position,acc.quiet quiet,quiet.next⟩
  | finish c =>
    rw [pc] at here
    cases here
    simp only [threadStep,pc] at done
    cases done
    have ended := acc.end (inside.pending.trans (congrArg some inside.mrq.symm))
    refine ⟨.rest rfl rfl flight,ended.left ?_ rfl rfl rfl,rfl⟩
    unfold requestEnd
    rw [endings_append,inside.mrq]
    exact List.mem_append_right _ (List.mem_singleton_self _)

theorem plain_step (pc : h.pc.request = some req) (pending : h.pending = some h.mrq)
    (unset : h.doneData = none) (cmd : h.cmd = some req) (flight : h.flight = none)
    (fits : h.pc.Fits h.opcode) (done : threadStep resets h = some k) :
    Position k ∧ Quiet h k := by
  cases at' : h.pc with
  | commandPrep r =>
    rw [at'] at pc
    cases pc
    simp only [threadStep,at'] at done
    cases done
    exact ⟨.plain rfl pending unset cmd flight rfl,rfl,rfl,rfl⟩
  | commandIssue r =>
    rw [at'] at pc fits
    cases pc
    simp only [threadStep,at'] at done
    cases done
    refine ⟨.away rfl pending unset cmd rfl ?_,rfl,rfl,rfl⟩
    intro looked
    rcases looked with mem | transfer
    · have fits : h.opcode = req.opcode := fits
      exact req.carries (fits ▸ mem)
    · cases transfer
  | backPrep r | backDma r =>
    rw [at'] at pc fits
    cases pc
    simp only [threadStep,at'] at done
    cases done
    exact ⟨.plain rfl pending unset cmd flight fits,rfl,rfl,rfl⟩
  | backIssue r =>
    rw [at'] at pc fits
    cases pc
    simp only [threadStep,at'] at done
    cases done
    exact ⟨.away rfl pending unset cmd rfl fun _ => fits,rfl,rfl,rfl⟩
  | idle | start | top | status | data | close | finish => rw [at'] at pc; cases pc

theorem waiting_blocks (waits : h.pc.waits = true) (count : h.count = 0) :
    threadStep resets h = none := by
  unfold Pc.waits at waits
  split at waits
  · rename_i pc
    simp only [threadStep,pc]
    exact if_pos count
  · rename_i pc
    simp only [threadStep,pc]
    exact if_pos count
  · cases waits

theorem thread_step (position : Position h) (acc : Accounts h) (done : threadStep resets h = some k) :
    Position k ∧ Accounts k ∧ k.next = h.next := by
  cases position with
  | rest pc => simp only [threadStep,pc] at done; cases done
  | away pc => simp only [threadStep,pc] at done; cases done
  | plain pc pending unset cmd flight fits =>
    obtain ⟨position,quiet⟩ := plain_step pc pending unset cmd flight fits done
    exact ⟨position,acc.quiet quiet,quiet.next⟩
  | moving inside flight count armed => exact moving_step acc inside flight count armed done
  | flying inside flight waits set count =>
    rw [waiting_blocks waits count] at done
    cases done

theorem Position.inside (position : Position h) (here : h.pc.call = some call) :
    Inside h call ∧ h.count ≤ h.pc.waits.toNat := by
  cases position with
  | rest pc => rw [pc] at here; cases here
  | away pc => rw [pc] at here; cases here
  | plain pc =>
    exfalso
    unfold Pc.request at pc
    split at pc <;> simp_all [Pc.call]
  | moving inside _ count _ =>
    cases inside.pc.symm.trans here
    exact ⟨inside,count⟩
  | flying inside _ _ _ count =>
    cases inside.pc.symm.trans here
    exact ⟨inside,by rw [count]; exact Nat.zero_le _⟩

theorem timeout_step (position : Position h) (done : timeoutStep h = some k) :
    Position k ∧ Quiet h k := by
  unfold timeoutStep at done
  split at done
  · rename_i zero
    split at done
    · rename_i call loop rest count pc
      cases done
      have here : h.pc.call = some call := by rw [pc]; rfl
      obtain ⟨inside,_⟩ := position.inside here
      exact inside.moves rfl ⟨rfl,rfl,rfl⟩ rfl rfl rfl (Nat.le_of_eq zero) (by simp [Pc.armed])
    · rename_i call loop rest pc
      cases done
      have here : h.pc.call = some call := by rw [pc]; rfl
      obtain ⟨inside,_⟩ := position.inside here
      exact inside.moves rfl ⟨rfl,rfl,rfl⟩ rfl rfl rfl (Nat.le_of_eq zero) (by simp [Pc.armed])
    · cases done
  · cases done

theorem waits_unarmed {pc : Pc} (waits : pc.waits = true) : pc.armed = false := by
  unfold Pc.waits at waits
  split at waits
  · rfl
  · rfl
  · cases waits

theorem wake_step (position : Position h) (acc : Accounts h) (same : Same h k)
    (flight : h.flight ≠ none) : Position (wake k) ∧ Accounts (wake k) := by
  have acc' : Accounts k := acc.quiet ⟨same.log,same.pending,same.next⟩
  cases position with
  | rest pc pending none => exact absurd none flight
  | plain pc pending unset cmd none fits => exact absurd none flight
  | moving inside none count armed => exact absurd none flight
  | away pc pending unset cmd flying data =>
    have ends : wake k = requestEnd { k with flight := none } := by
      unfold wake
      rw [same.doneData,unset]
    rw [ends]
    refine ⟨.rest (same.pc.trans pc) rfl rfl,?_⟩
    apply Accounts.end
    · exact acc'.quiet ⟨rfl,rfl,rfl⟩
    · exact same.pending.trans (pending.trans (congrArg some same.mrq.symm))
  | @flying call f inside flight waits set count =>
    have wakes : wake k = { k with
        flight := none
        softTimeout := false
        count := k.count + 1
        doneData := none
        log := k.log ++ [.completed call.id] } := by
      unfold wake
      rw [same.doneData,set]
    have pending : k.pending = some call.id := same.pending.trans inside.pending
    rw [wakes]
    refine ⟨?_,acc'.completed pending rfl rfl rfl⟩
    have inside : Inside k call := inside.to (same.pc ▸ inside.pc)
      ⟨same.log,same.pending,same.next⟩ same.mrq same.cmd
    refine .moving ⟨inside.pc,inside.pending,inside.mrq,inside.cmd,inside.data⟩ rfl ?_ ?_
    · change k.count + 1 ≤ k.pc.waits.toNat
      rw [same.pc,waits,same.count,count]
      rfl
    intro armed
    have armed : h.pc.armed = true := same.pc ▸ armed
    rw [waits_unarmed waits] at armed
    cases armed

theorem Position.same (position : Position h) (same : Same h k) : Position k := by
  cases position with
  | rest pc pending flight =>
    exact .rest (same.pc.trans pc) (same.pending.trans pending) (same.flight.trans flight)
  | away pc pending unset cmd flying data =>
    exact .away (same.pc.trans pc) (by rw [same.pending,pending,same.mrq])
      (same.doneData.trans unset) (same.cmd.trans cmd) (same.flight.trans flying)
      (by rw [same.opcode]; exact data)
  | plain pc pending unset cmd flight fits =>
    exact .plain (by rw [same.pc]; exact pc) (by rw [same.pending,pending,same.mrq])
      (same.doneData.trans unset) (same.cmd.trans cmd) (same.flight.trans flight)
      (by rw [same.pc,same.opcode]; exact fits)
  | moving inside flight count armed =>
    exact .moving (inside.to (by rw [same.pc]; exact inside.pc) ⟨same.log,same.pending,same.next⟩
      same.mrq same.cmd) (same.flight.trans flight) (by rw [same.pc,same.count]; exact count)
      (by rw [same.pc,same.doneData]; exact armed)
  | flying inside flight waits set count =>
    exact .flying (inside.to (by rw [same.pc]; exact inside.pc) ⟨same.log,same.pending,same.next⟩
      same.mrq same.cmd) (same.flight.trans flight) (by rw [same.pc]; exact waits)
      (same.doneData.trans set) (same.count.trans count)

theorem Position.known (position : Position h) (flight : h.flight ≠ none) :
    ∃ req, h.cmd = some req ∧
      (h.opcode ∈ transferOpcodes ∨ h.flight = some .transfer → req.data.isSome) := by
  cases position with
  | rest _ _ none => exact absurd none flight
  | plain _ _ _ _ none _ => exact absurd none flight
  | moving _ none _ _ => exact absurd none flight
  | @away req f pc pending unset cmd flying data =>
    refine ⟨req,cmd,fun looked => data (looked.imp_right fun transfer => ?_)⟩
    exact Option.some.inj (flying.symm.trans transfer)
  | @flying call _ inside => exact ⟨call.req,inside.cmd,fun _ => by rw [inside.data]; rfl⟩

theorem enter_step (acc : Accounts h) (position : Position h) (pc : h.pc = .idle)
    (pending : h.pending = none) (req : Request) :
    Position (enter h req) ∧ Accounts (enter h req) := by
  have flight : h.flight = none := by
    cases position with
    | rest _ _ flight => exact flight
    | away _ some => rw [pending] at some; cases some
    | plain p => rw [pc] at p; cases p
    | moving inside => rw [inside.pending] at pending; cases pending
    | flying inside => rw [inside.pending] at pending; cases pending
  constructor
  · cases data : req.data with
    | none =>
      have entry : req.entry h.next = .commandPrep req := by rw [Request.entry,data]
      have entry : (enter h req).pc = .commandPrep req := entry
      exact .plain (by rw [entry]; rfl) rfl rfl rfl flight (by rw [entry]; trivial)
    | some d =>
      by_cases transfer : req.opcode ∈ transferOpcodes
      · have entry : req.entry h.next = .start ⟨h.next,req,d⟩ := by
          rw [Request.entry,data]
          exact if_pos transfer
        have entry : (enter h req).pc = .start ⟨h.next,req,d⟩ := entry
        refine .moving ⟨by rw [entry]; rfl,rfl,rfl,rfl,data⟩ flight (Nat.zero_le _) ?_
        rw [entry]
        exact fun armed => by cases armed
      · have entry : req.entry h.next = .backPrep req := by
          rw [Request.entry,data]
          exact if_neg transfer
        have entry : (enter h req).pc = .backPrep req := entry
        refine .plain (by rw [entry]; rfl) rfl rfl rfl flight ?_
        rw [entry]
        exact Option.isSome_iff_exists.mpr ⟨d,data⟩
  · refine ⟨?_,acc.returned,acc.live⟩
    have ended := acc.ended
    rw [pending] at ended
    change endings h.log ++ [h.next] = List.range (h.next + 1)
    rw [List.range_succ,← ended]
    simp

def Action.interrupt : Action → Bool
  | .card _ _ _ => true
  | .dma _ _ => true
  | .sdioIrq _ => true
  | _ => false

theorem interrupt_cases (position : Position h) (answered : Answered h a)
    (interrupt : a.interrupt = true) (done : step resets h a = some (reply,k)) :
    reply = .done ∧ (Same h k ∨ h.flight ≠ none ∧ ∃ u, Same h u ∧ k = wake u) := by
  cases a with
  | request req => cases interrupt
  | thread => cases interrupt
  | timeout => cases interrupt
  | card status0 status1 rsp =>
    simp only [step] at done
    by_cases wakes : Wakes h status0 status1
    · obtain ⟨req,cmd,data⟩ := position.known (answered wakes)
      obtain ⟨u,woken,same⟩ := regularIsr_wakes rsp wakes cmd fun mem => data (.inl mem)
      rw [woken] at done
      cases done
      exact ⟨rfl,.inr ⟨answered wakes,u,same,rfl⟩⟩
    · rw [regularIsr_quiet wakes] at done
      cases done
      exact ⟨rfl,.inl (.refl h)⟩
  | dma event rsp =>
    simp only [step] at done
    split at done
    · by_cases silent : Silent h event
      · rw [dmaIsr_silent silent] at done
        cases done
        exact ⟨rfl,.inl ⟨rfl,rfl,rfl,rfl,rfl,rfl,rfl,rfl,rfl,rfl,rfl⟩⟩
      have transfer := answered.resolve_left silent
      have flight : h.flight ≠ none := by rw [transfer]; simp
      obtain ⟨req,cmd,data⟩ := position.known flight
      obtain ⟨u,woken,same⟩ := dmaIsr_wakes rsp silent cmd (data (.inr transfer))
      rw [woken] at done
      cases done
      exact ⟨rfl,.inr ⟨flight,u,same,rfl⟩⟩
    · cases done
  | sdioIrq enable =>
    cases done
    exact ⟨rfl,.inl ⟨rfl,rfl,rfl,rfl,rfl,rfl,rfl,rfl,rfl,rfl,rfl⟩⟩

def handed (trace : List (Action × Reply)) : Nat := trace.countP fun x =>
  match x with
  | (.request _, _) => true
  | _ => false

theorem wake_keeps (h : Host) : (wake h).pc = h.pc ∧ (wake h).next = h.next := by
  unfold wake
  split
  · exact ⟨rfl,rfl⟩
  · exact ⟨rfl,rfl⟩

theorem interrupt_step (position : Position h) (acc : Accounts h) (answered : Answered h a)
    (interrupt : a.interrupt = true) (done : step resets h a = some (reply,k)) :
    Position k ∧ Accounts k ∧ reply = .done ∧ k.next = h.next := by
  obtain ⟨fine,same | ⟨flight,u,same,rfl⟩⟩ := interrupt_cases position answered interrupt done
  · exact ⟨position.same same,acc.quiet ⟨same.log,same.pending,same.next⟩,fine,same.next⟩
  · obtain ⟨position,acc⟩ := wake_step position acc same flight
    exact ⟨position,acc,fine,(wake_keeps u).2.trans same.next⟩

theorem position_step (position : Position h) (acc : Accounts h) (answered : Answered h a)
    (done : step resets h a = some (reply,k)) :
    Position k ∧ Accounts k ∧ reply = .done ∧ k.next = h.next + handed [(a,reply)] := by
  cases a with
  | request req =>
    simp only [step] at done
    split at done
    · rename_i pending pc
      cases done
      obtain ⟨position,acc⟩ := enter_step acc position pc pending req
      exact ⟨position,acc,rfl,rfl⟩
    · cases done
  | thread =>
    obtain ⟨u,some,eq⟩ := Option.map_eq_some_iff.mp done
    cases eq
    obtain ⟨position,acc,next⟩ := thread_step position acc some
    exact ⟨position,acc,rfl,next⟩
  | timeout =>
    obtain ⟨u,some,eq⟩ := Option.map_eq_some_iff.mp done
    cases eq
    obtain ⟨position,quiet⟩ := timeout_step position some
    exact ⟨position,acc.quiet quiet,rfl,quiet.next⟩
  | card status0 status1 rsp => exact interrupt_step position acc answered rfl done
  | dma event rsp => exact interrupt_step position acc answered rfl done
  | sdioIrq enable => exact interrupt_step position acc answered rfl done

end Apc8750.Mmc
