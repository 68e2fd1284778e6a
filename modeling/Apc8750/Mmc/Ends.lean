import Apc8750.Mmc.Once

namespace Apc8750.Mmc

def StatusPoint.left : StatusPoint → Nat
  | .arm => 7
  | .soft => 6
  | .prep => 5
  | .issue => 4
  | .wait => 3
  | .check => 2
  | .again => 1

def DataPoint.left : DataPoint → Nat
  | .select => 11
  | .arm => 10
  | .soft => 9
  | .prep => 8
  | .dma => 7
  | .issue => 6
  | .wait => 5
  | .test => 4
  | .reset => 3
  | .fail => 2
  | .check => 1

def Pc.left : Pc → Nat
  | .idle => 0
  | .commandPrep _ => 2
  | .commandIssue _ => 1
  | .backPrep _ => 3
  | .backDma _ => 2
  | .backIssue _ => 1
  | .start call => call.dmaTimes * 90000 + 4
  | .top call loop _ => (call.dmaTimes + 1 - loop) * 90000 + 3
  | .status call loop _ count point => (call.dmaTimes - loop) * 90000 + 20 + count * 8 + point.left
  | .data call loop _ point => (call.dmaTimes - loop) * 90000 + 3 + point.left
  | .close _ => 2
  | .finish _ => 1

variable {h : Host} {call : Call} {resets : Bool} {rest : List Nat}

theorem statusStep_left (done : statusStep h call loop rest n point = some k) :
    k.pc.left < (Pc.status call loop rest n point).left := by
  cases point with
  | arm | soft | prep | issue => cases done; simp [Pc.left,StatusPoint.left]
  | wait =>
    simp only [statusStep] at done
    split at done
    · cases done
    · cases done; simp [Pc.left,StatusPoint.left]
  | check =>
    simp only [statusStep] at done
    split at done
    · cases done; simp [Pc.left,StatusPoint.left]
    · cases done; simp [Pc.left,StatusPoint.left]
  | again =>
    simp only [statusStep] at done
    split at done
    · rename_i more
      cases done
      simp only [Pc.left,StatusPoint.left]
      omega
    · cases done
      simp only [Pc.left,StatusPoint.left,DataPoint.left]
      omega

theorem dataStep_left (done : dataStep resets h call loop rest point = some k) :
    k.pc.left < (Pc.data call loop rest point).left := by
  cases point with
  | select | arm | soft | prep | dma | issue | reset | fail => cases done; simp [Pc.left,DataPoint.left]
  | wait =>
    simp only [dataStep] at done
    split at done
    · cases done
    · cases done; simp [Pc.left,DataPoint.left]
  | test =>
    simp only [dataStep] at done
    split at done
    · cases done; simp [Pc.left,DataPoint.left]
    · cases done; simp [Pc.left,DataPoint.left]
  | check =>
    simp only [dataStep] at done
    split at done
    · cases done; simp [Pc.left,DataPoint.left]
    · cases done
      simp only [Pc.left,DataPoint.left]
      omega

theorem thread_left (done : threadStep resets h = some k) : k.pc.left < h.pc.left := by
  unfold threadStep at done
  cases pc : h.pc with
  | idle => rw [pc] at done; cases done
  | commandPrep | commandIssue | backPrep | backDma | backIssue | start | close | finish =>
    rw [pc] at done
    cases done
    simp [Pc.left]
  | status => rw [pc] at done; exact statusStep_left done
  | data => rw [pc] at done; exact dataStep_left done
  | top =>
    rw [pc] at done
    simp only at done
    split at done
    · split at done <;> cases done <;> simp only [Pc.left,DataPoint.left,StatusPoint.left] <;> omega
    · cases done
      simp only [Pc.left]
      omega

theorem timeout_left (done : timeoutStep h = some k) : k.pc.left < h.pc.left := by
  unfold timeoutStep at done
  split at done
  · split at done
    · rename_i pc; rw [pc]; cases done; simp [Pc.left,StatusPoint.left]
    · rename_i pc; rw [pc]; cases done; simp [Pc.left,DataPoint.left]
    · cases done
  · cases done

theorem statusStep_stuck (stuck : statusStep h call loop rest n point = none) :
    point = .wait ∧ h.count = 0 := by
  unfold statusStep at stuck
  split at stuck
  · cases stuck
  · cases stuck
  · cases stuck
  · cases stuck
  · split at stuck
    · rename_i zero
      exact ⟨rfl,zero⟩
    · cases stuck
  · split at stuck <;> cases stuck
  · split at stuck <;> cases stuck

theorem dataStep_stuck (stuck : dataStep resets h call loop rest point = none) :
    point = .wait ∧ h.count = 0 := by
  cases point with
  | wait =>
    simp only [dataStep] at stuck
    split at stuck
    · rename_i zero
      exact ⟨rfl,zero⟩
    · cases stuck
  | check => simp only [dataStep] at stuck; split at stuck <;> cases stuck
  | select | arm | soft | prep | dma | issue | test | reset | fail => cases stuck

theorem thread_goes_on (busy : h.pc ≠ .idle) :
    threadStep resets h ≠ none ∨ timeoutStep h ≠ none := by
  by_cases stuck : threadStep resets h = none
  · right
    unfold threadStep at stuck
    split at stuck
    · rename_i pc
      exact absurd pc busy
    · cases stuck
    · cases stuck
    · cases stuck
    · cases stuck
    · cases stuck
    · cases stuck
    · split at stuck
      · split at stuck <;> cases stuck
      · cases stuck
    · rename_i pc
      obtain ⟨rfl,zero⟩ := statusStep_stuck stuck
      unfold timeoutStep
      rw [if_pos zero,pc]
      simp
    · rename_i pc
      obtain ⟨rfl,zero⟩ := dataStep_stuck stuck
      unfold timeoutStep
      rw [if_pos zero,pc]
      simp
    · cases stuck
    · cases stuck
  · exact .inl stuck

theorem step_left (position : Position h) (answered : Answered h a)
    (done : step resets h a = some (reply,k)) (other : ∀ req, a ≠ .request req) :
    k.pc.left ≤ h.pc.left ∧ (a = .thread ∨ a = .timeout → k.pc.left < h.pc.left) := by
  have still : a.interrupt = true → k.pc = h.pc := by
    intro interrupt
    obtain ⟨_,same | ⟨_,u,same,rfl⟩⟩ := interrupt_cases position answered interrupt done
    · exact same.pc
    · rw [(wake_keeps u).1,same.pc]
  cases a with
  | request req => exact absurd rfl (other req)
  | thread =>
    obtain ⟨u,some,eq⟩ := Option.map_eq_some_iff.mp done
    cases eq
    have less := thread_left some
    exact ⟨Nat.le_of_lt less,fun _ => less⟩
  | timeout =>
    obtain ⟨u,some,eq⟩ := Option.map_eq_some_iff.mp done
    cases eq
    have less := timeout_left some
    exact ⟨Nat.le_of_lt less,fun _ => less⟩
  | card status0 status1 rsp => exact ⟨Nat.le_of_eq (congrArg Pc.left (still rfl)),by simp⟩
  | dma event rsp => exact ⟨Nat.le_of_eq (congrArg Pc.left (still rfl)),by simp⟩
  | sdioIrq enable => exact ⟨Nat.le_of_eq (congrArg Pc.left (still rfl)),by simp⟩

theorem Position.answer {id : Nat} {status0 status1 : BitVec 8} (position : Position h)
    (pc : h.pc = .idle) (pending : h.pending = some id) (wakes : Wakes h status0 status1)
    (rsp : List Nat) :
    ∃ u, step resets h (.card status0 status1 rsp) = some (.done,u) ∧
      u.log = h.log ++ [.ended id] := by
  cases position with
  | rest _ none => rw [none] at pending; cases pending
  | plain here => rw [pc] at here; cases here
  | moving inside =>
    have here := inside.pc
    rw [pc] at here
    cases here
  | flying inside =>
    have here := inside.pc
    rw [pc] at here
    cases here
  | away _ mine unset cmd _ data =>
    obtain ⟨u,woken,same⟩ := regularIsr_wakes rsp wakes cmd fun mem => data (.inl mem)
    refine ⟨wake u,congrArg (some ∘ Reply.of h) woken,?_⟩
    unfold wake
    rw [same.doneData,unset]
    obtain rfl : h.mrq = id := Option.some.inj (mine.symm.trans pending)
    change u.log ++ [.ended u.mrq] = _
    rw [same.log,same.mrq]

/-- If each command is answered at most once, before its timeout, requests end in order, once each,
and the thread comes to the end of the one under way. -/
theorem requests_end_once {trace : List (Action × Reply)} {w : Host}
    (run : Runs.Run (step resets) Answered idle trace w) :
    (∀ f, .fault f ∉ trace.map Prod.snd) ∧
    endings w.log ++ w.pending.toList = List.range (handed trace) ∧ Live w.log ∧
    (w.pc ≠ .idle → step resets w .thread ≠ none ∨ step resets w .timeout ≠ none) ∧
    (∀ a reply u, Answered w a → step resets w a = some (reply, u) → (∀ req, a ≠ .request req) →
      u.pc.left ≤ w.pc.left ∧ (a = .thread ∨ a = .timeout → u.pc.left < w.pc.left)) ∧
    (w.pc = .idle → ∀ id, w.pending = some id → ∀ status0 status1 rsp, Wakes w status0 status1 →
      ∃ u, step resets w (.card status0 status1 rsp) = some (.done, u) ∧
        u.log = w.log ++ [.ended id]) := by
  have now : (∀ f, .fault f ∉ trace.map Prod.snd) ∧ Position w ∧ Accounts w ∧
      w.next = handed trace := by
    apply run.trace_invariant
    · refine ⟨by simp, .rest rfl rfl rfl, ⟨rfl, by simp [idle], ?_⟩, rfl⟩
      intro before after id eq
      simp [idle] at eq
    intro trace t a r u ht answered done
    obtain ⟨fine, position, acc, next⟩ := ht
    obtain ⟨position, acc, rfl, more⟩ := position_step position acc answered done
    refine ⟨?_, position, acc, ?_⟩
    · intro f mem
      rw [List.map_append] at mem
      rcases List.mem_append.mp mem with mem | mem
      · exact fine f mem
      · simp at mem
    · rw [more, next]
      exact List.countP_append.symm
  obtain ⟨fine, position, acc, next⟩ := now
  refine ⟨fine, next ▸ acc.ended, acc.live, ?_, ?_, ?_⟩
  · intro busy
    have goes : threadStep resets w ≠ none ∨ timeoutStep w ≠ none := thread_goes_on busy
    exact goes.imp (by simp [step]) (by simp [step])
  · exact fun a reply u answered done other => step_left position answered done other
  · exact fun pc id pending status0 status1 rsp wakes => position.answer pc pending wakes rsp

theorem requests_end_once_command : ∃ trace w,
    Runs.Run (step true) Answered idle trace w ∧ w.pending = none ∧ handed trace = 1 ∧
      endings w.log = [0] := by
  have entered : Runs.Run (step true) Answered idle _ _ :=
    .next .start (show Answered _ (.request ⟨7, 0x15, [0, 0, 0, 0], none, by decide⟩) from trivial) rfl
  have prepared := entered.next (show Answered _ .thread from trivial) rfl
  have issued := prepared.next (show Answered _ .thread from trivial) rfl
  have run := issued.next
    (show Answered _ (.card 0 rspDone [0, 0, 0, 9, 0]) from fun _ => by simp) rfl
  have ended := (requests_end_once run).2.1
  exact ⟨_, _, run, rfl, rfl, (List.append_nil _).symm.trans ended⟩

def sdioRead : Request := ⟨sdIoRwExtended, 0x35, [0, 0, 0, 0], some ⟨true, 512, [512]⟩, by decide⟩

def blockRead : Request := ⟨readSingleBlock, 0x35, [0, 0, 0, 0], some ⟨true, 512, [512]⟩, by decide⟩

/-- A data timeout follows the success of the DMA. -/
theorem request_ends_twice :
    (∃ trace w, Runs.Run (step true) (fun _ _ => True) idle trace w ∧ handed trace = 1 ∧
      endings w.log = [0, 0]) ∧
    ∃ trace w, Runs.Run (step true) (fun _ _ => True) idle trace w ∧ handed trace = 1 ∧
      w.log = [.completed 0, .ended 0, .returned 0, .completed 0] := by
  have all : ∀ (t : Host) (a : Action), (fun _ _ => true) t a = true → (fun _ _ => True) t a :=
    fun _ _ _ => trivial
  constructor
  · exact ⟨_, _, Runs.Run.exec all .start (show Runs.exec (step true) _ idle []
      (.request sdioRead :: List.replicate 8 .thread ++ [.dma evtSuccess [0, 0, 0, 9, 0],
        .card 0 dataTimeout [0, 0, 0, 9, 0], .thread, .thread, .thread, .thread]) = some _ from rfl),
      rfl, rfl⟩
  exact ⟨_, _, Runs.Run.exec all .start (show Runs.exec (step true) _ idle []
    (.request blockRead :: List.replicate 6 .thread ++ [.timeout, .thread, .card 0 rspTimeout []] ++
      List.replicate 8 .thread ++ [.card 0 rspDone [0, 0, 0, 9, 0]]) = some _ from rfl),
    rfl, rfl⟩

end Apc8750.Mmc
