import Apc8750.I2c.Model

namespace Apc8750.I2c

def Request.tag (r : Request) : Nat × Bool × Nat := (r.id, r.nonBlock, r.msgs.length)

def Request.signal (r : Request) : Nat × Signal := (r.id, if r.nonBlock then .called else .woken)

structure Keeps (s t : Bus) : Prop where
  entering : t.entering = s.entering
  waiting : t.waiting = s.waiting
  next : t.next = s.next
  accepted : t.accepted = s.accepted
  log : t.log = s.log
  nack : s.isrNack = false → t.isrNack = false
  timeout : s.isrTimeout = false → t.isrTimeout = false

inductive Served (s t : Bus) : Prop where
  | goes (fifo : t.fifo.map Request.tag = s.fifo.map Request.tag) (finished : t.finished = s.finished)
      (signals : t.signals = s.signals) (freed : t.freed = s.freed)
      (pending : t.isrIntPending = s.isrIntPending)
  | ends (fifo : r.tag :: t.fifo.map Request.tag = s.fifo.map Request.tag)
      (finished : t.finished = s.finished ++ [r]) (signals : t.signals = s.signals ++ [r.signal])
      (freed : t.freed = s.freed ++ [r.id])
      (pending : t.isrIntPending = (s.isrIntPending || !r.nonBlock))

variable {s t : Bus} {r : Request} {rest : List Request} {m : Msg} {byte : Nat}

theorem startMsg_cases (h : startMsg s r rest = .ok t) :
    ∃ op, t = { s.clearFlags with op := some op, fifo := { r with xferLength := 1 } :: rest } := by
  unfold startMsg transferMsg at h
  dsimp only at h
  split at h
  · cases h
  rename_i m _
  cases start : m.start 0 with
  | error f =>
    rw [start] at h
    cases h
  | ok op =>
    rw [start] at h
    cases h
    exact ⟨op,rfl⟩

theorem startMsg_served (h : startMsg s q rest = .ok t)
    (fifo : q.tag :: rest.map Request.tag = s.fifo.map Request.tag) : Keeps s t ∧ Served s t := by
  obtain ⟨op,rfl⟩ := startMsg_cases h
  exact ⟨⟨rfl,rfl,rfl,rfl,rfl,fun _ => rfl,fun _ => rfl⟩,.goes fifo rfl rfl rfl rfl⟩

theorem finish_served (h : finish s r rest write = .ok t)
    (fifo : r.tag :: rest.map Request.tag = s.fifo.map Request.tag) : Keeps s t ∧ Served s t := by
  unfold finish at h
  dsimp only at h
  split at h
  · cases h
    exact ⟨⟨rfl,rfl,rfl,rfl,rfl,id,id⟩,.ends fifo rfl rfl rfl rfl⟩
  rename_i next rest
  have started : ∃ q : Request, q.tag = next.tag ∧ startMsg { s with
      fifo := next :: rest
      op := none
      finished := s.finished ++ [r]
      freed := s.freed ++ [r.id]
      signals := s.signals ++ [(r.id, if r.nonBlock then .called else .woken)]
      isrIntPending := s.isrIntPending || !r.nonBlock } q rest = .ok t := by
    split at h
    · exact ⟨{ next with xferMsgnum := next.xferMsgnum + 1 },rfl,h⟩
    · exact ⟨next,rfl,h⟩
  obtain ⟨q,tag,started⟩ := started
  obtain ⟨op,rfl⟩ := startMsg_cases started
  refine ⟨⟨rfl,rfl,rfl,rfl,rfl,fun _ => rfl,fun _ => rfl⟩,.ends ?_ rfl rfl rfl rfl⟩
  rw [List.map_cons] at fifo ⊢
  rw [← fifo,← tag]
  rfl

theorem put_tag : (r.put m).tag = r.tag := by
  simp [Request.put,Request.tag]

theorem readEnd_served (h : readEnd s r rest m byte = .ok t)
    (fifo : r.tag :: rest.map Request.tag = s.fifo.map Request.tag) : Keeps s t ∧ Served s t := by
  unfold readEnd at h
  split at h
  · have fifo' : ∀ n, (r.put n).tag :: rest.map Request.tag = s.fifo.map Request.tag := by
      intro n
      rw [put_tag,fifo]
    dsimp only at h
    split at h
    · cases h
      exact ⟨⟨rfl,rfl,rfl,rfl,rfl,id,id⟩,.goes (fifo' _) rfl rfl rfl rfl⟩
    split at h
    · split at h
      · exact startMsg_served h (fifo' _)
      · exact finish_served h (fifo' _)
    · cases h
      exact ⟨⟨rfl,rfl,rfl,rfl,rfl,id,id⟩,.goes (fifo' _) rfl rfl rfl rfl⟩
  · cases h

theorem writeEnd_served (h : writeEnd s r rest m = .ok t)
    (fifo : r.tag :: rest.map Request.tag = s.fifo.map Request.tag) : Keeps s t ∧ Served s t := by
  unfold writeEnd at h
  split at h
  · split at h
    · exact startMsg_served h fifo
    · exact finish_served h fifo
  split at h
  · cases h
  · cases h
    exact ⟨⟨rfl,rfl,rfl,rfl,rfl,id,id⟩,.goes fifo rfl rfl rfl rfl⟩

theorem byteEnd_served (h : byteEnd s byte = .ok t) : Keeps s t ∧ Served s t := by
  unfold byteEnd at h
  split at h
  · cases h
  rename_i r rest fifo
  have fifo : r.tag :: rest.map Request.tag = s.fifo.map Request.tag := by rw [fifo]; rfl
  split at h
  · cases h
  dsimp only at h
  have moved : Keeps { s with isrByteEnd := true } t ∧ Served { s with isrByteEnd := true } t := by
    split at h
    · exact readEnd_served h fifo
    · exact writeEnd_served h fifo
  obtain ⟨⟨e,w,n,a,l,k,o⟩,served⟩ := moved
  refine ⟨⟨e,w,n,a,l,k,o⟩,?_⟩
  cases served with
  | goes fifo finished signals freed pending => exact .goes fifo finished signals freed pending
  | ends fifo finished signals freed pending => exact .ends fifo finished signals freed pending

theorem enqueue_cases (h : enqueue s r = .ok t) :
    t.entering = (s.entering.filter fun q => q.id ≠ r.id) ∧ t.accepted = s.accepted ++ [r] ∧
    t.waiting = (if r.nonBlock then s.waiting else s.waiting ++ [r]) ∧ t.next = s.next ∧
    t.fifo.map Request.tag = (s.fifo ++ [r]).map Request.tag ∧ t.finished = s.finished ∧
    t.signals = s.signals ∧ t.freed = s.freed ∧ t.isrIntPending = s.isrIntPending ∧
    (s.isrNack = false → t.isrNack = false) ∧ (s.isrTimeout = false → t.isrTimeout = false) ∧
    t.log = s.log := by
  unfold enqueue at h
  dsimp only at h
  split at h
  · rename_i empty
    unfold startBuf at h
    dsimp only at h
    rw [empty]
    split at h
    · cases h
    rename_i m _
    split at h
    · cases h
      exact ⟨rfl,rfl,rfl,rfl,rfl,rfl,rfl,rfl,rfl,id,id,rfl⟩
    cases start : m.start 0 with
    | error f =>
      rw [start] at h
      cases h
    | ok op =>
      rw [start] at h
      cases h
      exact ⟨rfl,rfl,rfl,rfl,rfl,rfl,rfl,rfl,rfl,fun _ => rfl,fun _ => rfl,rfl⟩
  · cases h
    exact ⟨rfl,rfl,rfl,rfl,rfl,rfl,rfl,rfl,rfl,id,id,rfl⟩

end Apc8750.I2c
