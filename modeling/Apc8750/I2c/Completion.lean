import Apc8750.I2c.Transfer
import Mathlib.Data.List.Nodup

namespace Apc8750.I2c

/-- No request is submitted while a submitter whose request has ended is to resume, and no two
block. -/
def Orderly (s : Bus) (a : Action) : Prop :=
  Steady s a ∧ ∀ msgs nonBlock, a = .submit msgs nonBlock →
    (∀ q ∈ s.waiting, q.id ∉ s.finished.map Request.id) ∧
    (nonBlock = false → s.waiting = [] ∧ ∀ r ∈ s.entering, r.nonBlock = true)

def Bus.taken (s : Bus) : List Request := s.finished ++ s.fifo

def Bus.arriving (s : Bus) : List Request := s.entering.filter fun r => !r.nonBlock

/-- One submitter blocks at most, and the flag says whether its request has ended. -/
structure Accounts (s : Bus) : Prop where
  signals : s.signals = s.finished.map Request.signal
  freed : s.freed = s.finished.map Request.id
  nodup : (s.taken.map Request.id).Nodup
  apart : ∀ r ∈ s.entering, r.id ∉ s.taken.map Request.id
  below : ∀ i ∈ s.entering.map Request.id ++ s.taken.map Request.id, i < s.next
  nack : s.isrNack = false
  timeout : s.isrTimeout = false
  tags : s.taken.map Request.tag = s.accepted.map Request.tag
  single : s.waiting.length + s.arriving.length ≤ 1
  blocking : ∀ x ∈ s.fifo.map Request.tag, x.2.1 = false → x ∈ s.waiting.map Request.tag
  waiting : ∀ q ∈ s.waiting, q.nonBlock = false ∧ q.tag ∈ s.taken.map Request.tag
  pending : ∀ q ∈ s.waiting, s.isrIntPending = true ↔ q.id ∈ s.finished.map Request.id
  clear : s.arriving ≠ [] → s.isrIntPending = false

variable {s t : Bus} {r q : Request} {a : Action} {reply : Reply}

theorem map_id_tag (l : List Request) : l.map Request.id = (l.map Request.tag).map Prod.fst := by
  rw [List.map_map]
  rfl

section
variable (h : Accounts s)
include h

theorem accounts_submit (msgs : List Msg) (nonBlock : Bool)
    (early : ∀ q ∈ s.waiting, q.id ∉ s.finished.map Request.id)
    (alone : nonBlock = false → s.waiting = [] ∧ ∀ r ∈ s.entering, r.nonBlock = true) :
    Accounts (enter s msgs nonBlock) where
  signals := h.signals
  freed := h.freed
  nodup := h.nodup
  apart := by
    intro r mem
    rcases List.mem_append.mp mem with mem | mem
    · exact h.apart r mem
    · obtain rfl := List.mem_singleton.mp mem
      exact fun old => Nat.lt_irrefl _ (h.below _ (List.mem_append_right _ old))
  below := by
    have entering : (enter s msgs nonBlock).entering.map Request.id =
        s.entering.map Request.id ++ [s.next] := List.map_append
    rw [entering]
    intro i mem
    change i < s.next + 1
    rcases List.mem_append.mp mem with mem | mem
    · rcases List.mem_append.mp mem with mem | mem
      · exact Nat.lt_succ_of_lt (h.below i (List.mem_append_left _ mem))
      · rw [List.mem_singleton.mp mem]
        exact Nat.lt_succ_self _
    · exact Nat.lt_succ_of_lt (h.below i (List.mem_append_right _ mem))
  nack := rfl
  timeout := rfl
  tags := h.tags
  single := by
    have single := h.single
    have arriving : (enter s msgs nonBlock).arriving.length =
        s.arriving.length + if nonBlock then 0 else 1 := by
      unfold Bus.arriving enter
      rw [List.filter_append,List.length_append]
      cases nonBlock <;> rfl
    rw [arriving]
    cases nonBlock with
    | true => exact single
    | false =>
      obtain ⟨none,rest⟩ := alone rfl
      have free : s.arriving = [] := by
        rw [Bus.arriving,List.filter_eq_nil_iff]
        intro r mem
        simp [rest r mem]
      change s.waiting.length + _ ≤ 1
      rw [none,free]
      simp
  blocking := h.blocking
  waiting := h.waiting
  pending := by
    intro q mem
    exact ⟨fun on => absurd on (by simp [enter]),fun ended => absurd ended (early q mem)⟩
  clear := fun _ => rfl

theorem Accounts.only (mem : r ∈ s.entering) (blocks : r.nonBlock = false) :
    s.waiting = [] ∧ s.arriving = [r] := by
  have here : r ∈ s.arriving := List.mem_filter.mpr ⟨mem,by simp [blocks]⟩
  have single := h.single
  have pos := List.length_pos_of_mem here
  refine ⟨List.eq_nil_of_length_eq_zero (by omega),?_⟩
  obtain ⟨x,eq⟩ := List.length_eq_one_iff.mp (show s.arriving.length = 1 by omega)
  rw [eq] at here
  rw [eq,List.mem_singleton.mp here]

theorem accounts_enqueue (mem : r ∈ s.entering) (queued : enqueue s r = .ok t) :
    Accounts t := by
  obtain ⟨entering,accepted,waiting,next,fifo,finished,signals,freed,pending,nack,
    timeout,_⟩ := enqueue_cases queued
  have taken : t.taken.map Request.tag = s.taken.map Request.tag ++ [r.tag] := by
    unfold Bus.taken
    rw [finished,List.map_append,fifo,List.map_append,List.map_append,List.append_assoc]
    rfl
  have ids : t.taken.map Request.id = s.taken.map Request.id ++ [r.id] := by
    rw [map_id_tag,taken,List.map_append,← map_id_tag]
    rfl
  have fewer : t.arriving.Sublist s.arriving := by
    unfold Bus.arriving
    rw [entering]
    exact List.Sublist.filter _ List.filter_sublist
  have fresh := h.apart r mem
  have new : r.id ∉ s.finished.map Request.id := fun old => fresh (by
    rw [Bus.taken,List.map_append]
    exact List.mem_append_left _ old)
  refine ⟨by rw [signals,h.signals,finished],by rw [freed,h.freed,finished],?_,?_,?_,
    nack h.nack,timeout h.timeout,?_,?_,?_,?_,?_,?_⟩
  · rw [ids]
    refine List.nodup_append.mpr ⟨h.nodup,List.nodup_singleton _,?_⟩
    intro i old j one same
    rw [same,List.mem_singleton.mp one] at old
    exact fresh old
  · rw [ids,entering]
    intro q mem'
    obtain ⟨mem',ne⟩ := List.mem_filter.mp mem'
    intro old
    rcases List.mem_append.mp old with old | one
    · exact h.apart q mem' old
    · exact absurd (List.mem_singleton.mp one) (by simpa using ne)
  · rw [ids,entering,next]
    intro i mem'
    rcases List.mem_append.mp mem' with mem' | mem'
    · obtain ⟨q,old,rfl⟩ := List.mem_map.mp mem'
      exact h.below q.id (List.mem_append_left _ (List.mem_map_of_mem (List.mem_of_mem_filter old)))
    rcases List.mem_append.mp mem' with mem' | one
    · exact h.below i (List.mem_append_right _ mem')
    · rw [List.mem_singleton.mp one]
      exact h.below r.id (List.mem_append_left _ (List.mem_map_of_mem mem))
  · rw [taken,h.tags,accepted,List.map_append]
    rfl
  · cases blocks : r.nonBlock with
    | true =>
      rw [waiting,blocks,if_pos rfl]
      exact Nat.le_trans (Nat.add_le_add_left fewer.length_le _) h.single
    | false =>
      obtain ⟨none,one⟩ := h.only mem blocks
      have gone : t.arriving = [] := by
        apply List.eq_nil_iff_forall_not_mem.mpr
        intro q mem'
        have same : q = r := by
          have old := fewer.subset mem'
          rwa [one,List.mem_singleton] at old
        rw [Bus.arriving,entering] at mem'
        have ne := (List.mem_filter.mp (List.mem_of_mem_filter mem')).2
        simp [same] at ne
      rw [waiting,blocks,if_neg (by simp),none,gone]
      exact Nat.le_refl _
  · intro x mem' blocks
    rw [fifo,List.map_append] at mem'
    rw [waiting]
    rcases List.mem_append.mp mem' with old | one
    · have old := h.blocking x old blocks
      split
      · exact old
      · rw [List.map_append]
        exact List.mem_append_left _ old
    · obtain rfl : x = r.tag := List.mem_singleton.mp one
      have blocks : r.nonBlock = false := blocks
      rw [if_neg (by simp [blocks]),List.map_append]
      exact List.mem_append_right _ one
  · intro q mem'
    rw [taken]
    rw [waiting] at mem'
    split at mem'
    · exact ⟨(h.waiting q mem').1,List.mem_append_left _ (h.waiting q mem').2⟩
    rename_i blocks
    rcases List.mem_append.mp mem' with old | one
    · exact ⟨(h.waiting q old).1,List.mem_append_left _ (h.waiting q old).2⟩
    · obtain rfl := List.mem_singleton.mp one
      exact ⟨by simpa using blocks,List.mem_append_right _ (List.mem_singleton_self _)⟩
  · intro q mem'
    rw [pending,finished]
    rw [waiting] at mem'
    split at mem'
    · exact h.pending q mem'
    rename_i blocks
    obtain ⟨none,one⟩ := h.only mem (by simpa using blocks)
    rw [none,List.nil_append] at mem'
    obtain rfl := List.mem_singleton.mp mem'
    rw [h.clear (by rw [one]; simp)]
    exact ⟨fun on => absurd on (by simp),fun old => absurd old new⟩
  · intro some
    rw [pending]
    apply h.clear
    intro none
    rw [none] at fewer
    exact some (List.sublist_nil.mp fewer)

theorem Accounts.tag_of_id (hq : q.tag ∈ s.taken.map Request.tag)
    (hr : r.tag ∈ s.taken.map Request.tag) (same : q.id = r.id) : q.tag = r.tag := by
  have nodup := h.nodup
  rw [map_id_tag] at nodup
  exact List.inj_on_of_nodup_map nodup hq hr same

theorem Accounts.ended (head : r.tag ∈ s.fifo.map Request.tag) (mem : q ∈ s.waiting) :
    (s.isrIntPending || !r.nonBlock) = true ↔
      q.id ∈ s.finished.map Request.id ∨ q.id = r.id := by
  obtain ⟨blocks,known⟩ := h.waiting q mem
  have taken : r.tag ∈ s.taken.map Request.tag := by
    rw [Bus.taken,List.map_append]
    exact List.mem_append_right _ head
  cases free : r.nonBlock with
  | true =>
    rw [Bool.not_true,Bool.or_false,h.pending q mem]
    refine ⟨.inl,fun ended => ended.resolve_right fun same => ?_⟩
    have tags := congrArg (fun x => x.2.1) (h.tag_of_id known taken same)
    exact absurd (blocks.symm.trans (tags.trans free)) (by simp)
  | false =>
    obtain ⟨p,waits,tags⟩ := List.mem_map.mp (h.blocking _ head free)
    have single := h.single
    have same : q = p := by
      obtain ⟨x,one⟩ := List.length_eq_one_iff.mp
        (show s.waiting.length = 1 by have := List.length_pos_of_mem mem; omega)
      rw [one] at mem waits
      rw [List.mem_singleton.mp mem,List.mem_singleton.mp waits]
    rw [Bool.not_false,Bool.or_true,same]
    exact ⟨fun _ => .inr (congrArg Prod.fst tags),fun _ => rfl⟩

theorem accounts_served (keeps : Keeps s t) (served : Served s t) :
    Accounts t := by
  have arriving : t.arriving = s.arriving := by rw [Bus.arriving,Bus.arriving,keeps.entering]
  cases served with
  | goes fifo finished signals freed pending =>
    have taken : t.taken.map Request.tag = s.taken.map Request.tag := by
      rw [Bus.taken,Bus.taken,finished,List.map_append,fifo,List.map_append]
    have ids : t.taken.map Request.id = s.taken.map Request.id := by
      rw [map_id_tag,taken,← map_id_tag]
    refine ⟨by rw [signals,h.signals,finished],by rw [freed,h.freed,finished],
      by rw [ids]; exact h.nodup,by rw [ids,keeps.entering]; exact h.apart,
      by rw [ids,keeps.entering,keeps.next]; exact h.below,keeps.nack h.nack,
      keeps.timeout h.timeout,by rw [taken,h.tags,keeps.accepted],
      by rw [keeps.waiting,arriving]; exact h.single,
      by rw [fifo,keeps.waiting]; exact h.blocking,
      by rw [keeps.waiting,taken]; exact h.waiting,
      by rw [keeps.waiting,pending,finished]; exact h.pending,
      by rw [arriving,pending]; exact h.clear⟩
  | @ends r fifo finished signals freed pending =>
    have taken : t.taken.map Request.tag = s.taken.map Request.tag := by
      rw [Bus.taken,Bus.taken,finished,List.map_append,List.map_append,List.map_append,← fifo,
        List.append_assoc]
      rfl
    have ids : t.taken.map Request.id = s.taken.map Request.id := by
      rw [map_id_tag,taken,← map_id_tag]
    have head : r.tag ∈ s.fifo.map Request.tag := by
      rw [← fifo]
      exact List.mem_cons_self
    refine ⟨by rw [signals,h.signals,finished,List.map_append]; rfl,
      by rw [freed,h.freed,finished,List.map_append]; rfl,
      by rw [ids]; exact h.nodup,by rw [ids,keeps.entering]; exact h.apart,
      by rw [ids,keeps.entering,keeps.next]; exact h.below,keeps.nack h.nack,
      keeps.timeout h.timeout,by rw [taken,h.tags,keeps.accepted],
      by rw [keeps.waiting,arriving]; exact h.single,?_,
      by rw [keeps.waiting,taken]; exact h.waiting,?_,?_⟩
    · intro x mem blocks
      rw [keeps.waiting]
      exact h.blocking x (by rw [← fifo]; exact List.mem_cons_of_mem _ mem) blocks
    · intro q mem
      rw [keeps.waiting] at mem
      rw [pending,finished,List.map_append,List.mem_append,List.map_singleton, List.mem_singleton]
      exact h.ended head mem
    intro some
    rw [arriving] at some
    have single := h.single
    have none : s.waiting = [] := by
      apply List.eq_nil_of_length_eq_zero
      have := List.length_pos_iff.mpr some
      omega
    have free : r.nonBlock = true := by
      by_contra blocks
      have waits := h.blocking _ head (Bool.not_eq_true _ ▸ blocks)
      rw [none] at waits
      cases waits
    rw [pending,h.clear some,free]
    rfl

theorem Accounts.resumed (set : s.isrIntPending = true) (mem : q ∈ s.waiting) :
    ∃ r ∈ s.finished, r.tag = q.tag := by
  obtain ⟨r,ended,same⟩ := List.mem_map.mp ((h.pending q mem).mp set)
  refine ⟨r,ended,h.tag_of_id ?_ (h.waiting q mem).2 same⟩
  rw [Bus.taken,List.map_append]
  exact List.mem_append_left _ (List.mem_map_of_mem ended)

theorem accounts_resume (set : s.isrIntPending = true) (mem : q ∈ s.waiting) :
    Accounts { s with waiting := s.waiting.filter fun p => p.id ≠ q.id } where
  signals := h.signals
  freed := h.freed
  nodup := h.nodup
  apart := h.apart
  below := h.below
  nack := h.nack
  timeout := h.timeout
  tags := h.tags
  single := Nat.le_trans (Nat.add_le_add_right (List.length_filter_le _ _) _) h.single
  blocking := by
    intro x here blocks
    obtain ⟨p,waits,rfl⟩ := List.mem_map.mp (h.blocking x here blocks)
    refine List.mem_map_of_mem (List.mem_filter.mpr ⟨waits,?_⟩)
    have ended : q.id ∈ s.finished.map Request.id := (h.pending q mem).mp set
    have nodup := h.nodup
    rw [Bus.taken,List.map_append] at nodup
    have left : p.id ∈ s.fifo.map Request.id := by
      rw [map_id_tag]
      exact List.mem_map_of_mem here
    have ne : p.id ≠ q.id := fun same =>
      (List.nodup_append.mp nodup).2.2 q.id ended p.id left same.symm
    simpa using ne
  waiting := fun p here => h.waiting p (List.mem_of_mem_filter here)
  pending := fun p here => h.pending p (List.mem_of_mem_filter here)
  clear := by
    intro some
    exact absurd (h.clear some) (by simp [set])

theorem accounts_step (orderly : Orderly s a)
    (done : step s a = some (reply,t)) : Accounts t := by
  obtain ⟨steady,order⟩ := orderly
  cases a with
  | submit msgs nonBlock =>
    simp only [step] at done
    split at done
    · cases done
      exact h
    · cases done
      obtain ⟨early,alone⟩ := order msgs nonBlock rfl
      exact accounts_submit h msgs nonBlock early alone
  | enqueue id =>
    obtain ⟨r,found,eq⟩ := Option.map_eq_some_iff.mp done
    rcases reply_of eq with ⟨queued,rfl⟩ | ⟨f,_,rfl,rfl⟩
    · exact accounts_enqueue h (List.mem_of_find?_eq_some found) queued
    · exact h
  | byteEnd byte =>
    obtain ⟨op,_,eq⟩ := Option.map_eq_some_iff.mp done
    rcases reply_of eq with ⟨handled,rfl⟩ | ⟨f,_,rfl,rfl⟩
    · obtain ⟨keeps,served⟩ := byteEnd_served handled
      have moved : Accounts (s.move op byte) := ⟨h.signals,h.freed,h.nodup,h.apart,h.below,
        h.nack,h.timeout,h.tags,h.single,h.blocking,h.waiting,h.pending,h.clear⟩
      exact accounts_served moved keeps served
    · exact h
  | nack => exact steady.elim
  | resume id =>
    simp only [step] at done
    split at done
    · rename_i set
      obtain ⟨q,found,eq⟩ := Option.map_eq_some_iff.mp done
      obtain rfl : q.id = id := by simpa using List.find?_some found
      cases eq
      exact accounts_resume h set (List.mem_of_find?_eq_some found)
    · cases done

end

def interrupts (trace : List (Action × Reply)) : Nat := trace.countP fun x =>
  match x with
  | (.byteEnd _, .handled) => true
  | _ => false

/-- What the trace says about interrupts, submissions and returns. -/
structure Recorded (trace : List (Action × Reply)) (s : Bus) : Prop where
  log : interrupts trace = s.log.length
  submitted : ∀ msgs nonBlock id, (.submit msgs nonBlock, .entered id) ∈ trace →
    id ∈ s.entering.map Request.id ++ s.accepted.map Request.id
  returned : ∀ id who (ret : Int), (.resume id, .returned who ret) ∈ trace →
    who = id ∧ ∃ r ∈ s.finished, r.id = id ∧ r.nonBlock = false ∧ ret = r.msgs.length

variable {trace : List (Action × Reply)}

theorem Recorded.next (h : Recorded trace s)
    (log : interrupts [(a,reply)] + s.log.length = t.log.length)
    (requests : ∀ id ∈ s.entering.map Request.id ++ s.accepted.map Request.id,
      id ∈ t.entering.map Request.id ++ t.accepted.map Request.id)
    (finished : ∀ r ∈ s.finished, r ∈ t.finished)
    (submitted : ∀ msgs nonBlock id, (a,reply) = (.submit msgs nonBlock, .entered id) →
      id ∈ t.entering.map Request.id ++ t.accepted.map Request.id)
    (returned : ∀ id who (ret : Int), (a,reply) = (.resume id, .returned who ret) →
      who = id ∧ ∃ r ∈ t.finished, r.id = id ∧ r.nonBlock = false ∧ ret = r.msgs.length) :
    Recorded (trace ++ [(a,reply)]) t where
  log := by
    unfold interrupts at log ⊢
    rw [List.countP_append,← log,Nat.add_comm]
    exact congrArg _ h.log
  submitted := by
    intro msgs nonBlock id mem
    rcases List.mem_append.mp mem with mem | mem
    · exact requests id (h.submitted msgs nonBlock id mem)
    · exact submitted msgs nonBlock id (List.mem_singleton.mp mem).symm
  returned := by
    intro id who ret mem
    rcases List.mem_append.mp mem with mem | mem
    · obtain ⟨same,r,ended,rest⟩ := h.returned id who ret mem
      exact ⟨same,r,finished r ended,rest⟩
    · exact returned id who ret (List.mem_singleton.mp mem).symm

theorem Sound.moves (h : Sound s) (now : s.op = some op) (byte : Nat) :
    (s.move op byte).log.length = s.log.length + 1 := by
  cases h.position with
  | idle _ off _ => rw [off] at now; cases now
  | @busy r rest before m after k _ _ _ _ _ op' _ =>
    obtain rfl : op = m.opAt k := Option.some.inj (now.symm.trans op')
    unfold Bus.move Msg.opAt
    cases m.rd <;> simp [BusOp.moved]

theorem Served.finished_mono (h : Served s t) : ∀ r ∈ s.finished, r ∈ t.finished := by
  cases h with
  | goes _ finished => rw [finished]; exact fun _ mem => mem
  | ends _ finished => rw [finished]; exact fun _ mem => List.mem_append_left _ mem

theorem recorded_step (h : Recorded trace s) (accounts : Accounts s) (sound : Sound s)
    (orderly : Orderly s a) (done : step s a = some (reply,t)) :
    Recorded (trace ++ [(a,reply)]) t := by
  obtain ⟨steady,_⟩ := orderly
  have fine := (sound_step sound steady done).2
  cases a with
  | submit msgs nonBlock =>
    simp only [step] at done
    split at done
    · cases done
      exact h.next (Nat.zero_add _) (fun _ mem => mem) (fun _ mem => mem) (by simp) (by simp)
    cases done
    refine h.next (Nat.zero_add _) ?_ (fun _ mem => mem) ?_ (by simp)
    · intro id mem
      unfold enter
      simp only [List.map_append,List.mem_append] at mem ⊢
      exact mem.imp_left .inl
    · intro msgs nonBlock id eq
      unfold enter
      simp_all
  | enqueue id =>
    obtain ⟨r,found,eq⟩ := Option.map_eq_some_iff.mp done
    rcases reply_of eq with ⟨queued,rfl⟩ | ⟨f,_,rfl,rfl⟩
    · obtain ⟨entering,accepted,_,_,_,finished,_,_,_,_,_,log⟩ :=
        enqueue_cases queued
      refine h.next (by rw [log]; exact Nat.zero_add _) ?_ ?_ (by simp) (by simp)
      · intro i mem
        rw [entering,accepted,List.map_append]
        rcases List.mem_append.mp mem with mem | mem
        · obtain ⟨q,old,rfl⟩ := List.mem_map.mp mem
          by_cases same : q.id = r.id
          · rw [same]
            exact List.mem_append_right _ (List.mem_append_right _ (List.mem_singleton_self _))
          · refine List.mem_append_left _ (List.mem_map_of_mem (List.mem_filter.mpr ⟨old,?_⟩))
            simpa using same
        · exact List.mem_append_right _ (List.mem_append_left _ mem)
      · rw [finished]
        exact fun _ mem => mem
    · exact absurd rfl (fine f)
  | byteEnd byte =>
    obtain ⟨op,now,eq⟩ := Option.map_eq_some_iff.mp done
    rcases reply_of eq with ⟨handled,rfl⟩ | ⟨f,_,rfl,rfl⟩
    · obtain ⟨keeps,served⟩ := byteEnd_served handled
      refine h.next ?_ ?_ served.finished_mono (by simp) (by simp)
      · rw [keeps.log,sound.moves now]
        exact Nat.add_comm _ _
      · rw [keeps.entering,keeps.accepted]
        exact fun _ mem => mem
    · exact absurd rfl (fine f)
  | nack => exact steady.elim
  | resume id =>
    simp only [step] at done
    split at done
    · rename_i set
      obtain ⟨q,found,eq⟩ := Option.map_eq_some_iff.mp done
      have mem : q ∈ s.waiting := List.mem_of_find?_eq_some found
      obtain rfl : q.id = id := by simpa using List.find?_some found
      cases eq
      refine h.next (Nat.zero_add _) (fun _ mem => mem) (fun _ mem => mem) (by simp) ?_
      intro id who ret eq
      cases eq
      obtain ⟨r,ended,tags⟩ := accounts.resumed set mem
      refine ⟨rfl,r,ended,congrArg Prod.fst tags,?_,?_⟩
      · exact (congrArg (fun x => x.2.1) tags).trans (accounts.waiting q mem).1
      · rw [outcome,accounts.nack,accounts.timeout]
        exact congrArg (fun x => ((x.2.2 : Nat) : Int)) tags.symm
    · cases done

theorem accounts_idle : Accounts idle where
  signals := rfl
  freed := rfl
  nodup := List.nodup_nil
  apart := by simp [idle]
  below := by simp [idle,Bus.taken]
  nack := rfl
  timeout := rfl
  tags := rfl
  single := by simp [idle,Bus.arriving]
  blocking := by simp [idle]
  waiting := by simp [idle]
  pending := by simp [idle]
  clear := fun _ => rfl

theorem Sound.left (h : Sound s) :
    ∃ left, s.log.length + left = (s.accepted.flatMap Request.asked).length ∧
      (left = 0 ↔ s.fifo = []) := by
  obtain ⟨more,all,none⟩ := h.log.2
  refine ⟨more.length,?_,by rw [List.length_eq_zero_iff,none]⟩
  rw [← all,List.length_append,List.length_map]

theorem Sound.busy (h : Sound s) (some : s.fifo ≠ []) : s.op ≠ none := by
  cases h.position with
  | idle fifo => exact absurd fifo some
  | busy _ _ _ _ _ op _ => rw [op]; simp

theorem Accounts.resumes (h : Accounts s) (mem : q ∈ s.waiting) :
    q.id ∈ s.finished.map Request.id ↔ step s (.resume q.id) ≠ none := by
  rw [← h.pending q mem]
  simp only [step]
  split
  · rename_i set
    refine ⟨fun _ => ?_,fun _ => set⟩
    rw [ne_eq,Option.map_eq_none_iff,List.find?_eq_none]
    exact fun missing => missing q mem (by simp)
  · rename_i unset
    exact ⟨fun set => absurd set unset,fun resumes => absurd rfl resumes⟩

/-- In orderly runs each request is completed once, in order, and its submitter gets its outcome;
the FIFO moves on, and is empty after as many interrupts as bytes. -/
theorem i2c_completes {w : Bus} (run : Runs.Run step Orderly idle trace w) :
    (w.finished ++ w.fifo).map Request.tag = w.accepted.map Request.tag ∧
    w.accepted.map Request.id = enqueued trace ∧ (enqueued trace).Nodup ∧
    (∀ r ∈ w.accepted, (.submit r.msgs r.nonBlock, .entered r.id) ∈ trace) ∧
    (∀ msgs nonBlock id, (.submit msgs nonBlock, .entered id) ∈ trace →
      id ∈ w.entering.map Request.id ++ enqueued trace) ∧
    w.signals = w.finished.map Request.signal ∧ w.freed = w.finished.map Request.id ∧
    (∀ id who (ret : Int), (.resume id, .returned who ret) ∈ trace →
      who = id ∧ ∃ r ∈ w.finished, r.id = id ∧ r.nonBlock = false ∧ ret = r.msgs.length) ∧
    (∀ q ∈ w.waiting, q.id ∈ w.finished.map Request.id ↔ step w (.resume q.id) ≠ none) ∧
    (w.fifo ≠ [] → w.op ≠ none) ∧
    ∃ left, interrupts trace + left = (w.accepted.flatMap Request.asked).length ∧
      (left = 0 ↔ w.fifo = []) := by
  have now : Sound w ∧ Traced trace w ∧ Accounts w ∧ Recorded trace w := by
    apply run.trace_invariant
    · exact ⟨⟨.idle rfl rfl rfl, by simp [idle], by simp [idle], by simp [idle], rfl⟩,
        ⟨rfl, by simp [idle], by simp [idle]⟩, accounts_idle, ⟨rfl, by simp, by simp⟩⟩
    intro trace t a r u ht orderly done
    obtain ⟨sound, traced, accounts, recorded⟩ := ht
    exact ⟨(sound_step sound orderly.1 done).1, traced_step traced done,
      accounts_step accounts orderly done, recorded_step recorded accounts sound orderly done⟩
  obtain ⟨sound, traced, accounts, recorded⟩ := now
  have once : (enqueued trace).Nodup := by
    have nodup := accounts.nodup
    rw [map_id_tag, accounts.tags, ← map_id_tag, traced.order] at nodup
    exact nodup
  have submitted := recorded.submitted
  rw [traced.order] at submitted
  have left := sound.left
  rw [← recorded.log] at left
  exact ⟨accounts.tags, traced.order, once, traced.accepted, submitted, accounts.signals,
    accounts.freed, recorded.returned, fun q mem => accounts.resumes mem, sound.busy, left⟩

theorem i2c_completes_two : ∃ trace w, Runs.Run step Orderly idle trace w ∧
    w.signals = [(0, .woken)] ∧ w.fifo ≠ [] ∧ w.op ≠ none := by
  have read : ∀ b, Filled [⟨0x10, true, false, [b]⟩] := fun b => ⟨by simp, by simp⟩
  have first : Orderly idle (.submit [⟨0x10, true, false, [0]⟩] false) :=
    ⟨read 0, fun _ _ _ => ⟨by simp [idle], fun _ => ⟨rfl, by simp [idle]⟩⟩⟩
  have submitted : Runs.Run step Orderly idle _ _ := .next .start first rfl
  have queued := submitted.next (show Orderly _ (.enqueue 0) from ⟨trivial, by simp⟩) rfl
  have both := queued.next (show Orderly _ (.submit [⟨0x10, true, false, [1]⟩] true) from
    ⟨read 1, fun _ _ eq => ⟨by decide, fun no => by cases eq; cases no⟩⟩) rfl
  have behind := both.next (show Orderly _ (.enqueue 1) from ⟨trivial, by simp⟩) rfl
  have run := behind.next (show Orderly _ (.byteEnd 7) by
    refine ⟨fun ends => ?_, by simp⟩
    obtain ⟨_, _, _, _, first, last, write, _⟩ := ends
    cases first
    cases last
    cases write) rfl
  exact ⟨_, _, run, rfl, by simp, (i2c_completes run).2.2.2.2.2.2.2.2.2.1 (by simp)⟩

/-- Requests of at least one message and no empty read; the slave may refuse any of them. -/
def Submitted (_ : Bus) : Action → Prop
  | .submit msgs _ => msgs ≠ [] ∧ ∀ m ∈ msgs, m.rd = true → m.buf ≠ []
  | _ => True

/-- The second submitter returns at the end of the first request. -/
theorem i2c_mixed_up :
    (∃ trace w, Runs.Run step Submitted idle trace w ∧
      (.resume 1, .returned 1 1) ∈ trace ∧ w.finished.map Request.id = [0] ∧
      w.fifo.map Request.id = [1]) ∧
    ∃ trace w, Runs.Run step Submitted idle trace w ∧ w.freed = [] ∧
      w.signals = [(0, .woken)] ∧ w.fifo.map Request.id = [1] ∧ w.op = none := by
  have read : ∀ s nonBlock, Submitted s (.submit [⟨0x10, true, false, [0]⟩] nonBlock) := by
    simp [Submitted]
  have enqueue : ∀ s id, Submitted s (.enqueue id) := fun _ _ => trivial
  constructor
  · have submitted : Runs.Run step Submitted idle _ _ := .next .start (read _ false) rfl
    have queued := submitted.next (enqueue _ 0) rfl
    have second := (queued.next (read _ false) rfl).next (enqueue _ 1) rfl
    have ended := second.next (show Submitted _ (.byteEnd 7) from trivial) rfl
    have run := ended.next (show Submitted _ (.resume 1) from trivial) rfl
    exact ⟨_, _, run, List.mem_append_right _ (List.mem_singleton_self _), rfl, rfl⟩
  · have submitted : Runs.Run step Submitted idle _ _ := .next .start (read _ true) rfl
    have queued := submitted.next (enqueue _ 0) rfl
    have second := (queued.next (read _ true) rfl).next (enqueue _ 1) rfl
    have run := second.next (show Submitted _ .nack from trivial) rfl
    exact ⟨_, _, run, rfl, rfl, rfl, rfl⟩

end Apc8750.I2c
