import Apc8750.I2c.Effects
import Mathlib.Data.List.GetD

namespace Apc8750.I2c

def Msg.moved (m : Msg) : List Moved := m.buf.map fun b => if m.rd then .read b else .write b

def Request.moved (r : Request) : List Moved := r.msgs.flatMap Msg.moved

def Moved.asked : Moved → Option Nat
  | .write b => some b
  | .read _ => none

def Request.asked (r : Request) : List (Option Nat) := r.moved.map Moved.asked

def Msg.opAt (m : Msg) (k : Nat) : BusOp := if m.rd then .read else .write (m.buf.getD k 0)

def Filled (msgs : List Msg) : Prop := msgs ≠ [] ∧ ∀ m ∈ msgs, m.buf ≠ []

/-- The interrupt ends a request whose last message is a write while another one waits. -/
def EndsWrite (s : Bus) : Prop :=
  ∃ r next rest m, s.fifo = r :: next :: rest ∧ r.msgs.getLast? = some m ∧ m.rd = false ∧
    r.xferMsgnum + 1 = r.msgs.length ∧ r.xferLength = m.buf.length

/-- All is acknowledged, nothing empty, and a request ending in a write is alone. -/
def Steady (s : Bus) : Action → Prop
  | .submit msgs _ => Filled msgs
  | .enqueue _ => True
  | .byteEnd _ => ¬ EndsWrite s
  | .nack => False
  | .resume _ => True

def Fresh (r : Request) : Prop := r.xferMsgnum = 0 ∧ Filled r.msgs

/-- Nothing to do, or byte `k` of message `m` in progress and the rest before it moved. -/
inductive Position (s : Bus) : Prop where
  | idle (fifo : s.fifo = []) (op : s.op = none) (log : s.log = s.finished.flatMap Request.moved)
  | busy (fifo : s.fifo = r :: rest) (split : r.msgs = before ++ m :: after)
      (num : r.xferMsgnum = before.length) (count : r.xferLength = k + 1)
      (inside : k < m.buf.length) (op : s.op = some (m.opAt k))
      (log : s.log = s.finished.flatMap Request.moved ++
        (before.flatMap Msg.moved ++ m.moved.take k))

theorem Position.congr (h : Position s) (fifo : t.fifo = s.fifo) (op : t.op = s.op)
    (log : t.log = s.log) (finished : t.finished = s.finished) : Position t := by
  cases h with
  | idle none off done => exact .idle (fifo.trans none) (op.trans off) (by rw [log,done,finished])
  | busy first split num count inside now done =>
    exact .busy (fifo.trans first) split num count inside (op.trans now) (by rw [log,done,finished])

structure Sound (s : Bus) : Prop where
  position : Position s
  filled : ∀ r ∈ s.fifo, Filled r.msgs
  behind : ∀ r ∈ s.fifo.tail, Fresh r
  entering : ∀ r ∈ s.entering, Fresh r
  asked : (s.finished ++ s.fifo).map Request.asked = s.accepted.map Request.asked

variable {s t : Bus} {r q : Request} {rest : List Request} {before after : List Msg} {m : Msg}
  {k byte : Nat} {reply : Reply} {a : Action}

theorem getElem_split (split : r.msgs = before ++ m :: after) (num : r.xferMsgnum = before.length) :
    r.msgs[r.xferMsgnum]? = some m := by
  rw [split,num]
  simp

theorem start_ok (nonempty : m.buf ≠ []) : m.start 0 = .ok (m.opAt 0) := by
  obtain ⟨b,l,buf⟩ := List.exists_cons_of_ne_nil nonempty
  unfold Msg.start Msg.opAt
  rw [if_neg nonempty,buf]
  split <;> rfl

theorem startMsg_ok (split : r.msgs = before ++ m :: after) (num : r.xferMsgnum = before.length)
    (nonempty : m.buf ≠ []) :
    startMsg s r rest = .ok { s.clearFlags with
      op := some (m.opAt 0)
      fifo := { r with xferLength := 1 } :: rest } := by
  have found : r.msgs[r.xferMsgnum]? = some m := getElem_split split num
  unfold startMsg transferMsg
  simp only [found,start_ok nonempty]
  rfl

/-- The middle of the handler: byte `k` of message `m` of the first request has been
moved. -/
structure Moving (s : Bus) (r : Request) (rest : List Request) (before : List Msg) (m : Msg)
    (k : Nat) (after : List Msg) : Prop where
  split : r.msgs = before ++ m :: after
  num : r.xferMsgnum = before.length
  inside : k < m.buf.length
  log : s.log = s.finished.flatMap Request.moved ++
    (before.flatMap Msg.moved ++ m.moved.take (k + 1))
  filled : Filled r.msgs
  behind : ∀ q ∈ rest, Fresh q
  entering : ∀ q ∈ s.entering, Fresh q
  asked : (s.finished ++ r :: rest).map Request.asked = s.accepted.map Request.asked

theorem asked_cons {done : List Request} {all : List (List (Option Nat))} (msgs : q.msgs = r.msgs)
    (h : (done ++ r :: rest).map Request.asked = all) :
    (done ++ q :: rest).map Request.asked = all := by
  have same : q.asked = r.asked := by
    unfold Request.asked Request.moved
    rw [msgs]
  rw [← h,List.map_append,List.map_append,List.map_cons,List.map_cons,same]

theorem Moving.more (h : Moving s r rest before m k after) (lt : k + 1 < m.buf.length)
    (msgs : q.msgs = r.msgs) (num : q.xferMsgnum = r.xferMsgnum) (count : q.xferLength = k + 2) :
    Sound { s with fifo := q :: rest, op := some (m.opAt (k + 1)) } where
  position := .busy rfl (msgs.trans h.split) (num.trans h.num) count lt rfl h.log
  filled := by
    intro p mem
    rcases List.mem_cons.mp mem with rfl | mem
    · rw [msgs]
      exact h.filled
    · exact (h.behind p mem).2
  behind := h.behind
  entering := h.entering
  asked := asked_cons msgs h.asked

theorem moved_all (h : k + 1 = m.buf.length) : m.moved.take (k + 1) = m.moved := by
  apply List.take_of_length_le
  rw [Msg.moved,List.length_map]
  omega

theorem Moving.nextMsg (h : Moving s r rest before m k after) (last : k + 1 = m.buf.length)
    (more : r.xferMsgnum + 1 < r.msgs.length) (msgs : q.msgs = r.msgs)
    (num : q.xferMsgnum = r.xferMsgnum + 1) :
    ∃ t, startMsg s q rest = .ok t ∧ Sound t := by
  cases after with
  | nil =>
    rw [h.num,h.split] at more
    simp at more
  | cons n after =>
    have split : q.msgs = (before ++ [m]) ++ n :: after := by
      rw [msgs,h.split]
      simp
    have num : q.xferMsgnum = (before ++ [m]).length := by
      rw [num,h.num]
      simp
    have nonempty : n.buf ≠ [] := h.filled.2 n (by rw [h.split]; simp)
    refine ⟨_,startMsg_ok split num nonempty,?_⟩
    constructor
    · refine .busy rfl split num rfl (List.length_pos_iff.mpr nonempty) rfl ?_
      change s.log = _
      rw [h.log,moved_all last]
      simp [Bus.clearFlags]
    · intro p mem
      rcases List.mem_cons.mp mem with rfl | mem
      · change Filled q.msgs
        rw [msgs]
        exact h.filled
      · exact (h.behind p mem).2
    · exact h.behind
    · exact h.entering
    · exact asked_cons (q := { q with xferLength := 1 }) msgs h.asked

theorem Moving.finish (h : Moving s r rest before m k after) (last : k + 1 = m.buf.length)
    (ended : ¬ r.xferMsgnum + 1 < r.msgs.length) {write : Bool} (alone : write = true → rest = []) :
    ∃ t, finish s r rest write = .ok t ∧ Sound t := by
  have ends : after = [] := by
    rw [h.num,h.split,List.length_append,List.length_cons] at ended
    apply List.eq_nil_of_length_eq_zero
    omega
  have log : s.log = (s.finished ++ [r]).flatMap Request.moved := by
    rw [h.log,moved_all last,List.flatMap_append,List.flatMap_singleton,Request.moved,h.split, ends]
    simp
  have asked : (s.finished ++ [r] ++ rest).map Request.asked = s.accepted.map Request.asked := by
    rw [← h.asked,List.append_assoc,List.singleton_append]
  unfold I2c.finish
  cases rest with
  | nil => exact ⟨_,rfl,.idle rfl rfl log,by simp,by simp,h.entering,asked⟩
  | cons next rest =>
    have read : write = false := by
      cases write with
      | true => exact absurd (alone rfl) (by simp)
      | false => rfl
    obtain ⟨num,filled⟩ := h.behind next (by simp)
    obtain ⟨n,later,msgs⟩ := List.exists_cons_of_ne_nil filled.1
    have nonempty : n.buf ≠ [] := filled.2 n (by rw [msgs]; simp)
    have split : next.msgs = [] ++ n :: later := msgs
    simp only [read]
    refine ⟨_,startMsg_ok split num nonempty,?_⟩
    constructor
    · refine .busy rfl split num rfl (List.length_pos_iff.mpr nonempty) rfl ?_
      change s.log = _
      rw [log]
      simp [Bus.clearFlags]
    · intro p mem
      rcases List.mem_cons.mp mem with rfl | mem
      · exact filled
      · exact (h.behind p (List.mem_cons_of_mem _ mem)).2
    · exact fun p mem => h.behind p (List.mem_cons_of_mem _ mem)
    · exact h.entering
    · exact asked_cons (r := next) (q := { next with xferLength := 1 }) rfl asked

theorem moved_take_succ (lt : k < m.buf.length) :
    m.moved.take (k + 1) = m.moved.take k ++ [if m.rd then .read m.buf[k] else .write m.buf[k]] := by
  have lt' : k < m.moved.length := by simpa [Msg.moved] using lt
  rw [List.take_succ_eq_append_getElem lt']
  simp [Msg.moved]

theorem readEnd_sound (h : Moving s (r.put (m.store k byte)) rest before (m.store k byte) k after)
    (rd : m.rd = true) (count : r.xferLength = k + 1) :
    ∃ t, readEnd s r rest m byte = .ok t ∧ Sound t := by
  have inside := h.inside
  have length : (m.store k byte).buf.length = m.buf.length := List.length_set
  have same : ∀ m, (r.put m).xferLength = k + 1 := fun _ => count
  unfold readEnd
  rw [if_pos (by omega)]
  simp only [count,same,Nat.add_sub_cancel]
  split
  · rename_i last
    have op : some BusOp.read = some ((m.store k byte).opAt (k + 1)) := by
      simp [Msg.opAt,Msg.store,rd]
    rw [op]
    exact ⟨_,rfl,h.more (by omega) rfl rfl rfl⟩
  split
  · rename_i last
    split
    · rename_i more
      exact h.nextMsg last more rfl rfl
    · rename_i ended
      exact h.finish last ended (by simp)
  · rename_i _ last
    have op : some BusOp.read = some ((m.store k byte).opAt (k + 1)) := by
      simp [Msg.opAt,Msg.store,rd]
    rw [op]
    exact ⟨_,rfl,h.more (by omega) rfl rfl rfl⟩

theorem writeEnd_sound (h : Moving s r rest before m k after) (rd : m.rd = false)
    (count : r.xferLength = k + 1)
    (alone : k + 1 = m.buf.length → ¬ r.xferMsgnum + 1 < r.msgs.length → rest = []) :
    ∃ t, writeEnd s r rest m = .ok t ∧ Sound t := by
  unfold writeEnd
  rw [count]
  split
  · rename_i last
    split
    · rename_i more
      exact h.nextMsg last more rfl rfl
    · rename_i ended
      exact h.finish last ended fun _ => alone last ended
  rename_i last
  have lt : k + 1 < m.buf.length := Nat.lt_of_le_of_ne h.inside last
  have op : some (BusOp.write m.buf[k + 1]) = some (m.opAt (k + 1)) := by
    simp [Msg.opAt,rd,lt]
  rw [List.getElem?_eq_getElem lt]
  dsimp only
  rw [op]
  exact ⟨_,rfl,h.more lt rfl rfl rfl⟩

theorem Msg.moved_asked (m : Msg) :
    m.moved.map Moved.asked = m.buf.map fun b => if m.rd then none else some b := by
  unfold Msg.moved
  rw [List.map_map]
  apply List.map_congr_left
  intro b _
  cases m.rd with
  | true => rfl
  | false => rfl

theorem store_asked (rd : m.rd = true) :
    (m.store k byte).moved.map Moved.asked = m.moved.map Moved.asked := by
  rw [Msg.moved_asked,Msg.moved_asked]
  simp [Msg.store,rd]

theorem put_asked (split : r.msgs = before ++ m :: after) (num : r.xferMsgnum = before.length)
    (rd : m.rd = true) (k byte : Nat) : (r.put (m.store k byte)).asked = r.asked := by
  unfold Request.asked Request.moved Request.put
  rw [split,num]
  simp [store_asked rd]

theorem byteEnd_cons (fifo : s.fifo = r :: rest) (found : r.msgs[r.xferMsgnum]? = some m)
    (byte : Nat) :
    byteEnd s byte = if m.rd then readEnd { s with isrByteEnd := true } r rest m byte
      else writeEnd { s with isrByteEnd := true } r rest m := by
  unfold byteEnd
  split
  · rename_i none
    rw [none] at fifo
    cases fifo
  · rename_i r' rest' eq
    obtain ⟨rfl,rfl⟩ := List.cons.inj (fifo.symm.trans eq)
    rw [found]

theorem store_moved (rd : m.rd = true) (inside : k < m.buf.length) :
    (m.store k byte).moved.take (k + 1) = m.moved.take k ++ [.read byte] := by
  rw [moved_take_succ (by simpa [Msg.store] using inside)]
  simp [Msg.store,Msg.moved,rd,List.take_set_of_le]

theorem put_filled (h : Filled r.msgs) (split : r.msgs = before ++ m :: after)
    (num : r.xferMsgnum = before.length) (inside : k < m.buf.length) :
    Filled (r.put (m.store k byte)).msgs := by
  have msgs : (r.put (m.store k byte)).msgs = before ++ m.store k byte :: after := by
    simp [Request.put,split,num]
  rw [msgs]
  refine ⟨by simp,?_⟩
  intro n mem
  rcases List.mem_append.mp mem with mem | mem
  · exact h.2 n (by rw [split]; simp [mem])
  rcases List.mem_cons.mp mem with rfl | mem
  · apply List.ne_nil_of_length_pos
    simp [Msg.store]
    omega
  · exact h.2 n (by rw [split]; simp [mem])

theorem byteEnd_sound {o : BusOp} (h : Sound s) (steady : ¬ EndsWrite s) (op : s.op = some o)
    (byte : Nat) : ∃ t, byteEnd (s.move o byte) byte = .ok t ∧ Sound t := by
  cases h.position with
  | idle fifo none log => rw [none] at op; cases op
  | @busy r rest before m after k fifo split num count inside op' log =>
    obtain rfl : o = m.opAt k := Option.some.inj (op.symm.trans op')
    have filled : Filled r.msgs := h.filled r (by rw [fifo]; simp)
    have behind : ∀ q ∈ rest, Fresh q := by
      have behind := h.behind
      rwa [fifo] at behind
    have asked := h.asked
    rw [fifo] at asked
    have fifo' : (s.move (m.opAt k) byte).fifo = r :: rest := fifo
    rw [byteEnd_cons fifo' (getElem_split split num)]
    cases rd : m.rd with
    | true =>
      have moving : Moving { s.move (m.opAt k) byte with isrByteEnd := true }
          (r.put (m.store k byte)) rest before (m.store k byte) k after := by
        refine ⟨?_,num,?_,?_,put_filled filled split num inside,behind,h.entering,?_⟩
        · simp [Request.put,split,num]
        · simpa [Msg.store] using inside
        · rw [store_moved rd inside]
          simp [Bus.move,Msg.opAt,rd,BusOp.moved,log]
        · have same := put_asked split num rd k byte
          change (s.finished ++ _ :: rest).map Request.asked = s.accepted.map Request.asked
          rw [← asked,List.map_append,List.map_append,List.map_cons,List.map_cons,same]
      exact readEnd_sound moving rd count
    | false =>
      have moving : Moving { s.move (m.opAt k) byte with isrByteEnd := true }
          r rest before m k after := by
        refine ⟨split,num,inside,?_,filled,behind,h.entering,asked⟩
        rw [moved_take_succ inside]
        simp [Bus.move,Msg.opAt,rd,BusOp.moved,log,inside]
      refine writeEnd_sound moving rd count fun last ended => ?_
      cases rest with
      | nil => rfl
      | cons next rest =>
        have ends : after = [] := by
          rw [num,split,List.length_append,List.length_cons] at ended
          apply List.eq_nil_of_length_eq_zero
          omega
        rw [ends] at split
        have length : r.xferMsgnum + 1 = r.msgs.length := by rw [num,split]; simp
        exact absurd ⟨r,next,rest,m,fifo,by rw [split]; simp,rd,length,by omega⟩ steady

theorem enqueue_sound (h : Sound s) (fresh : Fresh r) : ∃ t, enqueue s r = .ok t ∧ Sound t := by
  obtain ⟨num,filled⟩ := fresh
  obtain ⟨m,after,msgs⟩ := List.exists_cons_of_ne_nil filled.1
  have nonempty : m.buf ≠ [] := filled.2 m (by rw [msgs]; simp)
  have entering : ∀ q ∈ s.entering.filter fun q => q.id ≠ r.id, Fresh q :=
    fun q mem => h.entering q (List.mem_of_mem_filter mem)
  have asked : (s.finished ++ (s.fifo ++ [r])).map Request.asked =
      (s.accepted ++ [r]).map Request.asked := by
    rw [← List.append_assoc,List.map_append,h.asked,List.map_append]
  unfold enqueue
  dsimp only
  cases h.position with
  | idle fifo op log =>
    rw [if_pos fifo]
    unfold startBuf
    have first : r.msgs.head? = some m := by rw [msgs]; rfl
    simp only [first,nonempty,and_false,if_false,start_ok nonempty]
    refine ⟨_,rfl,?_,?_,by simp,entering,?_⟩
    · refine .busy (k := 0) rfl (show r.msgs = [] ++ m :: after from msgs) num rfl (List.length_pos_iff.mpr nonempty) rfl ?_
      simp [log,Bus.clearFlags]
    · intro q mem
      obtain rfl := List.mem_singleton.mp mem
      exact filled
    · rw [fifo,List.nil_append] at asked
      exact asked_cons (r := r) rfl asked
  | @busy first rest before m after k fifo split num count inside op log =>
    rw [if_neg (by rw [fifo]; simp)]
    refine ⟨_,rfl,?_,?_,?_,entering,asked⟩
    · exact .busy (by rw [fifo]; rfl) split num count inside op log
    · intro q mem
      rcases List.mem_append.mp mem with mem | mem
      · exact h.filled q mem
      · obtain rfl := List.mem_singleton.mp mem
        exact filled
    intro q mem
    have tail : (s.fifo ++ [r]).tail = rest ++ [r] := by rw [fifo]; rfl
    rw [tail] at mem
    rcases List.mem_append.mp mem with mem | mem
    · exact h.behind q (by rw [fifo]; exact mem)
    · obtain rfl := List.mem_singleton.mp mem
      exact ⟨by assumption,filled⟩

theorem sound_step (h : Sound s) (steady : Steady s a) (done : step s a = some (reply,t)) :
    Sound t ∧ ∀ f, reply ≠ .fault f := by
  cases a with
  | submit msgs nonBlock =>
    simp only [step] at done
    split at done
    · cases done
      exact ⟨h,by simp⟩
    cases done
    refine ⟨⟨h.position.congr rfl rfl rfl rfl,h.filled,h.behind,?_,h.asked⟩,by simp⟩
    intro q mem
    rcases List.mem_append.mp mem with mem | mem
    · exact h.entering q mem
    · obtain rfl := List.mem_singleton.mp mem
      exact ⟨rfl,steady⟩
  | enqueue id =>
    obtain ⟨r,found,eq⟩ := Option.map_eq_some_iff.mp done
    obtain ⟨u,queued,sound⟩ := enqueue_sound h (h.entering r (List.mem_of_find?_eq_some found))
    rw [queued] at eq
    cases eq
    exact ⟨sound,by simp⟩
  | byteEnd byte =>
    obtain ⟨op,some,eq⟩ := Option.map_eq_some_iff.mp done
    obtain ⟨u,handled,sound⟩ := byteEnd_sound h steady some byte
    rw [handled] at eq
    cases eq
    exact ⟨sound,by simp⟩
  | nack => exact steady.elim
  | resume id =>
    simp only [step] at done
    split at done
    · obtain ⟨r,_,eq⟩ := Option.map_eq_some_iff.mp done
      cases eq
      exact ⟨⟨h.position.congr rfl rfl rfl rfl,h.filled,h.behind,h.entering,h.asked⟩,by simp⟩
    · cases done

def enqueued (trace : List (Action × Reply)) : List Nat := trace.filterMap fun x =>
  match x with
  | (.enqueue id, .queued) => some id
  | _ => none

structure Traced (trace : List (Action × Reply)) (s : Bus) : Prop where
  order : s.accepted.map Request.id = enqueued trace
  entering : ∀ r ∈ s.entering, (.submit r.msgs r.nonBlock, .entered r.id) ∈ trace
  accepted : ∀ r ∈ s.accepted, (.submit r.msgs r.nonBlock, .entered r.id) ∈ trace

theorem reply_of (h : Reply.of s ok x = (reply,t)) :
    (x = .ok t ∧ reply = ok) ∨ ∃ f, x = .error f ∧ reply = .fault f ∧ t = s := by
  cases x with
  | ok u =>
    cases h
    exact .inl ⟨rfl,rfl⟩
  | error f =>
    cases h
    exact .inr ⟨f,rfl,rfl,rfl⟩

theorem Traced.same (h : Traced trace s) (other : enqueued [(a,reply)] = [])
    (entering : t.entering = s.entering) (accepted : t.accepted = s.accepted) :
    Traced (trace ++ [(a,reply)]) t where
  order := by
    unfold enqueued at other ⊢
    rw [List.filterMap_append,other,List.append_nil,accepted]
    exact h.order
  entering := by
    rw [entering]
    exact fun r mem => List.mem_append_left _ (h.entering r mem)
  accepted := by
    rw [accepted]
    exact fun r mem => List.mem_append_left _ (h.accepted r mem)

theorem traced_step (h : Traced trace s) (done : step s a = some (reply,t)) :
    Traced (trace ++ [(a,reply)]) t := by
  cases a with
  | submit msgs nonBlock =>
    simp only [step] at done
    split at done
    · cases done
      exact h.same rfl rfl rfl
    cases done
    refine ⟨(h.same (t := s) rfl rfl rfl).order,?_,fun r mem => ?_⟩
    · intro r mem
      rcases List.mem_append.mp mem with mem | mem
      · exact List.mem_append_left _ (h.entering r mem)
      · obtain rfl := List.mem_singleton.mp mem
        exact List.mem_append_right _ (List.mem_singleton_self _)
    · exact List.mem_append_left _ (h.accepted r mem)
  | enqueue id =>
    obtain ⟨r,found,eq⟩ := Option.map_eq_some_iff.mp done
    have mem : r ∈ s.entering := List.mem_of_find?_eq_some found
    have named : r.id = id := by simpa using List.find?_some found
    rcases reply_of eq with ⟨queued,rfl⟩ | ⟨f,_,rfl,rfl⟩
    · obtain ⟨entering,accepted,_⟩ := enqueue_cases queued
      constructor
      · unfold enqueued
        rw [accepted,List.map_append,h.order,List.filterMap_append,← named]
        rfl
      · rw [entering]
        exact fun q mem => List.mem_append_left _ (h.entering q (List.mem_of_mem_filter mem))
      rw [accepted]
      intro q mem'
      rcases List.mem_append.mp mem' with mem' | mem'
      · exact List.mem_append_left _ (h.accepted q mem')
      · obtain rfl := List.mem_singleton.mp mem'
        exact List.mem_append_left _ (h.entering q mem)
    · exact h.same rfl rfl rfl
  | byteEnd byte =>
    obtain ⟨op,_,eq⟩ := Option.map_eq_some_iff.mp done
    rcases reply_of eq with ⟨handled,rfl⟩ | ⟨f,_,rfl,rfl⟩
    · obtain ⟨keeps,_⟩ := byteEnd_served handled
      exact h.same rfl keeps.entering keeps.accepted
    · exact h.same rfl rfl rfl
  | nack =>
    obtain ⟨op,_,eq⟩ := Option.map_eq_some_iff.mp done
    rcases reply_of eq with ⟨handled,rfl⟩ | ⟨f,_,rfl,rfl⟩
    · unfold nack at handled
      split at handled
      · cases handled
      · cases handled
        exact h.same rfl rfl rfl
    · exact h.same rfl rfl rfl
  | resume id =>
    simp only [step] at done
    split at done
    · obtain ⟨r,_,eq⟩ := Option.map_eq_some_iff.mp done
      cases eq
      exact h.same rfl rfl rfl
    · cases done

theorem Sound.log (h : Sound s) : (∃ more, s.log = s.finished.flatMap Request.moved ++ more) ∧
    ∃ more, s.log.map Moved.asked ++ more = s.accepted.flatMap Request.asked ∧
      (more = [] ↔ s.fifo = []) := by
  have all : s.accepted.flatMap Request.asked = (s.finished ++ s.fifo).flatMap Request.asked := by
    rw [List.flatMap_def,← h.asked,← List.flatMap_def]
  have finished : (s.finished.flatMap Request.moved).map Moved.asked =
      s.finished.flatMap Request.asked := List.map_flatMap
  rw [all,List.flatMap_append]
  cases h.position with
  | idle fifo op log =>
    refine ⟨⟨[],by rw [log,List.append_nil]⟩,[],?_,by simp [fifo]⟩
    rw [log,finished,fifo]
    rfl
  | @busy r rest before m after k fifo split num count inside op log =>
    refine ⟨⟨_,log⟩,(m.moved.drop k ++ after.flatMap Msg.moved).map Moved.asked ++
      rest.flatMap Request.asked,?_,?_⟩
    · have first : r.asked = (before.flatMap Msg.moved ++ m.moved.take k).map Moved.asked ++
          (m.moved.drop k ++ after.flatMap Msg.moved).map Moved.asked := by
        unfold Request.asked Request.moved
        rw [split,← List.map_append,List.append_assoc,← List.append_assoc (m.moved.take k),
          List.take_append_drop,List.flatMap_append,List.flatMap_cons]
      rw [log,List.map_append,finished,fifo,List.flatMap_cons,first]
      simp only [List.append_assoc]
    · have left : k < m.moved.length := by simpa [Msg.moved] using inside
      rw [fifo]
      refine ⟨fun none => ?_,by simp⟩
      have length := congrArg List.length none
      simp only [List.length_append,List.length_map,List.length_drop,List.length_nil] at length
      omega

/-- In steady runs no index leaves its array, and the bytes of the requests go over the bus in
order, once each. -/
theorem i2c_transfers {trace : List (Action × Reply)} {w : Bus}
    (run : Runs.Run step Steady idle trace w) :
    (∀ f, .fault f ∉ trace.map Prod.snd) ∧
    w.accepted.map Request.id = enqueued trace ∧
    (∀ r ∈ w.accepted, (.submit r.msgs r.nonBlock, .entered r.id) ∈ trace) ∧
    (∃ more, w.log = w.finished.flatMap Request.moved ++ more) ∧
    ∃ more, w.log.map Moved.asked ++ more = w.accepted.flatMap Request.asked ∧
      (more = [] ↔ w.fifo = []) := by
  have now : Sound w ∧ Traced trace w ∧ ∀ f, .fault f ∉ trace.map Prod.snd := by
    apply run.trace_invariant
    · refine ⟨⟨.idle rfl rfl rfl, by simp [idle], by simp [idle], by simp [idle], rfl⟩,
        ⟨rfl, by simp [idle], by simp [idle]⟩, by simp⟩
    intro trace t a r u ht steady done
    obtain ⟨sound, fine⟩ := sound_step ht.1 steady done
    refine ⟨sound, traced_step ht.2.1 done, fun f mem => ?_⟩
    rw [List.map_append] at mem
    rcases List.mem_append.mp mem with mem | mem
    · exact ht.2.2 f mem
    · exact fine f (List.mem_singleton.mp mem).symm
  obtain ⟨sound, traced, fine⟩ := now
  exact ⟨fine, traced.order, traced.accepted, sound.log⟩

theorem i2c_transfers_write : ∃ trace w, Runs.Run step Steady idle trace w ∧
    w.log = [.write 5] ∧ ∀ f, .fault f ∉ trace.map Prod.snd := by
  have filled : Steady idle (.submit [⟨0x10, false, false, [5]⟩] false) := ⟨by simp, by simp⟩
  have submitted : Runs.Run step Steady idle _ _ := .next .start filled rfl
  have queued := submitted.next (show Steady _ (.enqueue 0) from trivial) rfl
  have run := queued.next (show Steady _ (.byteEnd 0) by rintro ⟨_, _, _, _, ⟨⟩, _⟩) rfl
  exact ⟨_, _, run, rfl, (i2c_transfers run).1⟩

/-- Requests of at least one message and no empty read, and a slave that acknowledges. -/
def Acknowledged (_ : Bus) : Action → Prop
  | .submit msgs _ => msgs ≠ [] ∧ ∀ m ∈ msgs, m.rd = true → m.buf ≠ []
  | .enqueue _ => True
  | .byteEnd _ => True
  | .nack => False
  | .resume _ => True

/-- An empty write reads behind its buffer. -/
theorem i2c_faults :
    (∃ trace w, Runs.Run step Acknowledged idle trace w ∧
      trace.map Prod.snd = [.entered 0, .queued, .fault .buf]) ∧
    ∃ trace w, Runs.Run step Acknowledged idle trace w ∧
      trace.map Prod.snd = [.entered 0, .queued, .entered 1, .queued, .fault .msg] := by
  have write : ∀ s buf, Acknowledged s (.submit [⟨0x10, false, false, buf⟩] true) := by
    simp [Acknowledged]
  have enqueue : ∀ s id, Acknowledged s (.enqueue id) := fun _ _ => trivial
  have interrupt : ∀ s, Acknowledged s (.byteEnd 0) := fun _ => trivial
  constructor
  · have submitted : Runs.Run step Acknowledged idle _ _ := .next .start (write _ []) rfl
    have queued := submitted.next (enqueue _ 0) rfl
    exact ⟨_, _, queued.next (interrupt _) rfl, rfl⟩
  have submitted : Runs.Run step Acknowledged idle _ _ := .next .start (write _ [5]) rfl
  have queued := submitted.next (enqueue _ 0) rfl
  have second := (queued.next (write _ [6]) rfl).next (enqueue _ 1) rfl
  exact ⟨_, _, second.next (interrupt _) rfl, rfl⟩

end Apc8750.I2c
