import Apc8750.Uart.Transmit
import Mathlib.Algebra.Order.Group.Nat

namespace Apc8750.Uart.Receive

structure Line where
  bytes : Nat → BitVec 8
  phy : Bool → Nat

/-- The buffer of the byte with a number, `true` for the second one. -/
def buf (n : Nat) : Bool := n / uartBufferSize % 2 = 1

def Line.pos (l : Line) (n : Nat) : Nat := l.phy (buf n) + n % uartBufferSize

/-- The cursors by buffer, the bytes the DMA has written, those it had at the last look, and what
was delivered. -/
structure Reader where
  tmpPhy : Bool → Nat
  tmpBuf : Bool → Nat
  lastPos : Nat
  selected : Bool
  mem : Bool → Nat → BitVec 8
  written : Nat
  seen : Nat
  delivered : List (BitVec 8)

def countIn (pos phy tmp : Nat) : Nat :=
  if phy ≤ pos ∧ pos < phy + uartBufferSize then (pos + 2 ^ 32 - tmp) % 2 ^ 32
  else if pos = 0 then if tmp = phy then 0 else (phy + uartBufferSize + 2 ^ 32 - tmp) % 2 ^ 32
  else (phy + uartBufferSize + 2 ^ 32 - tmp) % 2 ^ 32

def select (l : Line) (r : Reader) : Bool :=
  !decide ((r.tmpPhy true = l.phy true ∨ r.tmpPhy true = l.phy true + uartBufferSize) ∧
    r.tmpPhy false < l.phy false + uartBufferSize)

def wmtRxCount (l : Line) (r : Reader) (pos : Nat) : Nat × Reader :=
  if pos = r.lastPos then (0, r)
  else
    let b := select l r
    let n := countIn pos (l.phy b) (r.tmpPhy b)
    (n, { r with lastPos := pos, selected := b, tmpPhy := fun x => if x = b then r.tmpPhy b + n else l.phy x })

def deliver (mem : Nat → BitVec 8) : Nat → Nat → List (BitVec 8) × Nat
  | 0, v => ([], v)
  | n + 1, v =>
    let (chars, w) := deliver mem n (if v + 1 = uartBufferSize then 0 else v + 1)
    (mem v :: chars, w)

/-- The DMA writes a byte, or `wmt_rx_chars` takes a count of characters, until the count is zero.
-/
inductive Event where
  | dma
  | count

def step (l : Line) (r : Reader) : Event → Option (Nat × Reader)
  | .dma => some (0, { r with
      mem := fun b v => if b = buf r.written ∧ v = r.written % uartBufferSize then l.bytes r.written else r.mem b v
      written := r.written + 1 })
  | .count =>
    let (n, s) := wmtRxCount l r (l.pos r.written)
    let taken := deliver (s.mem s.selected) n (s.tmpBuf s.selected)
    some (n, { s with
      tmpBuf := Function.update s.tmpBuf s.selected taken.2
      seen := r.written
      delivered := r.delivered ++ taken.1 })

/-- The DMA stays within a buffer's length, and has moved on after a count up to the end of a
buffer. -/
def Careful (r : Reader) : Event → Prop
  | .dma => r.written < r.delivered.length + uartBufferSize
  | .count => r.delivered.length = r.seen ∨ r.written ≠ r.seen

/-- The cursor of the last byte is behind it, the other one at its start. -/
structure Tracks (l : Line) (r : Reader) (c : Nat) : Prop where
  low : c ≤ r.seen
  seen : r.seen ≤ r.written
  high : r.written ≤ c + uartBufferSize
  last : r.lastPos = l.pos r.seen ∨ r.lastPos = 0 ∧ c = 0 ∧ r.seen = 0
  behind : 0 < c → r.tmpPhy (buf (c - 1)) = l.phy (buf (c - 1)) + (c - 1) % uartBufferSize + 1
  other : r.tmpPhy (!buf (c - 1)) = l.phy (!buf (c - 1))
  none : c = 0 → r.tmpPhy false = l.phy false ∧ r.tmpPhy true = l.phy true
  here : r.tmpBuf (buf c) = c % uartBufferSize
  turned : r.tmpBuf (!buf c) = 0
  kept : ∀ j < r.written, r.written ≤ j + 2 * uartBufferSize → r.mem (buf j) (j % uartBufferSize) = l.bytes j
  delivered : r.delivered = (List.range c).map l.bytes

structure Line.Apart (l : Line) : Prop where
  low : ∀ b, 0 < l.phy b ∧ l.phy b + uartBufferSize < 2 ^ 32
  apart : ∀ b, l.phy b + uartBufferSize ≤ l.phy (!b) ∨ l.phy (!b) + uartBufferSize ≤ l.phy b

variable {l : Line} {r s : Reader} {c n : Nat}

theorem buf_add (c n : Nat) (in' : c % uartBufferSize + n < uartBufferSize) : buf (c + n) = buf c := by
  unfold buf uartBufferSize at *
  simp only [decide_eq_decide]
  omega

theorem buf_next (c n : Nat) (ends : c % uartBufferSize + n = uartBufferSize) : buf (c + n) = !buf c := by
  unfold buf uartBufferSize at *
  rw [← decide_not,decide_eq_decide]
  omega

theorem deliver_eq (mem : Nat → BitVec 8) (n v : Nat) (low : v < uartBufferSize) (room : v + n ≤ uartBufferSize) :
    deliver mem n v = ((List.range' v n).map mem, if v + n = uartBufferSize then 0 else v + n) := by
  induction n generalizing v with
  | zero => rw [deliver,if_neg (by omega)]; rfl
  | succ n ih =>
    rw [deliver]
    by_cases last : v + 1 = uartBufferSize
    · obtain rfl : n = 0 := by omega
      rw [if_pos last]
      rfl
    · rw [if_neg last,ih (v + 1) (by omega) (by omega),List.range'_succ,Nat.add_right_comm,Nat.add_assoc v]
      rfl

theorem Tracks.next (h : Tracks l r c) : r.tmpPhy (buf c) = l.phy (buf c) + c % uartBufferSize := by
  rcases Nat.eq_zero_or_pos c with zero | pos
  · rw [zero]
    exact (h.none zero).1
  have behind := h.behind pos
  by_cases ends : (c - 1) % uartBufferSize + 1 = uartBufferSize
  · have other := buf_next (c - 1) 1 ends
    rw [Nat.sub_add_cancel pos] at other
    rw [other,h.other,show c % uartBufferSize = 0 by unfold uartBufferSize at *; omega]
    rfl
  have same := buf_add (c - 1) 1 (by unfold uartBufferSize at *; omega)
  rw [Nat.sub_add_cancel pos] at same
  rw [same,behind]
  unfold uartBufferSize at *
  omega

theorem Tracks.select (h : Tracks l r c) : select l r = buf c := by
  unfold Receive.select
  rcases Nat.eq_zero_or_pos c with rfl | pos
  · obtain ⟨first,second⟩ := h.none rfl
    simp [first,second,uartBufferSize,buf]
  have behind := h.behind pos
  have other := h.other
  have size : (c - 1) % uartBufferSize < uartBufferSize := Nat.mod_lt _ (by decide)
  by_cases ends : (c - 1) % uartBufferSize + 1 = uartBufferSize
  · have turn := buf_next (c - 1) 1 ends
    rw [Nat.sub_add_cancel pos] at turn
    rw [turn]
    cases at' : buf (c - 1) with
    | false => simp [at'] at behind other ⊢; omega
    | true => simp [at'] at behind other ⊢; omega
  have same := buf_add (c - 1) 1 (by omega)
  rw [Nat.sub_add_cancel pos] at same
  rw [same]
  cases at' : buf (c - 1) with
  | false => simp [at'] at behind other ⊢; omega
  | true => simp [at'] at behind other ⊢; omega

theorem countIn_eq (apart : l.Apart) (low : c ≤ n) (high : n ≤ c + uartBufferSize) :
    let k := countIn (l.pos n) (l.phy (buf c)) (l.phy (buf c) + c % uartBufferSize)
    c % uartBufferSize + k ≤ uartBufferSize ∧ c + k ≤ n ∧ (k = 0 → c = n) ∧
      (c + k = n ∨ c % uartBufferSize + k = uartBufferSize) := by
  have room := apart.low (buf c)
  by_cases same : buf n = buf c
  · have order : n / uartBufferSize = c / uartBufferSize := by
      unfold buf uartBufferSize at *
      simp only [decide_eq_decide] at same
      omega
    rw [countIn,Line.pos,same,if_pos (by unfold uartBufferSize; omega)]
    unfold uartBufferSize at *
    omega
  · have other : buf n = !buf c := Bool.eq_not.mpr same
    have places := apart.apart (buf c)
    have room' := apart.low (buf n)
    rw [countIn,Line.pos,if_neg (by rw [other]; unfold uartBufferSize at *; omega),if_neg (by omega)]
    unfold buf uartBufferSize at *
    simp only [decide_eq_decide] at same
    omega

theorem pos_inj (apart : l.Apart) (low : c ≤ n) (high : n ≤ c + uartBufferSize) (eq : l.pos n = l.pos c) : n = c := by
  unfold Line.pos at eq
  by_cases same : buf n = buf c
  · rw [same] at eq
    unfold buf uartBufferSize at *
    simp only [decide_eq_decide] at same
    omega
  have other : buf n = !buf c := Bool.eq_not.mpr same
  have places := apart.apart (buf c)
  rw [other] at eq
  unfold uartBufferSize at *
  omega

theorem Tracks.take (h : Tracks l r c) (room : c % uartBufferSize + n ≤ uartBufferSize) (low : c + n ≤ r.written) (none : n = 0 → c = 0) :
    Tracks l { r with
      lastPos := l.pos r.written, selected := buf c,
      tmpPhy := fun x => if x = buf c then r.tmpPhy (buf c) + n else l.phy x
      tmpBuf := Function.update r.tmpBuf (buf c) (if c % uartBufferSize + n = uartBufferSize then 0 else c % uartBufferSize + n)
      seen := r.written
      delivered := r.delivered ++ (List.range' (c % uartBufferSize) n).map (r.mem (buf c)) } (c + n) := by
  have size : c % uartBufferSize < uartBufferSize := Nat.mod_lt _ (by decide)
  have last : buf (c + n - 1) = buf c := by
    rcases Nat.eq_zero_or_pos n with rfl | pos
    · rw [none rfl]
    · rw [Nat.add_sub_assoc pos]
      exact buf_add c (n - 1) (by omega)
  refine ⟨low,le_rfl,h.high.trans (by omega),.inl rfl,fun pos => ?_,?_,fun zero => ?_,?_,?_,h.kept,?_⟩
  · simp only [last,if_true,h.next]
    have : 0 < n := Nat.pos_of_ne_zero fun zero => absurd (none zero) (by omega)
    unfold uartBufferSize at *
    omega
  · simp [last]
  · obtain ⟨rfl,rfl⟩ : c = 0 ∧ n = 0 := by omega
    simp [buf,(h.none rfl).1]
  · by_cases ends : c % uartBufferSize + n = uartBufferSize
    · rw [buf_next c n ends]
      simp only [Function.update_of_ne (Bool.not_ne_self _),h.turned]
      unfold uartBufferSize at *
      omega
    rw [buf_add c n (by omega)]
    simp only [Function.update_self,if_neg ends]
    unfold uartBufferSize at *
    omega
  · by_cases ends : c % uartBufferSize + n = uartBufferSize
    · rw [buf_next c n ends,Bool.not_not]
      simp [ends]
    · rw [buf_add c n (by omega)]
      simp only [Function.update_of_ne (Bool.not_ne_self _),h.turned]
  · simp only [h.delivered,List.range_add,List.map_append,List.range'_eq_map_range,List.map_map]
    refine congrArg (_ ++ ·) (List.map_congr_left fun i less => ?_)
    have less := List.mem_range.mp less
    have byte := h.kept (c + i) (by omega) (h.high.trans (by omega))
    rw [buf_add c i (by omega)] at byte
    rw [Function.comp_apply,Function.comp_apply,← byte]
    exact congrArg _ (by unfold uartBufferSize at *; omega)

/-- The first bytes of the line in order, and on return all up to the last position seen. -/
structure Exact (l : Line) (trace : List (Event × Nat)) (r : Reader) : Prop where
  delivered : r.delivered = (List.range r.delivered.length).map l.bytes
  written : r.delivered.length ≤ r.written
  whole : trace.getLast? = some (.count, 0) → r.delivered.length = r.seen

theorem Tracks.length (h : Tracks l r c) : r.delivered.length = c := by
  rw [h.delivered,List.length_map,List.length_range]

theorem Tracks.dma (h : Tracks l r c) (less : r.written < c + uartBufferSize) :
    ∃ s, step l r .dma = some (0,s) ∧ Tracks l s c ∧ s.written = r.written + 1 ∧ s.seen = r.seen ∧
      s.lastPos = r.lastPos := by
  refine ⟨_,rfl,⟨h.low,h.seen.trans (Nat.le_succ _),less,h.last,h.behind,h.other,h.none,h.here,h.turned,
    fun j below near => ?_,h.delivered⟩,rfl,rfl,rfl⟩
  dsimp only at below near ⊢
  by_cases new : j = r.written
  · rw [if_pos ⟨by rw [new],by rw [new]⟩,new]
  rw [if_neg,h.kept j (by omega) (by omega)]
  unfold buf uartBufferSize at *
  simp only [decide_eq_decide]
  omega

theorem Tracks.count (apart : l.Apart) (h : Tracks l r c) (fresh : l.pos r.written ≠ r.lastPos) :
    ∃ n s, step l r .count = some (n,s) ∧ Tracks l s (c + n) ∧ s.seen = r.written ∧ s.written = r.written ∧
      s.lastPos = l.pos r.written ∧ c % uartBufferSize + n ≤ uartBufferSize ∧ (n = 0 → c = r.written) ∧
      (c + n = r.written ∨ c % uartBufferSize + n = uartBufferSize) := by
  have count := countIn_eq apart (h.low.trans h.seen) h.high
  rw [← h.next] at count
  obtain ⟨room,low,none,ends⟩ := count
  have start (zero : countIn (l.pos r.written) (l.phy (buf c)) (r.tmpPhy (buf c)) = 0) : c = 0 := by
    by_contra pos
    have seen : r.seen = r.written := le_antisymm h.seen (none zero ▸ h.low)
    exact fresh (seen ▸ (h.last.resolve_right fun start => pos start.2.1).symm)
  refine ⟨_,_,?_,h.take room low start,rfl,rfl,rfl,room,none,ends⟩
  simp only [step,wmtRxCount,if_neg fresh,h.select,h.here]
  rw [deliver_eq _ _ _ (Nat.mod_lt _ (by decide)) room]

theorem Tracks.same (h : Tracks l r c) (same : l.pos r.written = r.lastPos) (seen : r.seen = r.written) :
    step l r .count = some (0,r) := by
  cases r
  cases seen
  simp [step,wmtRxCount,show l.pos _ = _ from same,deliver]

theorem Tracks.step (apart : l.Apart) (h : Tracks l r c) {e : Event} (careful : Careful r e)
    (done : step l r e = some (n,s)) : ∃ c', Tracks l s c' ∧ (e = .count → n = 0 → c' = s.seen) := by
  cases e with
  | dma =>
    obtain ⟨t,eq,tracks,_⟩ := h.dma (by rw [← h.length]; exact careful)
    cases eq.symm.trans done
    exact ⟨c,tracks,nofun⟩
  | count =>
    have careful : r.delivered.length = r.seen ∨ r.written ≠ r.seen := careful
    by_cases fresh : l.pos r.written = r.lastPos
    · have seen : r.written = r.seen := by
        rcases h.last with last | ⟨zero,_⟩
        · exact pos_inj apart h.seen (h.high.trans (by have := h.low; omega)) (fresh.trans last)
        · have := apart.low (buf r.written)
          unfold Line.pos at fresh
          omega
      cases (h.same fresh seen.symm).symm.trans done
      exact ⟨c,h,fun _ _ => h.length.symm.trans (careful.resolve_right (not_not.mpr seen))⟩
    · obtain ⟨k,t,eq,tracks,seen,_,_,_,none,_⟩ := h.count apart fresh
      cases eq.symm.trans done
      refine ⟨_,tracks,fun _ zero => ?_⟩
      rw [seen,zero]
      exact none zero

end Apc8750.Uart.Receive
