import Apc8750.Usb.BulkIn
import Mathlib.Algebra.Order.Group.Nat

namespace Apc8750.Usb

def packets (maxpacket count : Nat) : Nat := if count = 0 then 1 else (count + maxpacket - 1) / maxpacket

def submit (e : Endpoint) (req : Request) : Endpoint :=
  let req := { req with actual := 0, status := einprogress }
  if e.queue = [] then program { e with queue := [req] } else { e with queue := e.queue ++ [req] }

inductive Event where
  | submit (req : Request)
  | transfer

structure Line where
  e : Endpoint
  sent : Nat

def Line.step (l : Line) : Event → Line
  | .submit req => { l with e := Usb.submit l.e req }
  | .transfer => if l.e.queue = [] then l else
      ⟨transfer l.e, l.sent + packets l.e.maxpacket l.e.tbytes⟩

/-- `BULKXFER_DATA1` of the transfer that is programmed. -/
def Endpoint.data1 (e : Endpoint) : Bool := e.tbytes2.testBit 6

/-- A request of one transfer, with an odd number of packets if a zero-length one follows. -/
def Regular (maxpacket : Nat) (req : Request) : Prop :=
  req.length.toNat ≤ ubeMaxDma ∧ (WantsZlp maxpacket req → req.length.toNat / maxpacket % 2 = 1)

variable {e : Endpoint} {l : Line} {req : Request} {rest : List Request} {n mp : Nat}

def Due (mp : Nat) (req : Request) : Prop :=
  Regular mp req ∧ (req.actual = 0 ∨ req.actual = req.length ∧ WantsZlp mp req)

theorem toggle_marked (a t : Nat) :
    (if t ≠ 0 then a ||| 0x40 else a &&& 0xBF).testBit 6 = decide (t ≠ 0) := by
  have one : Nat.testBit 0x40 6 = true := by decide
  have zero : Nat.testBit 0xBF 6 = false := by decide
  split
  · rename_i set
    simp [one,set]
  · rename_i clear
    simpa [zero] using clear

theorem program_toggles (h : e.queue = req :: rest) (idle : e.tbytes2 % 4 = 0)
    (toggle : e.toggleBit = n % 2) (due : Due e.maxpacket req) :
    (program e).data1 = decide (n % 2 = 1) ∧
      (program e).toggleBit = (n + packets e.maxpacket (program e).tbytes) % 2 := by
  obtain ⟨⟨small,odd⟩,place⟩ := due
  have pos := e.pos
  have count : (program e).tbytes = min (req.length - req.actual).toNat ubeMaxDma := by
    unfold program
    rw [h]
    exact tbytes_program idle
  rw [count]
  unfold program
  rw [h]
  simp only [nextInDma,Endpoint.data1,toggle]
  constructor
  · rw [toggle_marked,decide_eq_decide]
    omega
  unfold ubeMaxDma at small ⊢
  rcases place with first | ⟨last,wants⟩
  · have all : req.length - req.actual = req.length := by simp [first]
    rw [all,Nat.min_eq_left small,packets]
    by_cases long : e.maxpacket < req.length.toNat
    · have low : (req.length.toNat + e.maxpacket - 1) % 2 ^ 32 = req.length.toNat + e.maxpacket - 1 :=
        Nat.mod_eq_of_lt (by omega)
      rw [if_pos long,if_neg (show ¬ req.length.toNat = 0 by omega),low]
      omega
    rw [if_neg long]
    by_cases none : req.length.toNat = 0
    · rw [if_pos none]
      split <;> omega
    have one : (req.length.toNat + e.maxpacket - 1) / e.maxpacket = 1 :=
      Nat.div_eq_of_lt_le (by omega) (by omega)
    rw [if_neg none,one]
    split <;> omega
  · have parts := Nat.div_mul_cancel wants.2.2
    have whole : (req.length.toNat + e.maxpacket - 1) / e.maxpacket = req.length.toNat / e.maxpacket :=
      Nat.div_eq_of_lt_le (by rw [parts]; omega) (by rw [Nat.succ_mul,parts]; omega)
    have one := odd wants
    rw [last,BitVec.sub_self]
    simp only [BitVec.toNat_zero,Nat.zero_min,packets,if_true]
    split
    · have low : (req.length.toNat + e.maxpacket - 1) % 2 ^ 32 = req.length.toNat + e.maxpacket - 1 :=
        Nat.mod_eq_of_lt (by omega)
      rw [low,whole]
      omega
    · split <;> omega

/-- The toggle is that of the packets up to the end of the transfer that is programmed. -/
structure Tracks (mp : Nat) (l : Line) : Prop where
  maxpacket : l.e.maxpacket = mp
  empty : l.e.queue = [] → l.e.tbytes2 % 4 = 0 ∧ l.e.toggleBit = l.sent % 2
  head : ∀ req rest, l.e.queue = req :: rest → Due mp req ∧ req.dmaBytes = req.length - req.actual ∧
    l.e.data1 = decide (l.sent % 2 = 1) ∧ l.e.toggleBit = (l.sent + packets mp l.e.tbytes) % 2
  rest : ∀ r ∈ l.e.queue.tail, Regular mp r ∧ r.actual = 0

theorem tracks_program (h : e.queue = req :: rest) (idle : e.tbytes2 % 4 = 0)
    (toggle : e.toggleBit = n % 2) (due : Due e.maxpacket req)
    (later : ∀ r ∈ rest, Regular e.maxpacket r ∧ r.actual = 0) : Tracks e.maxpacket ⟨program e,n⟩ := by
  obtain ⟨mark,next⟩ := program_toggles h idle toggle due
  obtain ⟨c,queue,_⟩ := program_cons h
  refine ⟨program_maxpacket,fun none => ?_,fun r rs some => ?_,?_⟩
  · simp [queue] at none
  · rw [queue] at some
    cases some
    exact ⟨due,rfl,mark,next⟩
  · simpa [queue] using later

theorem Tracks.transfer (h : Tracks mp l) (queue : l.e.queue = req :: rest) :
    Tracks mp ⟨transfer l.e,l.sent + packets mp l.e.tbytes⟩ := by
  obtain ⟨⟨regular,place⟩,bytes,_,toggle⟩ := h.head req rest queue
  have later : ∀ r ∈ rest, Regular mp r ∧ r.actual = 0 := by simpa [queue] using h.rest
  obtain rfl := h.maxpacket
  have idle : l.e.tbytes2 / 4 * 4 % 4 = 0 := Nat.mul_mod_left _ _
  have small := regular.1
  unfold ubeMaxDma at small
  rw [transfer_cons queue]
  split
  · rename_i more
    -- only a request that has not sent its zero-length packet goes on
    have wants : WantsZlp l.e.maxpacket req ∧ req.actual = 0 := by
      rcases place with first | ⟨last,_⟩
      · replace bytes : req.dmaBytes = req.length := by simpa [first] using bytes
        have actual : req.advance.actual = req.length := by simp [Request.advance,first]
        rcases more with less | ⟨zero,ne,divides⟩
        · simp [Request.advance,first] at less
        rw [actual] at divides
        refine ⟨⟨zero,?_,Nat.dvd_of_mod_eq_zero divides⟩,first⟩
        have ne : req.length ≠ 0 := by simpa [Request.advance,bytes] using ne
        exact Nat.pos_of_ne_zero fun none => ne (BitVec.eq_of_toNat_eq none)
      · rcases more with less | ⟨_,ne,_⟩
        · have less : (req.actual + req.length).toNat < req.length.toNat := less
          rw [last,BitVec.toNat_add] at less
          omega
        · exact absurd (by simp [Request.advance,bytes,last]) ne
    refine tracks_program (e := { complete l.e with queue := req.advance :: rest }) rfl idle toggle
      ⟨regular,.inr ⟨?_,wants.1⟩⟩ later
    simp [Request.advance,wants.2]
  · cases rest with
    | nil =>
      refine ⟨rfl,fun _ => ⟨idle,toggle⟩,fun r rs none => ?_,fun r none => ?_⟩
      · cases none
      · cases none
    | cons r rest =>
      have next := later r List.mem_cons_self
      exact tracks_program (e := done (complete l.e) req.advance (r :: rest) 0) rfl idle toggle
        ⟨next.1,.inl next.2⟩ fun r' mem => later r' (List.mem_cons_of_mem _ mem)

theorem Tracks.submit (h : Tracks mp l) (regular : Regular mp req) :
    Tracks mp ⟨submit l.e req,l.sent⟩ := by
  obtain rfl := h.maxpacket
  unfold Usb.submit
  dsimp only
  split
  · rename_i none
    obtain ⟨idle,toggle⟩ := h.empty none
    exact tracks_program (e := { l.e with queue := [{ req with actual := 0, status := einprogress }] }) rfl idle
      toggle ⟨regular,.inl rfl⟩ fun _ none => by cases none
  rename_i some
  obtain ⟨first,rest,queue⟩ := List.exists_cons_of_ne_nil some
  refine ⟨rfl,fun none => absurd (List.append_eq_nil_iff.mp none).1 some,fun r rs both => ?_,?_⟩
  · simp only [queue,List.cons_append,List.cons.injEq] at both
    exact both.1 ▸ h.head first rest queue
  intro r mem
  simp only [queue,List.cons_append,List.tail_cons,List.mem_append,List.mem_singleton] at mem
  rcases mem with mem | rfl
  · exact h.rest r (by simpa [queue] using mem)
  · exact ⟨regular,rfl⟩

/-- Every transfer has the parity of the packets sent, if requests fit one transfer and zero-length
packets come odd. -/
theorem toggle_is_parity (idle : e.queue = []) (clear : e.tbytes2 % 4 = 0) (reset : e.toggleBit = 0)
    (events : List Event) (regular : ∀ req, .submit req ∈ events → Regular e.maxpacket req) :
    (events.foldl Line.step ⟨e, 0⟩).e.queue ≠ [] → (events.foldl Line.step ⟨e, 0⟩).e.data1 =
      decide ((events.foldl Line.step ⟨e, 0⟩).sent % 2 = 1) := by
  have run (l : Line) (h : Tracks e.maxpacket l) : Tracks e.maxpacket (events.foldl Line.step l) := by
    induction events generalizing l with
    | nil => exact h
    | cons event events ih =>
      refine ih (fun req mem => regular req (List.mem_cons_of_mem _ mem)) _ ?_
      cases event with
      | submit req => exact h.submit (regular req List.mem_cons_self)
      | transfer =>
        unfold Line.step
        dsimp only
        split
        · exact h
        rename_i some
        obtain ⟨first, rest, queue⟩ := List.exists_cons_of_ne_nil some
        rw [h.maxpacket]
        exact h.transfer queue
  intro some
  obtain ⟨first, rest, queue⟩ := List.exists_cons_of_ne_nil some
  have start : Tracks e.maxpacket ⟨e, 0⟩ := by
    refine ⟨rfl, fun _ => ⟨clear, reset⟩, fun r rs some => ?_, ?_⟩
    · rw [show e.queue = r :: rs from some] at idle
      cases idle
    · rw [show e.queue = [] from idle]
      exact fun _ none => by cases none
  exact ((run _ start).head first rest queue).2.2.1

theorem toggle_is_parity_odd : ([.submit (request 192 true), .submit (request 1 false), .transfer, .transfer].foldl
    Line.step ⟨{ queued (request 0 false) with queue := [] }, 0⟩).e.data1 = decide (4 % 2 = 1) :=
  toggle_is_parity rfl rfl rfl _ (by
    intro req mem
    simp only [List.mem_cons, Event.submit.injEq, reduceCtorEq, List.not_mem_nil, or_false] at mem
    rcases mem with rfl | rfl
    · exact ⟨by decide, fun _ => by decide⟩
    · exact ⟨by decide, fun wants => absurd wants (by decide)⟩) (by decide +kernel)

/-- 128 bytes and a zero-length packet are three packets, and the toggle is that of an even
number. -/
theorem zero_length_packet_uncounted :
    let l := [.submit (request 128 true), .submit (request 1 false), .transfer, .transfer].foldl
      Line.step ⟨{ queued (request 0 false) with queue := [] }, 0⟩
    l.e.queue ≠ [] ∧ l.sent = 3 ∧ l.e.data1 = false := by
  decide +kernel

end Apc8750.Usb
