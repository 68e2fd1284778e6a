import Mathlib.Data.List.Basic

namespace Apc8750.Hdmi

def hdmiStatusStart : BitVec 32 := 0x10000
def hdmiStatusStop : BitVec 32 := 0x20000
def hdmiStatusWrAvail : BitVec 32 := 0x40000
def hdmiStatusCpUse : BitVec 32 := 0x80000
def hdmiStatusSwRead : BitVec 32 := 0x2000000

/-- Three for the segment of an index from 256 on, five before the data, two for every byte, one for
the stop. -/
inductive Wait where
  | segmentStart
  | segmentAddr
  | segmentIndex
  | start
  | slaveAddr
  | offset
  | restart
  | slaveRead
  | ack (i : Nat)
  | avail (i : Nat)
  | stop
  deriving DecidableEq

/-- The arguments of `hdmi_DDC_check_status`: the bits, and whether they are to be cleared. -/
def Wait.check : Wait → BitVec 32 × Bool
  | .segmentStart | .start | .restart => (hdmiStatusStart + hdmiStatusWrAvail, true)
  | .segmentAddr | .segmentIndex | .slaveAddr | .offset | .slaveRead | .ack _ => (hdmiStatusWrAvail, true)
  | .avail _ => (hdmiStatusSwRead, false)
  | .stop => (hdmiStatusStop + hdmiStatusWrAvail + hdmiStatusCpUse, true)

def busy (check : BitVec 32 × Bool) (reg : BitVec 32) : Bool :=
  if check.2 then reg &&& check.1 != 0 else reg &&& check.1 == 0

def maxloop : Nat := 500

/-- The loop of `hdmi_DDC_check_status` with `left` polls to go before the time-out. -/
def pollLoop (check : BitVec 32 × Bool) (reg : Nat → BitVec 32) : Nat → Nat → Bool
  | 0, _ => false
  | left + 1, i => if busy check (reg i) then pollLoop check reg left (i + 1) else true

def hdmiDdcCheckStatus (w : Wait) (reg : Nat → BitVec 32) : Bool := pollLoop w.check reg maxloop 0

/-- The status readings in the polls of each wait, and the data for each byte. -/
structure Controller where
  status : Wait → Nat → BitVec 32
  data : Nat → UInt8

def Controller.ok (c : Controller) (w : Wait) : Bool := hdmiDdcCheckStatus w (c.status w)

def openings (index : Nat) : List Wait :=
  (if 256 ≤ index then [.segmentStart, .segmentAddr, .segmentIndex] else []) ++
    [.start, .slaveAddr, .offset, .restart, .slaveRead]

/-- What an attempt leaves: the count of errors, the bytes stored and the buffer. -/
structure Attempt where
  errCnt : Nat
  stored : Nat
  buf : Nat → UInt8

/-- The loop over the bytes, `left` of them to go, byte `i` next. The stop follows the last one. -/
def readLoop (c : Controller) : Nat → Nat → (Nat → UInt8) → Attempt
  | 0, i, buf => ⟨if c.ok .stop then 0 else 1, i, buf⟩
  | left + 1, i, buf =>
    if c.ok (.ack i) then
      if c.ok (.avail i) then readLoop c left (i + 1) (Function.update buf i (c.data i))
      else ⟨if i = 0 then 1 else 0, i, buf⟩
    else ⟨1, i, buf⟩

def hdmiDdcReadFunc (c : Controller) (index length : Nat) (buf : Nat → UInt8) : Attempt :=
  if (openings index).all c.ok then readLoop c length 0 buf else ⟨1, 0, buf⟩

structure Outcome where
  ret : Nat
  attempts : List Attempt
  buf : Nat → UInt8

/-- The retries of `hdmi_DDC_read`, attempt `a` next. -/
def retries (c : Nat → Controller) (index length : Nat) : Nat → Nat → List Attempt → (Nat → UInt8) → Outcome
  | 0, _, made, buf => ⟨1, made, buf⟩
  | retry + 1, a, made, buf =>
    let attempt := hdmiDdcReadFunc (c a) index length buf
    if attempt.errCnt = 0 then ⟨0, made ++ [attempt], attempt.buf⟩
    else retries c index length retry (a + 1) (made ++ [attempt]) attempt.buf

def hdmiDdcRead (c : Nat → Controller) (index length : Nat) (buf : Nat → UInt8) : Outcome :=
  retries c index length 3 0 [] buf

variable {c : Controller} {index length i : Nat} {w : Wait}

/-- The first readings of a wait are all those of a busy controller. -/
def Controller.TimesOut (c : Controller) (w : Wait) : Prop := ∀ n < maxloop, busy w.check (c.status w n) = true

instance : Decidable (c.TimesOut w) := inferInstanceAs (Decidable (∀ n < maxloop, _))

theorem pollLoop_iff {check : BitVec 32 × Bool} {reg : Nat → BitVec 32} :
    pollLoop check reg left i = false ↔ ∀ n, i ≤ n → n < i + left → busy check (reg n) = true := by
  induction left generalizing i with
  | zero => exact iff_of_true rfl fun n low high => by omega
  | succ left ih =>
    unfold pollLoop
    by_cases here : busy check (reg i) = true
    · rw [if_pos here,ih]
      refine ⟨fun all n low high => ?_,fun all n low high => all n (by omega) (by omega)⟩
      rcases Nat.eq_or_lt_of_le low with rfl | more
      · exact here
      · exact all n more (by omega)
    · rw [if_neg here]
      exact iff_of_false Bool.true_eq_false.mp fun all => here (all i (Nat.le_refl i) (by omega))

theorem ok_eq_false : c.ok w = false ↔ c.TimesOut w := by
  rw [Controller.ok,hdmiDdcCheckStatus,pollLoop_iff]
  exact ⟨fun all n lt => all n (Nat.zero_le n) (by omega),fun all n _ lt => all n (by omega)⟩

def bytes : Nat → Nat → List Wait
  | 0, _ => [.stop]
  | left + 1, i => .ack i :: .avail i :: bytes left (i + 1)

def waits (index length : Nat) : List Wait := openings index ++ bytes length 0

def Controller.failure (c : Controller) (index length : Nat) : Option Wait :=
  (waits index length).find? fun w => c.TimesOut w

theorem failure_eq (c : Controller) (index length : Nat) :
    c.failure index length = (waits index length).find? fun w => !c.ok w := by
  have same (w : Wait) : decide (c.TimesOut w) = !c.ok w := by
    rw [Bool.eq_iff_iff,decide_eq_true_iff,Bool.not_eq_true',ok_eq_false]
  simp only [Controller.failure,same]

def Wait.later : Wait → Prop
  | .avail i => i ≠ 0
  | _ => False

instance : DecidablePred Wait.later
  | .avail i => inferInstanceAs (Decidable (i ≠ 0))
  | .segmentStart | .segmentAddr | .segmentIndex | .start | .slaveAddr | .offset | .restart | .slaveRead
  | .ack _ | .stop => isFalse id

def stored (c : Controller) (k : Nat) (buf : Nat → UInt8) : Nat → UInt8 := fun j => if j < k then c.data j else buf j

theorem stored_succ : Function.update (stored c k buf) k (c.data k) = stored c (k + 1) buf := by
  funext j
  by_cases here : j = k
  · simp [stored,here]
  · simp only [Function.update_of_ne here,stored]
    refine if_congr ?_ rfl rfl
    omega

structure Read (c : Controller) (failed : Option Wait) (length : Nat) (buf : Nat → UInt8) (r : Attempt) : Prop where
  buf : r.buf = stored c r.stored buf
  le : r.stored ≤ length
  done : failed = none → r.errCnt = 0 ∧ r.stored = length
  stuck : ∀ w, failed = some w → (r.errCnt = 0 ↔ w.later) ∧ (w.later → r.stored < length)

theorem readLoop_read (c : Controller) (buf : Nat → UInt8) (h : i + left = length) :
    Read c ((bytes left i).find? fun w => !c.ok w) length buf (readLoop c left i (stored c i buf)) := by
  induction left generalizing i with
  | zero =>
    cases ok : c.ok .stop with
    | true =>
      simp only [bytes,readLoop,ok,List.find?_cons,List.find?_nil,Bool.not_true,if_true]
      exact ⟨rfl,Nat.le_of_eq h,fun _ => ⟨rfl,by simpa using h⟩,nofun⟩
    | false =>
      simp only [bytes,readLoop,ok,List.find?_cons,Bool.not_false]
      refine ⟨rfl,Nat.le_of_eq h,nofun,fun w eq => ?_⟩
      cases eq
      exact ⟨by simp [Wait.later],False.elim⟩
  | succ left ih =>
    cases ack : c.ok (.ack i) with
    | false =>
      simp only [bytes,readLoop,ack,List.find?_cons,Bool.not_false]
      refine ⟨rfl,show i ≤ length by omega,nofun,fun w eq => ?_⟩
      cases eq
      exact ⟨by simp [Wait.later],False.elim⟩
    | true =>
      cases avail : c.ok (.avail i) with
      | false =>
        simp only [bytes,readLoop,ack,avail,List.find?_cons,Bool.not_true,Bool.not_false,if_true]
        refine ⟨rfl,show i ≤ length by omega,nofun,fun w eq => ?_⟩
        cases eq
        exact ⟨by simp [Wait.later],fun _ => show i < length by omega⟩
      | true =>
        simp only [bytes,readLoop,ack,avail,List.find?_cons,Bool.not_true,if_true]
        rw [stored_succ]
        exact ih (by omega)

theorem openings_later (mem : w ∈ openings index) : ¬ w.later := by
  unfold openings at mem
  split at mem <;> simp only [List.nil_append,List.cons_append,List.mem_cons,List.not_mem_nil,or_false] at mem
  · rcases mem with rfl | rfl | rfl | rfl | rfl | rfl | rfl | rfl <;> exact id
  · rcases mem with rfl | rfl | rfl | rfl | rfl <;> exact id

theorem readFunc_read (c : Controller) (index length : Nat) (buf : Nat → UInt8) :
    Read c (c.failure index length) length buf (hdmiDdcReadFunc c index length buf) := by
  rw [failure_eq,waits,List.find?_append,hdmiDdcReadFunc]
  cases first : (openings index).find? fun w => !c.ok w with
  | none =>
    have all : (openings index).all c.ok = true := by
      simpa [List.find?_eq_none] using first
    rw [if_pos all,Option.none_or]
    have nothing : stored c 0 buf = buf := by
      funext j
      simp [stored]
    have rest := readLoop_read c buf (Nat.zero_add length)
    rwa [nothing] at rest
  | some w =>
    have mem := List.mem_of_find?_eq_some first
    have fails := List.find?_some first
    have some : ¬ (openings index).all c.ok = true := by
      intro all
      simp [List.all_eq_true.mp all w mem] at fails
    rw [if_neg some,Option.some_or]
    refine ⟨?_,Nat.zero_le _,nofun,fun w' eq => ?_⟩
    · funext j
      simp [stored]
    · cases eq
      exact ⟨iff_of_false Nat.one_ne_zero (openings_later mem),fun later => absurd later (openings_later mem)⟩

variable {c : Nat → Controller}

def Fails (c : Nat → Controller) (index length a : Nat) : Prop :=
  ∃ w, (c a).failure index length = some w ∧ ¬ w.later

theorem errCnt_iff :
    (hdmiDdcReadFunc (c a) index length buf).errCnt ≠ 0 ↔ Fails c index length a := by
  have read := readFunc_read (c a) index length buf
  cases failed : (c a).failure index length with
  | none =>
    rw [failed] at read
    refine iff_of_false (fun err => err (read.done rfl).1) ?_
    rintro ⟨w,some,_⟩
    rw [failed] at some
    cases some
  | some w =>
    rw [failed] at read
    rw [Ne,(read.stuck w rfl).1,Fails,failed]
    simp

structure Retried (c : Nat → Controller) (index length retry a : Nat) (buf : Nat → UInt8) (o : Outcome) : Prop where
  most : o.attempts.length ≤ a + retry
  outside : ∀ j, length ≤ j → o.buf j = buf j
  good : o.ret = 0 → ∃ d < retry, (∀ e < d, Fails c index length (a + e)) ∧ ¬ Fails c index length (a + d) ∧
    o.attempts.length = a + d + 1 ∧ ∃ last before, o.attempts.getLast? = some last ∧ o.buf = last.buf ∧
      Read (c (a + d)) ((c (a + d)).failure index length) length before last
  bad : o.ret ≠ 0 → ∀ e < retry, Fails c index length (a + e)

theorem retries_retried (retry a : Nat) (made : List Attempt) (buf : Nat → UInt8) (count : made.length = a) :
    Retried c index length retry a buf (retries c index length retry a made buf) := by
  induction retry generalizing a made buf with
  | zero => exact ⟨Nat.le_of_eq count,fun _ _ => rfl,fun zero => absurd zero Nat.one_ne_zero,fun _ e lt => absurd lt (Nat.not_lt_zero e)⟩
  | succ retry ih =>
    have read := readFunc_read (c a) index length buf
    have outside : ∀ j, length ≤ j → (hdmiDdcReadFunc (c a) index length buf).buf j = buf j := by
      intro j hj
      rw [read.buf,stored,if_neg (by have := read.le; omega)]
    simp only [retries]
    by_cases err : (hdmiDdcReadFunc (c a) index length buf).errCnt = 0
    · rw [if_pos err]
      refine ⟨by simp [count],outside,fun _ => ⟨0,Nat.succ_pos retry,fun e lt => absurd lt (Nat.not_lt_zero e),
        fun fails => errCnt_iff.mpr fails err,by simp [count],_,buf,by simp,rfl,read⟩,fun ne => absurd rfl ne⟩
    rw [if_neg err]
    have fails := errCnt_iff.mp err
    have rest := ih (a + 1) (made ++ [hdmiDdcReadFunc (c a) index length buf])
      (hdmiDdcReadFunc (c a) index length buf).buf (by simp [count])
    have shift {P : Nat → Prop} {d : Nat} (here : P a) (more : ∀ e < d, P (a + 1 + e)) : ∀ e < d + 1, P (a + e) := by
      intro e lt
      cases e with
      | zero => exact here
      | succ e =>
        rw [show a + (e + 1) = a + 1 + e by omega]
        exact more e (by omega)
    refine ⟨by have := rest.most; omega,fun j hj => (rest.outside j hj).trans (outside j hj),fun zero => ?_,
      fun ne => shift fails (rest.bad ne)⟩
    obtain ⟨d,lt,before,ends,number,found⟩ := rest.good zero
    rw [show a + 1 + d = a + (d + 1) by omega] at ends number found
    exact ⟨d + 1,by omega,shift fails before,ends,number,found⟩

structure AllOrNothing (c : Nat → Controller) (length : Nat) (buf : Nat → UInt8) (o : Outcome) : Prop where
  most : o.attempts.length ≤ 3
  outside : ∀ j, length ≤ j → o.buf j = buf j
  whole : o.ret = 0 → ∃ last, o.attempts.getLast? = some last ∧ last.stored = length ∧
    ∀ j < length, o.buf j = (c (o.attempts.length - 1)).data j

/-- A read is all or nothing exactly if no first timeout is at a later byte. -/
theorem ddc_read_whole (c : Nat → Controller) (index length : Nat) (buf : Nat → UInt8) :
    AllOrNothing c length buf (hdmiDdcRead c index length buf) ↔
      ∀ a < 3, (∀ b < a, Fails c index length b) → ∀ w, (c a).failure index length = some w → ¬ w.later := by
  have retried : Retried c index length 3 0 buf (hdmiDdcRead c index length buf) := retries_retried 3 0 [] buf rfl
  have good := retried.good
  simp only [Nat.zero_add] at good
  constructor
  · intro whole a lt before w failed later
    have passes : ¬ Fails c index length a := by
      rintro ⟨w', failed', fails⟩
      cases failed.symm.trans failed'
      exact fails later
    have zero : (hdmiDdcRead c index length buf).ret = 0 := by
      by_contra ne
      have fails := retried.bad ne a lt
      rw [Nat.zero_add] at fails
      exact passes fails
    obtain ⟨d, _, before', ends, _, last, start, found, _, read⟩ := good zero
    obtain rfl : d = a := by
      rcases Nat.lt_trichotomy d a with less | same | more
      · exact absurd (before d less) ends
      · exact same
      · exact absurd (before' a more) passes
    obtain ⟨last', found', all, _⟩ := whole.whole zero
    cases found.symm.trans found'
    exact absurd all (Nat.ne_of_lt ((read.stuck w failed).2 later))
  · intro careful
    refine ⟨retried.most, retried.outside, fun zero => ?_⟩
    obtain ⟨d, lt, before, ends, number, last, start, found, same, read⟩ := good zero
    have none : (c d).failure index length = none := by
      cases failed : (c d).failure index length with
      | none => rfl
      | some w => exact absurd ⟨w, failed, careful d lt before w failed⟩ ends
    have all := (read.done none).2
    refine ⟨last, found, all, fun j hj => ?_⟩
    rw [same, read.buf, stored, if_pos (by omega), number]
    rfl

def oneByte : Controller where
  status w _ := if w = .avail 1 then 0 else hdmiStatusSwRead
  data _ := 0xAA

theorem ddc_read_short : (hdmiDdcRead (fun _ => oneByte) 0 2 fun _ => 0).ret = 0 ∧
    (hdmiDdcRead (fun _ => oneByte) 0 2 fun _ => 0).attempts.map Attempt.stored = [1] := by
  decide +kernel

end Apc8750.Hdmi
