import Apc8750.Library.Runs

namespace Apc8750.Hdmi.Cec

def eagain : Int := -11

def maxRetry : Nat := 3

def txNoRsp : Int := 0x8000

def txLsArb : Int := 0x2000

def txDone : Int := 0x100

structure Sts where
  done : Bool := false
  arb : Bool := false
  noAck : Bool := false

/-- How often `txcomp` was completed and not waited for, and `tx_state`. -/
structure State where
  txcomp : Nat := 0
  txState : Int := 0

def doIrq (s : State) (sts : Sts) : State :=
  let s := if sts.done then ⟨s.txcomp + 1, txDone⟩ else s
  let s := if sts.arb then ⟨s.txcomp + 1, txLsArb⟩ else s
  if sts.noAck then ⟨s.txcomp + 1, txNoRsp⟩ else s

inductive Outcome where
  | acknowledged
  | lost
  | unanswered
  deriving DecidableEq

/-- How a transmission goes, the interrupts until `tx_state` is read, and those until the next
attempt. -/
structure Attempt where
  outcome : Option Outcome
  irqs : List Sts
  late : List Sts

def doXferOne (s : State) (a : Attempt) : Int × State :=
  let s := a.irqs.foldl doIrq s
  let ret := if s.txcomp = 0 then eagain
    else if s.txState = txLsArb then eagain
    else if s.txState = txNoRsp then eagain
    else s.txState
  (ret, a.late.foldl doIrq { s with txcomp := s.txcomp - 1 })

/-- The retries from attempt `i` on, with the number of attempts that were made. -/
def retries (attempts : Nat → Attempt) : Nat → Nat → State → Int × Nat × State
  | 0, i, s => (eagain, i, s)
  | n + 1, i, s =>
    let (ret, s) := doXferOne s (attempts i)
    if ret ≠ eagain then (ret, i + 1, s) else retries attempts n (i + 1) s

def polling (msg : List (BitVec 8)) : Bool :=
  match msg with
  | [b] => b.toNat / 16 = b.toNat % 16
  | _ => false

def answer (own : Bool) (ret : Int) : Int :=
  if ret = eagain then eagain
  else if own then if ret = txNoRsp then 0 else -1
  else if ret = txDone then 0 else -1

def doXfer (s : State) (msg : List (BitVec 8)) (attempts : Nat → Attempt) : Int × Nat × State :=
  if msg.length < 1 then (-1, 0, s)
  else
    let (ret, made, s) := retries attempts maxRetry 0 s
    (answer (polling msg) ret, made, s)

def Outcome.sts : Outcome → Sts
  | .acknowledged => { done := true }
  | .lost => { arb := true }
  | .unanswered => { noAck := true }

def Regular (attempts : Nat → Attempt) : Prop :=
  ∀ i, ∃ o, attempts i = ⟨some o, [o.sts], []⟩

def Ends (attempts : Nat → Attempt) (made : Nat) (o : Outcome) : Prop :=
  ∃ i < made, (attempts i).outcome = some o

def Truthful (msg : List (BitVec 8)) (attempts : Nat → Attempt) (ret : Int) (made : Nat) : Prop :=
  made ≤ maxRetry ∧
    (ret = 0 ↔ Ends attempts made (if polling msg then .unanswered else .acknowledged))

def step (s : State) (a : List (BitVec 8) × (Nat → Attempt)) : Option ((Int × Nat) × State) :=
  let (ret, made, s) := doXfer s a.1 a.2
  some ((ret, made), s)

def Careful (_ : State) (a : List (BitVec 8) × (Nat → Attempt)) : Prop :=
  Regular a.2 ∧ (polling a.1 = true → ∀ i, (a.2 i).outcome ≠ some .unanswered)

variable {s : State} {attempts : Nat → Attempt} {i n : Nat}

theorem doXferOne_regular {o : Outcome} (idle : s.txcomp = 0) (h : attempts i = ⟨some o,[o.sts],[]⟩) :
    (doXferOne s (attempts i)).1 = (if o = .acknowledged then txDone else eagain) ∧
      (doXferOne s (attempts i)).2.txcomp = 0 := by
  rw [h]
  cases o <;> simp [doXferOne,doIrq,Outcome.sts,idle,txDone,txLsArb,txNoRsp]

theorem retries_regular (regular : Regular attempts) (idle : s.txcomp = 0) (first : ¬ Ends attempts i .acknowledged) :
    ∃ ret made t, retries attempts n i s = (ret, made, t) ∧ t.txcomp = 0 ∧ made ≤ i + n ∧
      (ret = txDone ∧ Ends attempts made .acknowledged ∨ ret = eagain ∧ ¬ Ends attempts made .acknowledged) := by
  induction n generalizing i s with
  | zero => exact ⟨_,_,_,rfl,idle,Nat.le_refl _,.inr ⟨rfl,first⟩⟩
  | succ n ih =>
    obtain ⟨o,h⟩ := regular i
    obtain ⟨ret,next⟩ := doXferOne_regular idle h
    rw [retries]
    dsimp only
    by_cases answered : o = .acknowledged
    · rw [ret,if_pos answered,if_pos (by decide)]
      exact ⟨_,_,_,rfl,next,by omega,.inl ⟨rfl,i,by omega,by rw [h,answered]⟩⟩
    rw [ret,if_neg answered,if_neg (by simp)]
    obtain ⟨ret,made,t,eq,idle,most,ends⟩ := ih (i := i + 1) next fun ⟨j,less,eq⟩ => by
      rcases Nat.lt_succ_iff_lt_or_eq.mp less with less | rfl
      · exact first ⟨j,less,eq⟩
      · rw [h] at eq
        exact answered (Option.some.inj eq)
    exact ⟨ret,made,t,eq,idle,by omega,ends⟩

theorem doXfer_truthful (msg : List (BitVec 8)) (idle : s.txcomp = 0) (careful : Careful s (msg,attempts)) :
    Truthful msg attempts (doXfer s msg attempts).1 (doXfer s msg attempts).2.1 ∧
      (doXfer s msg attempts).2.2.txcomp = 0 := by
  unfold doXfer
  split
  · exact ⟨⟨Nat.zero_le _,iff_of_false (by simp) (by simp [Ends])⟩,idle⟩
  obtain ⟨ret,made,t,eq,idle,most,ends⟩ :=
    retries_regular (i := 0) (n := maxRetry) careful.1 idle (by simp [Ends])
  rw [eq]
  refine ⟨⟨by simpa using most,?_⟩,idle⟩
  dsimp only
  cases own : polling msg with
  | true =>
    have never : ¬ Ends attempts made .unanswered := fun ⟨j,_,eq⟩ => careful.2 own j eq
    rcases ends with ⟨rfl,_⟩ | ⟨rfl,_⟩
    · exact iff_of_false (by decide) never
    · exact iff_of_false (by decide) never
  | false =>
    rcases ends with ⟨rfl,acked⟩ | ⟨rfl,none⟩
    · exact iff_of_true (by decide) acked
    · exact iff_of_false (by decide) none

/-- With interrupts in time and polls answered, each value returned is its own. -/
theorem results_own {trace : List ((List (BitVec 8) × (Nat → Attempt)) × (Int × Nat))}
    (run : Runs.Run step Careful {} trace s) : ∀ e ∈ trace, Truthful e.1.1 e.1.2 e.2.1 e.2.2 := by
  have kept := run.trace_invariant (I := fun trace s => s.txcomp = 0 ∧ ∀ e ∈ trace, Truthful e.1.1 e.1.2 e.2.1 e.2.2)
    ⟨rfl, nofun⟩ fun {trace t a r u} h careful done => by
      obtain ⟨truthful, idle⟩ := doXfer_truthful a.1 h.1 careful
      cases done
      refine ⟨idle, fun e mem => ?_⟩
      rcases List.mem_append.mp mem with mem | mem
      · exact h.2 e mem
      · rw [List.mem_singleton.mp mem]
        exact truthful
  exact kept.2

def second (i : Nat) : Attempt :=
  if i = 1 then ⟨some .acknowledged, [Outcome.acknowledged.sts], []⟩ else ⟨some .lost, [Outcome.lost.sts], []⟩

theorem results_own_second : ∃ s, Runs.Run step Careful {} [(([0x04, 0x36], second), (0, 2))] s ∧
    ∃ i < 2, (second i).outcome = some .acknowledged := by
  obtain ⟨s, run⟩ : ∃ s, Runs.Run step Careful {} [(([0x04, 0x36], second), (0, 2))] s := by
    refine ⟨_, .next .start ⟨fun i => ?_, nofun⟩ rfl⟩
    by_cases one : i = 1
    · exact ⟨.acknowledged, if_pos one⟩
    · exact ⟨.lost, if_neg one⟩
  exact ⟨s, run, (results_own run _ List.mem_cons_self).2.mp rfl⟩

/-- An unanswered poll does not return zero; a late interrupt makes a lost message return zero. -/
theorem results_mixed : (∃ s, Runs.Run step (fun _ _ => True) {}
      [(([0x44], fun _ => ⟨some .unanswered, [Outcome.unanswered.sts], []⟩), (eagain, 3))] s) ∧
    ∃ s, Runs.Run step (fun _ _ => True) {}
      [(([0x04, 0x36], fun i => ⟨some .acknowledged, [], if i = 2 then [Outcome.acknowledged.sts] else []⟩), (eagain, 3)),
        (([0x05, 0x36], fun _ => ⟨some .lost, [], [Outcome.lost.sts]⟩), (0, 1))] s :=
  ⟨⟨_, .next .start trivial rfl⟩, ⟨_, .next (.next .start trivial rfl) trivial rfl⟩⟩

end Apc8750.Hdmi.Cec
