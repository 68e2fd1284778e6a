import Apc8750.SpiFlash.Erase
import Mathlib.Algebra.BigOperators.Group.List.Basic
import Mathlib.Data.List.Infix
import Mathlib.Data.List.TakeWhile

namespace Apc8750.SpiFlash

section Bursts

def sizes (bound : Nat) (burst : Nat → Nat) : Nat → Nat → List Nat
  | 0, _ => []
  | fuel + 1, len => if len ≥ bound then burst len :: sizes bound burst fuel (len - burst len) else []

def bursts (len : Nat) : List Nat :=
  let first := sizes 8 burst8 len len
  let second := sizes 4 burst5 len (len - first.sum)
  first ++ (second ++ sizes 1 burst2 len (len - first.sum - second.sum))

def Takes (bound : Nat) (burst : Nat → Nat) : Prop := ∀ len ≥ bound, 0 < burst len ∧ burst len ≤ len

theorem takes5 : Takes 4 burst5 := by
  intro len h
  unfold burst5
  split <;> omega

theorem takes2 : Takes 1 burst2 := by
  intro len h
  unfold burst2
  split <;> omega

theorem sizes_empty (h : Takes bound burst) (fuel : Nat) : sizes bound burst fuel 0 = [] := by
  cases fuel with
  | zero => rfl
  | succ fuel =>
    have none : ¬ 0 ≥ bound := fun le => Nat.lt_irrefl 0 ((h 0 le).1.trans_le (h 0 le).2)
    rw [sizes,if_neg none]

theorem sizes_fuel (h : Takes bound burst) (hf : len ≤ fuel) (hf' : len ≤ fuel') :
    sizes bound burst fuel len = sizes bound burst fuel' len := by
  induction fuel generalizing len fuel' with
  | zero =>
    obtain rfl : len = 0 := by omega
    rw [sizes_empty h,sizes_empty h]
  | succ fuel ih =>
    cases fuel' with
    | zero =>
      obtain rfl : len = 0 := by omega
      rw [sizes_empty h,sizes_empty h]
    | succ fuel' =>
      rw [sizes,sizes]
      split
      · rename_i enough
        have some := (h len enough).1
        have rest := @ih (len - burst len) fuel' (by omega) (by omega)
        rw [rest]
      · rfl

theorem sizes8 (hf : len ≤ fuel) : sizes 8 burst8 fuel len = List.replicate (len / 8) 8 := by
  induction fuel generalizing len with
  | zero =>
    obtain rfl : len = 0 := by omega
    rfl
  | succ fuel ih =>
    unfold sizes
    split
    · rename_i enough
      have whole : len / 8 = (len - 8) / 8 + 1 := by omega
      rw [whole,List.replicate_succ,burst8,ih (by omega)]
    rename_i few
    have none : len / 8 = 0 := by omega
    rw [none]
    rfl

def tail (r : Nat) : List Nat :=
  sizes 4 burst5 r r ++ sizes 1 burst2 r (r - (sizes 4 burst5 r r).sum)

theorem bursts_eq (len : Nat) : bursts len = List.replicate (len / 8) 8 ++ tail (len % 8) := by
  have rest : len - (List.replicate (len / 8) 8).sum = len % 8 := by
    rw [List.sum_replicate_nat]
    omega
  have le : len % 8 ≤ len := Nat.mod_le len 8
  have second : sizes 4 burst5 len (len % 8) = sizes 4 burst5 (len % 8) (len % 8) :=
    sizes_fuel takes5 le (Nat.le_refl _)
  simp only [bursts,tail,sizes8 (Nat.le_refl len),rest,second]
  rw [sizes_fuel takes2 (Nat.le_trans (Nat.sub_le _ _) le) (Nat.sub_le _ _)]

theorem prefix_sum (h : p <+: List.replicate q 8 ++ t) :
    (∃ j, p.sum = 8 * j) ∨ ∃ p', p' <+: t ∧ p.sum = 8 * q + p'.sum := by
  induction q generalizing p with
  | zero => exact .inr ⟨p,h,(Nat.zero_add _).symm⟩
  | succ q ih =>
    rw [List.replicate_succ,List.cons_append] at h
    cases p with
    | nil => exact .inl ⟨0,rfl⟩
    | cons n p =>
      obtain ⟨rfl,rest⟩ := List.cons_prefix_cons.mp h
      rw [List.sum_cons]
      rcases ih rest with ⟨j,sum⟩ | ⟨p',part,sum⟩
      · exact .inl ⟨j + 1,by omega⟩
      · exact .inr ⟨p',part,by omega⟩

theorem tail_sums : ∀ r < 8, ∀ p ∈ (tail r).inits,
    p.sum < 8 ∧ (p.sum = 1 → r = 1) ∧ (p.sum = 2 → r = 2 ∨ r = 3) := by decide

theorem prefix_lengths (h : p <+: bursts len) :
    (p.sum = 17 → len = 17) ∧ (p.sum = 34 → len = 34 ∨ len = 35) := by
  rw [bursts_eq] at h
  rcases prefix_sum h with ⟨j,sum⟩ | ⟨p',part,sum⟩
  · omega
  · have sums := tail_sums (len % 8) (Nat.mod_lt len (by decide)) p' ((List.mem_inits _ _).mpr part)
    omega

end Bursts

section Stream

def stream (ofs : Nat) (buf : Nat → UInt8) (answer : Nat → Int) :
    List Nat → Writing → Except (Int × Writing) Writing
  | [], w => .ok w
  | n :: rest, w =>
    let next : Writing := ⟨w.i + n, w.len - n, w.bursts + 1, w.stores ++ bytesAt ofs buf w.i n⟩
    if answer w.bursts ≠ errOk then .error (answer w.bursts, next) else stream ofs buf answer rest next

structure Burst where
  number : Nat
  start : Nat
  size : Nat

def spans : List Nat → Nat → Nat → List Burst
  | [], _, _ => []
  | n :: rest, k, i => ⟨k, i, n⟩ :: spans rest (k + 1) (i + n)

def failure (answer : Nat → Int) (l : List Burst) : Option Burst :=
  l.find? fun s => answer s.number ≠ errOk

def sent (answer : Nat → Int) : List Burst → List Burst
  | [] => []
  | s :: rest => s :: if answer s.number ≠ errOk then [] else sent answer rest

theorem spans_sizes (ns : List Nat) (k i : Nat) : (spans ns k i).map Burst.size = ns := by
  induction ns generalizing k i with
  | nil => rfl
  | cons n ns ih => simp only [spans,List.map_cons,ih]

theorem sent_part (answer : Nat → Int) (l : List Burst) : sent answer l <+: l := by
  induction l with
  | nil => exact List.prefix_rfl
  | cons s l ih =>
    unfold sent
    refine List.cons_prefix_cons.mpr ⟨rfl,?_⟩
    split
    · exact List.nil_prefix
    · exact ih

end Stream

theorem flashError_codes (code : BitVec 32) :
    flashError code = errOk ∨ flashError code = errTimout ∨ flashError code = errProgError := by
  unfold flashError
  repeat' split
  all_goals simp

theorem poll_codes (r : Readings) : poll r = errOk ∨ poll r = errTimout ∨ poll r = errProgError := by
  have loop (timeout k : Nat) : pollLoop r timeout k = errOk ∨ pollLoop r timeout k = errTimout ∨
      pollLoop r timeout k = errProgError := by
    induction timeout generalizing k with
    | zero => exact .inr (.inl rfl)
    | succ timeout ih =>
      unfold pollLoop
      split
      · exact .inl rfl
      · split
        · exact flashError_codes _
        · exact ih _
  exact loop _ 0

def transfer (len : Nat) : List Burst := spans (bursts len) 0 0

section Truth

def settled (b : Board) (readings : Cs → Nat → Readings) (ofs : Nat) (s : Burst) : Bool :=
  (List.range s.size).all fun j =>
    match b.chipAt (ofs + s.start + j + b.phyAddr) with
    | none => false
    | some c => poll (readings c s.number) == errOk

/-- The bursts that are completed: those that are sent, up to the first one that is not settled. -/
def completed (b : Board) (readings : Cs → Nat → Readings) (ofs len : Nat) : List Burst :=
  (sent (fun k => poll (readings .cs0 k)) (transfer len)).takeWhile (settled b readings ofs)

def byteCount (l : List Burst) : Nat := (l.map Burst.size).sum

/-- Zero and the length only for a complete transfer, otherwise an error or a true count. -/
structure Truthful (b : Board) (readings : Cs → Nat → Readings) (ofs : Nat) (buf : Nat → UInt8)
    (len : Nat) : Prop where
  whole : (sfWrite b readings ofs buf len).1 = 0 → (sfWrite b readings ofs buf len).2.1 = some (len : Int) →
    (sfWrite b readings ofs buf len).2.2 = bytesAt ofs buf 0 len ∧
      ∀ s ∈ transfer len, settled b readings ofs s = true
  part : ¬ ((sfWrite b readings ofs buf len).1 = 0 ∧
      (sfWrite b readings ofs buf len).2.1 = some (len : Int)) →
    (sfWrite b readings ofs buf len).1 < 0 ∨
      (sfWrite b readings ofs buf len).2.1 = some (byteCount (completed b readings ofs len) : Int)

/-- After every burst the first chip and the chip stored to answer without error. -/
def Quiet (b : Board) (readings : Cs → Nat → Readings) (ofs len : Nat) : Prop :=
  ∀ s ∈ transfer len, poll (readings .cs0 s.number) = errOk ∧ settled b readings ofs s = true

/-- The first error of the first chip has by chance the number of completed bytes as its code. -/
def Chance (b : Board) (readings : Cs → Nat → Readings) (ofs len : Nat) : Prop :=
  ∃ s ∈ failure (fun k => poll (readings .cs0 k)) (transfer len),
    poll (readings .cs0 s.number) = byteCount (completed b readings ofs len)

theorem completed_part (b : Board) (readings : Cs → Nat → Readings) (ofs len : Nat) :
    completed b readings ofs len <+: sent (fun k => poll (readings .cs0 k)) (transfer len) :=
  List.takeWhile_prefix _

theorem Chance.length (h : Chance b readings ofs len) : len = 17 ∨ len = 34 ∨ len = 35 := by
  obtain ⟨s,hs,code⟩ := h
  have part := (completed_part b readings ofs len).trans
    (sent_part (fun k => poll (readings .cs0 k)) (transfer len))
  have sizes := part.map Burst.size
  rw [transfer,spans_sizes] at sizes
  have lengths := prefix_lengths sizes
  have bad := List.find?_some hs
  have bad : poll (readings .cs0 s.number) ≠ errOk := by simpa using bad
  have sum : ((completed b readings ofs len).map Burst.size).sum =
      byteCount (completed b readings ofs len) := rfl
  rcases poll_codes (readings .cs0 s.number) with ok | timeout | error
  · exact absurd ok bad
  · rw [timeout,errTimout] at code
    omega
  · rw [error,errProgError] at code
    omega

end Truth

end Apc8750.SpiFlash
