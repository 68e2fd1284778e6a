import Mathlib.Data.List.Basic
import Mathlib.Algebra.Order.Group.Nat

namespace Cells

variable {m : Nat → β} {i : Nat} {l : List β}

def At (m : Nat → β) : Nat → List β → Prop
  | _, [] => True
  | i, b :: l => m i = b ∧ At m (i + 1) l

def store (m : Nat → β) : Nat → List β → Nat → β
  | _, [] => m
  | i, b :: l => store (Function.update m i b) (i + 1) l

@[simp] theorem at_nil : At m i [] := trivial

@[simp] theorem at_cons : At m i (b :: l) ↔ m i = b ∧ At m (i + 1) l := Iff.rfl

theorem at_append : At m i (l ++ l') ↔ At m i l ∧ At m (i + l.length) l' := by
  induction l generalizing i with
  | nil => simp
  | cons b l ih =>
    rw [List.cons_append,at_cons,at_cons,ih,and_assoc,List.length_cons,
      Nat.add_assoc,Nat.add_comm 1]

theorem At.congr (h : At m i l) (same : ∀ k, i ≤ k → k < i + l.length → m' k = m k) :
    At m' i l := by
  induction l generalizing i with
  | nil => trivial
  | cons b l ih =>
    rw [List.length_cons] at same
    refine ⟨(same i (Nat.le_refl i) (by omega)).trans h.1,ih h.2 fun k low high => ?_⟩
    exact same k (by omega) (by omega)

theorem At.getElem (h : At m i l) (hk : k < l.length) : m (i + k) = l[k] := by
  induction l generalizing i k with
  | nil => exact absurd hk (by simp)
  | cons b l ih =>
    cases k with
    | zero => exact h.1
    | succ k =>
      rw [List.length_cons] at hk
      have rest := ih h.2 (Nat.lt_of_succ_lt_succ hk)
      rwa [Nat.add_assoc,Nat.add_comm 1] at rest

theorem at_of_getD {d : β} (h : ∀ k < l.length, m (i + k) = l.getD k d) : At m i l := by
  induction l generalizing i with
  | nil => trivial
  | cons b l ih =>
    refine ⟨h 0 (Nat.succ_pos _),ih fun k hk => ?_⟩
    have := h (k + 1) (Nat.succ_lt_succ hk)
    rwa [List.getD_cons_succ,← Nat.add_assoc,Nat.add_right_comm] at this

theorem At.initial (h : At m i l) (h' : At m i l') (le : l.length ≤ l'.length) :
    ∃ more, l' = l ++ more := by
  induction l generalizing i l' with
  | nil => exact ⟨l',rfl⟩
  | cons b l ih =>
    cases l' with
    | nil => exact absurd le (by simp)
    | cons b' l' =>
      obtain ⟨more,rfl⟩ := ih h.2 h'.2 (by simpa using le)
      exact ⟨more,by rw [← h.1,← h'.1,List.cons_append]⟩

theorem At.same (h : At m i l) (h' : At m' i l) (k : Nat) (low : i ≤ k) (high : k < i + l.length) :
    m' k = m k := by
  induction l generalizing i with
  | nil =>
    rw [List.length_nil] at high
    omega
  | cons b l ih =>
    rw [List.length_cons] at high
    rcases Nat.eq_or_lt_of_le low with rfl | lt
    · rw [h.1,h'.1]
    · exact ih h.2 h'.2 lt (by omega)

theorem store_of_lt (l : List β) (h : j < i) : store m i l j = m j := by
  induction l generalizing m i with
  | nil => rfl
  | cons b l ih =>
    unfold store
    rw [ih (by omega),Function.update_of_ne (by omega)]

theorem store_of_ge (h : i + l.length ≤ j) : store m i l j = m j := by
  induction l generalizing m i with
  | nil => rfl
  | cons b l ih =>
    rw [List.length_cons] at h
    unfold store
    rw [ih (by omega),Function.update_of_ne (by omega)]

theorem at_store : At (store m i l) i l := by
  induction l generalizing m i with
  | nil => trivial
  | cons b l ih =>
    refine ⟨?_,ih⟩
    unfold store
    rw [store_of_lt l (Nat.lt_succ_self i),Function.update_self]

end Cells
