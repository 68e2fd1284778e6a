import Mathlib.Data.List.MinMax

namespace First

variable [DecidableEq α] [LinearOrder β] {f : α → β} {l l' : List α} {a b m : α}

theorem idxOf_append_lt (ha : a ∈ l) (hb : b ∉ l) : (l ++ l').idxOf a < (l ++ l').idxOf b := by
  rw [List.idxOf_append_of_mem ha,List.idxOf_append_of_notMem hb]
  apply Nat.lt_add_right
  exact List.idxOf_lt_length_of_mem ha

theorem mem_of_idxOf_le (hb : b ∈ l) (h : (l ++ l').idxOf a ≤ (l ++ l').idxOf b) : a ∈ l := by
  by_contra ha
  exact absurd h (Nat.not_le.mpr (idxOf_append_lt hb ha))

theorem argmin_append (hm : m ∈ l.argmin f) (h : ∀ a ∈ l', f m ≤ f a) :
    m ∈ (l ++ l').argmin f := by
  obtain ⟨mem,least,first⟩ := List.mem_argmin_iff.mp hm
  apply List.mem_argmin_iff.mpr
  refine ⟨List.mem_append_left _ mem,?_,?_⟩
  · intro a ha
    rcases List.mem_append.mp ha with ha | ha
    · exact least a ha
    · exact h a ha
  intro a _ hle
  by_cases ha : a ∈ l
  · rw [List.idxOf_append_of_mem mem,List.idxOf_append_of_mem ha]
    exact first a ha hle
  · exact (idxOf_append_lt mem ha).le

theorem argmin_concat_of_lt (h : ∀ b ∈ l, f a < f b) : a ∈ (l ++ [a]).argmin f := by
  apply List.mem_argmin_iff.mpr
  refine ⟨by simp,?_,?_⟩
  · intro b hb
    rcases List.mem_append.mp hb with hb | hb
    · exact (h b hb).le
    · rw [List.mem_singleton.mp hb]
  intro b hb hle
  rcases List.mem_append.mp hb with hb | hb
  · exact absurd hle (h b hb).not_ge
  · rw [List.mem_singleton.mp hb]

end First
