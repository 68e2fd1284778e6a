import Mathlib.Data.Nat.Basic
import Mathlib.Logic.Function.Basic

namespace Spans

def blit (dst : Nat → β) (i : Nat) (src : Nat → β) (j n : Nat) : Nat → β :=
  fun k => if i ≤ k ∧ k < i + n then src (j + (k - i)) else dst k

@[simp]
theorem blit_zero : blit dst i src j 0 = dst := by
  funext k
  exact if_neg (by omega)

theorem blit_of_lt (h : k < i) : blit dst i src j n k = dst k := if_neg (by omega)

theorem blit_of_ge (h : i + n ≤ k) : blit dst i src j n k = dst k := if_neg (by omega)

theorem blit_at (h : k < n) : blit dst i src j n (i + k) = src (j + k) := by
  unfold blit
  rw [if_pos (by omega),Nat.add_sub_cancel_left]

theorem blit_one : blit dst i src j 1 = Function.update dst i (src j) := by
  funext k
  by_cases same : k = i
  · subst same
    rw [Function.update_self]
    exact blit_at Nat.one_pos
  · rw [Function.update_of_ne same]
    exact if_neg (by omega)

theorem blit_blit : blit (blit dst i src j n) (i + n) src (j + n) m = blit dst i src j (n + m) := by
  funext k
  rcases Nat.lt_or_ge k i with low | low
  · rw [blit_of_lt (by omega),blit_of_lt low,blit_of_lt low]
  obtain ⟨k,rfl⟩ := Nat.exists_eq_add_of_le low
  rcases Nat.lt_or_ge k n with first | first
  · rw [blit_of_lt (by omega),blit_at first,blit_at (by omega)]
  obtain ⟨k,rfl⟩ := Nat.exists_eq_add_of_le first
  rcases Nat.lt_or_ge k m with second | second
  · rw [← Nat.add_assoc,blit_at second,Nat.add_assoc i,blit_at (by omega),Nat.add_assoc]
  · rw [blit_of_ge (by omega),blit_of_ge (by omega),blit_of_ge (by omega)]

theorem blit_through (h : a + k + n ≤ a + m) :
    blit dst i (blit mid a src j m) (a + k) n = blit dst i src (j + k) n := by
  funext x
  rcases Nat.lt_or_ge x i with low | low
  · rw [blit_of_lt low,blit_of_lt low]
  obtain ⟨x,rfl⟩ := Nat.exists_eq_add_of_le low
  rcases Nat.lt_or_ge x n with inside | outside
  · rw [blit_at inside,blit_at inside,Nat.add_assoc,blit_at (by omega),Nat.add_assoc]
  · rw [blit_of_ge (by omega),blit_of_ge (by omega)]

end Spans
