import Mathlib.Data.Nat.Basic
import Mathlib.Data.List.Nodup
import Mathlib.Data.List.Perm.Subperm

namespace Cyclic

/-- The index after `i` in a ring of `n`. -/
def next (n i : Nat) : Nat := if n ≤ i + 1 then 0 else i + 1

/-- The index `k` places after `i`, at most once around. -/
def ahead (n i k : Nat) : Nat := if i + k < n then i + k else i + k - n

theorem next_lt (hi : i < n) : next n i < n := by
  unfold next
  split <;> omega

theorem ahead_lt (hi : i < n) (hk : k ≤ n) : ahead n i k < n := by
  unfold ahead
  split <;> omega

theorem ahead_one (hi : i < n) : ahead n i 1 = next n i := by
  unfold ahead next
  split <;> split <;> omega

theorem ahead_next (hi : i < n) (hk : k < n) : ahead n (next n i) k = ahead n i (k + 1) := by
  unfold ahead next
  split <;> split <;> split <;> omega

theorem ahead_ne (pos : 0 < k) (hk : k < n) : ahead n i k ≠ i := by
  unfold ahead
  split <;> omega

theorem ahead_ahead (hi : i < n) (hkj : k + j ≤ n) : ahead n (ahead n i k) j = ahead n i (k + j) := by
  unfold ahead
  split <;> split <;> split <;> omega

theorem ahead_inj (hj : j < n) (hk : k < n) (h : ahead n i j = ahead n i k) : j = k := by
  unfold ahead at h
  split at h <;> split at h <;> omega

def arc (n i k : Nat) : List Nat := (List.range k).map (ahead n i)

@[simp]
theorem length_arc : (arc n i k).length = k := by simp [arc]

theorem arc_nodup (hk : k ≤ n) : (arc n i k).Nodup := by
  refine (List.nodup_range (n := k)).map_on (fun a ha b hb h => ?_)
  have ha := List.mem_range.mp ha
  have hb := List.mem_range.mp hb
  exact ahead_inj (by omega) (by omega) h

theorem arc_append (hi : i < n) (hkj : k + j ≤ n) :
    arc n i k ++ arc n (ahead n i k) j = arc n i (k + j) := by
  simp only [arc,List.range_add,List.map_append,List.map_map,List.append_cancel_left_eq]
  refine List.map_congr_left (fun a ha => ?_)
  have ha := List.mem_range.mp ha
  exact ahead_ahead hi (by omega)

theorem arc_one (hi : i < n) : arc n i 1 = [i] := by
  simp [arc,ahead,hi]

theorem exists_ahead (hi : i < n) (hj : j < n) (ne : j ≠ i) :
    ∃ k, k + 1 < n ∧ ahead n i (k + 1) = j := by
  unfold ahead
  rcases Nat.lt_or_gt_of_ne ne with lt | gt
  · exact ⟨n - i + j - 1,by omega,by rw [if_neg] <;> omega⟩
  · exact ⟨j - i - 1,by omega,by rw [if_pos] <;> omega⟩

/-- Go round from the index after `i` to one that is not skipped. -/
def search (skip : Nat → Bool) (n : Nat) : Nat → Nat → Option Nat
  | 0, _ => none
  | fuel + 1, i =>
    if skip (next n i) then search skip n fuel (next n i) else some (next n i)

theorem search_finds (hi : i < n) (hk : k < n) (enough : k < fuel)
    (free : skip (ahead n i (k + 1)) = false) :
    ∃ j ≤ k, search skip n fuel i = some (ahead n i (j + 1)) ∧
      skip (ahead n i (j + 1)) = false := by
  induction k generalizing i fuel with
  | zero =>
    obtain ⟨fuel,rfl⟩ : ∃ f, fuel = f + 1 := ⟨fuel - 1,by omega⟩
    refine ⟨0,Nat.le_refl 0,?_,free⟩
    rw [Nat.zero_add,ahead_one hi] at free ⊢
    simp [search,free]
  | succ k ih =>
    obtain ⟨fuel,rfl⟩ : ∃ f, fuel = f + 1 := ⟨fuel - 1,by omega⟩
    by_cases here : skip (next n i) = true
    · rw [← ahead_next hi hk] at free
      obtain ⟨j,le,found,free⟩ := ih (next_lt hi) (by omega) (show k < fuel by omega) free
      rw [ahead_next hi (by omega)] at found free
      exact ⟨j + 1,by omega,by rw [search,if_pos here,found],free⟩
    refine ⟨0,by omega,?_,?_⟩
    · rw [search,if_neg here,← ahead_one hi]
    · rw [Nat.zero_add,ahead_one hi]
      simpa using here

theorem search_other (hi : i < n) (hj : j < n) (ne : j ≠ i) (free : skip j = false)
    (enough : n ≤ fuel) :
    ∃ r < n, search skip n fuel i = some r ∧ skip r = false ∧ r ≠ i := by
  obtain ⟨k,hk,rfl⟩ := exists_ahead hi hj ne
  obtain ⟨r,le,found,free⟩ := search_finds hi (by omega) (Nat.lt_of_lt_of_le (by omega) enough) free
  exact ⟨_,ahead_lt hi (by omega),found,free,ahead_ne (by omega) (by omega)⟩

theorem exists_free (i : Nat) (few : (List.range n).countP skip + 2 ≤ n) :
    ∃ j < n, j ≠ i ∧ skip j = false := by
  by_contra none
  have all : ∀ j ∈ (List.range n).filter fun j => ! skip j, j ∈ [i] := by
    intro j mem
    rw [List.mem_filter,List.mem_range] at mem
    rw [List.mem_singleton]
    by_contra ne
    exact none ⟨j,mem.1,ne,by simpa using mem.2⟩
  have short := (List.Nodup.filter _ List.nodup_range).length_le_of_subset all
  have split := List.length_eq_countP_add_countP (p := skip) (l := List.range n)
  have free : (List.range n).countP (fun j => ! skip j) ≤ 1 := by
    simpa [List.countP_eq_length_filter] using short
  simp only [List.length_range,Bool.not_eq_true,Bool.decide_eq_false] at split
  omega

end Cyclic
