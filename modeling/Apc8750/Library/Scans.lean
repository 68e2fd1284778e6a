import Mathlib.Data.Set.Insert

namespace Scans

variable [LinearOrder κ] {key : ι → κ} {before : ι → ι → Prop} {bound : κ}

/-- The element kept: the first of those with the least key, if that is below the bound. -/
def Kept (key : ι → κ) (before : ι → ι → Prop) (bound : κ) (seen : Set ι) : Option ι → Prop
  | none => ∀ j ∈ seen, bound ≤ key j
  | some i => i ∈ seen ∧ key i < bound ∧ (∀ j ∈ seen, key i ≤ key j) ∧ ∀ j ∈ seen, before j i → key i < key j

theorem kept_empty : Kept key before bound ∅ none := fun _ mem => absurd mem (Set.notMem_empty _)

def least (key : ι → κ) (bound : κ) : Option ι → κ
  | none => bound
  | some i => key i

omit [LinearOrder κ] in
@[simp] theorem least_none : least key bound none = bound := rfl

omit [LinearOrder κ] in
@[simp] theorem least_some : least key bound (some i) = key i := rfl

section
variable {o : Option ι} (h : Kept key before bound seen o)
include h

theorem Kept.least_le (mem : j ∈ seen) :
    least key bound o ≤ key j := by
  cases o with
  | none => exact h j mem
  | some i => exact h.2.2.1 j mem

theorem Kept.least_le_bound : least key bound o ≤ bound := by
  cases o with
  | none => exact le_rfl
  | some i => exact h.2.1.le

theorem Kept.insert (behind : ∀ j ∈ seen, ¬ before i j) (irrefl : ¬ before i i) :
    Kept key before bound (insert i seen) (if key i < least key bound o then some i else o) := by
  split
  · rename_i less
    refine ⟨Set.mem_insert i seen,less.trans_le h.least_le_bound,fun j mem => ?_,fun j mem earlier => ?_⟩
    · rcases mem with rfl | mem
      · exact le_rfl
      · exact less.le.trans (h.least_le mem)
    · rcases mem with rfl | mem
      · exact absurd earlier irrefl
      · exact less.trans_le (h.least_le mem)
  rename_i more
  push Not at more
  cases o with
  | none =>
    intro j mem
    rcases mem with rfl | mem
    · exact more
    · exact h j mem
  | some k =>
    obtain ⟨mem,below,le,first⟩ := h
    refine ⟨Set.mem_insert_of_mem i mem,below,fun j mem' => ?_,fun j mem' earlier => ?_⟩
    · rcases mem' with rfl | mem'
      · exact more
      · exact le j mem'
    · rcases mem' with rfl | mem'
      · exact absurd earlier (behind k mem)
      · exact first j mem' earlier

end

theorem Kept.unique {o o' : Option ι} (total : ∀ i j, i = j ∨ before i j ∨ before j i)
    (h : Kept key before bound seen o) (h' : Kept key before bound seen o') : o = o' := by
  cases o with
  | none =>
    cases o' with
    | none => rfl
    | some j => exact absurd (h j h'.1) (not_le.mpr h'.2.1)
  | some i =>
    cases o' with
    | none => exact absurd (h' i h.1) (not_le.mpr h.2.1)
    | some j =>
      rcases total i j with rfl | earlier | earlier
      · rfl
      · exact absurd (h.2.2.1 j h'.1) (not_le.mpr (h'.2.2.2 i h.1 earlier))
      · exact absurd (h'.2.2.1 i h.1) (not_le.mpr (h.2.2.2 j h'.1 earlier))

end Scans
