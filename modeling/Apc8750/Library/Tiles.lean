import Mathlib.Data.List.Basic

namespace Tiles

/-- The tiles from `i` to the end `n`, each with its width, the last one marked. -/
inductive Tiled (width : Nat → Nat) (last : Nat → Bool) (n : Nat) : Nat → List Nat → Prop where
  | single (marked : last i = true) (ends : i + width i = n) : Tiled width last n i [i]
  | cons (unmarked : last i = false) (rest : Tiled width last n (i + width i) tiles) :
    Tiled width last n i (i :: tiles)

section
variable (h : Tiled width last n i tiles)
include h

theorem Tiled.eq_cons : ∃ rest, tiles = i :: rest := by
  cases h with
  | single => exact ⟨[],rfl⟩
  | cons => exact ⟨_,rfl⟩

theorem Tiled.congr (hw : ∀ j ∈ tiles, width' j = width j)
    (hl : ∀ j ∈ tiles, last' j = last j) : Tiled width' last' n i tiles := by
  induction h with
  | single marked ends =>
    exact .single ((hl _ List.mem_cons_self).trans marked) (by rw [hw _ List.mem_cons_self]; exact ends)
  | cons unmarked _ ih =>
    refine .cons ((hl _ List.mem_cons_self).trans unmarked) ?_
    rw [hw _ List.mem_cons_self]
    exact ih (fun j hj => hw j (List.mem_cons_of_mem _ hj)) (fun j hj => hl j (List.mem_cons_of_mem _ hj))

theorem Tiled.bounds (hj : j ∈ tiles) : i ≤ j ∧ j + width j ≤ n := by
  induction h generalizing j with
  | single _ ends =>
    rw [List.mem_singleton.mp hj]
    exact ⟨Nat.le_refl _,Nat.le_of_eq ends⟩
  | cons _ rest ih =>
    obtain ⟨tail,rfl⟩ := rest.eq_cons
    have hfirst := ih List.mem_cons_self
    rcases List.mem_cons.mp hj with rfl | hj
    · exact ⟨Nat.le_refl _,by omega⟩
    · have := ih hj
      exact ⟨by omega,this.2⟩

theorem Tiled.covers (hi : i ≤ k) (hk : k < n) :
    ∃ j ∈ tiles, j ≤ k ∧ k < j + width j := by
  induction h with
  | single _ ends => exact ⟨_,List.mem_cons_self,hi,by omega⟩
  | @cons i _ _ _ ih =>
    by_cases hfirst : k < i + width i
    · exact ⟨i,List.mem_cons_self,hi,hfirst⟩
    · obtain ⟨j,hj,hplace⟩ := ih (by omega)
      exact ⟨j,List.mem_cons_of_mem _ hj,hplace⟩

theorem Tiled.pairwise : tiles.Pairwise fun j k => j + width j ≤ k := by
  induction h with
  | single => exact List.pairwise_singleton _ _
  | cons _ rest ih => exact .cons (fun k hk => (rest.bounds hk).1) ih

theorem Tiled.disjoint (hj : j ∈ tiles) (hk : k ∈ tiles) (ne : j ≠ k) :
    j + width j ≤ k ∨ k + width k ≤ j := by
  induction h with
  | single =>
    rw [List.mem_singleton.mp hj,List.mem_singleton.mp hk] at ne
    exact absurd rfl ne
  | cons _ rest ih =>
    rcases List.mem_cons.mp hj with rfl | hj'
    · rcases List.mem_cons.mp hk with rfl | hk'
      · exact absurd rfl ne
      · exact .inl (rest.bounds hk').1
    · rcases List.mem_cons.mp hk with rfl | hk'
      · exact .inr (rest.bounds hj').1
      · exact ih hj' hk'

theorem Tiled.chain : tiles.IsChain fun j k => j + width j = k := by
  induction h with
  | single => exact .singleton _
  | cons _ rest ih =>
    obtain ⟨tail,rfl⟩ := rest.eq_cons
    exact .cons_cons rfl ih

theorem Tiled.length_le (pos : ∀ j ∈ tiles, 0 < width j) :
    i + tiles.length ≤ n := by
  induction h with
  | single _ ends =>
    have := pos _ List.mem_cons_self
    simp only [List.length_cons,List.length_nil]
    omega
  | cons _ rest ih =>
    have := pos _ List.mem_cons_self
    have := ih fun j hj => pos j (List.mem_cons_of_mem _ hj)
    simp only [List.length_cons]
    omega

theorem Tiled.marked_iff (hnodup : tiles.Nodup) (hj : j ∈ tiles) :
    last j = true ↔ tiles.getLast? = some j := by
  induction h with
  | single marked =>
    rw [List.mem_singleton.mp hj]
    simp [marked]
  | cons unmarked rest ih =>
    obtain ⟨tail,rfl⟩ := rest.eq_cons
    rw [List.getLast?_cons_cons]
    rcases List.mem_cons.mp hj with rfl | hj
    · refine ⟨fun h => absurd (unmarked.symm.trans h) (by decide),fun h => ?_⟩
      exact absurd (List.mem_of_getLast? h) (List.nodup_cons.mp hnodup).1
    · exact ih (List.nodup_cons.mp hnodup).2 hj

theorem Tiled.nodup (pos : ∀ j ∈ tiles, 0 < width j) : tiles.Nodup := by
  refine (List.Pairwise.imp_of_mem ?_ h.pairwise)
  intro a b ha _ hab
  have := pos a ha
  omega

theorem Tiled.ends (hj : tiles.getLast? = some j) : j + width j = n := by
  induction h with
  | single _ ends =>
    cases hj
    exact ends
  | cons _ rest ih =>
    obtain ⟨tail,rfl⟩ := rest.eq_cons
    exact ih (by rwa [List.getLast?_cons_cons] at hj)

end

end Tiles
