import Mathlib.Data.Nat.Basic

namespace Whiles

variable {σ α : Type*}

/-- So many rounds at most; `none` when the fuel ends before the loop does. -/
def run (round : σ → Option (σ ⊕ α)) : Nat → σ → Option α
  | 0, _ => none
  | fuel + 1, s => match round s with
    | none => none
    | some (.inl t) => run round fuel t
    | some (.inr a) => some a

def Ends (round : σ → Option (σ ⊕ α)) (s : σ) (a : α) : Prop := ∃ fuel, run round fuel s = some a

variable {round other : σ → Option (σ ⊕ α)} {s t : σ} {a b : α} {I : σ → Prop} {Q : α → Prop}

theorem run_mono (le : m ≤ n) (h : run round m s = some a) : run round n s = some a := by
  induction m generalizing n s with
  | zero => cases h
  | succ m ih =>
    obtain ⟨n,rfl⟩ : ∃ k, n = k + 1 := ⟨n - 1,by omega⟩
    unfold run at h ⊢
    split at h
    · cases h
    · exact ih (Nat.le_of_succ_le_succ le) h
    · exact h

theorem run_congr (more : ∀ s x, round s = some x → other s = some x) (h : run round n s = some a) :
    run other n s = some a := by
  induction n generalizing s with
  | zero => cases h
  | succ n ih =>
    unfold run at h ⊢
    split at h
    · cases h
    · rename_i t step
      rw [more s _ step]
      exact ih h
    · rename_i b step
      rw [more s _ step]
      exact h

theorem ends_of_result (h : round s = some (.inr a)) : Ends round s a := ⟨1,by simp only [run,h]⟩

theorem ends_iff_of_step (h : round s = some (.inl t)) : Ends round s a ↔ Ends round t a := by
  constructor
  · rintro ⟨fuel,done⟩
    cases fuel with
    | zero => cases done
    | succ fuel =>
      simp only [run,h] at done
      exact ⟨fuel,done⟩
  · rintro ⟨fuel,done⟩
    refine ⟨fuel + 1,?_⟩
    simp only [run,h]
    exact done

theorem Ends.unique (ha : Ends round s a) (hb : Ends round s b) : a = b := by
  obtain ⟨m,hm⟩ := ha
  obtain ⟨n,hn⟩ := hb
  have first := run_mono (Nat.le_max_left m n) hm
  have second := run_mono (Nat.le_max_right m n) hn
  exact Option.some.inj (first.symm.trans second)

theorem Ends.induct (keep : ∀ s t, I s → round s = some (.inl t) → I t)
    (leave : ∀ s a, I s → round s = some (.inr a) → Q a) (hs : I s) (h : Ends round s a) : Q a := by
  obtain ⟨fuel,done⟩ := h
  induction fuel generalizing s with
  | zero => cases done
  | succ fuel ih =>
    unfold run at done
    split at done
    · cases done
    · rename_i t step
      exact ih (keep s t hs step) done
    · rename_i b step
      cases done
      exact leave s _ hs step

theorem ends_of_measure (μ : σ → Nat)
    (rounds : ∀ s, I s → (∃ t, round s = some (.inl t) ∧ I t ∧ μ t < μ s) ∨ ∃ a, round s = some (.inr a) ∧ Q a)
    (hs : I s) : ∃ a, Ends round s a ∧ Q a := by
  induction h : μ s using Nat.strong_induction_on generalizing s with
  | _ n ih =>
    rcases rounds s hs with ⟨t,step,ht,less⟩ | ⟨a,step,ha⟩
    · obtain ⟨a,done,ha⟩ := ih (μ t) (h ▸ less) ht rfl
      exact ⟨a,(ends_iff_of_step step).mpr done,ha⟩
    · exact ⟨a,ends_of_result step,ha⟩

theorem not_ends (rounds : ∀ s, I s → ∃ t, round s = some (.inl t) ∧ I t) (hs : I s) : ¬ Ends round s a := by
  intro h
  refine h.induct (I := I) (Q := fun _ => False) (fun s t hs step => ?_) (fun s b hs step => ?_) hs
  · obtain ⟨t',step',ht⟩ := rounds s hs
    cases step.symm.trans step'
    exact ht
  · obtain ⟨t,step',_⟩ := rounds s hs
    cases step.symm.trans step'

end Whiles
