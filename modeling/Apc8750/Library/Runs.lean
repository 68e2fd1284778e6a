import Mathlib.Data.List.Basic

namespace Runs

/-- The runs of a partial step function under a guard. The trace lists actions and replies, oldest
first. -/
inductive Run (step : σ → α → Option (ρ × σ)) (guard : σ → α → Prop) (s : σ) :
    List (α × ρ) → σ → Prop where
  | start : Run step guard s [] s
  | next (run : Run step guard s trace t) (allowed : guard t a)
      (done : step t a = some (r, u)) : Run step guard s (trace ++ [(a, r)]) u

variable {step : σ → α → Option (ρ × σ)} {guard guard' : σ → α → Prop} {s t : σ}
  {trace : List (α × ρ)}

theorem Run.invariant {I : σ → Prop} (h : Run step guard s trace t) (start : I s)
    (keep : ∀ {t a r u}, I t → guard t a → step t a = some (r,u) → I u) : I t := by
  induction h with
  | start => exact start
  | next _ allowed done ih => exact keep ih allowed done

theorem Run.trace_invariant {I : List (α × ρ) → σ → Prop} (h : Run step guard s trace t)
    (start : I [] s)
    (keep : ∀ {trace t a r u}, I trace t → guard t a → step t a = some (r,u) →
      I (trace ++ [(a,r)]) u) : I trace t := by
  induction h with
  | start => exact start
  | next _ allowed done ih => exact keep ih allowed done

theorem Run.weaken (h : Run step guard s trace t) (hg : ∀ t a, guard t a → guard' t a) :
    Run step guard' s trace t := by
  induction h with
  | start => exact .start
  | next _ allowed done ih => exact .next ih (hg _ _ allowed) done

def exec (step : σ → α → Option (ρ × σ)) (guard : σ → α → Bool) :
    σ → List (α × ρ) → List α → Option (List (α × ρ) × σ)
  | s, trace, [] => some (trace, s)
  | s, trace, a :: as =>
    if guard s a then
      match step s a with
      | none => none
      | some (r, s) => exec step guard s (trace ++ [(a, r)]) as
    else none

theorem Run.exec {check : σ → α → Bool} (hg : ∀ t a, check t a = true → guard t a)
    {first : List (α × ρ)} {m u : σ} {as : List α} (h : Run step guard s first m)
    (he : exec step check m first as = some (trace,u)) : Run step guard s trace u := by
  induction as generalizing first m with
  | nil =>
    cases he
    exact h
  | cons a as ih =>
    unfold Runs.exec at he
    split at he
    · rename_i allowed
      split at he
      · cases he
      · exact ih (h.next (hg _ _ allowed) (by assumption)) he
    · cases he

end Runs
