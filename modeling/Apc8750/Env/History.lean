import Apc8750.Library.Runs

namespace Apc8750.Env

inductive Ended where
  | returned (rcode : Nat)
  | lost
  deriving DecidableEq

inductive Reply where
  | rejected
  | updated (data : List Nat)
  | unwritten (data : List Nat)
  | lost (data : List Nat)
  | rebooted

def After (data : List Nat) : Reply → List Nat → Prop
  | .updated written, d => d = written
  | .lost written, d => d = data ∨ d = written
  | .rejected, d => d = data
  | .unwritten _, d => d = data
  | .rebooted, d => d = data

/-- The last update that returned 0, and those cut by a power loss since. -/
def candidates {ε : Type} (data : List Nat) (trace : List (ε × Reply)) : List (List Nat) :=
  trace.foldl (fun found p =>
    match p.2 with
    | .updated written => [written]
    | .lost written => found ++ [written]
    | _ => found) [data]

theorem After.candidate (h : After data r d) (before : data ∈ candidates data' trace) :
    d ∈ candidates data' (trace ++ [(e,r)]) := by
  unfold candidates at *
  rw [List.foldl_append,List.foldl_cons,List.foldl_nil]
  cases r with
  | updated written => exact List.mem_singleton.mpr h
  | lost written =>
    rcases h with rfl | rfl
    · exact List.mem_append_left _ before
    · exact List.mem_append_right _ (List.mem_singleton_self _)
  | rejected => exact h.symm ▸ before
  | unwritten written => exact h.symm ▸ before
  | rebooted => exact h.symm ▸ before

section
variable {σ ε β : Type} {step : σ → ε → Option (Reply × σ)} {guard : σ → ε → Prop}
  {S : σ → β → List Nat → Prop} {L : σ → List Nat → Prop} {s w : σ} {b : β}
  {trace : List (ε × Reply)}
  (keep : ∀ {w e r w' b d}, S w b d → guard w e → step w e = some (r, w') →
    ∃ b' d', S w' b' d' ∧ After d r d')
  (start : S s b data) (run : Runs.Run step guard s trace w)
include keep start run

theorem settled_candidate : ∃ b, ∃ d ∈ candidates data trace, S w b d := by
  apply run.trace_invariant (I := fun trace w => ∃ b, ∃ d ∈ candidates data trace, S w b d)
  · exact ⟨b,data,List.mem_singleton_self _,start⟩
  · rintro trace t e r u ⟨b,d,candidate,ht⟩ safe done
    obtain ⟨b',d',settled,after⟩ := keep ht safe done
    exact ⟨b',d',after.candidate candidate,settled⟩

theorem candidate_loads (unique : ∀ {w d d'}, L w d → L w d' → d = d')
    (loads : ∀ {w b d}, S w b d → L w d) :
    (∃ d ∈ candidates data trace, L w d) ∧
    ∀ e r w', guard w e → step w e = some (r,w') → ∀ d, L w d → ∃ d', After d r d' ∧ L w' d' := by
  obtain ⟨b,d,candidate,hw⟩ := settled_candidate keep start run
  refine ⟨⟨d,candidate,loads hw⟩,?_⟩
  intro e r w' safe done d₁ loaded
  cases unique loaded (loads hw)
  obtain ⟨b',d',settled,after⟩ := keep hw safe done
  exact ⟨d',after,loads settled⟩

end

end Apc8750.Env
