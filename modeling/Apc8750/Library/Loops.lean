import Mathlib.Data.Nat.Basic

namespace Loops

/-- So many rounds of a body that may leave the loop with a result. -/
def rounds (body : σ → Except ε σ) : Nat → σ → Except ε σ
  | 0, s => .ok s
  | n + 1, s => match body s with
    | .error e => .error e
    | .ok s => rounds body n s

/-- The condition comes after each round; `stuck` when the fuel ends first. -/
def doWhile (stuck : ε) (cond : σ → Bool) (body : σ → Except ε σ) : Nat → σ → Except ε σ
  | 0, _ => .error stuck
  | n + 1, s => match body s with
    | .error e => .error e
    | .ok s => if cond s then doWhile stuck cond body n s else .ok s

variable {body step : σ → Except ε σ} {cond : σ → Bool} {I : σ → Prop} {μ : σ → Nat} {s t : σ}
  {stuck : ε} {n : Nat}

theorem rounds_add (body : σ → Except ε σ) (m n : Nat) (s : σ) :
    rounds body (m + n) s = match rounds body m s with
      | .error e => .error e
      | .ok s => rounds body n s := by
  induction m generalizing s with
  | zero => rw [Nat.zero_add]; rfl
  | succ m ih =>
    cases h : body s with
    | error e => simp only [Nat.succ_add,rounds,h]
    | ok t => simpa only [Nat.succ_add,rounds,h] using ih t

structure Counts (step : σ → Except ε σ) (cond : σ → Bool) (I : σ → Prop) (μ : σ → Nat) :
    Prop where
  keep : ∀ {s t}, I s → 0 < μ s → step s = .ok t → I t
  less : ∀ {s t}, I s → 0 < μ s → step s = .ok t → μ t + 1 = μ s
  test : ∀ {s t}, I s → 0 < μ s → step s = .ok t → cond t = decide (0 < μ t)

theorem Counts.rounds (h : Counts step cond I μ) (hs : I s) (hn : n ≤ μ s)
    (hr : rounds step n s = .ok t) :
    I t ∧ μ t + n = μ s ∧ (0 < n → cond t = decide (0 < μ t)) := by
  induction n generalizing s with
  | zero =>
    cases hr
    exact ⟨hs,rfl,fun h => absurd h (Nat.lt_irrefl 0)⟩
  | succ n ih =>
    unfold Loops.rounds at hr
    cases hstep : step s with
    | error e => simp [hstep] at hr
    | ok u =>
      simp only [hstep] at hr
      have hpos : 0 < μ s := by omega
      have hless := h.less hs hpos hstep
      obtain ⟨ht,hsum,htest⟩ := ih (h.keep hs hpos hstep) (by omega) hr
      refine ⟨ht,by omega,fun _ => ?_⟩
      cases n with
      | zero =>
        cases hr
        exact h.test hs hpos hstep
      | succ n => exact htest (Nat.succ_pos n)

theorem Counts.doWhile (h : Counts step cond I μ)
    (hbody : ∀ s, I s → 0 < μ s → ∃ k, 0 < k ∧ k ≤ μ s ∧ body s = Loops.rounds step k s)
    (hs : I s) (hpos : 0 < μ s) (hfuel : μ s ≤ n) :
    doWhile stuck cond body n s = Loops.rounds step (μ s) s := by
  induction n generalizing s with
  | zero => omega
  | succ n ih =>
    obtain ⟨k,hk,hle,he⟩ := hbody s hs hpos
    have hsplit := rounds_add step k (μ s - k) s
    rw [Nat.add_sub_cancel' hle] at hsplit
    rw [hsplit]
    unfold Loops.doWhile
    rw [he]
    cases hr : Loops.rounds step k s with
    | error e => rfl
    | ok t =>
      obtain ⟨ht,hsum,htest⟩ := h.rounds hs hle hr
      simp only [htest hk]
      by_cases hmore : 0 < μ t
      · rw [if_pos (by simpa using hmore),ih ht hmore (by omega),show μ s - k = μ t by omega]
      · rw [if_neg (by simpa using hmore),show μ s - k = 0 by omega]
        rfl

end Loops
