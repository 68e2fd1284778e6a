import Mathlib.Data.List.Basic

namespace Apc8750.Checked

universe u v

variable {ε : Type u} {α β σ : Type v}

def Returns (x : Except ε α) : Prop := ∃ a, x = .ok a

@[simp] theorem returns_ok (a : α) : Returns (.ok a : Except ε α) := ⟨a,rfl⟩

@[simp] theorem returns_pure (a : α) : Returns (pure a : Except ε α) := ⟨a,rfl⟩

@[simp] theorem not_returns_error (e : ε) : ¬ Returns (.error e : Except ε α) := by
  rintro ⟨a,h⟩
  cases h

theorem bind_eq_ok {x : Except ε α} {f : α → Except ε β} {r : β} :
    x >>= f = .ok r ↔ ∃ a, x = .ok a ∧ f a = .ok r := by
  cases x with
  | error e => simp [bind,Except.bind]
  | ok a => simp [bind,Except.bind]

theorem returns_bind {x : Except ε α} {f : α → Except ε β} :
    Returns (x >>= f) ↔ ∃ a, x = .ok a ∧ Returns (f a) := by
  simp only [Returns,bind_eq_ok]
  tauto

theorem returns_bind_of (after : ∀ a, Returns (f a)) : Returns (x >>= f) ↔ Returns x := by
  rw [returns_bind]
  exact ⟨fun ⟨a,first,_⟩ => ⟨a,first⟩,fun ⟨a,first⟩ => ⟨a,first,after a⟩⟩

theorem returns_foldlM_of {f : σ → α → Except ε σ} {P : α → Prop} {I : List α → σ → Prop}
    (round : ∀ s a l, I (a :: l) s → (Returns (f s a) ↔ P a))
    (keep : ∀ s a l t, I (a :: l) s → f s a = .ok t → I l t) {l : List α} {s : σ} (start : I l s) :
    Returns (l.foldlM f s) ↔ ∀ a ∈ l, P a := by
  induction l generalizing s with
  | nil => simp
  | cons a l ih =>
    rw [List.foldlM_cons,returns_bind,List.forall_mem_cons,← round s a l start]
    constructor
    · rintro ⟨t,first,rest⟩
      exact ⟨⟨t,first⟩,(ih (keep s a l t start first)).mp rest⟩
    · rintro ⟨⟨t,first⟩,rest⟩
      exact ⟨t,first,(ih (keep s a l t start first)).mpr rest⟩

theorem returns_foldlM {f : σ → α → Except ε σ} {P : α → Prop}
    (round : ∀ s a, Returns (f s a) ↔ P a) (l : List α) (s : σ) :
    Returns (l.foldlM f s) ↔ ∀ a ∈ l, P a :=
  returns_foldlM_of (I := fun _ _ => True) (fun s a _ _ => round s a) (fun _ _ _ _ _ _ => trivial)
    trivial

theorem foldlM_ok {f : σ → α → Except ε σ} {J : List α → σ → Prop} {l : List α} {s t : σ}
    (round : ∀ done a rest s t, l = done ++ a :: rest → J done s → f s a = .ok t →
      J (done ++ [a]) t)
    (start : J [] s) (run : l.foldlM f s = .ok t) : J l t := by
  suffices h : ∀ rest done s, l = done ++ rest → J done s → rest.foldlM f s = .ok t → J l t from
    h l [] s rfl start run
  intro rest
  induction rest with
  | nil =>
    intro done s split hJ ran
    cases ran
    rwa [split,List.append_nil]
  | cons a rest ih =>
    intro done s split hJ ran
    obtain ⟨s',first,ran⟩ := bind_eq_ok.mp (by rwa [List.foldlM_cons] at ran)
    exact ih (done ++ [a]) s' (by simp [split]) (round done a rest s s' split hJ first) ran

end Apc8750.Checked
