import Apc8750.Library.Runs

namespace Apc8750.Gmp.Lock
open Function

variable {τ : Type}

def eintr : Int := -4

/-- In no call, in `gmp_device_lock` with the semaphore, or in `gmp_device_unlock` before or behind
the `up`. -/
inductive Phase where
  | idle
  | taken
  | releasing
  | released
  deriving DecidableEq

/-- The driver, where each task is, and which tasks have locked and not unlocked since. -/
structure State (τ : Type) where
  sem : Nat
  owner : Option τ
  busy : Bool
  phase : τ → Phase
  holds : τ → Bool

def initial : State τ := ⟨1, none, false, fun _ => .idle, fun _ => false⟩

/-- The points of the two functions between which other tasks may run. -/
inductive Op (τ : Type) where
  | down (t : τ)
  | interrupted (t : τ)
  | own (t : τ)
  | unlock (t : τ)
  | up (t : τ)
  | clear (t : τ)

def Has (s : State τ) (t : τ) : Prop := s.phase t = .taken ∨ s.holds t = true

structure LockOk (s : State τ) : Prop where
  one : ∀ t u, Has s t → Has s u → t = u
  sem : ∀ t, Has s t → s.sem = 0
  free : s.sem ≤ 1
  owner : ∀ t, s.holds t = true → s.owner = some t
  releasing : ∀ t, s.phase t = .releasing → s.holds t = true

theorem initial_ok : LockOk (initial : State τ) where
  one := fun _ _ h => by simp [Has,initial] at h
  sem := fun _ h => by simp [Has,initial] at h
  free := Nat.le_refl 1
  owner := nofun
  releasing := nofun

variable [DecidableEq τ]

def step (s : State τ) : Op τ → Option (Option Int × State τ)
  | .down t =>
    if s.phase t = .idle ∧ 0 < s.sem then
      some (none, { s with sem := s.sem - 1, phase := update s.phase t .taken })
    else none
  | .interrupted t => if s.phase t = .idle then some (some eintr, s) else none
  | .own t =>
    if s.phase t = .taken then
      some (some 0, { s with
        owner := some t
        busy := true
        phase := update s.phase t .idle
        holds := update s.holds t true })
    else none
  | .unlock t =>
    if s.phase t = .idle then
      if s.owner = some t then
        some (none, { s with phase := update s.phase t .releasing })
      else some (some (-1), s)
    else none
  | .up t =>
    if s.phase t = .releasing then
      some (none, { s with
        sem := s.sem + 1
        phase := update s.phase t .released
        holds := update s.holds t false })
    else none
  | .clear t =>
    if s.phase t = .released then
      some (some 0, { s with busy := false, phase := update s.phase t .idle })
    else none

def Careful (s : State τ) : Op τ → Prop
  | .unlock t => s.owner = some t → s.holds t = true
  | _ => True

variable {s t : State τ}

theorem LockOk.move {a : τ} {p : Phase} (h : LockOk s) (busy : Bool) (hp : p ≠ .taken)
    (hhas : s.phase a ≠ .taken) (hrel : p = .releasing → s.holds a = true) :
    LockOk { s with busy := busy, phase := update s.phase a p } := by
  have hsame (u : τ) : Has { s with busy := busy, phase := update s.phase a p } u ↔ Has s u := by
    by_cases hu : u = a
    · subst hu
      simp [Has,hp,hhas]
    · simp [Has,hu]
  refine ⟨fun u v hu hv => h.one u v ((hsame u).mp hu) ((hsame v).mp hv),
    fun u hu => h.sem u ((hsame u).mp hu),h.free,h.owner,fun u hu => ?_⟩
  by_cases he : u = a
  · subst he
    exact hrel (by simpa using hu)
  · exact h.releasing u (by simpa [he] using hu)

theorem LockOk.down {a : τ} (h : LockOk s) (hfree : 0 < s.sem) :
    LockOk { s with sem := s.sem - 1, phase := update s.phase a .taken } := by
  have hnone (u : τ) : ¬ Has s u := fun hu => by
    have := h.sem u hu
    omega
  have hnow (u : τ) (hu : Has { s with
      sem := s.sem - 1
      phase := update s.phase a .taken } u) : u = a := by
    by_contra he
    exact hnone u (by simpa [Has,he] using hu)
  refine ⟨fun u v hu hv => (hnow u hu).trans (hnow v hv).symm,fun u hu => ?_,?_,h.owner,fun u hu => ?_⟩
  · have := h.free
    show s.sem - 1 = 0
    omega
  · exact Nat.le_trans (Nat.sub_le _ _) h.free
  · by_cases he : u = a
    · subst he
      simp at hu
    · exact h.releasing u (by simpa [he] using hu)

theorem LockOk.own {a : τ} (h : LockOk s) (ha : s.phase a = .taken) :
    LockOk { s with
      owner := some a
      busy := true
      phase := update s.phase a .idle
      holds := update s.holds a true } := by
  have hown : Has s a := .inl ha
  have hnow (u : τ) (hu : Has { s with
      owner := some a
      busy := true
      phase := update s.phase a .idle
      holds := update s.holds a true } u) : u = a := by
    by_contra he
    exact he (h.one u a (by simpa [Has,he] using hu) hown)
  refine ⟨fun u v hu hv => (hnow u hu).trans (hnow v hv).symm,fun u _ => h.sem a hown,h.free,
    fun u hu => ?_,fun u hu => ?_⟩
  · exact congrArg some (hnow u (.inr hu)).symm
  by_cases he : u = a
  · subst he
    simp
  · have hholds := h.releasing u (by simpa [he] using hu)
    simpa [he] using hholds

theorem LockOk.up {a : τ} (h : LockOk s) (ha : s.phase a = .releasing) :
    LockOk { s with
      sem := s.sem + 1
      phase := update s.phase a .released
      holds := update s.holds a false } := by
  have hown : Has s a := .inr (h.releasing a ha)
  have hnone (u : τ) : ¬ Has { s with
      sem := s.sem + 1
      phase := update s.phase a .released
      holds := update s.holds a false } u := fun hu => by
    by_cases he : u = a
    · subst he
      simp [Has] at hu
    · exact he (h.one u a (by simpa [Has,he] using hu) hown)
  refine ⟨fun u _ hu => absurd hu (hnone u),fun u hu => absurd hu (hnone u),?_,fun u hu => ?_,
    fun u hu => ?_⟩
  · have := h.sem a hown
    show s.sem + 1 ≤ 1
    omega
  · exact absurd (.inr hu) (hnone u)
  · by_cases he : u = a
    · subst he
      simp at hu
    · exact absurd (h.one u a (.inr (h.releasing u (by simpa [he] using hu))) hown) he

theorem LockOk.step {op : Op τ} {r : Option Int} (h : LockOk s) (hcare : Careful s op)
    (hstep : step s op = some (r,t)) : LockOk t := by
  cases op <;> simp only [Lock.step] at hstep <;> split at hstep
  all_goals try cases hstep
  case down.isTrue ha => exact h.down ha.2
  case interrupted.isTrue => exact h
  case own.isTrue ha => exact h.own ha
  case up.isTrue ha => exact h.up ha
  case clear.isTrue a ha => exact h.move false (by decide) (by simp [ha]) nofun
  case unlock.isTrue a ha =>
    split at hstep
    · rename_i howner
      cases hstep
      exact h.move s.busy (by decide) (by simp [ha]) fun _ => hcare howner
    · cases hstep
      exact h

/-- At most one task holds the lock as long as no task unlocks that is only still written down as
the owner. -/
theorem lock_exclusive {trace : List (Op τ × Option Int)}
    (h : Runs.Run step Careful initial trace s) :
    (∀ t u, s.holds t = true → s.holds u = true → t = u) ∧
      ∀ t, s.phase t = .idle → s.holds t = false →
        (step s (.unlock t) = some (some (-1), s) ↔ Careful s (.unlock t)) := by
  have hok : LockOk s := h.invariant initial_ok fun ht hc hs => ht.step hc hs
  refine ⟨fun t u ht hu => hok.one t u (.inr ht) (.inr hu), fun t hidle hnot => ?_⟩
  simp only [step, if_pos hidle, Careful, hnot]
  split
  · rename_i howner
    simp [howner]
  · rename_i howner
    simp [howner]

instance decCareful (s : State τ) (op : Op τ) : Decidable (Careful s op) := by
  cases op <;> unfold Careful <;> infer_instance

theorem lock_exclusive_again : ∃ trace, ∃ s : State Nat,
    Runs.Run step Careful initial trace s ∧ s.holds 1 = true ∧ ∀ u, s.holds u = true → 1 = u := by
  have hrun : Runs.Run step Careful (initial : State Nat) _ _ :=
    Runs.Run.exec (fun _ _ h => of_decide_eq_true h) .start
      (show Runs.exec step (fun s op => decide (Careful s op)) initial []
        [.down 1, .own 1, .unlock 1, .up 1, .clear 1, .down 1, .own 1] = some _ from rfl)
  exact ⟨_, _, hrun, rfl, fun u hu => (lock_exclusive hrun).1 1 u rfl hu⟩

theorem closed_file_unlocks : ∃ trace, ∃ s : State Nat,
    Runs.Run step (fun _ _ => True) initial trace s ∧ s.holds 2 = true ∧ s.holds 3 = true := by
  have hrun : Runs.Run step (fun _ _ => True) (initial : State Nat) _ _ :=
    Runs.Run.exec (fun _ _ _ => trivial) .start
      (show Runs.exec step (fun _ _ => true) initial []
        [.down 1, .own 1, .unlock 1, .up 1, .clear 1, .unlock 1, .up 1, .clear 1,
          .down 2, .own 2, .down 3, .own 3] = some _ from rfl)
  exact ⟨_, _, hrun, rfl, rfl⟩

end Apc8750.Gmp.Lock
