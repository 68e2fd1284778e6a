import Apc8750.Camera.Model

namespace Apc8750.Camera.Memory
open Function

/-- The addresses kept, the blocks held, and whether one not held was given back. -/
structure Device where
  devRef : Nat := 0
  dftYAddr : Nat := 0
  yAddr : Nat → Nat := fun _ => 0
  fbCnt : Nat := 0
  live : List Nat := []
  stray : Bool := false

def mbFree (d : Device) (a : Nat) : Device :=
  { d with live := d.live.erase a, stray := d.stray || !d.live.contains a }

inductive Op where
  | open (granted : Nat)
  | reqbufs (known : Bool) (count : Nat) (granted : Nat → Nat)
  | release

/-- `granted` is what `mb_alloc` returns; a call that fails does not give the reference back. -/
def cmosOpen (d : Device) (granted : Nat) : Bool × Device :=
  if d.devRef ≠ 0 then (false, d)
  else
    let d : Device := { live := d.live, stray := d.stray, devRef := 1, dftYAddr := granted }
    if granted = 0 then (false, d) else (true, { d with live := granted :: d.live })

/-- The loop of `cmos_cam_reqbufs` with `n` buffers left. -/
def allocate (granted : Nat → Nat) : Nat → Nat → Device → Bool × Device
  | 0, _, d => (true, d)
  | n + 1, i, d =>
    let d := { d with yAddr := update d.yAddr i (granted i) }
    if granted i = 0 then (false, (List.range i).foldl (fun d j => mbFree d (d.yAddr j)) d)
    else allocate granted n (i + 1) { d with live := granted i :: d.live }

def reqbufs (d : Device) (known : Bool) (count : Nat) (granted : Nat → Nat) : Bool × Device :=
  if known = false ∨ count > maxFbInQueue then (false, d)
  else allocate granted count 0 { d with fbCnt := count }

def releaseFb (d : Device) (i : Nat) : Device :=
  if d.yAddr i = 0 then d
  else { mbFree d (d.yAddr i) with yAddr := update d.yAddr i 0 }

def cmosRelease (d : Device) : Device :=
  let d := (List.range d.fbCnt).foldl releaseFb d
  { mbFree d d.dftYAddr with devRef := d.devRef - 1 }

def step (d : Device) : Op → Option (Bool × Device)
  | .open granted => some (cmosOpen d granted)
  | .reqbufs known count granted => if d.devRef = 0 then none else some (reqbufs d known count granted)
  | .release => if d.devRef = 0 then none else some (true, cmosRelease d)

/-- The memory block driver grants what it was asked for, and the buffers are asked for once. -/
def Careful (d : Device) : Op → Prop
  | .open granted => d.devRef = 0 → granted ≠ 0
  | .reqbufs known count granted => known = true → count ≤ maxFbInQueue →
    d.fbCnt = 0 ∧ (∀ i < count, granted i ≠ 0)
  | .release => True

structure Balanced (d : Device) : Prop where
  owned : d.stray = false
  closed : d.devRef = 0 → d.live = []

structure Kept (d : Device) : Prop extends Balanced d where
  opened : d.devRef ≠ 0 → d.devRef = 1 ∧ (∀ i < d.fbCnt, d.yAddr i ≠ 0) ∧
    d.live.Perm (d.dftYAddr :: (List.range d.fbCnt).map d.yAddr)

theorem allocate_granted (all : ∀ i < m, granted i ≠ 0) (n i : Nat) (sum : i + n = m) (d : Device)
    (perm : d.live.Perm (d.dftYAddr :: (List.range i).map granted)) (same : ∀ j < i, d.yAddr j = granted j) :
    ∃ y live, allocate granted n i d = (true, { d with yAddr := y, live := live }) ∧
      (∀ j < m, y j = granted j) ∧ live.Perm (d.dftYAddr :: (List.range m).map granted) := by
  induction n generalizing i d with
  | zero => exact ⟨d.yAddr,d.live,rfl,fun j hj => same j (by omega),by rwa [← show i = m by omega]⟩
  | succ n ih =>
    obtain ⟨y,live,eq,kept,perm⟩ := ih (i + 1) (by omega)
      { d with yAddr := update d.yAddr i (granted i), live := granted i :: d.live }
      (by
        rw [List.range_succ,List.map_append]
        exact (perm.cons _).trans (.trans (.swap ..) ((List.perm_append_singleton ..).symm.cons _)))
      (fun j hj => by
        simp only [Function.update_apply]
        split
        · rename_i here
          rw [here]
        · exact same j (by omega))
    refine ⟨y,live,?_,kept,perm⟩
    rw [allocate,if_neg (all i (by omega))]
    exact eq

theorem release_buffers (n i : Nat) (d : Device) (owned : d.stray = false) (nonzero : ∀ j < n, d.yAddr (i + j) ≠ 0)
    (perm : d.live.Perm (d.dftYAddr :: (List.range n).map fun j => d.yAddr (i + j))) :
    ∃ y, (List.range' i n).foldl releaseFb d = { d with yAddr := y, live := [d.dftYAddr] } := by
  induction n generalizing i d with
  | zero => exact ⟨d.yAddr,by rw [← List.perm_singleton.mp perm]; rfl⟩
  | succ n ih =>
    rw [List.range_succ_eq_map,List.map_cons,List.map_map] at perm
    have here : d.yAddr i ∈ d.live := perm.mem_iff.mpr (by simp)
    have one : releaseFb d i =
        { d with yAddr := update d.yAddr i 0, live := d.live.erase (d.yAddr i) } := by
      rw [releaseFb,if_neg (show d.yAddr i ≠ 0 from nonzero 0 (by omega)),mbFree]
      simp [here,owned]
    have later (j : Nat) : update d.yAddr i 0 (i + 1 + j) = d.yAddr (i + (j + 1)) := by
      rw [update_of_ne (by omega)]
      exact congrArg _ (by omega)
    rw [List.range'_succ,List.foldl_cons,one]
    refine ih (i + 1) { d with yAddr := update d.yAddr i 0, live := d.live.erase (d.yAddr i) } owned
      (fun j hj => (later j).trans_ne (nonzero (j + 1) (by omega))) ?_
    simp only [later]
    have rest := (perm.trans (.swap ..)).erase (d.yAddr i)
    simpa [Function.comp_def] using rest

theorem Kept.release (h : Kept d) (open' : d.devRef ≠ 0) : Kept (cmosRelease d) := by
  obtain ⟨one,nonzero,perm⟩ := h.opened open'
  obtain ⟨y,eq⟩ := release_buffers d.fbCnt 0 d h.owned (by simpa using nonzero) (by simpa using perm)
  have closed : cmosRelease d = { d with yAddr := y, live := [], devRef := 0 } := by
    rw [cmosRelease,List.range_eq_range',eq]
    simp [mbFree,h.owned,one]
  rw [closed]
  exact ⟨⟨h.owned,fun _ => rfl⟩,fun ne => absurd rfl ne⟩

theorem Kept.step (h : Kept d) (careful : Careful d op) (done : step d op = some (r,e)) :
    Kept e := by
  cases op with
  | «open» granted =>
    have eq : cmosOpen d granted = (r,e) := Option.some.inj done
    unfold cmosOpen at eq
    split at eq
    · cases eq
      exact h
    rename_i free
    have free : d.devRef = 0 := not_not.mp free
    rw [if_neg (careful free)] at eq
    cases eq
    exact ⟨⟨h.owned,nofun⟩,fun _ => ⟨rfl,nofun,by rw [h.closed free]; rfl⟩⟩
  | reqbufs known count granted =>
    rw [Memory.step] at done
    split at done
    · cases done
    rename_i busy
    have eq : reqbufs d known count granted = (r,e) := Option.some.inj done
    unfold reqbufs at eq
    split at eq
    · cases eq
      exact h
    rename_i accepted
    rw [not_or,not_lt,Bool.not_eq_false] at accepted
    obtain ⟨none,all⟩ := careful accepted.1 accepted.2
    obtain ⟨one,_,perm⟩ := h.opened busy
    obtain ⟨y,live,eq',kept,perm⟩ := allocate_granted all count 0 (by omega) { d with fbCnt := count }
      (by rwa [none] at perm) nofun
    rw [eq'] at eq
    cases eq
    refine ⟨⟨h.owned,fun zero => absurd zero busy⟩,fun _ => ⟨one,fun i hi => ?_,?_⟩⟩
    · exact (kept i hi).trans_ne (all i hi)
    · rwa [show (List.range count).map y = (List.range count).map granted from
        List.map_congr_left fun i hi => kept i (List.mem_range.mp hi)]
  | release =>
    rw [Memory.step] at done
    split at done
    · cases done
    · rename_i busy
      cases done
      exact h.release busy

/-- Without failed allocations and a second request, every block is given back exactly once. -/
theorem memory_balanced {trace : List (Op × Bool)} (run : Runs.Run step Careful {} trace d) :
    Balanced d ∧ (d.devRef = 0 → ∀ granted ≠ 0, (cmosOpen d granted).1 = true) := by
  have kept := run.invariant (I := Kept) ⟨⟨rfl, fun _ => rfl⟩, fun ne => absurd rfl ne⟩ fun h careful done =>
    h.step careful done
  refine ⟨kept.toBalanced, fun closed granted some => ?_⟩
  rw [cmosOpen, if_neg (not_not.mpr closed), if_neg some]

theorem memory_balanced_two : ∃ d, Runs.Run step Careful {}
      [(.open 5, true), (.reqbufs true 2 (· + 6), true), (.release, true)] d ∧ d.live = [] := by
  obtain ⟨d, run, closed⟩ : ∃ d, Runs.Run step Careful {}
      [(.open 5, true), (.reqbufs true 2 (· + 6), true), (.release, true)] d ∧ d.devRef = 0 := by
    refine ⟨_, .next (.next (.next .start ?_ rfl) ?_ rfl) trivial rfl, rfl⟩
    · exact fun _ => by decide
    · exact fun _ _ => ⟨rfl, fun i _ => Nat.succ_ne_zero _⟩
  exact ⟨d, run, (memory_balanced run).1.closed closed⟩

/-- A second or failed request, and a failed open. -/
theorem memory_unbalanced : ∃ d e f, Runs.Run step (fun _ _ => True) {}
      [(.open 5, true), (.reqbufs true 1 fun _ => 6, true), (.reqbufs true 1 fun _ => 7, true), (.release, true)] d ∧
    d.live = [6] ∧ Runs.Run step (fun _ _ => True) {}
      [(.open 5, true), (.reqbufs true 2 fun i => if i = 0 then 6 else 0, false), (.release, true)] e ∧
    e.stray = true ∧
    Runs.Run step (fun _ _ => True) {} [(.open 0, false), (.open 5, false)] f :=
  ⟨_, _, _, .next (.next (.next (.next .start trivial rfl) trivial rfl) trivial rfl) trivial rfl, by decide,
    .next (.next (.next .start trivial rfl) trivial rfl) trivial rfl, by decide,
    .next (.next .start trivial rfl) trivial rfl⟩

end Apc8750.Camera.Memory
