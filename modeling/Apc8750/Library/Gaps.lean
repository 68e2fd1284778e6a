import Mathlib.Algebra.GroupWithZero.Nat
import Mathlib.Algebra.Order.Group.Nat
import Mathlib.Algebra.BigOperators.Group.List.Basic

namespace Gaps

variable (st en : α → Nat)

def Laid (top : Nat) : Nat → List α → Prop
  | low, [] => low ≤ top
  | low, x :: xs => low ≤ st x ∧ st x < en x ∧ Laid top (en x) xs

def gaps (top : Nat) : Nat → List α → List Nat
  | low, [] => [top - low]
  | low, x :: xs => (st x - low) :: gaps top (en x) xs

def largest (top low : Nat) (l : List α) : Nat := (gaps st en top low l).foldr max 0

def room (top low : Nat) (l : List α) : Nat := (gaps st en top low l).sum

def used (l : List α) : Nat := (l.map (fun x => en x - st x)).sum

def lastEnd (low : Nat) : List α → Nat
  | [] => low
  | x :: xs => lastEnd (en x) xs

def firstStart (top : Nat) : List α → Nat
  | [] => top
  | x :: _ => st x

/-- `n` places from `z` on lie between the bounds and meet no item. -/
def Free (top low : Nat) (l : List α) (n z : Nat) : Prop :=
  low ≤ z ∧ z + n ≤ top ∧ ∀ x ∈ l, z + n ≤ st x ∨ en x ≤ z

variable {st en}

theorem Laid.low_le_first (h : Laid st en top low l) : low ≤ firstStart st top l := by
  cases l with
  | nil => exact h
  | cons x xs => exact h.1

theorem Laid.low_le (h : Laid st en top low l) : low ≤ top := by
  induction l generalizing low with
  | nil => exact h
  | cons x xs ih =>
    have := ih h.2.2
    have := h.1
    have := h.2.1
    omega

theorem laid_append : Laid st en top low (xs ++ ys) ↔
    Laid st en (firstStart st top ys) low xs ∧ Laid st en top (lastEnd en low xs) ys := by
  induction xs generalizing low with
  | nil => exact ⟨fun h => ⟨h.low_le_first,h⟩,fun h => h.2⟩
  | cons x xs ih => simp only [List.cons_append,Laid,lastEnd,ih,and_assoc]

theorem Laid.insert (h : Laid st en top low (xs ++ ys)) (hs : lastEnd en low xs ≤ st x)
    (hx : st x < en x) (he : en x ≤ firstStart st top ys) : Laid st en top low (xs ++ x :: ys) := by
  obtain ⟨hl,hr⟩ := laid_append.mp h
  refine laid_append.mpr ⟨?_,hs,hx,?_⟩
  · clear h hr
    induction xs generalizing low with
    | nil => exact hs
    | cons y xs ih => exact ⟨hl.1,hl.2.1,ih hs hl.2.2⟩
  · cases ys with
    | nil => exact he
    | cons y ys => exact ⟨he,hr.2⟩

theorem Laid.lower (h : Laid st en top low l) (hl : low' ≤ low) : Laid st en top low' l := by
  cases l with
  | nil => exact Nat.le_trans hl h
  | cons x xs => exact ⟨Nat.le_trans hl h.1,h.2⟩

theorem Laid.filter (h : Laid st en top low l) (p : α → Bool) :
    Laid st en top low (l.filter p) := by
  induction l generalizing low with
  | nil => exact h
  | cons x xs ih =>
    have hr := ih h.2.2
    cases hp : p x with
    | true => simpa [List.filter_cons,hp,Laid] using ⟨h.1,h.2.1,hr⟩
    | false =>
      simp only [List.filter_cons,hp,Bool.false_eq_true,↓reduceIte]
      exact hr.lower (Nat.le_trans h.1 (Nat.le_of_lt h.2.1))

theorem Laid.room_add_used (h : Laid st en top low l) :
    room st en top low l + used st en l = top - low := by
  induction l generalizing low with
  | nil => simp [room,gaps,used]
  | cons x xs ih =>
    have hx := ih h.2.2
    have htop := h.2.2.low_le
    have := h.1
    have := h.2.1
    simp only [room,gaps,used,List.sum_cons,List.map_cons] at hx ⊢
    omega

theorem used_insert : used st en (xs ++ x :: ys) = used st en (xs ++ ys) + (en x - st x) := by
  simp only [used,List.map_append,List.map_cons,List.sum_append,List.sum_cons]
  omega

theorem largest_cons : largest st en top low (x :: xs) =
    max (st x - low) (largest st en top (en x) xs) := rfl

theorem Laid.first_gap_le (h : Laid st en top low l) (hl : low' ≤ low) :
    low - low' ≤ largest st en top low' l := by
  cases l with
  | nil =>
    have hle : low ≤ top := h
    simp only [largest,gaps,List.foldr]
    omega
  | cons x xs =>
    have := h.1
    rw [largest_cons]
    omega

theorem Laid.largest_le_filter (h : Laid st en top low l) (p : α → Bool) (hl : low' ≤ low) :
    largest st en top low l ≤ largest st en top low' (l.filter p) := by
  induction l generalizing low low' with
  | nil =>
    simp only [List.filter_nil,largest,gaps,List.foldr]
    omega
  | cons x xs ih =>
    have hlow := h.1
    have hpos := h.2.1
    cases hp : p x with
    | true =>
      simp only [List.filter_cons,hp,↓reduceIte,largest_cons]
      have := ih h.2.2 (Nat.le_refl (en x))
      omega
    | false =>
      simp only [List.filter_cons,hp,Bool.false_eq_true,↓reduceIte,largest_cons]
      have hl' : low' ≤ en x := by omega
      have hrest := ih h.2.2 hl'
      have hfirst := (h.2.2.filter p).first_gap_le hl'
      omega

theorem le_largest : ∀ g ∈ gaps st en top low l, g ≤ largest st en top low l := by
  induction l generalizing low with
  | nil => simp [gaps,largest]
  | cons x xs ih =>
    intro g hg
    rw [largest_cons]
    rcases List.mem_cons.mp hg with rfl | hg
    · exact Nat.le_max_left _ _
    · exact Nat.le_trans (ih g hg) (Nat.le_max_right _ _)

theorem largest_mem : largest st en top low l ∈ gaps st en top low l := by
  induction l generalizing low with
  | nil => simp [gaps,largest]
  | cons x xs ih =>
    rw [largest_cons]
    rcases Nat.le_total (st x - low) (largest st en top (en x) xs) with h | h
    · rw [Nat.max_eq_right h]
      exact List.mem_cons_of_mem _ ih
    · rw [Nat.max_eq_left h]
      exact List.mem_cons_self

section Map

theorem Laid.map (h : Laid st en top low l) (hs : ∀ x, st (f x) = st x)
    (he : ∀ x, en (f x) = en x) : Laid st en top low (l.map f) := by
  induction l generalizing low with
  | nil => exact h
  | cons x xs ih =>
    refine ⟨(hs x).symm ▸ h.1,?_,?_⟩
    · rw [hs,he]
      exact h.2.1
    · rw [he]
      exact ih h.2.2

theorem gaps_map (hs : ∀ x, st (f x) = st x) (he : ∀ x, en (f x) = en x) :
    gaps st en top low (l.map f) = gaps st en top low l := by
  induction l generalizing low with
  | nil => rfl
  | cons x xs ih => simp only [List.map_cons,gaps,hs,he,ih]

end Map

theorem Laid.separated (h : Laid st en top low l) :
    (∀ x ∈ l, low ≤ st x ∧ st x < en x ∧ en x ≤ top) ∧
      l.Pairwise (fun x y => en x ≤ st y) := by
  induction l generalizing low with
  | nil => simp
  | cons x xs ih =>
    obtain ⟨hin,hsep⟩ := ih h.2.2
    have htop := h.2.2.low_le
    have hlow := h.1
    have hpos := h.2.1
    refine ⟨?_,List.pairwise_cons.mpr ⟨fun y hy => (hin y hy).1,hsep⟩⟩
    intro y hy
    rcases List.mem_cons.mp hy with rfl | hy
    · exact ⟨hlow,hpos,htop⟩
    · obtain ⟨h1,h2,h3⟩ := hin y hy
      exact ⟨by omega,h2,h3⟩

theorem Laid.le_lastEnd (h : Laid st en top low l) :
    low ≤ lastEnd en low l ∧ ∀ x ∈ l, en x ≤ lastEnd en low l := by
  induction l generalizing low with
  | nil => exact ⟨Nat.le_refl low,by simp⟩
  | cons x xs ih =>
    obtain ⟨hlow,hall⟩ := ih h.2.2
    have := h.1
    have := h.2.1
    refine ⟨by simp only [lastEnd]; omega,?_⟩
    intro y hy
    rcases List.mem_cons.mp hy with rfl | hy
    · exact hlow
    · exact hall y hy

theorem Laid.free_cut (h : Laid st en top low (xs ++ ys))
    (hn : lastEnd en low xs + n ≤ firstStart st top ys) :
    Free st en top low (xs ++ ys) n (lastEnd en low xs) := by
  obtain ⟨hl,hr⟩ := laid_append.mp h
  obtain ⟨hlow,hleft⟩ := hl.le_lastEnd
  have hright : firstStart st top ys ≤ top ∧ ∀ y ∈ ys, firstStart st top ys ≤ st y := by
    cases ys with
    | nil => exact ⟨Nat.le_refl top,by simp⟩
    | cons y ys =>
      obtain ⟨hin,hsep⟩ := hr.separated
      obtain ⟨_,hpos,hle⟩ := hin y List.mem_cons_self
      refine ⟨Nat.le_of_lt (Nat.lt_of_lt_of_le hpos hle),?_⟩
      intro w hw
      rcases List.mem_cons.mp hw with rfl | hw
      · exact Nat.le_refl _
      · exact Nat.le_trans (Nat.le_of_lt hpos) ((List.pairwise_cons.mp hsep).1 w hw)
  refine ⟨hlow,Nat.le_trans hn hright.1,?_⟩
  intro x hx
  rcases List.mem_append.mp hx with hx | hx
  · exact Or.inr (hleft x hx)
  · exact Or.inl (Nat.le_trans hn (hright.2 x hx))

theorem Free.behind (h : Free st en top low (x :: xs) n z) (hn : st x - low < n) :
    Free st en top (en x) xs n z := by
  obtain ⟨hlow,htop,hall⟩ := h
  refine ⟨?_,htop,fun y hy => hall y (List.mem_cons_of_mem _ hy)⟩
  have := hall x List.mem_cons_self
  omega

theorem Laid.le_largest_iff (h : Laid st en top low l) (hn : 0 < n) :
    n ≤ largest st en top low l ↔ ∃ z, Free st en top low l n z := by
  induction l generalizing low with
  | nil =>
    have hle : low ≤ top := h
    simp only [largest,gaps,List.foldr,Free]
    constructor
    · intro hl
      exact ⟨low,Nat.le_refl low,by omega,by simp⟩
    · rintro ⟨z,hz,ht,_⟩
      omega
  | cons x xs ih =>
    have hx := h.1
    rw [largest_cons,le_max_iff,ih h.2.2]
    constructor
    · rintro (hl | ⟨z,hz,ht,hall⟩)
      · have h' : Laid st en top low ([] ++ x :: xs) := h
        exact ⟨low,h'.free_cut (by simp only [lastEnd,firstStart]; omega)⟩
      refine ⟨z,by have := h.2.1; omega,ht,?_⟩
      intro y hy
      rcases List.mem_cons.mp hy with rfl | hy
      · exact Or.inr hz
      · exact hall y hy
    · rintro ⟨z,hz⟩
      rcases Nat.lt_or_ge (st x - low) n with hlt | hge
      · exact Or.inr ⟨z,hz.behind hlt⟩
      · exact Or.inl hge

end Gaps
