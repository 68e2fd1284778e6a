import Apc8750.Library.Scans
import Apc8750.Vpp.Model
import Mathlib.Tactic.Linarith

namespace Apc8750.Vpp
open Scans Whiles

variable {v min p q : Int} {best : Fraction} {seen : Set (Int × Int)}

def StopsAt (v q : Int) : Prop := 2 ≤ q ∧ (∀ p, 1 ≤ p → p < q → share p q ≤ v) ∧ share (q - 1) q = v

def tried (v min : Int) : Set (Int × Int) :=
  {x | (1 ≤ x.1 ∧ x.1 < x.2 ∧ x.2 ≤ min) ∧ (∀ p, 1 ≤ p → p ≤ x.1 → share p x.2 ≤ v) ∧
    ∀ q < x.2, ¬ StopsAt v q}

def Before (x y : Int × Int) : Prop := x.2 < y.2 ∨ x.2 = y.2 ∧ x.1 < y.1

def gap (v : Int) (x : Int × Int) : Int := miss v (share x.1 x.2)

/-- The first one tried with the least difference, `1/min` if none is nearer. -/
def Nearest (v min p q : Int) : Prop :=
  ∃ o, Kept (gap v) Before v (tried v min) o ∧ (p, q) = o.getD (1, min)

theorem before_total (x y : Int × Int) : x = y ∨ Before x y ∨ Before y x := by
  rcases lt_trichotomy x.2 y.2 with lt | eq | gt
  · exact .inr (.inl (.inl lt))
  · rcases lt_trichotomy x.1 y.1 with lt | eq' | gt
    · exact .inr (.inl (.inr ⟨eq,lt⟩))
    · exact .inl (Prod.ext eq' eq)
    · exact .inr (.inr (.inr ⟨eq.symm,gt⟩))
  · exact .inr (.inr (.inl gt))

theorem Nearest.unique {p' q' : Int} (h : Nearest v min p q) (h' : Nearest v min p' q') : p = p' ∧ q = q' := by
  obtain ⟨o,kept,eq⟩ := h
  obtain ⟨o',kept',eq'⟩ := h'
  rw [kept.unique before_total kept',← eq'] at eq
  exact Prod.ext_iff.mp eq

theorem Nearest.range (two : 2 ≤ min) (h : Nearest v min p q) : 1 ≤ p ∧ p < q ∧ q ≤ min := by
  obtain ⟨o,kept,eq⟩ := h
  cases o with
  | none =>
    cases eq
    omega
  | some x =>
    cases eq
    exact kept.1.1

def held (v min : Int) : Option (Int × Int) → Fraction
  | none => ⟨v, 1, min⟩
  | some x => ⟨gap v x, x.1, x.2⟩

def Holds (v min : Int) (seen : Set (Int × Int)) (best : Fraction) : Prop :=
  ∃ o, Kept (gap v) Before v seen o ∧ best = held v min o

theorem Holds.insert (h : Holds v min seen best) (behind : ∀ x ∈ seen, Before x (p,q)) :
    Holds v min (insert (p,q) seen)
      (if gap v (p,q) < best.diff then ⟨gap v (p,q),p,q⟩ else best) := by
  obtain ⟨o,kept,rfl⟩ := h
  have later : ∀ x ∈ seen, ¬ Before (p,q) x := by
    intro x mem earlier
    have first := behind x mem
    simp only [Before] at first earlier
    omega
  have irrefl : ¬ Before (p,q) (p,q) := by
    simp [Before]
  refine ⟨_,Kept.insert kept later irrefl,?_⟩
  have diff : (held v min o).diff = least (gap v) v o := by
    cases o with
    | none => rw [least_none,held]
    | some x => rw [least_some,held]
  rw [diff]
  by_cases less : gap v (p,q) < least (gap v) v o
  · simp only [if_pos less,held]
  · simp only [if_neg less]

def row (v q p : Int) (n : Nat) : Set (Int × Int) :=
  {x | x.2 = q ∧ p ≤ x.1 ∧ x.1 < p + n ∧ ∀ r, p ≤ r → r ≤ x.1 → share r q ≤ v}

theorem row_zero : row v q p 0 = ∅ := by
  ext x
  simp only [row,Set.mem_ofPred_eq,Set.mem_empty_iff_false,iff_false,Nat.cast_zero]
  omega

theorem row_above {n : Nat} (above : v < share p q) : row v q p n = ∅ := by
  ext x
  simp only [row,Set.mem_ofPred_eq,Set.mem_empty_iff_false,iff_false]
  rintro ⟨_,low,_,below⟩
  exact absurd (below p le_rfl low) (not_le.mpr above)

theorem row_succ {n : Nat} (below : share p q ≤ v) :
    row v q p (n + 1) = insert (p,q) (row v q (p + 1) n) := by
  ext ⟨a,b⟩
  simp only [row,Set.mem_ofPred_eq,Set.mem_insert_iff,Prod.mk.injEq,Nat.cast_add,Nat.cast_one]
  constructor
  · rintro ⟨rfl,low,high,all⟩
    by_cases first : a = p
    · exact .inl ⟨first,rfl⟩
    · exact .inr ⟨rfl,by omega,by omega,fun r hr hr' => all r (by omega) hr'⟩
  rintro (⟨rfl,rfl⟩ | ⟨rfl,low,high,all⟩)
  · refine ⟨rfl,le_rfl,by omega,fun r hr hr' => ?_⟩
    rwa [le_antisymm hr' hr]
  refine ⟨rfl,by omega,by omega,fun r hr hr' => ?_⟩
  rcases eq_or_lt_of_le hr with rfl | lt
  · exact below
  · exact all r (by omega) hr'

theorem numerators_holds (n : Nat) {val2 : Int} (h : Holds v min seen best) (behind : ∀ x ∈ seen, Before x (p,q)) :
    Holds v min (seen ∪ row v q p n) (numerators v q n p best val2).1 := by
  induction n generalizing p best val2 seen with
  | zero =>
    rw [row_zero,Set.union_empty]
    exact h
  | succ n ih =>
    simp only [numerators]
    split
    · rename_i above
      rw [row_above above,Set.union_empty]
      exact h
    rename_i below
    push Not at below
    rw [row_succ below,Set.union_insert,← Set.insert_union]
    refine ih (h.insert behind) fun x mem => ?_
    rcases mem with rfl | mem
    · exact .inr ⟨rfl,by simp⟩
    · rcases behind x mem with lt | ⟨eq,lt⟩
      · exact .inl lt
      · exact .inr ⟨eq,by simp only at lt ⊢; omega⟩

theorem numerators_last (n : Nat) (some : 0 < n) : (numerators v q n p best val2).2 = v ↔
    (∀ r, p ≤ r → r < p + n → share r q ≤ v) ∧ share (p + n - 1) q = v := by
  induction n generalizing p best val2 with
  | zero => exact absurd some (lt_irrefl 0)
  | succ n ih =>
    simp only [numerators]
    split
    · rename_i above
      refine iff_of_false (ne_of_gt above) fun all => ?_
      exact absurd (all.1 p le_rfl (by omega)) (not_le.mpr above)
    rename_i below
    push Not at below
    cases n with
    | zero =>
      simp only [numerators,Nat.cast_one,zero_add,add_sub_cancel_right]
      refine ⟨fun eq => ⟨fun r hr hr' => ?_,eq⟩,And.right⟩
      obtain rfl : r = p := by omega
      exact below
    | succ n =>
      rw [ih (Nat.succ_pos n),show p + 1 + ((n + 1 : Nat) : Int) - 1 = p + ((n + 1 + 1 : Nat) : Int) - 1 by omega]
      refine and_congr_left' ⟨fun all r hr hr' => ?_,fun all r hr hr' => all r (by omega) (by omega)⟩
      rcases eq_or_lt_of_le hr with rfl | lt
      · exact below
      · exact all r (by omega) (by omega)

def triedBelow (v min q : Int) : Set (Int × Int) := {x | x ∈ tried v min ∧ x.2 < q}

theorem triedBelow_two : triedBelow v min 2 = ∅ := by
  ext x
  simp only [triedBelow,tried,Set.mem_ofPred_eq,Set.mem_empty_iff_false,iff_false]
  omega

theorem triedBelow_succ (two : 2 ≤ q) (le : q ≤ min) (before : ∀ q' < q, ¬ StopsAt v q') :
    triedBelow v min (q + 1) = triedBelow v min q ∪ row v q 1 (q - 1).toNat := by
  have count : (1 : Int) + ((q - 1).toNat : Int) = q := by omega
  ext ⟨a,b⟩
  simp only [triedBelow,tried,row,Set.mem_ofPred_eq,Set.mem_union,count]
  constructor
  · rintro ⟨⟨range,below,stops⟩,lt⟩
    by_cases last : b = q
    · rw [last] at range below
      exact .inr ⟨last,range.1,range.2.1,below⟩
    · exact .inl ⟨⟨range,below,stops⟩,by omega⟩
  · rintro (⟨inside,lt⟩ | ⟨rfl,low,high,below⟩)
    · exact ⟨inside,by omega⟩
    · exact ⟨⟨⟨low,high,le⟩,below,before⟩,by omega⟩

theorem triedBelow_all (past : min < q ∨ ∃ q' < q, StopsAt v q') : triedBelow v min q = tried v min := by
  ext x
  refine ⟨And.left,fun mem => ⟨mem,?_⟩⟩
  obtain ⟨range,_,stops⟩ := mem
  by_contra high
  rcases past with past | ⟨q',lt,stop⟩
  · omega
  · exact stops q' (by omega) stop

theorem triedBelow_before (x : Int × Int) (mem : x ∈ triedBelow v min q) : Before x (1,q) := .inl mem.2

theorem Holds.nearest (h : Holds v min (tried v min) best) : Nearest v min best.p best.q := by
  obtain ⟨o,kept,rfl⟩ := h
  refine ⟨o,kept,?_⟩
  cases o <;> rw [held] <;> rfl

structure Searching (v min : Int) (s : Search) : Prop where
  two : 2 ≤ s.q
  inside : s.q ≤ min + 1
  before : ∀ q' < s.q, ¬ StopsAt v q'
  holds : Holds v min (triedBelow v min s.q) s.best

theorem searching_start (two : 2 ≤ min) : Searching v min ⟨2,⟨v,1,min⟩,v⟩ where
  two := le_rfl
  inside := by
    simp only
    omega
  before q' lt stop := absurd stop.1 (not_le.mpr lt)
  holds := by
    rw [triedBelow_two]
    exact ⟨none,kept_empty,by rw [held]⟩

theorem stopsAt_iff {val2 : Int} (two : 2 ≤ q) :
    (numerators v q (q - 1).toNat 1 best val2).2 = v ↔ StopsAt v q := by
  have count : (1 : Int) + ((q - 1).toNat : Int) = q := by omega
  rw [numerators_last _ (by omega),count,StopsAt]
  exact ⟨fun h => ⟨two,h⟩,And.right⟩

theorem Searching.round {s : Search} (h : Searching v min s) :
    (∃ best, denominator v min s = some (.inr best) ∧ Nearest v min best.p best.q) ∨
    s.q ≤ min ∧ ¬ StopsAt v s.q ∧ ∃ best val2, denominator v min s = some (.inl ⟨wrap (s.q + 1),best,val2⟩) ∧
      Searching v min ⟨s.q + 1,best,val2⟩ := by
  unfold denominator
  by_cases le : s.q ≤ min
  · have next : Holds v min (triedBelow v min (s.q + 1)) (numerators v s.q (s.q - 1).toNat 1 s.best s.val2).1 := by
      rw [triedBelow_succ h.two le h.before]
      exact numerators_holds _ h.holds triedBelow_before
    have stops : (numerators v s.q (s.q - 1).toNat 1 s.best s.val2).2 = v ↔ StopsAt v s.q := stopsAt_iff h.two
    simp only [if_pos le]
    by_cases stop : StopsAt v s.q
    · rw [if_pos (stops.mpr stop).symm]
      rw [triedBelow_all (.inr ⟨s.q,lt_add_one _,stop⟩)] at next
      exact .inl ⟨_,rfl,next.nearest⟩
    rw [if_neg fun eq => stop (stops.mp eq.symm)]
    refine .inr ⟨le,stop,_,_,rfl,by simp only; linarith [h.two],by simp only; omega,fun q' lt => ?_,next⟩
    rcases eq_or_lt_of_le (Int.lt_add_one_iff.mp lt) with rfl | lt'
    · exact stop
    · exact h.before q' lt'
  · have all := h.holds
    rw [triedBelow_all (.inl (not_le.mp le))] at all
    exact .inl ⟨s.best,if_neg le,all.nearest⟩

def SearchEnds (v min : Int) : Prop := min < 2 ^ 31 - 1 ∨ ∃ q ≤ min, StopsAt v q

theorem search_ends (two : 2 ≤ min) (int : min < 2 ^ 31) (ends : SearchEnds v min) :
    ∃ best, Ends (denominator v min) ⟨2,⟨v,1,min⟩,v⟩ best ∧ Nearest v min best.p best.q := by
  refine ends_of_measure (I := Searching v min) (fun s => (min + 1 - s.q).toNat) (fun s h => ?_)
    (searching_start two)
  rcases h.round with done | ⟨le,stop,best,val2,step,next⟩
  · exact .inr done
  have room : s.q + 1 < 2 ^ 31 := by
    rcases ends with small | ⟨q,hq,stops⟩
    · omega
    by_contra top
    obtain rfl : q = s.q := by
      have low : ¬ q < s.q := fun lt => h.before q lt stops
      omega
    exact stop stops
  rw [wrap_eq (by have := h.two; omega) room] at step
  exact .inl ⟨_,step,next,by simp only; omega⟩

theorem search_runs (two : 2 ≤ min) (int : min < 2 ^ 31) (runs : ¬ SearchEnds v min) :
    ¬ Ends (denominator v min) ⟨2,⟨v,1,min⟩,v⟩ best := by
  simp only [SearchEnds,not_or,not_exists,not_and] at runs
  obtain ⟨top,never⟩ := runs
  refine not_ends (I := fun s => s.q < 2 ^ 31 ∧ (2 ≤ s.q ∨ s.val2 ≠ v)) (fun s h => ?_) ⟨show (2 : Int) < 2 ^ 31 by decide,.inl le_rfl⟩
  have le : s.q ≤ min := by omega
  have miss : (numerators v s.q (s.q - 1).toNat 1 s.best s.val2).2 ≠ v := by
    by_cases high : 2 ≤ s.q
    · rw [Ne,stopsAt_iff high]
      exact never s.q le
    · rw [show (s.q - 1).toNat = 0 by omega]
      exact h.2.resolve_left high
  refine ⟨⟨wrap (s.q + 1),(numerators v s.q (s.q - 1).toNat 1 s.best s.val2).1,_⟩,?_,wrap_lt _,.inr miss⟩
  unfold denominator
  simp only [if_pos le,if_neg miss.symm]

theorem nearest_some {fuel : Nat} (two : 2 ≤ min) (int : min < 2 ^ 31) (h : nearest fuel v min = some best) :
    SearchEnds v min ∧ Nearest v min best.p best.q := by
  have ends : SearchEnds v min := by
    by_contra runs
    exact search_runs two int runs ⟨fuel,h⟩
  obtain ⟨best',done,near⟩ := search_ends two int ends
  cases Ends.unique ⟨fuel,h⟩ done
  exact ⟨ends,near⟩

end Apc8750.Vpp
