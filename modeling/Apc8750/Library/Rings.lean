import Mathlib.Data.List.Nodup

namespace Rings

variable {α : Type*}

/-- The pointers of a doubly linked list, `none` where nothing may be followed. -/
structure Links (α : Type*) where
  next : α → Option α
  prev : α → Option α

variable {L : Links α} {a b e h p x : α} {l m : List α} {n : Nat}

/-- The nodes `l` lead from `a` to `b`, and back. -/
def Path (L : Links α) : α → List α → α → Prop
  | a, [], b => L.next a = some b ∧ L.prev b = some a
  | a, x :: l, b => L.next a = some x ∧ L.prev x = some a ∧ Path L x l b

structure Ring (L : Links α) (h : α) (l : List α) : Prop where
  nodup : (h :: l).Nodup
  path : Path L h l h

theorem path_append : Path L a (l ++ x :: m) b ↔ Path L a l x ∧ Path L x m b := by
  induction l generalizing a with
  | nil => simp only [List.nil_append,Path,and_assoc]
  | cons y l ih => simp only [List.cons_append,Path,ih,and_assoc]

theorem Path.congr {L' : Links α} (hp : Path L a l b) (hnext : ∀ y ∈ a :: l, L'.next y = L.next y)
    (hprev : ∀ y ∈ l ++ [b], L'.prev y = L.prev y) : Path L' a l b := by
  induction l generalizing a with
  | nil =>
    exact ⟨(hnext a List.mem_cons_self).trans hp.1,(hprev b List.mem_cons_self).trans hp.2⟩
  | cons y l ih =>
    refine ⟨(hnext a List.mem_cons_self).trans hp.1,(hprev y List.mem_cons_self).trans hp.2.1,?_⟩
    exact ih hp.2.2 (fun z hz => hnext z (List.mem_cons_of_mem _ hz))
      (fun z hz => hprev z (List.mem_cons_of_mem _ hz))

theorem Path.first (hp : Path L a l b) : ∃ p ∈ l ++ [b], L.next a = some p := by
  cases l with
  | nil => exact ⟨b,List.mem_cons_self,hp.1⟩
  | cons y l => exact ⟨y,List.mem_cons_self,hp.1⟩

theorem Ring.rotate (hr : Ring L h (l ++ e :: m)) : Path L e (m ++ h :: l) e := by
  obtain ⟨hl,hm⟩ := path_append.mp hr.path
  exact path_append.mpr ⟨hm,hl⟩

variable [DecidableEq α]

def Links.setNext (L : Links α) (a : α) (b : Option α) : Links α :=
  { L with next := Function.update L.next a b }

def Links.setPrev (L : Links α) (a : α) (b : Option α) : Links α :=
  { L with prev := Function.update L.prev a b }

def addTail (L : Links α) (new head : α) : Option (Links α) :=
  match L.prev head with
  | none => none
  | some tail => some ((((L.setPrev head (some new)).setNext new (some head)).setPrev new
      (some tail)).setNext tail (some new))

/-- Take a node off its list; its own pointers may not be followed afterwards. -/
def del (L : Links α) (e : α) : Option (Links α) :=
  match L.prev e, L.next e with
  | some p, some n => some ((((L.setPrev n (some p)).setNext p (some n)).setNext e none).setPrev e
      none)
  | _, _ => none

theorem Path.addTail (hp : Path L a l b) (hn : (a :: l).Nodup) (hb : b ∉ l) (hx : x ∉ a :: l)
    (hxb : x ≠ b) :
    ∃ L', addTail L x b = some L' ∧ Path L' a (l ++ [x]) b ∧ (∀ y ∉ x :: a :: l,
      L'.next y = L.next y) ∧ ∀ y, y ≠ x → y ≠ b → L'.prev y = L.prev y := by
  induction l generalizing a with
  | nil =>
    have hxa : x ≠ a := fun he => hx (he ▸ List.mem_cons_self)
    unfold Rings.addTail
    rw [hp.2]
    refine ⟨_,rfl,?_,?_,?_⟩
    · simp [Path,Links.setNext,Links.setPrev,hxb.symm,hxa]
    · intro y hy
      simp only [List.mem_cons,List.not_mem_nil,or_false,not_or] at hy
      simp [Links.setNext,Links.setPrev,hy.1,hy.2]
    · intro y hyx hyb
      simp [Links.setNext,Links.setPrev,hyx,hyb]
  | cons z l ih =>
    obtain ⟨haz,hn⟩ := List.nodup_cons.mp hn
    rw [List.mem_cons,not_or] at hx hb
    obtain ⟨L',hadd,hpath,hnext,hprev⟩ := ih hp.2.2 hn hb.2 hx.2
    refine ⟨L',hadd,⟨?_,?_,hpath⟩,?_,hprev⟩
    · rw [hnext a (by simp [Ne.symm hx.1,haz]),hp.1]
    · have hzx : z ≠ x := fun he => hx.2 (he ▸ List.mem_cons_self)
      rw [hprev z hzx (Ne.symm hb.1),hp.2.1]
    · exact fun y hy => hnext y (by simp only [List.mem_cons,not_or] at hy ⊢; exact ⟨hy.1,hy.2.2⟩)

theorem Ring.addTail (hr : Ring L h l) (hx : x ∉ h :: l) :
    ∃ L', Rings.addTail L x h = some L' ∧ Ring L' h (l ++ [x]) := by
  have hh := (List.nodup_cons.mp hr.nodup).1
  obtain ⟨L',hadd,hpath,_⟩ := hr.path.addTail hr.nodup hh hx
    (fun he => hx (he ▸ List.mem_cons_self))
  refine ⟨L',hadd,?_,hpath⟩
  rw [← List.cons_append,List.nodup_append]
  refine ⟨hr.nodup,List.nodup_singleton x,?_⟩
  rintro y hy z hz rfl
  exact hx (List.mem_singleton.mp hz ▸ hy)

theorem Path.del (hp : Path L a (l ++ e :: m) b) (hn : (a :: (l ++ e :: m)).Nodup)
    (hb : b ∉ l ++ e :: m) :
    ∃ L', del L e = some L' ∧ Path L' a (l ++ m) b ∧ (∀ y ∉ e :: a :: l, L'.next y = L.next y) ∧
      ∀ y ∉ e :: (m ++ [b]), L'.prev y = L.prev y := by
  induction l generalizing a with
  | nil =>
    rw [List.nil_append] at hp hn hb
    obtain ⟨hnext,hprev,hrest⟩ := hp
    obtain ⟨ha,he⟩ := List.nodup_cons.mp hn
    obtain ⟨hem,hm⟩ := List.nodup_cons.mp he
    rw [List.mem_cons,not_or] at ha hb
    obtain ⟨n,hnm,hnext'⟩ := hrest.first
    have hne : n ≠ e := by
      rintro rfl
      rcases List.mem_append.mp hnm with h | h
      · exact hem h
      · exact hb.1 (List.mem_singleton.mp h).symm
    unfold Rings.del
    rw [hprev,hnext']
    refine ⟨_,rfl,?_,?_,?_⟩
    · cases m with
      | nil =>
        cases hrest.1.symm.trans hnext'
        simp [Path,Links.setNext,Links.setPrev,ha.1,hb.1]
      | cons z m =>
        cases hrest.1.symm.trans hnext'
        obtain ⟨hzm,_⟩ := List.nodup_cons.mp hm
        refine ⟨by simp [Links.setNext,Links.setPrev,ha.1],?_,?_⟩
        · simp [Links.setNext,Links.setPrev,hne]
        refine hrest.2.2.congr ?_ ?_
        · intro y hy
          have hya : y ≠ a := fun he => ha.2 (he ▸ hy)
          have hye : y ≠ e := fun he => hem (he ▸ hy)
          simp [Links.setNext,Links.setPrev,hya,hye]
        intro y hy
        have hyn : y ≠ n := by
          rintro rfl
          rcases List.mem_append.mp hy with h | h
          · exact hzm h
          · exact hb.2 (List.mem_singleton.mp h ▸ List.mem_cons_self)
        have hye : y ≠ e := by
          rintro rfl
          rcases List.mem_append.mp hy with h | h
          · exact hem (List.mem_cons_of_mem _ h)
          · exact hb.1 (List.mem_singleton.mp h).symm
        simp [Links.setNext,Links.setPrev,hyn,hye]
    · intro y hy
      simp only [List.mem_cons,List.not_mem_nil,or_false,not_or] at hy
      simp [Links.setNext,Links.setPrev,hy.1,hy.2]
    · intro y hy
      rw [List.mem_cons,not_or] at hy
      have hyn : y ≠ n := fun he => hy.2 (he ▸ hnm)
      simp [Links.setNext,Links.setPrev,hy.1,hyn]
  | cons z l ih =>
    obtain ⟨haz,hn⟩ := List.nodup_cons.mp hn
    rw [List.cons_append] at hn
    rw [List.cons_append,List.mem_cons,not_or] at hb haz
    obtain ⟨L',hdel,hpath,hnext,hprev⟩ := ih hp.2.2 hn hb.2
    obtain ⟨hz,_⟩ := List.nodup_cons.mp hn
    simp only [List.mem_append,List.mem_cons,not_or] at haz hz hb
    refine ⟨L',hdel,⟨?_,?_,hpath⟩,?_,hprev⟩
    · rw [hnext a (by simp [haz]),hp.1]
    · have hzb : z ≠ b := Ne.symm hb.1
      rw [hprev z (by simp [hz.2.1,hz.2.2,hzb]),hp.2.1]
    · intro y hy
      simp only [List.mem_cons,not_or] at hy
      exact hnext y (by simp [hy])

theorem Ring.del (hr : Ring L h (l ++ e :: m)) :
    ∃ L', Rings.del L e = some L' ∧ Ring L' h (l ++ m) := by
  have hh := (List.nodup_cons.mp hr.nodup).1
  obtain ⟨L',hdel,hpath,_⟩ := hr.path.del hr.nodup hh
  have hsub : (h :: (l ++ m)).Sublist (h :: (l ++ e :: m)) :=
    ((List.sublist_cons_self e m).append_left l).cons_cons h
  exact ⟨L',hdel,hr.nodup.sublist hsub,hpath⟩

def following (L : Links α) (head : α) : Nat → α → List α
  | 0, _ => []
  | n + 1, a => match L.next a with
    | none => []
    | some b => if b = head then [] else b :: following L head n b

theorem Path.following (hp : Path L a l h) (hh : h ∉ l) (hn : l.length < n) :
    following L h n a = l := by
  induction l generalizing a n with
  | nil =>
    obtain ⟨n,rfl⟩ := Nat.exists_eq_succ_of_ne_zero (Nat.ne_of_gt hn)
    simp only [Rings.following,hp.1,↓reduceIte]
  | cons x l ih =>
    obtain ⟨n,rfl⟩ := Nat.exists_eq_succ_of_ne_zero (Nat.ne_of_gt (Nat.zero_lt_of_lt hn))
    rw [List.mem_cons,not_or] at hh
    simp only [Rings.following,hp.1,if_neg (Ne.symm hh.1)]
    rw [ih hp.2.2 hh.2 (Nat.lt_of_succ_lt_succ hn)]

theorem Ring.following (hr : Ring L h l) (hn : l.length < n) : Rings.following L h n h = l :=
  hr.path.following (List.nodup_cons.mp hr.nodup).1 hn

theorem Ring.behind (hr : Ring L h (l ++ e :: m)) (hn : m.length < n) :
    Rings.following L h n e = m := by
  have hh := (List.nodup_cons.mp hr.nodup).1
  rw [List.mem_append,List.mem_cons,not_or,not_or] at hh
  exact (path_append.mp hr.path).2.following hh.2.2 hn

end Rings
