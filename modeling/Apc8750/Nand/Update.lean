import Apc8750.Nand.Bbt

namespace Apc8750.Nand

variable {n last i j p q : Nat} {ops : Ops} {m m' m'' : Memory} {c : Content} {L : List Nat}
  {need need' : Bool} {pattern : Pattern} {works : Nat → Prop} {left : Nat → Content → Prop}

theorem mem_tableBlocks : i ∈ tableBlocks n last ↔ n - bbtMaxBlock ≤ i ∧ i < last := by
  simp only [tableBlocks,List.mem_range'_1]
  omega

theorem tableBlocks_nodup (n last : Nat) : (tableBlocks n last).Nodup := List.nodup_range'

theorem tableBlocks_falling (n last : Nat) : (tableBlocks n last).reverse.Pairwise (· > ·) := by
  rw [List.pairwise_reverse]
  exact List.pairwise_lt_range'

structure Same (m m' : Memory) (i : Nat) : Prop where
  flash : m'.flash i = m.flash i
  bad : isbbtbadblock m'.bbt i = isbbtbadblock m.bbt i

theorem Same.refl (m : Memory) (i : Nat) : Same m m i := ⟨rfl,rfl⟩

theorem Same.trans (h : Same m m' i) (h' : Same m' m'' i) : Same m m'' i :=
  ⟨h'.flash.trans h.flash,h'.bad.trans h.bad⟩

namespace Memory

@[simp]
theorem put_self : (m.put i c).flash i = c := Function.update_self ..

theorem put_other (h : j ≠ i) : (m.put i c).flash j = m.flash j := Function.update_of_ne h ..

@[simp]
theorem put_bbt : (m.put i c).bbt = m.bbt := rfl

@[simp]
theorem put_copy : (m.put i c).copy pattern = m.copy pattern := rfl

@[simp]
theorem mark_bbt : (m.mark i).bbt = updateBbtInram m.bbt i := rfl

@[simp]
theorem mark_flash : (m.mark i).flash = m.flash := rfl

@[simp]
theorem fresh_bbt : (m.fresh need).bbt = m.bbt := by cases need <;> rfl

@[simp]
theorem fresh_flash : (m.fresh need).flash = m.flash := by cases need <;> rfl

theorem put_same (h : j ≠ i) : Same m (m.put i c) j := ⟨put_other h,rfl⟩

end Memory

structure Retired (left : Nat → Content → Prop) (m : Memory) (i : Nat) (m' : Memory) : Prop where
  bad : isbbtbadblock m'.bbt i = true
  left : left i (m'.flash i)
  others : ∀ j ≠ i, Same m m' j

theorem retired (h : left i c) (need : Bool) : Retired left m i (((m.put i c).mark i).fresh need) := by
  refine ⟨by simp,by simpa using h,fun j hj => ⟨?_,?_⟩⟩
  · simpa using Memory.put_other hj
  · simpa using isbbtbadblock_other m.bbt hj

theorem retired_mark (h : left i c) : Retired left m i ((m.put i c).mark i) := retired h true

structure Spent (works : Nat → Prop) (left : Nat → Content → Prop) (m : Memory) (i : Nat) (m' : Memory) :
    Prop where
  bad : isbbtbadblock m'.bbt i = true
  cause : isbbtbadblock m.bbt i = true ∧ m'.flash i = m.flash i ∨
    isbbtbadblock m.bbt i = false ∧ ¬ works i ∧ left i (m'.flash i)

/-- The first block of the falling list `L` that is good and works has got a copy. -/
structure Placed (pattern : Pattern) (works : Nat → Prop) (left : Nat → Content → Prop) (L : List Nat)
    (m : Memory) (p : Nat) (m' : Memory) : Prop where
  mem : p ∈ L
  able : works p
  good : isbbtbadblock m.bbt p = false
  stays : isbbtbadblock m'.bbt p = false
  holds : m'.flash p = m'.copy pattern
  above : ∀ i ∈ L, p < i → Spent works left m i m'
  below : ∀ i, i ∉ L ∨ i < p → Same m m' i

structure Exhausted (works : Nat → Prop) (left : Nat → Content → Prop) (L : List Nat) (m m' : Memory) :
    Prop where
  all : ∀ i ∈ L, Spent works left m i m'
  outside : ∀ i, i ∉ L → Same m m' i

theorem Spent.of_same (h : Spent works left m' i m'') (hs : Same m m' i) : Spent works left m i m'' :=
  ⟨h.bad,by rw [← hs.bad,← hs.flash]; exact h.cause⟩

theorem Spent.before (bad : isbbtbadblock m.bbt i = true) (hs : Same m m' i) : Spent works left m i m' :=
  ⟨hs.bad.trans bad,.inl ⟨bad,hs.flash⟩⟩

theorem Retired.spent (h : Retired left m i m') (good : isbbtbadblock m.bbt i = false) (fails : ¬ works i)
    (hs : Same m' m'' i) : Spent works left m i m'' :=
  ⟨hs.bad.trans h.bad,.inr ⟨good,fails,hs.flash ▸ h.left⟩⟩

section Cons

variable (falling : (i :: L).Pairwise (· > ·)) (others : ∀ j ≠ i, Same m m' j)

include falling others

theorem Placed.cons (h : Placed pattern works left L m' p m'')
    (spent : Same m' m'' i → Spent works left m i m'') : Placed pattern works left (i :: L) m p m'' := by
  have above := (List.pairwise_cons.mp falling).1
  have ne : p ≠ i := Nat.ne_of_lt (above p h.mem)
  have gone : i ∉ L := fun hi => Nat.lt_irrefl i (above i hi)
  refine ⟨List.mem_cons_of_mem _ h.mem,h.able,(others p ne).bad ▸ h.good,h.stays,h.holds,?_,?_⟩
  · intro j hj lt
    rcases List.mem_cons.mp hj with rfl | hj
    · exact spent (h.below j (.inl gone))
    · exact (h.above j hj lt).of_same (others j (Nat.ne_of_lt (above j hj)))
  intro j hj
  have other : j ≠ i := by
    rintro rfl
    rcases hj with hj | hj
    · exact hj List.mem_cons_self
    · exact Nat.lt_asymm hj (above p h.mem)
  exact (others j other).trans (h.below j (hj.imp_left fun hj hm => hj (List.mem_cons_of_mem _ hm)))

theorem Exhausted.cons (h : Exhausted works left L m' m'')
    (spent : Same m' m'' i → Spent works left m i m'') : Exhausted works left (i :: L) m m'' := by
  have above := (List.pairwise_cons.mp falling).1
  have gone : i ∉ L := fun hi => Nat.lt_irrefl i (above i hi)
  refine ⟨?_,?_⟩
  · intro j hj
    rcases List.mem_cons.mp hj with rfl | hj
    · exact spent (h.outside j gone)
    · exact (h.all j hj).of_same (others j (Nat.ne_of_lt (above j hj)))
  · intro j hj
    have other : j ≠ i := fun he => hj (he ▸ List.mem_cons_self)
    exact (others j other).trans (h.outside j fun hm => hj (List.mem_cons_of_mem _ hm))

end Cons

theorem Placed.here (falling : (i :: L).Pairwise (· > ·)) (good : isbbtbadblock m.bbt i = false)
    (hw : works i) : Placed pattern works left (i :: L) m i (m.put i (m.copy pattern)) := by
  have above := (List.pairwise_cons.mp falling).1
  refine ⟨List.mem_cons_self,hw,good,good,by simp,?_,?_⟩
  · intro j hj lt
    rcases List.mem_cons.mp hj with rfl | hj
    · exact absurd lt (Nat.lt_irrefl j)
    · exact absurd (above j hj) (Nat.lt_asymm lt)
  intro j hj
  refine Memory.put_same ?_
  rintro rfl
  rcases hj with hj | hj
  · exact hj List.mem_cons_self
  · exact Nat.lt_irrefl j hj

def Steady (ops : Ops) : Prop :=
  ∀ i left, ops.erase i ≠ .lost left ∧ ops.program i ≠ .lost left

def Works (ops : Ops) (i : Nat) : Prop := ops.erase i = .done ∧ ops.program i = .done

def Leaves (ops : Ops) (i : Nat) (c : Content) : Prop :=
  ops.erase i = .failed c ∨ ops.program i = .failed c

theorem writePrimary_steady (hs : Steady ops) (falling : L.Pairwise (· > ·)) (m : Memory) :
    (∃ m', writePrimary ops L m = .ok (none,m') ∧ m'.version = m.version ∧
      Exhausted (Works ops) (Leaves ops) L m m') ∨
    ∃ p m', writePrimary ops L m = .ok (some p, m') ∧ m'.version = m.version ∧
      Placed .primary (Works ops) (Leaves ops) L m p m' := by
  induction L generalizing m with
  | nil => exact .inl ⟨m,rfl,rfl,nofun,fun i _ => .refl m i⟩
  | cons i L ih =>
    have later := (List.pairwise_cons.mp falling).2
    -- what the loop does behind a block that it leaves out or retires
    have behind (m' : Memory) (version : m'.version = m.version) (others : ∀ j ≠ i, Same m m' j)
        (spent : ∀ m'', Same m' m'' i → Spent (Works ops) (Leaves ops) m i m'') :
        (∃ m'', writePrimary ops L m' = .ok (none,m'') ∧ m''.version = m.version ∧
          Exhausted (Works ops) (Leaves ops) (i :: L) m m'') ∨
        ∃ p m'', writePrimary ops L m' = .ok (some p, m'') ∧ m''.version = m.version ∧
          Placed .primary (Works ops) (Leaves ops) (i :: L) m p m'' := by
      rcases ih later m' with ⟨m'',run,v,h⟩ | ⟨p,m'',run,v,h⟩
      · exact .inl ⟨m'',run,v.trans version,h.cons falling others (spent m'')⟩
      · exact .inr ⟨p,m'',run,v.trans version,h.cons falling others (spent m'')⟩
    unfold writePrimary
    by_cases bad : isbbtbadblock m.bbt i = true
    · rw [if_pos bad]
      exact behind m rfl (fun j _ => .refl m j) fun _ hs => .before bad hs
    have good : isbbtbadblock m.bbt i = false := by simpa using bad
    rw [if_neg bad]
    cases erase : ops.erase i with
    | lost c => exact absurd erase (hs i c).1
    | failed c =>
      have ret : Retired (Leaves ops) m i ((m.put i c).mark i) := retired_mark (.inl erase)
      exact behind _ rfl ret.others fun _ hs => ret.spent good (fun w => by rw [w.1] at erase; cases erase) hs
    | done =>
      cases program : ops.program i with
      | lost c => exact absurd program (hs i c).2
      | failed c =>
        have ret : Retired (Leaves ops) m i ((m.put i c).mark i) := retired_mark (.inr program)
        exact behind _ rfl ret.others fun _ hs =>
          ret.spent good (fun w => by rw [w.2] at program; cases program) hs
      | done => exact .inr ⟨i,_,rfl,rfl,.here falling good ⟨erase,program⟩⟩

/-- Not at all, or with a block that goes bad and `if (!need) bbt_version++`. -/
inductive Drift (L : List Nat) (need : Bool) (m : Memory) (need' : Bool) (m' : Memory) : Prop where
  | calm (flag : need' = need) (bbt : m'.bbt = m.bbt) (version : m'.version = m.version)
  | marked (i : Nat) (mem : i ∈ L) (good : isbbtbadblock m.bbt i = false)
      (bad : isbbtbadblock m'.bbt i = true) (flag : need' = true)
      (version : m'.version = (m.fresh need).version)

theorem Drift.cons {m'' : Memory} {need'' : Bool} (h : Drift L need' m' need'' m'') (flag : need' = need)
    (bbt : m'.bbt = m.bbt) (version : m'.version = m.version) : Drift (i :: L) need m need'' m'' := by
  cases h with
  | calm hf hb hv => exact .calm (hf.trans flag) (hb.trans bbt) (hv.trans version)
  | marked j mem good bad hf hv =>
    refine .marked j (List.mem_cons_of_mem _ mem) (bbt ▸ good) bad hf (hv.trans ?_)
    subst flag
    cases need' <;> simp [Memory.fresh,Memory.bump,version]

theorem Drift.retired {m'' : Memory} {need'' : Bool}
    (h : Drift L true (((m.put i c).mark i).fresh need) need'' m'')
    (good : isbbtbadblock m.bbt i = false) (bad : isbbtbadblock m''.bbt i = true) :
    Drift (i :: L) need m need'' m'' := by
  have version : (((m.put i c).mark i).fresh need).version = (m.fresh need).version := by
    cases need <;> rfl
  cases h with
  | calm hf _ hv => exact .marked i List.mem_cons_self good bad hf (hv.trans version)
  | marked _ _ _ _ hf hv => exact .marked i List.mem_cons_self good bad hf (hv.trans version)

structure Erased (ops : Ops) (L : List Nat) (m m' : Memory) : Prop where
  outside : ∀ i, i ∉ L → Same m m' i
  bad : ∀ i ∈ L, isbbtbadblock m.bbt i = true → Same m m' i
  done : ∀ i ∈ L, isbbtbadblock m.bbt i = false → ops.erase i = .done →
    m'.flash i = .blank ∧ isbbtbadblock m'.bbt i = false
  failed : ∀ i ∈ L, ∀ c, isbbtbadblock m.bbt i = false → ops.erase i = .failed c →
    m'.flash i = c ∧ isbbtbadblock m'.bbt i = true

theorem Erased.cons (h : Erased ops L m' m'') (new : i ∉ L) (others : ∀ j ≠ i, Same m m' j)
    (bad : isbbtbadblock m.bbt i = true → Same m m' i)
    (done : isbbtbadblock m.bbt i = false → ops.erase i = .done →
      m'.flash i = .blank ∧ isbbtbadblock m'.bbt i = false)
    (failed : ∀ c, isbbtbadblock m.bbt i = false → ops.erase i = .failed c →
      m'.flash i = c ∧ isbbtbadblock m'.bbt i = true) : Erased ops (i :: L) m m'' := by
  have stays := h.outside i new
  have other {j : Nat} (hj : j ∈ L) : Same m m' j := others j fun he => new (he ▸ hj)
  refine ⟨fun j hj => ?_,fun j hj hb => ?_,fun j hj hg he => ?_,fun j hj c hg he => ?_⟩
  · rw [List.mem_cons,not_or] at hj
    exact (others j hj.1).trans (h.outside j hj.2)
  all_goals rcases List.mem_cons.mp hj with rfl | hj
  · exact (bad hb).trans stays
  · exact (other hj).trans (h.bad j hj ((other hj).bad.trans hb))
  · rw [stays.flash,stays.bad]
    exact done hg he
  · exact h.done j hj ((other hj).bad.trans hg) he
  · rw [stays.flash,stays.bad]
    exact failed c hg he
  · exact h.failed j hj c ((other hj).bad.trans hg) he

theorem eraseRest_steady (hs : Steady ops) (nodup : L.Nodup) (need : Bool) (m : Memory) :
    ∃ need' m', eraseRest ops L need m = .ok (need',m') ∧ Erased ops L m m' ∧
      Drift L need m need' m' := by
  induction L generalizing need m with
  | nil => exact ⟨need,m,rfl,⟨fun i _ => .refl m i,nofun,nofun,nofun⟩,.calm rfl rfl rfl⟩
  | cons i L ih =>
    obtain ⟨new,later⟩ := List.nodup_cons.mp nodup
    unfold eraseRest
    by_cases bad : isbbtbadblock m.bbt i = true
    · rw [if_pos bad]
      have no {P : Prop} (good : isbbtbadblock m.bbt i = false) : P := by
        rw [bad] at good
        cases good
      obtain ⟨need',m',run,erased,drift⟩ := ih later need m
      exact ⟨need',m',run,erased.cons new (fun j _ => .refl m j) (fun _ => .refl m i)
        (fun good => no good) (fun _ good => no good),drift.cons rfl rfl rfl⟩
    have good : isbbtbadblock m.bbt i = false := by simpa using bad
    rw [if_neg bad]
    cases erase : ops.erase i with
    | lost c => exact absurd erase (hs i c).1
    | failed c =>
      have ret : Retired (fun _ left => left = c) m i (((m.put i c).mark i).fresh need) := retired rfl need
      obtain ⟨need',m',run,erased,drift⟩ := ih later true (((m.put i c).mark i).fresh need)
      refine ⟨need',m',run,erased.cons new ret.others (fun hb => absurd hb bad) ?_ ?_,?_⟩
      · intro _ done
        rw [erase] at done
        cases done
      · intro c' _ failed
        rw [erase] at failed
        cases failed
        exact ⟨ret.left,ret.bad⟩
      · exact drift.retired good ((erased.outside i new).bad.trans ret.bad)
    | done =>
      obtain ⟨need',m',run,erased,drift⟩ := ih later need (m.put i .blank)
      refine ⟨need',m',run,erased.cons new (fun j hj => Memory.put_same hj) (fun hb => absurd hb bad)
        (fun _ _ => ⟨by simp,good⟩) ?_,drift.cons rfl rfl rfl⟩
      intro c _ failed
      rw [erase] at failed
      cases failed

theorem writeMirror_steady (hs : Steady ops) (falling : L.Pairwise (· > ·)) (need : Bool) (m : Memory) :
    ∃ m' need', writeMirror ops L need m = .ok m' ∧ Drift L need m need' m' ∧
      (Exhausted (fun i => ops.program i = .done) (fun i c => ops.program i = .failed c) L m m' ∨
        ∃ q, Placed .mirror (fun i => ops.program i = .done) (fun i c => ops.program i = .failed c)
          L m q m') := by
  induction L generalizing need m with
  | nil => exact ⟨m,need,rfl,.calm rfl rfl rfl,.inl ⟨nofun,fun i _ => .refl m i⟩⟩
  | cons i L ih =>
    have later := (List.pairwise_cons.mp falling).2
    unfold writeMirror
    by_cases bad : isbbtbadblock m.bbt i = true
    · rw [if_pos bad]
      obtain ⟨m',need',run,drift,ends⟩ := ih later need m
      refine ⟨m',need',run,drift.cons rfl rfl rfl,?_⟩
      rcases ends with h | ⟨q,h⟩
      · exact .inl (h.cons falling (fun j _ => .refl m j) fun hs => .before bad hs)
      · exact .inr ⟨q,h.cons falling (fun j _ => .refl m j) fun hs => .before bad hs⟩
    have good : isbbtbadblock m.bbt i = false := by simpa using bad
    rw [if_neg bad]
    cases program : ops.program i with
    | lost c => exact absurd program (hs i c).2
    | failed c =>
      have fails : ops.program i ≠ .done := by
        rw [program]
        exact Outcome.noConfusion
      have ret : Retired (fun i c => ops.program i = .failed c) m i (((m.put i c).mark i).fresh need) :=
        retired program need
      obtain ⟨m',need',run,drift,ends⟩ := ih later true (((m.put i c).mark i).fresh need)
      rcases ends with h | ⟨q,h⟩
      · have all := h.cons falling ret.others fun hs => ret.spent good fails hs
        exact ⟨m',need',run,drift.retired good (all.all i List.mem_cons_self).bad,.inl all⟩
      have placed := h.cons falling ret.others fun hs => ret.spent good fails hs
      have lt := (List.pairwise_cons.mp falling).1 q h.mem
      exact ⟨m',need',run,drift.retired good (placed.above i List.mem_cons_self lt).bad,
        .inr ⟨q,placed⟩⟩
    | done =>
      exact ⟨_,need,rfl,.calm rfl rfl rfl,.inr ⟨i,.here falling good program⟩⟩

theorem Placed.keeps_bad (h : Placed pattern works left L m p m') (hb : isbbtbadblock m.bbt i = true) :
    isbbtbadblock m'.bbt i = true := by
  by_cases apart : i ∉ L ∨ i < p
  · exact (h.below i apart).bad.trans hb
  rw [not_or,not_not] at apart
  have ne : i ≠ p := by
    rintro rfl
    rw [h.good] at hb
    cases hb
  exact (h.above i apart.1 (by omega)).bad

theorem Exhausted.keeps_bad (h : Exhausted works left L m m') (hb : isbbtbadblock m.bbt i = true) :
    isbbtbadblock m'.bbt i = true := by
  by_cases mem : i ∈ L
  · exact (h.all i mem).bad
  · exact (h.outside i mem).bad.trans hb

theorem Erased.good_before (h : Erased ops L m m') (hg : isbbtbadblock m'.bbt i = false) :
    isbbtbadblock m.bbt i = false := by
  by_contra hb
  have hb : isbbtbadblock m.bbt i = true := by simpa using hb
  have same : Same m m' i := by
    by_cases mem : i ∈ L
    · exact h.bad i mem hb
    · exact h.outside i mem
  rw [same.bad,hb] at hg
  cases hg

theorem updateBbtInflash_steady (hs : Steady ops) (n : Nat) (m : Memory) :
    ∃ rc m', updateBbtInflash n ops m = .ok (rc,m') ∧
      ∀ i < n - bbtMaxBlock, isbbtbadblock m'.bbt i = isbbtbadblock m.bbt i := by
  have out {last i : Nat} (low : i < n - bbtMaxBlock) : i ∉ tableBlocks n last :=
    fun mem => Nat.not_lt.mpr (mem_tableBlocks.mp mem).1 low
  have out' {last i : Nat} (low : i < n - bbtMaxBlock) : i ∉ (tableBlocks n last).reverse :=
    fun mem => out low (List.mem_reverse.mp mem)
  unfold updateBbtInflash
  rcases writePrimary_steady hs (tableBlocks_falling n n) m.bump with
    ⟨m₁,run,_,spent⟩ | ⟨p,m₁,run,_,primary⟩
  · rw [run]
    exact ⟨-1,m₁,rfl,fun i low => (spent.outside i (out' low)).bad⟩
  rw [run]
  by_cases low : p ≤ n - bbtMaxBlock
  · simp only [if_pos low]
    exact ⟨-1,m₁,rfl,fun i low => (primary.below i (.inl (out' low))).bad⟩
  obtain ⟨need,m₂,run₂,erased,-⟩ := eraseRest_steady hs (tableBlocks_nodup n p) false m₁
  obtain ⟨m₃,need',run₃,-,ends⟩ := writeMirror_steady hs (tableBlocks_falling n p) need m₂
  simp only [if_neg low,run₂,run₃]
  refine ⟨0,m₃,rfl,fun i low => ?_⟩
  have mirror : isbbtbadblock m₃.bbt i = isbbtbadblock m₂.bbt i := by
    rcases ends with h | ⟨q,h⟩
    · exact (h.outside i (out' low)).bad
    · exact (h.below i (.inl (out' low))).bad
  rw [mirror,(erased.outside i (out low)).bad,(primary.below i (.inl (out' low))).bad]
  rfl

end Apc8750.Nand
