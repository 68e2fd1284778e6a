import Apc8750.Nand.Update

namespace Apc8750.Nand

/-- Two good table blocks hold the table in memory, as primary copy and mirror. -/
def TwoCopies (n : Nat) (m : Memory) : Prop :=
  ∃ p ∈ tableBlocks n n, ∃ q ∈ tableBlocks n n, p ≠ q ∧
    isbbtbadblock m.bbt p = false ∧ m.flash p = m.copy .primary ∧
    isbbtbadblock m.bbt q = false ∧ m.flash q = m.copy .mirror

structure Highest (n : Nat) (ops : Ops) (bbt : Bbt) (p : Nat) : Prop where
  mem : p ∈ tableBlocks n n
  good : isbbtbadblock bbt p = false
  works : Works ops p
  above : ∀ i, p < i → i < n → isbbtbadblock bbt i = false → ¬ Works ops i

/-- Below the primary copy good blocks can be erased, the highest programmed. -/
structure Undisturbed (n : Nat) (ops : Ops) (bbt : Bbt) (p : Nat) : Prop where
  erases : ∀ i ∈ tableBlocks n p, isbbtbadblock bbt i = false → ops.erase i = .done
  programs : ∃ q ∈ tableBlocks n p, isbbtbadblock bbt q = false ∧ ops.program q = .done ∧
    ∀ i, q < i → i < p → isbbtbadblock bbt i = true

theorem Highest.unique (h : Highest n ops bbt p) (h' : Highest n ops bbt q) : p = q := by
  rcases Nat.lt_trichotomy p q with lt | eq | gt
  · exact absurd h'.works (h.above q lt (mem_tableBlocks.mp h'.mem).2 h'.good)
  · exact eq
  · exact absurd h.works (h'.above p gt (mem_tableBlocks.mp h.mem).2 h.good)

theorem Placed.highest (h : Placed .primary (Works ops) left (tableBlocks n n).reverse m p m') :
    Highest n ops m.bbt p := by
  refine ⟨List.mem_reverse.mp h.mem,h.good,h.able,fun i lt hi good => ?_⟩
  have lo := (mem_tableBlocks.mp (List.mem_reverse.mp h.mem)).1
  have mem : i ∈ (tableBlocks n n).reverse :=
    List.mem_reverse.mpr (mem_tableBlocks.mpr ⟨by omega,hi⟩)
  rcases (h.above i mem lt).cause with ⟨bad,_⟩ | ⟨_,fails,_⟩
  · rw [good] at bad
    cases bad
  · exact fails

section Copies

variable (primary : Placed .primary (Works ops) (Leaves ops) (tableBlocks n n).reverse m p m₁)
  (erased : Erased ops (tableBlocks n p) m₁ m₂)
  (ends : Exhausted (fun i => ops.program i = .done) (fun i c => ops.program i = .failed c)
      (tableBlocks n p).reverse m₂ m₃ ∨
    ∃ q, Placed .mirror (fun i => ops.program i = .done) (fun i c => ops.program i = .failed c)
      (tableBlocks n p).reverse m₂ q m₃)

omit primary erased in
include ends in
theorem mirror_keeps_bad (hb : isbbtbadblock m₂.bbt i = true) : isbbtbadblock m₃.bbt i = true := by
  rcases ends with h | ⟨_,h⟩
  · exact h.keeps_bad hb
  · exact h.keeps_bad hb

include erased ends

theorem copies_above (hi : p ≤ i) : Same m₁ m₃ i := by
  have out : i ∉ tableBlocks n p := fun h => Nat.not_lt.mpr hi (mem_tableBlocks.mp h).2
  refine (erased.outside i out).trans ?_
  rcases ends with h | ⟨q,h⟩
  · exact h.outside i fun hm => out (List.mem_reverse.mp hm)
  · exact h.below i (.inl fun hm => out (List.mem_reverse.mp hm))

theorem copies_below (hs : Steady ops) (hi : i ∈ tableBlocks n p) (good : isbbtbadblock m₃.bbt i = false) :
    m₃.flash i = .blank ∨ m₃.flash i = m₃.copy .mirror := by
  have mem := List.mem_reverse.mpr hi
  rcases ends with h | ⟨q,h⟩
  · rw [(h.all i mem).bad] at good
    cases good
  rcases Nat.lt_trichotomy i q with lt | rfl | gt
  · have same := h.below i (.inr lt)
    rw [same.bad] at good
    rw [same.flash]
    have good₁ := erased.good_before good
    cases erase : ops.erase i with
    | lost c => exact absurd erase (hs i c).1
    | failed c =>
      rw [(erased.failed i hi c good₁ erase).2] at good
      cases good
    | done => exact .inl (erased.done i hi good₁ erase).1
  · exact .inr h.holds
  · rw [(h.above i mem gt).bad] at good
    cases good

include primary

theorem good_le (hi : i < n) (lo : n - bbtMaxBlock ≤ i) (good : isbbtbadblock m₃.bbt i = false) : i ≤ p := by
  by_contra gt
  have mem := List.mem_reverse.mpr (mem_tableBlocks.mpr ⟨lo,hi⟩)
  rw [(copies_above erased ends (by omega)).bad,(primary.above i mem (by omega)).bad] at good
  cases good

theorem copies_iff (hs : Steady ops) (drift : Drift (tableBlocks n p) false m₁ need m₂)
    (drift' : Drift (tableBlocks n p).reverse need m₂ need' m₃) :
    TwoCopies n m₃ ↔ Undisturbed n ops m.bbt p := by
  have hp := mem_tableBlocks.mp (List.mem_reverse.mp primary.mem)
  have below {i : Nat} (hi : i < p) : isbbtbadblock m₁.bbt i = isbbtbadblock m.bbt i :=
    (primary.below i (.inr hi)).bad
  constructor
  · rintro ⟨a,ha,b,hb,ne,goodA,holdsA,goodB,holdsB⟩
    have hA := mem_tableBlocks.mp ha
    have hB := mem_tableBlocks.mp hb
    -- a primary copy is only in the block where the first loop has put it
    have eq : a = p := by
      by_contra other
      have le := good_le primary erased ends hA.2 hA.1 goodA
      rcases copies_below erased ends hs (mem_tableBlocks.mpr ⟨hA.1,by omega⟩) goodA with blank | mirror
      · rw [blank] at holdsA
        cases holdsA
      · rw [mirror] at holdsA
        cases holdsA
    subst eq
    have bbt : m₃.bbt = m₁.bbt := by
      rw [(copies_above erased ends (Nat.le_refl a)).flash,primary.holds] at holdsA
      injection holdsA with _ _ data
      injection data with same
      exact same.symm
    have back {i : Nat} (h : isbbtbadblock m₂.bbt i = true) : isbbtbadblock m₁.bbt i = true := by
      rw [← bbt]
      exact mirror_keeps_bad ends h
    have lt : b < a := by
      have := good_le primary erased ends hB.2 hB.1 goodB
      omega
    refine ⟨fun i hi good => ?_,?_⟩
    · rw [← below (mem_tableBlocks.mp hi).2] at good
      cases erase : ops.erase i with
      | lost c => exact absurd erase (hs i c).1
      | failed c =>
        rw [back (erased.failed i hi c good erase).2] at good
        cases good
      | done => rfl
    rcases ends with h | ⟨q,h⟩
    · rw [(h.all b (List.mem_reverse.mpr (mem_tableBlocks.mpr ⟨hB.1,lt⟩))).bad] at goodB
      cases goodB
    have hq := mem_tableBlocks.mp (List.mem_reverse.mp h.mem)
    refine ⟨q,List.mem_reverse.mp h.mem,?_,h.able,fun i lo hi => ?_⟩
    · rw [← below hq.2]
      exact erased.good_before h.good
    have mem : i ∈ (tableBlocks n a).reverse :=
      List.mem_reverse.mpr (mem_tableBlocks.mpr ⟨by omega,hi⟩)
    rw [← below hi,← bbt]
    exact (h.above i mem lo).bad
  · rintro ⟨erases,q,hq,goodQ,programs,between⟩
    have hQ := mem_tableBlocks.mp hq
    have calm : m₂.bbt = m₁.bbt ∧ m₂.version = m₁.version := by
      cases drift with
      | calm _ bbt version => exact ⟨bbt,version⟩
      | marked i mem good bad =>
        have done := erases i mem (by rw [← below (mem_tableBlocks.mp mem).2]; exact good)
        rw [(erased.done i mem good done).2] at bad
        cases bad
    have same {i : Nat} (hi : i < p) : isbbtbadblock m₂.bbt i = isbbtbadblock m.bbt i := by
      rw [calm.1,below hi]
    have usable {m' : Memory} (spent : Spent (fun i => ops.program i = .done)
        (fun i c => ops.program i = .failed c) m₂ q m') : False := by
      rcases spent.cause with ⟨bad,_⟩ | ⟨_,fails,_⟩
      · rw [same hQ.2,goodQ] at bad
        cases bad
      · exact fails programs
    rcases ends with h | ⟨r,h⟩
    · exact (usable (h.all q (List.mem_reverse.mpr hq))).elim
    have hR := mem_tableBlocks.mp (List.mem_reverse.mp h.mem)
    have le : q ≤ r := by
      by_contra lt
      exact usable (h.above q (List.mem_reverse.mpr hq) (by omega))
    have calm' : m₃.bbt = m₂.bbt ∧ m₃.version = m₂.version := by
      cases drift' with
      | calm _ bbt version => exact ⟨bbt,version⟩
      | marked i mem good bad =>
        have hi := mem_tableBlocks.mp (List.mem_reverse.mp mem)
        have low : i ≤ q := by
          by_contra lt
          rw [same hi.2,between i (by omega) hi.2] at good
          cases good
        rcases Nat.lt_or_eq_of_le (Nat.le_trans low le) with lt | rfl
        · rw [(h.below i (.inr lt)).bad,good] at bad
          cases bad
        · rw [h.stays] at bad
          cases bad
    have primary₃ := copies_above erased (.inr ⟨r,h⟩) (Nat.le_refl p)
    refine ⟨p,List.mem_reverse.mp primary.mem,r,mem_tableBlocks.mpr ⟨hR.1,by omega⟩,by omega,
      primary₃.bad.trans primary.stays,?_,h.stays,h.holds⟩
    rw [primary₃.flash,primary.holds,Memory.copy,Memory.copy,calm'.1,calm'.2,calm.1,calm.2]

end Copies

/-- `update_bbt_inflash` returns zero exactly if it leaves two equal copies, if no block goes bad.
-/
theorem copies_reported (hs : Steady ops) (m : Memory) :
    ∃ r m', updateBbtInflash n ops m = .ok (r, m') ∧
      ((r = 0 ↔ TwoCopies n m') ↔
        ∀ p, Highest n ops m.bbt p → n - bbtMaxBlock < p → Undisturbed n ops m.bbt p) := by
  unfold updateBbtInflash
  rcases writePrimary_steady hs (tableBlocks_falling n n) m.bump with
    ⟨m₁, run, _, spent⟩ | ⟨p, m₁, run, _, primary⟩
  · rw [run]
    refine ⟨-1, m₁, rfl, iff_of_true (iff_of_false (by decide) ?_) fun p highest _ => ?_⟩
    · rintro ⟨p, hp, _, _, _, good, _⟩
      rw [(spent.all p (List.mem_reverse.mpr hp)).bad] at good
      cases good
    · rcases (spent.all p (List.mem_reverse.mpr highest.mem)).cause with ⟨bad, _⟩ | ⟨_, fails, _⟩
      · exact absurd (highest.good.symm.trans bad) (by decide)
      · exact absurd highest.works fails
  have highest : Highest n ops m.bbt p := primary.highest
  have hp := mem_tableBlocks.mp highest.mem
  rw [run]
  by_cases low : p ≤ n - bbtMaxBlock
  · simp only [if_pos low]
    refine ⟨-1, m₁, rfl, iff_of_true (iff_of_false (by decide) ?_) fun q h lt => ?_⟩
    · rintro ⟨a, ha, b, hb, ne, goodA, _, goodB, _⟩
      have small {i : Nat} (hi : i ∈ tableBlocks n n) (good : isbbtbadblock m₁.bbt i = false) : i ≤ p := by
        by_contra gt
        rw [(primary.above i (List.mem_reverse.mpr hi) (by omega)).bad] at good
        cases good
      have := small ha goodA
      have := small hb goodB
      have := mem_tableBlocks.mp ha
      have := mem_tableBlocks.mp hb
      omega
    · rw [h.unique highest] at lt
      omega
  · obtain ⟨need, m₂, run₂, erased, drift⟩ := eraseRest_steady hs (tableBlocks_nodup n p) false m₁
    obtain ⟨m₃, need', run₃, drift', ends⟩ := writeMirror_steady hs (tableBlocks_falling n p) need m₂
    simp only [if_neg low, run₂, run₃]
    refine ⟨0, m₃, rfl, ?_⟩
    have iff := copies_iff primary erased ends hs drift drift'
    constructor
    · intro h q hq _
      rw [hq.unique highest]
      exact iff.mp (h.mp rfl)
    · intro h
      exact iff_of_true rfl (iff.mpr (h p highest (by omega)))

def sound : Ops := ⟨fun _ => .done, fun _ => .done⟩

def unmarked : Memory := ⟨fun _ => 0xFFFFFFFF#32, 0, fun _ => .blank⟩

theorem unmarked_good (i : Nat) : isbbtbadblock unmarked.bbt i = false := by
  have ones : 0xFFFFFFFF#32 = BitVec.allOnes 32 := rfl
  unfold isbbtbadblock unmarked
  rw [ones,BitVec.allOnes_and]
  exact bne_self_eq_false _

theorem top_unmarked (h : Highest 1024 sound unmarked.bbt p) : p = 1023 := by
  have hp := mem_tableBlocks.mp h.mem
  by_contra ne
  exact h.above 1023 (by omega) (by decide) (unmarked_good _) ⟨rfl,rfl⟩

theorem copies_reported_sound : ∃ r m', updateBbtInflash 1024 sound unmarked = .ok (r, m') ∧
    (r = 0 ↔ TwoCopies 1024 m') := by
  have steady : Steady sound := fun _ _ => ⟨nofun, nofun⟩
  obtain ⟨r, m', run, iff⟩ := copies_reported (n := 1024) steady unmarked
  refine ⟨r, m', run, iff.mpr fun p highest _ => ?_⟩
  obtain rfl := top_unmarked highest
  exact ⟨fun _ _ _ => rfl, 1022, mem_tableBlocks.mpr (by decide), unmarked_good _, rfl,
    fun i lo hi => by omega⟩

def lowFails : Ops := ⟨fun i => if i = 1020 then .failed .blank else .done, fun _ => .done⟩

/-- Zero is returned with version 1 in the primary copy. -/
theorem primary_outdated : ∃ m', updateBbtInflash 1024 lowFails unmarked = .ok (0, m') ∧
    m'.version = 2 ∧ m'.flash 1023 = .table .primary 1 (.ok unmarked.bbt) ∧ ¬ TwoCopies 1024 m' := by
  refine ⟨_, rfl, rfl, rfl, ?_⟩
  rintro ⟨p, hp, _, _, _, _, holds, _⟩
  have hp := mem_tableBlocks.mp hp
  obtain rfl | rfl | rfl | rfl : p = 1020 ∨ p = 1021 ∨ p = 1022 ∨ p = 1023 := by
    unfold bbtMaxBlock at hp
    omega
  all_goals cases holds

end Apc8750.Nand
