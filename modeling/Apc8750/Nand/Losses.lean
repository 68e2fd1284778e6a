import Apc8750.Nand.Copies

namespace Apc8750.Nand

variable {i : Nat} {bbt : Bbt} {flash f : Flash} {ops : Ops} {m m' : Memory} {c : Content}
  {L : List Nat} {need : Bool} {kind : Bbt → Prop}

def Shows (kind : Bbt → Prop) (c : Content) : Prop :=
  c = .blank ∨ ∃ pattern version bbt, c = .table pattern version (.ok bbt) ∧ kind bbt

theorem Shows.mono (h : Shows kind c) (hk : ∀ t, kind t → kind' t) : Shows kind' c := by
  rcases h with blank | ⟨pattern,version,bbt,holds,ok⟩
  · exact .inl blank
  · exact .inr ⟨pattern,version,bbt,holds,hk bbt ok⟩

theorem findLoop_shows (first : kind bbt) (all : ∀ i ∈ L, Shows kind (flash i)) :
    ∃ v t, findLoop n flash (some (version,bbt)) L = .loaded v t ∧ kind t := by
  induction L with
  | nil => exact ⟨version,bbt,rfl,first⟩
  | cons i L ih =>
    have later := ih fun j hj => all j (List.mem_cons_of_mem _ hj)
    unfold findLoop
    rcases all i List.mem_cons_self with blank | ⟨pattern,v,t,holds,ok⟩
    · rw [blank]
      exact later
    rw [holds]
    dsimp only
    split
    · exact ⟨_,t,rfl,ok⟩
    · exact ⟨_,bbt,rfl,first⟩

theorem findLoop_first (falling : L.Pairwise (· > ·)) (all : ∀ i ∈ L, Shows kind (flash i)) (mem : q ∈ L)
    (high : n - bbtMaxBlock < q) (seen : flash q ≠ .blank) :
    ∃ v t, findLoop n flash none L = .loaded v t ∧ kind t := by
  induction L with
  | nil => cases mem
  | cons i L ih =>
    obtain ⟨above,later⟩ := List.pairwise_cons.mp falling
    have rest : ∀ j ∈ L, Shows kind (flash j) := fun j hj => all j (List.mem_cons_of_mem _ hj)
    unfold findLoop
    rcases all i List.mem_cons_self with blank | ⟨pattern,v,t,holds,ok⟩
    · rw [blank]
      rcases List.mem_cons.mp mem with rfl | mem
      · exact absurd blank seen
      · exact ih later rest mem
    have ne : i ≠ n - bbtMaxBlock := by
      rcases List.mem_cons.mp mem with rfl | mem
      · exact Nat.ne_of_gt high
      · exact Nat.ne_of_gt (Nat.lt_trans high (above q mem))
    rw [holds]
    dsimp only
    rw [if_neg ne]
    exact findLoop_shows ok rest

theorem findBbt_shows (all : ∀ i ∈ tableBlocks n n, Shows kind (flash i)) (mem : q ∈ tableBlocks n n)
    (high : n - bbtMaxBlock < q) (seen : flash q ≠ .blank) :
    ∃ v t, findBbt n flash = .loaded v t ∧ kind t :=
  findLoop_first (tableBlocks_falling n n) (fun i hi => all i (List.mem_reverse.mp hi))
    (List.mem_reverse.mpr mem) high seen

theorem findLoop_second (mem : q ∈ L) (holds : flash q = .table pattern v (.ok t))
    (others : ∀ i ∈ L, i ≠ q → flash i = .blank) (newer : version < v % 256) :
    findLoop n flash (some (version,bbt)) L = .loaded (v % 256) t := by
  induction L with
  | nil => cases mem
  | cons i L ih =>
    unfold findLoop
    by_cases same : i = q
    · subst same
      rw [holds]
      dsimp only
      rw [if_pos newer]
    · rw [others i List.mem_cons_self same]
      refine ih ?_ fun j hj => others j (List.mem_cons_of_mem _ hj)
      exact (List.mem_cons.mp mem).resolve_left fun he => same he.symm

theorem findLoop_newer (falling : L.Pairwise (· > ·)) (memP : p ∈ L) (memQ : q ∈ L) (below : q < p)
    (high : n - bbtMaxBlock < p) (first : flash p = .table pattern v (.ok t))
    (second : flash q = .table pattern' v' (.ok t')) (others : ∀ i ∈ L, i ≠ p → i ≠ q → flash i = .blank)
    (newer : v % 256 < v' % 256) : findLoop n flash none L = .loaded (v' % 256) t' := by
  induction L with
  | nil => cases memP
  | cons i L ih =>
    obtain ⟨above,later⟩ := List.pairwise_cons.mp falling
    unfold findLoop
    rcases List.mem_cons.mp memP with rfl | memP
    · have memQ := (List.mem_cons.mp memQ).resolve_left (Nat.ne_of_lt below)
      rw [first]
      dsimp only
      rw [if_neg (Nat.ne_of_gt high)]
      exact findLoop_second memQ second
        (fun j hj => others j (List.mem_cons_of_mem _ hj) (Nat.ne_of_lt (above j hj))) newer
    · have lt := above p memP
      have memQ := (List.mem_cons.mp memQ).resolve_left (Nat.ne_of_lt (Nat.lt_trans below lt))
      rw [others i List.mem_cons_self (Nat.ne_of_gt lt) (Nat.ne_of_gt (Nat.lt_trans below lt))]
      exact ih later memP memQ fun j hj => others j (List.mem_cons_of_mem _ hj)

theorem findBbt_newer (memP : p ∈ tableBlocks n n) (memQ : q ∈ tableBlocks n n) (below : q < p)
    (first : flash p = .table pattern v (.ok t)) (second : flash q = .table pattern' v' (.ok t'))
    (others : ∀ i ∈ tableBlocks n n, i ≠ p → i ≠ q → flash i = .blank) (newer : v % 256 < v' % 256) :
    findBbt n flash = .loaded (v' % 256) t' := by
  have lo := (mem_tableBlocks.mp memQ).1
  exact findLoop_newer (tableBlocks_falling n n) (List.mem_reverse.mpr memP) (List.mem_reverse.mpr memQ)
    below (Nat.lt_of_le_of_lt lo below) first second (fun i hi => others i (List.mem_reverse.mp hi)) newer

def Outcome.calm : Outcome → Outcome
  | .done => .done
  | .failed left => .failed left
  | .lost _ => .done

/-- If the power had stayed on. A block whose erase is cut short counts as working. -/
def Ops.calm (ops : Ops) : Ops where
  erase i := (ops.erase i).calm
  program i :=
    match ops.erase i with
    | .lost _ => .done
    | _ => (ops.program i).calm

theorem Outcome.calm_ne (o : Outcome) (c : Content) : o.calm ≠ .lost c := by
  cases o <;> exact Outcome.noConfusion

theorem calm_program (erase : ∀ c, ops.erase i ≠ .lost c) :
    ops.calm.program i = (ops.program i).calm := by
  unfold Ops.calm
  dsimp only
  split
  · rename_i c lost
    exact absurd lost (erase c)
  · rfl

theorem calm_steady (ops : Ops) : Steady ops.calm := by
  intro i c
  refine ⟨Outcome.calm_ne _ c,?_⟩
  unfold Ops.calm
  dsimp only
  split
  · exact Outcome.noConfusion
  · exact Outcome.calm_ne _ c

theorem calm_erase (h : ops.erase i = .failed c) : Leaves ops.calm i c := by
  left
  unfold Ops.calm
  dsimp only
  rw [h]
  rfl

def Cut (ops : Ops) (i : Nat) (c : Content) : Prop :=
  ops.erase i = .lost c ∨ ops.program i = .lost c

theorem Cut.stops (h : Cut ops i c) : ¬ Works ops i := by
  rintro ⟨erase,program⟩
  rcases h with lost | lost
  · rw [lost] at erase
    cases erase
  · rw [lost] at program
    cases program

theorem writePrimary_calm (ops : Ops) (L : List Nat) (m : Memory) :
    (∃ r, writePrimary ops L m = .ok r ∧ writePrimary ops.calm L m = .ok r) ∨
    ∃ k c m', Cut ops k c ∧ writePrimary ops L m = .error (Function.update m'.flash k c) ∧
      writePrimary ops.calm L m = .ok (some k, m') := by
  induction L generalizing m with
  | nil => exact .inl ⟨(none,m),rfl,rfl⟩
  | cons i L ih =>
    have cut (c : Content) : (m.put i c).flash = Function.update (m.put i (m.copy .primary)).flash i c := by
      rw [Memory.put,Memory.put,Function.update_idem]
    unfold writePrimary
    by_cases bad : isbbtbadblock m.bbt i = true
    · simp only [if_pos bad]
      exact ih m
    simp only [if_neg bad,Ops.calm]
    cases erase : ops.erase i with
    | failed c => exact ih _
    | lost c => exact .inr ⟨i,c,_,.inl erase,congrArg Except.error (cut c),rfl⟩
    | done =>
      cases program : ops.program i with
      | failed c => exact ih _
      | lost c => exact .inr ⟨i,c,_,.inr program,congrArg Except.error (cut c),rfl⟩
      | done => exact .inl ⟨_,rfl,rfl⟩

theorem eraseRest_calm (nodup : L.Nodup) (run : eraseRest ops L need m = .ok r) :
    eraseRest ops.calm L need m = .ok r ∧
      ∀ i ∈ L, isbbtbadblock m.bbt i = false → ∀ c, ops.erase i ≠ .lost c := by
  induction L generalizing need m with
  | nil => exact ⟨run,by simp⟩
  | cons i L ih =>
    obtain ⟨new,later⟩ := List.nodup_cons.mp nodup
    have rest {m' : Memory} (others : ∀ j ≠ i, Same m m' j) (head : ∀ c, ops.erase i ≠ .lost c)
        (tail : ∀ j ∈ L, isbbtbadblock m'.bbt j = false → ∀ c, ops.erase j ≠ .lost c) :
        ∀ j ∈ i :: L, isbbtbadblock m.bbt j = false → ∀ c, ops.erase j ≠ .lost c := by
      intro j hj good
      rcases List.mem_cons.mp hj with rfl | hj
      · exact head
      · exact tail j hj ((others j fun he => new (he ▸ hj)).bad.trans good)
    unfold eraseRest at run ⊢
    by_cases bad : isbbtbadblock m.bbt i = true
    · rw [if_pos bad] at run ⊢
      obtain ⟨calm,tail⟩ := ih later run
      refine ⟨calm,fun j hj good => ?_⟩
      rcases List.mem_cons.mp hj with rfl | hj
      · rw [bad] at good
        cases good
      · exact tail j hj good
    rw [if_neg bad] at run ⊢
    have head : ∀ c, ops.erase i ≠ .lost c := by
      intro c lost
      rw [lost] at run
      cases run
    simp only [Ops.calm]
    cases erase : ops.erase i with
    | lost c => exact absurd erase (head c)
    | failed c =>
      rw [erase] at run
      obtain ⟨calm,tail⟩ := ih later run
      have ret : Retired (fun _ left => left = c) m i (((m.put i c).mark i).fresh need) := retired rfl need
      exact ⟨calm,rest ret.others head tail⟩
    | done =>
      rw [erase] at run
      obtain ⟨calm,tail⟩ := ih later run
      exact ⟨calm,rest (fun j hj => Memory.put_same hj) head tail⟩

theorem writeMirror_calm (erased : ∀ i ∈ L, isbbtbadblock m.bbt i = false → ∀ c, ops.erase i ≠ .lost c)
    (run : writeMirror ops L need m = .ok m') : writeMirror ops.calm L need m = .ok m' := by
  induction L generalizing need m with
  | nil => exact run
  | cons i L ih =>
    unfold writeMirror at run ⊢
    by_cases bad : isbbtbadblock m.bbt i = true
    · rw [if_pos bad] at run ⊢
      exact ih (fun j hj => erased j (List.mem_cons_of_mem _ hj)) run
    have good : isbbtbadblock m.bbt i = false := by simpa using bad
    rw [if_neg bad] at run ⊢
    rw [calm_program (erased i List.mem_cons_self good)]
    cases program : ops.program i with
    | lost c =>
      rw [program] at run
      cases run
    | failed c =>
      rw [program] at run
      refine ih (fun j hj good => ?_) run
      rw [Memory.fresh_bbt] at good
      exact erased j (List.mem_cons_of_mem _ hj) (good_of_marked good).2
    | done =>
      rw [program] at run
      exact run

theorem updateBbtInflash_calm (run : updateBbtInflash n ops m = .ok r) :
    updateBbtInflash n ops.calm m = .ok r := by
  unfold updateBbtInflash at run ⊢
  rcases writePrimary_calm ops (tableBlocks n n).reverse m.bump with
    ⟨⟨block,m₁⟩,run₁,calm₁⟩ | ⟨k,c,m₁,_,run₁,_⟩
  · rw [run₁] at run
    rw [calm₁]
    cases block with
    | none => exact run
    | some p =>
      dsimp only at run ⊢
      split at run
      · rename_i low
        rw [if_pos low]
        exact run
      rename_i low
      rw [if_neg low]
      cases run₂ : eraseRest ops (tableBlocks n p) false m₁ with
      | error f =>
        rw [run₂] at run
        cases run
      | ok r₂ =>
        obtain ⟨need,m₂⟩ := r₂
        obtain ⟨calm₂,erased⟩ := eraseRest_calm (tableBlocks_nodup n p) run₂
        obtain ⟨_,_,steady,spec,_⟩ := eraseRest_steady (calm_steady ops) (tableBlocks_nodup n p) false m₁
        rw [calm₂] at steady ⊢
        cases steady
        rw [run₂] at run
        dsimp only at run ⊢
        cases run₃ : writeMirror ops (tableBlocks n p).reverse need m₂ with
        | error f =>
          rw [run₃] at run
          cases run
        | ok m₃ =>
          rw [run₃] at run
          rw [writeMirror_calm (fun i hi good => erased i (List.mem_reverse.mp hi) (spec.good_before good)) run₃]
          exact run
  · rw [run₁] at run
    cases run

/-- Each block has its contents of before, or it is one of the list and shows a table of the
kind. -/
def Changes (kind : Bbt → Prop) (L : List Nat) (f f' : Flash) : Prop :=
  ∀ i, f' i = f i ∨ i ∈ L ∧ Shows kind (f' i)

theorem Changes.refl (kind : Bbt → Prop) (L : List Nat) (f : Flash) : Changes kind L f f := fun _ => .inl rfl

theorem Changes.put (shows : Shows kind c) : Changes kind (i :: L) m.flash (m.put i c).flash := by
  intro j
  by_cases same : j = i
  · subst same
    exact .inr ⟨List.mem_cons_self,by rwa [Memory.put_self]⟩
  · exact .inl (Memory.put_other same)

theorem Changes.cons (h : Changes kind (i :: L) f f') (h' : Changes kind L f' f'') :
    Changes kind (i :: L) f f'' := by
  intro j
  rcases h' j with same | ⟨mem,shows⟩
  · rw [same]
    exact h j
  · exact .inr ⟨List.mem_cons_of_mem _ mem,shows⟩

theorem Changes.skip (h : Changes kind L f f') : Changes kind (i :: L) f f' :=
  (Changes.refl kind (i :: L) f).cons h

theorem eraseRest_lost (failed : ∀ i c, Leaves ops.calm i c → Shows kind c)
    (lost : ∀ i c, ops.erase i = .lost c → Shows kind c) (run : eraseRest ops L need m = .error f) :
    Changes kind L m.flash f := by
  induction L generalizing need m with
  | nil => cases run
  | cons i L ih =>
    unfold eraseRest at run
    split at run
    · exact (ih run).skip
    split at run
    · rename_i c erase
      cases run
      exact .put (lost i c erase)
    · rename_i c erase
      have later := ih run
      rw [Memory.fresh_flash,Memory.mark_flash] at later
      exact (Changes.put (failed i c (calm_erase erase))).cons later
    · exact (Changes.put (.inl rfl)).cons (ih run)

theorem writeMirror_lost (erased : ∀ i ∈ L, isbbtbadblock m.bbt i = false → ∀ c, ops.erase i ≠ .lost c)
    (failed : ∀ i c, Leaves ops.calm i c → Shows kind c)
    (lost : ∀ i c, ops.program i = .lost c → Shows kind c) (run : writeMirror ops L need m = .error f) :
    Changes kind L m.flash f := by
  induction L generalizing need m with
  | nil => cases run
  | cons i L ih =>
    have rest := fun j hj => erased j (List.mem_cons_of_mem _ hj)
    unfold writeMirror at run
    by_cases bad : isbbtbadblock m.bbt i = true
    · rw [if_pos bad] at run
      exact (ih rest run).skip
    have good : isbbtbadblock m.bbt i = false := by simpa using bad
    rw [if_neg bad] at run
    cases program : ops.program i with
    | lost c =>
      rw [program] at run
      cases run
      exact .put (lost i c program)
    | failed c =>
      rw [program] at run
      have left : Leaves ops.calm i c := by
        right
        rw [calm_program (erased i List.mem_cons_self good),program]
        rfl
      have later := ih (fun j hj good => rest j hj (good_of_marked (by rwa [Memory.fresh_bbt] at good)).2) run
      rw [Memory.fresh_flash,Memory.mark_flash] at later
      exact (Changes.put (failed i c left)).cons later
    | done =>
      rw [program] at run
      cases run

end Apc8750.Nand
