import Apc8750.Library.Runs
import Apc8750.Nand.Losses

namespace Apc8750.Nand

/-- The table blocks, the table in memory, and of the updates so far the tables `done`, the `last`
and the one being written. -/
structure System where
  flash : Flash
  ram : Option (Bbt × Nat)
  last : Bbt
  writing : Option Bbt
  done : List Bbt

inductive Action where
  | mark (block : Nat)
  | update (ops : Ops)
  | reboot

/-- The code of the call, or none if the power goes. A reboot may be a power loss. -/
def System.step (n : Nat) (s : System) : Action → Option (Option Int × System)
  | .mark block =>
    match s.ram with
    | none => none
    | some (bbt, version) => some (some 0, { s with ram := some (updateBbtInram bbt block, version) })
  | .update ops =>
    match s.ram with
    | none => none
    | some (bbt, version) =>
      match updateBbtInflash n ops ⟨bbt, version, s.flash⟩ with
      | .error flash => some (none, { s with flash := flash, ram := none, writing := some bbt })
      | .ok (rc, m) =>
        if rc = 0 then some (some rc, ⟨m.flash, some (m.bbt, m.version), m.bbt, none, m.bbt :: s.done⟩)
        else some (some rc, { s with flash := m.flash, ram := some (m.bbt, m.version), writing := some bbt })
  | .reboot =>
    match findBbt n s.flash with
    | .missing => some (some 1, { s with ram := none })
    | .failed rc => some (some rc, { s with ram := none })
    | .loaded version bbt => some (some 0, { s with ram := some (bbt, version) })

structure Grown (n : Nat) (bbt t : Bbt) : Prop where
  keeps : ∀ i, isbbtbadblock bbt i = true → isbbtbadblock t i = true
  low : ∀ i < n - bbtMaxBlock, isbbtbadblock t i = isbbtbadblock bbt i

/-- The last table written, or the one being written, with blocks gone bad since. -/
def System.Written (n : Nat) (s : System) (t : Bbt) : Prop :=
  t = s.last ∨ ∃ bbt, s.writing = some bbt ∧ Grown n bbt t

/-- `find_bbt` loads a table that it should, with every block bad that was marked. -/
def Survives (n : Nat) (s : System) : Prop :=
  ∃ version t, findBbt n s.flash = .loaded version t ∧ s.Written n t ∧
    ∀ bbt ∈ s.done, ∀ i, isbbtbadblock bbt i = true → isbbtbadblock t i = true

def Formatted (n : Nat) (bbt : Bbt) (version : Nat) (flash : Flash) : Prop :=
  ∃ p ∈ tableBlocks n n, ∃ q ∈ tableBlocks n n, p ≠ q ∧
    flash p = .table .primary version (.ok bbt) ∧ flash q = .table .mirror version (.ok bbt) ∧
    ∀ i ∈ tableBlocks n n, i ≠ p → i ≠ q → flash i = .blank

def start (bbt : Bbt) (flash : Flash) : System := ⟨flash, none, bbt, none, [bbt]⟩

/-- Blocks marked bad or failing show no table, two of them work, and the version does not wrap. -/
structure Tidy (n : Nat) (ops : Ops) (m : Memory) : Prop where
  marked : ∀ i ∈ tableBlocks n n, isbbtbadblock m.bbt i = true → m.flash i = .blank
  failed : ∀ i c, Leaves ops i c → c = .blank
  two : ∃ i ∈ tableBlocks n n, ∃ j ∈ tableBlocks n n, i < j ∧
    isbbtbadblock m.bbt i = false ∧ Works ops i ∧ isbbtbadblock m.bbt j = false ∧ Works ops j
  wraps : (m.version + 1) % 256 = 255 → ∀ p, Highest n ops m.bbt p → Undisturbed n ops m.bbt p

/-- Another copy of `last` is below the block that gets the primary copy first. -/
structure Backed (n : Nat) (ops : Ops) (m : Memory) (last : Bbt) : Prop where
  erase : ∀ i c, ops.erase i = .lost c → Shows (· = last) c
  program : ∀ i c, ops.program i = .lost c → Shows (Grown n m.bbt) c
  rest : ∀ p, Highest n ops.calm m.bbt p → ∀ i ∈ tableBlocks n p, Shows (· = last) (m.flash i)
  spare : ∀ p, Highest n ops.calm m.bbt p → ¬ Works ops p →
    ∃ q ∈ tableBlocks n p, n - bbtMaxBlock < q ∧ m.flash q ≠ .blank

def Careful (n : Nat) (s : System) : Action → Prop
  | .mark _ => True
  | .reboot => True
  | .update ops => ∀ bbt version, s.ram = some (bbt, version) →
      Tidy n ops.calm ⟨bbt, version, s.flash⟩ ∧
        (Steady ops ∨ Backed n ops ⟨bbt, version, s.flash⟩ s.last)

theorem Spent.blank (h : Spent works left m i m₁) (was : isbbtbadblock m.bbt i = true → m.flash i = .blank)
    (failed : ∀ c, left i c → c = .blank) : m₁.flash i = .blank := by
  rcases h.cause with ⟨bad,same⟩ | ⟨_,_,hl⟩
  · rw [same,was bad]
  · exact failed _ hl

theorem Erased.blank (h : Erased ops L m m₁) (hs : Steady ops) (mem : i ∈ L)
    (was : isbbtbadblock m.bbt i = true → m.flash i = .blank) (failed : ∀ c, Leaves ops i c → c = .blank) :
    m₁.flash i = .blank := by
  by_cases bad : isbbtbadblock m.bbt i = true
  · rw [(h.bad i mem bad).flash,was bad]
  have good : isbbtbadblock m.bbt i = false := by simpa using bad
  cases erase : ops.erase i with
  | lost c => exact absurd erase (hs i c).1
  | failed c =>
    rw [(h.failed i mem c good erase).1]
    exact failed c (.inl erase)
  | done => exact (h.done i mem good erase).1

theorem Erased.keeps_bad (h : Erased ops L m m₁) (hb : isbbtbadblock m.bbt i = true) :
    isbbtbadblock m₁.bbt i = true := by
  by_contra hg
  have good : isbbtbadblock m₁.bbt i = false := by simpa using hg
  rw [h.good_before good] at hb
  cases hb

theorem Drift.next (drift : Drift L false m₁ need m₂) (drift' : Drift L.reverse need m₂ need' m₃)
    (changed : m₃.bbt ≠ m₁.bbt) : m₃.version = (m₁.version + 1) % 2 ^ 32 := by
  cases drift with
  | calm flag bbt version =>
    cases drift' with
    | calm _ bbt' _ => exact absurd (bbt'.trans bbt) changed
    | marked _ _ _ _ _ version' =>
      rw [version',flag,← version]
      rfl
  | marked _ _ _ _ flag version =>
    cases drift' with
    | calm _ _ version' => exact version'.trans version
    | marked _ _ _ _ _ version' =>
      rw [version',flag]
      exact version

theorem Tidy.below (h : Tidy n ops m) (highest : Highest n ops m.bbt p) :
    n - bbtMaxBlock < p ∧ ∃ q ∈ tableBlocks n p, isbbtbadblock m.bbt q = false ∧ Works ops q := by
  obtain ⟨i,hi,j,hj,lt,goodI,worksI,goodJ,worksJ⟩ := h.two
  have hI := mem_tableBlocks.mp hi
  have hJ := mem_tableBlocks.mp hj
  have le : j ≤ p := by
    by_contra above
    exact highest.above j (by omega) hJ.2 goodJ worksJ
  exact ⟨by omega,i,mem_tableBlocks.mpr ⟨hI.1,by omega⟩,goodI,worksI⟩

theorem Tidy.placed (h : Tidy n ops m) (hs : Steady ops) :
    ∃ p m₁, writePrimary ops (tableBlocks n n).reverse m.bump = .ok (some p, m₁) ∧
      m₁.version = m.bump.version ∧
      Placed .primary (Works ops) (Leaves ops) (tableBlocks n n).reverse m.bump p m₁ := by
  rcases writePrimary_steady hs (tableBlocks_falling n n) m.bump with ⟨m₁,_,_,spent⟩ | placed
  · obtain ⟨i,hi,_,_,_,good,worksI,_⟩ := h.two
    rcases (spent.all i (List.mem_reverse.mpr hi)).cause with ⟨bad,_⟩ | ⟨_,fails,_⟩
    · exact absurd (good.symm.trans bad) (by decide)
    · exact absurd worksI fails
  · exact placed

section Update

variable (tidy : Tidy n ops m) (hs : Steady ops)
  (primary : Placed .primary (Works ops) (Leaves ops) (tableBlocks n n).reverse m.bump p m₁)

include tidy primary

theorem blank_above (hi : i ∈ tableBlocks n n) (lt : p < i) : m₁.flash i = .blank :=
  (primary.above i (List.mem_reverse.mpr hi) lt).blank (tidy.marked i hi) (tidy.failed i)

theorem mirror_placed (erased : Erased ops (tableBlocks n p) m₁ m₂)
    (ends : Exhausted (fun i => ops.program i = .done) (fun i c => ops.program i = .failed c)
        (tableBlocks n p).reverse m₂ m₃ ∨
      ∃ q, Placed .mirror (fun i => ops.program i = .done) (fun i c => ops.program i = .failed c)
        (tableBlocks n p).reverse m₂ q m₃) :
    ∃ q, Placed .mirror (fun i => ops.program i = .done) (fun i c => ops.program i = .failed c)
      (tableBlocks n p).reverse m₂ q m₃ := by
  rcases ends with spent | placed
  · obtain ⟨_,q,hq,good,works⟩ := tidy.below primary.highest
    have good₁ : isbbtbadblock m₁.bbt q = false :=
      (primary.below q (.inr (mem_tableBlocks.mp hq).2)).bad.trans good
    have good₂ := (erased.done q hq good₁ works.1).2
    rcases (spent.all q (List.mem_reverse.mpr hq)).cause with ⟨bad,_⟩ | ⟨_,fails,_⟩
    · exact absurd (good₂.symm.trans bad) (by decide)
    · exact absurd works.2 fails
  · exact placed

include hs

theorem blank_below (erased : Erased ops (tableBlocks n p) m₁ m₂) (hi : i ∈ tableBlocks n p) :
    m₂.flash i = .blank := by
  have hI := mem_tableBlocks.mp hi
  have hP := mem_tableBlocks.mp (List.mem_reverse.mp primary.mem)
  have same := primary.below i (.inr hI.2)
  refine erased.blank hs hi ?_ (tidy.failed i)
  rw [same.bad,same.flash]
  exact tidy.marked i (mem_tableBlocks.mpr ⟨hI.1,Nat.lt_trans hI.2 hP.2⟩)

theorem blank_others (erased : Erased ops (tableBlocks n p) m₁ m₂)
    (mirror : Placed .mirror (fun i => ops.program i = .done) (fun i c => ops.program i = .failed c)
      (tableBlocks n p).reverse m₂ q m₃)
    (hi : i ∈ tableBlocks n n) (neP : i ≠ p) (neQ : i ≠ q) : m₃.flash i = .blank := by
  rcases Nat.lt_or_gt_of_ne neP with lt | gt
  · have mem := mem_tableBlocks.mpr ⟨(mem_tableBlocks.mp hi).1,lt⟩
    have blank := blank_below tidy hs primary erased mem
    rcases Nat.lt_or_gt_of_ne neQ with lt | gt
    · rw [(mirror.below i (.inr lt)).flash,blank]
    · exact (mirror.above i (List.mem_reverse.mpr mem) gt).blank (fun _ => blank)
        fun c hc => tidy.failed i c (.inr hc)
  · rw [(copies_above erased (.inr ⟨q,mirror⟩) (Nat.le_of_lt gt)).flash]
    exact blank_above tidy primary hi gt

end Update

theorem Tidy.completes (h : Tidy n ops m) (hs : Steady ops) :
    ∃ m', updateBbtInflash n ops m = .ok (0,m') ∧ Grown n m.bbt m'.bbt ∧
      ∃ version, findBbt n m'.flash = .loaded version m'.bbt := by
  obtain ⟨p,m₁,run₁,version₁,primary⟩ := h.placed hs
  have highest : Highest n ops m.bbt p := primary.highest
  obtain ⟨high,-⟩ := h.below highest
  obtain ⟨need,m₂,run₂,erased,drift⟩ := eraseRest_steady hs (tableBlocks_nodup n p) false m₁
  obtain ⟨m₃,need',run₃,drift',ends⟩ := writeMirror_steady hs (tableBlocks_falling n p) need m₂
  obtain ⟨q,mirror⟩ := mirror_placed h primary erased ends
  have others {i : Nat} (hi : i ∈ tableBlocks n n) (neP : i ≠ p) (neQ : i ≠ q) : m₃.flash i = .blank :=
    blank_others h hs primary erased mirror hi neP neQ
  have run : updateBbtInflash n ops m = .ok (0,m₃) := by
    simp only [updateBbtInflash,run₁,if_neg (Nat.not_le.mpr high),run₂,run₃]
  have memP := List.mem_reverse.mp primary.mem
  have hQ := mem_tableBlocks.mp (List.mem_reverse.mp mirror.mem)
  have memQ : q ∈ tableBlocks n n :=
    mem_tableBlocks.mpr ⟨hQ.1,Nat.lt_trans hQ.2 (mem_tableBlocks.mp memP).2⟩
  have holds : m₃.flash p = m₁.copy .primary := by
    rw [(copies_above erased ends (Nat.le_refl p)).flash,primary.holds]
  refine ⟨m₃,run,⟨fun i hb => ?_,?_⟩,?_⟩
  · exact mirror_keeps_bad ends (erased.keeps_bad (primary.keeps_bad hb))
  · obtain ⟨rc,m',run',low⟩ := updateBbtInflash_steady hs n m
    rw [run] at run'
    cases run'
    exact low
  by_cases same : m₁.bbt = m₃.bbt
  · have all : ∀ i ∈ tableBlocks n n, Shows (· = m₃.bbt) (m₃.flash i) := by
      intro i hi
      by_cases neP : i = p
      · subst neP
        exact .inr ⟨.primary,m₁.version,m₁.bbt,holds,same⟩
      by_cases neQ : i = q
      · subst neQ
        exact .inr ⟨.mirror,m₃.version,m₃.bbt,mirror.holds,rfl⟩
      exact .inl (others hi neP neQ)
    have seen : m₃.flash p ≠ .blank := by
      rw [holds]
      exact Content.noConfusion
    obtain ⟨version,t,loaded,rfl⟩ := findBbt_shows all memP high seen
    exact ⟨version,loaded⟩
  · have next := drift.next drift' fun eq => same eq.symm
    -- at the last value of the byte no block goes bad behind the primary copy
    have byte : (m.version + 1) % 256 ≠ 255 := by
      intro wrap
      have two := (copies_iff primary erased ends hs drift drift').mpr (h.wraps wrap p highest)
      obtain ⟨a,ha,_,_,_,_,holdsA,_⟩ := two
      by_cases neP : a = p
      · rw [neP,holds] at holdsA
        injection holdsA with _ _ data
        injection data with eq
        exact same eq
      by_cases neQ : a = q
      · rw [neQ,mirror.holds] at holdsA
        cases holdsA
      · rw [others ha neP neQ] at holdsA
        cases holdsA
    refine ⟨_,findBbt_newer memP memQ hQ.2 holds mirror.holds (fun i hi => others hi) ?_⟩
    rw [next,version₁]
    simp only [Memory.bump]
    omega

section Loss

variable (tidy : Tidy n ops.calm m) (backed : Backed n ops m last)
  (primary : Placed .primary (Works ops.calm) (Leaves ops.calm) (tableBlocks n n).reverse m.bump p m₁)

include tidy backed primary

theorem Backed.others (hi : i ∈ tableBlocks n n) (ne : i ≠ p) : Shows (· = last) (m₁.flash i) := by
  rcases Nat.lt_or_gt_of_ne ne with lt | gt
  · rw [(primary.below i (.inr lt)).flash]
    exact backed.rest p primary.highest i (mem_tableBlocks.mpr ⟨(mem_tableBlocks.mp hi).1,lt⟩)
  · exact .inl (blank_above tidy primary hi gt)

omit tidy backed in
theorem Placed.grown : Grown n m.bbt m₁.bbt := by
  refine ⟨fun i hb => primary.keeps_bad hb,fun i low => ?_⟩
  refine (primary.below i (.inl fun mem => ?_)).bad
  exact Nat.not_lt.mpr (mem_tableBlocks.mp (List.mem_reverse.mp mem)).1 low

theorem Backed.loads_first (cut : Cut ops p c) :
    ∃ version t, findBbt n (Function.update m₁.flash p c) = .loaded version t ∧
      (t = last ∨ Grown n m.bbt t) := by
  have highest : Highest n ops.calm m.bbt p := primary.highest
  obtain ⟨q,hq,high,seen⟩ := backed.spare p highest cut.stops
  have hQ := mem_tableBlocks.mp hq
  have memQ : q ∈ tableBlocks n n :=
    mem_tableBlocks.mpr ⟨hQ.1,Nat.lt_trans hQ.2 (mem_tableBlocks.mp highest.mem).2⟩
  refine findBbt_shows ?_ memQ high ?_
  · intro i hi
    by_cases same : i = p
    · subst same
      rw [Function.update_self]
      rcases cut with erase | program
      · exact (backed.erase i c erase).mono fun t ht => .inl ht
      · exact (backed.program i c program).mono fun t ht => .inr ht
    · rw [Function.update_of_ne same]
      exact (backed.others tidy primary hi same).mono fun t ht => .inl ht
  · rw [Function.update_of_ne (Nat.ne_of_lt hQ.2),(primary.below q (.inr hQ.2)).flash]
    exact seen

theorem Backed.loads_behind (high : n - bbtMaxBlock < p)
    (changes : Changes (fun t => t = last ∨ Grown n m.bbt t) (tableBlocks n p) m₁.flash f) :
    ∃ version t, findBbt n f = .loaded version t ∧ (t = last ∨ Grown n m.bbt t) := by
  have stays : f p = m₁.flash p :=
    (changes p).resolve_right fun h => Nat.lt_irrefl p (mem_tableBlocks.mp h.1).2
  refine findBbt_shows ?_ (List.mem_reverse.mp primary.mem) high ?_
  · intro i hi
    rcases changes i with same | ⟨_,shows⟩
    · rw [same]
      by_cases eq : i = p
      · subst eq
        exact .inr ⟨.primary,m₁.version,m₁.bbt,primary.holds,.inr primary.grown⟩
      · exact (backed.others tidy primary hi eq).mono fun t ht => .inl ht
    · exact shows
  · rw [stays,primary.holds]
    exact Content.noConfusion

end Loss

theorem Backed.loads (tidy : Tidy n ops.calm m) (backed : Backed n ops m last)
    (run : updateBbtInflash n ops m = .error f) :
    ∃ version t, findBbt n f = .loaded version t ∧ (t = last ∨ Grown n m.bbt t) := by
  obtain ⟨p,m₁,calm₁,_,primary⟩ := tidy.placed (calm_steady ops)
  obtain ⟨high,-⟩ := tidy.below primary.highest
  have failed : ∀ i c, Leaves ops.calm i c → Shows (fun t => t = last ∨ Grown n m.bbt t) c :=
    fun i c left => .inl (tidy.failed i c left)
  unfold updateBbtInflash at run
  rcases writePrimary_calm ops (tableBlocks n n).reverse m.bump with
    ⟨r,run₁,calm⟩ | ⟨k,c,m',cut,run₁,calm⟩
  · rw [calm₁] at calm
    cases calm
    simp only [run₁,if_neg (Nat.not_le.mpr high)] at run
    refine backed.loads_behind tidy primary high ?_
    cases run₂ : eraseRest ops (tableBlocks n p) false m₁ with
    | error f₂ =>
      rw [run₂] at run
      cases run
      exact eraseRest_lost failed (fun i c lost => (backed.erase i c lost).mono fun t ht => .inl ht) run₂
    | ok r₂ =>
      obtain ⟨need,m₂⟩ := r₂
      rw [run₂] at run
      dsimp only at run
      obtain ⟨calm₂,erases⟩ := eraseRest_calm (tableBlocks_nodup n p) run₂
      obtain ⟨_,_,steady,erased,_⟩ := eraseRest_steady (calm_steady ops) (tableBlocks_nodup n p) false m₁
      rw [calm₂] at steady
      cases steady
      cases run₃ : writeMirror ops (tableBlocks n p).reverse need m₂ with
      | ok m₃ =>
        rw [run₃] at run
        cases run
      | error f₃ =>
        rw [run₃] at run
        cases run
        have changes : Changes (fun t => t = last ∨ Grown n m.bbt t) (tableBlocks n p).reverse m₂.flash f :=
          writeMirror_lost (fun i hi good => erases i (List.mem_reverse.mp hi) (erased.good_before good))
            failed (fun i c lost => (backed.program i c lost).mono fun t ht => .inr ht) run₃
        intro i
        rcases changes i with same | ⟨mem,shows⟩
        · by_cases mem : i ∈ tableBlocks n p
          · refine .inr ⟨mem,.inl ?_⟩
            rw [same]
            exact blank_below tidy (calm_steady ops) primary erased mem
          · exact .inl (same.trans (erased.outside i mem).flash)
        · exact .inr ⟨List.mem_reverse.mp mem,shows⟩
  · rw [calm₁] at calm
    cases calm
    rw [run₁] at run
    cases run
    exact backed.loads_first tidy primary cut

structure Intact (n : Nat) (s : System) : Prop where
  loads : ∃ version t, findBbt n s.flash = .loaded version t ∧ s.Written n t
  done : ∀ bbt ∈ s.done, ∀ i, isbbtbadblock bbt i = true → isbbtbadblock s.last i = true
  writing : ∀ bbt, s.writing = some bbt → ∀ i, isbbtbadblock s.last i = true → isbbtbadblock bbt i = true
  ram : ∀ bbt version, s.ram = some (bbt, version) →
    ∀ i, isbbtbadblock s.last i = true → isbbtbadblock bbt i = true

theorem Intact.written (h : Intact n s) (ht : s.Written n t) (hb : isbbtbadblock s.last i = true) :
    isbbtbadblock t i = true := by
  rcases ht with rfl | ⟨bbt,writing,grown⟩
  · exact hb
  · exact grown.keeps i (h.writing bbt writing i hb)

theorem Intact.survives (h : Intact n s) : Survives n s := by
  obtain ⟨version,t,loaded,written⟩ := h.loads
  exact ⟨version,t,loaded,written,fun bbt mem i hb => h.written written (h.done bbt mem i hb)⟩

theorem Formatted.intact (h : Formatted n bbt version flash) : Intact n (start bbt flash) := by
  obtain ⟨p,hp,q,hq,ne,primary,mirror,others⟩ := h
  have all : ∀ i ∈ tableBlocks n n, Shows (· = bbt) (flash i) := by
    intro i hi
    by_cases isP : i = p
    · exact .inr ⟨.primary,version,bbt,isP ▸ primary,rfl⟩
    by_cases isQ : i = q
    · exact .inr ⟨.mirror,version,bbt,isQ ▸ mirror,rfl⟩
    exact .inl (others i hi isP isQ)
  have seen : ∃ j ∈ tableBlocks n n, n - bbtMaxBlock < j ∧ flash j ≠ .blank := by
    have hP := mem_tableBlocks.mp hp
    have hQ := mem_tableBlocks.mp hq
    rcases Nat.lt_or_gt_of_ne ne with lt | gt
    · exact ⟨q,hq,by omega,by rw [mirror]; exact Content.noConfusion⟩
    · exact ⟨p,hp,by omega,by rw [primary]; exact Content.noConfusion⟩
  obtain ⟨j,hj,high,shown⟩ := seen
  obtain ⟨v,t,loaded,rfl⟩ := findBbt_shows all hj high shown
  refine ⟨⟨v,t,loaded,.inl rfl⟩,fun b hb i bad => ?_,nofun,nofun⟩
  rw [start,List.mem_singleton] at hb
  exact hb ▸ bad

theorem Intact.update (h : Intact n s) (ram : s.ram = some (bbt,version))
    (careful : Careful n s (.update ops)) (done : s.step n (.update ops) = some (r,s')) : Intact n s' := by
  obtain ⟨tidy,power⟩ := careful bbt version ram
  have last := h.ram bbt version ram
  simp only [System.step,ram] at done
  cases run : updateBbtInflash n ops ⟨bbt,version,s.flash⟩ with
  | error f =>
    rw [run] at done
    cases done
    have backed : Backed n ops ⟨bbt,version,s.flash⟩ s.last := by
      refine power.resolve_left fun steady => ?_
      obtain ⟨rc,m',run',_⟩ := updateBbtInflash_steady steady n ⟨bbt,version,s.flash⟩
      rw [run] at run'
      cases run'
    obtain ⟨v,t,loaded,which⟩ := backed.loads tidy run
    refine ⟨⟨v,t,loaded,which.imp id fun grown => ⟨bbt,rfl,grown⟩⟩,h.done,fun b hb => ?_,nofun⟩
    cases hb
    exact last
  | ok result =>
    obtain ⟨m',run',grown,v,loaded⟩ := tidy.completes (calm_steady ops)
    have calm := updateBbtInflash_calm run
    rw [run'] at calm
    cases calm
    rw [run] at done
    dsimp only at done
    rw [if_pos rfl] at done
    cases done
    refine ⟨⟨v,m'.bbt,loaded,.inl rfl⟩,fun b hb i bad => ?_,nofun,fun b v hb i bad => ?_⟩
    · rcases List.mem_cons.mp hb with rfl | hb
      · exact bad
      · exact grown.keeps i (last i (h.done b hb i bad))
    · cases hb
      exact bad

theorem Intact.step (h : Intact n s) (careful : Careful n s a) (done : s.step n a = some (r,s')) :
    Intact n s' := by
  cases a with
  | mark block =>
    simp only [System.step] at done
    split at done
    · cases done
    rename_i bbt version ram
    cases done
    refine ⟨h.loads,h.done,h.writing,fun b v hb i bad => ?_⟩
    cases hb
    exact isbbtbadblock_keeps block (h.ram bbt version ram i bad)
  | update ops =>
    cases ram : s.ram with
    | none =>
      simp only [System.step,ram] at done
      cases done
    | some loaded =>
      obtain ⟨bbt,version⟩ := loaded
      exact h.update ram careful done
  | reboot =>
    obtain ⟨version,t,loaded,written⟩ := h.loads
    simp only [System.step,loaded] at done
    cases done
    refine ⟨⟨version,t,loaded,written⟩,h.done,h.writing,fun b v hb i bad => ?_⟩
    cases hb
    exact h.written written bad

/-- In careful runs `find_bbt` loads the table of the last update that returned zero or the one
being written. -/
theorem table_survives (formatted : Formatted n bbt version flash)
    (run : Runs.Run (System.step n) (Careful n) (start bbt flash) trace s) : Survives n s := by
  have intact : Intact n s := run.invariant formatted.intact fun h careful done => h.step careful done
  exact intact.survives

def formatted : Flash := fun i =>
  if i = 1023 then .table .primary 1 (.ok unmarked.bbt)
  else if i = 1022 then .table .mirror 1 (.ok unmarked.bbt)
  else .blank

theorem formatted_formatted : Formatted 1024 unmarked.bbt 1 formatted := by
  refine ⟨1023,mem_tableBlocks.mpr (by decide),1022,mem_tableBlocks.mpr (by decide),by decide,rfl,rfl,?_⟩
  intro i _ neP neQ
  simp only [formatted,if_neg neP,if_neg neQ]

def cutAt (block : Nat) : Ops := ⟨fun _ => .done, fun i => if i = block then .lost .blank else .done⟩

theorem cutAt_calm (block : Nat) : (cutAt block).calm = sound := by
  have program (i : Nat) : (cutAt block).calm.program i = .done := by
    change (if i = block then Outcome.lost .blank else .done).calm = .done
    split <;> rfl
  exact congrArg (Ops.mk fun _ => .done) (funext program)

theorem tidy_unmarked (flash : Flash) : Tidy 1024 sound ⟨unmarked.bbt,1,flash⟩ where
  marked i _ bad := absurd (bad.symm.trans (unmarked_good i)) (by decide)
  failed i c left := by rcases left with h | h <;> cases h
  two := ⟨1022,mem_tableBlocks.mpr (by decide),1023,mem_tableBlocks.mpr (by decide),by decide,
    unmarked_good _,⟨rfl,rfl⟩,unmarked_good _,⟨rfl,rfl⟩⟩
  wraps wrap := by cases wrap

theorem backed_formatted : Backed 1024 (cutAt 1023) ⟨unmarked.bbt,1,formatted⟩ unmarked.bbt where
  erase i c lost := by cases lost
  program i c lost := by
    change (if i = 1023 then Outcome.lost .blank else .done) = .lost c at lost
    split at lost
    · cases lost
      exact .inl rfl
    · cases lost
  rest p h i hi := by
    rw [cutAt_calm] at h
    have lt := (mem_tableBlocks.mp hi).2
    rw [top_unmarked h] at lt
    by_cases eq : i = 1022
    · exact .inr ⟨.mirror,1,unmarked.bbt,by rw [eq]; rfl,rfl⟩
    · left
      simp only [formatted,if_neg (Nat.ne_of_lt lt),if_neg eq]
  spare p h _ := by
    rw [cutAt_calm] at h
    rw [top_unmarked h]
    exact ⟨1022,mem_tableBlocks.mpr (by decide),by decide,Content.noConfusion⟩

theorem careful_cut : Careful 1024 { start unmarked.bbt formatted with ram := some (unmarked.bbt,1) }
    (.update (cutAt 1023)) := by
  intro bbt version ram
  cases ram
  exact ⟨cutAt_calm 1023 ▸ tidy_unmarked formatted,.inr backed_formatted⟩

theorem careful_sound (ram : s.ram = some (unmarked.bbt,1)) : Careful 1024 s (.update sound) := by
  intro bbt version loaded
  cases ram.symm.trans loaded
  exact ⟨tidy_unmarked s.flash,.inl fun _ _ => ⟨nofun,nofun⟩⟩

theorem table_survives_cut : ∃ trace s, Runs.Run (System.step 1024) (Careful 1024)
    (start unmarked.bbt formatted) trace s ∧
    trace.map Prod.snd = [some 0, none, some 0, some 0] ∧ Survives 1024 s := by
  have booted : Runs.Run (System.step 1024) (Careful 1024) (start unmarked.bbt formatted)
      [(.reboot, some 0)] { start unmarked.bbt formatted with ram := some (unmarked.bbt, 1) } :=
    .next .start trivial rfl
  have cut := booted.next careful_cut rfl
  have again := cut.next (a := Action.reboot) trivial rfl
  have ends := again.next (careful_sound rfl) rfl
  exact ⟨_, _, ends, rfl, table_survives formatted_formatted ends⟩

/-- The power goes twice, and no table is left. -/
theorem no_table_left : ∃ trace s, Runs.Run (System.step 1024) (fun _ _ => True)
    (start unmarked.bbt formatted) trace s ∧ Formatted 1024 unmarked.bbt 1 formatted ∧
    findBbt 1024 s.flash = .missing ∧ ¬ Survives 1024 s := by
  have run : Runs.exec (System.step 1024) (fun _ _ => true) (start unmarked.bbt formatted) []
      [.reboot, .update (cutAt 1022), .reboot, .update (cutAt 1023)] = some (_, _) := rfl
  refine ⟨_, _, Runs.Run.start.exec (fun _ _ _ => trivial) run, formatted_formatted, rfl, ?_⟩
  rintro ⟨version, t, loaded, _⟩
  cases loaded

end Apc8750.Nand
