import Apc8750.Nand.Save

namespace Apc8750.Nand
open Spans

variable {g : Geometry} {ecc : Ecc} {ops : BlockOps} {mem left : Bytes} {s u f : Save}
  {l : Load} {r : Reader} {bbt : Bbt} {dev dev' dev'' : Dev} {fault : Option Nat}
  {b d n p i a L lo naddr addr len : Nat}

structure Below (g : Geometry) (lo : Nat) (dev dev' : Dev) : Prop where
  flash : ∀ a < lo, dev'.flash a = dev.flash a
  coded : ∀ p < lo / g.oobblock, dev'.coded p = dev.coded p

theorem Below.refl (g : Geometry) (lo : Nat) (dev : Dev) : Below g lo dev dev :=
  ⟨fun _ _ => rfl,fun _ _ => rfl⟩

theorem Below.trans (h : Below g lo dev dev') (h' : Below g lo dev' dev'') : Below g lo dev dev'' :=
  ⟨fun a lt => (h'.flash a lt).trans (h.flash a lt),
    fun p lt => (h'.coded p lt).trans (h.coded p lt)⟩

theorem Below.weaken {hi : Nat} (h : Below g hi dev dev') (le : lo ≤ hi) : Below g lo dev dev' :=
  ⟨fun a lt => h.flash a (Nat.lt_of_lt_of_le lt le),
    fun p lt => h.coded p (Nat.lt_of_lt_of_le lt (Nat.div_le_div_right le))⟩

theorem programPage_below (low : lo ≤ naddr) :
    Below g lo dev (dev.programPage g ecc mem addr naddr) :=
  ⟨fun _ lt => blit_of_lt (Nat.lt_of_lt_of_le lt low),fun _ lt => Function.update_of_ne
    (Nat.ne_of_lt (Nat.lt_of_lt_of_le lt (Nat.div_le_div_right low))) _ _⟩

theorem page_next (fits : naddr + (n + 1) * g.oobblock ≤ 2 ^ 32) (pos : 0 < n) :
    (naddr + g.oobblock) % 2 ^ 32 = naddr + g.oobblock := by
  have := g.page_pos
  have := Nat.le_mul_of_pos_left g.oobblock pos
  rw [Nat.succ_mul] at fits
  exact Nat.mod_eq_of_lt (by omega)

theorem writePages_below (low : lo ≤ naddr) (fits : naddr + n * g.oobblock ≤ 2 ^ 32) :
    Below g lo dev (writePages g ecc left mem n fault addr naddr dev).2 := by
  induction n generalizing fault addr naddr dev with
  | zero => exact .refl g lo dev
  | succ n ih =>
    rcases writePages_cases g ecc left mem n fault addr naddr dev with eq | eq
    · rw [eq]
      exact ⟨fun a lt => blit_of_lt (Nat.lt_of_lt_of_le lt low),fun _ _ => rfl⟩
    rw [eq]
    have here : Below g lo dev (dev.programPage g ecc mem addr naddr) := programPage_below low
    rcases Nat.eq_zero_or_pos n with rfl | pos
    · exact here
    · have wrap := page_next fits pos
      rw [Nat.succ_mul] at fits
      exact here.trans (ih (by omega) (by omega))

theorem writePages_flash (aligned : naddr % g.oobblock = 0) (fits : naddr + n * g.oobblock ≤ 2 ^ 32) :
    (writePages g ecc left mem n none addr naddr dev).2.flash =
        blit dev.flash naddr mem addr (n * g.oobblock) ∧
      ∀ p, naddr / g.oobblock ≤ p → p < naddr / g.oobblock + n →
        (writePages g ecc left mem n none addr naddr dev).2.coded p = ecc := by
  induction n generalizing addr naddr dev with
  | zero =>
    rw [Nat.zero_mul,blit_zero]
    exact ⟨rfl,fun p low high => absurd high (Nat.not_lt.mpr low)⟩
  | succ n ih =>
    have page : (dev.programPage g ecc mem addr naddr).flash =
        blit dev.flash naddr mem addr g.oobblock := by
      unfold Dev.programPage
      rw [aligned,Nat.sub_zero]
    have first : (dev.programPage g ecc mem addr naddr).coded (naddr / g.oobblock) = ecc :=
      Function.update_self ..
    rw [writePages_none]
    rcases Nat.eq_zero_or_pos n with rfl | pos
    · refine ⟨by rw [Nat.zero_add,Nat.one_mul]; exact page,fun p low high => ?_⟩
      rw [show p = naddr / g.oobblock by omega]
      exact first
    have wrap := page_next fits pos
    have next : (naddr + g.oobblock) % g.oobblock = 0 := by rw [Nat.add_mod_right,aligned]
    have fits' : naddr + g.oobblock + n * g.oobblock ≤ 2 ^ 32 := by
      rw [Nat.succ_mul] at fits
      omega
    rw [wrap]
    have later : (naddr + g.oobblock) / g.oobblock = naddr / g.oobblock + 1 :=
      Nat.add_div_right _ g.page_pos
    refine ⟨?_,fun p low high => ?_⟩
    · rw [(ih next fits').1,page,blit_blit,Nat.succ_mul,Nat.add_comm g.oobblock]
    rcases Nat.eq_or_lt_of_le low with rfl | lt
    · refine Eq.trans ?_ first
      refine (writePages_below (Nat.le_refl _) fits').coded _ ?_
      rw [later]
      exact Nat.lt_succ_self _
    · exact (ih next fits').2 p (by omega) (by omega)

theorem readPages_eq (aligned : naddr % g.oobblock = 0) (fits : naddr + n * g.oobblock ≤ 2 ^ 32)
    (coded : ∀ p, naddr / g.oobblock ≤ p → p < naddr / g.oobblock + n → dev.coded p = r.ecc) :
    readPages g r dev n addr naddr mem = (0, blit mem addr dev.flash naddr (n * g.oobblock)) := by
  induction n generalizing addr naddr mem with
  | zero =>
    rw [Nat.zero_mul,blit_zero]
    rfl
  | succ n ih =>
    have page : r.readPage g dev naddr addr mem = (0, blit mem addr dev.flash naddr g.oobblock) :=
      if_pos (coded _ (Nat.le_refl _) (by omega))
    unfold readPages
    rw [page]
    dsimp only
    rw [if_pos rfl]
    rcases Nat.eq_zero_or_pos n with rfl | pos
    · rw [Nat.zero_add,Nat.one_mul]
      rfl
    have next : (naddr + g.oobblock) % g.oobblock = 0 := by rw [Nat.add_mod_right,aligned]
    rw [page_next fits pos]
    rw [Nat.succ_mul] at fits
    rw [ih next (by omega),blit_blit,Nat.succ_mul,Nat.add_comm g.oobblock]
    intro p low high
    rw [Nat.add_div_right _ g.page_pos] at low high
    exact coded p (by omega) (by omega)

theorem numPages_le (le : len ≤ g.erasesize) : numPages g len * g.oobblock ≤ g.erasesize := by
  rcases Nat.eq_zero_or_pos len with rfl | pos
  · rw [numPages,Nat.zero_div,Nat.zero_mod,if_pos rfl,Nat.zero_mul]
    exact Nat.zero_le _
  refine Nat.mul_le_mul_right _ ?_
  have below := Nat.lt_of_lt_of_le (numPages_mul (g := g) pos) le
  have := Nat.lt_of_mul_lt_mul_right below
  omega

theorem le_numPages (g : Geometry) (len : Nat) : len ≤ numPages g len * g.oobblock := by
  have split := Nat.div_add_mod' len g.oobblock
  have rest := Nat.mod_lt len g.page_pos
  unfold numPages
  by_cases pages : len % g.oobblock = 0
  · rw [if_pos pages,Nat.add_zero]
    omega
  · rw [if_neg pages,Nat.succ_mul]
    omega

theorem numPages_block (g : Geometry) : numPages g g.erasesize * g.oobblock = g.erasesize :=
  Nat.le_antisymm (numPages_le (Nat.le_refl _)) (le_numPages g _)

structure Kept (g : Geometry) (b : Nat) (s f : Save) : Prop where
  dev : Below g (b * g.erasesize) s.dev f.dev
  bbt : ∀ c < b, isbbtbadblock f.bbt c = isbbtbadblock s.bbt c

theorem written_below (h : Stands g b 0 L s) (room : b * g.erasesize + g.erasesize ≤ 2 ^ 32) :
    Below g (b * g.erasesize) s.dev (s.written g ecc ops mem) := by
  have size : s.count.size ≤ g.erasesize := by
    rw [h.count.size]
    exact Nat.min_le_right _ _
  have erased : Below g (b * g.erasesize) s.dev (s.dev.wmtNandErase g ops s.naddr) := by
    refine ⟨fun a lt => blit_of_lt ?_,fun _ _ => rfl⟩
    rwa [h.block]
  unfold Save.written
  by_cases erases : ops.erases (s.naddr / g.erasesize) = true
  · rw [if_pos erases]
    refine erased.trans (writePages_below (Nat.le_of_eq h.naddr.symm) ?_)
    have := numPages_le size
    rw [h.naddr]
    omega
  · rw [if_neg erases]
    exact erased

def LoadEnds (g : Geometry) (r : Reader) (bbt : Bbt) (dev : Dev) (l : Load) (result : Int × Load) :
    Prop :=
  ∃ fuel, loadLoop g r bbt dev fuel l = some result

theorem LoadEnds.stop {result : Int × Load} (h : loadRound g r bbt dev l = .error result) :
    LoadEnds g r bbt dev l result :=
  ⟨1,by simp [loadLoop,h]⟩

theorem LoadEnds.step {l' : Load} {result : Int × Load} (h : loadRound g r bbt dev l = .ok l')
    (rest : LoadEnds g r bbt dev l' result) : LoadEnds g r bbt dev l result := by
  obtain ⟨fuel,eq⟩ := rest
  exact ⟨fuel + 1,by simp [loadLoop,h,eq]⟩

/-- It returns zero, reads these blocks and brings `L` bytes from `saddr` on. -/
def Loads (g : Geometry) (r : Reader) (bbt : Bbt) (dev : Dev) (l : Load) (blocks : List Nat)
    (image : Bytes) (saddr L : Nat) : Prop :=
  ∃ l', LoadEnds g r bbt dev l (0, l') ∧ l'.visited = l.visited ++ blocks ∧
    (∀ i < L, l'.mem (l.maddr + i) = image (saddr + i)) ∧ ∀ a < l.maddr, l'.mem a = l.mem a

theorem usable_iff {empty : Bool} : usable bbt ops empty b = true ↔
    (isbbtbadblock bbt b = false ∧ ops.erases b = true) ∧ (empty = true ∨ ops.fault b = none) := by
  unfold usable
  simp only [Bool.and_eq_true,Bool.not_eq_true',Bool.or_eq_true,Option.isNone_iff_eq_none]

theorem Stands.readable (h : Stands g b 0 L s) (works : usable s.bbt ops false b = true)
    (room : b * g.erasesize + g.erasesize ≤ 2 ^ 32)
    (kept : Below g ((b + 1) * g.erasesize) (s.written g ecc ops mem) dev) (mode : r.ecc = ecc)
    (addr : Nat) (m : Bytes) :
    nandReadBlock g r dev addr s.naddr s.count.size m =
        (0, blit m addr dev.flash s.naddr (numPages g s.count.size * g.oobblock)) ∧
      ∀ i < numPages g s.count.size * g.oobblock, dev.flash (s.naddr + i) = mem (s.saddr + i) := by
  obtain ⟨⟨-,erases⟩,fault⟩ := usable_iff.mp works
  have fault : ops.fault b = none := fault.resolve_left Bool.false_ne_true
  have size : numPages g s.count.size * g.oobblock ≤ g.erasesize := by
    apply numPages_le
    rw [h.count.size]
    exact Nat.min_le_right _ _
  have naddr : s.naddr = b * g.erasesize := h.naddr
  have aligned : s.naddr % g.oobblock = 0 := by
    rw [h.naddr]
    exact block_mod b (Nat.zero_mod _)
  have fits : s.naddr + numPages g s.count.size * g.oobblock ≤ 2 ^ 32 := by omega
  have eq : s.written g ecc ops mem = (writePages g ecc ops.left mem (numPages g s.count.size) none
      s.saddr s.naddr (s.dev.wmtNandErase g ops s.naddr)).2 := by
    unfold Save.written nandWriteBlock
    rw [h.block,if_pos erases,fault]
  obtain ⟨flash,coded⟩ : (s.written g ecc ops mem).flash =
        blit (s.dev.wmtNandErase g ops s.naddr).flash s.naddr mem s.saddr
          (numPages g s.count.size * g.oobblock) ∧
      ∀ p, s.naddr / g.oobblock ≤ p → p < s.naddr / g.oobblock + numPages g s.count.size →
        (s.written g ecc ops mem).coded p = ecc := by
    rw [eq]
    exact writePages_flash aligned fits
  rw [Nat.succ_mul] at kept
  refine ⟨readPages_eq aligned fits fun p low high => ?_,fun i hi => ?_⟩
  · have below : p < (b * g.erasesize + g.erasesize) / g.oobblock := by
      have le := Nat.mul_le_mul_right g.oobblock (Nat.succ_le_of_lt high)
      have start := Nat.div_mul_le_self s.naddr g.oobblock
      rw [Nat.add_mul] at le
      exact (Nat.le_div_iff_mul_le g.page_pos).mpr (by omega)
    rw [mode,kept.coded p below,coded p low high]
  · rw [kept.flash _ (by omega),flash]
    exact blit_at hi

theorem loadRound_bad (bad : isbbtbadblock bbt (l.naddr / g.erasesize) = true) :
    loadRound g r bbt dev l = .ok { l with naddr := (l.naddr + g.erasesize) % 2 ^ 32 } :=
  if_pos bad

def Load.taken (g : Geometry) (mem : Bytes) (l : Load) : Load :=
  { l with mem, visited := l.visited ++ [l.naddr / g.erasesize] }

theorem loadRound_good {m : Bytes} (good : isbbtbadblock bbt (l.naddr / g.erasesize) = false)
    (read : nandReadBlock g r dev l.maddr l.naddr l.count.size l.mem = (0,m)) :
    loadRound g r bbt dev l =
      match l.count.next g.erasesize with
      | none => .error (0, l.taken g m)
      | some count =>
        .ok { l.taken g m with
          naddr := (l.naddr + g.erasesize) % 2 ^ 32
          maddr := l.maddr + g.erasesize
          count } := by
  unfold loadRound
  rw [if_neg (by simp [good]),read]
  rfl

theorem save_load (h : Stands g b 0 L s) (pos : 0 < L)
    (room : (b + d) * g.erasesize + g.erasesize ≤ 2 ^ 32)
    (enough : blocksNeeded g.erasesize L ≤ usableFrom s.bbt ops false b d)
    (ends : SaveEnds g ecc ops mem s f) :
    Kept g b s f ∧ ∃ blocks, f.used = s.used ++ blocks ∧
      ∀ r bbt l, r.ecc = ecc → (∀ c < b + d, isbbtbadblock bbt c = isbbtbadblock f.bbt c) →
        l.naddr = s.naddr → l.count = s.count → Loads g r bbt f.dev l blocks mem s.saddr L := by
  induction d generalizing b L s with
  | zero =>
    have needed : 1 ≤ blocksNeeded g.erasesize L := Nat.le_max_left _ _
    rw [usableFrom_zero] at enough
    omega
  | succ d ih =>
    have size := erasesize_pos g
    have low : b * g.erasesize + g.erasesize ≤ (b + (d + 1)) * g.erasesize := block_end_mul (by omega)
    have same : b + 1 + d = b + (d + 1) := by omega
    have zero : false = true ↔ L = 0 := by
      constructor
      · intro no
        cases no
      · omega
    have next : (s.naddr + g.erasesize) % 2 ^ 32 = (b + 1) * g.erasesize + 0 := by
      rw [h.naddr,Nat.add_zero,Nat.mod_eq_of_lt (by omega),Nat.succ_mul,Nat.add_zero]
    have border : b * g.erasesize ≤ (b + 1) * g.erasesize := Nat.mul_le_mul_right _ (Nat.le_succ b)
    rw [usableFrom_succ] at enough
    -- a block that is bad in the end is left out by both
    have skip {u : Save} {bbt : Bbt} {dev : Dev} (round : saveRound g ecc ops mem s = .ok u)
        (count : u.count = s.count) (move : Moves g b 0 L bbt dev s.saddr s.used u)
        (enough : blocksNeeded g.erasesize L ≤ usableFrom bbt ops false (b + 1) d)
        (bad : isbbtbadblock bbt b = true) (below : Below g (b * g.erasesize) s.dev dev)
        (others : ∀ c < b, isbbtbadblock bbt c = isbbtbadblock s.bbt c) :
        Kept g b s f ∧ ∃ blocks, f.used = s.used ++ blocks ∧
          ∀ r bbt l, r.ecc = ecc → (∀ c < b + (d + 1), isbbtbadblock bbt c = isbbtbadblock f.bbt c) →
            l.naddr = s.naddr → l.count = s.count → Loads g r bbt f.dev l blocks mem s.saddr L := by
      obtain ⟨kept,blocks,used,loads⟩ :=
        ih move.stands pos (by rwa [same]) (move.bbt ▸ enough) (ends.of_step round)
      refine ⟨⟨below.trans (move.dev ▸ kept.dev.weaken border),fun c lt => ?_⟩,blocks,
        by rw [used,move.used],fun r T l mode table naddr counts => ?_⟩
      · rw [kept.bbt c (by omega),move.bbt,others c lt]
      have bad' : isbbtbadblock T (l.naddr / g.erasesize) = true := by
        rw [naddr,h.block,table b (by omega),kept.bbt b (Nat.lt_succ_self b),move.bbt,bad]
      obtain ⟨l',ends',visited,read,kept'⟩ :=
        loads r T { l with naddr := (l.naddr + g.erasesize) % 2 ^ 32 } mode (by rwa [same])
          (by rw [move.stands.naddr,← next,naddr]) (counts.trans count.symm)
      rw [move.saddr] at read
      exact ⟨l',.step (loadRound_bad bad') ends',visited,read,kept'⟩
    rcases h.cases ecc ops mem zero (by omega) with
      ⟨bad,u,round,count,move⟩ | ⟨good,fails,u,round,count,move⟩ | ⟨works,le,round⟩ |
      ⟨works,lt,u,round,count,move⟩
    · rw [usable_bad bad,if_neg Bool.false_ne_true,Nat.add_zero] at enough
      exact skip round count move enough bad (.refl _ _ _) fun _ _ => rfl
    · rw [fails,if_neg Bool.false_ne_true,Nat.add_zero,← usableFrom_marked s.bbt (Nat.lt_succ_self b)]
        at enough
      exact skip round count move enough (isbbtbadblock_marked s.bbt b)
        (written_below h (by omega)) fun c lt => isbbtbadblock_other s.bbt (Nat.ne_of_lt lt)
    · have good := (usable_iff.mp works).1.1
      obtain rfl : f = s.placed g ecc ops mem := ends.of_stop round
      refine ⟨⟨written_below h (by omega),fun _ _ => rfl⟩,[b],
        congrArg (fun b => s.used ++ [b]) h.block,fun r T l mode table naddr counts => ?_⟩
      have good' : isbbtbadblock T (l.naddr / g.erasesize) = false := by
        rw [naddr,h.block,table b (by omega)]
        exact good
      obtain ⟨read,bytes⟩ := h.readable works (by omega) (.refl g _ (s.written g ecc ops mem)) mode
        l.maddr l.mem
      rw [← naddr,← counts] at read
      have last : l.count.next g.erasesize = none := by rw [counts,h.count.last le]
      have size : L ≤ numPages g s.count.size * g.oobblock := by
        have := le_numPages g s.count.size
        rwa [h.count.size,Nat.min_eq_left le] at this ⊢
      have round := loadRound_good good' read
      rw [last] at round
      refine ⟨_,.stop round,?_,fun i hi => ?_,fun a lt => blit_of_lt lt⟩
      · exact congrArg (fun b => l.visited ++ [b]) (by rw [naddr,h.block])
      have inside : i < numPages g l.count.size * g.oobblock := by
        rw [counts]
        omega
      refine (blit_at inside).trans ?_
      rw [naddr]
      exact bytes i (by omega)
    · have good := (usable_iff.mp works).1.1
      rw [works,if_pos rfl,blocksNeeded_more size lt] at enough
      obtain ⟨kept,blocks,used,loads⟩ := ih move.stands (by omega) (by rwa [same])
        (by rw [move.bbt]; omega) (ends.of_step round)
      have dev : Below g ((b + 1) * g.erasesize) (s.written g ecc ops mem) f.dev :=
        move.dev ▸ kept.dev
      refine ⟨⟨(written_below h (by omega)).trans (dev.weaken border),fun c lt => ?_⟩,b :: blocks,
        ?_,fun r T l mode table naddr counts => ?_⟩
      · rw [kept.bbt c (by omega),move.bbt]
      · rw [used,move.used,List.append_assoc]
        rfl
      have good' : isbbtbadblock T (l.naddr / g.erasesize) = false := by
        rw [naddr,h.block,table b (by omega),kept.bbt b (Nat.lt_succ_self b),move.bbt]
        exact good
      obtain ⟨read,bytes⟩ := h.readable works (by omega) dev mode l.maddr l.mem
      rw [h.count.size,Nat.min_eq_right (Nat.le_of_lt lt),numPages_block] at read bytes
      have read' : nandReadBlock g r f.dev l.maddr l.naddr l.count.size l.mem =
          (0, blit l.mem l.maddr f.dev.flash s.naddr g.erasesize) := by
        rw [counts,h.count.size,Nat.min_eq_right (Nat.le_of_lt lt),naddr]
        exact read
      have round : loadRound g r T f.dev l = .ok
          ⟨(l.naddr + g.erasesize) % 2 ^ 32,l.maddr + g.erasesize,u.count,
            blit l.mem l.maddr f.dev.flash s.naddr g.erasesize,l.visited ++ [b]⟩ := by
        rw [loadRound_good good' read',counts,count,← h.block,← naddr]
        rfl
      obtain ⟨l',ends',visited,rest,front⟩ := loads r T
        ⟨(l.naddr + g.erasesize) % 2 ^ 32,l.maddr + g.erasesize,u.count,
          blit l.mem l.maddr f.dev.flash s.naddr g.erasesize,l.visited ++ [b]⟩ mode (by rwa [same])
        (by rw [move.stands.naddr,← next,naddr]) rfl
      dsimp only at visited rest front
      refine ⟨l',.step round ends',?_,fun i hi => ?_,fun a lt => ?_⟩
      · rw [visited,List.append_assoc]
        rfl
      · rcases Nat.lt_or_ge i g.erasesize with first | later
        · rw [front (l.maddr + i) (by omega),blit_at first,bytes i first]
        · obtain ⟨j,rfl⟩ := Nat.exists_eq_add_of_le later
          rw [← Nat.add_assoc,rest j (by omega),move.saddr,Nat.add_assoc]
      · rw [front a (by omega),blit_of_lt lt]

/-- A load in the mode of the save goes over the blocks of the image and brings it back. -/
def LoadedBack (g : Geometry) (oobsize : Nat) (s : Save) (m : Memory) (image : Bytes)
    (naddr start len : Nat) : Prop :=
  loadEcc g oobsize = saveEcc g oobsize ∧
    ∀ misread bbt mem maddr, SameBelow (g.dwBlockCount - bbtMaxBlock) m.bbt bbt →
      ∃ fuel l, wmtLoadImageFormNAND g oobsize misread bbt s.dev mem fuel naddr maddr len =
          some (0, l) ∧
        l.visited = s.used ∧ ∀ i < len, l.mem (maddr + i) = image (start + i)

theorem loadEcc_iff (g : Geometry) (oobsize : Nat) :
    loadEcc g oobsize = saveEcc g oobsize ↔ g.oobblock ≤ 0x200 ∨ oobsize ≤ 218 := by
  unfold loadEcc saveEcc
  by_cases large : 0x200 < g.oobblock
  · rw [if_pos large,if_pos large]
    rcases Nat.lt_trichotomy oobsize 218 with lt | rfl | gt
    · rw [if_neg (by omega),if_neg (by omega)]
      exact iff_of_true rfl (by omega)
    · exact iff_of_true rfl (by omega)
    · rw [if_neg (by omega),if_pos (by omega)]
      exact iff_of_false nofun (by omega)
  · rw [if_neg large,if_neg large]
    exact iff_of_true rfl (by omega)

/-- A saved image can be loaded exactly if the pages are small or the spare area has at most 218
bytes. -/
theorem image_round_trip (g : Geometry) (oobsize : Nat) (ops : BlockOps) (tables : Memory)
    (image : Bytes) (dev : Dev) (fuel naddr start len : Nat) (s : Save) (m : Memory)
    (steady : Steady ops.table) (aligned : naddr % g.erasesize = 0) (pos : 0 < len)
    (enough : Suffices g ops tables.bbt naddr len)
    (saved : wmtSaveImageToNAND g oobsize ops tables image dev fuel naddr start len =
      some (s, .ok (0, m))) :
    LoadedBack g oobsize s m image naddr start len ↔ g.oobblock ≤ 0x200 ∨ oobsize ≤ 218 := by
  rw [← loadEcc_iff]
  refine ⟨fun back => back.1, fun mode => ⟨mode, fun misread bbt mem maddr same => ?_⟩⟩
  obtain ⟨f, eq, result⟩ := Option.map_eq_some_iff.mp saved
  obtain rfl : f = s := congrArg Prod.fst result
  have ends : SaveEnds g (saveEcc g oobsize) ops image _ f := ⟨fuel, eq⟩
  have finished : finish g ops tables f = .ok (0, m) := congrArg Prod.snd result
  obtain ⟨rc, m', finished', table⟩ := finish_steady (g := g) steady tables f
  rw [finished] at finished'
  cases finished'
  have stands := stands_start g naddr start len tables.bbt dev
  rw [aligned] at stands
  have low := enough.low
  have some : (len == 0) = false := by
    rw [beq_eq_false_iff_ne]
    omega
  unfold Suffices at enough
  rw [some] at enough
  obtain ⟨-, blocks, used, loads⟩ := save_load stands pos (tables_room low) enough ends
  obtain ⟨l, ⟨fuel', run⟩, visited, read, -⟩ := loads ⟨loadEcc g oobsize, misread⟩ bbt
    ⟨naddr, maddr, .start g.erasesize len, mem, []⟩ mode
    (fun c lt => by rw [add_tables low] at lt; rw [same c lt, table c lt]) rfl rfl
  refine ⟨fuel', l, run, ?_, read⟩
  rw [visited, used]

def large : Geometry :=
  { small with oobblock := 1024, page_pos := by decide, page_le := by decide, totlen_le := by decide }

theorem image_round_trip_small : ∃ s m,
    wmtSaveImageToNAND small 64 faultless unmarked (fun a => UInt8.ofNat a) untouched 4 0 0 10 =
      some (s, .ok (0, m)) ∧ LoadedBack small 64 s m (fun a => UInt8.ofNat a) 0 0 10 :=
  ⟨_, _, rfl, (image_round_trip small 64 faultless unmarked (fun a => UInt8.ofNat a) untouched 4 0 0 10
    _ _ faultless_steady (by decide) (by decide) (by unfold Suffices; decide) rfl).mpr
    (.inl (by decide))⟩

/-- With 436 bytes of spare area the image is written with one mode and read with another. -/
theorem mode_differs : ∃ s m,
    wmtSaveImageToNAND large 436 faultless unmarked (fun a => UInt8.ofNat a) untouched 4 0 0 10 =
      some (s, .ok (0, m)) ∧ saveEcc large 436 = .ecc12bit ∧ loadEcc large 436 = .ecc4bit ∧
      ¬LoadedBack large 436 s m (fun a => UInt8.ofNat a) 0 0 10 :=
  ⟨_, _, rfl, rfl, rfl, fun back => absurd back.1 (by decide)⟩

end Apc8750.Nand
