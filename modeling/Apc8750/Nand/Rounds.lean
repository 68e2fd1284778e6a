import Apc8750.Nand.Image
import Apc8750.Nand.Walk

namespace Apc8750.Nand
open Spans

variable {g : Geometry} {ecc : Ecc} {ops : BlockOps} {mem left : Bytes} {s u f : Save} {dev : Dev}
  {bbt : Bbt} {fault : Option Nat} {empty : Bool} {L b d n t i naddr addr blocksize len : Nat}

structure Left (blocksize L : Nat) (c : Counter) : Prop where
  size : c.size = min L blocksize
  cases : c.done = true ∧ L ≤ blocksize ∨
    c.done = false ∧ (L < blocksize ∧ c.ret = blocksize ∨ blocksize ≤ L ∧ c.ret = L)

namespace Left

variable {c : Counter}

theorem start (blocksize len : Nat) : Left blocksize len (.start blocksize len) := by
  unfold Counter.start
  by_cases short : len < blocksize
  · rw [if_pos short]
    exact ⟨(Nat.min_eq_left (Nat.le_of_lt short)).symm,.inr ⟨rfl,.inl ⟨short,rfl⟩⟩⟩
  · rw [if_neg short]
    have long := Nat.not_lt.mp short
    exact ⟨(Nat.min_eq_right long).symm,.inr ⟨rfl,.inr ⟨long,rfl⟩⟩⟩

theorem last (h : Left blocksize L c) (le : L ≤ blocksize) : c.next blocksize = none := by
  unfold Counter.next
  rcases h.cases with ⟨done,-⟩ | ⟨done,⟨-,ret⟩ | ⟨ge,ret⟩⟩
  · rw [if_pos done]
  · rw [if_neg (by simp [done]),if_pos (by omega)]
  · rw [if_neg (by simp [done]),if_pos (by omega)]

theorem more (h : Left blocksize L c) (lt : blocksize < L) :
    ∃ c', c.next blocksize = some c' ∧ Left blocksize (L - blocksize) c' := by
  have size := h.size
  unfold Counter.next
  rcases h.cases with ⟨-,le⟩ | ⟨done,⟨le,-⟩ | ⟨-,ret⟩⟩
  · omega
  · omega
  rw [if_neg (by simp [done]),if_neg (by omega)]
  by_cases close : c.ret - blocksize ≤ blocksize
  · rw [if_pos close]
    exact ⟨_,rfl,⟨by dsimp only; omega,.inl ⟨rfl,by omega⟩⟩⟩
  · rw [if_neg close]
    exact ⟨_,rfl,⟨by dsimp only; omega,.inr ⟨done,.inr ⟨by omega,by dsimp only; omega⟩⟩⟩⟩

end Left

def blocksNeeded (blocksize len : Nat) : Nat := max 1 ((len + blocksize - 1) / blocksize)

theorem blocksNeeded_last (le : L ≤ blocksize) : blocksNeeded blocksize L = 1 := by
  unfold blocksNeeded
  have small : (L + blocksize - 1) / blocksize ≤ 1 := by
    rcases Nat.eq_zero_or_pos blocksize with rfl | pos
    · rw [Nat.div_zero]
      exact Nat.zero_le 1
    · rw [Nat.div_le_iff_le_mul_add_pred pos]
      omega
  omega

theorem blocksNeeded_more (pos : 0 < blocksize) (lt : blocksize < L) :
    blocksNeeded blocksize L = blocksNeeded blocksize (L - blocksize) + 1 := by
  unfold blocksNeeded
  have one : 1 ≤ (L - blocksize + blocksize - 1) / blocksize := by
    rw [Nat.one_le_div_iff pos]
    omega
  rw [show L + blocksize - 1 = L - blocksize + blocksize - 1 + blocksize by omega,
    Nat.add_div_right _ pos]
  omega

def usable (bbt : Bbt) (ops : BlockOps) (empty : Bool) (b : Nat) : Bool :=
  !isbbtbadblock bbt b && ops.erases b && (empty || (ops.fault b).isNone)

def usableFrom (bbt : Bbt) (ops : BlockOps) (empty : Bool) (b d : Nat) : Nat :=
  (List.range' b d).countP (usable bbt ops empty)

theorem usableFrom_zero : usableFrom bbt ops empty b 0 = 0 := rfl

theorem usableFrom_succ (bbt : Bbt) (ops : BlockOps) (empty : Bool) (b d : Nat) :
    usableFrom bbt ops empty b (d + 1) =
      usableFrom bbt ops empty (b + 1) d + if usable bbt ops empty b then 1 else 0 := by
  unfold usableFrom
  rw [List.range'_succ,List.countP_cons]

theorem usable_bad (h : isbbtbadblock bbt b = true) : usable bbt ops empty b = false := by
  unfold usable
  rw [h]
  rfl

theorem usableFrom_pred (some : 0 < usableFrom bbt ops empty (b + 1) d) :
    usableFrom bbt ops empty b d =
      usableFrom bbt ops empty (b + 1) (d - 1) + if usable bbt ops empty b then 1 else 0 := by
  cases d with
  | zero =>
    rw [usableFrom_zero] at some
    omega
  | succ d => exact usableFrom_succ ..

theorem usableFrom_marked (bbt : Bbt) (lt : b < n) :
    usableFrom (updateBbtInram bbt b) ops empty n d = usableFrom bbt ops empty n d := by
  unfold usableFrom
  apply List.countP_congr
  intro c mem
  rw [List.mem_range'_1] at mem
  unfold usable
  rw [isbbtbadblock_other bbt (by omega)]

theorem writePages_cases (g : Geometry) (ecc : Ecc) (left mem : Bytes) (n : Nat)
    (fault : Option Nat) (addr naddr : Nat) (dev : Dev) :
    writePages g ecc left mem (n + 1) fault addr naddr dev = (false, dev.failPage g left naddr) ∨
      writePages g ecc left mem (n + 1) fault addr naddr dev =
        writePages g ecc left mem n (fault.map (· - 1)) (addr + g.oobblock)
          ((naddr + g.oobblock) % 2 ^ 32) (dev.programPage g ecc mem addr naddr) := by
  cases fault with
  | none => cases n <;> exact .inr rfl
  | some k =>
    cases n with
    | zero => exact .inl rfl
    | succ n =>
      cases k with
      | zero => exact .inl rfl
      | succ k => exact .inr rfl

theorem writePages_none (g : Geometry) (ecc : Ecc) (left mem : Bytes) (n addr naddr : Nat)
    (dev : Dev) :
    writePages g ecc left mem (n + 1) none addr naddr dev =
      writePages g ecc left mem n none (addr + g.oobblock) ((naddr + g.oobblock) % 2 ^ 32)
        (dev.programPage g ecc mem addr naddr) := by
  cases n <;> rfl

theorem writePages_fault (h : fault.isSome = true) (pos : 0 < n) :
    (writePages g ecc left mem n fault addr naddr dev).1 = false := by
  induction n generalizing fault addr naddr dev with
  | zero => omega
  | succ n ih =>
    obtain ⟨k,rfl⟩ := Option.isSome_iff_exists.mp h
    cases n with
    | zero => rfl
    | succ n =>
      cases k with
      | zero => rfl
      | succ k => exact ih rfl (Nat.succ_pos n)

theorem writePages_done : (writePages g ecc left mem n none addr naddr dev).1 = true := by
  induction n generalizing addr naddr dev with
  | zero => rfl
  | succ n ih =>
    rw [writePages_none]
    exact ih

theorem writePages_grows (h : t ∈ dev.touched) :
    t ∈ (writePages g ecc left mem n fault addr naddr dev).2.touched := by
  induction n generalizing fault addr naddr dev with
  | zero => exact h
  | succ n ih =>
    rcases writePages_cases g ecc left mem n fault addr naddr dev with eq | eq
    · rw [eq]
      exact List.mem_cons_of_mem _ h
    · rw [eq]
      exact ih (List.mem_cons_of_mem _ h)

theorem page_address (g : Geometry) (naddr i : Nat) :
    ((naddr + g.oobblock) % 2 ^ 32 + i * g.oobblock) % 2 ^ 32 =
      (naddr + (i + 1) * g.oobblock) % 2 ^ 32 := by
  rw [Nat.mod_add_mod,Nat.succ_mul,Nat.add_assoc,Nat.add_comm g.oobblock]

theorem writePages_touched (low : naddr < 2 ^ 32)
    (h : t ∈ (writePages g ecc left mem n fault addr naddr dev).2.touched) :
    t ∈ dev.touched ∨ ∃ i < n, t = (naddr + i * g.oobblock) % 2 ^ 32 / g.erasesize := by
  induction n generalizing fault addr naddr dev with
  | zero => exact .inl h
  | succ n ih =>
    have first : naddr / g.erasesize = (naddr + 0 * g.oobblock) % 2 ^ 32 / g.erasesize := by
      rw [Nat.zero_mul,Nat.add_zero,Nat.mod_eq_of_lt low]
    rcases writePages_cases g ecc left mem n fault addr naddr dev with eq | eq
    · rw [eq] at h
      rcases List.mem_cons.mp h with rfl | h
      · exact .inr ⟨0,Nat.succ_pos n,first⟩
      · exact .inl h
    rw [eq] at h
    rcases ih (Nat.mod_lt _ (by decide)) h with h | ⟨i,hi,rfl⟩
    · rcases List.mem_cons.mp h with rfl | h
      · exact .inr ⟨0,Nat.succ_pos n,first⟩
      · exact .inl h
    · exact .inr ⟨i + 1,Nat.succ_lt_succ hi,by rw [page_address]⟩

theorem writePages_reaches (low : naddr < 2 ^ 32) (hi : i < n) :
    (naddr + i * g.oobblock) % 2 ^ 32 / g.erasesize ∈
      (writePages g ecc left mem n none addr naddr dev).2.touched := by
  induction n generalizing addr naddr dev i with
  | zero => omega
  | succ n ih =>
    rw [writePages_none]
    cases i with
    | zero =>
      rw [Nat.zero_mul,Nat.add_zero,Nat.mod_eq_of_lt low]
      exact writePages_grows (List.mem_cons_self ..)
    | succ i =>
      rw [← page_address]
      exact ih (Nat.mod_lt _ (by decide)) (Nat.lt_of_succ_lt_succ hi)

theorem numPages_pos (pos : 0 < len) : 0 < numPages g len := by
  unfold numPages
  by_cases pages : len % g.oobblock = 0
  · have := Nat.le_of_dvd pos (Nat.dvd_of_mod_eq_zero pages)
    have := Nat.div_pos this g.page_pos
    omega
  · rw [if_neg pages]
    exact Nat.succ_pos _

theorem numPages_mul (pos : 0 < len) : (numPages g len - 1) * g.oobblock < len := by
  have split := Nat.div_add_mod' len g.oobblock
  unfold numPages
  by_cases pages : len % g.oobblock = 0
  · rw [if_pos pages,Nat.add_zero,Nat.sub_mul,Nat.one_mul]
    have := g.page_pos
    omega
  · rw [if_neg pages,Nat.add_sub_cancel]
    omega

def SaveEnds (g : Geometry) (ecc : Ecc) (ops : BlockOps) (mem : Bytes) (s f : Save) : Prop :=
  ∃ fuel, saveLoop g ecc ops mem fuel s = some f

namespace SaveEnds

theorem stop (h : saveRound g ecc ops mem s = .error f) : SaveEnds g ecc ops mem s f :=
  ⟨1,by simp [saveLoop,h]⟩

theorem step (h : saveRound g ecc ops mem s = .ok u) (rest : SaveEnds g ecc ops mem u f) :
    SaveEnds g ecc ops mem s f := by
  obtain ⟨fuel,eq⟩ := rest
  exact ⟨fuel + 1,by simp [saveLoop,h,eq]⟩

theorem of_step (h : saveRound g ecc ops mem s = .ok u) (ends : SaveEnds g ecc ops mem s f) :
    SaveEnds g ecc ops mem u f := by
  obtain ⟨fuel,eq⟩ := ends
  cases fuel with
  | zero => cases eq
  | succ fuel =>
    simp only [saveLoop,h] at eq
    exact ⟨fuel,eq⟩

theorem of_stop (h : saveRound g ecc ops mem s = .error u) (ends : SaveEnds g ecc ops mem s f) :
    f = u := by
  obtain ⟨fuel,eq⟩ := ends
  cases fuel with
  | zero => cases eq
  | succ fuel =>
    simp only [saveLoop,h] at eq
    exact (Option.some.inj eq).symm

end SaveEnds

/-- The device after the block of a state has been erased and, if that worked, written. -/
def Save.written (g : Geometry) (ecc : Ecc) (ops : BlockOps) (mem : Bytes) (s : Save) : Dev :=
  if ops.erases (s.naddr / g.erasesize) then
    (nandWriteBlock g ecc ops mem s.saddr s.naddr s.count.size
      (s.dev.wmtNandErase g ops s.naddr)).2
  else s.dev.wmtNandErase g ops s.naddr

def Save.placed (g : Geometry) (ecc : Ecc) (ops : BlockOps) (mem : Bytes) (s : Save) : Save :=
  { s with
    saddr := s.saddr + g.erasesize
    dev := s.written g ecc ops mem
    used := s.used ++ [s.naddr / g.erasesize] }

theorem saveRound_bad (bad : isbbtbadblock s.bbt (s.naddr / g.erasesize) = true) :
    saveRound g ecc ops mem s = .ok { s with naddr := s.ahead g } := if_pos bad

theorem saveRound_fails (size : empty = true ↔ s.count.size = 0)
    (good : isbbtbadblock s.bbt (s.naddr / g.erasesize) = false)
    (fails : usable s.bbt ops empty (s.naddr / g.erasesize) = false) :
    saveRound g ecc ops mem s = .ok (s.giveUp g (s.written g ecc ops mem)) := by
  unfold saveRound Save.written
  rw [if_neg (by simp [good])]
  by_cases erases : ops.erases (s.naddr / g.erasesize) = true
  · rw [if_pos erases,if_pos erases]
    have fault : (ops.fault (s.naddr / g.erasesize)).isSome = true ∧ 0 < s.count.size := by
      unfold usable at fails
      rw [good,erases] at fails
      cases empty with
      | true => simp at fails
      | false =>
        have : s.count.size ≠ 0 := fun zero => Bool.false_ne_true (size.mpr zero)
        refine ⟨?_,Nat.pos_of_ne_zero this⟩
        simpa using fails
    have failed : (nandWriteBlock g ecc ops mem s.saddr s.naddr s.count.size
        (s.dev.wmtNandErase g ops s.naddr)).1 = false :=
      writePages_fault fault.1 (numPages_pos fault.2)
    generalize nandWriteBlock g ecc ops mem s.saddr s.naddr s.count.size
      (s.dev.wmtNandErase g ops s.naddr) = result at failed ⊢
    obtain ⟨ok,dev⟩ := result
    subst failed
    rfl
  · rw [if_neg erases,if_neg erases]

theorem saveRound_placed (size : empty = true ↔ s.count.size = 0)
    (works : usable s.bbt ops empty (s.naddr / g.erasesize) = true) :
    saveRound g ecc ops mem s =
      match s.count.next g.erasesize with
      | none => .error (s.placed g ecc ops mem)
      | some count => .ok { s.placed g ecc ops mem with naddr := s.ahead g, count } := by
  unfold usable at works
  simp only [Bool.and_eq_true,Bool.not_eq_true',Bool.or_eq_true,Option.isNone_iff_eq_none]
    at works
  obtain ⟨⟨good,erases⟩,fault⟩ := works
  have done : (nandWriteBlock g ecc ops mem s.saddr s.naddr s.count.size
      (s.dev.wmtNandErase g ops s.naddr)).1 = true := by
    unfold nandWriteBlock
    rcases fault with zero | fault
    · rw [size.mp zero,numPages,Nat.zero_div,Nat.zero_mod,if_pos rfl]
      rfl
    · rw [fault]
      exact writePages_done
  have dev : s.written g ecc ops mem = (nandWriteBlock g ecc ops mem s.saddr s.naddr s.count.size
      (s.dev.wmtNandErase g ops s.naddr)).2 := if_pos erases
  unfold saveRound Save.placed
  rw [if_neg (by simp [good]),if_pos erases,dev]
  generalize nandWriteBlock g ecc ops mem s.saddr s.naddr s.count.size
    (s.dev.wmtNandErase g ops s.naddr) = result at done ⊢
  obtain ⟨ok,dev⟩ := result
  subst done
  rfl

theorem written_touched (low : s.naddr < 2 ^ 32) (h : t ∈ (s.written g ecc ops mem).touched) :
    t ∈ s.dev.touched ∨ t = s.naddr / g.erasesize ∨
      ∃ i < numPages g s.count.size, t = (s.naddr + i * g.oobblock) % 2 ^ 32 / g.erasesize := by
  have erased : t ∈ (s.dev.wmtNandErase g ops s.naddr).touched →
      t ∈ s.dev.touched ∨ t = s.naddr / g.erasesize := fun h => (List.mem_cons.mp h).symm
  unfold Save.written at h
  by_cases erases : ops.erases (s.naddr / g.erasesize) = true
  · rw [if_pos erases] at h
    rcases writePages_touched low h with h | pages
    · exact (erased h).imp_right .inl
    · exact .inr (.inr pages)
  · rw [if_neg erases] at h
    exact (erased h).imp_right .inl

theorem written_erased (h : t ∈ (s.dev.wmtNandErase g ops s.naddr).touched) :
    t ∈ (s.written g ecc ops mem).touched := by
  unfold Save.written
  by_cases erases : ops.erases (s.naddr / g.erasesize) = true
  · rw [if_pos erases]
    exact writePages_grows h
  · rw [if_neg erases]
    exact h

theorem written_grows (h : t ∈ s.dev.touched) : t ∈ (s.written g ecc ops mem).touched :=
  written_erased (List.mem_cons_of_mem _ h)

theorem written_self (g : Geometry) (ecc : Ecc) (ops : BlockOps) (mem : Bytes) (s : Save) :
    s.naddr / g.erasesize ∈ (s.written g ecc ops mem).touched :=
  written_erased (List.mem_cons_self ..)

theorem saveRound_cases (g : Geometry) (ecc : Ecc) (ops : BlockOps) (mem : Bytes) (s : Save)
    (size : empty = true ↔ s.count.size = 0) :
    isbbtbadblock s.bbt (s.naddr / g.erasesize) = true ∧
        saveRound g ecc ops mem s = .ok { s with naddr := s.ahead g } ∨
      isbbtbadblock s.bbt (s.naddr / g.erasesize) = false ∧
        usable s.bbt ops empty (s.naddr / g.erasesize) = false ∧
        saveRound g ecc ops mem s = .ok (s.giveUp g (s.written g ecc ops mem)) ∨
      usable s.bbt ops empty (s.naddr / g.erasesize) = true ∧ (s.count.next g.erasesize = none ∧
            saveRound g ecc ops mem s = .error (s.placed g ecc ops mem) ∨
          ∃ count, s.count.next g.erasesize = some count ∧ saveRound g ecc ops mem s =
              .ok { s.placed g ecc ops mem with naddr := s.ahead g, count }) := by
  by_cases bad : isbbtbadblock s.bbt (s.naddr / g.erasesize) = true
  · exact .inl ⟨bad,saveRound_bad bad⟩
  have good : isbbtbadblock s.bbt (s.naddr / g.erasesize) = false := by simpa using bad
  by_cases works : usable s.bbt ops empty (s.naddr / g.erasesize) = true
  · refine .inr (.inr ⟨works,?_⟩)
    cases next : s.count.next g.erasesize with
    | none => exact .inl ⟨rfl,by rw [saveRound_placed size works,next]⟩
    | some count => exact .inr ⟨count,rfl,by rw [saveRound_placed size works,next]⟩
  · have fails : usable s.bbt ops empty (s.naddr / g.erasesize) = false := by simpa using works
    exact .inr (.inl ⟨good,fails,saveRound_fails size good fails⟩)

theorem SaveEnds.grows (ends : SaveEnds g ecc ops mem s f) (h : t ∈ s.dev.touched) :
    t ∈ f.dev.touched := by
  obtain ⟨fuel,eq⟩ := ends
  induction fuel generalizing s with
  | zero => cases eq
  | succ fuel ih =>
    have size : (s.count.size == 0) = true ↔ s.count.size = 0 := beq_iff_eq
    unfold saveLoop at eq
    rcases saveRound_cases g ecc ops mem s size with
      ⟨-,round⟩ | ⟨-,-,round⟩ | ⟨-,⟨-,round⟩ | ⟨c,-,round⟩⟩
    · rw [round] at eq
      exact ih (s := { s with naddr := s.ahead g }) h eq
    · rw [round] at eq
      exact ih (written_grows h) eq
    · rw [round] at eq
      cases eq
      exact written_grows h
    · rw [round] at eq
      exact ih (written_grows h) eq

/-- A state at the offset `ofs` in block `b` with so many bytes left. -/
structure Stands (g : Geometry) (b ofs L : Nat) (s : Save) : Prop where
  naddr : s.naddr = b * g.erasesize + ofs
  inside : ofs < g.erasesize
  count : Left g.erasesize L s.count

structure Moves (g : Geometry) (b ofs L : Nat) (bbt : Bbt) (dev : Dev) (saddr : Nat)
    (used : List Nat) (u : Save) : Prop where
  stands : Stands g (b + 1) ofs L u
  bbt : u.bbt = bbt
  dev : u.dev = dev
  saddr : u.saddr = saddr
  used : u.used = used

namespace Stands

variable {ofs : Nat}

theorem block (h : Stands g b ofs L s) : s.naddr / g.erasesize = b := by
  rw [h.naddr,Nat.mul_comm,Nat.mul_add_div (erasesize_pos g),Nat.div_eq_of_lt h.inside,
    Nat.add_zero]

theorem ahead (h : Stands g b ofs L s) (room : b * g.erasesize + g.erasesize + ofs < 2 ^ 32) :
    s.ahead g = (b + 1) * g.erasesize + ofs := by
  unfold Save.ahead
  rw [h.naddr,Nat.add_right_comm,Nat.mod_eq_of_lt room,Nat.succ_mul]

theorem size (h : Stands g b ofs L s) (zero : empty = true ↔ L = 0) :
    empty = true ↔ s.count.size = 0 := by
  have pos := erasesize_pos g
  rw [zero,h.count.size]
  omega

theorem cases (ecc : Ecc) (ops : BlockOps) (mem : Bytes) (h : Stands g b ofs L s) (zero : empty = true ↔ L = 0)
    (room : b * g.erasesize + g.erasesize + ofs < 2 ^ 32) :
    isbbtbadblock s.bbt b = true ∧ (∃ u, saveRound g ecc ops mem s = .ok u ∧ u.count = s.count ∧
          Moves g b ofs L s.bbt s.dev s.saddr s.used u) ∨
      isbbtbadblock s.bbt b = false ∧ usable s.bbt ops empty b = false ∧
        (∃ u, saveRound g ecc ops mem s = .ok u ∧ u.count = s.count ∧
          Moves g b ofs L (updateBbtInram s.bbt b) (s.written g ecc ops mem) s.saddr s.used u) ∨
      usable s.bbt ops empty b = true ∧ L ≤ g.erasesize ∧
        saveRound g ecc ops mem s = .error (s.placed g ecc ops mem) ∨
      usable s.bbt ops empty b = true ∧ g.erasesize < L ∧
        ∃ u, saveRound g ecc ops mem s = .ok u ∧ s.count.next g.erasesize = some u.count ∧
          Moves g b ofs (L - g.erasesize) s.bbt (s.written g ecc ops mem)
            (s.saddr + g.erasesize) (s.used ++ [b]) u := by
  have rounds := saveRound_cases g ecc ops mem s (h.size zero)
  rw [h.block] at rounds
  rcases rounds with ⟨bad,round⟩ | ⟨good,fails,round⟩ | ⟨works,⟨next,round⟩ | ⟨c,next,round⟩⟩
  · exact .inl ⟨bad,_,round,rfl,⟨h.ahead room,h.inside,h.count⟩,rfl,rfl,rfl,rfl⟩
  · exact .inr (.inl ⟨good,fails,_,round,rfl,⟨h.ahead room,h.inside,h.count⟩,
      congrArg (updateBbtInram s.bbt) h.block,rfl,rfl,rfl⟩)
  · refine .inr (.inr (.inl ⟨works,?_,round⟩))
    by_contra more
    obtain ⟨c,some,-⟩ := h.count.more (Nat.lt_of_not_le more)
    rw [next] at some
    cases some
  have more : g.erasesize < L := by
    by_contra le
    rw [h.count.last (Nat.le_of_not_lt le)] at next
    cases next
  obtain ⟨c',some,left⟩ := h.count.more more
  rw [next] at some
  cases some
  exact .inr (.inr (.inr ⟨works,more,_,round,next,⟨h.ahead room,h.inside,left⟩,rfl,rfl,
    rfl,congrArg (fun b => s.used ++ [b]) h.block⟩))

theorem touched (h : Stands g b ofs L s) (low : b * g.erasesize + ofs < 2 ^ 32)
    (ht : t ∈ (s.written g ecc ops mem).touched) :
    t ∈ s.dev.touched ∨ t ≤ b + 1 ∧
      (ofs + (numPages g s.count.size - 1) * g.oobblock < g.erasesize → t ≤ b) := by
  rw [← h.naddr] at low
  rcases written_touched low ht with old | rfl | ⟨i,hi,rfl⟩
  · exact .inl old
  · rw [h.block]
    exact .inr ⟨Nat.le_succ b,fun _ => Nat.le_refl b⟩
  have pos : 0 < s.count.size := by
    by_contra zero
    rw [Nat.eq_zero_of_not_pos zero,numPages,Nat.zero_div,Nat.zero_mod,if_pos rfl] at hi
    omega
  have pages := numPages_mul (g := g) pos
  have offset : i * g.oobblock ≤ (numPages g s.count.size - 1) * g.oobblock :=
    Nat.mul_le_mul_right _ (by omega)
  have size := h.count.size
  have inside := h.inside
  have below : (s.naddr + i * g.oobblock) % 2 ^ 32 ≤ b * g.erasesize + (ofs + i * g.oobblock) := by
    rw [h.naddr,Nat.add_assoc]
    exact Nat.mod_le _ _
  refine .inr ⟨Nat.lt_succ_iff.mp ?_,fun fits => Nat.lt_succ_iff.mp ?_⟩
  · rw [Nat.div_lt_iff_lt_mul (erasesize_pos g),Nat.succ_mul,Nat.succ_mul]
    omega
  · rw [Nat.div_lt_iff_lt_mul (erasesize_pos g),Nat.succ_mul]
    omega

end Stands

end Apc8750.Nand
