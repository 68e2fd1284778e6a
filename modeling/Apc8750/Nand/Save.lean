import Apc8750.Nand.Copies
import Apc8750.Nand.Rounds
import Apc8750.Nand.Transfers

namespace Apc8750.Nand

variable {g : Geometry} {ecc : Ecc} {ops : BlockOps} {mem : Bytes} {s f : Save} {dev : Dev}
  {bbt : Bbt} {empty : Bool} {L b d n naddr len : Nat}

def EndsInside (g : Geometry) (ofs L : Nat) : Prop :=
  ofs + (numPages g (lastPart g 0 L) - 1) * g.oobblock < g.erasesize

theorem lastPart_last (le : L ≤ g.erasesize) : lastPart g 0 L = L := if_pos (by omega)

theorem lastPart_more (lt : g.erasesize < L) : lastPart g 0 (L - g.erasesize) = lastPart g 0 L :=
  lastPart_next (erasesize_pos g) lt

theorem save_contained {ofs : Nat} (ecc : Ecc) (mem : Bytes) (h : Stands g b ofs L s)
    (zero : empty = true ↔ L = 0) (room : (b + d) * g.erasesize + g.erasesize ≤ 2 ^ 32)
    (enough : blocksNeeded g.erasesize L ≤ usableFrom s.bbt ops empty b d)
    (last : blocksNeeded g.erasesize L ≤ usableFrom s.bbt ops empty b (d - 1) ∨ EndsInside g ofs L) :
    ∃ f, SaveEnds g ecc ops mem s f ∧ ∀ t ∈ f.dev.touched, t ∈ s.dev.touched ∨ t < b + d := by
  induction d generalizing b L s with
  | zero =>
    have needed : 1 ≤ blocksNeeded g.erasesize L := Nat.le_max_left _ _
    rw [usableFrom_zero] at enough
    omega
  | succ d ih =>
    have inside := h.inside
    have needed : 1 ≤ blocksNeeded g.erasesize L := Nat.le_max_left _ _
    have low : b * g.erasesize + g.erasesize ≤ (b + (d + 1)) * g.erasesize := block_end_mul (by omega)
    have room' : (b + 1 + d) * g.erasesize + g.erasesize ≤ 2 ^ 32 := by
      rwa [Nat.add_assoc,Nat.add_comm 1 d]
    -- the rest of the run, with the blocks that this round has touched
    have rest {u : Save} {bbt : Bbt} {dev : Dev} {M saddr : Nat} {used : List Nat}
        (round : saveRound g ecc ops mem s = .ok u) (move : Moves g b ofs M bbt dev saddr used u) (zero : empty = true ↔ M = 0)
        (enough : blocksNeeded g.erasesize M ≤ usableFrom bbt ops empty (b + 1) d)
        (last : blocksNeeded g.erasesize M ≤ usableFrom bbt ops empty (b + 1) (d - 1) ∨
          EndsInside g ofs M)
        (touched : ∀ t ∈ dev.touched, t ∈ s.dev.touched ∨ t ≤ b + 1) :
        ∃ f, SaveEnds g ecc ops mem s f ∧
          ∀ t ∈ f.dev.touched, t ∈ s.dev.touched ∨ t < b + (d + 1) := by
      have more : d ≠ 0 := by
        rintro rfl
        have : 1 ≤ blocksNeeded g.erasesize M := Nat.le_max_left _ _
        rw [usableFrom_zero] at enough
        omega
      obtain ⟨f,ends,all⟩ := ih move.stands zero room' (move.bbt ▸ enough) (move.bbt ▸ last)
      refine ⟨f,.step round ends,fun t mem => ?_⟩
      rcases all t mem with old | new
      · rw [move.dev] at old
        exact (touched t old).imp_right fun le => by omega
      · exact .inr (by omega)
    have written : ∀ t ∈ (s.written g ecc ops mem).touched, t ∈ s.dev.touched ∨ t ≤ b + 1 :=
      fun t mem => (h.touched (by omega) mem).imp_right And.left
    rw [usableFrom_succ] at enough
    rw [Nat.add_sub_cancel] at last
    rcases h.cases ecc ops mem zero (by omega) with
      ⟨bad,u,round,-,move⟩ | ⟨good,fails,u,round,-,move⟩ | ⟨works,le,round⟩ |
      ⟨works,lt,u,round,-,move⟩
    · rw [usable_bad bad,if_neg Bool.false_ne_true,Nat.add_zero] at enough
      rw [usableFrom_pred (by omega),usable_bad bad,if_neg Bool.false_ne_true,Nat.add_zero] at last
      exact rest round move zero enough last fun t mem => .inl mem
    · rw [fails,if_neg Bool.false_ne_true,Nat.add_zero,← usableFrom_marked s.bbt (Nat.lt_succ_self b)]
        at enough
      rw [usableFrom_pred (by rw [← usableFrom_marked s.bbt (Nat.lt_succ_self b)]; omega),fails,
        if_neg Bool.false_ne_true,Nat.add_zero,← usableFrom_marked s.bbt (Nat.lt_succ_self b)] at last
      exact rest round move zero enough last written
    · refine ⟨_,.stop round,fun t mem => ?_⟩
      refine (h.touched (by omega) mem).imp_right fun ⟨near,close⟩ => ?_
      rcases Nat.eq_zero_or_pos d with rfl | pos
      · have ends : EndsInside g ofs L := last.resolve_left (by rw [usableFrom_zero]; omega)
        unfold EndsInside at ends
        rw [lastPart_last le] at ends
        rw [h.count.size,Nat.min_eq_left le] at close
        have := close ends
        omega
      · omega
    · have count := blocksNeeded_more (erasesize_pos g) lt
      have : 1 ≤ blocksNeeded g.erasesize (L - g.erasesize) := Nat.le_max_left _ _
      rw [works,if_pos rfl] at enough
      rw [usableFrom_pred (by omega),works,if_pos rfl] at last
      refine rest round move ?_ (by omega) ?_ written
      · rw [zero]
        omega
      · refine last.imp (fun le => by omega) fun ends => ?_
        unfold EndsInside at ends ⊢
        rwa [lastPart_more lt]

theorem SaveEnds.touches (ends : SaveEnds g ecc ops mem s f)
    (good : isbbtbadblock s.bbt (s.naddr / g.erasesize) = false) :
    s.naddr / g.erasesize ∈ f.dev.touched := by
  have size : (s.count.size == 0) = true ↔ s.count.size = 0 := beq_iff_eq
  have here := written_self g ecc ops mem s
  rcases saveRound_cases g ecc ops mem s size with
    ⟨bad,-⟩ | ⟨-,-,round⟩ | ⟨-,⟨-,round⟩ | ⟨c,-,round⟩⟩
  · rw [good] at bad
    cases bad
  · exact (ends.of_step round).grows here
  · rw [ends.of_stop round]
    exact here
  · exact (ends.of_step round).grows here

theorem Stands.escapes {M ofs : Nat} (h : Stands g b ofs L s) (high : M ≤ b)
    (good : isbbtbadblock s.bbt b = false) (ends : SaveEnds g ecc ops mem s f) :
    ∃ t ∈ f.dev.touched, M ≤ t := by
  rw [← h.block] at good high
  exact ⟨_,ends.touches good,high⟩

theorem SaveEnds.escapes_tail {M ofs : Nat} (room : (b + d) * g.erasesize + g.erasesize ≤ 2 ^ 32)
    (h : Stands g b ofs L s) (high : M ≤ b) (behind : isbbtbadblock s.bbt (b + d) = false)
    (ends : SaveEnds g ecc ops mem s f) : ∃ t ∈ f.dev.touched, M ≤ t := by
  induction d generalizing b s with
  | zero => exact h.escapes high behind ends
  | succ d ih =>
    by_cases good : isbbtbadblock s.bbt b = false
    · exact h.escapes high good ends
    have inside := h.inside
    have low : b * g.erasesize + g.erasesize ≤ (b + (d + 1)) * g.erasesize := block_end_mul (by omega)
    have same : b + 1 + d = b + (d + 1) := by omega
    have zero : (L == 0) = true ↔ L = 0 := beq_iff_eq
    have unusable : usable s.bbt ops (L == 0) b = false := usable_bad (by simpa using good)
    rcases h.cases ecc ops mem zero (by omega) with
      ⟨-,u,round,-,move⟩ | ⟨isGood,-⟩ | ⟨works,-⟩ | ⟨works,-⟩
    · exact ih (by rwa [same]) move.stands (by omega) (by rwa [same,move.bbt]) (ends.of_step round)
    · exact absurd isGood good
    · rw [unusable] at works
      cases works
    · rw [unusable] at works
      cases works

theorem Stands.crosses {ofs : Nat} (h : Stands g b ofs L s) (le : L ≤ g.erasesize)
    (zero : empty = true ↔ L = 0) (works : usable s.bbt ops empty b = true)
    (room : b * g.erasesize + g.erasesize + g.erasesize ≤ 2 ^ 32) (crosses : ¬EndsInside g ofs L) :
    b + 1 ∈ (s.written g ecc ops mem).touched := by
  have inside := h.inside
  have size : s.count.size = L := h.count.size.trans (Nat.min_eq_left le)
  have pos : 0 < L := by
    by_contra none
    refine crosses ?_
    unfold EndsInside
    rw [lastPart_last le,Nat.eq_zero_of_not_pos none,numPages,Nat.zero_div,Nat.zero_mod,if_pos rfl]
    omega
  have pages := numPages_mul (g := g) pos
  unfold EndsInside at crosses
  rw [lastPart_last le] at crosses
  unfold usable at works
  simp only [Bool.and_eq_true,Bool.not_eq_true',Bool.or_eq_true,Option.isNone_iff_eq_none]
    at works
  obtain ⟨⟨-,erases⟩,fault⟩ := works
  have fault : ops.fault b = none := fault.resolve_left fun none => by
    have := zero.mp none
    omega
  have naddr := h.naddr
  have block : (s.naddr + (numPages g L - 1) * g.oobblock) % 2 ^ 32 / g.erasesize = b + 1 := by
    rw [Nat.mod_eq_of_lt (by omega),Nat.div_eq_iff (erasesize_pos g),Nat.succ_mul]
    omega
  unfold Save.written nandWriteBlock
  rw [h.block,if_pos erases,fault,size,← block]
  exact writePages_reaches (by omega) (Nat.sub_lt (numPages_pos pos) Nat.one_pos)

theorem SaveEnds.escapes {ofs e : Nat} (h : Stands g b ofs L s) (zero : empty = true ↔ L = 0)
    (room : (b + d + 1 + e) * g.erasesize + g.erasesize ≤ 2 ^ 32)
    (behind : isbbtbadblock s.bbt (b + d + 1 + e) = false)
    (few : usableFrom s.bbt ops empty b d < blocksNeeded g.erasesize L)
    (last : usableFrom s.bbt ops empty b (d + 1) < blocksNeeded g.erasesize L ∨ ¬EndsInside g ofs L)
    (ends : SaveEnds g ecc ops mem s f) : ∃ t ∈ f.dev.touched, b + d + 1 ≤ t := by
  have lowest (c : Nat) (le : b ≤ c) (high : c ≤ b + d + 1 + e) :
      c * g.erasesize + g.erasesize ≤ 2 ^ 32 := by
    have := Nat.mul_le_mul_right g.erasesize high
    omega
  induction d generalizing b L s with
  | zero =>
    have inside := h.inside
    have next := lowest (b + 1) (by omega) (by omega)
    rw [Nat.succ_mul] at next
    have tail {u : Save} {bbt : Bbt} {dev : Dev} {M saddr : Nat} {used : List Nat}
        (round : saveRound g ecc ops mem s = .ok u) (move : Moves g b ofs M bbt dev saddr used u) (behind : isbbtbadblock bbt (b + 1 + e) = false) :
        ∃ t ∈ f.dev.touched, b + 0 + 1 ≤ t :=
      (ends.of_step round).escapes_tail room move.stands (Nat.le_refl _) (move.bbt ▸ behind)
    rcases h.cases ecc ops mem zero (by omega) with
      ⟨-,u,round,-,move⟩ | ⟨-,-,u,round,-,move⟩ | ⟨works,le,round⟩ |
      ⟨-,-,u,round,-,move⟩
    · exact tail round move behind
    · refine tail round move ?_
      rwa [isbbtbadblock_other s.bbt (by omega)]
    · have crosses : ¬EndsInside g ofs L := by
        refine last.resolve_left ?_
        rw [usableFrom_succ,usableFrom_zero,works,if_pos rfl,blocksNeeded_last le]
        omega
      rw [ends.of_stop round]
      exact ⟨b + 1,h.crosses le zero works (by omega) crosses,Nat.le_refl _⟩
    · exact tail round move behind
  | succ d ih =>
    have inside := h.inside
    have next := lowest (b + 1) (by omega) (by omega)
    rw [Nat.succ_mul] at next
    have same : b + 1 + d + 1 = b + (d + 1) + 1 := by omega
    have rest {u : Save} {bbt : Bbt} {dev : Dev} {M saddr : Nat} {used : List Nat}
        (round : saveRound g ecc ops mem s = .ok u) (move : Moves g b ofs M bbt dev saddr used u) (zero : empty = true ↔ M = 0)
        (behind : isbbtbadblock bbt (b + (d + 1) + 1 + e) = false)
        (few : usableFrom bbt ops empty (b + 1) d < blocksNeeded g.erasesize M)
        (last : usableFrom bbt ops empty (b + 1) (d + 1) < blocksNeeded g.erasesize M ∨
          ¬EndsInside g ofs M) : ∃ t ∈ f.dev.touched, b + (d + 1) + 1 ≤ t := by
      rw [← same]
      refine ih move.stands zero (by rwa [same]) (by rwa [same,move.bbt]) (move.bbt ▸ few)
        (move.bbt ▸ last) (ends.of_step round) fun c le high => ?_
      exact lowest c (by omega) (by omega)
    rw [usableFrom_succ] at few last
    rcases h.cases ecc ops mem zero (by omega) with
      ⟨bad,u,round,-,move⟩ | ⟨-,fails,u,round,-,move⟩ | ⟨works,le,round⟩ |
      ⟨works,lt,u,round,-,move⟩
    · rw [usable_bad bad,if_neg Bool.false_ne_true,Nat.add_zero] at few last
      exact rest round move zero behind few last
    · rw [fails,if_neg Bool.false_ne_true,Nat.add_zero,← usableFrom_marked s.bbt (Nat.lt_succ_self b)]
        at few last
      refine rest round move zero ?_ few last
      rwa [isbbtbadblock_other s.bbt (by omega)]
    · rw [works,if_pos rfl,blocksNeeded_last le] at few
      omega
    have count := blocksNeeded_more (erasesize_pos g) lt
    rw [works,if_pos rfl] at few last
    refine rest round move ?_ behind (by omega) ?_
    · rw [zero]
      omega
    · refine last.imp (fun le => by omega) fun ends => ?_
      unfold EndsInside at ends ⊢
      rwa [lastPart_more lt]

theorem usableFrom_le (bbt : Bbt) (ops : BlockOps) (empty : Bool) (b d : Nat) :
    usableFrom bbt ops empty b d ≤ usableFrom bbt ops empty b (d + 1) := by
  unfold usableFrom
  rw [List.range'_concat,List.countP_append]
  exact Nat.le_add_right _ _

/-- The tables show the same for the blocks of the device; what lies behind them is any. -/
def SameBelow (n : Nat) (bbt bbt' : Bbt) : Prop :=
  ∀ b < n, isbbtbadblock bbt' b = isbbtbadblock bbt b

theorem usableFrom_same {bbt' : Bbt} (same : SameBelow n bbt bbt') (le : b + d ≤ n) :
    usableFrom bbt' ops empty b d = usableFrom bbt ops empty b d := by
  unfold usableFrom
  apply List.countP_congr
  intro c mem
  rw [List.mem_range'_1] at mem
  unfold usable
  rw [same c (by omega)]

def Suffices (g : Geometry) (ops : BlockOps) (bbt : Bbt) (naddr len : Nat) : Prop :=
  blocksNeeded g.erasesize len ≤
    usableFrom bbt ops (len == 0) (naddr / g.erasesize)
      (g.dwBlockCount - bbtMaxBlock - naddr / g.erasesize)

/-- Saving ends, touches no table block and does not return zero where the blocks do not suffice. -/
def Contained (g : Geometry) (oobsize : Nat) (ops : BlockOps) (tables : Memory) (mem : Bytes)
    (dev : Dev) (naddr dwImageStart dwImageLength : Nat) : Prop :=
  ∀ bbt, SameBelow g.dwBlockCount tables.bbt bbt → ∃ fuel s rc m,
    wmtSaveImageToNAND g oobsize ops { tables with bbt } mem dev fuel naddr dwImageStart
      dwImageLength = some (s, .ok (rc, m)) ∧
    (∀ t ∈ s.dev.touched, t < g.dwBlockCount - bbtMaxBlock) ∧
    (¬Suffices g ops tables.bbt naddr dwImageLength → rc ≠ 0)

/-- The blocks suffice, and an image that takes the last one ends in it. -/
structure Roomy (g : Geometry) (ops : BlockOps) (bbt : Bbt) (naddr len : Nat) : Prop where
  enough : Suffices g ops bbt naddr len
  ending : blocksNeeded g.erasesize len ≤
      usableFrom bbt ops (len == 0) (naddr / g.erasesize)
        (g.dwBlockCount - bbtMaxBlock - naddr / g.erasesize - 1) ∨
    EndsInside g (naddr % g.erasesize) len

theorem Suffices.low (h : Suffices g ops bbt naddr len) :
    naddr / g.erasesize < g.dwBlockCount - bbtMaxBlock := by
  have needed : 1 ≤ blocksNeeded g.erasesize len := Nat.le_max_left _ _
  unfold Suffices at h
  by_contra high
  rw [Nat.sub_eq_zero_of_le (Nat.le_of_not_lt high),usableFrom_zero] at h
  omega

theorem add_tables (low : b < g.dwBlockCount - bbtMaxBlock) :
    b + (g.dwBlockCount - bbtMaxBlock - b) = g.dwBlockCount - bbtMaxBlock :=
  Nat.add_sub_cancel' (Nat.le_of_lt low)

theorem tables_room (low : b < g.dwBlockCount - bbtMaxBlock) :
    (b + (g.dwBlockCount - bbtMaxBlock - b)) * g.erasesize + g.erasesize ≤ 2 ^ 32 := by
  have below : g.dwBlockCount - bbtMaxBlock < g.dwBlockCount :=
    Nat.sub_lt (Nat.lt_of_lt_of_le (Nat.zero_lt_of_lt low) (Nat.sub_le _ _)) (by decide)
  rw [add_tables low]
  exact Nat.le_trans (block_end_le below) (totlen_le g)

theorem stands_start (g : Geometry) (naddr start len : Nat) (bbt : Bbt) (dev : Dev) :
    Stands g (naddr / g.erasesize) (naddr % g.erasesize) len
      ⟨naddr,start,.start g.erasesize len,false,bbt,dev,[]⟩ :=
  ⟨(Nat.div_add_mod' naddr g.erasesize).symm,Nat.mod_lt _ (erasesize_pos g),.start _ _⟩

theorem finish_steady (steady : Steady ops.table) (tables : Memory) (s : Save) :
    ∃ rc m, finish g ops tables s = .ok (rc,m) ∧
      ∀ i < g.dwBlockCount - bbtMaxBlock, isbbtbadblock m.bbt i = isbbtbadblock s.bbt i := by
  unfold finish
  by_cases need : s.need = true
  · rw [if_pos need]
    exact updateBbtInflash_steady steady g.dwBlockCount { tables with bbt := s.bbt }
  · rw [if_neg need]
    exact ⟨0,_,rfl,fun _ _ => rfl⟩

section Tables

variable {oobsize start : Nat} {tables : Memory} (fresh : dev.touched = [])

include fresh in
theorem Roomy.contained (h : Roomy g ops tables.bbt naddr len) (steady : Steady ops.table) :
    Contained g oobsize ops tables mem dev naddr start len := by
  intro bbt same
  have zero : (len == 0) = true ↔ len = 0 := beq_iff_eq
  have low := h.enough.low
  have sum := add_tables low
  have enough := h.enough
  have ending := h.ending
  unfold Suffices at enough
  rw [← usableFrom_same same (by omega)] at enough ending
  obtain ⟨f,⟨fuel,run⟩,all⟩ := save_contained (saveEcc g oobsize) mem
    (stands_start g naddr start len bbt dev) zero (tables_room low) enough ending
  obtain ⟨rc,m,finished,-⟩ := finish_steady steady { tables with bbt } f
  refine ⟨fuel,f,rc,m,?_,fun t mem => ?_,fun few => absurd h.enough few⟩
  · rw [wmtSaveImageToNAND,run,Option.map_some,finished]
  rcases all t mem with old | new
  · rw [fresh] at old
    cases old
  · rwa [sum] at new

theorem Contained.roomy (h : Contained g oobsize ops tables mem dev naddr start len)
    (inside : naddr < g.totlen) (room : g.totlen + g.erasesize ≤ 2 ^ 32) :
    Roomy g ops tables.bbt naddr len := by
  have block : naddr / g.erasesize < g.dwBlockCount :=
    (Nat.div_lt_iff_lt_mul (erasesize_pos g)).mpr inside
  have zero : (len == 0) = true ↔ len = 0 := beq_iff_eq
  have same : SameBelow g.dwBlockCount tables.bbt (unmark tables.bbt g.dwBlockCount) :=
    fun b low => isbbtbadblock_unmark_other tables.bbt (Nat.ne_of_lt low)
  have good := isbbtbadblock_unmark tables.bbt g.dwBlockCount
  obtain ⟨fuel,s,rc,m,run,touched,-⟩ := h _ same
  obtain ⟨f,eq,result⟩ := Option.map_eq_some_iff.mp run
  obtain rfl : f = s := congrArg Prod.fst result
  have ends : SaveEnds g (saveEcc g oobsize) ops mem _ f := ⟨fuel,eq⟩
  have stands := stands_start g naddr start len (unmark tables.bbt g.dwBlockCount) dev
  by_cases low : naddr / g.erasesize < g.dwBlockCount - bbtMaxBlock
  · by_contra cramped
    obtain ⟨d,hd⟩ := Nat.exists_eq_add_of_lt low
    have left : g.dwBlockCount - bbtMaxBlock - naddr / g.erasesize = d + 1 := by
      rw [hd,Nat.add_assoc,Nat.add_sub_cancel_left]
    have sum : naddr / g.erasesize + d + 1 + bbtMaxBlock = g.dwBlockCount := by
      rw [← hd]
      exact Nat.sub_add_cancel (Nat.le_of_lt (Nat.lt_of_sub_pos (Nat.zero_lt_of_lt low)))
    have few : usableFrom tables.bbt ops (len == 0) (naddr / g.erasesize) d <
          blocksNeeded g.erasesize len ∧
        (usableFrom tables.bbt ops (len == 0) (naddr / g.erasesize) (d + 1) <
          blocksNeeded g.erasesize len ∨ ¬EndsInside g (naddr % g.erasesize) len) := by
      have mono := usableFrom_le tables.bbt ops (len == 0) (naddr / g.erasesize) d
      by_cases enough : Suffices g ops tables.bbt naddr len
      · have apart := not_or.mp fun ending => cramped ⟨enough,ending⟩
        rw [left,Nat.add_sub_cancel] at apart
        exact ⟨Nat.lt_of_not_le apart.1,.inr apart.2⟩
      · unfold Suffices at enough
        rw [left] at enough
        exact ⟨by omega,.inl (by omega)⟩
    rw [← usableFrom_same same (by omega),← usableFrom_same same (by omega)] at few
    obtain ⟨t,mem,high⟩ := ends.escapes (d := d) (e := bbtMaxBlock) stands zero (by rwa [sum])
      (by rwa [sum]) few.1 few.2
    have := touched t mem
    omega
  · have sum : naddr / g.erasesize + (g.dwBlockCount - naddr / g.erasesize) = g.dwBlockCount := by
      omega
    obtain ⟨t,mem,high⟩ := ends.escapes_tail (d := g.dwBlockCount - naddr / g.erasesize)
      (by rwa [sum]) stands (Nat.le_of_not_lt low) (by rwa [sum])
    have := touched t mem
    omega

end Tables

/-- Saving keeps off the table blocks if, and below 4 GB only if, there is room before. -/
theorem save_below_tables (g : Geometry) (oobsize : Nat) (ops : BlockOps) (tables : Memory)
    (mem : Bytes) (dev : Dev) (naddr dwImageStart dwImageLength : Nat)
    (steady : Steady ops.table) (fresh : dev.touched = []) (inside : naddr < g.totlen) :
    (Roomy g ops tables.bbt naddr dwImageLength →
        Contained g oobsize ops tables mem dev naddr dwImageStart dwImageLength) ∧
      (g.totlen + g.erasesize ≤ 2 ^ 32 →
        Contained g oobsize ops tables mem dev naddr dwImageStart dwImageLength →
        Roomy g ops tables.bbt naddr dwImageLength) :=
  ⟨fun roomy => roomy.contained fresh steady, fun room contained => contained.roomy inside room⟩

def small : Geometry := { tiny with dwBlockCount := 6, totlen_le := by decide }

def faultless : BlockOps := ⟨fun _ => true, fun _ => none, fun _ => 0, sound⟩

def untouched : Dev := ⟨fun _ => 0xff, fun _ => .ecc4bit, []⟩

theorem faultless_steady : Steady faultless.table := by
  intro i left
  exact ⟨by rintro ⟨⟩,by rintro ⟨⟩⟩

theorem save_below_tables_small :
    Roomy small faultless unmarked.bbt 0 10 ∧
      Contained small 64 faultless unmarked (fun _ => 0) untouched 0 0 10 := by
  have roomy : Roomy small faultless unmarked.bbt 0 10 :=
    ⟨by unfold Suffices; decide, .inr (by unfold EndsInside; decide)⟩
  exact ⟨roomy, (save_below_tables small 64 faultless unmarked (fun _ => 0) untouched 0 0 10
    faultless_steady rfl (by decide)).1 roomy⟩

/-- An image of three blocks is written over the first table block, and zero is returned. -/
theorem table_overwritten : ¬Suffices small faultless unmarked.bbt 0 24 ∧
    (wmtSaveImageToNAND small 64 faultless unmarked (fun _ => 0) untouched 4 0 0 24).map
      (fun r => (r.1.dev.touched.head?, r.2.toOption.map Prod.fst)) = some (some 2, some 0) := by
  refine ⟨by unfold Suffices; decide, ?_⟩
  decide

end Apc8750.Nand
