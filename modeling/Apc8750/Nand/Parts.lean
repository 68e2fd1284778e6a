import Apc8750.Nand.ReadWrite

namespace Apc8750.Nand
open Spans

variable {g : Geometry} {t : Transfer} {cmd : Cmd} {base start len col page retlen fuel n k : Nat}

theorem fromDataBuf_nfcReadPage (h : col + n ≤ g.oobblock) :
    (t.nfcReadPage g page).fromDataBuf col k n =
      { t with
        dataBuf := (t.nfcReadPage g page).dataBuf
        buf := blit t.buf k t.flash (page * g.oobblock + col) n
        reach := max t.reach (k + n) } := by
  have through : blit t.buf k (t.nfcReadPage g page).dataBuf col n =
      blit t.buf k t.flash (page * g.oobblock + col) n := by
    have all : 0 + col + n ≤ 0 + g.oobblock := by omega
    rw [← Nat.zero_add col]
    exact (blit_through all).trans (by rw [Nat.zero_add])
  rw [← through]
  rfl

theorem readLoop_eq (hcol : col < g.oobblock) (more : retlen < len) (enough : len ≤ retlen + fuel) :
    ∃ d, readLoop g base len fuel page col retlen t =
      (len, { t with
        dataBuf := d
        buf := blit t.buf (base + retlen) t.flash (page * g.oobblock + col) (len - retlen)
        reach := max t.reach (base + len) }) := by
  induction fuel generalizing page col retlen t with
  | zero => omega
  | succ fuel ih =>
    unfold readLoop
    rw [if_pos more]
    by_cases last : len ≤ retlen + (g.oobblock - col)
    · rw [if_pos last,fromDataBuf_nfcReadPage (by omega)]
      have stop : ∀ u, readLoop g base len fuel (page + 1) 0 len u = (len,u) := by
        intro u
        cases fuel with
        | zero => rfl
        | succ fuel =>
          unfold readLoop
          rw [if_neg (Nat.lt_irrefl len)]
      rw [stop,show base + retlen + (len - retlen) = base + len by omega]
      exact ⟨_,rfl⟩
    · rw [if_neg last,fromDataBuf_nfcReadPage (by omega)]
      have next : retlen + (g.oobblock - col) < len := Nat.lt_of_not_le last
      obtain ⟨d,eq⟩ := ih g.page_pos next (by omega)
      refine ⟨d,eq.trans ?_⟩
      have place : (page + 1) * g.oobblock + 0 = page * g.oobblock + col + (g.oobblock - col) := by
        rw [Nat.add_mul]
        omega
      have join : len - retlen = g.oobblock - col + (len - (retlen + (g.oobblock - col))) := by
        omega
      have high : max (max t.reach (base + retlen + (g.oobblock - col))) (base + len) =
          max t.reach (base + len) := by omega
      simp only [place,← Nat.add_assoc base,blit_blit,high,← join]

theorem nandReadEcc_eq (pos : 0 < len) (inside : (start + len) % 2 ^ 32 ≤ g.totlen) :
    ∃ d, nandReadEcc g base start len t =
      (false, len, { t with
        dataBuf := d
        buf := blit t.buf base t.flash start len
        reach := max t.reach (base + len) }) := by
  unfold nandReadEcc
  rw [if_neg (Nat.not_lt.mpr inside)]
  obtain ⟨d,eq⟩ := readLoop_eq (Nat.mod_lt start g.page_pos) pos (Nat.le_add_left len 0)
  refine ⟨d,?_⟩
  rw [eq,Nat.mul_comm,Nat.div_add_mod,Nat.add_zero,Nat.sub_zero]

/-- Whole pages once there is one page of it. -/
def written (g : Geometry) (n : Nat) : Nat :=
  if n < g.oobblock then n else (n + g.oobblock - 1) / g.oobblock * g.oobblock

theorem program_page (t : Transfer) : t.program g page g.oobblock =
      { t with flash := blit t.flash (page * g.oobblock) t.dataBuf 0 g.oobblock } := by
  unfold Transfer.program
  by_cases small : g.oobblock < 8192
  · rw [if_pos small]
    rfl
  have size : g.oobblock = 8192 := Nat.le_antisymm g.page_le (Nat.not_lt.mp small)
  rw [if_neg small,size]
  have halves : blit (blit t.flash (page * 8192) t.dataBuf 0 4096) (page * 8192 + 4096)
      t.dataBuf (0 + 4096) 4096 = blit t.flash (page * 8192) t.dataBuf 0 (4096 + 4096) := blit_blit
  exact congrArg (fun f => { t with flash := f }) halves

theorem toDataBuf_program_page : (t.toDataBuf 0 k g.oobblock).program g page g.oobblock =
      { t with
        dataBuf := (t.toDataBuf 0 k g.oobblock).dataBuf
        flash := blit t.flash (page * g.oobblock) t.buf k g.oobblock
        reach := max t.reach (k + g.oobblock) } := by
  have through : blit t.flash (page * g.oobblock) (t.toDataBuf 0 k g.oobblock).dataBuf 0
      g.oobblock = blit t.flash (page * g.oobblock) t.buf k g.oobblock :=
    blit_through (Nat.le_refl (0 + 0 + g.oobblock))
  rw [program_page,← through]
  rfl

theorem writeLoop_done (h : len ≤ retlen) :
    writeLoop g base len fuel page col retlen t = t := by
  cases fuel with
  | zero => rfl
  | succ fuel =>
    unfold writeLoop
    rw [if_neg (Nat.not_lt.mpr h)]

theorem writeLoop_page (size : g.oobblock ≤ len) (more : retlen < len) :
    writeLoop g base len (fuel + 1) page 0 retlen t =
      writeLoop g base len fuel (page + 1) 0 (retlen + g.oobblock)
        { t with
          dataBuf := (t.toDataBuf 0 (base + retlen) g.oobblock).dataBuf
          flash := blit t.flash (page * g.oobblock) t.buf (base + retlen) g.oobblock
          reach := max t.reach (base + retlen + g.oobblock) } := by
  have count : writeCount g len 0 retlen = g.oobblock := if_pos (by omega)
  simp only [writeLoop,if_pos more,count,Nat.zero_add,toDataBuf_program_page]

theorem writeLoop_pages (size : g.oobblock ≤ len) (low : retlen + k * g.oobblock < len)
    (high : len ≤ retlen + (k + 1) * g.oobblock) (enough : k < fuel) :
    ∃ d, writeLoop g base len fuel page 0 retlen t =
      { t with
        dataBuf := d
        flash := blit t.flash (page * g.oobblock) t.buf (base + retlen) ((k + 1) * g.oobblock)
        reach := max t.reach (base + retlen + (k + 1) * g.oobblock) } := by
  induction k generalizing fuel page retlen t with
  | zero =>
    obtain ⟨fuel,rfl⟩ := Nat.exists_eq_add_of_lt enough
    rw [writeLoop_page size (by omega),writeLoop_done (by omega),Nat.zero_add,Nat.one_mul]
    exact ⟨_,rfl⟩
  | succ k ih =>
    obtain ⟨fuel,rfl⟩ := Nat.exists_eq_add_of_lt enough
    rw [Nat.add_mul (k + 1),Nat.one_mul] at high
    rw [Nat.add_mul k,Nat.one_mul] at low
    rw [writeLoop_page size (by omega)]
    have low' : retlen + g.oobblock + k * g.oobblock < len := by omega
    have high' : len ≤ retlen + g.oobblock + (k + 1) * g.oobblock := by omega
    have enough' : k < k + 1 + fuel := by omega
    obtain ⟨d,eq⟩ := ih low' high' enough'
    refine ⟨d,eq.trans ?_⟩
    have place : (page + 1) * g.oobblock = page * g.oobblock + g.oobblock := by
      rw [Nat.add_mul,Nat.one_mul]
    have join : (k + 1 + 1) * g.oobblock = g.oobblock + (k + 1) * g.oobblock := by
      rw [Nat.add_mul (k + 1),Nat.one_mul,Nat.add_comm]
    have reach : max (max t.reach (base + retlen + g.oobblock))
        (base + retlen + g.oobblock + (k + 1) * g.oobblock) =
        max t.reach (base + retlen + (g.oobblock + (k + 1) * g.oobblock)) := by omega
    simp only [place,join,← Nat.add_assoc base,blit_blit,reach]

theorem writeLoop_short (size : len < g.oobblock) (pos : 0 < len) :
    writeLoop g base len len page 0 0 t = (t.toDataBuf 0 base len).program g page len := by
  obtain ⟨rest,rfl⟩ := Nat.exists_eq_add_of_lt pos
  have count : writeCount g (0 + rest + 1) 0 0 = 0 + rest + 1 := if_neg (by omega)
  rw [writeLoop,if_pos pos,count]
  dsimp only
  rw [writeLoop_done (by omega),Nat.zero_add (0 + rest + 1)]
  rfl

theorem written_short (h : n < g.oobblock) : written g n = n := if_pos h

theorem written_pages (h : g.oobblock ≤ n) :
    ∃ k, written g n = (k + 1) * g.oobblock ∧ k * g.oobblock < n ∧ n ≤ (k + 1) * g.oobblock := by
  have pos := g.page_pos
  have parts := Nat.div_add_mod' (n - 1) g.oobblock
  have rest := Nat.mod_lt (n - 1) pos
  refine ⟨(n - 1) / g.oobblock,?_,by omega,?_⟩
  · unfold written
    rw [if_neg (Nat.not_lt.mpr h),show n + g.oobblock - 1 = n - 1 + g.oobblock by omega,
      Nat.add_div_right _ pos]
  · rw [Nat.add_mul,Nat.one_mul]
    omega

theorem lt_written (h : g.oobblock ≤ n) (part : n % g.oobblock ≠ 0) : n < written g n := by
  obtain ⟨k,eq,-,high⟩ := written_pages h
  rw [eq]
  refine Nat.lt_of_le_of_ne high fun same => part ?_
  rw [same,Nat.mul_mod_left]

theorem written_whole (h : n % g.oobblock = 0) : written g n = n := by
  by_cases short : n < g.oobblock
  · exact written_short short
  obtain ⟨k,eq,low,high⟩ := written_pages (Nat.not_lt.mp short)
  obtain ⟨m,rfl⟩ := Nat.dvd_of_mod_eq_zero h
  rw [Nat.mul_comm g.oobblock] at eq low high ⊢
  have more : k < m := Nat.lt_of_mul_lt_mul_right low
  have less : m ≤ k + 1 := Nat.le_of_mul_le_mul_right high g.page_pos
  rw [eq,show k + 1 = m by omega]

theorem nandWriteEcc_eq (aligned : start % g.oobblock = 0) (pos : 0 < len)
    (inside : (start + len) % 2 ^ 32 ≤ g.totlen) (size : g.oobblock < 8192 ∨ g.oobblock ≤ len) :
    ∃ d, nandWriteEcc g base start len t =
      (false, len, { t with
        dataBuf := d
        flash := blit t.flash start t.buf base (written g len)
        reach := max t.reach (base + written g len) }) := by
  have place : start / g.oobblock * g.oobblock = start :=
    Nat.div_mul_cancel (Nat.dvd_of_mod_eq_zero aligned)
  unfold nandWriteEcc
  rw [if_neg (Nat.not_lt.mpr inside),aligned]
  by_cases short : len < g.oobblock
  · have small : g.oobblock < 8192 := by omega
    rw [writeLoop_short short pos,written_short short,Transfer.program,if_pos small,place]
    have through : blit t.flash start (t.toDataBuf 0 base len).dataBuf 0 len =
        blit t.flash start t.buf base len := blit_through (Nat.le_refl (0 + 0 + len))
    rw [← through]
    exact ⟨_,rfl⟩
  obtain ⟨k,eq,low,high⟩ := written_pages (Nat.not_lt.mp short)
  have few : k < len := Nat.lt_of_le_of_lt (Nat.le_mul_of_pos_right k g.page_pos) low
  rw [← Nat.zero_add (k * g.oobblock)] at low
  rw [← Nat.zero_add ((k + 1) * g.oobblock)] at high
  obtain ⟨d,run⟩ := writeLoop_pages (Nat.not_lt.mp short) low high few
  refine ⟨d,?_⟩
  rw [run,eq,place,Nat.add_zero]

theorem nandWriteEcc_middle (large : ¬g.oobblock < 8192) (aligned : start % g.oobblock = 0)
    (pos : 0 < len) (short : len < g.oobblock) (inside : (start + len) % 2 ^ 32 ≤ g.totlen) :
    (nandWriteEcc g base start len t).2.2.flash (start + len / 2) = t.flash (start + len / 2) := by
  have size : g.oobblock = 8192 := Nat.le_antisymm g.page_le (Nat.not_lt.mp large)
  have place : start / g.oobblock * g.oobblock = start :=
    Nat.div_mul_cancel (Nat.dvd_of_mod_eq_zero aligned)
  unfold nandWriteEcc
  rw [if_neg (Nat.not_lt.mpr inside),aligned]
  dsimp only
  rw [writeLoop_short short pos,Transfer.program,if_neg large,place]
  unfold Transfer.nandPageProgramRandom
  dsimp only
  rw [blit_of_lt (by omega),blit_of_ge (Nat.le_refl _)]
  rfl

def moved (g : Geometry) (cmd : Cmd) (base start len : Nat) (t : Transfer) : Transfer :=
  (ecc g cmd base start len t).2.2

theorem ecc_inside (pos : 0 < len) (inside : (start + len) % 2 ^ 32 ≤ g.totlen) :
    ecc g cmd base start len t = (false, len, moved g cmd base start len t) := by
  unfold moved ecc
  by_cases reads : cmd.reads = true
  · obtain ⟨d,eq⟩ := nandReadEcc_eq pos inside
    rw [if_pos reads,eq]
  · rw [if_neg reads]
    unfold nandWriteEcc
    rw [if_neg (Nat.not_lt.mpr inside)]

theorem ecc_outside (outside : g.totlen < (start + len) % 2 ^ 32) :
    ecc g cmd base start len t = (true, 0, t) := by
  unfold ecc nandReadEcc nandWriteEcc
  rw [if_pos outside,if_pos outside]
  exact ite_self _

theorem moved_reads (base : Nat) (t : Transfer) (reads : cmd.reads = true) (pos : 0 < len)
    (inside : (start + len) % 2 ^ 32 ≤ g.totlen) :
    ∃ d, moved g cmd base start len t =
      { t with
        dataBuf := d
        buf := blit t.buf base t.flash start len
        reach := max t.reach (base + len) } := by
  obtain ⟨d,eq⟩ := nandReadEcc_eq pos inside
  exact ⟨d,by rw [moved,ecc,if_pos reads,eq]⟩

theorem moved_writes (base : Nat) (t : Transfer) (writes : cmd.reads = false)
    (aligned : start % g.oobblock = 0) (pos : 0 < len) (inside : (start + len) % 2 ^ 32 ≤ g.totlen)
    (size : g.oobblock < 8192 ∨ g.oobblock ≤ len) :
    ∃ d, moved g cmd base start len t =
      { t with
        dataBuf := d
        flash := blit t.flash start t.buf base (written g len)
        reach := max t.reach (base + written g len) } := by
  obtain ⟨d,eq⟩ := nandWriteEcc_eq aligned pos inside size
  exact ⟨d,by rw [moved,ecc,if_neg (by simp [writes]),eq]⟩

end Apc8750.Nand
