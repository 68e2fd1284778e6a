import Apc8750.SpiFlash.Model

namespace Apc8750.SpiFlash

variable {b : Board} {addr len ofs : Nat} {c : Cs}

namespace Board

theorem chip_range (c : Chip) : 0 < c.total ∧ c.total ≤ 2 ^ 24 :=
  ⟨Nat.two_pow_pos _,Nat.pow_le_pow_right (by decide) c.range.2⟩

theorem last_succ (b : Board) : sector ∣ b.last + 1 ∧ 0xF0000000 ≤ b.last + 1 := by
  unfold last
  split <;> decide

theorem phyAddr_aligned (b : Board) : sector ∣ b.phyAddr := by
  have small : sector ∣ 1024 * 1024 := by decide
  exact Nat.dvd_sub b.last_succ.1 (Nat.dvd_trans small b.megabytes)

theorem phy1_le {c : Chip} (h : b.chip1 = some c) : b.phy1 + c.total ≤ b.phy0 := by
  have first := chip_range b.chip0
  have second := chip_range c
  have top := b.last_succ.2
  have room : c.total ≤ b.phy0 := by
    unfold phy0
    omega
  have whole := Nat.div_mul_le_self (b.phy0 - c.total) c.total
  simp only [phy1,h]
  omega

theorem chipAt_select (h : b.chipAt (ofs + b.phyAddr) = some c) : b.select ofs = c := by
  unfold chipAt at h
  split at h
  · rename_i first
    cases h
    exact if_pos first.1
  cases second : b.chip1 with
  | none =>
    rw [second] at h
    cases h
  | some d =>
    rw [second] at h
    dsimp only at h
    split at h
    · rename_i inside
      cases h
      have below := phy1_le second
      exact if_neg (by omega)
    · cases h

end Board

def ready : Readings := ⟨fun _ => 0, fun _ => 0⟩

theorem poll_ready : poll ready = errOk := rfl

theorem sfErase_ready (b : Board) (addr len : Nat) : (sfErase b (fun _ => ready) addr len).1 = 0 := by
  simp [sfErase,spiFlashSectorErase,poll_ready]

def ErasesExactly (b : Board) (addr len : Nat) : Prop :=
  ∀ readings, (sfErase b readings addr len).1 = 0 →
    ∀ a, (sfErase b readings addr len).2.Covers b a ↔
      addr + b.phyAddr ≤ a ∧ a < addr + b.phyAddr + len

theorem sfErase_covers (readings : Cs → Readings) (len a : Nat) (aligned : sector ∣ addr) :
    (sfErase b readings addr len).2.Covers b a ↔ b.chipAt (addr + b.phyAddr) ≠ none ∧
      addr + b.phyAddr ≤ a ∧ a < addr + b.phyAddr + sector := by
  have start : addr / sector * sector = addr := Nat.div_mul_cancel aligned
  have edge : sector ∣ addr + b.phyAddr := Nat.dvd_add aligned b.phyAddr_aligned
  have chip : b.chipAt (addr + b.phyAddr) = some (b.select addr) ↔ b.chipAt (addr + b.phyAddr) ≠ none := by
    refine ⟨fun h => by simp [h],fun h => ?_⟩
    obtain ⟨c,found⟩ := Option.ne_none_iff_exists'.mp h
    rw [found,Board.chipAt_select found]
  simp only [sfErase,spiFlashSectorErase,EraseCommand.Covers,start,chip]
  refine and_congr_right fun _ => ?_
  obtain ⟨k,hk⟩ := edge
  rw [hk,Nat.mul_div_cancel_left _ (by decide : 0 < sector)]
  unfold sector
  omega

/-- `sf_erase` is right for a single sector on a chip, and for nothing where there is none. -/
theorem erases_one_sector (b : Board) (len : Nat) (aligned : sector ∣ addr) :
    ErasesExactly b addr len ↔
      len = if b.chipAt (addr + b.phyAddr) = none then 0 else sector := by
  have pos : 0 < sector := by decide
  constructor
  · intro h
    have covers := h (fun _ => ready) (sfErase_ready b addr len)
    simp only [sfErase_covers _ _ _ aligned] at covers
    split
    · rename_i absent
      by_contra some
      have := (covers (addr + b.phyAddr)).mpr ⟨Nat.le_refl _, by omega⟩
      exact this.1 absent
    rename_i present
    have first := (covers (addr + b.phyAddr + sector - 1)).mp ⟨present, by omega, by omega⟩
    have behind : ¬ addr + b.phyAddr + sector < addr + b.phyAddr + len := fun lt =>
      absurd ((covers (addr + b.phyAddr + sector)).mpr ⟨by omega, lt⟩).2.2 (Nat.lt_irrefl _)
    omega
  · intro h readings _ a
    rw [sfErase_covers _ _ _ aligned, h]
    split
    · rename_i absent
      exact iff_of_false (fun h => h.1 absent) (by omega)
    · rename_i present
      exact and_iff_right present

def plain : Board where
  boot := true
  chip0 := ⟨24, by decide⟩
  chip1 := none
  size := 16 * 1024 * 1024
  megabytes := by decide
  fits := by decide

theorem erases_one_sector_second : ErasesExactly plain 0x10000 0x10000 :=
  (erases_one_sector plain 0x10000 (by decide)).mpr (by decide)

/-- Of a request for two sectors the second one is not erased, though it is reported. -/
theorem second_sector_kept : (sfErase plain (fun _ => ready) 0 0x20000).1 = 0 ∧
    ¬ (sfErase plain (fun _ => ready) 0 0x20000).2.Covers plain (plain.phyAddr + 0x10000) := by
  refine ⟨sfErase_ready _ _ _, fun h => ?_⟩
  rw [sfErase_covers _ _ _ (by decide)] at h
  exact absurd h.2.2 (by decide)

end Apc8750.SpiFlash
