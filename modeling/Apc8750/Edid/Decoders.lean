import Apc8750.Edid.Contents

namespace Apc8750.Edid
open Apc8750.Checked

namespace Descriptor

variable (d : Descriptor)

/-- Ten bits for a line and six for a frame, and back porches that fill up the blanking. -/
structure Porches (t : VppTiming) : Prop where
  hfp : t.hfp = (d 8).toNat + 256 * ((d 11).toNat / 64)
  hsync : t.hsync = (d 9).toNat + 256 * ((d 11).toNat / 16 % 4)
  hbp : (t.hbp + t.hfp + t.hsync) % 2 ^ 32 = d.hBlanking
  vfp : t.vfp = (d 10).toNat / 16 + 16 * ((d 11).toNat / 4 % 4)
  vsync : t.vsync = (d 10).toNat % 16 + 16 * ((d 11).toNat % 4)
  vbp : (t.vbp + t.vfp + t.vsync) % 2 ^ 32 = d.vBlanking

structure Short : Prop where
  upper : (d 11).toNat < 16

def Negative : Prop := d.hsyncPositive = false ∧ d.vsyncPositive = false

theorem ceaHfp_eq : d.ceaHfp = (d 8).toNat + 256 * ((d 11).toNat / 64) := by
  have bound := (d 11).toNat_lt
  rw [ceaHfp,show (d 11).toNat &&& 0xC0 = _ from Masks.and_field _ 6 2,Nat.shiftLeft_eq]
  omega

theorem ceaHsync_eq : d.ceaHsync = (d 9).toNat + 256 * ((d 11).toNat / 16 % 4) := by
  rw [ceaHsync,show (d 11).toNat &&& 0x30 = _ from Masks.and_field _ 4 2,Nat.shiftLeft_eq]
  omega

theorem ceaVfp_eq : d.ceaVfp = (d 10).toNat / 16 + 16 * ((d 11).toNat / 4 % 4) := by
  have bound := (d 10).toNat_lt
  rw [ceaVfp,show (d 11).toNat &&& 0x0C = _ from Masks.and_field _ 2 2,Nat.shiftLeft_eq,
    show (d 10).toNat &&& 0xF0 = _ from Masks.and_field _ 4 4,Nat.shiftRight_eq_div_pow]
  omega

theorem ceaVsync_eq : d.ceaVsync = (d 10).toNat % 16 + 16 * ((d 11).toNat % 4) := by
  rw [ceaVsync,show (d 11).toNat &&& 0x03 = _ from Masks.and_field _ 0 2,Nat.shiftLeft_eq,
    show (d 10).toNat &&& 0x0F = _ from Masks.and_field _ 0 4]
  omega

theorem vSyncOffset_eq : d.vSyncOffset = d.ceaVfp := by
  have nibble : upperNibble (d 10) < 2 ^ 4 := by
    have bound := (d 10).toNat_lt
    rw [upperNibble,Nat.and_comm,show (d 10).toNat &&& 0xF0 = _ from Masks.and_field _ 4 4,
      Nat.shiftRight_eq_div_pow]
    omega
  rw [vSyncOffset,combineHi4Lo,← Nat.shiftLeft_add_eq_or_of_lt nibble,ceaVfp,upperNibble,
    Nat.and_comm 0xF0,show (d 11).toNat &&& 0x0C = _ from Masks.and_field _ 2 2,
    Nat.shiftRight_eq_div_pow _ 2]
  simp only [Nat.shiftLeft_eq]
  omega

theorem vSyncWidth_eq : d.vSyncWidth = d.ceaVsync := by
  have nibble : lowerNibble (d 10) < 2 ^ 4 := Nat.lt_succ_of_le Nat.and_le_left
  rw [vSyncWidth,combineHi4Lo,← Nat.shiftLeft_add_eq_or_of_lt nibble,ceaVsync,lowerNibble,
    Nat.and_comm 0x0F]

theorem combineHi4Lo_ten (small : hi < 4) (lo : UInt8) :
    combineHi4Lo hi lo.toNat = lo.toNat + 256 * hi ↔ hi = 0 := by
  have all : ∀ hi < 4, ∀ lo < 256, (hi <<< 4 ||| lo = lo + 256 * hi ↔ hi = 0) := by decide +kernel
  exact all hi small lo.toNat lo.toNat_lt

theorem hSyncOffset_eq_iff : d.hSyncOffset = d.ceaHfp ↔ (d 11).toNat / 64 = 0 := by
  have bound := (d 11).toNat_lt
  have high : ((d 11).toNat &&& 0xC0) >>> 6 = (d 11).toNat / 64 := by
    rw [show (d 11).toNat &&& 0xC0 = _ from Masks.and_field _ 6 2,Nat.shiftRight_eq_div_pow]
    omega
  rw [ceaHfp_eq,hSyncOffset,high]
  exact combineHi4Lo_ten (by omega) (d 8)

theorem hSyncWidth_eq_iff : d.hSyncWidth = d.ceaHsync ↔ (d 11).toNat / 16 % 4 = 0 := by
  have high : ((d 11).toNat &&& 0x30) >>> 4 = (d 11).toNat / 16 % 4 := by
    rw [show (d 11).toNat &&& 0x30 = _ from Masks.and_field _ 4 2,Nat.shiftRight_eq_div_pow]
    omega
  rw [ceaHsync_eq,hSyncWidth,high]
  exact combineHi4Lo_ten (Nat.mod_lt _ (by decide)) (d 9)

theorem hBlanking_lt : d.hBlanking < 2 ^ 12 := by
  have high : (d 4).toNat &&& 0x0F ≤ 0x0F := Nat.and_le_right
  have low := (d 3).toNat_lt
  rw [← ceaHporch_eq,ceaHporch,Nat.shiftLeft_eq]
  omega

theorem vBlanking_lt : d.vBlanking < 2 ^ 12 := by
  have high : (d 7).toNat &&& 0x0F ≤ 0x0F := Nat.and_le_right
  have low := (d 6).toNat_lt
  rw [← ceaVporch_eq,ceaVporch,Nat.shiftLeft_eq]
  omega

end Descriptor

theorem minus_minus (x y z : Nat) : minus (minus x y) z = minus x (z + y) := by
  unfold minus
  omega

theorem minus_fills (y z : Nat) (small : x < 2 ^ 32) :
    (minus (minus x y) z + y + z) % 2 ^ 32 = x := by
  unfold minus
  omega

theorem ceaDescribed_porches (d : Descriptor) (fps : Nat) (t : VppTiming) :
    d.Porches (ceaDescribed d fps t) where
  hfp := d.ceaHfp_eq
  hsync := d.ceaHsync_eq
  hbp := by
    have small := d.hBlanking_lt
    change (minus (minus d.ceaHporch d.ceaHfp) d.ceaHsync + d.ceaHfp + d.ceaHsync) % 2 ^ 32 = _
    rw [d.ceaHporch_eq]
    exact minus_fills _ _ (by omega)
  vfp := d.ceaVfp_eq
  vsync := d.ceaVsync_eq
  vbp := by
    have small := d.vBlanking_lt
    change (minus (minus d.ceaVporch d.ceaVfp) d.ceaVsync + d.ceaVfp + d.ceaVsync) % 2 ^ 32 = _
    rw [d.ceaVporch_eq]
    exact minus_fills _ _ (by omega)

/-- The bits of the VGA polarities, which only the base block's decoder sets. -/
def vgaPolarity : BitVec 32 := vppVgaHsyncPolarHi ||| vppVgaVsyncPolarHi

theorem vppSetOptFps_vga (fps : Nat) : vppSetOptFps 0 fps &&& vgaPolarity = 0 := by
  apply BitVec.eq_of_getLsbD_eq
  intro j hj
  have only : ∀ j < 32, 24 ≤ j → vgaPolarity.getLsbD j = false := by decide
  by_cases low : j < 24
  · simp [vppSetOptFps,low]
  · simp [only j hj (by omega)]

theorem options_eq_iff (fps : Nat) (i x y : Bool) :
    vppSetOptFps 0 fps ||| flag vppOptInterlace i ||| flag (vppDvoSyncPolarHi + vppVgaHsyncPolarHi) x |||
        flag (vppDvoVsyncPolarHi + vppVgaVsyncPolarHi) y =
      vppSetOptFps 0 fps ||| flag vppOptInterlace i ||| flag vppDvoVsyncPolarHi x |||
        flag vppDvoSyncPolarHi y ↔ x = false ∧ y = false := by
  constructor
  · intro same
    have masked := congrArg (· &&& vgaPolarity) same
    simp only [BitVec.and_or_distrib_right,vppSetOptFps_vga] at masked
    revert masked
    cases i <;> cases x <;> cases y <;> decide
  · rintro ⟨rfl,rfl⟩
    rfl

theorem timings_eq_iff (d : Descriptor) (fps : Nat) :
    describedTiming d fps {} = ceaDescribed d fps {} ↔ d.Short ∧ d.Negative := by
  constructor
  · intro same
    have hfp := d.hSyncOffset_eq_iff.mp (congrArg VppTiming.hfp same)
    have hsync := d.hSyncWidth_eq_iff.mp (congrArg VppTiming.hsync same)
    exact ⟨⟨by omega⟩,(options_eq_iff _ _ _ _).mp (congrArg VppTiming.option same)⟩
  rintro ⟨⟨short⟩,negative⟩
  have hfp := d.hSyncOffset_eq_iff.mpr (by omega)
  have hsync := d.hSyncWidth_eq_iff.mpr (by omega)
  have option := (options_eq_iff (roundFps fps) d.interlaced d.hsyncPositive d.vsyncPositive).mpr negative
  unfold describedTiming ceaDescribed
  rw [d.ceaClock_eq,d.ceaHpixel_eq,d.ceaHporch_eq,d.ceaVpixel_eq,d.ceaVporch_eq,minus_minus,
    minus_minus,hfp,hsync,d.vSyncOffset_eq,d.vSyncWidth_eq,option]
  rfl

theorem ceaTimings_one (inside : o + 18 ≤ 128) (slot : i < 6) (fresh : later.ceaTiming[i] = {})
    (clock : (extDescriptor b o).pixelClock ≠ 0)
    (total : (extDescriptor b o).vtotal * (extDescriptor b o).htotal ≠ 0) :
    ceaTimings b 1 o i later = .ok { later with
      ceaTiming := later.ceaTiming.set i (extensionTiming (extDescriptor b o)) } := by
  have fits : TimingsFit b 1 o i := by
    rw [timingsFit_succ,Descriptor.ceaTotal_eq]
    refine ⟨slot,fun _ => ⟨total,fun k hk => absurd hk (Nat.not_lt_zero k)⟩⟩
  have returns : Returns (ceaTimings b 1 o i later) := (ceaTimings_returns fun _ => inside).mpr fits
  obtain ⟨later',done⟩ := returns
  rcases ceaTimings_round inside slot fresh done with ⟨zero,_⟩ | ⟨_,rest⟩
  · exact absurd zero clock
  · cases rest
    exact done

/-- The two decoders agree exactly if the descriptor has lines, short porches and syncs, and no
positive sync. -/
theorem decoders_agree (filled : Filled base m) (room : m < 4) (slot : i < 6) (fresh : later.ceaTiming[i] = {})
    (inside : o + 18 ≤ 128) (clock : (extDescriptor b o).pixelClock ≠ 0)
    (total : (extDescriptor b o).vtotal * (extDescriptor b o).htotal ≠ 0) :
    (∃ base' later', parseTimingDescription (extDescriptor b o) base = .ok base' ∧
      ceaTimings b 1 o i later = .ok later' ∧ base'.detailTiming[m] = later'.ceaTiming[i] ∧
      (extDescriptor b o).Porches later'.ceaTiming[i]) ↔
    (extDescriptor b o).vActive ≠ 0 ∧ (extDescriptor b o).Short ∧ (extDescriptor b o).Negative := by
  have pixels : (extDescriptor b o).htotal ≠ 0 := (Nat.mul_ne_zero_iff.mp total).2
  constructor
  · rintro ⟨base', later', first, second, same, _⟩
    have sized := (parseTimingDescription_returns filled room).mp ⟨base', first⟩
    obtain ⟨wide, rfl⟩ := parseTimingDescription_ok filled room first
    rw [ceaTimings_one inside slot fresh clock total] at second
    cases second
    simp only [Vector.getElem_set_self] at same
    exact ⟨sized.1, (timings_eq_iff _ _).mp same⟩
  · rintro ⟨lines, short, negative⟩
    obtain ⟨base', first⟩ := (parseTimingDescription_returns filled room).mpr ⟨lines, pixels⟩
    refine ⟨base', _, first, ceaTimings_one inside slot fresh clock total, ?_, ?_⟩
    · obtain ⟨wide, rfl⟩ := parseTimingDescription_ok filled room first
      simp only [Vector.getElem_set_self]
      exact (timings_eq_iff _ _).mpr ⟨short, negative⟩
    · simp only [Vector.getElem_set_self]
      exact ceaDescribed_porches _ _ _

def holding (bytes : List UInt8) : Block := fun i => bytes.getD i 0

def vgaTiming : Block :=
  holding [0xD5, 0x09, 0x80, 0xA0, 0x20, 0xE0, 0x2D, 0x10, 0x10, 0x60, 0xA2, 0x00, 0, 0, 0, 0, 0, 0x18]

def hdTiming : Block :=
  holding [0x01, 0x1D, 0x00, 0xBC, 0x52, 0xD0, 0x1E, 0x20, 0xB8, 0x28, 0x55, 0x40, 0, 0, 0, 0, 0, 0x1E]

theorem filled_none : Filled {} 0 where
  used j _ hj := absurd hj (Nat.not_lt_zero j)
  fresh j _ _ := by simp

theorem decoders_agree_vga : ∃ base' later', parseTimingDescription (extDescriptor vgaTiming 0) {} = .ok base' ∧
    ceaTimings vgaTiming 1 0 0 {} = .ok later' ∧ base'.detailTiming[0] = later'.ceaTiming[0] ∧
    (extDescriptor vgaTiming 0).Porches later'.ceaTiming[0] :=
  (decoders_agree filled_none (by decide) (by decide) rfl (by decide) (by decide +kernel) (by decide +kernel)).mpr
    ⟨by decide +kernel, ⟨by decide +kernel⟩, by unfold Descriptor.Negative; decide +kernel⟩

theorem decoders_differ : ∃ base' later', parseTimingDescription (extDescriptor hdTiming 0) {} = .ok base' ∧
    ceaTimings hdTiming 1 0 0 {} = .ok later' ∧ base'.detailTiming[0].hfp = 184 ∧
    later'.ceaTiming[0].hfp = 440 := by
  obtain ⟨base', first⟩ := (parseTimingDescription_returns (d := extDescriptor hdTiming 0) filled_none
    (by decide)).mpr ⟨by decide +kernel, by decide +kernel⟩
  refine ⟨base', _, first, ceaTimings_one (by decide) (by decide) rfl (by decide +kernel) (by decide +kernel), ?_, ?_⟩
  · obtain ⟨wide, rfl⟩ := parseTimingDescription_ok filled_none (by decide) first
    simp only [Vector.getElem_set_self]
    decide +kernel
  · simp only [Vector.getElem_set_self]
    decide +kernel

end Apc8750.Edid
