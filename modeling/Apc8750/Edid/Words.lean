import Apc8750.Edid.Modes

namespace Apc8750.Edid

theorem word_toNat (i : Bool) (h : f < 2 ^ 31) :
    (word f i).toNat = f + if i then 2 ^ 31 else 0 := by
  cases i with
  | false =>
    simp [word,flag]
    omega
  | true =>
    have apart : f ||| 2 ^ 31 = f + 2 ^ 31 := by
      rw [Nat.or_comm,Nat.add_comm]
      simpa [Nat.shiftLeft_eq] using (Nat.shiftLeft_add_eq_or_of_lt (a := 1) h).symm
    simp [word,flag,edidTmrInterlace]
    rw [Nat.mod_eq_of_lt (by omega)]
    simpa using apart

theorem word_inj (hf : f < 2 ^ 31) (hg : g < 2 ^ 31) : word f i = word g j ↔ f = g ∧ i = j := by
  rw [← BitVec.toNat_inj,word_toNat i hf,word_toNat j hg]
  cases i <;> cases j <;> simp <;> omega

theorem word_false (f : Nat) : word f false = BitVec.ofNat 32 f := by
  simp [word,flag]

theorem word_freq (i : Bool) (h : f < 256) : word f i &&& edidTmrFreq = BitVec.ofNat 32 f := by
  have low : flag edidTmrInterlace i &&& edidTmrFreq = 0#32 := by
    cases i <;> decide
  rw [word,BitVec.and_or_distrib_right,low,BitVec.or_zero]
  apply BitVec.eq_of_toNat_eq
  have mask : f &&& 255 = f % 256 := Nat.and_two_pow_sub_one_eq_mod f 8
  simp only [BitVec.toNat_and,BitVec.toNat_ofNat,edidTmrFreq]
  rw [Nat.mod_eq_of_lt (show f < 2 ^ 32 by omega)]
  simpa [Nat.mod_eq_of_lt h] using mask

theorem word_interlace (i : Bool) (h : f < 2 ^ 31) : (word f i &&& edidTmrInterlace != 0) = i := by
  have low : BitVec.ofNat 32 f &&& edidTmrInterlace = 0 := by
    apply BitVec.eq_of_getLsbD_eq
    intro j hj
    have only : ∀ j < 32, j ≠ 31 → edidTmrInterlace.getLsbD j = false := by decide
    by_cases top : j = 31
    · subst top
      simp only [BitVec.getLsbD_and,BitVec.getLsbD_ofNat,Nat.testBit_lt_two_pow h]
      simp
    · simp [only j hj top]
  rw [word,BitVec.and_or_distrib_right,low]
  cases i <;> decide

theorem vppOptFpsMask_bit : ∀ j < 32, vppOptFpsMask.getLsbD j = decide (24 ≤ j) := by decide

theorem vppGetOptFps_or (x y : BitVec 32) :
    vppGetOptFps (x ||| y) = vppGetOptFps x ||| vppGetOptFps y := by
  simp only [vppGetOptFps,BitVec.and_or_distrib_right,BitVec.ushiftRight_or_distrib]

theorem vppGetOptFps_flag (c : Bool) {bit : BitVec 32} (h : vppGetOptFps bit = 0) :
    vppGetOptFps (flag bit c) = 0 := by
  cases c with
  | false =>
    change vppGetOptFps 0 = 0
    decide
  | true => exact h

theorem vppGetOptFps_set (option : BitVec 32) (fps : Nat) :
    vppGetOptFps (vppSetOptFps option fps) = BitVec.ofNat 32 (fps % 256) := by
  apply BitVec.eq_of_getLsbD_eq
  intro i hi
  have rate : (fps % 256).testBit i = (decide (i < 8) && fps.testBit i) :=
    Nat.testBit_mod_two_pow fps 8 i
  by_cases byte : i < 8
  · have short : 24 + i < 32 := by omega
    simp only [vppGetOptFps,vppSetOptFps,BitVec.getLsbD_ushiftRight,BitVec.getLsbD_and,
      BitVec.getLsbD_or,BitVec.getLsbD_not,BitVec.getLsbD_shiftLeft,
      vppOptFpsMask_bit (24 + i) short,BitVec.getLsbD_ofNat,rate]
    simp [byte,hi,short]
  · have outside : vppOptFpsMask.getLsbD (24 + i) = false := BitVec.getLsbD_of_ge _ _ (by omega)
    simp [vppGetOptFps,outside,BitVec.getLsbD_ofNat,rate,byte]

theorem vppSetOptFps_interlace (option : BitVec 32) (fps : Nat) :
    vppSetOptFps option fps &&& vppOptInterlace = option &&& vppOptInterlace := by
  apply BitVec.eq_of_getLsbD_eq
  intro i hi
  by_cases zero : i = 0
  · subst zero
    have outside : vppOptFpsMask.getLsbD 0 = false := by decide
    simp [vppSetOptFps] at outside ⊢
    simp [outside]
  · have only : ∀ i < 32, i ≠ 0 → vppOptInterlace.getLsbD i = false := by decide
    simp [only i hi zero]

theorem flag_interlace (c : Bool) {bit : BitVec 32} (h : bit &&& vppOptInterlace = 0) :
    flag bit c &&& vppOptInterlace = 0 := by
  cases c with
  | false =>
    change (0 : BitVec 32) &&& vppOptInterlace = 0
    decide
  | true => exact h

theorem storedOption (fps : Nat) (i x y : Bool) {bitX bitY : BitVec 32}
    (rateX : vppGetOptFps bitX = 0) (rateY : vppGetOptFps bitY = 0)
    (lowX : bitX &&& vppOptInterlace = 0) (lowY : bitY &&& vppOptInterlace = 0) {t : VppTiming}
    (option : t.option = vppSetOptFps 0 fps ||| flag vppOptInterlace i ||| flag bitX x |||
      flag bitY y) : t.interlaced = i ∧ t.freq = word (fps % 256) i := by
  have mark : t.interlaced = i := by
    rw [VppTiming.interlaced,option]
    simp only [BitVec.and_or_distrib_right,vppSetOptFps_interlace,flag_interlace x lowX,
      flag_interlace y lowY]
    cases i <;> decide
  refine ⟨mark,?_⟩
  rw [VppTiming.freq,mark,option]
  simp only [vppGetOptFps_or,vppGetOptFps_set,vppGetOptFps_flag x rateX,
    vppGetOptFps_flag y rateY,vppGetOptFps_flag i (show vppGetOptFps vppOptInterlace = 0 by decide)]
  simp [word]

theorem describedTiming_freq (d : Descriptor) (fps : Nat) :
    (describedTiming d fps {}).interlaced = d.interlaced ∧
      (describedTiming d fps {}).freq = word (roundFps fps % 256) d.interlaced :=
  storedOption _ _ d.hsyncPositive d.vsyncPositive (by decide) (by decide) (by decide) (by decide) rfl

theorem ceaDescribed_freq (d : Descriptor) (fps : Nat) :
    (ceaDescribed d fps {}).interlaced = d.interlaced ∧
      (ceaDescribed d fps {}).freq = word (roundFps fps % 256) d.interlaced :=
  storedOption _ _ ((d 17).toNat &&& 0x04 != 0) ((d 17).toNat &&& 0x02 != 0) (by decide) (by decide)
    (by decide) (by decide) rfl

theorem combineHi8Lo_eq (lo : UInt8) : combineHi8Lo hi lo.toNat = hi <<< 8 + lo.toNat :=
  (Nat.shiftLeft_add_eq_or_of_lt (i := 8) lo.toNat_lt hi).symm

theorem upperNibble_shift (x : UInt8) : upperNibble x <<< 8 = (x.toNat &&& 0xF0) <<< 4 := by
  have byte : ∀ n < 256, ((0xF0 &&& n) >>> 4) <<< 8 = (n &&& 0xF0) <<< 4 := by decide +kernel
  exact byte x.toNat x.toNat_lt

namespace Descriptor

variable (d : Descriptor)

theorem ceaClock_eq : d.ceaClock = d.pixelClock := by
  rw [ceaClock,pixelClock,combineHi8Lo_eq]

theorem ceaHpixel_eq : d.ceaHpixel = d.hActive := by
  rw [ceaHpixel,hActive,combineHi8Lo_eq,upperNibble_shift]

theorem ceaHporch_eq : d.ceaHporch = d.hBlanking := by
  rw [ceaHporch,hBlanking,combineHi8Lo_eq,lowerNibble,Nat.and_comm]

theorem ceaVpixel_eq : d.ceaVpixel = d.vActive := by
  rw [ceaVpixel,vActive,combineHi8Lo_eq,upperNibble_shift]

theorem ceaVporch_eq : d.ceaVporch = d.vBlanking := by
  rw [ceaVporch,vBlanking,combineHi8Lo_eq,lowerNibble,Nat.and_comm]

theorem ceaTotal_eq : d.ceaTotal = d.vtotal * d.htotal := by
  rw [ceaTotal,ceaHpixel_eq,ceaHporch_eq,ceaVpixel_eq,ceaVporch_eq,Nat.mul_comm]
  rfl

end Descriptor
end Apc8750.Edid
