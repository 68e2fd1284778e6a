import Apc8750.Edid.Support

namespace Apc8750.Edid
open Apc8750.Checked

variable {b : Block} {o : Nat}

def vendorAt (b : Block) (o : Nat) : Bool := tag b o == 3 && decide (5 ≤ len b o)

def hdmiAt (b : Block) (o : Nat) : Bool :=
  vendorAt b o && byteAt b (o + 1) == 0x03 && byteAt b (o + 2) == 0x0C && byteAt b (o + 3) == 0x0

def physAddr (b : Block) (o : Nat) : Nat := byteAt b (o + 4) <<< 8 + byteAt b (o + 5)

theorem setVic_option (done : setVic vic info = .ok info') :
    info'.option = info.option ∧ info'.hdmiPhyAddr = info.hdmiPhyAddr := by
  unfold setVic at done
  split at done
  · cases done
    exact ⟨rfl,rfl⟩
  · cases done

theorem videoDataBlock_option (done : videoDataBlock b o n info = .ok info') :
    info'.option = info.option ∧ info'.hdmiPhyAddr = info.hdmiPhyAddr := by
  refine foldlM_ok (J := fun _ t => t.option = info.option ∧ t.hdmiPhyAddr = info.hdmiPhyAddr) ?_ ⟨rfl,rfl⟩ done
  intro _ i _ s t _ kept step
  obtain ⟨code,_,set⟩ := bind_eq_ok.mp step
  have same := setVic_option set
  exact ⟨same.1.trans kept.1,same.2.trans kept.2⟩

theorem vendorDataBlock_option (done : vendorDataBlock b o n info = .ok info') :
    5 ≤ n ∧ info'.option = info.option ||| flag edidOptHdmi
        (byteAt b (o + 1) == 0x03 && byteAt b (o + 2) == 0x0C && byteAt b (o + 3) == 0x0) ∧
      info'.hdmiPhyAddr = physAddr b o ∨ n < 5 ∧ info' = info := by
  unfold vendorDataBlock at done
  split at done
  · rename_i short
    cases done
    exact .inr ⟨short,rfl⟩
  rename_i long
  obtain ⟨byte1,read1,done⟩ := bind_eq_ok.mp done
  obtain ⟨byte2,read2,done⟩ := bind_eq_ok.mp done
  obtain ⟨byte3,read3,done⟩ := bind_eq_ok.mp done
  obtain ⟨byte4,read4,done⟩ := bind_eq_ok.mp done
  obtain ⟨byte5,read5,done⟩ := bind_eq_ok.mp done
  simp only at done
  left
  rw [physAddr,readByte_ok read1,readByte_ok read2,readByte_ok read3,readByte_ok read4,readByte_ok read5]
  refine ⟨by omega,?_⟩
  split at done
  · obtain ⟨_,_,done⟩ := bind_eq_ok.mp done
    cases done
    exact ⟨rfl,rfl⟩
  · cases done
    exact ⟨rfl,rfl⟩

theorem dataBlock_option (inside : o < 128) (done : dataBlock b o info = .ok (info',n)) :
    info'.option = info.option ||| flag edidOptHdmi (hdmiAt b o) ∧
      info'.hdmiPhyAddr = if vendorAt b o then physAddr b o else info.hdmiPhyAddr := by
  have other (h : tag b o ≠ 3) : vendorAt b o = false ∧ hdmiAt b o = false := by
    simp [vendorAt,hdmiAt,h]
  have same {t : EdidInfo} (h : tag b o ≠ 3) (kept : t.option = info.option ∧ t.hdmiPhyAddr = info.hdmiPhyAddr) :
      t.option = info.option ||| flag edidOptHdmi (hdmiAt b o) ∧
        t.hdmiPhyAddr = if vendorAt b o then physAddr b o else info.hdmiPhyAddr := by
    simp [other h,kept,flag]
  rw [dataBlock_of_lt inside] at done
  unfold taggedBlock at done
  split at done
  case h_1 video =>
    obtain ⟨i,hi,eq⟩ := bind_eq_ok.mp done
    cases eq
    exact same (by omega) (videoDataBlock_option hi)
  case h_2 vendor =>
    obtain ⟨i,hi,eq⟩ := bind_eq_ok.mp done
    cases eq
    rcases vendorDataBlock_option hi with ⟨long,option,addr⟩ | ⟨short,rfl⟩
    · simp [hdmiAt,vendorAt,vendor,long,option,addr]
    · have short : ¬ 5 ≤ len b o := by omega
      simp [hdmiAt,vendorAt,short,flag]
  all_goals
    cases done
    exact same (by simp_all) ⟨rfl,rfl⟩

structure LastVendor (b : Block) (o v : Nat) : Prop where
  reached : Reached b o v
  vendor : vendorAt b v = true
  last : ∀ o', Reached b o o' → vendorAt b o' = true → o' ≤ v

/-- The bit for HDMI, and the address of the last vendor block of any kind. -/
structure VendorRead (b : Block) (o : Nat) (info info' : EdidInfo) : Prop where
  hdmi : (∃ o', Reached b o o' ∧ hdmiAt b o' = true) → info'.option = info.option ||| edidOptHdmi
  plain : (∀ o', Reached b o o' → hdmiAt b o' = false) → info'.option = info.option
  addr : (∃ v, LastVendor b o v ∧ info'.hdmiPhyAddr = physAddr b v) ∨
    (∀ o', Reached b o o' → vendorAt b o' = false) ∧ info'.hdmiPhyAddr = info.hdmiPhyAddr

theorem VendorRead.stop (ends : stride b o = 0)
    (option : info'.option = info.option ||| flag edidOptHdmi (hdmiAt b o))
    (addr : info'.hdmiPhyAddr = if vendorAt b o then physAddr b o else info.hdmiPhyAddr) :
    VendorRead b o info info' := by
  have only {o' : Nat} (h : Reached b o o') : o' = o := h.eq_of_stop ends
  refine ⟨?_,?_,?_⟩
  · rintro ⟨o',reached,hdmi⟩
    rw [option,← only reached,hdmi]
    rfl
  · intro none
    rw [option,none o (.start o)]
    exact BitVec.or_zero
  cases vendor : vendorAt b o with
  | true =>
    refine .inl ⟨o,⟨.start o,vendor,fun o' h _ => (only h).le⟩,?_⟩
    rw [addr,vendor,if_pos rfl]
  | false =>
    refine .inr ⟨fun o' h => only h ▸ vendor,?_⟩
    rw [addr,vendor,if_neg Bool.false_ne_true]

theorem VendorRead.next (inside : o < 128) (goes : stride b o ≠ 0)
    (option : mid.option = info.option ||| flag edidOptHdmi (hdmiAt b o))
    (addr : mid.hdmiPhyAddr = if vendorAt b o then physAddr b o else info.hdmiPhyAddr)
    (rest : VendorRead b (o + (1 + stride b o)) mid info') : VendorRead b o info info' := by
  have split {o' : Nat} (h : Reached b o o') : o' = o ∨ Reached b (o + (1 + stride b o)) o' := by
    cases h with
    | start => exact .inl rfl
    | next _ _ _ _ more => exact .inr more
  have ahead {o' : Nat} (h : Reached b (o + (1 + stride b o)) o') : Reached b o o' := .next _ _ inside goes h
  refine ⟨?_,?_,?_⟩
  · rintro ⟨o',reached,hdmi⟩
    by_cases later : ∃ o', Reached b (o + (1 + stride b o)) o' ∧ hdmiAt b o' = true
    · rw [rest.hdmi later,option]
      cases hdmiAt b o with
      | true => simp [flag,BitVec.or_assoc]
      | false => simp [flag]
    push Not at later
    have here : hdmiAt b o = true := by
      rcases split reached with rfl | more
      · exact hdmi
      · exact absurd hdmi (later o' more)
    rw [rest.plain fun o' h => by simpa using later o' h,option,here]
    rfl
  · intro none
    rw [rest.plain fun o' h => none o' (ahead h),option,none o (.start o)]
    exact BitVec.or_zero
  · rcases rest.addr with ⟨v,last,same⟩ | ⟨none,same⟩
    · refine .inl ⟨v,⟨ahead last.reached,last.vendor,fun o' h vendor => ?_⟩,same⟩
      rcases split h with rfl | more
      · exact (ahead last.reached).le
      · exact last.last o' more vendor
    rw [addr] at same
    cases vendor : vendorAt b o with
    | true =>
      refine .inl ⟨o,⟨.start o,vendor,fun o' h seen => ?_⟩,?_⟩
      · rcases split h with rfl | more
        · exact le_rfl
        · exact absurd (none o' more) (by simp [seen])
      · rw [same,vendor,if_pos rfl]
    | false =>
      refine .inr ⟨fun o' h => ?_,?_⟩
      · rcases split h with rfl | more
        · exact vendor
        · exact none o' more
      · rw [same,vendor,if_neg Bool.false_ne_true]

theorem dataBlocks_vendor (done : dataBlocks b o info = .ok info') : VendorRead b o info info' := by
  induction o, info using dataBlocks.induct b generalizing info' with
  | case1 o info inside fault failed =>
    rw [dataBlocks,if_pos inside,failed] at done
    cases done
  | case2 o info inside seen round =>
    rw [dataBlocks,if_pos inside,round] at done
    cases done
    obtain ⟨option,addr⟩ := dataBlock_option inside round
    exact .stop (dataBlock_ok inside round).1.symm option addr
  | case3 o info inside seen n round more ih =>
    rw [dataBlocks,if_pos inside,round] at done
    simp only [more,if_false] at done
    obtain ⟨option,addr⟩ := dataBlock_option inside round
    obtain ⟨rfl,_⟩ := dataBlock_ok inside round
    exact .next inside more option addr (ih done)
  | case4 o info outside =>
    rw [dataBlocks,if_neg outside] at done
    cases done

/-- The video code is among those of `cea_vic` that are set. -/
def EdidInfo.HasCode (info : EdidInfo) (code : Nat) : Prop := ∃ h : code < 64, info.hasVic ⟨code, h⟩ = true

/-- The video codes, and the option and address of HDMI if there is a vendor block for it. -/
structure Taken (b : Block) (info info' : EdidInfo) : Prop where
  codes : ∀ code, info'.HasCode code ↔ info.HasCode code ∨ ∃ o, Listed b o ∧ CodeIn b o code
  hdmi : info'.option &&& edidOptHdmi ≠ 0 ↔ ∃ o, Listed b o ∧ hdmiAt b o = true
  addr : (∃ o, Listed b o ∧ hdmiAt b o = true) →
    ∃ o, Listed b o ∧ hdmiAt b o = true ∧ info'.hdmiPhyAddr = physAddr b o
  kept : (¬ ∃ o, Listed b o ∧ hdmiAt b o = true) → info'.hdmiPhyAddr = info.hdmiPhyAddr

/-- What the walk misses or takes in addition is also found on the other side, and the last vendor
block it comes to has the address of an HDMI block of the collection. -/
structure WalkSuits (b : Block) : Prop where
  codesBehind : ∀ o code, Reached b 4 o → timingStart b ≤ o → CodeIn b o code →
    ∃ o', Listed b o' ∧ CodeIn b o' code
  codesHidden : ∀ o code, Listed b o → ¬ Reached b 4 o → CodeIn b o code →
    ∃ o', Reached b 4 o' ∧ CodeIn b o' code
  hdmiBehind : ∀ o, Reached b 4 o → timingStart b ≤ o → hdmiAt b o = true →
    ∃ o', Listed b o' ∧ hdmiAt b o' = true
  hdmiHidden : ∀ o, Listed b o → ¬ Reached b 4 o → hdmiAt b o = true →
    ∃ o', Reached b 4 o' ∧ hdmiAt b o' = true
  vendor : ∀ v, LastVendor b 4 v → ∃ o, Listed b o ∧ hdmiAt b o = true ∧ physAddr b v = physAddr b o

theorem Reached.listed {a : Nat} (h : Reached b a o) (listed : Listed b a) (before : o < timingStart b) :
    Listed b o := by
  induction h with
  | start => exact listed
  | next a o inside goes rest ih =>
    have le := rest.le
    rw [stride_eq_len goes] at rest ih le
    exact ih (.next a listed (by omega)) before

theorem Reached.listed_start (h : Reached b 4 o) (before : o < timingStart b) : Listed b o :=
  h.listed (.first (Nat.lt_of_le_of_lt h.le before)) before

theorem walk_iff {P : Nat → Prop} (behind : ∀ o, Reached b 4 o → timingStart b ≤ o → P o → ∃ o', Listed b o' ∧ P o')
    (hidden : ∀ o, Listed b o → ¬ Reached b 4 o → P o → ∃ o', Reached b 4 o' ∧ P o') :
    (∃ o, Reached b 4 o ∧ P o) ↔ ∃ o, Listed b o ∧ P o := by
  constructor
  · rintro ⟨o,reached,ho⟩
    by_cases before : o < timingStart b
    · exact ⟨o,reached.listed_start before,ho⟩
    · exact behind o reached (Nat.not_lt.mp before) ho
  rintro ⟨o,listed,ho⟩
  by_cases reached : Reached b 4 o
  · exact ⟨o,reached,ho⟩
  · exact hidden o listed reached ho

theorem WalkSuits.codes (h : WalkSuits b) (code : Nat) :
    (∃ o, Reached b 4 o ∧ CodeIn b o code) ↔ ∃ o, Listed b o ∧ CodeIn b o code :=
  walk_iff (fun o => h.codesBehind o code) fun o => h.codesHidden o code

theorem WalkSuits.hdmi (h : WalkSuits b) :
    (∃ o, Reached b 4 o ∧ hdmiAt b o = true) ↔ ∃ o, Listed b o ∧ hdmiAt b o = true :=
  walk_iff h.hdmiBehind h.hdmiHidden

theorem Listed.le (h : Listed b o) : 4 ≤ o := by
  induction h with
  | first => exact le_rfl
  | next => omega

theorem PlainExtension.vendor_listed (h : PlainExtension b) (reached : Reached b 4 o)
    (vendor : vendorAt b o = true) : Listed b o := by
  rcases h.reached_iff.mp reached with listed | rfl
  · exact listed
  · simp only [vendorAt,Bool.and_eq_true,beq_iff_eq,decide_eq_true_eq] at vendor
    have none : len b (timingStart b) = 0 := by simpa [stride,vendor.1] using h.ends
    omega

theorem hdmi_vendor (h : hdmiAt b o = true) : vendorAt b o = true := by
  simp only [hdmiAt,Bool.and_eq_true] at h
  exact h.1.1.1

structure ExtensionRead (b : Block) (info info' : EdidInfo) : Prop where
  codes : ∀ code, info'.HasCode code ↔
    info.HasCode code ∨ code < 64 ∧ ∃ o, Reached b 4 o ∧ CodeIn b o code
  fits : ∀ o code, Reached b 4 o → CodeIn b o code → code < 64
  hdmi : (∃ o, Reached b 4 o ∧ hdmiAt b o = true) →
    info'.option = BitVec.ofNat 32 ((b 3).toNat &&& 0xF0) ||| edidOptValid ||| edidOptHdmi
  plain : (∀ o, Reached b 4 o → hdmiAt b o = false) →
    info'.option = BitVec.ofNat 32 ((b 3).toNat &&& 0xF0) ||| edidOptValid
  addr : (∃ v, LastVendor b 4 v ∧ info'.hdmiPhyAddr = physAddr b v) ∨
    (∀ o, Reached b 4 o → vendorAt b o = false) ∧ info'.hdmiPhyAddr = info.hdmiPhyAddr

theorem edidParseCea_read (valid : ceaValid b = true) (done : edidParseCea info b = .ok info') :
    ExtensionRead b info info' := by
  have fits := edidParseCea_returns.mp ⟨info',done⟩ valid
  rw [edidParseCea,if_pos valid] at done
  obtain ⟨mid,walked,timed⟩ := bind_eq_ok.mp done
  obtain ⟨timings,rfl⟩ := ceaTimings_keeps timed
  have vendors := dataBlocks_vendor walked
  have adds := dataBlocks_adds walked
  refine ⟨fun code => ?_,fun o code reached coded => ?_,vendors.hdmi,vendors.plain,vendors.addr⟩
  · constructor
    · rintro ⟨small,set⟩
      rcases (adds.vics ⟨code,small⟩).mp set with old | new
      · exact .inl ⟨small,old⟩
      · exact .inr ⟨small,new⟩
    · rintro (⟨small,old⟩ | ⟨small,new⟩)
      · exact ⟨small,(adds.vics ⟨code,small⟩).mpr (.inl old)⟩
      · exact ⟨small,(adds.vics ⟨code,small⟩).mpr (.inr new)⟩
  · obtain ⟨video,i,hi,rfl⟩ := coded
    exact fits.blocks.codes o reached video i hi

theorem hdmi_bit (x : BitVec 32) : (x ||| edidOptHdmi) &&& edidOptHdmi ≠ 0 := by
  rw [BitVec.and_or_distrib_right,BitVec.and_self]
  intro zero
  exact absurd (BitVec.or_eq_zero_iff.mp zero).2 (by decide)

theorem low_bit (byte : UInt8) :
    (BitVec.ofNat 32 (byte.toNat &&& 0xF0) ||| edidOptValid) &&& edidOptHdmi = 0 := by
  have all : ∀ n < 256, (BitVec.ofNat 32 (n &&& 0xF0) ||| edidOptValid) &&& edidOptHdmi = 0 := by
    decide +kernel
  exact all byte.toNat byte.toNat_lt

theorem ExtensionRead.hdmi_iff (h : ExtensionRead b info info') :
    info'.option &&& edidOptHdmi ≠ 0 ↔ ∃ o, Reached b 4 o ∧ hdmiAt b o = true := by
  by_cases some : ∃ o, Reached b 4 o ∧ hdmiAt b o = true
  · rw [h.hdmi some]
    exact iff_of_true (hdmi_bit _) some
  · rw [h.plain fun o reached => by simpa using fun hdmi => some ⟨o,reached,hdmi⟩,low_bit]
    exact iff_of_false (fun ne => ne rfl) some

theorem WalkSuits.taken (h : WalkSuits b) (read : ExtensionRead b info info') : Taken b info info' := by
  refine ⟨fun code => ?_,read.hdmi_iff.trans h.hdmi,fun some => ?_,fun none => ?_⟩
  · rw [read.codes,h.codes]
    refine or_congr_right ⟨And.right,fun listed => ⟨?_,listed⟩⟩
    obtain ⟨o,reached,coded⟩ := (h.codes code).mpr listed
    exact read.fits o code reached coded
  · rcases read.addr with ⟨v,last,addr⟩ | ⟨no,_⟩
    · obtain ⟨o,listed,hdmi,same⟩ := h.vendor v last
      exact ⟨o,listed,hdmi,addr.trans same⟩
    · obtain ⟨o,reached,hdmi⟩ := h.hdmi.mpr some
      exact absurd (no o reached) (by simp [hdmi_vendor hdmi])
  · rcases read.addr with ⟨v,last,_⟩ | ⟨_,same⟩
    · obtain ⟨o,listed,hdmi,_⟩ := h.vendor v last
      exact absurd ⟨o,listed,hdmi⟩ none
    · exact same

theorem PlainExtension.walkSuits (h : PlainExtension b)
    (vendors : ∀ o, Reached b 4 o → vendorAt b o = true → hdmiAt b o = true) : WalkSuits b where
  codesBehind o _ reached _ coded := h.codes_iff.mp ⟨o,reached,coded⟩
  codesHidden _ _ listed hidden _ := absurd (h.reached_iff.mpr (.inl listed)) hidden
  hdmiBehind o reached _ hdmi := ⟨o,h.vendor_listed reached (hdmi_vendor hdmi),hdmi⟩
  hdmiHidden _ listed hidden _ := absurd (h.reached_iff.mpr (.inl listed)) hidden
  vendor v last := ⟨v,h.vendor_listed last.reached last.vendor,vendors v last.reached last.vendor,rfl⟩

theorem videoCode_suits : WalkSuits (videoCode 16 164) := by
  refine videoCode_plain.walkSuits fun o reached vendor => ?_
  rcases videoCode_plain.reached_iff.mp reached with listed | rfl
  · cases listed with
    | first => exact absurd vendor (by decide)
    | next o listed more =>
      have top : timingStart (videoCode 16 164) = 6 := by decide
      have low := listed.le
      obtain rfl : o = 4 := by omega
      exact absurd more (by decide)
  · exact absurd vendor (by decide)

theorem extensionFits_of_stop (stop : stride b 4 = 0) (other : tag b 4 ≠ 2) (late : 2 < (b 2).toNat)
    (unused : (extDescriptor b ((b 2).toNat + 18 * 0)).ceaClock = 0) : ExtensionFits b := by
  have first : Walkable b 4 :=
    walkable_of_next (by decide) (fun video => absurd video other) fun goes => absurd stop goes
  exact ⟨first,.inl late,fun k _ clocks => absurd unused (clocks 0 (Nat.zero_le k))⟩

end Apc8750.Edid
