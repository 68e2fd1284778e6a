import Apc8750.Edid.Contents

namespace Apc8750.Edid

variable {b : Block} {o : Nat} {info : EdidInfo} {e : Buffer} {m : Mode}

def Mode.word (m : Mode) : BitVec 32 := Edid.word m.freq m.interlaced

theorem exists_slot {α : Type} {n : Nat} {v : Vector α n} {p : α → Bool} :
    (∃ a ∈ v.toList, p a = true) ↔ ∃ j : Fin n, p v[j] = true := by
  simp only [Vector.mem_toList_iff,Vector.mem_iff_getElem]
  constructor
  · rintro ⟨_,⟨i,hi,rfl⟩,h⟩
    exact ⟨⟨i,hi⟩,h⟩
  · rintro ⟨j,h⟩
    exact ⟨_,⟨j,j.isLt,rfl⟩,h⟩

theorem found_iff {x y : Nat} {w : BitVec 32} : (edidFindSupport info x y w).1 ≠ 0 ↔
    (∃ t ∈ info.ceaTiming.toList, t.ceaMatches x y w = true) ∨ findVic info x y w = true ∨
    (∃ t ∈ info.detailTiming.toList, t.detailMatches x y w = true) ∨
    findEstablished info x y w = true ∨ findStandard info x y w = true := by
  rw [← List.find?_isSome,← List.find?_isSome,edidFindSupport]
  cases info.ceaTiming.toList.find? fun t => t.ceaMatches x y w with
  | some t => simp
  | none =>
    cases findVic info x y w with
    | true => simp
    | false =>
      cases info.detailTiming.toList.find? fun t => t.detailMatches x y w with
      | some t => simp
      | none =>
        cases findEstablished info x y w <;> cases findStandard info x y w <;> simp

theorem Descriptor.mode_eq_iff {d : Descriptor} : d.mode = m ↔ m.resx = d.hActive ∧
    m.resy = (if d.interlaced then d.vActive * 2 else d.vActive) ∧ m.freq = roundFps d.fps ∧
    m.interlaced = d.interlaced := by
  cases m
  simp only [Descriptor.mode,Mode.mk.injEq,eq_comm]

theorem word_eq_iff {fps : Nat} {i : Bool} (rate : fps < 256) (eight : m.freq < 256) :
    m.word = word (roundFps fps % 256) i ↔ m.freq = roundFps fps ∧ m.interlaced = i := by
  have round : roundFps fps < 256 := by
    unfold roundFps
    split <;> omega
  rw [Nat.mod_eq_of_lt round]
  exact word_inj (by omega) (by omega)

theorem extensionTiming_matches {d : Descriptor} (clock : d.pixelClock ≠ 0) (rate : d.fps < 256)
    (eight : m.freq < 256) :
    (extensionTiming d).ceaMatches m.resx m.resy m.word = true ↔ d.mode = m := by
  obtain ⟨mark,freq⟩ := ceaDescribed_freq d d.fps
  have stored : (extensionTiming d).pixelClock ≠ 0 := by
    rw [← d.ceaClock_eq] at clock
    exact clock
  simp only [VppTiming.ceaMatches,Bool.and_eq_true,bne_iff_ne,beq_iff_eq,stored,ne_eq,
    not_false_eq_true,true_and,and_assoc,d.mode_eq_iff]
  rw [show (extensionTiming d).freq = _ from freq,show (extensionTiming d).interlaced = _ from mark,
    word_eq_iff rate eight,show (extensionTiming d).hpixel = d.hActive from d.ceaHpixel_eq,
    show (extensionTiming d).vpixel = d.vActive from d.ceaVpixel_eq]

theorem baseTiming_matches {d : Descriptor} (clock : d.pixelClock ≠ 0) (rate : d.fps < 256)
    (whole : d.interlaced = false) (eight : m.freq < 256) :
    (baseTiming d).detailMatches m.resx m.resy m.word = true ↔ d.mode = m := by
  obtain ⟨mark,freq⟩ := describedTiming_freq d d.fps
  have stored : (baseTiming d).pixelClock ≠ 0 := clock
  simp only [VppTiming.detailMatches,Bool.and_eq_true,bne_iff_ne,beq_iff_eq,stored,ne_eq,
    not_false_eq_true,true_and,and_assoc,d.mode_eq_iff]
  rw [show (baseTiming d).freq = _ from freq,word_eq_iff rate eight,whole]
  rfl

theorem baseTiming_found {base : EdidInfo} (read : BaseRead e.base (List.finRange 4) base)
    (same : info.detailTiming = base.detailTiming) (plain : Plain e) (eight : m.freq < 256) :
    (∃ j : Fin 4, info.detailTiming[j].detailMatches m.resx m.resy m.word = true) ↔
      ∃ i, blockType (baseDescriptor e.base i) = .detailedTimingBlock ∧
        (baseDescriptor e.base i).mode = m := by
  rw [same]
  constructor
  · rintro ⟨j,found⟩
    have clock : base.detailTiming[j].pixelClock ≠ 0 := by
      simp only [VppTiming.detailMatches,Bool.and_eq_true,bne_iff_ne] at found
      exact found.1.1.1
    obtain ⟨i,_,detailed,slot⟩ := (read.timings _ clock).mp ⟨j,rfl⟩
    obtain ⟨whole,rate⟩ := plain.detailed i detailed
    rw [slot,baseTiming_matches (clock_ne_zero detailed) rate whole eight] at found
    exact ⟨i,detailed,found⟩
  · rintro ⟨i,detailed,mode⟩
    obtain ⟨whole,rate⟩ := plain.detailed i detailed
    have clock := clock_ne_zero detailed
    obtain ⟨j,slot⟩ := (read.timings (baseTiming (baseDescriptor e.base i)) clock).mpr
      ⟨i,List.mem_finRange i,detailed,rfl⟩
    exact ⟨j,by rwa [slot,baseTiming_matches clock rate whole eight]⟩

theorem Reached.le (h : Reached b o o') : o ≤ o' := by
  induction h with
  | start => exact le_rfl
  | next => omega

theorem Reached.snoc (h : Reached b o o') (inside : o' < 128) (goes : stride b o' ≠ 0) :
    Reached b o (o' + (1 + stride b o')) := by
  induction h with
  | start o => exact .next _ _ inside goes (.start _)
  | next o o' first some rest ih => exact .next _ _ first some (ih inside goes)

theorem Reached.order (hx : Reached b o x) (hy : Reached b o y) :
    Reached b x y ∨ Reached b y x := by
  induction hx with
  | start => exact .inl hy
  | next o x inside goes rest ih =>
    cases hy with
    | start => exact .inr (.next _ _ inside goes rest)
    | next _ _ _ _ rest' => exact ih rest'

theorem Reached.eq_of_stop (h : Reached b o o') (stop : stride b o = 0) : o' = o := by
  cases h with
  | start => rfl
  | next _ _ _ goes _ => exact absurd stop goes

theorem stride_eq_len (h : stride b o ≠ 0) : stride b o = len b o := by
  unfold stride at h ⊢
  split at h
  · rename_i listed
    rw [if_pos listed]
  · exact absurd rfl h

section
variable (h : PlainExtension b)
include h

theorem PlainExtension.to_start (reached : Reached b 4 o) :
    Reached b o (timingStart b) := by
  rcases reached.order h.walk with on | past
  · exact on
  · rw [past.eq_of_stop h.ends]
    exact .start _

theorem PlainExtension.goes (reached : Reached b 4 o)
    (before : o ≠ timingStart b) : o < 128 ∧ stride b o ≠ 0 := by
  cases h.to_start reached with
  | start => exact absurd rfl before
  | next _ _ inside goes _ => exact ⟨inside,goes⟩

theorem PlainExtension.listed {a : Nat} (more : Reached b a o)
    (on : Reached b 4 a) (listed : Listed b a) (before : o ≠ timingStart b) : Listed b o := by
  induction more with
  | start => exact listed
  | next a o inside goes rest ih =>
    have on' := on.snoc inside goes
    have short : a + (1 + stride b a) ≠ timingStart b := by
      intro last
      rw [last] at rest
      exact before (rest.eq_of_stop h.ends)
    have le := (h.to_start on').le
    rw [stride_eq_len goes] at on' short le rest ih
    exact ih on' (.next a listed (by omega)) before

theorem PlainExtension.reached_iff :
    Reached b 4 o ↔ Listed b o ∨ o = timingStart b := by
  constructor
  · intro reached
    by_cases last : o = timingStart b
    · exact .inr last
    · have low := reached.le
      have high := (h.to_start reached).le
      exact .inl (h.listed reached (.start 4) (.first (by omega)) last)
  rintro (listed | rfl)
  · induction listed with
    | first some => exact .start 4
    | next o listed more ih =>
      obtain ⟨inside,goes⟩ := h.goes ih (by omega)
      have next := ih.snoc inside goes
      rwa [stride_eq_len goes] at next
  · exact h.walk

theorem PlainExtension.codes_iff :
    (∃ o, Reached b 4 o ∧ CodeIn b o code) ↔ ∃ o, Listed b o ∧ CodeIn b o code := by
  constructor
  · rintro ⟨o,reached,coded⟩
    rcases h.reached_iff.mp reached with listed | rfl
    · exact ⟨o,listed,coded⟩
    · obtain ⟨video,i,hi,_⟩ := coded
      have none : len b (timingStart b) = 0 := by simpa [stride,video] using h.ends
      omega
  · rintro ⟨o,listed,coded⟩
    exact ⟨o,h.reached_iff.mpr (.inl listed),coded⟩

theorem PlainExtension.timings_iff :
    k < timingSlots b ∧ Clocked b (timingStart b) k ↔ TimingListed b k := by
  have low := h.walk.le
  constructor
  · rintro ⟨slot,clocked⟩
    refine ⟨by omega,?_,clocked⟩
    rcases h.padded with rest | ⟨j,hj,clock⟩
    · unfold timingSlots at slot
      omega
    have later : k < j := by
      by_contra early
      exact clocked j (by omega) clock
    unfold timingSlots at hj
    omega
  · rintro ⟨_,room,clocked⟩
    exact ⟨by unfold timingSlots; omega,clocked⟩

end

theorem extensionTiming_found {base : EdidInfo} (read : ExtensionsRead base (accepted e) info)
    (plain : Plain e) (eight : m.freq < 256) :
    (∃ j : Fin 6, info.ceaTiming[j].ceaMatches m.resx m.resy m.word = true) ↔
      ∃ b ∈ accepted e, ∃ k, TimingListed b k ∧ (extTiming b k).mode = m := by
  constructor
  · rintro ⟨j,found⟩
    have clock : info.ceaTiming[j].pixelClock ≠ 0 := by
      simp only [VppTiming.ceaMatches,Bool.and_eq_true,bne_iff_ne] at found
      exact found.1.1.1
    obtain ⟨b,mem,k,slot,clocked,stored⟩ := (read.timings _ clock).mp ⟨j,rfl⟩
    have listed := (plain.extensions b mem).timings_iff.mp ⟨slot,clocked⟩
    rw [stored,extensionTiming_matches (listed.2.2 k le_rfl)
      ((plain.extensions b mem).rates k listed) eight] at found
    exact ⟨b,mem,k,listed,found⟩
  · rintro ⟨b,mem,k,listed,mode⟩
    obtain ⟨slot,clocked⟩ := (plain.extensions b mem).timings_iff.mpr listed
    have clock := listed.2.2 k le_rfl
    have stored : (extensionTiming (extTiming b k)).pixelClock ≠ 0 := by
      rw [← (extTiming b k).ceaClock_eq] at clock
      exact clock
    obtain ⟨j,same⟩ := (read.timings _ stored).mpr ⟨b,mem,k,slot,clocked,rfl⟩
    exact ⟨j,by rwa [same,extensionTiming_matches clock
      ((plain.extensions b mem).rates k listed) eight]⟩

theorem ofNat_eq_iff (hf : f < 256) (hg : g < 256) :
    BitVec.ofNat 32 f = BitVec.ofNat 32 g ↔ f = g := by
  rw [← word_false f,← word_false g,word_inj (by omega) (by omega)]
  simp

theorem HdmiVic.matches_iff {v : HdmiVic} (known : v ∈ hdmiVicInfo) (eight : m.freq < 256) :
    v.matches m.resx m.resy m.word = true ↔ v.mode = m := by
  have rates : ∀ v ∈ hdmiVicInfo, v.freq < 256 := by decide
  have rate := rates v known
  have mark : v.option &&& hdmiVicInterlace =
      (if m.interlaced then hdmiVicInterlace else hdmiVicProgress) ↔
      (v.option &&& hdmiVicInterlace != 0) = m.interlaced := by
    unfold hdmiVicInterlace hdmiVicProgress
    cases m.interlaced <;> simp
  simp only [HdmiVic.matches,Mode.word,word_freq m.interlaced eight,
    word_interlace m.interlaced (show m.freq < 2 ^ 31 by omega),Bool.and_eq_true,beq_iff_eq,mark,
    ofNat_eq_iff eight rate]
  cases m
  simp only [HdmiVic.mode,Mode.mk.injEq,and_assoc,eq_comm]

theorem findVic_iff {base : EdidInfo} (read : ExtensionsRead base (accepted e) info)
    (plain : Plain e) (eight : m.freq < 256) :
    findVic info m.resx m.resy m.word = true ↔ ∃ b ∈ accepted e, ∃ o code, Listed b o ∧
      CodeIn b o code ∧ ∃ v, hdmiVicInfo[code]? = some v ∧ v.mode = m := by
  simp only [findVic,List.any_eq_true,List.mem_finRange,true_and,Bool.and_eq_true,
    Option.any_eq_true,read.vics]
  constructor
  · rintro ⟨i,⟨b,mem,reached⟩,v,row,found⟩
    obtain ⟨o,listed,coded⟩ := (plain.extensions b mem).codes_iff.mp reached
    exact ⟨b,mem,o,i,listed,coded,v,row,
      (HdmiVic.matches_iff (List.mem_of_getElem? row) eight).mp found⟩
  rintro ⟨b,mem,o,code,listed,coded,v,row,mode⟩
  have known : code < 35 := (List.getElem?_eq_some_iff.mp row).1
  exact ⟨⟨code,by omega⟩,⟨b,mem,(plain.extensions b mem).codes_iff.mpr ⟨o,listed,coded⟩⟩,
    v,row,(HdmiVic.matches_iff (List.mem_of_getElem? row) eight).mpr mode⟩

def EdidTiming.mode (t : EdidTiming) : Mode where
  resx := t.resx
  resy := t.resy
  freq := t.freq

theorem EdidTiming.matches_iff {t : EdidTiming} (rate : t.freq < 256) (eight : m.freq < 256) :
    t.matches m.resx m.resy m.word = true ↔ t.mode = m := by
  have asked : m.word = BitVec.ofNat 32 t.freq ↔ m.freq = t.freq ∧ m.interlaced = false := by
    rw [← word_false]
    exact word_inj (by omega) (by omega)
  simp only [EdidTiming.matches,Bool.and_eq_true,beq_iff_eq,asked]
  cases m
  simp only [EdidTiming.mode,Mode.mk.injEq,and_assoc,eq_comm]

theorem establishTiming_testBit (hi : i < 17) (none : establishedBit b 16 = false) :
    ((b 0x23).toNat + (b 0x24).toNat <<< 8).testBit i = establishedBit b i := by
  have low := (b 0x23).toNat_lt
  have high := (b 0x24).toNat_lt
  rw [Nat.add_comm,Nat.shiftLeft_add_eq_or_of_lt low,Nat.testBit_or,Nat.testBit_shiftLeft]
  by_cases first : i < 8
  · simp [establishedBit,first]
  have above : (b 0x23).toNat.testBit i = false :=
    Nat.testBit_lt_two_pow (low.trans_le (Nat.pow_le_pow_right (by omega) (by omega)))
  by_cases second : i < 16
  · simp [establishedBit,first,second,above,show 8 ≤ i by omega]
  · obtain rfl : i = 16 := by omega
    rw [above,none]
    simpa using Nat.testBit_lt_two_pow high

theorem findEstablished_iff (bits : info.establishTiming =
    (e.base 0x23).toNat + (e.base 0x24).toNat <<< 8) (plain : Plain e) (eight : m.freq < 256) :
    findEstablished info m.resx m.resy m.word = true ↔
      ∃ k, establishedModes[k]? = some m ∧ establishedBit e.base k = true := by
  have rows : ∀ i : Fin 17, i ≠ 12 →
      establishedModes[i.val]? = (edidEstablishTiming[i.val]?).map EdidTiming.mode := by decide
  have rates : ∀ t ∈ edidEstablishTiming, t.freq < 256 := by decide
  obtain ⟨interlaced,manufacturer⟩ := plain.established
  simp only [findEstablished,bits,Bool.and_eq_true,List.any_eq_true,List.mem_finRange,true_and,
    Option.any_eq_true]
  constructor
  · rintro ⟨_,i,bit,t,row,found⟩
    rw [establishTiming_testBit i.isLt manufacturer] at bit
    have plainRow : i ≠ 12 := by
      intro twelve
      rw [show i.val = 12 from congrArg Fin.val twelve,interlaced] at bit
      cases bit
    refine ⟨i,?_,bit⟩
    rw [rows i plainRow,row,Option.map_some,
      (EdidTiming.matches_iff (rates t (List.mem_of_getElem? row)) eight).mp found]
  · rintro ⟨k,mode,bit⟩
    have hk : k < 17 := (List.getElem?_eq_some_iff.mp mode).1
    have plainRow : (⟨k,hk⟩ : Fin 17) ≠ 12 := by
      intro twelve
      rw [show k = 12 from congrArg Fin.val twelve,interlaced] at bit
      cases bit
    have row := (rows ⟨k,hk⟩ plainRow).symm.trans mode
    obtain ⟨t,entry,same⟩ := Option.map_eq_some_iff.mp row
    rw [← establishTiming_testBit hk manufacturer] at bit
    refine ⟨?_,⟨k,hk⟩,bit,t,entry,
      (EdidTiming.matches_iff (rates t (List.mem_of_getElem? entry)) eight).mpr same⟩
    rw [bne_iff_ne]
    intro zero
    rw [zero,Nat.zero_testBit] at bit
    cases bit

theorem standardTimings_getElem {l : List (Fin 8)} {timings : Vector EdidTiming 8}
    (together : l.Pairwise fun i j => ¬ StandardUsed b i → ¬ StandardUsed b j) (nodup : l.Nodup)
    (j : Nat) (hj : j < 8) : (standardTimings b l timings)[j] =
      if ⟨j,hj⟩ ∈ l ∧ StandardUsed b ⟨j,hj⟩ then
        standardEntry (standardBytes b ⟨j,hj⟩).1 (standardBytes b ⟨j,hj⟩).2 else timings[j] := by
  induction l generalizing timings with
  | nil => simp [standardTimings]
  | cons i l ih =>
    rw [List.pairwise_cons] at together
    rw [List.nodup_cons] at nodup
    by_cases used : StandardUsed b i
    · have more : standardTimings b (i :: l) timings = standardTimings b l
          (timings.set i (standardEntry (standardBytes b i).1 (standardBytes b i).2)) :=
        if_neg fun unused => used (Prod.ext unused.1 unused.2)
      rw [more,ih together.2 nodup.2]
      by_cases same : (⟨j,hj⟩ : Fin 8) = i
      · subst same
        simp [nodup.1,used]
      · have apart : i.val ≠ j := fun h => same (Fin.ext h.symm)
        simp [same,apart]
    · have stop : standardTimings b (i :: l) timings = timings :=
        if_pos (Prod.ext_iff.mp (not_not.mp used))
      rw [stop,if_neg]
      rintro ⟨mem,here⟩
      rcases List.mem_cons.mp mem with rfl | later
      · exact used here
      · exact together.1 ⟨j,hj⟩ later used here

theorem standardEntry_mode {square : Bool} {byte1 byte2 : Nat} (byte : byte2 < 256)
    (rate : byte2.testBit 5 = false) (aspect : byte2 &&& 0xC0 = 0 → square = false) :
    (standardEntry byte1 byte2).mode = standardMode square byte1 byte2 := by
  have bytes : ∀ n < 256, (n &&& 0xC0 = 0 ∨ n &&& 0xC0 = 0x40 ∨ n &&& 0xC0 = 0x80 ∨
      n &&& 0xC0 = 0xC0) ∧ (n.testBit 5 = false → n &&& 0x3F = n &&& 0x1F) := by decide +kernel
  obtain ⟨ratio,low⟩ := bytes byte2 byte
  unfold EdidTiming.mode standardEntry standardMode
  rcases ratio with h | h | h | h
  · simp [h,low rate,aspect h]
  · simp [h,low rate]
  · simp [h,low rate]
  · simp [h,low rate]

theorem findStandard_iff (timings : info.standardTiming =
    standardTimings e.base (List.finRange 8) (Vector.replicate 8 {})) (plain : Plain e)
    (eight : m.freq < 256) :
    findStandard info m.resx m.resy m.word = true ↔ ∃ i, StandardUsed e.base i ∧
      standardMode (beforeV13 e.base) (standardBytes e.base i).1 (standardBytes e.base i).2 = m := by
  have together : (List.finRange 8).Pairwise fun i j =>
      ¬ StandardUsed e.base i → ¬ StandardUsed e.base j :=
    (List.pairwise_lt_finRange 8).imp fun lt => plain.standardTogether _ _ (Fin.le_of_lt lt)
  have entry (i : Fin 8) : info.standardTiming[i] = if StandardUsed e.base i then
      standardEntry (standardBytes e.base i).1 (standardBytes e.base i).2 else {} := by
    rw [timings,Fin.getElem_fin,standardTimings_getElem together (List.nodup_finRange 8)]
    simp
  rw [findStandard,List.any_eq_true,exists_slot]
  refine exists_congr fun i => ?_
  rw [entry i]
  by_cases used : StandardUsed e.base i
  · have byte : (standardBytes e.base i).2 < 256 := UInt8.toNat_lt _
    have mode : (standardEntry (standardBytes e.base i).1 (standardBytes e.base i).2).mode =
        standardMode (beforeV13 e.base) (standardBytes e.base i).1 (standardBytes e.base i).2 :=
      standardEntry_mode byte (plain.standardRate i used) (plain.standardAspect i used)
    have rate : (standardEntry (standardBytes e.base i).1 (standardBytes e.base i).2).freq < 256 :=
      Nat.lt_of_le_of_lt (Nat.add_le_add_right Nat.and_le_right 60) (by decide)
    have wide : (standardEntry (standardBytes e.base i).1 (standardBytes e.base i).2).resx ≠ 0 :=
      Nat.succ_ne_zero _
    rw [if_pos used,Bool.and_eq_true,bne_iff_ne,EdidTiming.matches_iff rate eight,mode]
    simp [wide,used]
  · simp [used]

/-- A mode of eight-bit rate is found exactly if advertised, in an EDID read as meant. -/
theorem advertised_modes_found (e : Buffer) (valid : baseValid e.base = true) (plain : Plain e) :
    ∃ info, edidParse e = .ok info ∧ ∀ m : Mode, m.freq < 256 →
      ((edidFindSupport info m.resx m.resy m.word).1 ≠ 0 ↔ Advertised e m) := by
  obtain ⟨info, done⟩ := plain.fits.parse valid
  obtain ⟨base, first, rest⟩ := edidParse_ok valid plain.once done
  refine ⟨info, done, fun m eight => ?_⟩
  have cea : (∃ t ∈ info.ceaTiming.toList, t.ceaMatches m.resx m.resy m.word = true) ↔
      ∃ j : Fin 6, info.ceaTiming[j].ceaMatches m.resx m.resy m.word = true := exists_slot
  have detail : (∃ t ∈ info.detailTiming.toList, t.detailMatches m.resx m.resy m.word = true) ↔
      ∃ j : Fin 4, info.detailTiming[j].detailMatches m.resx m.resy m.word = true := exists_slot
  rw [found_iff, cea, extensionTiming_found rest plain eight, findVic_iff rest plain eight, detail,
    baseTiming_found first rest.detailTiming plain eight,
    findEstablished_iff (rest.establishTiming.trans first.establishTiming) plain eight,
    findStandard_iff (rest.standardTiming.trans first.standardTiming) plain eight]
  constructor
  · rintro (⟨b, mem, k, listed, rfl⟩ | ⟨b, mem, o, code, listed, coded, v, known, rfl⟩ |
      ⟨i, timing, rfl⟩ | ⟨k, mode, bit⟩ | ⟨i, used, rfl⟩)
    · exact .extension b k mem listed
    · exact .video b o code v mem listed coded known
    · exact .detailed i timing
    · exact .established k m mode bit
    · exact .standard i used
  · intro advertised
    cases advertised with
    | extension b k mem listed => exact .inl ⟨b, mem, k, listed, rfl⟩
    | video b o code v mem listed coded known =>
      exact .inr (.inl ⟨b, mem, o, code, listed, coded, v, known, rfl⟩)
    | detailed i timing => exact .inr (.inr (.inl ⟨i, timing, rfl⟩))
    | established k m mode bit => exact .inr (.inr (.inr (.inl ⟨k, mode, bit⟩)))
    | standard i used => exact .inr (.inr (.inr (.inr ⟨i, used, rfl⟩)))

theorem accepted_monitor (valid : ceaValid extension = true) :
    accepted (monitor extension) = [extension] := by
  rw [accepted,monitor_extensions]
  simp [valid]

theorem videoCode_valid : ceaValid (videoCode 16 164) = true := by decide +kernel

theorem videoCode_plain : PlainExtension (videoCode 16 164) where
  walk := .next 4 6 (by decide) (by decide) (.start 6)
  ends := by decide
  padded := .inl (by decide)
  rates k listed := absurd (by decide) (listed.2.2 0 (Nat.zero_le k))

theorem monitor_plain : Plain (monitor (videoCode 16 164)) := by
  have unused : ∀ i, ¬ StandardUsed announcing i := by decide
  refine ⟨monitor_fits,by decide,fun i j _ _ => unused j,fun i used => absurd used (unused i),
    fun i used => absurd used (unused i),fun i detailed => absurd detailed (announcing_timings i),
    ?_,?_⟩
  · rw [accepted_monitor videoCode_valid]
    intro b hb
    rw [List.mem_singleton.mp hb]
    exact videoCode_plain
  · rw [accepted_monitor videoCode_valid]
    exact List.pairwise_singleton _ _

theorem advertised_modes_found_code : Plain (monitor (videoCode 16 164)) ∧
    ∃ info, edidParse (monitor (videoCode 16 164)) = .ok info ∧
      (edidFindSupport info 1920 1080 (word 60 false)).1 ≠ 0 := by
  refine ⟨monitor_plain, ?_⟩
  obtain ⟨info, done, found⟩ := advertised_modes_found _ (monitor_valid _) monitor_plain
  refine ⟨info, done, (found ⟨1920, 1080, 60, false⟩ (by decide)).mpr ?_⟩
  have mem : videoCode 16 164 ∈ accepted (monitor (videoCode 16 164)) := by
    rw [accepted_monitor videoCode_valid]
    exact List.mem_singleton_self _
  exact .video _ 4 16 ⟨1920, 1080, 60, 0⟩ mem (.first (by decide)) ⟨by decide, 0, by decide, by decide⟩
    (by decide)

def fieldTiming : Block := fun i =>
  if 0x26 ≤ i.val ∧ i.val < 0x36 then 0x01
  else match i.val with
    | 1 | 2 | 3 | 4 | 5 | 6 => 0xff
    | 0x36 => 0x01
    | 0x37 => 0x1D
    | 0x38 => 0x80
    | 0x39 => 0x18
    | 0x3A => 0x71
    | 0x3B => 0x1C
    | 0x3C => 0x16
    | 0x3D => 0x20
    | 0x3E => 0x58
    | 0x3F => 0x2C
    | 0x40 => 0x25
    | 0x42 => 0xC4
    | 0x43 => 0x8E
    | 0x44 => 0x21
    | 0x47 => 0x9E
    | 127 => 195
    | _ => 0

def fieldMonitor : Buffer where
  base := fieldTiming
  extensions := #v[fun _ => 0, fun _ => 0, fun _ => 0]

theorem advertised_fields_missed : baseValid fieldMonitor.base = true ∧
    Advertised fieldMonitor ⟨1920, 1080, 60, true⟩ ∧ ∃ info, edidParse fieldMonitor = .ok info ∧
      (edidFindSupport info 1920 1080 (word 60 true)).1 = 0 := by
  have mode : (baseDescriptor fieldMonitor.base 0).mode = ⟨1920, 1080, 60, true⟩ := by
    decide +kernel
  refine ⟨by decide +kernel, mode ▸ .detailed 0 (by decide), ?_⟩
  have missed : ((edidParse fieldMonitor).toOption.any fun info =>
      (edidFindSupport info 1920 1080 (word 60 true)).1 == 0) = true := by decide +kernel
  cases done : edidParse fieldMonitor with
  | error fault =>
    rw [done] at missed
    cases missed
  | ok info =>
    rw [done] at missed
    exact ⟨info, rfl, by simpa [Except.toOption] using missed⟩

end Apc8750.Edid
